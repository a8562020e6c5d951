import Ferry.Callback.Trampoline
import Ferry.Proofs.Callback.Frames
import Ferry.Proofs.Callback.Paths
import Ferry.Proofs.Plan.Keeping

/-!
# Runs of the machine

Native code and the callables of the host do what they like, except that they get at callbacks only through the engine:
`Outside` lists what an action of theirs can be made of. `Traces` reads off what happens to callbacks while such an
action runs, call by call, with calls nested as deep as they are. Every action of the outside has a trace
(`exists_traces`), and every trace is a path between the moments at which the action begins and ends (`Traces.path`).
-/

set_option autoImplicit false

namespace Ferry

variable {World : Type}

/-- What native code and the callables of the host can do: leave callbacks alone, give tokens to the destroy notifier,
clear the registry, call functions, and all of that in sequence. -/
inductive Outside : {α : Type} → Run World α → Prop
  | untouched {α : Type} {act : Run World α} (untouched : ∀ M : Machine World, M.engine.Untouched (act M).2.engine) :
    Outside act
  | bind {α β : Type} {act : Run World α} {next : α → Run World β} (first : Outside act) (later : ∀ a, Outside (next a)) :
    Outside (act >>= next)
  | notify (token : UInt64) : Outside (Run.engine (EngineM.notifyDestroyed token))
  | cleanup : Outside (Run.engine EngineM.clearDurable)
  | call {host : Host World} (enter : ∀ address arguments, Outside (host.enter address arguments)) (function : Nat)
    (receiver : Option Value) (arguments : List Value) : Outside (callFunction host function receiver arguments)

namespace Frame

/-- The callbacks that the frame keeps when native code is entered. -/
def staying (f : Frame) : List Callback := f.callbacks.filter (!·.isDurable)

def leaving (f : Frame) : List Callback := f.callbacks.filter (·.isDurable)

def started (f : Frame) (settings : InvokeSettings) (s : Engine) : Engine :=
  s.noted settings (.callStarted f.plan.name f.plan.slotCount)

/-- The engine when the durable callbacks are registered. -/
def registering (f : Frame) (s : Engine) : Engine := (EngineM.registerAll f.leaving s).2

def counted (f : Frame) (s : Engine) : Engine :=
  (EngineM.count (fun c => { c with calls := c.calls + 1 }) (f.registering s)).2

end Frame

/-- What happens to callbacks while an action runs inside of the frames listed. -/
inductive Traces : {α : Type} → Run World α → Machine World → List (List Callback) → Course → Prop
  | acted {α : Type} {act : Run World α} {M : Machine World} {fs : List (List Callback)}
    (untouched : M.engine.Untouched (act M).2.engine) : Traces act M fs [(.acted, ⟨(act M).2.engine, fs⟩)]
  | bind {α β : Type} {act : Run World α} {next : α → Run World β} {M : Machine World} {fs : List (List Callback)}
    {τ τ' : Course} (first : Traces act M fs τ) (later : Traces (next (act M).1) (act M).2 fs τ') :
    Traces (act >>= next) M fs (τ ++ τ')
  | notified {M : Machine World} {fs : List (List Callback)} (token : UInt64) :
    Traces (Run.engine (EngineM.notifyDestroyed token)) M fs
      [(.notified token, ⟨(EngineM.notifyDestroyed token M.engine).2, fs⟩)]
  | cleared {M : Machine World} {fs : List (List Callback)} :
    Traces (Run.engine EngineM.clearDurable) M fs [(.cleared, ⟨(EngineM.clearDurable M.engine).2, fs⟩)]
  | unbuilt {p : Plan} {host : Host World} {settings : InvokeSettings} {receiver : Option Value} {arguments : List Value}
    {M : Machine World} {fs : List (List Callback)} {f₀ f : Frame} {s₀ s₁ : Engine} {e : InvokeFailure}
    (coherent : p.Coherent) (admitted : p.Admits settings arguments) (enough : p.inputs ≤ arguments.length)
    (fresh : Frame.fresh? p M.engine = (some f₀, s₀))
    (failed : f₀.run (FrameM.build receiver arguments) s₀ = ((.error e, f), s₁)) :
    Traces (p.execute host settings receiver arguments) M fs
      [(.opened f.callbacks, ⟨s₁, fs ++ [f.callbacks]⟩), (.closed, ⟨(f.reclaim s₁).2, fs⟩)]
  | refused {p : Plan} {host : Host World} {settings : InvokeSettings} {receiver : Option Value} {arguments : List Value}
    {M N : Machine World} {fs : List (List Callback)} {f g : Frame} {s : Engine} {e : InvokeFailure}
    (coherent : p.Coherent) (admitted : p.Admits settings arguments)
    (built : p.prepare receiver arguments M.engine = (.ok f, s))
    (refused : f.execute host ⟨f.started settings s, M.world⟩ = ((.error e, g), N)) :
    Traces (p.execute host settings receiver arguments) M fs
      [(.opened f.callbacks, ⟨s, fs ++ [f.callbacks]⟩), (.acted, ⟨f.started settings s, fs ++ [f.callbacks]⟩),
        (.withdrawn, ⟨N.engine, fs ++ [f.staying]⟩), (.closed, ⟨(g.reclaim N.engine).2, fs⟩)]
  | entered {p : Plan} {host : Host World} {settings : InvokeSettings} {receiver : Option Value} {arguments : List Value}
    {M N : Machine World} {fs : List (List Callback)} {f g h : Frame} {s s' : Engine} {r : Except InvokeFailure Value}
    {τ : Course} (coherent : p.Coherent) (admitted : p.Admits settings arguments)
    (built : p.prepare receiver arguments M.engine = (.ok f, s))
    (entered : f.execute host ⟨f.started settings s, M.world⟩ = ((.ok (), g), N))
    (inside : Traces (host.enter f.plan.native.address (f.plan.native.arguments.zip f.slots))
      ⟨f.counted (f.started settings s), M.world⟩ (fs ++ [f.staying]) τ)
    (collected : g.run FrameM.collect (N.engine.noted settings (.callReturned g.plan.name)) = ((r, h), s')) :
    Traces (p.execute host settings receiver arguments) M fs
      ((.opened f.callbacks, ⟨s, fs ++ [f.callbacks]⟩) :: (.acted, ⟨f.started settings s, fs ++ [f.callbacks]⟩) ::
        (.entered, ⟨f.registering (f.started settings s), fs ++ [f.staying]⟩) ::
        (.acted, ⟨f.counted (f.started settings s), fs ++ [f.staying]⟩) ::
        (τ ++ [(.acted, ⟨s', fs ++ [f.staying]⟩), (.closed, ⟨(h.reclaim s').2, fs⟩)]))

theorem Traces.bind_of {α β : Type} {act : Run World α} {next : α → Run World β} {M N : Machine World} {a : α}
    {fs : List (List Callback)} {τ τ' : Course} (first : Traces act M fs τ) (ran : act M = (a, N))
    (later : Traces (next a) N fs τ') : Traces (act >>= next) M fs (τ ++ τ') := by
  refine .bind first ?_
  rw [ran]
  exact later

/-! ## One call -/

theorem untouched_noted (s : Engine) (settings : InvokeSettings) (entry : LogEntry) :
    s.Untouched (s.noted settings entry) := by
  unfold Engine.noted
  split
  · exact EngineM.quiet_log entry s
  · exact .refl s

namespace Frame

variable {host : Host World} {f g : Frame} {M N : Machine World} {e : InvokeFailure}

theorem call_error {native : NativeSignature} {slots : List Slot} {e : CallError}
    (run : native.call host slots M = (.error e, N)) : N = M := by
  unfold NativeSignature.call at run
  split at run
  · cases run
    rfl
  · split at run
    · cases run
      rfl
    · cases run

theorem execute_error (refused : f.execute host M = ((.error e, g), N)) :
    g = f.withoutDurable ∧ N = ⟨(EngineM.withdraw f.leaving M.engine).2, M.world⟩ := by
  have handed := handOverDurable_eq f M.engine
  rcases called : f.withoutDurable.plan.native.call host f.withoutDurable.slots ⟨f.registering M.engine, M.world⟩
    with ⟨r, N'⟩
  cases r with
  | ok returned =>
      rw [execute_returned (by rw [handed]; exact called)] at refused
      cases refused
  | error e' =>
      rw [execute_refused (by rw [handed]; exact called), handed] at refused
      have lifted : ∀ (tokens : List UInt64) (K : Machine World),
          ((tokens.forM fun token => (EngineM.notifyDestroyed token : Run World Unit) : Run World Unit) K).2 =
            ⟨((tokens.forM EngineM.notifyDestroyed : EngineM Unit) K.engine).2, K.world⟩ := by
        intro tokens
        induction tokens with
        | nil => exact fun K => rfl
        | cons t rest ih => exact fun K => ih _
      rw [lifted, call_error called] at refused
      cases refused
      exact ⟨rfl, rfl⟩

theorem execute_enters (entered : f.execute host M = ((.ok (), g), N)) :
    (∃ result, g = f.afterReturn result) ∧
      N = (host.enter f.plan.native.address (f.plan.native.arguments.zip f.slots) ⟨f.counted M.engine, M.world⟩).2 := by
  have handed := handOverDurable_eq f M.engine
  have slots : f.withoutDurable.slots = f.slots := by
    simp [Frame.slots, withoutDurable, Function.comp_def]
  rcases called : f.withoutDurable.plan.native.call host f.slots ⟨f.registering M.engine, M.world⟩ with ⟨r, N'⟩
  cases r with
  | error e' =>
      rw [execute_refused (by rw [handed, slots]; exact called)] at entered
      cases entered
  | ok returned =>
      rw [execute_returned (by rw [handed, slots]; exact called), handed] at entered
      cases entered
      obtain ⟨result, rfl, run⟩ := call_ok called
      exact ⟨⟨result, rfl⟩, (congrArg Prod.snd run).symm⟩

theorem Tidy.afterReturn (tidy : f.Tidy) (result : Slot) :
    (f.afterReturn result).Tidy ∧ (f.afterReturn result).callbacks = f.staying := by
  have calm : f.withoutDurable.Calm (f.afterReturn result) := ⟨rfl, rfl, fun _ => rfl, fun _ => id⟩
  exact ⟨calm.tidy tidy.withoutDurable, calm.callbacks.trans (callbacks_withoutDurable f)⟩

end Frame

theorem Plan.prepare_failed {p : Plan} {receiver : Option Value} {arguments : List Value} {s s₀ s₁ : Engine} {f₀ f : Frame}
    {e : InvokeFailure} (enough : p.inputs ≤ arguments.length) (fresh : Frame.fresh? p s = (some f₀, s₀))
    (failed : f₀.run (FrameM.build receiver arguments) s₀ = ((.error e, f), s₁)) :
    p.prepare receiver arguments s = (.error e, (f.reclaim s₁).2) := by
  unfold prepare
  rw [if_neg (Nat.not_lt.mpr enough)]
  simp only [bind, StateT.bind, fresh, failed]
  rfl

/-! ## A trace is a path -/

theorem Path.within_cons {fs : List (List Callback)} {k : List Callback} {mv : Move} {s : Engine} {τ : Course}
    (rest : Within fs τ) : Within fs ((mv, ⟨s, fs ++ [k]⟩) :: τ) := by
  intro x hx
  rcases List.mem_cons.mp hx with rfl | later
  · exact ⟨List.prefix_append _ _, fun _ => by simp⟩
  · exact rest x later

theorem Path.within_single {fs : List (List Callback)} {mv : Move} {s : Engine} (apart : mv ≠ .entered ∧ mv ≠ .withdrawn) :
    Within fs [(mv, ⟨s, fs⟩)] := by
  intro x hx
  rw [List.mem_singleton.mp hx]
  refine ⟨List.prefix_refl _, ?_⟩
  rintro (hit | hit)
  · exact absurd hit apart.1
  · exact absurd hit apart.2

theorem Traces.path {α : Type} {act : Run World α} {M : Machine World} {fs : List (List Callback)} {τ : Course}
    (traces : Traces act M fs τ) : Path ⟨M.engine, fs⟩ τ ⟨(act M).2.engine, fs⟩ ∧ Path.Within fs τ := by
  induction traces with
  | acted untouched => exact ⟨.single (.acted untouched), Path.within_single (by simp)⟩
  | bind first later ih ih' =>
      refine ⟨ih.1.append ih'.1, fun x hx => ?_⟩
      rcases List.mem_append.mp hx with before | behind
      · exact ih.2 x before
      · exact ih'.2 x behind
  | notified token => exact ⟨.single (.notified token), Path.within_single (by simp)⟩
  | cleared => exact ⟨.single .cleared, Path.within_single (by simp)⟩
  | unbuilt coherent admitted enough fresh failed =>
      obtain ⟨tidy, makes⟩ := Frame.makes_of_build coherent fresh failed
      rw [Plan.execute_unbuilt admitted (Plan.prepare_failed enough fresh failed)]
      exact ⟨.cons (.opened makes) (.single (.closed (tidy.reclaim_drops _))),
        Path.within_cons (Path.within_single (by simp))⟩
  | @refused p host settings receiver arguments M N fs f g s e coherent admitted built refused =>
      obtain ⟨tidy, makes⟩ := Frame.makes_of_prepare coherent built
      obtain ⟨rfl, rfl⟩ := Frame.execute_error refused
      rw [Plan.execute_built admitted built (Plan.carryOut_refused (M := ⟨s, M.world⟩) refused)]
      have drops := tidy.withoutDurable.reclaim_drops
      rw [Frame.callbacks_withoutDurable] at drops
      refine ⟨.cons (.opened makes) (.cons (.acted (untouched_noted _ _ _)) (.cons .withdrawn (.single (.closed (drops _))))), ?_⟩
      exact Path.within_cons (Path.within_cons (Path.within_cons (Path.within_single (by simp))))
  | @entered p host settings receiver arguments M N fs f g h s s' r τ coherent admitted built entered inside collected ih =>
      obtain ⟨tidy, makes⟩ := Frame.makes_of_prepare coherent built
      obtain ⟨⟨result, rfl⟩, rfl⟩ := Frame.execute_enters entered
      obtain ⟨tidy', callbacks⟩ := tidy.afterReturn result
      obtain ⟨still, -⟩ := Frame.unstirred_collect _ _ _ _ _ (.refl _ _) collected
      have drops := (still.calm.tidy tidy').reclaim_drops
      rw [still.calm.callbacks, callbacks] at drops
      have carried := Plan.carryOut_entered (M := ⟨s, M.world⟩) entered
      rw [collected] at carried
      rw [Plan.execute_built admitted built carried]
      refine ⟨.cons (.opened makes) (.cons (.acted (untouched_noted _ _ _)) (.cons .entered
        (.cons (.acted (EngineM.quiet_count _ _)) (ih.1.append (.cons (.acted ?_) (.single (.closed (drops _)))))))), ?_⟩
      · exact (untouched_noted _ _ _).trans still.untouched
      · refine Path.within_cons (Path.within_cons (Path.within_cons (Path.within_cons fun x hx => ?_)))
        rcases List.mem_append.mp hx with during | after
        · obtain ⟨listed, deeper⟩ := ih.2 x during
          refine ⟨(List.prefix_append _ _).trans listed, fun hit => ?_⟩
          have := deeper hit
          rw [List.length_append] at this
          omega
        · exact Path.within_cons (Path.within_single (by simp)) x after

theorem plansCoherent_on (platform : Platform) : (Engine.on platform).PlansCoherent :=
  ⟨by simp [Engine.on], by simp [Engine.on]⟩

/-! ## Every action has a trace -/

section Coverage

variable {host : Host World}

/-- What native code does can be traced, from every machine and inside of any frames. -/
def Host.Traceable (host : Host World) : Prop :=
  ∀ address arguments (M : Machine World) fs, M.engine.PlansCoherent → ∃ τ, Traces (host.enter address arguments) M fs τ

theorem exists_traces_execute {p : Plan} (coherent : p.Coherent) (enter : host.Traceable) (settings : InvokeSettings)
    (receiver : Option Value) (arguments : List Value) (M : Machine World) (fs : List (List Callback))
    (plans : M.engine.PlansCoherent) :
    ∃ τ, Traces (p.execute host settings receiver arguments) M fs τ := by
  by_cases admitted : p.Admits settings arguments
  · rcases prepared : p.prepare receiver arguments M.engine with ⟨built, s⟩
    cases built with
    | error e =>
        have ends : p.execute host settings receiver arguments M = (.error e, ⟨s, M.world⟩) :=
          Plan.execute_unbuilt admitted prepared
        rcases Plan.prepare_error prepared with ⟨-, same⟩ | full | ⟨enough, f₀, s₀, f, s₁, fresh, failed, -⟩
        · refine ⟨_, .acted ?_⟩
          rw [ends, same]
          exact .refl _
        · have quiet := Frame.quiet_fresh? p M.engine
          rw [full] at quiet
          refine ⟨_, .acted ?_⟩
          rw [ends]
          exact quiet
        · exact ⟨_, .unbuilt coherent admitted enough fresh failed⟩
    | ok f =>
        rcases executed : f.execute host ⟨f.started settings s, M.world⟩ with ⟨⟨r, g⟩, N⟩
        cases r with
        | error e => exact ⟨_, .refused coherent admitted prepared executed⟩
        | ok u =>
            obtain ⟨-, makes⟩ := Frame.makes_of_prepare coherent prepared
            have started := (untouched_noted s settings (.callStarted f.plan.name f.plan.slotCount)).plans (makes.plans plans)
            have counted := (EngineM.quiet_count (fun c => { c with calls := c.calls + 1 }) _).plans
              ((EngineM.registerAll_thins f.leaving (f.started settings s)).plans started)
            obtain ⟨τ, inside⟩ := enter f.plan.native.address (f.plan.native.arguments.zip f.slots)
              ⟨f.counted (f.started settings s), M.world⟩ (fs ++ [f.staying]) counted
            rcases collected : g.run FrameM.collect (N.engine.noted settings (.callReturned g.plan.name)) with ⟨⟨v, h⟩, s'⟩
            exact ⟨_, .entered coherent admitted prepared executed inside collected⟩
  · obtain ⟨e, refused⟩ := Plan.execute_unadmitted admitted
    refine ⟨_, .acted ?_⟩
    rw [refused]
    exact .refl _

theorem exists_traces_callFunction (enter : host.Traceable) (function : Nat) (receiver : Option Value)
    (arguments : List Value) (M : Machine World) (fs : List (List Callback)) (plans : M.engine.PlansCoherent) :
    ∃ τ, Traces (callFunction host function receiver arguments) M fs τ := by
  obtain ⟨quiet, found⟩ := functionPlan_spec function M.engine
  have looked : Traces (Run.engine (functionPlan function).run : Run World _) M fs _ := .acted quiet
  unfold callFunction
  rcases planned : functionPlan function M.engine with ⟨r, s⟩
  rw [planned] at quiet found
  have ran : Run.engine (functionPlan function).run M = (r, ⟨s, M.world⟩) := by
    have lifted : Run.engine (functionPlan function).run M
        = ((functionPlan function M.engine).1, ⟨(functionPlan function M.engine).2, M.world⟩) := rfl
    rw [lifted, planned]
  cases r with
  | error e => exact ⟨_, looked.bind_of ran (.acted (.refl _))⟩
  | ok plan =>
      have settings : Traces (get : Run World (Machine World)) ⟨s, M.world⟩ fs _ := .acted (.refl _)
      obtain ⟨τ, executed⟩ := exists_traces_execute (found plans plan rfl) enter s.config.invoke receiver arguments
        ⟨s, M.world⟩ fs (quiet.plans plans)
      rcases ends : plan.execute host s.config.invoke receiver arguments ⟨s, M.world⟩ with ⟨result, N⟩
      rcases result with (e | text) | v
      case ok | error.panic =>
        exact ⟨_, looked.bind_of ran (settings.bind_of rfl (executed.bind_of ends (.acted (.refl _))))⟩
      case error.error =>
          have noted := EngineM.quiet_log (.callFailed plan.source.descriptor.symbol e.message) N.engine
          exact ⟨_, looked.bind_of ran (settings.bind_of rfl (executed.bind_of ends (.acted noted)))⟩

theorem exists_traces {α : Type} {act : Run World α} (outside : Outside act) (M : Machine World)
    (fs : List (List Callback)) (plans : M.engine.PlansCoherent) : ∃ τ, Traces act M fs τ := by
  induction outside generalizing M fs with
  | untouched untouched => exact ⟨_, .acted (untouched M)⟩
  | bind first later ih ih' =>
      obtain ⟨τ, traces⟩ := ih M fs plans
      obtain ⟨τ', traces'⟩ := ih' _ _ fs (traces.path.1.plans plans)
      exact ⟨_, .bind traces traces'⟩
  | notify token => exact ⟨_, .notified token⟩
  | cleanup => exact ⟨_, .cleared⟩
  | call enter function receiver arguments ih =>
      exact exists_traces_callFunction ih function receiver arguments M fs plans

end Coverage

end Ferry
