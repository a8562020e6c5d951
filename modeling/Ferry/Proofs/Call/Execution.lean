import Ferry.Proofs.Call.Building
import Ferry.Proofs.Engine.Ledger

/-!
# The course of an invocation

An invocation checks, builds, enters native code, collects and reclaims. The lemmas here take one apart into
these steps; native code is whatever the host says.
-/

set_option autoImplicit false

namespace Ferry

variable {World : Type} {host : Host World}

/-- The engine with a line in the log, if the settings ask for it. -/
def Engine.noted (s : Engine) (settings : InvokeSettings) (entry : LogEntry) : Engine :=
  if settings.logCalls then (EngineM.log entry s).2 else s

@[simp] theorem memory_noted (s : Engine) (settings : InvokeSettings) (entry : LogEntry) :
    (s.noted settings entry).memory = s.memory := by
  unfold Engine.noted
  split <;> rfl

@[simp] theorem owners_noted (s : Engine) (settings : InvokeSettings) (entry : LogEntry) :
    (s.noted settings entry).owners = s.owners := by
  unfold Engine.noted
  split <;> rfl

theorem noted_quiet (s : Engine) (settings : InvokeSettings) (entry : LogEntry) :
    ∃ lines, (s.noted settings entry).events = lines ++ s.events ∧ gains lines = [] ∧ losses lines = [] := by
  unfold Engine.noted
  split
  · exact ⟨[.logged entry], rfl, rfl, rfl⟩
  · exact ⟨[], rfl, rfl, rfl⟩

namespace Run

theorem bind_of {α β : Type} {act : Run World α} {next : α → Run World β} {a : α} {M N : Machine World}
    (done : act M = (a, N)) : (act >>= next) M = next a N := by
  simp only [bind, StateT.bind, done]

theorem lift_bind {α β : Type} (act : EngineM α) (next : α → Run World β) (M : Machine World) :
    (liftM act >>= next : Run World β) M = next (act M.engine).1 ⟨(act M.engine).2, M.world⟩ := rfl

end Run

theorem callCallable_host {callable : Nat} {arguments : List Value} {M : Machine World} {c : Callable}
    (found : M.engine.callables.find? (·.id == callable) = some c) (body : c.body = .host) :
    callCallable host callable arguments M = host.apply callable arguments M := by
  have looked : (get : Run World (Machine World)) M = (M, M) := rfl
  unfold callCallable
  rw [Run.bind_of looked, found]
  simp only [body]

namespace Frame

/-- The frame when its durable callbacks are in the registry. -/
def withoutDurable (f : Frame) : Frame :=
  { f with bindings := f.bindings.map fun b => { b with callback := b.callback.filter (·.scope ≠ .durable) } }

/-- A frame after native code has returned. -/
def afterReturn (f : Frame) (result : Slot) : Frame :=
  { f.withoutDurable with
    returned := some (if f.plan.native.result = .void then .zero else result.narrow f.plan.native.result) }

theorem binding_withoutDurable (f : Frame) (i : Nat) :
    (f.withoutDurable.binding i) =
      { f.binding i with callback := (f.binding i).callback.filter (·.scope ≠ .durable) } := by
  simp only [binding, withoutDurable, List.getElem?_map]
  cases f.bindings[i]? <;> rfl

theorem register_all (durable : List Callback) (s : Engine) :
    ∃ d, (durable.forM EngineM.registerDurable : EngineM Unit) s = ((), { s with durable := d }) := by
  induction durable generalizing s with
  | nil => exact ⟨s.durable, rfl⟩
  | cons c rest ih =>
      obtain ⟨d, run⟩ := ih (EngineM.registerDurable c s).2
      exact ⟨d, run⟩

theorem run_handOverDurable (f : Frame) (s : Engine) :
    ∃ d tokens, f.handOverDurable s = ((f.withoutDurable, tokens), { s with durable := d }) := by
  obtain ⟨d, run⟩ := register_all (f.bindings.filterMap fun b => b.callback.filter (·.scope = .durable)) s
  have steps : f.handOverDurable s = ((f.withoutDurable,
      (f.bindings.filterMap fun b => b.callback.filter (·.scope = .durable)).map (·.token)),
      (((f.bindings.filterMap fun b => b.callback.filter (·.scope = .durable)).forM
        EngineM.registerDurable : EngineM Unit) s).2) := rfl
  exact ⟨d, _, by rw [steps, run]⟩


theorem call_ok {native : NativeSignature} {slots : List Slot} {M N : Machine World} {returned : Slot}
    (run : native.call host slots M = (.ok returned, N)) :
    ∃ result, returned = (if native.result = .void then .zero else result.narrow native.result) ∧
      host.enter native.address (native.arguments.zip slots)
        ⟨{ M.engine with counters := { M.engine.counters with calls := M.engine.counters.calls + 1 } }, M.world⟩ =
        (result, N) := by
  unfold NativeSignature.call at run
  split at run
  · cases run
  · split at run
    · cases run
    · have ends : (Except.ok (if native.result = .void then .zero else
          (host.enter native.address (native.arguments.zip slots)
            ⟨{ M.engine with counters := { M.engine.counters with calls := M.engine.counters.calls + 1 } },
              M.world⟩).1.narrow native.result),
          (host.enter native.address (native.arguments.zip slots)
            ⟨{ M.engine with counters := { M.engine.counters with calls := M.engine.counters.calls + 1 } },
              M.world⟩).2) = ((.ok returned, N) : Except CallError Slot × Machine World) := run
      cases ends
      exact ⟨_, rfl, rfl⟩

theorem execute_returned {host : Host World} {f : Frame} {M N : Machine World} {returned : Slot}
    (called : (f.handOverDurable M.engine).1.1.plan.native.call host (f.handOverDurable M.engine).1.1.slots
      ⟨(f.handOverDurable M.engine).2, M.world⟩ = (.ok returned, N)) :
    f.execute host M = ((.ok (), { (f.handOverDurable M.engine).1.1 with returned := some returned }), N) := by
  unfold execute
  rw [Run.lift_bind]
  exact Run.bind_of called

theorem execute_refused {host : Host World} {f : Frame} {M N : Machine World} {e : CallError}
    (called : (f.handOverDurable M.engine).1.1.plan.native.call host (f.handOverDurable M.engine).1.1.slots
      ⟨(f.handOverDurable M.engine).2, M.world⟩ = (.error e, N)) :
    f.execute host M = ((.error (.error (.call e)), (f.handOverDurable M.engine).1.1),
      (((f.handOverDurable M.engine).1.2.forM fun token =>
        (EngineM.notifyDestroyed token : Run World Unit) : Run World Unit) N).2) := by
  unfold execute
  rw [Run.lift_bind]
  exact Run.bind_of called

theorem execute_cases {f g : Frame} {M N : Machine World} {r : Except InvokeFailure Unit}
    (run : f.execute host M = ((r, g), N)) :
    (r = .ok () ∧ ∃ result, g = f.afterReturn result) ∨ (∃ e, r = .error e) ∧ g = f.withoutDurable := by
  obtain ⟨d, tokens, handed⟩ := run_handOverDurable f M.engine
  rcases called : f.withoutDurable.plan.native.call host f.withoutDurable.slots ⟨{ M.engine with durable := d }, M.world⟩
    with ⟨called_r, N'⟩
  cases called_r with
  | error e =>
      rw [execute_refused (by rw [handed]; exact called), handed] at run
      cases run
      exact Or.inr ⟨⟨_, rfl⟩, rfl⟩
  | ok returned =>
      rw [execute_returned (by rw [handed]; exact called), handed] at run
      cases run
      obtain ⟨result, rfl, -⟩ := call_ok called
      exact Or.inl ⟨rfl, result, rfl⟩

/-- A call that is made enters native code with the slots of the frame. -/
theorem execute_ok {f g : Frame} {M N : Machine World} (run : f.execute host M = ((.ok (), g), N)) :
    ∃ d result, g = f.afterReturn result ∧
      host.enter f.plan.native.address (f.plan.native.arguments.zip f.slots)
        ⟨{ M.engine with
            durable := d, counters := { M.engine.counters with calls := M.engine.counters.calls + 1 } }, M.world⟩ =
        (result, N) := by
  obtain ⟨d, tokens, handed⟩ := run_handOverDurable f M.engine
  have slots : f.withoutDurable.slots = f.slots := by
    simp [Frame.slots, withoutDurable, Function.comp_def]
  rcases called : f.withoutDurable.plan.native.call host f.slots ⟨{ M.engine with durable := d }, M.world⟩
    with ⟨r, N'⟩
  cases r with
  | error e =>
      rw [execute_refused (by rw [handed, slots]; exact called)] at run
      cases run
  | ok returned =>
      rw [execute_returned (by rw [handed, slots]; exact called), handed] at run
      cases run
      obtain ⟨result, rfl, entered⟩ := call_ok called
      exact ⟨d, result, rfl, entered⟩

end Frame

namespace Plan

variable {p : Plan} {settings : InvokeSettings} {receiver : Option Value} {arguments : List Value}
  {M M' : Machine World}

theorem carryOut_refused {f g : Frame} {e : InvokeFailure} {M N : Machine World}
    (refused : f.execute host ⟨M.engine.noted settings (.callStarted f.plan.name f.plan.slotCount), M.world⟩ =
      ((.error e, g), N)) : carryOut host settings f M = ((.error e, g), N) := by
  unfold carryOut
  unfold Engine.noted at refused
  by_cases logs : settings.logCalls = true
  · rw [if_pos logs] at refused ⊢
    rw [Run.lift_bind]
    exact Run.bind_of refused
  · rw [if_neg logs] at refused ⊢
    exact Run.bind_of refused

theorem carryOut_entered {f g : Frame} {M N : Machine World}
    (entered : f.execute host ⟨M.engine.noted settings (.callStarted f.plan.name f.plan.slotCount), M.world⟩ =
      ((.ok (), g), N)) : carryOut host settings f M =
      ((g.run FrameM.collect (N.engine.noted settings (.callReturned g.plan.name))).1,
        ⟨(g.run FrameM.collect (N.engine.noted settings (.callReturned g.plan.name))).2, N.world⟩) := by
  unfold carryOut
  unfold Engine.noted at entered ⊢
  by_cases logs : settings.logCalls = true
  · rw [if_pos logs] at entered
    rw [if_pos logs, if_pos logs, Run.lift_bind]
    refine (Run.bind_of entered).trans ?_
    simp only [logs]
    rfl
  · rw [if_neg logs] at entered
    rw [if_neg logs, if_neg logs]
    refine (Run.bind_of entered).trans ?_
    simp only [logs]
    rfl

/-- The check of the argument types is off, or lets the arguments through. -/
def Admits (p : Plan) (settings : InvokeSettings) (arguments : List Value) : Prop :=
  settings.typeCheck = true → p.typeCheck arguments = .ok ()

theorem admits_of_isOk (checked : (p.typeCheck arguments).isOk = true) (settings : InvokeSettings) :
    p.Admits settings arguments := by
  intro _
  cases result : p.typeCheck arguments with
  | ok u => rfl
  | error e =>
      rw [result] at checked
      cases checked

theorem execute_admitted (admitted : p.Admits settings arguments)
    (host : Host World) (receiver : Option Value) (M : Machine World) :
    p.execute host settings receiver arguments M =
      p.execute host { settings with typeCheck := false } receiver arguments M := by
  unfold execute
  by_cases checks : settings.typeCheck = true
  · rw [if_pos checks, admitted checks]
    rfl
  · rw [if_neg checks]
    rfl

theorem execute_unadmitted (unadmitted : ¬p.Admits settings arguments) :
    ∃ e, ∀ {World : Type} (host : Host World) (receiver : Option Value) (M : Machine World),
      p.execute host settings receiver arguments M = (.error (.error e), M) := by
  simp only [Admits, Classical.not_imp] at unadmitted
  obtain ⟨checks, refused⟩ := unadmitted
  cases checked : p.typeCheck arguments with
  | ok u => exact absurd checked refused
  | error e =>
      refine ⟨e, fun host receiver M => ?_⟩
      unfold execute
      rw [if_pos checks, checked]
      rfl

theorem execute_unbuilt {e : InvokeFailure} {s : Engine}
    (admitted : p.Admits settings arguments)
    (unbuilt : p.prepare receiver arguments M.engine = (.error e, s)) :
    p.execute host settings receiver arguments M = (.error e, ⟨s, M.world⟩) := by
  rw [execute_admitted admitted]
  unfold execute
  refine (Run.lift_bind _ _ M).trans ?_
  rw [unbuilt]
  rfl

theorem execute_built {r : Except InvokeFailure Value} {f g : Frame} {s : Engine}
    {N : Machine World} (admitted : p.Admits settings arguments)
    (built : p.prepare receiver arguments M.engine = (.ok f, s))
    (carried : carryOut host settings f ⟨s, M.world⟩ = ((r, g), N)) :
    p.execute host settings receiver arguments M = (r, ⟨(g.reclaim N.engine).2, N.world⟩) := by
  rw [execute_admitted admitted]
  unfold execute
  refine (Run.lift_bind _ _ M).trans ?_
  rw [built]
  exact Run.bind_of carried

/-- A call that is built ends by reclaiming the frame that native code left, or the one that collecting left. -/
theorem execute_ends {r : Except InvokeFailure Value} {outcome : Except InvokeFailure Unit} {f g : Frame} {s : Engine}
    {N : Machine World} (admitted : p.Admits settings arguments)
    (built : p.prepare receiver arguments M.engine = (.ok f, s))
    (entered : f.execute host ⟨s.noted settings (.callStarted f.plan.name f.plan.slotCount), M.world⟩ = ((outcome, g), N))
    (run : p.execute host settings receiver arguments M = (r, M')) :
    (∃ e, outcome = .error e ∧ r = .error e ∧ M' = ⟨(g.reclaim N.engine).2, N.world⟩) ∨
    outcome = .ok () ∧ ∃ h s', g.run FrameM.collect (N.engine.noted settings (.callReturned g.plan.name)) = ((r, h), s') ∧
      M' = ⟨(h.reclaim s').2, N.world⟩ := by
  cases outcome with
  | error e =>
      have carried : carryOut host settings f ⟨s, M.world⟩ = _ := carryOut_refused entered
      rw [execute_built admitted built carried] at run
      cases run
      exact Or.inl ⟨e, rfl, rfl, rfl⟩
  | ok u =>
      rcases collected : g.run FrameM.collect (N.engine.noted settings (.callReturned g.plan.name)) with ⟨⟨result, h⟩, s'⟩
      have carried : carryOut host settings f ⟨s, M.world⟩ = _ := carryOut_entered entered
      rw [collected] at carried
      rw [execute_built admitted built carried] at run
      cases run
      exact Or.inr ⟨rfl, h, s', rfl, rfl⟩

theorem execute_cases {r : Except InvokeFailure Value}
    (run : p.execute host settings receiver arguments M = (r, M')) :
    ((∃ e, r = .error (.error e) ∧ p.typeCheck arguments = .error e) ∧ M' = M) ∨
    (∃ e s', p.prepare receiver arguments M.engine = (.error e, s') ∧ r = .error e ∧ M' = ⟨s', M.world⟩) ∨
    ∃ f s₁ g N, p.prepare receiver arguments M.engine = (.ok f, s₁) ∧
      carryOut host settings f ⟨s₁, M.world⟩ = ((r, g), N) ∧ M' = ⟨(g.reclaim N.engine).2, N.world⟩ := by
  by_cases refused : settings.typeCheck = true ∧ ∃ e, p.typeCheck arguments = .error e
  · obtain ⟨checks, e, refused⟩ := refused
    unfold execute at run
    rw [if_pos checks, refused] at run
    cases run
    exact Or.inl ⟨⟨e, rfl, refused⟩, rfl⟩
  · right
    have admitted : p.Admits settings arguments := fun checks => by
      cases checked : p.typeCheck arguments with
      | ok u => rfl
      | error e => exact absurd ⟨checks, e, checked⟩ refused
    rcases prepared : p.prepare receiver arguments M.engine with ⟨built, s₁⟩
    cases built with
    | error e =>
        rw [execute_unbuilt admitted prepared] at run
        cases run
        exact Or.inl ⟨e, s₁, rfl, rfl, rfl⟩
    | ok f =>
        rcases carried : carryOut host settings f ⟨s₁, M.world⟩ with ⟨⟨result, g⟩, N⟩
        rw [execute_built admitted prepared carried] at run
        cases run
        exact Or.inr ⟨f, s₁, g, N, rfl, carried, rfl⟩

/-- A call that yields a value was built, entered native code, and its outputs were collected. -/
theorem execute_ok {v : Value}
    (run : p.execute host settings receiver arguments M = (.ok v, M')) :
    ∃ f s₁ g N h s₂, p.prepare receiver arguments M.engine = (.ok f, s₁) ∧
      f.execute host ⟨s₁.noted settings (.callStarted f.plan.name f.plan.slotCount), M.world⟩ = ((.ok (), g), N) ∧
      g.run FrameM.collect (N.engine.noted settings (.callReturned g.plan.name)) = ((.ok v, h), s₂) ∧
      M' = ⟨(h.reclaim s₂).2, N.world⟩ := by
  rcases execute_cases run with ⟨⟨e, impossible, -⟩, -⟩ | ⟨e, s', -, impossible, -⟩ | ⟨f, s₁, h, N, prepared, carried, rfl⟩
  · cases impossible
  · cases impossible
  · rcases entered : f.execute host ⟨s₁.noted settings (.callStarted f.plan.name f.plan.slotCount), M.world⟩
      with ⟨⟨r, g⟩, N'⟩
    cases r with
    | error e =>
        rw [carryOut_refused entered] at carried
        cases carried
    | ok u =>
        rw [carryOut_entered entered] at carried
        rcases collected : g.run FrameM.collect (N'.engine.noted settings (.callReturned g.plan.name))
          with ⟨⟨result, h'⟩, s₂⟩
        rw [collected] at carried
        cases carried
        exact ⟨f, s₁, g, N', h, s₂, prepared, entered, collected, rfl⟩

end Plan

end Ferry
