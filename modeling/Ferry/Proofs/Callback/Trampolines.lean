import Ferry.Proofs.Callback.Answering
import Ferry.Proofs.Callback.Runs

/-!
# Running trampolines

While the trampoline of a callback runs, its callable may do anything that native code may do. It can even end the
callback that it is running for: nothing keeps a durable callback in the registry while its trampoline runs, and the
destroy notifier and the clearing of the registry do not look. `live_of_trampoline` shows that this is the only way. Without a
notification of its own token, and unless the registry is cleared, a callback outlives each of its trampolines; and
one that is in a frame outlives them in any case.
-/

set_option autoImplicit false

namespace Ferry

variable {World : Type} {host : Host World}

/-! ## Calling back -/

/-- The host consists of what native code and its callables can do. -/
structure Host.Outside (host : Host World) : Prop where
  enter : ∀ address arguments, Ferry.Outside (host.enter address arguments)
  apply : ∀ callable arguments, Ferry.Outside (host.apply callable arguments)

namespace Outside

variable {α : Type}

theorem pure (a : α) : Outside (Pure.pure a : Run World α) := .untouched fun M => .refl M.engine

theorem get : Outside (MonadState.get : Run World (Machine World)) := .untouched fun M => .refl M.engine

theorem engine {act : EngineM α} (quiet : Quiet act) : Outside (Run.engine act : Run World α) :=
  .untouched fun M => quiet M.engine

theorem applyFunction (outside : host.Outside) (function : Nat) (arguments : List Value) :
    Outside (Ferry.applyFunction host function arguments) := by
  unfold Ferry.applyFunction
  refine .bind .get fun M => ?_
  split
  · exact .pure _
  · split
    · split
      · exact .call outside.enter _ _ _
      · exact .pure _
    · exact .call outside.enter _ _ _

theorem callCallable (outside : host.Outside) (callable : Nat) (arguments : List Value) :
    Outside (Ferry.callCallable host callable arguments) := by
  unfold Ferry.callCallable
  refine .bind .get fun M => ?_
  split
  · exact .pure _
  · split
    · exact applyFunction outside _ _
    · exact outside.apply _ _

theorem quiet_decodeArguments (s : Signature) (slots : List Slot) :
    Quiet (Callback.decodeArguments s slots s.params 0 []) := fun E => by
  rw [(Callback.decodeArguments_reads s slots s.params 0 (by simp) E).1]
  exact .refl E

theorem quiet_encodeReturn (s : Signature) (value : Value) : Quiet (Callback.encodeReturn s value) := by
  unfold Callback.encodeReturn
  split
  · exact .ok _
  · exact quiet_toNative _ _ _

theorem answer (outside : host.Outside) (c : Callback) (slots : List Slot) : Outside (c.answer host slots) := by
  unfold Callback.answer
  refine .bind (.engine (quiet_decodeArguments c.signature slots)) fun decoded => ?_
  split
  · exact .pure _
  · refine .bind (callCallable outside _ _) fun outcome => ?_
    simp only
    split
    · exact .bind (.pure _) fun _ => .bind (.engine (Value.quiet_releaseAll _)) fun _ => .pure _
    · refine .bind (.engine (quiet_encodeReturn _ _)) fun encoded => .bind (.engine (Value.quiet_release _)) fun _ => ?_
      exact .bind (.pure _) fun _ => .bind (.engine (Value.quiet_releaseAll _)) fun _ => .pure _

theorem trampoline (outside : host.Outside) (c : Callback) (slots : List Slot) : Outside (c.trampoline host slots) := by
  unfold Callback.trampoline Callback.trampolineInto
  refine .bind (answer outside c slots) fun answered => ?_
  rcases answered with (e | text) | slot
  · exact .bind (.engine (EngineM.quiet_log _)) fun _ => .bind (.pure _) fun _ => .pure _
  · exact .bind (.engine (EngineM.quiet_log _)) fun _ => .bind (.pure _) fun _ => .pure _
  · exact .bind (.pure _) fun _ => .pure _

theorem callCode (outside : host.Outside) (address : UInt64) (slots : List Slot) :
    Outside (Ferry.callCode host address slots) := by
  unfold Ferry.callCode
  split
  · exact .bind (.notify _) fun _ => .pure _
  · refine .bind .get fun M => ?_
    split
    · exact trampoline outside _ slots
    · exact .pure _

end Outside

/-! ## Outliving a trampoline -/

def Moment.Reached (m : Moment) : Prop :=
  ∃ (World α : Type) (act : Run World α) (platform : Platform) (w : World) (τ : Course) (mv : Move),
    Outside act ∧ Traces act ⟨.on platform, w⟩ [] τ ∧ τ.Distinct ∧ (mv, m) ∈ τ

theorem Moment.Reached.kept {m : Moment} (reached : m.Reached) : m.Kept ∧ m.engine.PlansCoherent := by
  obtain ⟨World, α, act, platform, w, τ, mv, outside, traces, distinct, hm⟩ := reached
  have path := traces.path.1
  refine ⟨path.kept_mem (kept_on _) distinct _ hm, ?_⟩
  obtain ⟨front, back, rfl⟩ := List.append_of_mem hm
  obtain ⟨m₁, before, behind⟩ := path.split
  cases behind with
  | cons step rest => exact step.plans (before.plans (plansCoherent_on platform))

/-- A callback outlives its trampoline, unless it is registered and given back, or the registry cleared, meanwhile. -/
theorem live_of_trampoline (outside : host.Outside) {m : Moment} (reached : m.Reached) {c : Callback}
    (live : c ∈ m.engine.callbacks) (slots : List Slot) (w : World) :
    (∃ τ, Traces (c.trampoline host slots) ⟨m.engine, w⟩ m.frames τ) ∧
    ∀ τ, Traces (c.trampoline host slots) ⟨m.engine, w⟩ m.frames τ → τ.Distinct →
      (c.token ∈ m.engine.durable → ∀ x ∈ τ, x.1 ≠ .notified c.token ∧ x.1 ≠ .cleared) →
      (∀ x ∈ τ, c ∈ x.2.engine.callbacks) ∧ c ∈ (c.trampoline host slots ⟨m.engine, w⟩).2.engine.callbacks := by
  obtain ⟨kept, plans⟩ := reached.kept
  refine ⟨exists_traces (Outside.trampoline outside c slots) _ _ plans, fun τ traces distinct undisturbed => ?_⟩
  obtain ⟨path, within⟩ := traces.path
  rcases kept.at_of_live live with there | ⟨d, there⟩
  · have stays := path.stays kept distinct within there (by simp) (by simp) fun _ => undisturbed there.2
    exact ⟨fun x hx => (stays.1 x hx).1, stays.2.1⟩
  · have inside : ∀ e, Place.framed d = .framed e → e < m.frames.length := by
      rintro e ⟨⟩
      obtain ⟨h, found, -⟩ := there
      exact (List.getElem?_eq_some_iff.mp found).1
    have stays := path.stays kept distinct within there (by simp) inside (by simp)
    have kept' := path.kept kept distinct
    exact ⟨fun x hx => ((path.kept_mem kept distinct x hx).of_framed (stays.1 x hx)).1, (kept'.of_framed stays.2).1⟩

section Untouched

variable {α β : Type} {M : Machine World}

theorem untouched_bind {act : Run World α} {next : α → Run World β} (first : M.engine.Untouched (act M).2.engine)
    (later : ∀ a (K : Machine World), K.engine.Untouched (next a K).2.engine) :
    M.engine.Untouched ((act >>= next) M).2.engine := first.trans (later _ _)

theorem untouched_engine {act : EngineM α} (quiet : Quiet act) :
    M.engine.Untouched ((Run.engine act : Run World α) M).2.engine := quiet M.engine

theorem untouched_trampoline {c : Callback} {callable : Callable}
    (found : M.engine.callables.find? (·.id == c.callable) = some callable) (body : callable.body = .host)
    (apply : ∀ arguments (K : Machine World), K.engine.Untouched (host.apply c.callable arguments K).2.engine)
    (slots : List Slot) : M.engine.Untouched (c.trampoline host slots M).2.engine := by
  have called : ∀ values, M.engine.Untouched (callCallable host c.callable values M).2.engine := fun values => by
    rw [Ferry.callCallable_host found body]
    exact apply values M
  have answered : M.engine.Untouched (c.answer host slots M).2.engine := by
    have none_found : ∀ v ∈ ([] : List Value), v.Idle := by simp
    have same := (Callback.decodeArguments_reads c.signature slots c.signature.params 0 none_found M.engine).1
    rcases decoded : Callback.decodeArguments c.signature slots c.signature.params 0 [] M.engine with ⟨r, E⟩
    rw [decoded] at same
    cases same
    have first : (Callback.decodeArguments c.signature slots c.signature.params 0 []).run M.engine = (r, M.engine) := decoded
    unfold Callback.answer
    simp only
    rw [Run.lift_bind, first]
    cases r with
    | error e => exact .refl _
    | ok values =>
        refine untouched_bind (called values) fun outcome K => ?_
        rcases outcome with e | value
        · exact untouched_bind (.refl _) fun _ _ => untouched_bind (untouched_engine (Value.quiet_releaseAll _)) fun _ _ => .refl _
        · refine untouched_bind (untouched_engine (Outside.quiet_encodeReturn _ _)) fun _ _ => ?_
          refine untouched_bind (untouched_engine (Value.quiet_release _)) fun _ _ => untouched_bind (.refl _) fun _ _ => ?_
          exact untouched_bind (untouched_engine (Value.quiet_releaseAll _)) fun _ _ => .refl _
  unfold Callback.trampoline Callback.trampolineInto
  refine untouched_bind answered fun r K => ?_
  rcases r with (e | text) | slot
  · exact untouched_bind (untouched_engine (EngineM.quiet_log _)) fun _ _ => .refl _
  · exact untouched_bind (untouched_engine (EngineM.quiet_log _)) fun _ _ => .refl _
  · exact .refl _

end Untouched

/-- Native code that does nothing, and callables that answer nothing. -/
def silent : Host Unit where
  enter _ _ := return .zero
  apply _ _ := return .ok .undefined

/-- A function that keeps a handler until it is told to forget it. -/
def subscribe : DescriptorRef where
  id := 0
  descriptor := {
    symbol := "subscribe", receiver := none, isConstructor := false, entry := .address 0x1000
    signature := {
      namespaceName := "Sample", name := "subscribe", result := .void, resultTransfer := .nothing, skipResult := false
      mayReturnNull := false, canThrow := false
      params := [
        ⟨"handler", .callback handling, .input, .nothing, false, false, some 1, some 2, .durable⟩,
        ⟨"data", .pointer, .input, .nothing, false, false, none, none, .call⟩,
        ⟨"notify", .destroyNotify, .input, .nothing, false, false, none, none, .call⟩] } }
where
  handling : Signature := {
    namespaceName := "Sample", name := "Handler", result := .void, resultTransfer := .nothing, skipResult := false
    mayReturnNull := false, canThrow := false
    params := [⟨"data", .pointer, .input, .nothing, false, false, none, none, .call⟩] }

/-- Binds the function, and calls it with a function of the host. -/
def subscribing (host : Host World) : Run World (Except InvokeFailure Value) := do
  Run.engine (modify fun s => { s with
    functions := [(0, .bind subscribe)], callables := [⟨7, "handler", 1, .host⟩] })
  callFunction host 0 none [.function ⟨7, "handler"⟩]

theorem outside_subscribing (enter : ∀ address arguments, Outside (host.enter address arguments)) :
    Outside (subscribing host) := by
  refine .bind (.engine (.modify fun s => ⟨rfl, rfl, rfl, rfl, Nat.le_refl _, fun coherent => ⟨coherent.kept, ?_⟩⟩))
    fun _ => .call enter _ _ _
  intro id f p listed bound
  rw [List.mem_singleton] at listed
  cases listed
  cases bound

theorem live_of_trampoline_subscribing : ∃ m c, Moment.Reached m ∧ c ∈ m.engine.callbacks ∧ c.token ∈ m.engine.durable ∧
    c ∈ (c.trampoline silent [.ofAddress c.token] ⟨m.engine, ()⟩).2.engine.callbacks := by
  have one : (subscribing silent ⟨.initial, ()⟩).2.engine.callbacks.length = 1 := by decide +kernel
  have room : (subscribing silent ⟨.initial, ()⟩).2.engine.memory.frontier + 16 ≤ Memory.limit := by decide +kernel
  have known : (subscribing silent ⟨.initial, ()⟩).2.engine.callbacks.all (fun c =>
      decide (c.token ∈ (subscribing silent ⟨.initial, ()⟩).2.engine.durable) &&
        decide (((subscribing silent ⟨.initial, ()⟩).2.engine.callables.find? (·.id == c.callable)).map (·.body) =
          some .host)) = true := by
    decide +kernel
  have outside : silent.Outside := ⟨fun _ _ => .pure _, fun _ _ => .pure _⟩
  have subscribed := outside_subscribing outside.enter
  obtain ⟨τ, traces⟩ := exists_traces subscribed ⟨.initial, ()⟩ [] (plansCoherent_on .bare)
  have path := traces.path.1
  generalize (subscribing silent ⟨.initial, ()⟩).2.engine = s at one room known path
  obtain ⟨c, one⟩ := List.length_eq_one_iff.mp one
  have live : c ∈ s.callbacks := by simp [one]
  simp only [List.all_eq_true, Bool.and_eq_true, decide_eq_true_eq, Option.map_eq_some_iff] at known
  obtain ⟨registered, callable, found, body⟩ := known c live
  have distinct : τ.Distinct := path.distinct_of_room (.on .bare) room
  have reached : Moment.Reached ⟨s, []⟩ := by
    rcases path.reaches with same | ⟨mv, hm⟩
    · cases same
      cases one
    · exact ⟨_, _, _, _, _, τ, mv, subscribed, traces, distinct, hm⟩
  have untouched : s.Untouched (c.trampoline silent [.ofAddress c.token] ⟨s, ()⟩).2.engine :=
    untouched_trampoline (M := ⟨s, ()⟩) found body (fun _ K => .refl K.engine) _
  refine ⟨⟨s, []⟩, c, reached, live, registered, ?_⟩
  refine ((live_of_trampoline outside reached live _ ()).2 _ (.acted untouched) (fun x hx => ?_) fun _ x hx => ?_).2
  · rw [List.mem_singleton.mp hx]
    exact untouched.drops.distinct reached.kept.1.distinct
  · rw [List.mem_singleton.mp hx]
    simp

end Ferry
