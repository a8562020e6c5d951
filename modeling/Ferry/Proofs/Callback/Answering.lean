import Ferry.Callback.Trampoline
import Ferry.Proofs.Call.Execution
import Ferry.Proofs.Marshal.Discarding

/-!
# What answering native code costs

When native code calls a callback, its arguments are converted without being handed over, so this makes no copies. If
the callable returns no address, converting its answer makes nothing either. So beside what the callable does, answering
makes nothing, and gives up no more than what the caller owned with the answer: `relays_of_trampoline`.
-/

set_option autoImplicit false

namespace Ferry

variable {World : Type} {host : Host World}

namespace Callback

variable {s : Signature} {slots : List Slot} {E : Engine}

/-! ## Arguments -/

theorem decodeArgument_reads (s : Signature) (slots : List Slot) (index : Nat) (p : Param) :
    Reads (decodeArgument s slots index p) := by
  intro E
  unfold decodeArgument
  cases type : p.type with
  | array element length =>
      simp only
      cases found : length.parameter?.bind fun l => s.params[l]?.map (l, ·) with
      | none => exact arrayFromNative_reads element length (argument s slots index) none E
      | some holder =>
          have same := decodeLength_reads (argument s slots holder.1) holder.2.type E
          rcases counted : decodeLength (argument s slots holder.1) holder.2.type E with ⟨r, E'⟩
          rw [counted] at same
          cases same
          simp only [map_eq_pure_bind, EngineM.failing_bind, counted]
          cases r with
          | error e => exact ⟨rfl, fun _ impossible => by cases impossible⟩
          | ok n => exact arrayFromNative_reads element length (argument s slots index) (some n) E'
  | _ => exact fromNative_reads _ _ E

/-- The arguments from an index on decode one after the other, up to the first that does not. -/
theorem decodeArguments_cases (s : Signature) (slots : List Slot) (params : List Param) (index : Nat) (E : Engine)
    {found : List Value} (idle : ∀ v ∈ found, v.Idle) :
    (∃ i p e, params[i]? = some p ∧ (decodeArgument s slots (index + i) p E).1 = .error e ∧
      decodeArguments s slots params index found E = (.error (.marshal p.name e), E)) ∨
    ∃ values, decodeArguments s slots params index found E = (.ok (found.reverse ++ values), E) ∧
      values.length = params.length ∧ (∀ v ∈ values, v.Idle) ∧
      ∀ i p v, params[i]? = some p → values[i]? = some v → (decodeArgument s slots (index + i) p E).1 = .ok v := by
  induction params generalizing index found with
  | nil => exact Or.inr ⟨[], by simp [decodeArguments]; rfl, rfl, by simp, by simp⟩
  | cons p rest ih =>
      obtain ⟨same, idleItem⟩ := decodeArgument_reads s slots index p E
      rcases decoded : decodeArgument s slots index p E with ⟨r, E'⟩
      rw [decoded] at same idleItem
      cases same
      have run : (decodeArgument s slots index p).run E' = (r, E') := decoded
      cases r with
      | error e =>
          have step : decodeArguments s slots (p :: rest) index found E' = (.error (.marshal p.name e), E') := by
            rw [decodeArguments, EngineM.failing_lift, run]
            simp only
            rw [EngineM.failing_lift, releaseAll_idle fun v hv => idle v (List.mem_reverse.mp hv)]
            rfl
          exact Or.inl ⟨0, p, e, rfl, by rw [Nat.add_zero, decoded], step⟩
      | ok v =>
          have step : decodeArguments s slots (p :: rest) index found E' =
              decodeArguments s slots rest (index + 1) (v :: found) E' := by
            rw [decodeArguments, EngineM.failing_lift, run]
          have idle' : ∀ w ∈ v :: found, w.Idle := fun w hw => by
            rcases List.mem_cons.mp hw with rfl | earlier
            · exact idleItem w rfl
            · exact idle w earlier
          rcases ih (index + 1) idle' with ⟨i, q, e, at_i, fails, later⟩ | ⟨values, later, length, idleRest, each⟩
          · refine Or.inl ⟨i + 1, q, e, at_i, ?_, step.trans later⟩
            rw [← fails]
            congr 2
            omega
          · refine Or.inr ⟨v :: values, ?_, by simp [length], ?_, fun i q w at_i here => ?_⟩
            · rw [step, later]
              simp
            · intro w hw
              rcases List.mem_cons.mp hw with rfl | earlier
              · exact idleItem w rfl
              · exact idleRest w earlier
            · cases i with
              | zero =>
                  cases at_i
                  cases here
                  rw [Nat.add_zero, decoded]
              | succ i =>
                  rw [← each i q w at_i here]
                  congr 2
                  omega

theorem decodeArguments_reads (s : Signature) (slots : List Slot) (params : List Param) (index : Nat) {found : List Value}
    (idle : ∀ v ∈ found, v.Idle) (E : Engine) :
    (decodeArguments s slots params index found E).2 = E ∧
      ∀ values, (decodeArguments s slots params index found E).1 = .ok values → ∀ v ∈ values, v.Idle := by
  rcases decodeArguments_cases s slots params index E idle with ⟨_, _, _, -, -, run⟩ | ⟨values, run, -, idleRest, -⟩
  · rw [run]
    exact ⟨rfl, fun _ impossible => by cases impossible⟩
  · rw [run]
    refine ⟨rfl, fun _ same v hv => ?_⟩
    cases same
    rcases List.mem_append.mp hv with earlier | later
    · exact idle v (List.mem_reverse.mp earlier)
    · exact idleRest v later

/-! ## The answer -/

theorem events_encodeReturn (plain : s.result.isPointerLike = false) (value : Value) (E : Engine) :
    (encodeReturn s value E).2.events = E.events := by
  have flat : ∀ element length, s.result ≠ .array element length := by
    intro element length same
    rw [same] at plain
    cases plain
  have unmoved : ∀ (v : Value) (nullable : Bool) {r E'}, encode v s.result nullable E = (r, E') → E' = E := by
    intro v nullable r E' run
    rcases encode_flat_cases flat run with ⟨text, isText, -⟩ | ⟨same, -⟩
    · rw [isText] at plain
      cases plain
    · exact same
  unfold encodeReturn
  split
  · rfl
  · rcases converted : toNative _ s.result s.mayReturnNull E with ⟨r, E'⟩
    cases r with
    | ok slot => rw [unmoved _ _ (toNative_ok converted)]
    | error failure =>
        obtain ⟨E₁, failed, ⟨-, rfl⟩ | ⟨-, rfl⟩⟩ := EncodeM.onError_error converted <;> rw [unmoved _ _ failed]
        rfl

/-- What answering a call of native code does to the ledger. Either the arguments did not convert, and nothing happened;
or the callable ran on values that own nothing, and then at most its answer was dropped. -/
inductive Relays (c : Callback) (host : Host World) (M M' : Machine World) : Prop
  | refused (t : List Event) (events : M'.engine.events = t ++ M.engine.events) (gained : gains t = [])
    (lost : losses t = []) : Relays c host M M'
  | answered (values : List Value) (outcome : Except InvokeFailure Value) (N : Machine World) (t : List Event)
    (idle : ∀ v ∈ values, v.Idle) (called : callCallable host c.callable values M = (outcome, N))
    (events : M'.engine.events = t ++ N.engine.events) (gained : gains t = [])
    (lost : ∀ r ∈ losses t, ∃ v a, outcome = .ok v ∧ a ∈ v.owned ∧ r = .block a) : Relays c host M M'

theorem relays_of_answer {c : Callback} {M M' : Machine World} {r : Except InvokeFailure Slot}
    (plain : c.signature.result.isPointerLike = false) (run : c.answer host slots M = (r, M')) : c.Relays host M M' := by
  have none_found : ∀ v ∈ ([] : List Value), v.Idle := by simp
  obtain ⟨same, idle⟩ := decodeArguments_reads c.signature slots c.signature.params 0 none_found M.engine
  rcases decoded : decodeArguments c.signature slots c.signature.params 0 [] M.engine with ⟨decoded_r, E⟩
  rw [decoded] at same idle
  have same : E = M.engine := same
  subst same
  unfold answer at run
  simp only at run
  rw [Run.lift_bind] at run
  have first : (decodeArguments c.signature slots c.signature.params 0 []).run M.engine = (decoded_r, M.engine) := decoded
  rw [first] at run
  cases decoded_r with
  | error e =>
      cases run
      exact .refused [] rfl rfl rfl
  | ok values =>
      have idle := idle values rfl
      simp only at run
      rcases called : callCallable host c.callable values M with ⟨outcome, N⟩
      have run := (Run.bind_of called).symm.trans run
      cases outcome with
      | error e =>
          simp only at run
          rw [pure_bind, Run.lift_bind, releaseAll_idle idle] at run
          cases run
          exact .answered values _ _ [] idle called rfl rfl (by simp [losses])
      | ok value =>
          simp only at run
          rw [Run.lift_bind, Run.lift_bind, pure_bind, Run.lift_bind, releaseAll_idle idle] at run
          obtain ⟨dropped, only, drops⟩ := release_drops value (encodeReturn c.signature value N.engine).2
          obtain ⟨t, events, gained, lost⟩ := drops.moves.events
          rw [events_encodeReturn plain] at events
          cases run
          refine .answered values _ _ t idle called events gained.eq_nil fun r hr => ?_
          obtain ⟨a, ha, rfl⟩ := List.mem_map.mp (lost.mem_iff.mp hr)
          exact ⟨value, a, rfl, only a ha, rfl⟩

theorem relays_of_trampoline {c : Callback} {M M' : Machine World} {x : Slot}
    (plain : c.signature.result.isPointerLike = false) (run : c.trampoline host slots M = (x, M')) :
    c.Relays host M M' := by
  rcases answered : c.answer host slots M with ⟨r, N⟩
  have relays := relays_of_answer plain answered
  unfold trampoline trampolineInto at run
  simp only at run
  have run := (Run.bind_of answered).symm.trans run
  cases r with
  | ok slot =>
      cases run
      exact relays
  | error e =>
      -- a failure leaves a line in the log
      have logged : ∃ entry, M'.engine.events = .logged entry :: N.engine.events := by
        cases e with
        | error e =>
            cases run
            exact ⟨_, rfl⟩
        | panic text =>
            cases run
            exact ⟨_, rfl⟩
      obtain ⟨entry, logged⟩ := logged
      cases relays with
      | refused t events gained lost =>
          exact .refused (.logged entry :: t) (by rw [logged, events]; rfl) gained lost
      | answered values outcome N' t idle called events gained lost =>
          exact .answered values outcome N' (.logged entry :: t) idle called (by rw [logged, events]; rfl) gained lost

end Callback

end Ferry
