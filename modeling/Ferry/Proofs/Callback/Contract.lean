import Ferry.Proofs.Callback.Answering
import Ferry.Proofs.Marshal.Counts

/-!
# What native code and a callable get from each other

When native code calls a callback, either an argument does not decode, and the callable is not called; or the callable is
called once, on one value for each argument, where an array has as many items as the argument says that holds its length.
Native code gets its answer in any case: the value that the callable returned, extended to a word, if it converts, and
zero otherwise. The main result is `contract_of_trampoline`. All of what the engine does beside the one call of the
callable is an action of the engine, which calls nobody.
-/

set_option autoImplicit false

namespace Ferry

variable {World : Type}

/-! ## Arrays of a known length -/

theorem length_decodeItems {decodeItem : Slot → MarshalM Value} {t : NativeType} {base : UInt64} {index count : Nat}
    {found items : List Value} {s s' : Engine}
    (run : decodeItems decodeItem t base index count found s = (.ok items, s')) : items.length = found.length + count := by
  induction count generalizing index found s with
  | zero =>
      cases run
      simp
  | succ count ih =>
      rcases decodeItems_succ_cases run with ⟨item, s₁, -, later⟩ | ⟨e, s₁, -, -, impossible⟩
      · rw [ih later, List.length_cons]
        omega
      · cases impossible

theorem length_arrayFromNative {element : Ty} {length : ArrayLength} {slot : Slot} {n : Nat} {transfer : Transfer}
    {v : Value} {s : Engine} (present : slot.isNull = false)
    (yields : (arrayFromNative element length slot (some n) transfer s).1 = .ok v) :
    ∃ items, v = .array items ∧ items.length = n := by
  rcases run : arrayFromNative element length slot (some n) transfer s with ⟨r, s'⟩
  rw [run] at yields
  cases yields
  unfold arrayFromNative decodeArrayWith at run
  rw [present, if_neg Bool.false_ne_true, EngineM.failing_get] at run
  obtain ⟨items, s₁, decoded, last⟩ := EngineM.failing_bind_ok run
  cases last
  have whole := length_decodeItems decoded
  exact ⟨items, rfl, by simpa using whole⟩

namespace Callback

variable {s : Signature} {slots : List Slot} {E : Engine} {i l : Nat} {p holder : Param} {v : Value}

theorem length_decodeArgument {element : Ty} (array : p.type = .array element (.parameter l))
    (linked : s.params[l]? = some holder) (present : (argument s slots i).isNull = false)
    (decoded : (decodeArgument s slots i p E).1 = .ok v) :
    ∃ items, v = .array items ∧ holder.type.native.isInteger = true ∧
      (items.length : Int) = (argument s slots l).integer holder.type.native := by
  unfold decodeArgument at decoded
  rw [array] at decoded
  have found : (ArrayLength.parameter l).parameter?.bind (fun l => s.params[l]?.map (l, ·)) = some (l, holder) := by
    simp [ArrayLength.parameter?, linked]
  simp only [found, map_eq_pure_bind, EngineM.failing_bind] at decoded
  have count := decodeLength_count (argument s slots l) holder.type E
  have same := decodeLength_reads (argument s slots l) holder.type E
  rcases read : decodeLength (argument s slots l) holder.type E with ⟨r, E'⟩
  rw [read] at decoded count same
  cases same
  cases r with
  | error e => cases decoded
  | ok n =>
      obtain ⟨items, rfl, whole⟩ := length_arrayFromNative present decoded
      have count : holder.type.count? (argument s slots l) = some n := count.symm
      unfold Ty.count? at count
      split at count
      · rename_i holds
        cases count
        exact ⟨items, rfl, holds.1, by omega⟩
      · cases count

/-! ## All arguments -/

/-- The values are the arguments, one for each and in their order. -/
structure Receives (s : Signature) (slots : List Slot) (E : Engine) (values : List Value) : Prop where
  length : values.length = s.params.length
  decoded : ∀ i p v, s.params[i]? = some p → values[i]? = some v → (decodeArgument s slots i p E).1 = .ok v
  counted : ∀ i p v element l holder, s.params[i]? = some p → values[i]? = some v → p.type = .array element (.parameter l) →
    s.params[l]? = some holder → (argument s slots i).isNull = false →
      ∃ items, v = .array items ∧ (items.length : Int) = (argument s slots l).integer holder.type.native

theorem receives_of_decoded {values : List Value} (length : values.length = s.params.length)
    (each : ∀ i p v, s.params[i]? = some p → values[i]? = some v → (decodeArgument s slots i p E).1 = .ok v) :
    Receives s slots E values where
  length := length
  decoded := each
  counted i p v element l holder at_i here array linked present := by
    obtain ⟨items, same, -, count⟩ := length_decodeArgument array linked present (each i p v at_i here)
    exact ⟨items, same, count⟩

/-! ## The answer -/

/-- The value that stands for what a callable returned: nothing counts as null where null may be returned. -/
def shown (s : Signature) (value : Value) : Value :=
  match value with
  | .undefined => if s.mayReturnNull then .null else value
  | _ => value

theorem encodeReturn_eq (full : s.result.isVoid = false) (value : Value) :
    encodeReturn s value = toNative (shown s value) s.result s.mayReturnNull := by
  unfold encodeReturn
  rw [full, if_neg Bool.false_ne_true]
  rfl

/-- What stands in the place of the result at the end: a value that converts, sign- or zero-extended as its type is, and
zero for everything else. A callback without a result leaves the place alone. -/
def resultIn (s : Signature) (place : Slot) (outcome : Except InvokeFailure Value) (E : Engine) : Slot :=
  if s.result.isVoid then place
  else
    match outcome with
    | .error _ => .zero
    | .ok value =>
      match (toNative (shown s value) s.result s.mayReturnNull E).1 with
      | .error _ => .zero
      | .ok x => if s.result.native.isExtended then .ofInt (x.integer s.result.native) else x

def complain (s : Signature) : InvokeFailure → EngineM Unit
  | .error e => EngineM.log (.callbackFailed s.qualifiedName e.message)
  | .panic _ => EngineM.log (.callbackPanicked s.qualifiedName)

/-- What the engine does when the callable has ended: it converts the value and drops it, and writes a line if something
failed. -/
def conclude (s : Signature) (outcome : Except InvokeFailure Value) : EngineM Unit :=
  match outcome with
  | .error failure => complain s failure
  | .ok value => do
    let encoded ← (encodeReturn s value).run
    value.release
    match encoded with
    | .error failure => complain s (failure.map (.marshal ("return value of " ++ s.qualifiedName)))
    | .ok _ => pure ()

theorem widen_zero (t : NativeType) : Slot.zero.widen t = .zero := by
  cases t <;> rfl

section Conclude

variable {value : Value} {E' : Engine}

theorem conclude_converted {x : Slot} (encoded : encodeReturn s value E = (.ok x, E')) :
    (conclude s (.ok value) E).2 = (value.release E').2 := by
  have run : (encodeReturn s value).run E = (.ok x, E') := encoded
  unfold conclude
  simp only
  rw [EngineM.run_bind, run]
  rfl

theorem conclude_unconverted {failure : Failure MarshalError} (encoded : encodeReturn s value E = (.error failure, E')) :
    (conclude s (.ok value) E).2 =
      (complain s (failure.map (.marshal ("return value of " ++ s.qualifiedName))) (value.release E').2).2 := by
  have run : (encodeReturn s value).run E = (.error failure, E') := encoded
  unfold conclude
  simp only
  rw [EngineM.run_bind, run]
  rfl

theorem resultIn_converted {x : Slot} (place : Slot) (encoded : encodeReturn s value E = (.ok x, E')) :
    resultIn s place (.ok value) E = if s.result.isVoid then place else x.widen s.result.native := by
  unfold resultIn
  split
  · rfl
  · rename_i full
    simp only
    rw [← encodeReturn_eq (by simpa using full), encoded]
    rfl

theorem resultIn_unconverted {failure : Failure MarshalError} (place : Slot)
    (encoded : encodeReturn s value E = (.error failure, E')) :
    resultIn s place (.ok value) E = if s.result.isVoid then place else .zero := by
  unfold resultIn
  split
  · rfl
  · rename_i full
    simp only
    rw [← encodeReturn_eq (by simpa using full), encoded]

end Conclude

section Trampoline

variable {host : Host World} {c : Callback} {M : Machine World}

theorem trampolineInto_answered {slot : Slot} {N : Machine World} (place : Slot)
    (answered : c.answer host slots M = (.ok slot, N)) :
    c.trampolineInto host slots place M =
      (if c.signature.result.isVoid then place else slot.widen c.signature.result.native, N) := by
  unfold trampolineInto
  simp only
  rw [Run.bind_of answered]
  rfl

theorem trampolineInto_failed {failure : InvokeFailure} {N : Machine World} (place : Slot)
    (answered : c.answer host slots M = (.error failure, N)) :
    c.trampolineInto host slots place M =
      (if c.signature.result.isVoid then place else .zero, ⟨(complain c.signature failure N.engine).2, N.world⟩) := by
  unfold trampolineInto
  simp only
  rw [Run.bind_of answered]
  cases failure <;>
  · simp only
    rw [Run.lift_bind, pure_bind, widen_zero]
    rfl

theorem trampolineInto_undecoded {e : InvokeError} (place : Slot)
    (fails : (decodeArguments c.signature slots c.signature.params 0 [] M.engine).1 = .error e) :
    c.trampolineInto host slots place M = (if c.signature.result.isVoid then place else .zero,
      ⟨(EngineM.log (.callbackFailed c.signature.qualifiedName e.message) M.engine).2, M.world⟩) := by
  obtain ⟨same, -⟩ := decodeArguments_reads c.signature slots c.signature.params 0 (List.forall_mem_nil _) M.engine
  have first : (decodeArguments c.signature slots c.signature.params 0 []).run M.engine = (.error e, M.engine) :=
    Prod.ext fails same
  have answered : c.answer host slots M = (.error (.error e), M) := by
    unfold answer
    simp only
    rw [Run.lift_bind, first]
    rfl
  exact trampolineInto_failed place answered

theorem trampolineInto_called {values : List Value} {outcome : Except InvokeFailure Value} {N : Machine World}
    (place : Slot) (decodes : (decodeArguments c.signature slots c.signature.params 0 [] M.engine).1 = .ok values)
    (called : callCallable host c.callable values M = (outcome, N)) :
    c.trampolineInto host slots place M =
      (resultIn c.signature place outcome N.engine, ⟨(conclude c.signature outcome N.engine).2, N.world⟩) := by
  obtain ⟨same, idle⟩ := decodeArguments_reads c.signature slots c.signature.params 0 (List.forall_mem_nil _) M.engine
  have first : (decodeArguments c.signature slots c.signature.params 0 []).run M.engine = (.ok values, M.engine) :=
    Prod.ext decodes same
  have idle := idle values decodes
  cases outcome with
  | error failure =>
      have answered : c.answer host slots M = (.error failure, N) := by
        unfold answer
        simp only
        rw [Run.lift_bind, first]
        simp only
        rw [Run.bind_of called]
        simp only
        rw [pure_bind, Run.lift_bind, releaseAll_idle idle]
        rfl
      exact trampolineInto_failed place answered
  | ok value =>
      rcases encoded : encodeReturn c.signature value N.engine with ⟨r, E⟩
      have run : (encodeReturn c.signature value).run N.engine = (r, E) := encoded
      have answered : c.answer host slots M = (r.mapError (Failure.map
          (.marshal ("return value of " ++ c.signature.qualifiedName))), ⟨(value.release E).2, N.world⟩) := by
        unfold answer
        simp only
        rw [Run.lift_bind, first]
        simp only
        rw [Run.bind_of called]
        simp only
        rw [Run.lift_bind, run, Run.lift_bind, pure_bind, Run.lift_bind, releaseAll_idle idle]
        rfl
      cases r with
      | error e =>
          rw [resultIn_unconverted place encoded, conclude_unconverted encoded]
          exact trampolineInto_failed place answered
      | ok x =>
          rw [resultIn_converted place encoded, conclude_converted encoded]
          exact trampolineInto_answered place answered

end Trampoline

/-- The contract of a trampoline, for every callback, whatever native code passes and the callable does. Either an argument
does not decode; then the callable is not called, and the engine only writes a line. Or they all decode, and the callable is
called once, on their values; everything else is done by the engine alone. The place of the result is as `resultIn` says. -/
theorem contract_of_trampoline (host : Host World) (c : Callback) (slots : List Slot) (place : Slot) (M : Machine World) :
    (∃ i p e, c.signature.params[i]? = some p ∧ (decodeArgument c.signature slots i p M.engine).1 = .error e ∧
      c.trampolineInto host slots place M = (if c.signature.result.isVoid then place else .zero,
        ⟨(EngineM.log (.callbackFailed c.signature.qualifiedName (InvokeError.marshal p.name e).message) M.engine).2,
          M.world⟩)) ∨
    ∃ values outcome N, Receives c.signature slots M.engine values ∧
      callCallable host c.callable values M = (outcome, N) ∧
      c.trampolineInto host slots place M =
        (resultIn c.signature place outcome N.engine, ⟨(conclude c.signature outcome N.engine).2, N.world⟩) := by
  have none_found : ∀ v ∈ ([] : List Value), v.Idle := by simp
  rcases decodeArguments_cases c.signature slots c.signature.params 0 M.engine none_found with
    ⟨i, p, e, at_i, fails, run⟩ | ⟨values, run, length, -, each⟩
  · rw [Nat.zero_add] at fails
    exact Or.inl ⟨i, p, e, at_i, fails, trampolineInto_undecoded place (congrArg Prod.fst run)⟩
  · rcases called : callCallable host c.callable values M with ⟨outcome, N⟩
    refine Or.inr ⟨values, outcome, N, receives_of_decoded length fun i p v at_i here => ?_, called,
      trampolineInto_called place (congrArg Prod.fst run) called⟩
    have decoded := each i p v at_i here
    rwa [Nat.zero_add] at decoded

theorem trampolineInto_host {host : Host World} {c : Callback} {M N : Machine World} {k : Callable} {values : List Value}
    {outcome : Except InvokeFailure Value} (place : Slot)
    (found : M.engine.callables.find? (·.id == c.callable) = some k) (body : k.body = .host)
    (receives : Receives c.signature slots M.engine values) (applied : host.apply c.callable values M = (outcome, N)) :
    c.trampolineInto host slots place M =
      (resultIn c.signature place outcome N.engine, ⟨(conclude c.signature outcome N.engine).2, N.world⟩) := by
  have called : callCallable host c.callable values M = (outcome, N) := (callCallable_host found body).trans applied
  have none_found : ∀ v ∈ ([] : List Value), v.Idle := by simp
  rcases decodeArguments_cases c.signature slots c.signature.params 0 M.engine none_found with
    ⟨i, p, e, at_i, fails, -⟩ | ⟨decoded, run, length, -, each⟩
  · rw [Nat.zero_add] at fails
    have inside : i < values.length := by
      rw [receives.length]
      exact (List.getElem?_eq_some_iff.mp at_i).1
    rw [receives.decoded i p values[i] at_i (List.getElem?_eq_getElem inside)] at fails
    cases fails
  · have same : decoded = values := by
      refine List.ext_getElem (length.trans receives.length.symm) fun i here there => ?_
      have inside : i < c.signature.params.length := length ▸ here
      have one := each i _ _ (List.getElem?_eq_getElem inside) (List.getElem?_eq_getElem here)
      have other := receives.decoded i _ _ (List.getElem?_eq_getElem inside) (List.getElem?_eq_getElem there)
      rw [Nat.zero_add, other] at one
      exact (Except.ok.inj one).symm
    subst same
    exact trampolineInto_called place (congrArg Prod.fst run) called

/-- Answers a callable with its first argument, and counts how often one is applied. -/
def echoing : Host Nat where
  enter _ _ := return .zero
  apply _ values := modifyGet fun M => (.ok (values.headD .undefined), { M with world := M.world + 1 })

def echo : Callback where
  serial := 0
  code := 0x1000
  token := 0x1008
  callable := 7
  scope := .call
  signature := {
    namespaceName := "Sample", name := "Echo", result := .int16, resultTransfer := .nothing, skipResult := false
    mayReturnNull := false, canThrow := false
    params := [⟨"value", .int16, .input, .nothing, false, false, none, none, .call⟩] }

def echoed : Slot × Machine Nat :=
  echo.trampolineInto echoing [⟨0xFFFE⟩] .zero ⟨{ Engine.initial with callables := [⟨7, "echo", 1, .host⟩] }, 0⟩

-- The callable is applied once, and its answer is sign-extended.
example : echoed.1 = ⟨0xFFFFFFFFFFFFFFFE⟩ ∧ echoed.2.world = 1 := by
  decide +kernel

end Callback

end Ferry
