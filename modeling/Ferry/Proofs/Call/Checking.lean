import Ferry.Proofs.Call.Buffers
import Ferry.Proofs.Marshal.Admission
import Ferry.Proofs.Plan.Visibility

/-!
# The check beforehand

The check of the argument types looks at the arguments before any native work; without it, an argument that does not
convert is found while the frame is built. What the frame is built from passes the check (`fits_of_prepare`), so a
call that the check refuses never gets to native code. Where only single values are converted, and memory has room for
them, the first argument that does not fit is where building stops (`prepare_single`). The main result is
`checked_of_execute`.
-/

set_option autoImplicit false

namespace Ferry

/-! ## The check -/

section Loop

variable {α ε : Type} {act : α → Except ε Unit}

theorem forM_except_cases (items : List α) :
    ((∀ x ∈ items, act x = .ok ()) ∧ items.forM act = .ok ()) ∨
      ∃ front x back e, items = front ++ x :: back ∧ (∀ y ∈ front, act y = .ok ()) ∧ act x = .error e ∧
        items.forM act = .error e := by
  induction items with
  | nil => exact Or.inl ⟨by simp, rfl⟩
  | cons x rest ih =>
      have step : (x :: rest).forM act = act x >>= fun _ => rest.forM act := rfl
      cases here : act x with
      | error e => exact Or.inr ⟨[], x, rest, e, rfl, by simp, here, by rw [step, here]; rfl⟩
      | ok u =>
          have goesOn : (x :: rest).forM act = rest.forM act := by
            rw [step, here]
            rfl
          rcases ih with ⟨all, ok⟩ | ⟨front, y, back, e, rfl, before, failed, error⟩
          · exact Or.inl ⟨List.forall_mem_cons.mpr ⟨here, all⟩, goesOn.trans ok⟩
          · exact Or.inr ⟨x :: front, y, back, e, rfl, List.forall_mem_cons.mpr ⟨here, before⟩, failed,
              goesOn.trans error⟩

end Loop

namespace Parameter

/-- The argument that a parameter consumes converts, if it consumes one. -/
def Fits (q : Parameter) (arguments : List Value) : Prop :=
  q.position ≠ none → canConvert (q.argument arguments) q.type q.nullable = true

instance (q : Parameter) (arguments : List Value) : Decidable (q.Fits arguments) :=
  inferInstanceAs (Decidable (_ → _))

def unfit (q : Parameter) (arguments : List Value) : InvokeError :=
  .invalidArgument q.name q.type (q.argument arguments)

def check (arguments : List Value) (q : Parameter) : Except InvokeError Unit :=
  if q.Fits arguments then .ok () else .error (q.unfit arguments)

end Parameter

namespace Plan

variable {p : Plan} {arguments : List Value} {q : Parameter}

theorem typeCheck_eq (p : Plan) (arguments : List Value) :
    p.typeCheck arguments =
      if arguments.length < p.inputs then .error (.notEnoughArguments p.inputs arguments.length)
      else p.parameters.forM (Parameter.check arguments) := by
  unfold typeCheck
  split
  · rfl
  · refine congrArg p.parameters.forM (funext fun q => ?_)
    cases position : q.position with
    | none => simp [Parameter.check, Parameter.Fits, position, pure, Except.pure]
    | some k =>
        simp only [Parameter.check, Parameter.Fits, Parameter.unfit, Parameter.argument, position, Option.bind_some,
          ne_eq, reduceCtorEq, not_false_eq_true, forall_const]
        rfl

/-- The outcomes of the check. -/
inductive Checks (p : Plan) (arguments : List Value) : Except InvokeError Unit → Prop
  | few (short : arguments.length < p.inputs) :
    Checks p arguments (.error (.notEnoughArguments p.inputs arguments.length))
  | unfit (enough : p.inputs ≤ arguments.length) (front : List Parameter) (q : Parameter) (back : List Parameter)
    (listed : p.parameters = front ++ q :: back) (before : ∀ r ∈ front, r.Fits arguments) (here : ¬q.Fits arguments) :
    Checks p arguments (.error (q.unfit arguments))
  | passed (enough : p.inputs ≤ arguments.length) (all : ∀ q ∈ p.parameters, q.Fits arguments) :
    Checks p arguments (.ok ())

theorem fits_of_check (passed : q.check arguments = .ok ()) : q.Fits arguments := by
  unfold Parameter.check at passed
  split at passed
  · assumption
  · cases passed

theorem unfit_of_check {e : InvokeError} (failed : q.check arguments = .error e) :
    ¬q.Fits arguments ∧ e = q.unfit arguments := by
  unfold Parameter.check at failed
  split at failed
  · cases failed
  · cases failed
    exact ⟨by assumption, rfl⟩

theorem checks_typeCheck (p : Plan) (arguments : List Value) : p.Checks arguments (p.typeCheck arguments) := by
  rw [typeCheck_eq]
  by_cases short : arguments.length < p.inputs
  · rw [if_pos short]
    exact .few short
  · rw [if_neg short]
    have enough := Nat.le_of_not_lt short
    rcases @forM_except_cases _ _ (Parameter.check arguments) p.parameters with
      ⟨all, ok⟩ | ⟨front, q, back, e, listed, before, failed, error⟩
    · rw [ok]
      exact .passed enough fun q hq => fits_of_check (all q hq)
    · obtain ⟨here, rfl⟩ := unfit_of_check failed
      rw [error]
      exact .unfit enough front q back listed (fun r hr => fits_of_check (before r hr)) here

end Plan

/-! ## What a frame is built from passes the check -/

namespace Frame

variable {f f' : Frame} {s s' : Engine} {arguments : List Value} {q : Parameter} {value : Value}

theorem Supplies.canConvert (h : Supplies q value f s (.ok ()) f' s') :
    canConvert value q.type q.nullable = true := by
  cases h with
  | value _ _ _ converted => exact canConvert_of_encode q.type (toNative_ok converted)
  | array l element length linked type slot count s₁ r encoded converted passed =>
      rw [type]
      exact canConvert_of_encodeArray converted
  | callback closure destroy scope signature handled type g callable made s₁ run =>
      rw [type, callable]
      rfl
  | noCallback closure destroy scope signature handled type absent nullable =>
      rw [type, nullable, canConvert_nullish (by simp) absent]
      rfl

theorem BuildStep.fits (input : q.position ≠ none → q.isInput = true) (h : BuildStep arguments q f s (.ok ()) f' s') :
    q.Fits arguments := by
  intro placed
  have shown := input placed
  simp only [Parameter.isInput, Parameter.isHidden, Bool.and_eq_true, Bool.not_eq_true', decide_eq_false_iff_not] at shown
  cases h with
  | hidden hidden => exact absurd hidden shown.1
  | output _ out =>
      rw [out] at shown
      cases shown.2
  | input _ _ _ _ supplies => exact supplies.canConvert
  | both _ _ _ _ supplies => exact supplies.canConvert

end Frame

namespace Plan

variable {p : Plan} {receiver : Option Value} {arguments : List Value} {s s' : Engine} {f : Frame}

theorem Obtained.fits_of_prepare (obtained : p.Obtained) (built : p.prepare receiver arguments s = (.ok f, s')) :
    p.inputs ≤ arguments.length ∧ ∀ q ∈ p.parameters, q.Fits arguments := by
  obtain ⟨enough, f₀, s₀, fresh, build⟩ := prepare_ok built
  have plan : f₀.plan = p := by rw [(Frame.fresh?_some fresh).1]; rfl
  rw [Frame.run_build] at build
  obtain ⟨u, f₁, s₁, -, turns⟩ := Frame.run_bind_ok build
  rw [plan] at turns
  refine ⟨enough, ?_⟩
  intro q hq
  obtain ⟨k, found⟩ := List.getElem?_of_mem hq
  obtain ⟨f₂, s₂, f₃, s₃, -, turn, -⟩ := Frame.run_forM_split turns found
  exact (Frame.run_buildParameter turn).fits (obtained.visible_of_position hq)

theorem Obtained.typeCheck_of_prepare (obtained : p.Obtained)
    (built : p.prepare receiver arguments s = (.ok f, s')) : p.typeCheck arguments = .ok () := by
  obtain ⟨enough, fit⟩ := obtained.fits_of_prepare built
  cases checks : p.typeCheck arguments with
  | ok u => rfl
  | error e =>
      have outcome := checks_typeCheck p arguments
      rw [checks] at outcome
      cases outcome with
      | few short => omega
      | unfit _ front q back listed _ here => exact absurd (fit q (by simp [listed])) here

end Plan

/-! ## Single values -/

/-- A parameter of a single value that is no callback. -/
structure Parameter.Single (q : Parameter) : Prop where
  flat : ∀ element length, q.type ≠ .array element length
  uncalled : ∀ signature, q.type ≠ .callback signature
  own : q.callerAllocates = false

namespace Plan

variable {p : Plan} {q : Parameter}

theorem Obtained.notifier_hidden (obtained : p.Obtained) {i : Nat} (found : p.parameters[i]? = some q)
    (notifier : q.type = .destroyNotify) : q.handling = .hidden := by
  obtain ⟨id, source, address, isMethod, ok⟩ := obtained.assembled
  simp only [assemble] at ok
  cases classified : classify source.descriptor.signature with
  | error e =>
      rw [classified] at ok
      cases ok
  | ok k =>
      rw [classified] at ok
      cases ok
      exact notifier_hidden_of_classify classified found (by rw [notifier]; rfl)

theorem Obtained.normal_of_single (obtained : p.Obtained) (hq : q ∈ p.parameters) (single : q.Single)
    (visible : q.handling ≠ .hidden) : q.handling = .normal ∧ q.type.IsPlain := by
  have found := obtained.coherent.inside hq
  have handled := obtained.coherent.handled q.index q found
  constructor
  · cases handling : q.handling with
    | hidden => exact absurd handling visible
    | normal => rfl
    | array l =>
        rw [handling] at handled
        obtain ⟨⟨element, type⟩, -⟩ := handled
        exact absurd type (single.flat element _)
    | callback closure destroy scope =>
        rw [handling] at handled
        obtain ⟨-, ⟨signature, type⟩, -⟩ := handled
        exact absurd type (single.uncalled signature)
  · exact ⟨single.flat, single.uncalled, fun notifier => visible (obtained.notifier_hidden found notifier)⟩

end Plan

namespace Frame

variable {f : Frame} {s : Engine} {arguments : List Value} {q : Parameter}

theorem run_buildValue_plain {value : Value} (plain : q.type.IsPlain)
    (room : s.memory.frontier + value.textSpan ≤ Memory.limit) :
    (canConvert value q.type q.nullable = true ∧ ∃ f' s', f.run (FrameM.buildValue q value) s = ((.ok (), f'), s') ∧
      s'.memory.frontier ≤ s.memory.frontier + value.textSpan) ∨
    canConvert value q.type q.nullable = false ∧ ∃ f' s',
      f.run (FrameM.buildValue q value) s = ((.error (.error (.invalidArgument q.name q.type value)), f'), s') := by
  unfold FrameM.buildValue
  rw [run_bind, run_convert]
  rcases @toNative_plain s value q.type q.nullable plain room with
    ⟨passes, slot, s', converted, frontier⟩ | ⟨fails, e, s', refused, fault⟩
  · rw [converted]
    exact Or.inl ⟨passes, _, s', rfl, frontier⟩
  · rw [refused]
    have blamed : InvokeFailure.ofConversion q.name q.type value (.error e) = .error (.invalidArgument q.name q.type value) := by
      rw [InvokeFailure.ofConversion, Failure.map, InvokeError.ofConversion, fault, if_pos rfl]
    exact Or.inr ⟨fails, f, s', by rw [← blamed]; rfl⟩

/-- The turn of a parameter of a single value, with room in memory: it succeeds if the argument fits, and fails as the
check does otherwise. -/
theorem run_buildParameter_single (own : q.callerAllocates = false)
    (normal : q.handling ≠ .hidden → q.handling = .normal ∧ q.type.IsPlain)
    (placed : q.position ≠ none ↔ q.isInput = true)
    (room : s.memory.frontier + (q.argument arguments).textSpan ≤ Memory.limit) :
    (q.Fits arguments ∧ ∃ f' s', f.run (FrameM.buildParameter arguments q) s = ((.ok (), f'), s') ∧
      s'.memory.frontier ≤ s.memory.frontier + (q.argument arguments).textSpan) ∨
    ¬q.Fits arguments ∧ ∃ f' s',
      f.run (FrameM.buildParameter arguments q) s = ((.error (.error (q.unfit arguments)), f'), s') := by
  unfold FrameM.buildParameter
  by_cases hidden : q.isHidden = true
  · rw [if_pos hidden]
    refine Or.inl ⟨fun input => ?_, f, s, rfl, Nat.le_add_right _ _⟩
    rw [placed, Parameter.isInput, hidden] at input
    cases input
  · rw [if_neg hidden]
    obtain ⟨handling, plain⟩ := normal fun same => hidden (q.isHidden_iff.mpr same)
    by_cases out : q.direction = .output
    · rw [if_pos out]
      refine Or.inl ⟨fun input => ?_, ?_⟩
      · rw [placed, Parameter.isInput, out, Bool.and_eq_true] at input
        cases input.2
      · unfold FrameM.reserveOutput
        rw [own]
        exact ⟨_, s, rfl, Nat.le_add_right _ _⟩
    · have input : q.position ≠ none := by
        rw [placed, Parameter.isInput, Bool.and_eq_true]
        refine ⟨by simpa using hidden, ?_⟩
        cases direction : q.direction with
        | output => exact absurd direction out
        | _ => rfl
      have fits : q.Fits arguments ↔ canConvert (q.argument arguments) q.type q.nullable = true :=
        ⟨fun fit => fit input, fun passes _ => passes⟩
      rw [if_neg out, fits]
      simp only [handling]
      rw [run_bind]
      rcases @run_buildValue_plain f s q _ plain room with ⟨passes, f', s', run, frontier⟩ | ⟨fails, f', s', run⟩
      · rw [run]
        refine Or.inl ⟨passes, ?_⟩
        by_cases both : q.direction = .both
        · simp only [both, if_true]
          rw [run_rehome]
          refine ⟨_, _, rfl, ?_⟩
          rw [Engine.withCell, Memory.frontier_store]
          exact frontier
        · simp only [both, if_false]
          exact ⟨f', s', rfl, frontier⟩
      · rw [run]
        exact Or.inr ⟨by simp [fails], f', s', rfl⟩

end Frame

/-- What the arguments of some parameters take up in memory when they are converted. -/
def argumentSpan (arguments : List Value) (parameters : List Parameter) : Nat :=
  (parameters.map fun q => (q.argument arguments).textSpan).sum

theorem argumentSpan_cons (arguments : List Value) (q : Parameter) (rest : List Parameter) :
    argumentSpan arguments (q :: rest) = (q.argument arguments).textSpan + argumentSpan arguments rest := by
  simp [argumentSpan]

theorem argumentSpan_append (arguments : List Value) (front back : List Parameter) :
    argumentSpan arguments (front ++ back) = argumentSpan arguments front + argumentSpan arguments back := by
  simp [argumentSpan]

/-- What a call with single values takes up in memory: the working storage of its frame, and what its arguments are
converted to. -/
def Plan.demand (p : Plan) (arguments : List Value) : Nat :=
  Memory.span (8 * p.parameters.length) + Memory.span 8 + argumentSpan arguments p.parameters

namespace Frame

variable {f : Frame} {s : Engine} {arguments : List Value}

theorem run_turns_single {parameters : List Parameter}
    (each : ∀ q ∈ parameters, q.callerAllocates = false ∧
      (q.handling ≠ .hidden → q.handling = .normal ∧ q.type.IsPlain) ∧ (q.position ≠ none ↔ q.isInput = true))
    (fit : ∀ q ∈ parameters, q.Fits arguments)
    (room : s.memory.frontier + argumentSpan arguments parameters ≤ Memory.limit) :
    ∃ f' s', f.run (parameters.forM (FrameM.buildParameter arguments)) s = ((.ok (), f'), s') ∧
      s'.memory.frontier ≤ s.memory.frontier + argumentSpan arguments parameters := by
  induction parameters generalizing f s with
  | nil => exact ⟨f, s, rfl, Nat.le_add_right _ _⟩
  | cons q rest ih =>
      obtain ⟨⟨own, normal, placed⟩, each⟩ := List.forall_mem_cons.mp each
      obtain ⟨here, fit⟩ := List.forall_mem_cons.mp fit
      rw [argumentSpan_cons] at room
      rcases @run_buildParameter_single f s arguments q own normal placed (by omega) with
        ⟨-, f₁, s₁, turn, frontier⟩ | ⟨unfit, -⟩
      · obtain ⟨f₂, s₂, turns, frontier'⟩ := ih (f := f₁) (s := s₁) each fit (by omega)
        refine ⟨f₂, s₂, ?_, ?_⟩
        · rw [run_forM_cons, run_bind, turn]
          exact turns
        · rw [argumentSpan_cons]
          omega
      · exact absurd here unfit

theorem reserve_of_room {size : Nat} (room : s.memory.frontier + Memory.span size ≤ Memory.limit) :
    (EngineM.reserve size s).1 ≠ 0 ∧
      (EngineM.reserve size s).2.memory.frontier = s.memory.frontier + Memory.span size := by
  obtain ⟨a, m, made, frontier⟩ := Memory.allocate?_of_room .hidden room
  rcases EngineM.reserve_cases size s with ⟨a', m', made', run⟩ | ⟨full, -⟩
  · rw [made] at made'
    cases made'
    rw [run]
    refine ⟨?_, frontier⟩
    intro null
    have null : a = 0 := null
    have address := (Memory.allocate?_some made).1
    have low := s.memory.layout.first_le_frontier
    rw [null, UInt64.toNat_zero] at address
    simp only [Memory.firstBlock] at low
    omega
  · rw [made] at full
    cases full

theorem fresh?_of_room {p : Plan}
    (room : s.memory.frontier + Memory.span (8 * p.parameters.length) + Memory.span 8 ≤ Memory.limit) :
    ∃ f₀ s₀, fresh? p s = (some f₀, s₀) ∧
      s₀.memory.frontier = s.memory.frontier + Memory.span (8 * p.parameters.length) + Memory.span 8 := by
  obtain ⟨cells, frontier⟩ := @reserve_of_room s (8 * p.parameters.length) (by omega)
  obtain ⟨failure, frontier'⟩ := @reserve_of_room (EngineM.reserve (8 * p.parameters.length) s).2 8 (by omega)
  rw [fresh?_eq, if_neg (by simp [cells, failure])]
  exact ⟨_, _, rfl, by rw [frontier', frontier]⟩

end Frame

namespace Plan

variable {p : Plan} {arguments : List Value} {s : Engine}

theorem Obtained.prepare_single (obtained : p.Obtained) (plain : p.isMethod = false)
    (single : ∀ q ∈ p.parameters, q.Single) (room : s.memory.frontier + p.demand arguments ≤ Memory.limit)
    {receiver : Option Value} {e : InvokeError} {e' : InvokeFailure} {s' : Engine} (refused : p.typeCheck arguments = .error e)
    (unbuilt : p.prepare receiver arguments s = (.error e', s')) : e' = .error e := by
  have outcome := checks_typeCheck p arguments
  rw [refused] at outcome
  cases outcome with
  | few short =>
      unfold prepare at unbuilt
      rw [if_pos short] at unbuilt
      cases unbuilt
      rfl
  | unfit enough front q back listed before here =>
      have span : argumentSpan arguments p.parameters = argumentSpan arguments front +
          ((q.argument arguments).textSpan + argumentSpan arguments back) := by
        rw [listed, argumentSpan_append, argumentSpan_cons]
      rw [demand, span] at room
      obtain ⟨f₀, s₀, fresh, frontier⟩ := Frame.fresh?_of_room (p := p) (s := s) (by omega)
      have plan : f₀.plan = p := by rw [(Frame.fresh?_some fresh).1]; rfl
      have each : ∀ r ∈ p.parameters, r.callerAllocates = false ∧
          (r.handling ≠ .hidden → r.handling = .normal ∧ r.type.IsPlain) ∧ (r.position ≠ none ↔ r.isInput = true) := by
        intro r hr
        refine ⟨(single r hr).own, obtained.normal_of_single hr (single r hr), obtained.visible_of_position hr, ?_⟩
        intro input absent
        obtain ⟨k, placed, -⟩ := obtained.coherent.position r hr input
        rw [absent] at placed
        cases placed
      -- the turns before the argument that does not fit succeed, and then building stops
      obtain ⟨f₁, s₁, turns, frontier'⟩ := Frame.run_turns_single (f := f₀.withHiddenCells p.parameters) (s := s₀)
        (fun r hr => each r (by simp [listed, hr])) before (by omega)
      obtain ⟨own, normal, placed⟩ := each q (by simp [listed])
      rcases @Frame.run_buildParameter_single f₁ s₁ arguments q own normal placed (by omega) with
        ⟨fits, -⟩ | ⟨-, f₂, s₂, turn⟩
      · exact absurd fits here
      · have build : f₀.run (FrameM.build receiver arguments) s₀ = ((.error (.error (q.unfit arguments)), f₂), s₂) := by
          rw [Frame.run_build, Frame.run_bind, Frame.run_start_plain (by rw [plan]; exact plain)]
          simp only [plan]
          rw [listed, Frame.run_forM_append, Frame.run_bind, ← listed, turns]
          simp only
          rw [Frame.run_forM_cons, Frame.run_bind, turn]
        rcases prepare_error unbuilt with ⟨short, -⟩ | full | ⟨-, f₀', s₀', f₂', s₂', fresh', build', -⟩
        · omega
        · rw [fresh] at full
          cases full
        · rw [fresh] at fresh'
          cases fresh'
          rw [build] at build'
          cases build'
          rfl

end Plan

/-! ## Calls with the check and without -/

/-- Arguments that pass the check are treated the same without it. Arguments that the check refuses fail without it as
well, and no native code runs; for a function of single values, and with room for them in memory, the error is the
same. -/
theorem checked_of_execute {World : Type} {p : Plan} (obtained : p.Obtained) (settings : InvokeSettings)
    (receiver : Option Value) (arguments : List Value) (M : Machine World) :
    match p.typeCheck arguments with
    | .ok () => ∀ host, p.execute host { settings with typeCheck := true } receiver arguments M =
        p.execute host { settings with typeCheck := false } receiver arguments M
    | .error e =>
      (∀ host, p.execute host { settings with typeCheck := true } receiver arguments M = (.error (.error e), M)) ∧
      ∃ e' s, (∀ host, p.execute host { settings with typeCheck := false } receiver arguments M =
          (.error e', ⟨s, M.world⟩)) ∧
        (p.isMethod = false → (∀ q ∈ p.parameters, q.Single) →
          M.engine.memory.frontier + p.demand arguments ≤ Memory.limit → e' = .error e) := by
  cases checked : p.typeCheck arguments with
  | ok u => exact fun host => Plan.execute_admitted (fun _ => checked) host receiver M
  | error e =>
      simp only
      constructor
      · intro host
        unfold Plan.execute
        rw [if_pos rfl, checked]
        rfl
      · rcases prepared : p.prepare receiver arguments M.engine with ⟨built, s⟩
        cases built with
        | ok f =>
            rw [obtained.typeCheck_of_prepare prepared] at checked
            cases checked
        | error e' =>
            refine ⟨e', s, ?_, ?_⟩
            · intro host
              exact Plan.execute_unbuilt (fun on => absurd on (by simp)) prepared
            · intro plain single room
              exact obtained.prepare_single plain single room checked prepared

def repeating : DescriptorRef where
  id := 0
  descriptor := {
    symbol := "repeat", receiver := none, isConstructor := false, entry := .address 0x1000
    signature := {
      namespaceName := "Sample", name := "repeat", result := .utf8, resultTransfer := .everything, skipResult := false
      mayReturnNull := false, canThrow := false
      params := [
        ⟨"text", .utf8, .input, .nothing, false, false, none, none, .call⟩,
        ⟨"times", .int32, .input, .nothing, false, false, none, none, .call⟩] } }

def repeatingArguments : List Value := [.string "again", .string "twice"]

/-- The message with which the check refuses arguments. -/
def Plan.refusal? (p : Plan) (arguments : List Value) : Option String :=
  match p.typeCheck arguments with
  | .error e => some e.message
  | .ok () => none

theorem checked_of_execute_repeating : ∃ p s₁ e s, (Plan.compile repeating).run .initial = (.ok p, s₁) ∧
    e.message = "Expected argument of type int32 for parameter times, got 'twice'" ∧
    ∀ host : Host Unit,
      p.execute host { typeCheck := true } none repeatingArguments ⟨s₁, ()⟩ = (.error (.error e), ⟨s₁, ()⟩) ∧
      p.execute host { typeCheck := false } none repeatingArguments ⟨s₁, ()⟩ = (.error (.error e), ⟨s, ()⟩) := by
  have refuses : (((Plan.compile repeating).run .initial).1.toOption.any fun p =>
      let s := ((Plan.compile repeating).run .initial).2
      decide (p.refusal? repeatingArguments =
        some "Expected argument of type int32 for parameter times, got 'twice'") && decide (p.isMethod = false) &&
        decide (s.memory.frontier + p.demand repeatingArguments ≤ Memory.limit)) = true := by
    decide +kernel
  obtain ⟨p, s₁, compiled⟩ := exists_ok (r := (Plan.compile repeating).run .initial) (by decide +kernel)
  simp only [compiled, Except.toOption, Option.any_some, Bool.and_eq_true, decide_eq_true_eq] at refuses
  obtain ⟨⟨refused, plain⟩, room⟩ := refuses
  rw [Plan.refusal?] at refused
  have obtained : p.Obtained := .compiled repeating _ _ compiled
  have single : ∀ q ∈ p.parameters, q.Single := by
    intro q hq
    have listed := List.mem_map_of_mem (f := (·.param)) hq
    rw [obtained.coherent.listed, Plan.signature, Plan.source_of_compile compiled] at listed
    rcases List.mem_cons.mp listed with text | listed
    · exact ⟨by simp [Parameter.type, text], by simp [Parameter.type, text], by simp [Parameter.callerAllocates, text]⟩
    · have times := List.mem_singleton.mp listed
      exact ⟨by simp [Parameter.type, times], by simp [Parameter.type, times], by simp [Parameter.callerAllocates, times]⟩
  have outcome := checked_of_execute obtained {} none repeatingArguments (⟨s₁, ()⟩ : Machine Unit)
  cases checked : p.typeCheck repeatingArguments with
  | ok u =>
      rw [checked] at refused
      cases refused
  | error e =>
      rw [checked] at refused outcome
      obtain ⟨on, e', s, off, same⟩ := outcome
      cases same plain single room
      exact ⟨p, s₁, e, s, compiled, Option.some.inj refused, fun host => ⟨on host, off host⟩⟩

end Ferry
