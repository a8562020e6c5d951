import Ferry.Proofs.Call.Execution
import Ferry.Proofs.Call.LinkedLengths
import Ferry.Proofs.Plan.Bookkeeping

/-!
# Buffers that the caller sizes

The caller provides the memory of an array output, and says through a visible length parameter how many
elements it wants, unless their number is fixed. The size of the buffer is that number times the size of an
element, as a machine word. The main result is `roomy_of_execute`: a call is refused before native code runs, or
native code gets a live buffer with room for as many elements as it is told, so long as a machine word holds the
product, and otherwise panics before native code runs, as every call does with a size that is no machine word.
-/

set_option autoImplicit false

namespace Ferry

/-! ## Sizes that are no machine word -/

/-- Some size that the call needs is no machine word: that of an array in the receiver or in an argument, or that of a
buffer for as many elements as the caller asks for. -/
inductive Plan.Overflows (p : Plan) (receiver : Option Value) (arguments : List Value) : Prop
  | receiver (value : Value) (given : receiver = some value) (large : value.Overflows p.source.descriptor.container) :
    Overflows p receiver arguments
  | parameter (x : Parameter) (hx : x ∈ p.parameters) (large : (x.argument arguments).Overflows x.type) :
    Overflows p receiver arguments
  | buffer (x : Parameter) (hx : x ∈ p.parameters) (count : Option Nat)
    (large : p.bufferSize x arguments = .ok (count, none)) : Overflows p receiver arguments

namespace Frame

variable {f f' : Frame} {s s' : Engine} {arguments : List Value} {p : Parameter} {text : String}

theorem panic_of_ofConversion {name : String} {type : Ty} {value : Value} {c : Failure MarshalError}
    (same : InvokeFailure.ofConversion name type value c = .panic text) : c = .panic text := by
  cases c <;> cases same
  rfl

theorem BuildStep.overflow (step : BuildStep arguments p f s (.error (.panic text)) f' s') :
    (.panic text : InvokeFailure) = .overflow ∧
      ((p.argument arguments).Overflows p.type ∨ ∃ count, f.plan.bufferSize p arguments = .ok (count, none)) := by
  cases step with
  | output _ _ _ _ _ reserves =>
      cases reserves with
      | overflow _ count sized => exact ⟨rfl, Or.inr ⟨count, sized⟩⟩
  | refused _ _ _ _ _ supplies =>
      generalize failed : (Except.error (Failure.panic text) : Except InvokeFailure Unit) = r at supplies
      cases supplies with
      | valueRefused _ c _ refused =>
          obtain rfl := panic_of_ofConversion (Except.error.inj failed).symm
          obtain ⟨same, large⟩ := overflow_of_toNative refused
          exact ⟨congrArg (Failure.map (.ofConversion p.name p.type (p.argument arguments))) same, Or.inl large⟩
      | arrayRefused _ element length _ type c _ refused =>
          obtain rfl := panic_of_ofConversion (Except.error.inj failed).symm
          obtain ⟨same, large⟩ := overflow_of_encodeArray refused
          exact ⟨congrArg (Failure.map (.ofConversion p.name p.type (p.argument arguments))) same, Or.inl (type ▸ large)⟩
      | _ => cases failed

end Frame

theorem Plan.overflows_of_prepare {p : Plan} {receiver : Option Value} {arguments : List Value} {s s' : Engine}
    {text : String} (refused : p.prepare receiver arguments s = (.error (.panic text), s')) :
    (.panic text : InvokeFailure) = .overflow ∧ p.Overflows receiver arguments := by
  obtain ⟨f₀, s₀, f, s₁, fresh, run⟩ := prepare_panic refused
  have plan : f₀.plan = p := by rw [(Frame.fresh?_some fresh).1]; rfl
  rw [Frame.run_build] at run
  rcases Frame.run_bind_cases run with ⟨u, f₁, s₂, start, turns⟩ | ⟨failure, start, same⟩
  · obtain ⟨front, x, back, g, t, parts, before, failed⟩ := Frame.run_forM_error turns
    have same : g.plan = p := by
      obtain ⟨f₂, began, rfl⟩ := Frame.run_start_ok start
      have kept : f₂.plan = f₀.plan := by
        rcases began with ⟨-, rfl, -⟩ | ⟨-, value, slot, -, -, rfl⟩ <;> rfl
      rw [(Frame.run_differs front before).plan, (Frame.withHiddenCells_differs _ f₂).plan, kept, plan]
    have hx : x ∈ p.parameters := by rw [← plan, parts]; simp
    obtain ⟨text, large | ⟨count, large⟩⟩ := (Frame.run_buildParameter failed).overflow
    · exact ⟨text, .parameter x hx large⟩
    · exact ⟨text, .buffer x hx count (same ▸ large)⟩
  · cases same
    obtain ⟨-, ⟨⟨cause, same⟩, -⟩ | ⟨value, c, given, failed, same⟩⟩ := Frame.run_start_error start
    · cases same
    · obtain rfl := Frame.panic_of_ofConversion same.symm
      obtain ⟨text, large⟩ := overflow_of_toNative failed
      rw [plan] at large
      exact ⟨congrArg (Failure.map (.ofConversion "self" p.source.descriptor.container value)) text, .receiver value given large⟩

/-! ## What the caller asks for -/

namespace Plan

variable {p : Plan} {arguments : List Value} {q r : Parameter} {l count : Nat}

theorem Obtained.visible_of_position (h : p.Obtained) (hr : r ∈ p.parameters) (placed : r.position ≠ none) :
    r.isInput = true := by
  obtain ⟨id, source, address, isMethod, ok⟩ := h.assembled
  simp only [assemble] at ok
  cases classified : classify source.descriptor.signature with
  | error e =>
      rw [classified] at ok
      cases ok
  | ok k =>
      rw [classified] at ok
      cases ok
      obtain ⟨c, -, parameters, -⟩ := classify_cases classified
      by_contra idle
      simp only [parameters] at hr
      exact placed (positions_assignPositions.2 r hr (by simpa using idle))

theorem requested_ok (asked : p.requested l arguments = .ok count) :
    ∃ r, p.parameters[l]? = some r ∧ r.position ≠ none ∧ (r.argument arguments).integer? = some (count : Int) := by
  unfold requested parameter? at asked
  cases found : p.parameters[l]? with
  | none =>
      rw [found] at asked
      cases asked
  | some r =>
      rw [found] at asked
      simp only at asked
      split at asked
      · cases asked
      · rename_i placed
        refine ⟨r, rfl, by simpa using placed, ?_⟩
        cases value : r.argument arguments with
        | int i =>
            rw [value] at asked
            simp only [Value.int64?] at asked
            split at asked
            · rename_i positive
              cases asked
              rw [Value.integer?, Int.toNat_of_nonneg positive]
            · cases asked
        | uint u =>
            rw [value] at asked
            simp only [Value.int64?] at asked
            by_cases low : u < 0x8000000000000000
            · rw [if_pos low] at asked
              simp only [toInt_toInt64 low, Int.natCast_nonneg, if_true, Int.toNat_natCast] at asked
              cases asked
              rfl
            · rw [if_neg low] at asked
              cases asked
        | _ =>
            rw [value] at asked
            cases asked

end Plan

/-! ## What native code is told -/

theorem integer_of_toNative {value : Value} {type : Ty} {nullable : Bool} {slot : Slot} {s s' : Engine} {v : Int}
    (integral : type.native.isInteger = true) (given : value.integer? = some v)
    (converted : toNative value type nullable s = (.ok slot, s')) : slot.integer type.native = v := by
  have encoded := toNative_ok converted
  have sent : ∀ {r}, (EncodeM.ofExcept r : EncodeM Slot) s = (.ok slot, s') → r = .ok slot := fun {r} run => by
    cases r <;> cases run
    rfl
  cases type with
  | int8 | uint8 | int16 | uint16 | int32 | uint32 | int64 | uint64 =>
      cases value with
      | int i | uint u =>
          cases given
          exact integer_encodeInteger (sent encoded)
      | _ => cases given
  | _ => cases integral

/-- The buffer of an array output is a live block with room for `count` elements. The count is fixed, or the one that the
caller asks for and native code reads. -/
structure Frame.Roomy (f : Frame) (m : Memory) (arguments : List Value) (q : Parameter) (element : Ty)
    (length : ArrayLength) (count : Nat) (b : Block) : Prop where
  live : b ∈ m.blocks
  passed : (f.binding q.index).slot = .ofAddress b.address
  room : count * element.elementSize ≤ b.size
  asked : ∀ l, q.handling = .array l → f.plan.requested l arguments = .ok count
  told : ∀ l r, q.handling = .array l → f.plan.parameters[l]? = some r → r.type.native.isInteger = true →
    f.integerRead m r = count
  fixed : ∀ n, length = .fixed n → count = n

theorem Frame.plan_of_prepare {p : Plan} (coherent : p.Coherent) {receiver : Option Value} {arguments : List Value}
    {s s' : Engine} {f : Frame} (built : p.prepare receiver arguments s = (.ok f, s')) : f.plan = p := by
  obtain ⟨-, f₁, s₁, begun, run, -⟩ := Frame.begun_of_prepare coherent built
  exact (Frame.run_differs _ run).plan.trans begun.plan

namespace Plan

variable {p : Plan} {receiver : Option Value} {arguments : List Value} {q r : Parameter} {l count : Nat}

theorem Coherent.input_of_sizing (h : p.Coherent) (hq : q ∈ p.parameters) (linked : q.handling = .array l)
    (found : p.parameters[l]? = some r) (visible : r.handling ≠ .hidden) : r.direction = .input := by
  have handled := h.handled q.index q (h.inside hq)
  rw [linked] at handled
  obtain ⟨-, -, -, ⟨-, -, x, listed, input⟩ | ⟨x, at_l, hidden⟩⟩ := handled
  · rw [← h.listed, List.getElem?_map, found] at listed
    cases listed
    exact input
  · rw [found] at at_l
    cases at_l
    exact absurd hidden visible

theorem integerRead_of_requested (obtained : p.Obtained) {s s' : Engine} {f : Frame}
    (laid : f.LaidOut p receiver arguments s s'.memory) (hq : q ∈ p.parameters) (linked : q.handling = .array l)
    (asked : p.requested l arguments = .ok count) (found : p.parameters[l]? = some r)
    (integral : r.type.native.isInteger = true) : f.integerRead s'.memory r = count := by
  have coherent := obtained.coherent
  obtain ⟨r', at_l, placed, value⟩ := requested_ok asked
  rw [found] at at_l
  cases at_l
  have input := obtained.visible_of_position (List.mem_of_getElem? found) placed
  have visible : r.handling ≠ .hidden := by
    intro hidden
    simp [Parameter.isInput, Parameter.isHidden, hidden] at input
  have direction := coherent.input_of_sizing hq linked found visible
  -- an integer is neither an array nor a callback
  have converts : ∀ turn slot, r.Converts arguments turn slot →
      ∃ after, toNative (r.argument arguments) r.type r.nullable turn = (.ok slot, after) := by
    intro turn slot converted
    unfold Parameter.Converts at converted
    split at converted
    · rename_i type
      rw [type] at integral
      cases integral
    · exact converted
  rw [Frame.integerRead, direction]
  cases laid.visible l r found visible with
  | input _ slot converted passed =>
      obtain ⟨after, converted⟩ := converts _ slot converted
      rw [passed]
      exact integer_of_toNative integral value converted
  | both both => rw [direction] at both; cases both
  | cell out => rw [direction] at out; cases out
  | buffer out => rw [direction] at out; cases out

end Plan

/-- A call with a buffer for an array is refused before native code runs, with an error unless a size is no machine
word, or native code gets a buffer with room for as many elements as it is told. -/
theorem roomy_of_execute {World : Type} {p : Plan} (obtained : p.Obtained) {q : Parameter} (hq : q ∈ p.parameters)
    (visible : q.handling ≠ .hidden) (out : q.direction = .output) (given : q.callerAllocates = true) {element : Ty}
    {length : ArrayLength} (type : q.type = .array element length) (settings : InvokeSettings)
    (receiver : Option Value) (arguments : List Value) (M : Machine World) :
    (∃ e s, ∀ host, p.execute host settings receiver arguments M = (.error (.error e), ⟨s, M.world⟩)) ∨
    (p.Overflows receiver arguments ∧
      ∃ s, ∀ host, p.execute host settings receiver arguments M = (.error .overflow, ⟨s, M.world⟩)) ∨
    ∃ f s count b, p.prepare receiver arguments M.engine = (.ok f, s) ∧
      f.Roomy s.memory arguments q element length count b ∧
      ∀ host, ∃ r g N, Plan.carryOut host settings f ⟨s, M.world⟩ = ((r, g), N) ∧
        p.execute host settings receiver arguments M = (r, ⟨(g.reclaim N.engine).2, N.world⟩) := by
  by_cases admitted : p.Admits settings arguments
  · rcases prepared : p.prepare receiver arguments M.engine with ⟨built, s⟩
    cases built with
    | error failure =>
        cases failure with
        | error e => exact Or.inl ⟨e, s, fun host => Plan.execute_unbuilt admitted prepared⟩
        | panic text =>
            obtain ⟨overflow, large⟩ := Plan.overflows_of_prepare prepared
            rw [overflow] at prepared
            exact Or.inr (Or.inl ⟨large, s, fun host => Plan.execute_unbuilt admitted prepared⟩)
    | ok f =>
        have coherent := obtained.coherent
        have laid := laidOut_of_prepare obtained prepared
        have plan : f.plan = p := Frame.plan_of_prepare coherent prepared
        right
        right
        cases laid.visible q.index q (coherent.inside hq) visible with
        | input direction => rw [out] at direction; cases direction
        | both direction => rw [out] at direction; cases direction
        | cell _ own => rw [given] at own; cases own
        | buffer _ _ b settled size sized live room _ _ passed =>
            rw [plan] at sized
            obtain ⟨count, -, rfl, asked⟩ := Plan.bufferSize_array type sized
            have asked' : ∀ l, q.handling = .array l → p.requested l arguments = .ok count := fun l linked => by
              rcases asked with ⟨l', same, asked⟩ | ⟨unlinked, -⟩
              · rw [linked] at same
                cases same
                exact asked
              · exact absurd linked (unlinked l)
            refine ⟨f, s, count, b, rfl, ⟨live, passed, ?_, by rw [plan]; exact asked',
              fun l r linked found integral => ?_, fun n fixed => ?_⟩, fun host => ?_⟩
            · rw [room]
              exact Nat.le_max_left _ _
            · rw [plan] at found
              exact Plan.integerRead_of_requested obtained laid hq linked (asked' l linked) found integral
            · rcases asked with ⟨l, linked, -⟩ | ⟨-, same⟩
              · obtain ⟨e, sized⟩ := coherent.typed hq linked
                rw [type, fixed] at sized
                cases sized
              · rw [fixed] at same
                cases same
                rfl
            · rcases carried : Plan.carryOut host settings f ⟨s, M.world⟩ with ⟨⟨r, g⟩, N⟩
              exact ⟨r, g, N, rfl, Plan.execute_built admitted prepared carried⟩
  · obtain ⟨e, refused⟩ := Plan.execute_unadmitted admitted
    exact Or.inl ⟨e, M.engine, fun host => refused host receiver M⟩

/-- A function that fills a buffer with as many items as the caller wants. -/
def fetching : DescriptorRef where
  id := 0
  descriptor := {
    symbol := "fill", receiver := none, isConstructor := false, entry := .address 0x1000
    signature := {
      namespaceName := "Sample", name := "fill", result := .void, resultTransfer := .nothing, skipResult := false
      mayReturnNull := false, canThrow := false
      params := [
        ⟨"items", .array .int64 (.parameter 1), .output, .nothing, false, true, none, none, .call⟩,
        ⟨"count", .uint32, .input, .nothing, false, false, none, none, .call⟩] } }

def fetchingArguments : List Value := [.int 3]

def noting : Host Bool where
  enter _ _ := modifyGet fun m => (.zero, { m with world := true })
  apply _ _ := return .ok .undefined

theorem roomy_of_execute_fetching : ∃ p s₁ f s₂ items count b,
    (Plan.compile fetching).run .initial = (.ok p, s₁) ∧ p.prepare none fetchingArguments s₁ = (.ok f, s₂) ∧
    p.parameters = [items, count] ∧ b ∈ s₂.memory.blocks ∧ (f.binding 0).slot = .ofAddress b.address ∧
    f.integerRead s₂.memory count = 3 ∧ 24 ≤ b.size := by
  have builds : (match (Plan.compile fetching).run .initial with
      | (.ok p, s) => (p.prepare none fetchingArguments s).1.isOk && decide ((p.parameters.map fun q =>
          (q.index, q.handling, q.direction, q.callerAllocates, q.position)) =
            [(0, .array 1, .output, true, none), (1, .normal, .input, false, some 0)]) &&
          decide ((p.requested 1 fetchingArguments).toOption = some 3) &&
          (p.execute noting {} none fetchingArguments ⟨s, false⟩).2.world
      | _ => false) = true := by
    decide +kernel
  obtain ⟨p, s₁, compiled⟩ := exists_ok (r := (Plan.compile fetching).run .initial) (by decide +kernel)
  rw [compiled] at builds
  simp only [Bool.and_eq_true, decide_eq_true_eq] at builds
  obtain ⟨⟨⟨built, shape⟩, three⟩, entered⟩ := builds
  obtain ⟨f, s₂, built⟩ := exists_ok built
  obtain ⟨items, rest, two, first, shape⟩ := List.map_eq_cons_iff.mp shape
  obtain ⟨count, rest, rfl, second, shape⟩ := List.map_eq_cons_iff.mp shape
  cases List.map_eq_nil_iff.mp shape
  simp only [Prod.mk.injEq] at first second
  have obtained : p.Obtained := .compiled fetching _ _ compiled
  have listed := obtained.coherent.listed
  rw [two, Plan.signature, Plan.source_of_compile compiled] at listed
  obtain ⟨sameItems, listed⟩ := List.cons.inj listed
  obtain ⟨sameCount, -⟩ := List.cons.inj listed
  have type : items.type = .array .int64 (.parameter 1) := congrArg Param.type sameItems
  have integral : count.type.native.isInteger = true := by
    rw [show count.type = .uint32 from congrArg Param.type sameCount]
    rfl
  rcases roomy_of_execute obtained (q := items) (by simp [two]) (by simp [first]) first.2.2.1 first.2.2.2.1 type {} none
      fetchingArguments (⟨s₁, false⟩ : Machine Bool) with
    ⟨e, s, refused⟩ | ⟨-, s, refused⟩ | ⟨f', s', n, b, built', roomy, -⟩
  · rw [refused noting] at entered
    cases entered
  · rw [refused noting] at entered
    cases entered
  · rw [built] at built'
    cases built'
    have plan := Frame.plan_of_prepare obtained.coherent built
    have asked := roomy.asked 1 first.2.1
    rw [plan] at asked
    rw [asked] at three
    cases three
    have passed := roomy.passed
    rw [first.1] at passed
    exact ⟨p, s₁, f, s₂, items, count, b, compiled, built, two, roomy.live, passed,
      roomy.told 1 count first.2.1 (by rw [plan, two]; rfl) integral, roomy.room⟩

end Ferry
