import Ferry.Proofs.Call.Layout
import Ferry.Proofs.Marshal.Counts
import Ferry.Proofs.Native.Integers

/-!
# The lengths that native code reads

Every array that is linked to a length parameter writes its element count there in its own turn, and a callback
that refers to the same parameter writes its token or the notifier. Nobody looks at what was there: the last
turn decides. The main result is `integerRead_of_prepare`: native code reads the element count of an array if
all that is passed through its length parameter later is the same count again.
-/

set_option autoImplicit false

namespace Ferry

/-- Building the parameter puts something into the slot of the parameter at `l`: the element count of an array,
or what belongs to a callback that is given. -/
def Parameter.Passes (q : Parameter) (arguments : List Value) (l : Nat) : Prop :=
  l ∈ q.links ∧ ∀ closure destroy scope, q.handling = .callback closure destroy scope →
    ∃ g, q.argument arguments = .function g

theorem Parameter.links_array {q : Parameter} {l : Nat} (linked : q.handling = .array l)
    (supplied : q.direction ≠ .output) : q.links = [l] := by
  simp [Parameter.links, linked, supplied]

namespace Plan.Coherent

variable {p : Plan} {x : Parameter} {j : Nat}

theorem input_of_callback (h : p.Coherent) (hx : x ∈ p.parameters) (closure destroy : Option Nat) (scope : Scope)
    (handled : x.handling = .callback closure destroy scope) : x.direction = .input := by
  have callback := h.handled x.index x (h.inside hx)
  rw [handled] at callback
  exact callback.1

theorem hidden_or_ne (h : p.Coherent) (hx : x ∈ p.parameters) (hidden : p.HiddenAt j) :
    x.handling = .hidden ∨ x.index ≠ j := by
  by_cases same : x.index = j
  · obtain ⟨r, at_j, hidden⟩ := hidden
    rw [← same, h.inside hx] at at_j
    cases at_j
    exact Or.inl hidden
  · exact Or.inr same

end Plan.Coherent

namespace Frame

variable {f f' : Frame} {m m' : Memory} {s s' : Engine} {arguments : List Value} {q r : Parameter} {count l : Nat}

/-- The integer that native code reads from the slot of a parameter, or through it where it is passed by
reference. -/
def integerRead (f : Frame) (m : Memory) (r : Parameter) : Int :=
  match r.direction with
  | .input => (f.binding r.index).slot.integer r.type.native
  | .output | .both => (m.load r.type.native (f.binding r.index).slot.address).integer r.type.native

/-- The slot of a length parameter, or its cell, holds an element count. -/
inductive Tells (f : Frame) (m : Memory) (r : Parameter) (count : Nat) : Prop
  | slot (direction : r.direction = .input) (encoded : encodeLength count r.type = .ok (f.binding r.index).slot)
  | cell (direction : r.direction = .both) (passed : (f.binding r.index).slot = .ofAddress (f.cell r.index))
    (encoded : encodeLength count r.type = .ok (m.load .u64 (f.cell r.index)))

theorem Tells.integerRead (h : f.Tells m r count) : f.integerRead m r = count := by
  cases h with
  | slot direction encoded =>
      rw [Frame.integerRead, direction]
      exact integer_encodeInteger encoded
  | cell direction passed encoded =>
      rw [Frame.integerRead, direction, passed]
      exact (m.integer_load r.type.native (f.cell r.index)).trans (integer_encodeInteger encoded)

theorem Tells.congr (h : f.Tells m r count) (binding : (f'.binding r.index).slot = (f.binding r.index).slot)
    (cell : f'.cell r.index = f.cell r.index)
    (held : m'.load .u64 (f.cell r.index) = m.load .u64 (f.cell r.index)) : f'.Tells m' r count := by
  cases h with
  | slot direction encoded =>
      refine .slot direction ?_
      rw [binding]
      exact encoded
  | cell direction passed encoded =>
      refine .cell direction ?_ ?_
      · rw [binding, cell, passed]
      · rw [cell, held]
        exact encoded

/-! ## One turn -/

theorem BuildStep.withheld (step : BuildStep arguments q f s (.ok ()) f' s')
    (given : ∀ closure destroy scope, q.handling = .callback closure destroy scope → q.direction = .input)
    (visible : q.handling ≠ .hidden) (linked : l ∈ q.links) (silent : ¬q.Passes arguments l) :
    f' = f.update q.index (fun b => { b with built := true }) ∧ s' = s := by
  simp only [Parameter.Passes, not_and, not_forall, not_exists] at silent
  obtain ⟨closure, destroy, scope, handled, notGiven⟩ := silent linked
  have direction := given closure destroy scope handled
  cases step with
  | hidden same => exact absurd same visible
  | output _ out => rw [direction] at out; cases out
  | both _ both => rw [direction] at both; cases both
  | input _ _ _ _ supplies =>
      cases supplies with
      | value normal => rw [handled] at normal; cases normal
      | array _ _ _ array => rw [handled] at array; cases array
      | callback _ _ _ _ _ _ g callable => exact absurd callable (notGiven g)
      | noCallback => exact ⟨rfl, rfl⟩

theorem BuildStep.tells_of_not_passes (step : BuildStep arguments q f s (.ok ()) f' s') (housed : f.Housed s.memory)
    (range : q.index < f.plan.parameters.length) (inside : r.index < f.plan.parameters.length)
    (other : q.handling = .hidden ∨ q.index ≠ r.index)
    (given : ∀ closure destroy scope, q.handling = .callback closure destroy scope → q.direction = .input)
    (silent : ¬q.Passes arguments r.index) (told : f.Tells s.memory r count) : f'.Tells s'.memory r count := by
  by_cases hidden : q.handling = .hidden
  · cases step with
    | hidden => exact told
    | output visible | input visible | both visible => exact absurd hidden visible
  · have differ : q.index ≠ r.index := other.resolve_left hidden
    by_cases linked : r.index ∈ q.links
    · obtain ⟨rfl, rfl⟩ := step.withheld given hidden linked silent
      refine told.congr ?_ (cell_update f _ _ _) rfl
      rw [binding_update_of_ne differ]
    · have out : r.index ∉ q.index :: q.links := by simp [Ne.symm differ, linked]
      exact told.congr (by rw [step.differs.binding _ out]) (step.differs.cell _)
        ((step.cellsStay housed range).cell _ inside out)

theorem tells_withLength {encoded : Slot} (housed : f.Housed m) (bound : l < f.bindings.length)
    (inside : l < f.plan.parameters.length) (index : r.index = l) (readable : r.direction ≠ .output)
    (accepted : encodeLength count r.type = .ok encoded) (forward : s.memory = m) :
    (f.withLength l r.direction encoded).Tells (s.withLength f l r.direction encoded).memory r count := by
  subst index forward
  cases direction : r.direction with
  | output => exact absurd direction readable
  | input =>
      refine .slot direction ?_
      simp only [withLength]
      rw [binding_update_self bound]
      exact accepted
  | both =>
      refine .cell direction ?_ ?_
      · simp only [withLength, withCell]
        rw [binding_update_self bound, cell_update]
      · simp only [withLength, withCell, Engine.withLength, if_true, Engine.withCell, cell_update]
        rw [housed.placed.load_store_self inside]
        exact accepted

theorem BuildStep.tells (step : BuildStep arguments q f s (.ok ()) f' s') (housed : f.Housed s.memory)
    (linked : q.handling = .array l) (supplied : q.direction ≠ .output) (found : f.plan.parameters[l]? = some r)
    (index : r.index = l) (readable : r.direction ≠ .output) (differ : l ≠ q.index)
    (bound : f.bindings.length = f.plan.parameters.length) (range : q.index < f.plan.parameters.length) :
    f'.Tells s'.memory r (q.argument arguments).elementCount := by
  have inside : l < f.plan.parameters.length := (List.getElem?_eq_some_iff.mp found).1
  -- what is converted, before a parameter that is passed both ways moves into its own cell
  have supplies_tell : ∀ {f₁ : Frame} {s₁ : Engine}, Supplies q (q.argument arguments) f s (.ok ()) f₁ s₁ →
      f₁.Tells s₁.memory r (q.argument arguments).elementCount := by
    intro f₁ s₁ supplies
    cases supplies with
    | value normal => rw [linked] at normal; cases normal
    | callback _ _ _ _ handled => rw [linked] at handled; cases handled
    | noCallback _ _ _ _ handled => rw [linked] at handled; cases handled
    | array k element length array type slot n u x encoded converted passed =>
        have same : l = k := by
          rw [linked] at array
          cases array
          rfl
        subst same
        obtain ⟨holder, accepted⟩ := lengthSlot_ok passed
        rw [found] at holder
        cases holder
        rw [elementCount_of_encodeArray converted]
        have housed₁ : f.Housed u.memory := housed.of_evolves (encodeArray_evolves converted)
        have updated := housed₁.congr (plan_update f q.index fun b =>
          { b with slot := slot, count := some n, built := true }) rfl rfl
        exact tells_withLength updated (by simpa [bound] using inside) (by simpa using inside) index readable
          accepted rfl
  cases step with
  | hidden hidden => rw [linked] at hidden; cases hidden
  | output _ out => exact absurd out supplied
  | input _ _ _ _ supplies => exact supplies_tell supplies
  | both _ both f₁ s₁ supplies =>
      have differs := supplies.differs supplied
      have stay := supplies.cellsStay housed supplied
      refine (supplies_tell supplies).congr ?_ ?_ ?_
      · rw [rehomed, binding_update_of_ne (by rw [index]; exact Ne.symm differ)]
      · exact cell_update f₁ _ _ _
      · have housed₁ : f₁.Housed s₁.memory :=
          (housed.of_evolves stay.forward).congr differs.plan differs.cells differs.failure
        simp only [Engine.withCell]
        refine housed₁.placed.load_store_of_ne ?_ ?_ ?_ _
        · rw [differs.plan]; exact range
        · rw [differs.plan, index]; exact inside
        · rw [index]; exact differ

/-! ## All turns -/

theorem tells_of_run {p : Plan} (coherent : p.Coherent) (found : p.parameters[l]? = some r)
    (readable : r.direction ≠ .output) (hidden : r.handling = .hidden) {turns : List Parameter}
    (sub : ∀ x ∈ turns, x ∈ p.parameters)
    (agree : ∀ x ∈ turns, x.Passes arguments l →
      x.handling = .array l ∧ (x.argument arguments).elementCount = count)
    (plan : f.plan = p) (bound : f.bindings.length = p.parameters.length) (housed : f.Housed s.memory)
    (run : f.run (turns.forM (FrameM.buildParameter arguments)) s = ((.ok (), f'), s'))
    (told : f.Tells s.memory r count) : f'.Tells s'.memory r count := by
  have index : r.index = l := coherent.index l r found
  have inside : l < p.parameters.length := (List.getElem?_eq_some_iff.mp found).1
  induction turns generalizing f s with
  | nil =>
      cases run
      exact told
  | cons x rest ih =>
      rw [run_forM_cons] at run
      obtain ⟨u, f₁, s₁, first, later⟩ := run_bind_ok run
      have step := run_buildParameter first
      have hx := sub x List.mem_cons_self
      have range : x.index < f.plan.parameters.length := by
        rw [plan]
        exact coherent.index_lt hx
      have differs := step.differs
      have stay := step.cellsStay housed range
      have other : x.handling = .hidden ∨ x.index ≠ r.index := by
        rw [index]
        exact coherent.hidden_or_ne hx ⟨r, found, hidden⟩
      refine ih (fun y hy => sub y (List.mem_cons_of_mem x hy)) (fun y hy => agree y (List.mem_cons_of_mem x hy))
        (differs.plan.trans plan) (differs.length.trans bound)
        ((housed.of_evolves stay.forward).congr differs.plan differs.cells differs.failure) later ?_
      -- a turn either passes the same count once more or leaves the length parameter alone
      by_cases passes : x.Passes arguments l
      · obtain ⟨linked, same⟩ := agree x List.mem_cons_self passes
        have visible : x.handling ≠ .hidden := by simp [linked]
        have supplied : x.direction ≠ .output := fun out => by
          have := passes.1
          simp [Parameter.links, linked, out] at this
        rw [← same]
        exact step.tells housed linked supplied (by rw [plan]; exact found) index readable
          (by rw [← index]; exact (other.resolve_left visible).symm) (by rw [bound, plan]) range
      · exact step.tells_of_not_passes housed range (by rw [plan, index]; exact inside) other
          (coherent.input_of_callback hx) (by rw [index]; exact passes) told

end Frame

/-- Native code reads the element count of an array from its length parameter, or through it, unless something
else is passed there later: the count of another array that is linked to it, or what belongs to a callback. -/
theorem integerRead_of_prepare {p : Plan} (obtained : p.Obtained) {receiver : Option Value}
    {arguments : List Value} {s s' : Engine} {f : Frame}
    (built : p.prepare receiver arguments s = (.ok f, s')) {q r : Parameter} {l : Nat} (hq : q ∈ p.parameters)
    (linked : q.handling = .array l) (supplied : q.direction ≠ .output) (length : p.parameters[l]? = some r)
    (readable : r.direction ≠ .output)
    (agree : ∀ x ∈ p.parameters, q.index < x.index → x.Passes arguments l →
      x.handling = .array l ∧ (x.argument arguments).elementCount = (q.argument arguments).elementCount) :
    f.integerRead s'.memory r = (q.argument arguments).elementCount := by
  have coherent := obtained.coherent
  obtain ⟨-, f₁, s₁, begun, run, -⟩ := Frame.begun_of_prepare coherent built
  have found := coherent.inside hq
  have visible : q.handling ≠ .hidden := by simp [linked]
  have index : r.index = l := coherent.index l r length
  -- the length parameter is hidden, so no turn is its own
  have hidden : r.handling = .hidden := by
    obtain ⟨x, at_l, hidden⟩ := coherent.links_hidden found (j := l) (by
      rw [Parameter.links_array linked supplied]
      exact List.mem_singleton.mpr rfl)
    rw [length] at at_l
    cases at_l
    exact hidden
  have differ : l ≠ q.index := fun same => by
    rw [same, found] at length
    cases length
    exact visible hidden
  obtain ⟨f₂, s₂, f₃, s₃, before, turn, behind⟩ := Frame.run_forM_split run found
  have range := coherent.index_lt hq
  have early := Frame.run_differs _ before
  have earlyCells := Frame.run_cellsStay _ begun.housed (fun x hx => by
    rw [begun.plan]
    exact coherent.index_lt (List.mem_of_mem_take hx)) before
  have plan : f₂.plan = p := early.plan.trans begun.plan
  have housed : f₂.Housed s₂.memory :=
    (begun.housed.of_evolves earlyCells.forward).congr early.plan early.cells early.failure
  have step := Frame.run_buildParameter turn
  have differs := step.differs
  have stay := step.cellsStay housed (by rw [plan]; exact range)
  have bound : f₂.bindings.length = p.parameters.length := early.length.trans begun.length
  have told := step.tells housed linked supplied (by rw [plan]; exact length) index readable differ
    (by rw [bound, plan]) (by rw [plan]; exact range)
  refine (Frame.tells_of_run coherent length readable hidden (fun x hx => List.mem_of_mem_drop hx) ?_
    (differs.plan.trans plan) (differs.length.trans bound)
    ((housed.of_evolves stay.forward).congr differs.plan differs.cells differs.failure) behind told).integerRead
  intro x hx passes
  refine agree x (List.mem_of_mem_drop hx) ?_ passes
  obtain ⟨i, at_i⟩ := List.mem_iff_getElem?.mp hx
  rw [List.getElem?_drop] at at_i
  rw [coherent.index _ x at_i]
  omega

def pairing : DescriptorRef where
  id := 0
  descriptor := {
    symbol := "pair", receiver := none, isConstructor := false, entry := .address 0x1000
    signature := {
      namespaceName := "Sample", name := "pair", result := .void, resultTransfer := .nothing, skipResult := false
      mayReturnNull := false, canThrow := false
      params := [
        ⟨"keys", .array .int32 (.parameter 1), .input, .nothing, false, false, none, none, .call⟩,
        ⟨"count", .uint32, .both, .nothing, false, false, none, none, .call⟩,
        ⟨"values", .array .int64 (.parameter 1), .both, .nothing, false, false, none, none, .call⟩] } }

def pairingArguments : List Value := [.array [.int 1, .int 2], .array [.int 7]]

theorem integerRead_of_prepare_pairing : ∃ p s₁ f s₂ keys count values,
    (Plan.compile pairing).run .initial = (.ok p, s₁) ∧
    p.prepare none pairingArguments s₁ = (.ok f, s₂) ∧ p.parameters = [keys, count, values] ∧
    keys.handling = .array 1 ∧ (keys.argument pairingArguments).elementCount = 2 ∧
    values.handling = .array 1 ∧ f.integerRead s₂.memory count = 1 := by
  have builds : (match (Plan.compile pairing).run .initial with
      | (.ok p, s) => (p.prepare none pairingArguments s).1.isOk && decide ((p.parameters.map fun q =>
          (q.index, q.handling, q.direction, (q.argument pairingArguments).elementCount)) =
            [(0, .array 1, .input, 2), (1, .hidden, .both, 0), (2, .array 1, .both, 1)])
      | _ => false) = true := by
    decide +kernel
  obtain ⟨p, s₁, compiled⟩ := exists_ok (r := (Plan.compile pairing).run .initial) (by decide +kernel)
  rw [compiled] at builds
  simp only [Bool.and_eq_true, decide_eq_true_eq] at builds
  obtain ⟨built, shape⟩ := builds
  obtain ⟨f, s₂, built⟩ := exists_ok built
  obtain ⟨keys, rest, three, first, shape⟩ := List.map_eq_cons_iff.mp shape
  obtain ⟨count, rest, rfl, second, shape⟩ := List.map_eq_cons_iff.mp shape
  obtain ⟨values, rest, rfl, third, shape⟩ := List.map_eq_cons_iff.mp shape
  cases List.map_eq_nil_iff.mp shape
  simp only [Prod.mk.injEq] at first second third
  refine ⟨p, s₁, f, s₂, keys, count, values, compiled, built, three, first.2.1, first.2.2.2, third.2.1, ?_⟩
  have obtained : p.Obtained := .compiled pairing _ _ compiled
  have read := integerRead_of_prepare obtained built (q := values) (r := count) (l := 1) (by simp [three])
    third.2.1 (by simp [third]) (by simp [three]) (by simp [second]) (fun x hx later => by
      simp only [three, List.mem_cons, List.not_mem_nil, or_false] at hx
      rcases hx with rfl | rfl | rfl <;> omega)
  rw [read, third.2.2.2]
  rfl

end Ferry
