import Ferry.Proofs.Plan.Cache
import Ferry.Proofs.Plan.Visibility

/-!
# Who provides the memory

A flag of each parameter tells whether the caller provides the memory of an output. Classification looks at the flags
of linked array outputs only: two signatures that differ in others are classified alike (`classify_flagged`), so their
descriptors compile to plans that differ in nothing but the flags (`reflagged_of_compile`).
-/

set_option autoImplicit false

namespace Ferry

/-! ## Other flags -/

def Param.flagged (x : Param) (flag : Bool) : Param :=
  { x with callerAllocates := flag }

def Signature.flagged (s : Signature) (flags : Nat → Bool) : Signature :=
  { s with params := s.params.mapIdx fun i x => x.flagged (flags i) }

def Descriptor.flagged (d : Descriptor) (flags : Nat → Bool) : Descriptor :=
  { d with signature := d.signature.flagged flags }

def Candidate.flagged (x : Candidate) (flag : Bool) : Candidate :=
  { x with param := x.param.flagged flag }

def Parameter.flagged (q : Parameter) (flag : Bool) : Parameter :=
  { q with param := q.param.flagged flag }

theorem Parameter.flagged_self (q : Parameter) {flag : Bool} (same : q.callerAllocates = flag) : q.flagged flag = q := by
  subst same
  obtain ⟨index, param, handling, position⟩ := q
  cases param
  rfl

namespace Classifying

def flagged (c : Classifying) (flags : Nat → Bool) : Classifying :=
  { c with candidates := c.candidates.mapIdx fun i x => x.flagged (flags i) }

end Classifying

def Classified.flagged (k : Classified) (flags : Nat → Bool) : Classified :=
  { k with parameters := k.parameters.map fun q => q.flagged (flags q.index) }

/-! ## Classification -/

/-- Changing an item and relabelling by the index go in either order. -/
theorem modify_mapIdx {α β : Type} (l : List α) (i : Nat) (label : Nat → α → β) (change : α → α) (change' : β → β)
    (same : ∀ x, change' (label i x) = label i (change x)) :
    (l.mapIdx label).modify i change' = (l.modify i change).mapIdx label := by
  refine List.ext_getElem? fun j => ?_
  rw [List.getElem?_modify, List.getElem?_mapIdx, List.getElem?_mapIdx, List.getElem?_modify]
  cases l[j]? with
  | none => rfl
  | some x =>
      by_cases here : i = j
      · subst here
        simp [same]
      · simp [here]

namespace Classifying

variable (c : Classifying) (flags : Nat → Bool) {i : Nat}

theorem flagged_start (s : Signature) : start (s.flagged flags).params = (start s.params).flagged flags := by
  simp only [start, Signature.flagged, flagged]
  congr 1
  refine List.ext_getElem? fun j => ?_
  simp only [List.getElem?_map, List.getElem?_mapIdx]
  cases s.params[j]? <;> rfl

theorem getElem?_flagged (j : Nat) :
    (c.flagged flags).candidates[j]? = c.candidates[j]?.map fun x => x.flagged (flags j) :=
  List.getElem?_mapIdx

theorem length_flagged : (c.flagged flags).candidates.length = c.candidates.length :=
  List.length_mapIdx

theorem flagged_setHandling (h : Handling) : (c.flagged flags).setHandling i h = (c.setHandling i h).flagged flags := by
  simp only [setHandling, flagged]
  congr 1
  exact modify_mapIdx _ _ _ _ _ fun _ => rfl

theorem flagged_hide : (c.flagged flags).hide i = (c.hide i).flagged flags := by
  unfold hide
  rw [getElem?_flagged]
  cases c.candidates[i]? with
  | none => rfl
  | some x =>
      simp only [Option.map_some, flagged]
      congr 1
      exact modify_mapIdx _ _ _ _ _ fun _ => rfl

theorem flagged_hide? (j : Option Nat) : (c.flagged flags).hide? j = (c.hide? j).flagged flags := by
  cases j with
  | none => rfl
  | some j => exact flagged_hide c flags

theorem flagged_count (d : Direction) : (c.flagged flags).count i d = (c.count i d).flagged flags := by
  simp only [count, flagged]
  congr 1
  exact modify_mapIdx _ _ _ _ _ fun _ => rfl

theorem isInput_flagged : (c.flagged flags).isInput i = c.isInput i := by
  rw [isInput, getElem?_flagged, isInput]
  cases c.candidates[i]? <;> rfl

end Classifying

/-- The flag of a parameter does not matter to classification: it is as before, or the parameter is no output, or no
other parameter holds its length. -/
def Signature.Overlooks (s : Signature) (flags : Nat → Bool) (i : Nat) : Prop :=
  ∀ x, s.params[i]? = some x → x.callerAllocates = flags i ∨ x.direction ≠ .output ∨ s.lengthOf? i = none

section Classification

open Classifying

variable {s : Signature} {flags : Nat → Bool} {c : Classifying} {i : Nat} {x : Candidate}

theorem classifyOne_flagged (listed : c.candidates.map (·.param) = s.params) (found : c.candidates[i]? = some x)
    (overlooks : s.Overlooks flags i) : classifyOne (c.flagged flags) i (x.param.flagged (flags i)) =
      (classifyOne c i x.param).map (·.flagged flags) := by
  have param : s.params[i]? = some x.param := by rw [← listed, List.getElem?_map, found]; rfl
  have size : c.candidates.length = s.params.length := by rw [← listed, List.length_map]
  have name : (x.param.flagged (flags i)).type = x.param.type := rfl
  unfold classifyOne
  rw [name, length_flagged]
  cases type : x.param.type with
  | array element length =>
      have holder : s.lengthOf? i = length.parameter?.filter fun l => decide (l < c.candidates.length) && l != i := by
        rw [Signature.lengthOf?_eq param, type, size]
        rfl
      simp only [← holder]
      cases linked : s.lengthOf? i with
      | none => rfl
      | some l =>
          have sized : (decide ((x.param.flagged (flags i)).direction = .output) &&
              (x.param.flagged (flags i)).callerAllocates && (c.flagged flags |>.setHandling i (.array l)).isInput l) =
              (decide (x.param.direction = .output) && x.param.callerAllocates &&
                (c.setHandling i (.array l)).isInput l) := by
            rw [flagged_setHandling, isInput_flagged]
            rcases overlooks x.param param with same | supplied | unlinked
            · rw [same]
              rfl
            · have both : decide ((x.param.flagged (flags i)).direction = .output) = false :=
                decide_eq_false supplied
              rw [both, decide_eq_false supplied, Bool.false_and, Bool.false_and, Bool.false_and, Bool.false_and]
            · rw [linked] at unlinked
              cases unlinked
          simp only [sized]
          rw [flagged_setHandling, flagged_hide]
          split <;> rfl
  | callback signature =>
      have direction : (x.param.flagged (flags i)).direction = x.param.direction := rfl
      have closure : (x.param.flagged (flags i)).closure = x.param.closure := rfl
      have destroy : (x.param.flagged (flags i)).destroy = x.param.destroy := rfl
      simp only [direction, closure, destroy]
      split
      · split
        · rfl
        · cases misplaced? c.candidates.length i x.param.closure x.param.destroy with
          | some index => rfl
          | none =>
              simp only
              rw [flagged_setHandling, flagged_hide?, flagged_hide?]
              rfl
      · rfl
  | destroyNotify =>
      simp only
      rw [flagged_setHandling]
      rfl
  | _ => rfl

theorem classifyStep_flagged (listed : c.candidates.map (·.param) = s.params) (overlooks : s.Overlooks flags i) :
    classifyStep (c.flagged flags) i = (classifyStep c i).map (·.flagged flags) := by
  unfold classifyStep
  rw [getElem?_flagged]
  cases found : c.candidates[i]? with
  | none => rfl
  | some x =>
      have hidden : (x.flagged (flags i)).isHidden = x.isHidden := rfl
      simp only [Option.map_some, hidden]
      split
      · rfl
      · have turn := classifyOne_flagged listed found overlooks
        have param : (x.flagged (flags i)).param = x.param.flagged (flags i) := rfl
        rw [param, turn]
        cases classifyOne c i x.param with
        | error e => rfl
        | ok c₁ =>
            have same : (c₁.flagged flags).candidates[i]?.any (·.isHidden) = c₁.candidates[i]?.any (·.isHidden) := by
              rw [getElem?_flagged]
              cases c₁.candidates[i]? <;> rfl
            simp only [bind, Except.bind, Except.map, pure, Except.pure, same]
            split
            · rfl
            · exact congrArg Except.ok (flagged_count c₁ flags _)

theorem loop_flagged (overlooks : ∀ i < s.params.length, s.Overlooks flags i) (n : Nat) (inside : n ≤ s.params.length) :
    (List.range n).foldlM classifyStep (start (s.flagged flags).params) =
      ((List.range n).foldlM classifyStep (start s.params)).map (·.flagged flags) := by
  induction n with
  | zero =>
      rw [flagged_start]
      rfl
  | succ n ih =>
      rw [List.range_succ, List.foldlM_append, List.foldlM_append, ih (by omega)]
      cases loop : (List.range n).foldlM classifyStep (start s.params) with
      | error e => rfl
      | ok c =>
          simp only [Except.map, bind, Except.bind, List.foldlM_cons, List.foldlM_nil, pure, Except.pure]
          rw [classifyStep_flagged (sound_loop n loop).listed (overlooks n (by omega))]
          cases classifyStep c n <;> rfl

theorem assignPositions_flagged (candidates : List Candidate) (index next : Nat) :
    assignPositions (candidates.mapIdx fun j x => x.flagged (flags (index + j))) index next =
      (assignPositions candidates index next).map fun q => q.flagged (flags q.index) := by
  induction candidates generalizing index next with
  | nil => rfl
  | cons x rest ih =>
      have shift : (fun j (y : Candidate) => y.flagged (flags (index + (j + 1)))) =
          fun j y => y.flagged (flags (index + 1 + j)) := by
        funext j y
        rw [Nat.add_right_comm]
        rfl
      have visible : (!(x.flagged (flags (index + 0))).isHidden && (x.flagged (flags (index + 0))).param.direction.isIn) =
          (!x.isHidden && x.param.direction.isIn) := rfl
      rw [List.mapIdx_cons, shift, assignPositions, assignPositions, visible]
      split
      · rw [List.map_cons, ih]
        rfl
      · rw [List.map_cons, ih]
        rfl

theorem resultLength?_flagged : resultLength? (s.flagged flags) = resultLength? s := by
  have length : (s.flagged flags).params.length = s.params.length := List.length_mapIdx
  unfold resultLength?
  rw [length]
  rfl

/-- Flags that classification overlooks change nothing but themselves. -/
theorem classify_flagged (overlooks : ∀ i < s.params.length, s.Overlooks flags i) :
    classify (s.flagged flags) = (classify s).map (·.flagged flags) := by
  have length : (s.flagged flags).params.length = s.params.length := List.length_mapIdx
  have skips : (s.flagged flags).skipsResult = s.skipsResult := rfl
  unfold classify
  rw [length, loop_flagged overlooks _ (Nat.le_refl _), resultLength?_flagged, skips]
  cases (List.range s.params.length).foldlM classifyStep (start s.params) with
  | error e => rfl
  | ok c =>
      have counted : (if s.skipsResult = true then c.flagged flags else
          { c.flagged flags with outputs := (c.flagged flags).outputs + 1 }) =
          (if s.skipsResult = true then c else { c with outputs := c.outputs + 1 }).flagged flags := by
        split <;> rfl
      simp only [Except.map, bind, Except.bind, pure, Except.pure]
      rw [counted, flagged_hide?]
      have positions := @assignPositions_flagged flags
        (((if s.skipsResult = true then c else { c with outputs := c.outputs + 1 }).hide? (resultLength? s)).candidates)
        0 0
      simp only [Nat.zero_add] at positions
      simp only [Classifying.flagged, positions]
      rfl

end Classification

/-! ## Plans -/

namespace Plan

/-- Two plans of descriptors that differ in flags only. -/
structure Reflagged (flags : Nat → Bool) (p p' : Plan) : Prop where
  descriptor : p'.source.descriptor = p.source.descriptor.flagged flags
  parameters : p'.parameters = p.parameters.map fun q => q.flagged (flags q.index)
  inputs : p'.inputs = p.inputs
  isMethod : p'.isMethod = p.isMethod
  canThrow : p'.canThrow = p.canThrow
  resultLength : p'.resultLength = p.resultLength
  native : p'.native = p.native

variable {flags : Nat → Bool} {source source' : DescriptorRef} {p p' : Plan}

theorem assemble_flagged (differ : source'.descriptor = source.descriptor.flagged flags)
    (overlooks : ∀ i < source.descriptor.params.length, source.descriptor.signature.Overlooks flags i)
    {id : Nat} {address : UInt64} {isMethod : Bool} (ok : assemble id source address isMethod = .ok p) (id' : Nat) :
    ∃ p', assemble id' source' address isMethod = .ok p' ∧ Reflagged flags p p' ∧ p'.outputs = p.outputs := by
  have signature : source'.descriptor.signature = source.descriptor.signature.flagged flags := by rw [differ]; rfl
  simp only [assemble] at ok ⊢
  rw [signature, classify_flagged overlooks]
  cases classified : classify source.descriptor.signature with
  | error e =>
      rw [classified] at ok
      cases ok
  | ok k =>
      rw [classified] at ok
      cases ok
      have natives : (k.flagged flags).parameters.map Parameter.native = k.parameters.map Parameter.native := by
        simp only [Classified.flagged, List.map_map]
        exact List.map_congr_left fun q _ => rfl
      refine ⟨_, rfl, ⟨differ, rfl, rfl, rfl, rfl, rfl, ?_⟩, rfl⟩
      simp only [natives]
      rfl

theorem Reflagged.renumber (h : Reflagged flags p p') (id : Nat) : Reflagged flags p { p' with id } :=
  ⟨h.descriptor, h.parameters, h.inputs, h.isMethod, h.canThrow, h.resultLength, h.native⟩

theorem Reflagged.length (h : Reflagged flags p p') : p'.parameters.length = p.parameters.length := by
  rw [h.parameters, List.length_map]

theorem Reflagged.slotCount (h : Reflagged flags p p') : p'.slotCount = p.slotCount := by
  rw [Plan.slotCount, h.length, h.isMethod, h.canThrow, Plan.slotCount]

/-- If one of the descriptors compiles, so does the other, and all their plans on one platform differ in flags only. -/
theorem reflagged_of_compile (differ : source'.descriptor = source.descriptor.flagged flags)
    (overlooks : ∀ i < source.descriptor.params.length, source.descriptor.signature.Overlooks flags i)
    {s s₁ : Engine} (compiled : (compile source).run s = (.ok p, s₁)) :
    (∃ p', (compile source').run s = (.ok p', s₁)) ∧
      ∀ p' t t', t.platform = s.platform → (compile source').run t = (.ok p', t') → Reflagged flags p p' := by
  have address : source'.descriptor.entryAddress = source.descriptor.entryAddress := by rw [differ]; rfl
  have method : source'.descriptor.isMethod = source.descriptor.isMethod := by rw [differ]; rfl
  have symbol : source'.descriptor.symbol = source.descriptor.symbol := by rw [differ]; rfl
  obtain ⟨a, s₀, found, at_a⟩ := EngineM.failing_bind_ok compiled
  obtain ⟨p', assembled, reflagged, outputs⟩ :=
    assemble_flagged differ overlooks (assemble_of_compileAt at_a) s₀.nextIdentity
  have number : (EngineM.freshIdentity s₀).1 = s₀.nextIdentity := rfl
  have compiled' : (compile source').run s = (.ok p', s₁) := by
    have first : (compile source').run s = compileAt source' a source'.descriptor.isMethod s₀ := by
      rw [ExceptT.run, compile, address, EngineM.failing_bind, found]
    have last := at_a
    rw [first, method]
    unfold compileAt at last ⊢
    rw [EngineM.failing_lift, number] at last ⊢
    simp only [assembled, assemble_of_compileAt at_a, symbol, reflagged.inputs, outputs, reflagged.slotCount] at last ⊢
    cases last
    rfl
  refine ⟨⟨p', compiled'⟩, fun p'' t t' platform again => ?_⟩
  have same := sameOutcome_compile source' platform
  rw [show compile source' s = (.ok p', s₁) from compiled', show compile source' t = (.ok p'', t') from again] at same
  cases same with
  | plan _ id => exact reflagged.renumber id

end Plan

end Ferry
