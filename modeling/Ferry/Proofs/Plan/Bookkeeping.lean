import Ferry.Proofs.Plan.Obtained

/-!
# The books of classification

The counts of a plan are kept while the loop runs, and hiding a parameter takes back what it had added. Here
the books are compared with the parameters that come out: `Classified.Bookkept` says what has to agree, and
`bookkept_of_classify` that it does. That no subtraction goes below zero is said by a second classification,
`classifyChecked`, which has no result where one would: it always has the result of `classify`.
-/

set_option autoImplicit false

namespace Ferry

/-! ## Classification with checked subtraction -/

/-- An action that may fail as classification does, and has no result if more is taken away than there is. -/
abbrev Checked := ExceptT ClassificationError Option

def Checked.ofExcept {α : Type} (r : Except ClassificationError α) : Checked α :=
  ExceptT.mk (some r)

namespace Classifying

/-- Hides a parameter if both counts hold what it had added. -/
def hideChecked (c : Classifying) (i : Nat) : Checked Classifying :=
  match c.candidates[i]? with
  | none => return c
  | some x =>
    if x.contribution.input ≤ c.inputs ∧ x.contribution.output ≤ c.outputs then return c.hide i
    else ExceptT.mk none

def hideChecked? (c : Classifying) (i : Option Nat) : Checked Classifying :=
  i.elim (return c) c.hideChecked

end Classifying

def classifyOneChecked (c : Classifying) (i : Nat) (p : Param) : Checked Classifying :=
  let n := c.candidates.length
  match p.type with
  | .array _ length =>
    match length.parameter?.filter fun l => decide (l < n) && l != i with
    | some l =>
      let c := c.setHandling i (.array l)
      let callerSized := p.direction = .output && p.callerAllocates && c.isInput l
      if callerSized then return c else c.hideChecked l
    | none => return c
  | .callback signature =>
    if p.direction = .input then
      if p.destroy.isSome && p.closure.isNone then
        throw (.unsupportedCallback signature.namespaceName signature.name)
      else
        match misplaced? n i p.closure p.destroy with
        | some index => throw (.misplacedCallbackArgument p.name index)
        | none => do
          let c ← (c.setHandling i (.callback p.closure p.destroy p.scope)).hideChecked? p.destroy
          c.hideChecked? p.closure
    else return c
  | .destroyNotify => return c.setHandling i .hidden
  | _ => return c

def classifyStepChecked (c : Classifying) (i : Nat) : Checked Classifying :=
  match c.candidates[i]? with
  | none => return c
  | some x =>
    if x.isHidden then return c
    else do
      let c ← classifyOneChecked c i x.param
      let hidden := c.candidates[i]?.any (·.isHidden)
      return if hidden then c else c.count i x.param.direction

def classifyChecked (s : Signature) : Checked Classified := do
  let c ← (List.range s.params.length).foldlM classifyStepChecked (Classifying.start s.params)
  let c := if s.skipsResult then c else { c with outputs := c.outputs + 1 }
  let resultLength := resultLength? s
  let c ← c.hideChecked? resultLength
  return ⟨assignPositions c.candidates 0 0, c.inputs, c.outputs, resultLength⟩

namespace Classifying

variable {params : List Param} {done : Nat → Prop} {c : Classifying} {i : Nat}

/-- The counts hold all that the parameters have added. -/
structure Covered (c : Classifying) : Prop where
  inputs : (c.candidates.map (·.contribution.input)).sum ≤ c.inputs
  outputs : (c.candidates.map (·.contribution.output)).sum ≤ c.outputs

theorem Sound.covered (h : Sound params done c) : c.Covered :=
  ⟨Nat.le_of_eq h.inputs.symm, Nat.le_of_eq h.outputs.symm⟩

theorem contributions_setHandling (c : Classifying) (i : Nat) (h : Handling) :
    (c.setHandling i h).candidates.map (·.contribution) = c.candidates.map (·.contribution) := by
  refine List.ext_getElem? fun j => ?_
  rw [candidates_setHandling, List.getElem?_map, List.getElem?_map, List.getElem?_modify]
  cases c.candidates[j]? with
  | none => rfl
  | some x => by_cases here : i = j <;> simp [here]

theorem Covered.setHandling (covered : c.Covered) (i : Nat) (h : Handling) : (c.setHandling i h).Covered := by
  have same := contributions_setHandling c i h
  have sums : ∀ g : Contribution → Nat, ((c.setHandling i h).candidates.map fun x => g x.contribution).sum =
      (c.candidates.map fun x => g x.contribution).sum := by
    intro g
    have mapped := congrArg (List.map g) same
    simp only [List.map_map, Function.comp_def] at mapped
    rw [mapped]
  exact ⟨Nat.le_trans (Nat.le_of_eq (sums (·.input))) covered.inputs,
    Nat.le_trans (Nat.le_of_eq (sums (·.output))) covered.outputs⟩

theorem Covered.holds (covered : c.Covered) {x : Candidate} (found : c.candidates[i]? = some x) :
    x.contribution.input ≤ c.inputs ∧ x.contribution.output ≤ c.outputs := by
  have input := sum_map_modify (fun x : Candidate => x.contribution.input)
    (fun x => { x with contribution := {} }) c.candidates i x found
  have output := sum_map_modify (fun x : Candidate => x.contribution.output)
    (fun x => { x with contribution := {} }) c.candidates i x found
  obtain ⟨inputs, outputs⟩ := covered
  simp only at input output
  omega

theorem Covered.hide (covered : c.Covered) (i : Nat) : (c.hide i).Covered := by
  unfold Classifying.hide
  cases found : c.candidates[i]? with
  | none => exact covered
  | some x =>
      have input := sum_map_modify (fun x : Candidate => x.contribution.input)
        (fun x => { x with handling := .hidden, contribution := {} }) c.candidates i x found
      have output := sum_map_modify (fun x : Candidate => x.contribution.output)
        (fun x => { x with handling := .hidden, contribution := {} }) c.candidates i x found
      obtain ⟨inputs, outputs⟩ := covered
      simp only at input output
      constructor <;>
      · simp only
        omega

theorem hideChecked_eq (covered : c.Covered) (i : Nat) : c.hideChecked i = Checked.ofExcept (.ok (c.hide i)) := by
  unfold hideChecked
  cases found : c.candidates[i]? with
  | none =>
      have nothing : c.hide i = c := by
        unfold Classifying.hide
        rw [found]
      rw [nothing]
      rfl
  | some x =>
      simp only
      rw [if_pos (covered.holds found)]
      rfl

theorem hideChecked?_eq (covered : c.Covered) (i : Option Nat) :
    c.hideChecked? i = Checked.ofExcept (.ok (c.hide? i)) := by
  cases i with
  | none => rfl
  | some i => exact hideChecked_eq covered i

theorem Covered.hide? (covered : c.Covered) (i : Option Nat) : (c.hide? i).Covered := by
  cases i with
  | none => exact covered
  | some i => exact covered.hide i

theorem classifyOneChecked_eq (covered : c.Covered) (i : Nat) (p : Param) :
    classifyOneChecked c i p = Checked.ofExcept (classifyOne c i p) := by
  unfold classifyOneChecked classifyOne
  cases p.type with
  | array element length =>
      simp only
      cases length.parameter?.filter fun l => decide (l < c.candidates.length) && l != i with
      | none => rfl
      | some l =>
          simp only
          split
          · rfl
          · exact hideChecked_eq (covered.setHandling i _) l
  | callback signature =>
      simp only
      split
      · split
        · rfl
        · cases misplaced? c.candidates.length i p.closure p.destroy with
          | some index => rfl
          | none =>
              have settled := covered.setHandling i (.callback p.closure p.destroy p.scope)
              simp only
              rw [hideChecked?_eq settled]
              exact hideChecked?_eq (settled.hide? p.destroy) p.closure
      · rfl
  | _ => rfl

theorem classifyStepChecked_eq (covered : c.Covered) (i : Nat) :
    classifyStepChecked c i = Checked.ofExcept (classifyStep c i) := by
  unfold classifyStepChecked classifyStep
  cases c.candidates[i]? with
  | none => rfl
  | some x =>
      simp only
      split
      · rfl
      · rw [classifyOneChecked_eq covered]
        cases classifyOne c i x.param with
        | error e => rfl
        | ok c₁ => rfl

theorem loopChecked_eq (params : List Param) (n : Nat) :
    (List.range n).foldlM classifyStepChecked (start params) =
      Checked.ofExcept ((List.range n).foldlM classifyStep (start params)) := by
  induction n with
  | zero => rfl
  | succ n ih =>
      rw [List.range_succ, List.foldlM_append, List.foldlM_append, ih]
      cases first : (List.range n).foldlM classifyStep (start params) with
      | error e => rfl
      | ok c =>
          have step := classifyStepChecked_eq (sound_loop n first).covered n
          simp only [List.foldlM_cons, List.foldlM_nil, bind_pure]
          exact step

end Classifying

theorem classifyChecked_eq (s : Signature) : classifyChecked s = Checked.ofExcept (classify s) := by
  unfold classifyChecked classify
  rw [Classifying.loopChecked_eq]
  cases loop : (List.range s.params.length).foldlM classifyStep (Classifying.start s.params) with
  | error e => rfl
  | ok c =>
      have covered : (if s.skipsResult then c else { c with outputs := c.outputs + 1 }).Covered := by
        obtain ⟨inputs, outputs⟩ := (Classifying.sound_loop _ loop).covered
        split
        · exact ⟨inputs, outputs⟩
        · exact ⟨inputs, Nat.le_succ_of_le outputs⟩
      have last := Classifying.hideChecked?_eq covered (resultLength? s)
      show (do
        let c ← (if s.skipsResult then c else { c with outputs := c.outputs + 1 }).hideChecked? (resultLength? s)
        return ⟨assignPositions c.candidates 0 0, c.inputs, c.outputs, resultLength? s⟩ : Checked Classified) = _
      rw [last]
      rfl

/-! ## Positions -/

section Positions

variable {candidates : List Candidate} {index next : Nat}

theorem positions_assignPositions :
    ((assignPositions candidates index next).filter (·.isInput)).map (·.position) =
        (List.range' next (candidates.countP (·.isInput))).map some ∧
      ∀ q ∈ assignPositions candidates index next, q.isInput = false → q.position = none := by
  induction candidates generalizing index next with
  | nil => exact ⟨rfl, by simp [assignPositions]⟩
  | cons x rest ih =>
      by_cases input : (!x.isHidden && x.param.direction.isIn) = true
      · obtain ⟨numbered, others⟩ := @ih (index + 1) (next + 1)
        have consumes : x.isInput = true := input
        have placed : (Parameter.mk index x.param x.handling (some next)).isInput = true := input
        rw [assignPositions, if_pos input, List.filter_cons, if_pos placed, List.countP_cons, if_pos consumes,
          List.range'_succ, List.map_cons, List.map_cons, numbered]
        refine ⟨rfl, fun q mem unused => ?_⟩
        rcases List.mem_cons.mp mem with rfl | mem
        · rw [placed] at unused
          cases unused
        · exact others q mem unused
      · obtain ⟨numbered, others⟩ := @ih (index + 1) next
        have idle : ¬x.isInput = true := input
        have unplaced : ¬(Parameter.mk index x.param x.handling none).isInput = true := input
        rw [assignPositions, if_neg input, List.filter_cons, if_neg unplaced, List.countP_cons, if_neg idle]
        refine ⟨numbered, fun q mem unused => ?_⟩
        rcases List.mem_cons.mp mem with rfl | mem
        · rfl
        · exact others q mem unused

end Positions

/-! ## The books -/

/-- What agrees when a signature is classified. -/
structure Classified.Bookkept (k : Classified) (s : Signature) : Prop where
  listed : k.parameters.map (·.param) = s.params
  inputs : k.inputs = k.parameters.countP fun q => !q.isHidden && q.direction.isIn
  outputs : k.outputs = (k.parameters.countP fun q => !q.isHidden && q.direction.isOut) +
    if s.result.isVoid || s.skipResult then 0 else 1
  positions : (k.parameters.filter fun q => !q.isHidden && q.direction.isIn).map (·.position) =
    (List.range k.inputs).map some
  unplaced : ∀ q ∈ k.parameters, (!q.isHidden && q.direction.isIn) = false → q.position = none

theorem Plan.arguments_of_assemble {id : Nat} {source : DescriptorRef} {address : UInt64} {isMethod : Bool}
    {p : Plan} (ok : assemble id source address isMethod = .ok p) : p.native.arguments.length = p.slotCount := by
  simp only [assemble] at ok
  cases classified : classify source.descriptor.signature with
  | error e =>
      rw [classified] at ok
      cases ok
  | ok k =>
      rw [classified] at ok
      cases ok
      cases isMethod <;> cases canThrow : source.descriptor.signature.canThrow <;> simp [slotCount]

/-- The books of classification agree with the parameters that it settles, no subtraction goes below zero, and
every plan that is assembled from it passes as many arguments as its call has slots. -/
theorem bookkept_of_classify {s : Signature} {k : Classified} (ok : classify s = .ok k) :
    k.Bookkept s ∧ classifyChecked s = Checked.ofExcept (.ok k) ∧
      ∀ id source address isMethod, source.descriptor.signature = s →
        ∃ p, Plan.assemble id source address isMethod = .ok p ∧ p.parameters = k.parameters ∧
          p.inputs = k.inputs ∧ p.outputs = k.outputs ∧
          p.slotCount = s.params.length + isMethod.toNat + s.canThrow.toNat ∧
          p.native.arguments.length = p.slotCount := by
  have assembled : ∀ id source address isMethod, source.descriptor.signature = s →
      ∃ p, Plan.assemble id source address isMethod = .ok p ∧ p.parameters = k.parameters ∧
        p.inputs = k.inputs ∧ p.outputs = k.outputs ∧ p.signature = s ∧ p.isMethod = isMethod := by
    intro id source address isMethod same
    subst same
    exact ⟨_, by rw [Plan.assemble, ok]; rfl, rfl, rfl, rfl, rfl, rfl⟩
  obtain ⟨c, sound, parameters, inputs, -⟩ := classify_cases ok
  refine ⟨?_, by rw [classifyChecked_eq, ok], fun id source address isMethod same => ?_⟩
  · obtain ⟨p, compiled, sameParameters, sameInputs, sameOutputs, rfl, -⟩ :=
      assembled 0 ⟨0, ⟨s, "", none, false, .dispatched⟩⟩ 0 false rfl
    have coherent := Plan.coherent_of_assemble compiled
    have counted : k.inputs = c.candidates.countP (·.isInput) := by
      rw [inputs, sound.inputs]
      exact sum_eq_countP _ _ _ fun x hx => (sound.contribution hx).1
    obtain ⟨numbered, others⟩ := @positions_assignPositions c.candidates 0 0
    constructor
    · rw [← sameParameters]
      exact coherent.listed
    · rw [← sameParameters, ← sameInputs]
      exact coherent.inputs
    · rw [← sameParameters, ← sameOutputs]
      exact coherent.outputs
    · rw [parameters, counted, List.range_eq_range']
      exact numbered
    · rw [parameters]
      exact others
  · obtain ⟨p, compiled, sameParameters, sameInputs, sameOutputs, rfl, sameMethod⟩ :=
      assembled id source address isMethod same
    have coherent := Plan.coherent_of_assemble compiled
    have length : p.parameters.length = p.signature.params.length := by
      rw [← coherent.listed, List.length_map]
    refine ⟨p, compiled, sameParameters, sameInputs, sameOutputs, ?_, Plan.arguments_of_assemble compiled⟩
    rw [Plan.slotCount, length, coherent.canThrow, sameMethod]

/-- The signature of a function that merges two lists and returns a third, all of one length, which is declared
before them; user data is declared before its callback. -/
def merging : Signature where
  namespaceName := "Sample"
  name := "merge"
  result := .array .utf8 (.parameter 0)
  resultTransfer := .container
  skipResult := false
  mayReturnNull := false
  canThrow := true
  params := [
    ⟨"count", .uint32, .both, .nothing, false, false, none, none, .call⟩,
    ⟨"data", .pointer, .input, .nothing, false, false, none, none, .call⟩,
    ⟨"items", .array .int32 (.parameter 0), .input, .nothing, false, false, none, none, .call⟩,
    ⟨"each", .callback ⟨"Sample", "Each", [], .void, .nothing, false, false, false⟩, .input, .nothing, false, false,
      some 1, none, .call⟩,
    ⟨"others", .array .int32 (.parameter 0), .both, .nothing, false, false, none, none, .call⟩]

theorem bookkept_of_classify_merging : ∃ k, classify merging = .ok k ∧ k.inputs = 3 ∧ k.outputs = 2 ∧
    k.Bookkept merging ∧ classifyChecked merging = Checked.ofExcept (.ok k) := by
  have counts : (match classify merging with
      | .ok k => decide (k.inputs = 3 ∧ k.outputs = 2)
      | .error _ => false) = true := by
    decide +kernel
  cases classified : classify merging with
  | error e =>
      rw [classified] at counts
      cases counts
  | ok k =>
      rw [classified] at counts
      obtain ⟨inputs, outputs⟩ := of_decide_eq_true counts
      obtain ⟨books, exact, -⟩ := bookkept_of_classify classified
      exact ⟨k, rfl, inputs, outputs, books, exact⟩

end Ferry
