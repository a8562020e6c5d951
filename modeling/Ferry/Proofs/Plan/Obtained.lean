import Ferry.Call.Invoke
import Ferry.Proofs.Engine.Running
import Ferry.Proofs.Plan.Classification

/-!
# Plans that can be obtained

A plan comes from compiling a descriptor or from the dispatch table of a virtual function, and either way it
is assembled from a classification. `Plan.Coherent` collects what calls rely on: parameters know their index,
visible inputs have an argument, references lead to hidden parameters, and the counts are those of the
visible parameters.
-/

set_option autoImplicit false

namespace Ferry

namespace Parameter

/-- The caller supplies a value for it. -/
def isInput (q : Parameter) : Bool :=
  !q.isHidden && q.direction.isIn

def isOutput (q : Parameter) : Bool :=
  !q.isHidden && q.direction.isOut

theorem isHidden_iff (q : Parameter) : q.isHidden = true ↔ q.handling = .hidden := by
  simp [isHidden]

theorem isHidden_eq_false (q : Parameter) : q.isHidden = false ↔ q.handling ≠ .hidden := by
  simp [isHidden]

end Parameter

namespace Plan

/-- The parameter at an index is hidden. -/
def HiddenAt (p : Plan) (i : Nat) : Prop :=
  ∃ q, p.parameters[i]? = some q ∧ q.handling = .hidden

/-- What every plan that can be obtained satisfies. -/
structure Coherent (p : Plan) : Prop where
  index : ∀ (i : Nat) (q : Parameter), p.parameters[i]? = some q → q.index = i
  listed : p.parameters.map (·.param) = p.signature.params
  handled : ∀ (i : Nat) (q : Parameter), p.parameters[i]? = some q →
    Handled p.signature.params p.HiddenAt i q.param q.handling
  position : ∀ q ∈ p.parameters, q.isInput = true → ∃ k, q.position = some k ∧ k < p.inputs
  inputs : p.inputs = p.parameters.countP (·.isInput)
  outputs : p.outputs = p.parameters.countP (·.isOutput) + if p.signature.skipsResult then 0 else 1
  resultLength : p.resultLength = resultLength? p.signature
  lengthHidden : ∀ l, p.resultLength = some l → p.HiddenAt l
  canThrow : p.canThrow = p.signature.canThrow

theorem Coherent.param_mem {p : Plan} (coherent : p.Coherent) {q : Parameter} (hq : q ∈ p.parameters) :
    q.param ∈ p.source.descriptor.signature.params := by
  have listed := coherent.listed
  rw [signature] at listed
  rw [← listed]
  exact List.mem_map_of_mem hq

end Plan

/-! ## Positions and counts -/

section Positions

variable {candidates : List Candidate} {index next : Nat}

/-- Candidates that consume an argument. -/
def Candidate.isInput (x : Candidate) : Bool :=
  !x.isHidden && x.param.direction.isIn

theorem getElem?_assignPositions {k : Nat} {q : Parameter}
    (found : (assignPositions candidates index next)[k]? = some q) :
    ∃ x, candidates[k]? = some x ∧ q.index = index + k ∧ q.param = x.param ∧ q.handling = x.handling ∧
      (x.isInput = true → ∃ j, q.position = some j ∧ j < next + candidates.countP (·.isInput)) := by
  induction candidates generalizing index next k with
  | nil => simp [assignPositions] at found
  | cons x rest ih =>
      have shape : assignPositions (x :: rest) index next =
          ⟨index, x.param, x.handling, if x.isInput then some next else none⟩ ::
            assignPositions rest (index + 1) (if x.isInput then next + 1 else next) := by
        by_cases input : x.isInput = true
        · have input' : (!x.isHidden && x.param.direction.isIn) = true := input
          simp only [assignPositions, input, input', if_true]
        · have input' : ¬(!x.isHidden && x.param.direction.isIn) = true := input
          rw [assignPositions, if_neg input', if_neg input, if_neg input]
      rw [shape] at found
      cases k with
      | zero =>
          simp only [List.getElem?_cons_zero, Option.some.injEq] at found
          subst found
          refine ⟨x, rfl, rfl, rfl, rfl, fun input => ⟨next, by simp [input], ?_⟩⟩
          simp only [List.countP_cons, input, if_true]
          omega
      | succ k =>
          obtain ⟨y, at_k, sameIndex, sameParam, sameHandling, placed⟩ := ih found
          refine ⟨y, at_k, by omega, sameParam, sameHandling, fun input => ?_⟩
          obtain ⟨j, position, bound⟩ := placed input
          refine ⟨j, position, ?_⟩
          simp only [List.countP_cons]
          split at bound <;> simp_all
          omega

theorem length_assignPositions : (assignPositions candidates index next).length = candidates.length := by
  induction candidates generalizing index next with
  | nil => rfl
  | cons x rest ih =>
      simp only [assignPositions]
      split <;> simp [ih]

theorem countP_assignPositions (test : Handling → Direction → Bool) :
    (assignPositions candidates index next).countP (fun q => test q.handling q.direction) =
      candidates.countP fun x => test x.handling x.param.direction := by
  induction candidates generalizing index next with
  | nil => rfl
  | cons x rest ih =>
      simp only [assignPositions]
      split <;>
      · rw [List.countP_cons, List.countP_cons, ih]
        rfl

theorem map_param_assignPositions :
    (assignPositions candidates index next).map (·.param) = candidates.map (·.param) := by
  induction candidates generalizing index next with
  | nil => rfl
  | cons x rest ih =>
      simp only [assignPositions]
      split <;> simp [ih]

theorem sum_eq_countP {α : Type} (g : α → Nat) (test : α → Bool) (l : List α)
    (each : ∀ x ∈ l, g x = (test x).toNat) : (l.map g).sum = l.countP test := by
  induction l with
  | nil => rfl
  | cons x rest ih =>
      rw [List.map_cons, List.sum_cons, List.countP_cons, ih fun y hy => each y (List.mem_cons_of_mem x hy),
        each x List.mem_cons_self]
      cases test x <;> simp [Nat.add_comm]

end Positions

/-! ## The outcome of classification -/

namespace Classifying

variable {c : Classifying} {params : List Param}

theorem Sound.contribution (h : Sound params (· < params.length) c) {x : Candidate} (hx : x ∈ c.candidates) :
    x.contribution.input = (x.isInput).toNat ∧
      x.contribution.output = (!x.isHidden && x.param.direction.isOut).toNat := by
  obtain ⟨i, range, rfl⟩ := List.getElem_of_mem hx
  have found := List.getElem?_eq_getElem range
  obtain ⟨free, -, passed⟩ := h.entry i _ found
  by_cases hidden : (c.candidates[i]).handling = .hidden
  · simp [Candidate.isInput, Candidate.isHidden, hidden, free hidden]
  · have counted := (passed hidden (by rw [← h.length]; exact range)).1
    simp [Candidate.isInput, Candidate.isHidden, hidden, counted]

end Classifying

theorem classify_cases {s : Signature} {k : Classified} (ok : classify s = .ok k) :
    ∃ c, Classifying.Sound s.params (· < s.params.length) c ∧ k.parameters = assignPositions c.candidates 0 0 ∧
      k.inputs = c.inputs ∧ k.outputs = c.outputs + (if s.skipsResult then 0 else 1) ∧
      k.resultLength = resultLength? s ∧ ∀ l, resultLength? s = some l → c.HiddenAt l := by
  unfold classify at ok
  cases loop : (List.range s.params.length).foldlM classifyStep (Classifying.start s.params) with
  | error e =>
      rw [loop] at ok
      cases ok
  | ok c =>
      have sound := Classifying.sound_loop _ loop
      rw [loop] at ok
      simp only [bind, Except.bind, pure, Except.pure, Except.ok.injEq] at ok
      subst ok
      cases shown : resultLength? s with
      | none =>
          refine ⟨c, sound, ?_, ?_, ?_, rfl, by simp⟩ <;>
          · by_cases skips : s.skipsResult = true <;> simp [skips, Classifying.hide?]
      | some l =>
          have visible : s.skipsResult = false := by
            unfold resultLength? at shown
            split at shown
            · cases shown
            · rename_i visible
              simpa using visible
          have range : l < c.candidates.length := by
            rw [sound.length]
            simp only [resultLength?, visible, Bool.false_eq_true, if_false] at shown
            simpa using (Option.filter_eq_some_iff.mp shown).2
          have at_l := List.getElem?_eq_getElem range
          have counted : (c.candidates[l]).contribution.output ≤ c.outputs := by
            have moved := Classifying.sum_map_modify (fun x : Candidate => x.contribution.output)
              (fun x => { x with contribution := {} }) c.candidates l _ at_l
            have := sound.outputs
            simp only at moved
            omega
          refine ⟨c.hide l, sound.hide l, ?_, ?_, ?_, rfl, ?_⟩
          · simp [visible, Classifying.hide?, Classifying.hide, at_l]
          · simp [visible, Classifying.hide?, Classifying.hide, at_l]
          · simp only [visible, Bool.false_eq_true, if_false, Classifying.hide?, Classifying.hide, at_l,
              Option.elim_some]
            omega
          · rintro l' same
            cases same
            exact Classifying.hiddenAt_hide_self range

namespace Plan

theorem hiddenAt_of_assigned {p : Plan} {c : Classifying} (assigned : p.parameters = assignPositions c.candidates 0 0)
    {i : Nat} (h : c.HiddenAt i) : p.HiddenAt i := by
  obtain ⟨x, found, hidden⟩ := h
  have range := (List.getElem?_eq_some_iff.mp found).1
  rw [← @length_assignPositions c.candidates 0 0] at range
  obtain ⟨y, at_i, -, -, sameHandling, -⟩ := getElem?_assignPositions (List.getElem?_eq_getElem range)
  rw [found] at at_i
  cases at_i
  refine ⟨_, by rw [assigned]; exact List.getElem?_eq_getElem range, ?_⟩
  rw [sameHandling]
  exact hidden

theorem coherent_of_assemble {id : Nat} {source : DescriptorRef} {address : UInt64} {isMethod : Bool} {p : Plan}
    (ok : assemble id source address isMethod = .ok p) : p.Coherent := by
  simp only [assemble] at ok
  cases classified : classify source.descriptor.signature with
  | error e =>
      rw [classified] at ok
      cases ok
  | ok k =>
      rw [classified] at ok
      simp only [bind, Except.bind, pure, Except.pure, Except.ok.injEq] at ok
      subst ok
      obtain ⟨c, sound, parameters, inputs, outputs, resultLength, lengthHidden⟩ := classify_cases classified
      have inputs' : c.inputs = c.candidates.countP (·.isInput) := by
        rw [sound.inputs]
        exact sum_eq_countP _ _ _ fun x hx => (sound.contribution hx).1
      have outputs' : c.outputs = c.candidates.countP fun x => !x.isHidden && x.param.direction.isOut := by
        rw [sound.outputs]
        exact sum_eq_countP _ _ _ fun x hx => (sound.contribution hx).2
      constructor
      · intro i q found
        simp only [parameters] at found
        obtain ⟨x, -, sameIndex, -⟩ := getElem?_assignPositions found
        omega
      · simp only [parameters, map_param_assignPositions]
        exact sound.listed
      · intro i q found
        simp only [parameters] at found
        obtain ⟨x, at_i, -, sameParam, sameHandling, -⟩ := getElem?_assignPositions found
        rw [sameParam, sameHandling]
        by_cases hidden : x.handling = .hidden
        · rw [hidden]
          exact trivial
        · have range : i < source.descriptor.signature.params.length := by
            rw [← sound.length]
            exact (List.getElem?_eq_some_iff.mp at_i).1
          exact ((sound.entry i x at_i).2.2 hidden range).2.mono fun j => hiddenAt_of_assigned parameters
      · intro q mem input
        simp only [parameters] at mem
        obtain ⟨i, range, rfl⟩ := List.getElem_of_mem mem
        obtain ⟨x, -, -, sameParam, sameHandling, placed⟩ :=
          getElem?_assignPositions (List.getElem?_eq_getElem range)
        have input' : x.isInput = true := by
          simp only [Parameter.isInput, Parameter.isHidden, Parameter.direction, sameParam, sameHandling] at input
          exact input
        obtain ⟨j, position, bound⟩ := placed input'
        refine ⟨j, position, ?_⟩
        simp only [inputs, inputs']
        omega
      · simp only [inputs, inputs', parameters]
        exact (countP_assignPositions fun h d => !decide (h = .hidden) && d.isIn).symm
      · simp only [outputs, outputs', parameters]
        congr 1
        exact (countP_assignPositions fun h d => !decide (h = .hidden) && d.isOut).symm
      · exact resultLength
      · intro l shown
        exact hiddenAt_of_assigned parameters (lengthHidden l (by rw [← resultLength]; exact shown))
      · rfl

/-- The ways to come by a plan. -/
inductive Obtained (p : Plan) : Prop
  | compiled (source : DescriptorRef) (s s' : Engine) (ok : (compile source).run s = (.ok p, s'))
  | virtual (source : DescriptorRef) (tables : DispatchChain) (f : NativeFunction) (s s' : Engine)
      (ok : (NativeFunction.makeVirtual source tables).run s = (.ok f, s')) (plan : f.plan = some p)

theorem assemble_of_compileAt {source : DescriptorRef} {address : UInt64} {isMethod : Bool} {p : Plan}
    {s s' : Engine} (ok : (compileAt source address isMethod).run s = (.ok p, s')) :
    assemble s.nextIdentity source address isMethod = .ok p := by
  have number : (EngineM.freshIdentity s).1 = s.nextIdentity := rfl
  unfold compileAt at ok
  rw [ExceptT.run, EngineM.failing_lift, number] at ok
  cases found : assemble s.nextIdentity source address isMethod with
  | error e =>
      rw [found] at ok
      cases ok
  | ok plan =>
      rw [found] at ok
      cases ok
      rfl

theorem source_of_compile {source : DescriptorRef} {p : Plan} {s s' : Engine}
    (ok : (compile source).run s = (.ok p, s')) : p.source = source := by
  obtain ⟨address, s₁, -, compiled⟩ := EngineM.failing_bind_ok ok
  have assembled := assemble_of_compileAt compiled
  simp only [assemble] at assembled
  cases classified : classify source.descriptor.signature with
  | error e =>
      rw [classified] at assembled
      cases assembled
  | ok k =>
      rw [classified] at assembled
      cases assembled
      rfl

theorem Obtained.assembled {p : Plan} (h : p.Obtained) :
    ∃ id source address isMethod, assemble id source address isMethod = .ok p := by
  cases h with
  | compiled source s s' ok =>
      obtain ⟨address, s₁, -, compiled⟩ := EngineM.failing_bind_ok ok
      exact ⟨_, _, _, _, assemble_of_compileAt compiled⟩
  | virtual source tables f s s' ok plan =>
      simp only [NativeFunction.makeVirtual] at ok
      cases found : tables.resolve source.descriptor.name with
      | none =>
          rw [found] at ok
          cases ok
      | some address =>
          rw [found] at ok
          obtain ⟨q, s₁, compiled, rest⟩ := EngineM.failing_bind_ok ok
          cases rest
          cases plan
          exact ⟨_, _, _, _, assemble_of_compileAt compiled⟩

theorem Obtained.coherent {p : Plan} (h : p.Obtained) : p.Coherent := by
  obtain ⟨id, source, address, isMethod, ok⟩ := h.assembled
  exact coherent_of_assemble ok

end Plan

end Ferry
