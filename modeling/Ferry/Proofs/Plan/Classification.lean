import Mathlib.Algebra.GroupWithZero.Nat
import Ferry.Plan.Compile

/-!
# What classification settles

The invariant of the loop in `classify` is `Classifying.Sound done c`: a parameter that the loop has passed is
counted exactly when it is visible, and every reference of a visible parameter leads to a hidden one, an
output buffer that the caller sizes excepted. Hiding a parameter keeps the invariant, whichever it is, and so
does settling the parameter whose turn it is.
-/

set_option autoImplicit false

namespace Ferry

/-- What is settled about a visible parameter by the way it is handled. `Hidden` tells which parameters are
hidden. -/
def Handled (params : List Param) (Hidden : Nat → Prop) (i : Nat) (p : Param) : Handling → Prop
  | .hidden => True
  | .normal => ∀ element l, p.type = .array element (.parameter l) → params.length ≤ l ∨ l = i
  | .array l =>
    (∃ element, p.type = .array element (.parameter l)) ∧ l < params.length ∧ l ≠ i ∧
      ((p.direction = .output ∧ p.callerAllocates = true ∧
        ∃ q, params[l]? = some q ∧ q.direction = .input) ∨ Hidden l)
  | .callback closure destroy scope =>
    p.direction = .input ∧ (∃ signature, p.type = .callback signature) ∧
      closure = p.closure ∧ destroy = p.destroy ∧ scope = p.scope ∧
      (destroy.isSome = true → closure.isSome = true) ∧
      ∀ j ∈ closure.toList ++ destroy.toList, j < params.length ∧ j ≠ i ∧ Hidden j

theorem Handled.mono {params : List Param} {Hidden More : Nat → Prop} {i : Nat} {p : Param} {h : Handling}
    (handled : Handled params Hidden i p h) (more : ∀ j, Hidden j → More j) : Handled params More i p h := by
  cases h with
  | hidden => exact trivial
  | normal => exact handled
  | array l =>
      obtain ⟨type, range, other, sized | hidden⟩ := handled
      · exact ⟨type, range, other, Or.inl sized⟩
      · exact ⟨type, range, other, Or.inr (more l hidden)⟩
  | callback closure destroy scope =>
      obtain ⟨input, type, sameClosure, sameDestroy, sameScope, token, links⟩ := handled
      refine ⟨input, type, sameClosure, sameDestroy, sameScope, token, fun j hj => ?_⟩
      exact ⟨(links j hj).1, (links j hj).2.1, more j (links j hj).2.2⟩

namespace Classifying

/-- The parameter at an index is hidden. -/
def HiddenAt (c : Classifying) (i : Nat) : Prop :=
  ∃ x, c.candidates[i]? = some x ∧ x.handling = .hidden

/-- What holds of one parameter under classification; `done` tells whether the loop has passed it. -/
def Entry (params : List Param) (Hidden : Nat → Prop) (done : Prop) (i : Nat) (x : Candidate) : Prop :=
  (x.handling = .hidden → x.contribution = {}) ∧
    (x.handling ≠ .hidden → ¬done → x.handling = .normal ∧ x.contribution = {}) ∧
    (x.handling ≠ .hidden → done →
      x.contribution = ⟨x.param.direction.isIn.toNat, x.param.direction.isOut.toNat⟩ ∧
        Handled params Hidden i x.param x.handling)

/-- The invariant of classification. -/
structure Sound (params : List Param) (done : Nat → Prop) (c : Classifying) : Prop where
  listed : c.candidates.map (·.param) = params
  entry : ∀ i x, c.candidates[i]? = some x → Entry params c.HiddenAt (done i) i x
  inputs : c.inputs = (c.candidates.map (·.contribution.input)).sum
  outputs : c.outputs = (c.candidates.map (·.contribution.output)).sum

variable {params : List Param} {done : Nat → Prop} {c : Classifying} {i : Nat}

theorem Sound.length (h : Sound params done c) : c.candidates.length = params.length := by
  rw [← h.listed, List.length_map]

theorem Sound.param (h : Sound params done c) {x : Candidate} (found : c.candidates[i]? = some x) :
    params[i]? = some x.param := by
  rw [← h.listed, List.getElem?_map, found]
  rfl

/-- Replacing an entry moves a sum by the difference. -/
theorem sum_map_modify {α : Type} (g : α → Nat) (f : α → α) (l : List α) (i : Nat) (x : α)
    (found : l[i]? = some x) : ((l.modify i f).map g).sum + g x = (l.map g).sum + g (f x) := by
  induction l generalizing i with
  | nil => simp at found
  | cons y rest ih =>
      cases i with
      | zero =>
          simp only [List.getElem?_cons_zero, Option.some.injEq] at found
          subst found
          simp only [List.modify_zero_cons, List.map_cons, List.sum_cons]
          omega
      | succ k =>
          simp only [List.getElem?_cons_succ] at found
          have := ih k found
          simp only [List.modify_succ_cons, List.map_cons, List.sum_cons]
          omega

theorem getElem?_modify_cases {α : Type} {l : List α} {f : α → α} {i j : Nat} {y : α}
    (found : (l.modify i f)[j]? = some y) :
    (i = j ∧ ∃ x, l[j]? = some x ∧ y = f x) ∨ (i ≠ j ∧ l[j]? = some y) := by
  rw [List.getElem?_modify] at found
  by_cases same : i = j
  · left
    simp only [same, if_true] at found
    obtain ⟨x, hx, rfl⟩ := Option.map_eq_some_iff.mp found
    exact ⟨same, x, hx, rfl⟩
  · right
    simp only [same, if_false] at found
    exact ⟨same, by simpa using found⟩

theorem map_param_modify (l : List Candidate) (i : Nat) (f : Candidate → Candidate)
    (same : ∀ x, (f x).param = x.param) : (l.modify i f).map (·.param) = l.map (·.param) := by
  refine List.ext_getElem? fun j => ?_
  rw [List.getElem?_map, List.getElem?_map, List.getElem?_modify]
  cases l[j]? with
  | none => rfl
  | some x => by_cases here : i = j <;> simp [here, same]

theorem candidates_setHandling (c : Classifying) (i : Nat) (h : Handling) :
    (c.setHandling i h).candidates = c.candidates.modify i fun x => { x with handling := h } := rfl

/-! ## Hiding -/

theorem candidates_hide (c : Classifying) (i : Nat) :
    (c.hide i).candidates = c.candidates.modify i fun x => { x with handling := .hidden, contribution := {} } := by
  unfold hide
  cases found : c.candidates[i]? with
  | none =>
      refine (List.ext_getElem? fun j => ?_).symm
      rw [List.getElem?_modify]
      by_cases same : i = j
      · subst same
        simp [found]
      · simp [same]
  | some x => rfl

theorem hiddenAt_hide {j : Nat} (h : c.HiddenAt j) : (c.hide i).HiddenAt j := by
  obtain ⟨x, found, hidden⟩ := h
  unfold HiddenAt
  rw [candidates_hide, List.getElem?_modify, found]
  by_cases same : i = j
  · simp [same]
  · simp [same, hidden]

theorem hiddenAt_hide_self (range : i < c.candidates.length) : (c.hide i).HiddenAt i := by
  unfold HiddenAt
  rw [candidates_hide, List.getElem?_modify, List.getElem?_eq_getElem range]
  simp

theorem getElem?_hide_of_ne {j : Nat} (differ : i ≠ j) : (c.hide i).candidates[j]? = c.candidates[j]? := by
  rw [candidates_hide, List.getElem?_modify]
  simp [differ]

theorem Sound.hide (h : Sound params done c) (i : Nat) : Sound params done (c.hide i) where
  listed := by
    rw [candidates_hide, map_param_modify]
    · exact h.listed
    · exact fun _ => rfl
  entry j y found := by
    rw [candidates_hide] at found
    rcases getElem?_modify_cases found with ⟨-, x, -, rfl⟩ | ⟨differ, found⟩
    · exact ⟨fun _ => rfl, fun visible => absurd rfl visible, fun visible => absurd rfl visible⟩
    · obtain ⟨hidden, pending, passed⟩ := h.entry j y found
      refine ⟨hidden, pending, fun visible hdone => ?_⟩
      obtain ⟨counted, handled⟩ := passed visible hdone
      exact ⟨counted, handled.mono fun k hk => hiddenAt_hide hk⟩
  inputs := by
    unfold Classifying.hide
    cases found : c.candidates[i]? with
    | none => exact h.inputs
    | some x =>
        have moved := sum_map_modify (fun x : Candidate => x.contribution.input)
          (fun x => { x with handling := .hidden, contribution := {} }) c.candidates i x found
        have := h.inputs
        simp only at moved ⊢
        omega
  outputs := by
    unfold Classifying.hide
    cases found : c.candidates[i]? with
    | none => exact h.outputs
    | some x =>
        have moved := sum_map_modify (fun x : Candidate => x.contribution.output)
          (fun x => { x with handling := .hidden, contribution := {} }) c.candidates i x found
        have := h.outputs
        simp only at moved ⊢
        omega

/-- Hiding one after the other. -/
def hideAll (c : Classifying) (links : List Nat) : Classifying :=
  links.foldl hide c

theorem Sound.hideAll {links : List Nat} (h : Sound params done c) : Sound params done (c.hideAll links) := by
  induction links generalizing c with
  | nil => exact h
  | cons l rest ih => exact ih (h.hide l)

theorem hiddenAt_hideAll_of {links : List Nat} {j : Nat} (h : c.HiddenAt j) : (c.hideAll links).HiddenAt j := by
  induction links generalizing c with
  | nil => exact h
  | cons l rest ih => exact ih (hiddenAt_hide h)

theorem length_hide (c : Classifying) (i : Nat) : (c.hide i).candidates.length = c.candidates.length := by
  rw [candidates_hide, List.length_modify]

theorem hiddenAt_hideAll {links : List Nat} {j : Nat} (mem : j ∈ links) (range : j < c.candidates.length) :
    (c.hideAll links).HiddenAt j := by
  induction links generalizing c with
  | nil => cases mem
  | cons l rest ih =>
      rcases List.mem_cons.mp mem with rfl | mem
      · exact hiddenAt_hideAll_of (c := c.hide j) (hiddenAt_hide_self range)
      · exact ih mem (by rw [length_hide]; exact range)

theorem getElem?_hideAll {links : List Nat} {j : Nat} (apart : j ∉ links) :
    (c.hideAll links).candidates[j]? = c.candidates[j]? := by
  induction links generalizing c with
  | nil => rfl
  | cons l rest ih =>
      simp only [List.mem_cons, not_or] at apart
      exact (ih apart.2).trans (getElem?_hide_of_ne (Ne.symm apart.1))

theorem setHandling_hide (c : Classifying) {l : Nat} (h : Handling) (differ : l ≠ i) :
    (c.setHandling i h).hide l = (c.hide l).setHandling i h := by
  have entry : (c.setHandling i h).candidates[l]? = c.candidates[l]? := by
    simp only [setHandling]
    rw [List.getElem?_modify]
    simp [differ.symm]
  unfold hide
  rw [entry]
  cases c.candidates[l]? with
  | none => rfl
  | some x =>
      simp only [setHandling]
      congr 1
      refine List.ext_getElem? fun j => ?_
      simp only [List.getElem?_modify]
      by_cases atI : i = j
      · subst atI
        simp [differ]
      · simp [atI]

theorem setHandling_hideAll (c : Classifying) {links : List Nat} (h : Handling) (differ : ∀ l ∈ links, l ≠ i) :
    (c.setHandling i h).hideAll links = (c.hideAll links).setHandling i h := by
  induction links generalizing c with
  | nil => rfl
  | cons l rest ih =>
      simp only [hideAll, List.foldl_cons] at ih ⊢
      rw [setHandling_hide c h (differ l List.mem_cons_self)]
      exact ih (c.hide l) fun k hk => differ k (List.mem_cons_of_mem l hk)

/-! ## Settling the parameter whose turn it is -/

theorem setHandling_normal {x : Candidate} (found : c.candidates[i]? = some x) (normal : x.handling = .normal) :
    c.setHandling i .normal = c := by
  have same : c.candidates.modify i (fun x => { x with handling := .normal }) = c.candidates := by
    refine List.ext_getElem? fun j => ?_
    rw [List.getElem?_modify]
    by_cases here : i = j
    · subst here
      simp [found, ← normal]
    · simp [here]
  simp only [setHandling, same]

/-- A parameter that is hidden already is passed over. -/
theorem Sound.pass (h : Sound params (· < i) c) (hidden : c.HiddenAt i) : Sound params (· < i + 1) c where
  listed := h.listed
  inputs := h.inputs
  outputs := h.outputs
  entry j y found := by
    obtain ⟨free, pending, passed⟩ := h.entry j y found
    refine ⟨free, fun visible later => pending visible (by omega), fun visible before => ?_⟩
    have differ : j ≠ i := by
      rintro rfl
      obtain ⟨x, same, gone⟩ := hidden
      rw [found] at same
      cases same
      exact visible gone
    exact passed visible (by omega)

/-- The entries after one parameter is replaced by a settled one. -/
theorem entry_settled {x y : Candidate} {candidates : List Candidate} {inputs outputs : Nat}
    (h : Sound params (· < i) c) (found : c.candidates[i]? = some x) (pending : x.handling = .normal)
    (others : ∀ j, j ≠ i → candidates[j]? = c.candidates[j]?) (here : candidates[i]? = some y)
    (settled : Entry params c.HiddenAt True i y) (j : Nat) (z : Candidate)
    (at_j : candidates[j]? = some z) :
    Entry params (HiddenAt ⟨candidates, inputs, outputs⟩) (j < i + 1) j z := by
  have stays : ∀ k, c.HiddenAt k → HiddenAt ⟨candidates, inputs, outputs⟩ k := by
    rintro k ⟨w, at_k, hidden⟩
    have differ : k ≠ i := by
      rintro rfl
      rw [found] at at_k
      cases at_k
      rw [pending] at hidden
      cases hidden
    exact ⟨w, by rw [others k differ]; exact at_k, hidden⟩
  by_cases differ : j = i
  · subst differ
    rw [here] at at_j
    cases at_j
    obtain ⟨free, -, passed⟩ := settled
    refine ⟨free, fun _ later => absurd (Nat.lt_succ_self j) later, fun visible _ => ?_⟩
    exact ⟨(passed visible trivial).1, (passed visible trivial).2.mono stays⟩
  · rw [others j differ] at at_j
    obtain ⟨free, waiting, passed⟩ := h.entry j z at_j
    refine ⟨free, fun visible later => waiting visible (by omega), fun visible before => ?_⟩
    obtain ⟨counted, handled⟩ := passed visible (by omega)
    exact ⟨counted, handled.mono stays⟩

theorem Sound.settleHidden {x : Candidate} (h : Sound params (· < i) c) (found : c.candidates[i]? = some x)
    (pending : x.handling = .normal ∧ x.contribution = {}) :
    Sound params (· < i + 1) (c.setHandling i .hidden) where
  listed := by
    rw [candidates_setHandling, map_param_modify]
    · exact h.listed
    · exact fun _ => rfl
  entry := by
    refine entry_settled (y := { x with handling := .hidden }) h found pending.1 ?_ ?_ ?_
    · intro j differ
      rw [candidates_setHandling, List.getElem?_modify]
      simp [differ.symm]
    · rw [candidates_setHandling, List.getElem?_modify, found]
      simp
    · exact ⟨fun _ => pending.2, fun visible => absurd rfl visible, fun visible => absurd rfl visible⟩
  inputs := by
    have moved := sum_map_modify (fun x : Candidate => x.contribution.input)
      (fun x => { x with handling := .hidden }) c.candidates i x found
    have := h.inputs
    simp only [setHandling] at moved ⊢
    omega
  outputs := by
    have moved := sum_map_modify (fun x : Candidate => x.contribution.output)
      (fun x => { x with handling := .hidden }) c.candidates i x found
    have := h.outputs
    simp only [setHandling] at moved ⊢
    omega

theorem Sound.settle {x : Candidate} {handling : Handling} (h : Sound params (· < i) c)
    (found : c.candidates[i]? = some x) (pending : x.handling = .normal ∧ x.contribution = {})
    (visible : handling ≠ .hidden) (handled : Handled params c.HiddenAt i x.param handling) :
    Sound params (· < i + 1) ((c.setHandling i handling).count i x.param.direction) := by
  have listed : ((c.setHandling i handling).count i x.param.direction).candidates =
      c.candidates.modify i fun y =>
        { y with handling, contribution := ⟨x.param.direction.isIn.toNat, x.param.direction.isOut.toNat⟩ } := by
    refine List.ext_getElem? fun j => ?_
    simp only [setHandling, count, List.getElem?_modify]
    cases c.candidates[j]? with
    | none => rfl
    | some x => by_cases same : i = j <;> simp [same]
  refine ⟨?_, ?_, ?_, ?_⟩
  · rw [listed, map_param_modify]
    · exact h.listed
    · exact fun _ => rfl
  · refine entry_settled (y := { x with
        handling, contribution := ⟨x.param.direction.isIn.toNat, x.param.direction.isOut.toNat⟩ })
      h found pending.1 ?_ ?_ ?_
    · intro j differ
      rw [listed, List.getElem?_modify]
      simp [differ.symm]
    · rw [listed, List.getElem?_modify, found]
      simp
    · exact ⟨fun hidden => absurd hidden visible, fun _ undone => absurd trivial undone, fun _ _ => ⟨rfl, handled⟩⟩
  · have moved := sum_map_modify (fun x : Candidate => x.contribution.input)
      (fun y => { y with
        handling, contribution := ⟨x.param.direction.isIn.toNat, x.param.direction.isOut.toNat⟩ })
      c.candidates i x found
    rw [listed]
    have total := h.inputs
    have none_yet := congrArg Contribution.input pending.2
    simp only [setHandling, count] at moved none_yet ⊢
    omega
  · have moved := sum_map_modify (fun x : Candidate => x.contribution.output)
      (fun y => { y with
        handling, contribution := ⟨x.param.direction.isIn.toNat, x.param.direction.isOut.toNat⟩ })
      c.candidates i x found
    rw [listed]
    have total := h.outputs
    have none_yet := congrArg Contribution.output pending.2
    simp only [setHandling, count] at moved none_yet ⊢
    omega

/-! ## One turn of the loop -/

theorem isInput_setHandling (c : Classifying) (i l : Nat) (h : Handling) :
    (c.setHandling i h).isInput l = c.isInput l := by
  simp only [isInput, candidates_setHandling, List.getElem?_modify]
  cases c.candidates[l]? with
  | none => rfl
  | some x => by_cases here : i = l <;> simp [here]

theorem Sound.input_of_isInput (h : Sound params done c) {l : Nat} (input : c.isInput l = true) :
    ∃ q, params[l]? = some q ∧ q.direction = .input := by
  unfold isInput at input
  cases found : c.candidates[l]? with
  | none => simp [found] at input
  | some x =>
      refine ⟨x.param, h.param found, ?_⟩
      simpa [found] using input

end Classifying

theorem misplaced?_none {n i : Nat} {closure destroy : Option Nat} (ok : misplaced? n i closure destroy = none) :
    ∀ j ∈ closure.toList ++ destroy.toList, j < n ∧ j ≠ i := by
  intro j hj
  have := List.find?_eq_none.mp ok j hj
  simp only [Bool.or_eq_true, decide_eq_true_eq, beq_iff_eq, not_or, Nat.not_le] at this
  exact this

namespace Classifying

variable {params : List Param} {c c' : Classifying} {i : Nat} {x : Candidate}

/-- What `classifyOne` does: it hides other parameters and settles how this one is handled. -/
def Settling (params : List Param) (c : Classifying) (i : Nat) (x : Candidate) (c' : Classifying) : Prop :=
  ∃ links handling, c' = (c.hideAll links).setHandling i handling ∧ (∀ l ∈ links, l ≠ i) ∧
    Handled params (c.hideAll links).HiddenAt i x.param handling

theorem settling_normal (found : c.candidates[i]? = some x) (normal : x.handling = .normal)
    (unlinked : Handled params c.HiddenAt i x.param .normal) : Settling params c i x c :=
  ⟨[], .normal, (setHandling_normal found normal).symm, by simp, unlinked⟩

theorem settling_of_array {element : Ty} {length : ArrayLength} (h : Sound params (· < i) c)
    (found : c.candidates[i]? = some x) (normal : x.handling = .normal) (type : x.param.type = .array element length)
    (ok : classifyOne c i x.param = .ok c') : Settling params c i x c' := by
  have size : c.candidates.length = params.length := h.length
  simp only [classifyOne, type] at ok
  cases linked : length.parameter?.filter fun l => decide (l < c.candidates.length) && l != i with
  | none =>
      simp only [linked, Except.ok.injEq] at ok
      subst ok
      refine settling_normal found normal fun element' l same => ?_
      rw [type] at same
      cases same
      have := Option.filter_eq_none_iff.mp linked l rfl
      simp only [Bool.and_eq_true, decide_eq_true_eq, bne_iff_ne, ne_eq, not_and, Decidable.not_not] at this
      omega
  | some l =>
      obtain ⟨holder, range⟩ := Option.filter_eq_some_iff.mp linked
      simp only [Bool.and_eq_true, decide_eq_true_eq, bne_iff_ne, ne_eq] at range
      have byParameter : length = .parameter l := by
        cases length with
        | parameter k => exact congrArg ArrayLength.parameter (Option.some.inj holder)
        | zeroTerminated => cases holder
        | fixed n => cases holder
      simp only [linked, Except.ok.injEq, isInput_setHandling] at ok
      -- the length of a buffer that the caller sizes is the only one that is not hidden
      by_cases sized : x.param.direction = .output ∧ x.param.callerAllocates = true ∧ c.isInput l = true
      · rw [if_pos (by simp [sized])] at ok
        refine ⟨[], .array l, ok.symm, by simp, ⟨element, by rw [type, byParameter]⟩, by omega, range.2, ?_⟩
        exact Or.inl ⟨sized.1, sized.2.1, h.input_of_isInput sized.2.2⟩
      · rw [if_neg (by simpa [and_assoc] using sized)] at ok
        refine ⟨[l], .array l, ?_, by simpa using range.2, ⟨element, by rw [type, byParameter]⟩, by omega,
          range.2, Or.inr (hiddenAt_hide_self range.1)⟩
        rw [← ok]
        exact setHandling_hide c _ range.2

theorem settling_of_callback {signature : Signature} (h : Sound params (· < i) c) (found : c.candidates[i]? = some x)
    (normal : x.handling = .normal) (type : x.param.type = .callback signature)
    (ok : classifyOne c i x.param = .ok c') : Settling params c i x c' := by
  have size : c.candidates.length = params.length := h.length
  simp only [classifyOne, type] at ok
  by_cases input : x.param.direction = .input
  · rw [if_pos input] at ok
    by_cases unsupported : (x.param.destroy.isSome && x.param.closure.isNone) = true
    · rw [if_pos unsupported] at ok
      cases ok
    · rw [if_neg unsupported] at ok
      cases misplaced : misplaced? c.candidates.length i x.param.closure x.param.destroy with
      | some index =>
          rw [misplaced] at ok
          cases ok
      | none =>
          simp only [misplaced, Except.ok.injEq] at ok
          have placed := misplaced?_none misplaced
          have placed' : ∀ l ∈ x.param.destroy.toList ++ x.param.closure.toList, l ≠ i := fun l hl =>
            (placed l (by simpa [or_comm] using hl)).2
          refine ⟨x.param.destroy.toList ++ x.param.closure.toList,
            .callback x.param.closure x.param.destroy x.param.scope, ?_, placed', input,
            ⟨signature, type⟩, rfl, rfl, rfl, ?_, ?_⟩
          · rw [← setHandling_hideAll c _ placed', ← ok]
            cases x.param.destroy <;> cases x.param.closure <;> rfl
          · intro destroy
            simp only [destroy, Bool.true_and, Option.isNone_iff_eq_none] at unsupported
            exact Option.isSome_iff_ne_none.mpr unsupported
          · intro j hj
            obtain ⟨range, differ⟩ := placed j hj
            exact ⟨by omega, differ, hiddenAt_hideAll (by simpa [or_comm] using hj) range⟩
  · rw [if_neg input, Except.ok.injEq] at ok
    subst ok
    refine settling_normal found normal fun element l same => ?_
    rw [type] at same
    cases same

theorem classifyOne_settling (h : Sound params (· < i) c) (found : c.candidates[i]? = some x)
    (normal : x.handling = .normal) (ok : classifyOne c i x.param = .ok c') : Settling params c i x c' := by
  cases type : x.param.type with
  | array element length => exact settling_of_array h found normal type ok
  | callback signature => exact settling_of_callback h found normal type ok
  | destroyNotify =>
      simp only [classifyOne, type, Except.ok.injEq] at ok
      exact ⟨[], .hidden, ok.symm, by simp, trivial⟩
  | _ =>
      simp only [classifyOne, type, Except.ok.injEq] at ok
      subst ok
      refine settling_normal found normal fun element l same => ?_
      rw [type] at same
      cases same

theorem Sound.step (h : Sound params (· < i) c) (ok : classifyStep c i = .ok c') :
    Sound params (· < i + 1) c' := by
  unfold classifyStep at ok
  cases found : c.candidates[i]? with
  | none =>
      -- beyond the last parameter there is nothing to pass
      simp only [found, Except.ok.injEq] at ok
      subst ok
      refine ⟨h.listed, fun j y at_j => ?_, h.inputs, h.outputs⟩
      have : j < i := by
        have := (List.getElem?_eq_some_iff.mp at_j).1
        have := List.getElem?_eq_none_iff.mp found
        omega
      obtain ⟨free, -, passed⟩ := h.entry j y at_j
      exact ⟨free, fun _ later => absurd (by omega) later, fun visible _ => passed visible this⟩
  | some x =>
      simp only [found] at ok
      by_cases hidden : x.isHidden = true
      · rw [if_pos hidden, Except.ok.injEq] at ok
        subst ok
        exact h.pass ⟨x, found, by simpa [Candidate.isHidden] using hidden⟩
      · rw [if_neg hidden] at ok
        have visible : x.handling ≠ .hidden := by simpa [Candidate.isHidden] using hidden
        have pending := (h.entry i x found).2.1 visible (by omega)
        cases settled : classifyOne c i x.param with
        | error e =>
            rw [settled] at ok
            cases ok
        | ok c₁ =>
            obtain ⟨links, handling, rfl, apart, handled⟩ := classifyOne_settling h found pending.1 settled
            have kept : (c.hideAll links).candidates[i]? = some x := by
              rw [getElem?_hideAll fun mem => apart i mem rfl]
              exact found
            have result : ((c.hideAll links).setHandling i handling).candidates[i]? =
                some { x with handling } := by
              rw [candidates_setHandling, List.getElem?_modify, kept]
              simp
            rw [settled] at ok
            simp only [bind, Except.bind, pure, Except.pure, result, Option.any_some, Except.ok.injEq,
              Candidate.isHidden] at ok
            by_cases hides : handling = .hidden
            · subst hides
              simp only [decide_true, if_true] at ok
              rw [← ok]
              exact h.hideAll.settleHidden kept pending
            · rw [if_neg (by simpa using hides)] at ok
              rw [← ok]
              exact h.hideAll.settle kept pending hides handled

theorem sum_map_zero {α : Type} (l : List α) : (l.map fun _ => 0).sum = 0 := by
  induction l with
  | nil => rfl
  | cons x rest ih => rw [List.map_cons, List.sum_cons, ih]

theorem sound_start (params : List Param) : Sound params (· < 0) (start params) where
  listed := by
    simp only [start, List.map_map]
    exact List.map_id params
  entry i x found := by
    simp only [start, List.getElem?_map] at found
    obtain ⟨p, at_i, same⟩ := Option.map_eq_some_iff.mp found
    subst same
    exact ⟨fun hidden => (by cases hidden), fun _ _ => ⟨rfl, rfl⟩, fun _ before => absurd before (Nat.not_lt_zero i)⟩
  inputs := by
    simp only [start, List.map_map]
    exact (sum_map_zero params).symm
  outputs := by
    simp only [start, List.map_map]
    exact (sum_map_zero params).symm

/-- What holds before the first turn and is kept by every turn holds when the pass comes to an end. -/
theorem loop_induction {P : Nat → Classifying → Prop} (begins : P 0 (start params))
    (step : ∀ n c c', P n c → classifyStep c n = .ok c' → P (n + 1) c') (n : Nat)
    (ok : (List.range n).foldlM classifyStep (start params) = .ok c) : P n c := by
  induction n generalizing c with
  | zero =>
      cases ok
      exact begins
  | succ n ih =>
      rw [List.range_succ, List.foldlM_append] at ok
      cases first : (List.range n).foldlM classifyStep (start params) with
      | error e =>
          rw [first] at ok
          cases ok
      | ok c₁ =>
          rw [first] at ok
          simp only [bind, Except.bind, List.foldlM_cons, List.foldlM_nil, pure, Except.pure] at ok
          cases last : classifyStep c₁ n with
          | error e =>
              rw [last] at ok
              cases ok
          | ok c₂ =>
              rw [last] at ok
              cases ok
              exact step n c₁ _ (ih first) last

theorem sound_loop (n : Nat) (ok : (List.range n).foldlM classifyStep (start params) = .ok c) :
    Sound params (· < n) c :=
  loop_induction (P := fun n c => Sound params (· < n) c) (sound_start params) (fun _ _ _ h turn => h.step turn) n ok

end Classifying

end Ferry
