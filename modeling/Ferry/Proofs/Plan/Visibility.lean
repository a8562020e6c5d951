import Ferry.Proofs.Plan.Obtained

/-!
# Who is shown a parameter

Classification is one pass that goes from left to right and hides parameters before and behind it. Here the
outcome is said without the pass: `Signature.Hides` looks for a reference to a parameter anywhere in the
signature, and `Signature.shownAs` at the parameter alone. The main result is `handling_of_classify`: where no
reference leads to a parameter that has references of its own, the pass settles just that.
-/

set_option autoImplicit false

namespace Ferry

def Ty.isDestroyNotify : Ty → Bool
  | .destroyNotify => true
  | _ => false

def Ty.isCallback : Ty → Bool
  | .callback _ => true
  | _ => false

namespace Signature

variable (s : Signature)

/-- The other parameter that holds the length of the array at an index. -/
def lengthOf? (i : Nat) : Option Nat :=
  s.params[i]?.bind fun p => p.type.lengthIndex?.filter fun l => decide (l < s.params.length) && l != i

/-- A buffer that the caller sizes through the parameter `l`. -/
def isCallerSized (i l : Nat) : Bool :=
  s.params[i]?.any (fun p => p.direction = .output && p.callerAllocates) &&
    s.params[l]?.any (·.direction = .input)

def callback? (i : Nat) : Option Param :=
  s.params[i]?.filter fun p => p.direction = .input && p.type.isCallback

/-- The user data and the destroy notifier of the callback at an index. -/
def callbackLinks (i : Nat) : List Nat :=
  (s.callback? i).elim [] fun p => p.closure.toList ++ p.destroy.toList

/-- A parameter that refers to others: an array whose length another parameter holds, or a callback. -/
def Refers (i : Nat) : Prop :=
  (s.lengthOf? i).isSome = true ∨ (s.callback? i).isSome = true

def Referred (j : Nat) : Prop :=
  (∃ i < s.params.length, s.lengthOf? i = some j) ∨ (∃ i < s.params.length, j ∈ s.callbackLinks i) ∨
    resultLength? s = some j

/-- A parameter that the caller is not shown. -/
def Hides (j : Nat) : Prop :=
  s.params[j]?.any (·.type.isDestroyNotify) = true ∨
    (∃ i < s.params.length, s.lengthOf? i = some j ∧ s.isCallerSized i j = false) ∨
    (∃ i < s.params.length, j ∈ s.callbackLinks i) ∨ resultLength? s = some j

/-- How a parameter is handled that the caller is shown. -/
def shownAs (i : Nat) : Handling :=
  match s.lengthOf? i, s.callback? i with
  | some l, _ => .array l
  | none, some p => .callback p.closure p.destroy p.scope
  | none, none => .normal

instance (i : Nat) : Decidable (s.Refers i) :=
  inferInstanceAs (Decidable (_ ∨ _))

instance (j : Nat) : Decidable (s.Referred j) :=
  inferInstanceAs (Decidable (_ ∨ _ ∨ _))

instance (j : Nat) : Decidable (s.Hides j) :=
  inferInstanceAs (Decidable (_ ∨ _ ∨ _ ∨ _))

/-! ## What one parameter hides -/

def hiddenFrom (i : Nat) : List Nat :=
  ((s.lengthOf? i).filter fun l => !s.isCallerSized i l).toList ++ s.callbackLinks i

variable {s} {i j : Nat} {p : Param}

theorem lengthOf?_eq (found : s.params[i]? = some p) :
    s.lengthOf? i = p.type.lengthIndex?.filter fun l => decide (l < s.params.length) && l != i := by
  rw [lengthOf?, found]
  rfl

theorem callback?_eq (found : s.params[i]? = some p) :
    s.callback? i = if p.direction = .input ∧ p.type.isCallback = true then some p else none := by
  rw [callback?, found, Option.filter_some]
  simp

theorem mem_hiddenFrom : j ∈ s.hiddenFrom i ↔
    (s.lengthOf? i = some j ∧ s.isCallerSized i j = false) ∨ j ∈ s.callbackLinks i := by
  simp [hiddenFrom, Option.filter_eq_some_iff]

theorem hiddenFrom_eq_nil (idle : ¬s.Refers i) : s.hiddenFrom i = [] := by
  simp only [Refers, not_or, Option.not_isSome_iff_eq_none] at idle
  rw [hiddenFrom, callbackLinks, idle.1, idle.2]
  rfl

theorem Refers.inside (h : s.Refers i) : i < s.params.length := by
  refine Nat.lt_of_not_le fun outside => ?_
  have absent : s.params[i]? = none := List.getElem?_eq_none_iff.mpr outside
  rcases h with length | callback
  · simp [lengthOf?, absent] at length
  · simp [callback?, absent] at callback

/-- What is hidden when the parameters before `n` had their turn. -/
def HidesBefore (s : Signature) (n j : Nat) : Prop :=
  (j < n ∧ s.params[j]?.any (·.type.isDestroyNotify) = true) ∨ ∃ i < n, j ∈ s.hiddenFrom i

instance (s : Signature) (n j : Nat) : Decidable (s.HidesBefore n j) :=
  inferInstanceAs (Decidable (_ ∨ _))

theorem hidesBefore_succ {n : Nat} : s.HidesBefore (n + 1) j ↔
    s.HidesBefore n j ∨ (j = n ∧ s.params[j]?.any (·.type.isDestroyNotify) = true) ∨ j ∈ s.hiddenFrom n := by
  simp only [HidesBefore, Nat.lt_succ_iff_lt_or_eq, or_and_right, exists_or, exists_eq_left]
  grind

theorem hiddenFrom_of_hidesBefore {n : Nat} (inside : n < s.params.length)
    (apart : ∀ j, s.Referred j → ¬s.Refers j) (hidden : s.HidesBefore n n) : s.hiddenFrom n = [] := by
  rcases hidden with ⟨before, -⟩ | ⟨i, before, mem⟩
  · exact absurd before (Nat.lt_irrefl n)
  · refine hiddenFrom_eq_nil (apart n ?_)
    rcases mem_hiddenFrom.mp mem with ⟨length, -⟩ | link
    · exact Or.inl ⟨i, Nat.lt_trans before inside, length⟩
    · exact Or.inr (Or.inl ⟨i, Nat.lt_trans before inside, link⟩)

end Signature

namespace Classifying

variable {s : Signature} {c c' : Classifying} {i j : Nat} {x : Candidate}

/-- How the parameter at an index is handled so far. -/
def handlingAt (c : Classifying) (i : Nat) : Option Handling :=
  c.candidates[i]?.map (·.handling)

theorem handlingAt_setHandling (h : Handling) (inside : i < c.candidates.length) :
    (c.setHandling i h).handlingAt j = if i = j then some h else c.handlingAt j := by
  rw [handlingAt, candidates_setHandling, List.getElem?_modify]
  by_cases same : i = j
  · subst same
    simp [List.getElem?_eq_getElem inside]
  · simp [same, handlingAt]

theorem handlingAt_count (d : Direction) : (c.count i d).handlingAt j = c.handlingAt j := by
  simp only [handlingAt, count, List.getElem?_modify]
  cases c.candidates[j]? with
  | none => rfl
  | some x => by_cases same : i = j <;> simp [same]

theorem handlingAt_hide (inside : j < c.candidates.length) :
    (c.hide i).handlingAt j = if i = j then some .hidden else c.handlingAt j := by
  rw [handlingAt, candidates_hide, List.getElem?_modify, List.getElem?_eq_getElem inside]
  by_cases same : i = j
  · simp [same]
  · simp [same, handlingAt, List.getElem?_eq_getElem inside]

theorem handlingAt_hideAll {links : List Nat} (inside : j < c.candidates.length) :
    (c.hideAll links).handlingAt j = if j ∈ links then some .hidden else c.handlingAt j := by
  induction links generalizing c with
  | nil => rfl
  | cons l rest ih =>
      have step : (c.hideAll (l :: rest)).handlingAt j = ((c.hide l).hideAll rest).handlingAt j := rfl
      rw [step, ih (by rw [length_hide]; exact inside), handlingAt_hide inside]
      by_cases here : l = j
      · simp [here]
      · simp [here, Ne.symm here]

theorem length_hideAll (links : List Nat) : (c.hideAll links).candidates.length = c.candidates.length := by
  induction links generalizing c with
  | nil => rfl
  | cons l rest ih => exact (ih (c := c.hide l)).trans (length_hide c l)

theorem isInput_eq (listed : c.candidates.map (·.param) = s.params) (l : Nat) :
    c.isInput l = s.params[l]?.any (·.direction = .input) := by
  rw [isInput, ← listed, List.getElem?_map]
  cases c.candidates[l]? <;> rfl

/-- What the turn of a parameter that is shown comes to: it hides what the parameter refers to. -/
def Hiding (s : Signature) (c : Classifying) (i : Nat) (x : Candidate) (c' : Classifying) : Prop :=
  ∃ links, (∀ j, j ∈ links ↔ j ∈ s.hiddenFrom i) ∧ i ∉ links ∧
    c' = (c.hideAll links).setHandling i (if x.param.type.isDestroyNotify then .hidden else s.shownAs i)

theorem hiding_nothing (found : c.candidates[i]? = some x) (normal : x.handling = .normal)
    (other : x.param.type.isDestroyNotify = false) (unlinked : s.lengthOf? i = none) (uncalled : s.callback? i = none) :
    Hiding s c i x c := by
  have idle : s.hiddenFrom i = [] := by simp [Signature.hiddenFrom, unlinked, Signature.callbackLinks, uncalled]
  refine ⟨[], fun j => by rw [idle], by simp, ?_⟩
  simp only [other, Signature.shownAs, unlinked, uncalled]
  exact (setHandling_normal found normal).symm

theorem hiding_of_array {element : Ty} {length : ArrayLength} (listed : c.candidates.map (·.param) = s.params)
    (found : c.candidates[i]? = some x) (normal : x.handling = .normal) (type : x.param.type = .array element length)
    (ok : classifyOne c i x.param = .ok c') : Hiding s c i x c' := by
  have size : c.candidates.length = s.params.length := by rw [← listed, List.length_map]
  have param : s.params[i]? = some x.param := by rw [← listed, List.getElem?_map, found]; rfl
  have plain : x.param.type.isDestroyNotify = false := by rw [type]; rfl
  have uncalled : s.callback? i = none := by
    rw [Signature.callback?_eq param, if_neg (by simp [type, Ty.isCallback])]
  have holder := Signature.lengthOf?_eq param
  simp only [type, Ty.lengthIndex?] at holder
  simp only [classifyOne, type, size, ← holder] at ok
  cases linked : s.lengthOf? i with
  | none =>
      rw [linked] at ok
      cases ok
      exact hiding_nothing found normal plain linked uncalled
  | some l =>
      have other : l ≠ i := by
        rw [holder, Option.filter_eq_some_iff] at linked
        simpa using (Bool.and_eq_true_iff.mp linked.2).2
      have sized : (decide (x.param.direction = .output) && x.param.callerAllocates &&
          (c.setHandling i (.array l)).isInput l) = s.isCallerSized i l := by
        rw [isInput_setHandling, isInput_eq listed, Signature.isCallerSized, param]
        rfl
      have shown : s.shownAs i = .array l := by rw [Signature.shownAs, linked]
      simp only [linked, Except.ok.injEq] at ok
      rw [sized] at ok
      -- the caller says how large its own buffer is, so its length stays visible
      cases callerSized : s.isCallerSized i l with
      | true =>
          rw [callerSized, if_pos rfl] at ok
          have idle : s.hiddenFrom i = [] := by
            simp [Signature.hiddenFrom, linked, callerSized, Signature.callbackLinks, uncalled]
          refine ⟨[], fun j => by rw [idle], by simp, ?_⟩
          simp only [plain, shown]
          exact ok.symm
      | false =>
          rw [callerSized, if_neg (by simp)] at ok
          have hides : s.hiddenFrom i = [l] := by
            simp [Signature.hiddenFrom, linked, callerSized, Signature.callbackLinks, uncalled]
          refine ⟨[l], fun j => by rw [hides], by simpa using other.symm, ?_⟩
          simp only [plain, shown]
          rw [← ok]
          exact setHandling_hide c _ other

theorem hiding_of_callback {signature : Signature} (listed : c.candidates.map (·.param) = s.params)
    (found : c.candidates[i]? = some x) (normal : x.handling = .normal) (type : x.param.type = .callback signature)
    (ok : classifyOne c i x.param = .ok c') : Hiding s c i x c' := by
  have param : s.params[i]? = some x.param := by rw [← listed, List.getElem?_map, found]; rfl
  have plain : x.param.type.isDestroyNotify = false := by rw [type]; rfl
  have unlinked : s.lengthOf? i = none := by
    rw [Signature.lengthOf?_eq param, type]
    rfl
  simp only [classifyOne, type] at ok
  by_cases input : x.param.direction = .input
  · have called : s.callback? i = some x.param := by
      rw [Signature.callback?_eq param, if_pos (by simp [type, input, Ty.isCallback])]
    rw [if_pos input] at ok
    split at ok
    · cases ok
    · cases misplaced : misplaced? c.candidates.length i x.param.closure x.param.destroy with
      | some index =>
          rw [misplaced] at ok
          cases ok
      | none =>
          simp only [misplaced, Except.ok.injEq] at ok
          have others : ∀ l ∈ x.param.destroy.toList ++ x.param.closure.toList, l ≠ i := fun l hl =>
            (misplaced?_none misplaced l (by simpa [or_comm] using hl)).2
          refine ⟨x.param.destroy.toList ++ x.param.closure.toList, fun j => ?_, fun mem => others i mem rfl, ?_⟩
          · simp [Signature.mem_hiddenFrom, unlinked, Signature.callbackLinks, called, or_comm]
          · simp only [plain, Signature.shownAs, unlinked, called]
            rw [if_neg (by simp), ← setHandling_hideAll c _ others, ← ok]
            cases x.param.destroy <;> cases x.param.closure <;> rfl
  · rw [if_neg input, Except.ok.injEq] at ok
    subst ok
    refine hiding_nothing found normal plain unlinked ?_
    rw [Signature.callback?_eq param, if_neg (by simp [input])]

theorem classifyOne_hiding (listed : c.candidates.map (·.param) = s.params) (found : c.candidates[i]? = some x)
    (normal : x.handling = .normal) (ok : classifyOne c i x.param = .ok c') : Hiding s c i x c' := by
  have param : s.params[i]? = some x.param := by rw [← listed, List.getElem?_map, found]; rfl
  cases type : x.param.type with
  | array element length => exact hiding_of_array listed found normal type ok
  | callback signature => exact hiding_of_callback listed found normal type ok
  | destroyNotify =>
      have idle : s.hiddenFrom i = [] := by
        simp [Signature.hiddenFrom, Signature.lengthOf?_eq param, Signature.callbackLinks,
          Signature.callback?_eq param, type, Ty.lengthIndex?, Ty.isCallback]
      simp only [classifyOne, type, Except.ok.injEq] at ok
      refine ⟨[], fun j => by rw [idle], by simp, ?_⟩
      rw [type]
      exact ok.symm
  | _ =>
      simp only [classifyOne, type, Except.ok.injEq] at ok
      subst ok
      refine hiding_nothing found normal (by rw [type]; rfl) ?_ ?_
      · rw [Signature.lengthOf?_eq param, type]
        rfl
      · rw [Signature.callback?_eq param, if_neg (by simp [type, Ty.isCallback])]

/-! ## The pass -/

/-- What is settled when the parameters before `n` had their turn. -/
def Settles (s : Signature) (n : Nat) (c : Classifying) : Prop :=
  ∀ j < s.params.length, c.handlingAt j =
    some (if s.HidesBefore n j then .hidden else if j < n then s.shownAs j else .normal)

theorem settles_start (s : Signature) : Settles s 0 (start s.params) := by
  intro j inside
  simp [handlingAt, start, Candidate.ofParam, Signature.HidesBefore, List.getElem?_eq_getElem inside]

theorem Settles.pass {n : Nat} (h : Settles s n c) (inside : n < s.params.length)
    (apart : ∀ j, s.Referred j → ¬s.Refers j) (hidden : s.HidesBefore n n) : Settles s (n + 1) c := by
  intro j other
  rw [h j other]
  have idle := Signature.hiddenFrom_of_hidesBefore inside apart hidden
  have same : s.HidesBefore (n + 1) j ↔ s.HidesBefore n j := by
    rw [Signature.hidesBefore_succ, idle]
    constructor
    · rintro (before | ⟨rfl, -⟩ | none_there)
      · exact before
      · exact hidden
      · cases none_there
    · exact Or.inl
  by_cases before : s.HidesBefore n j
  · rw [if_pos before, if_pos (same.mpr before)]
  · have differ : j ≠ n := by
      rintro rfl
      exact before hidden
    rw [if_neg before, if_neg (fun after => before (same.mp after))]
    congr 2
    simp only [Nat.lt_succ_iff_lt_or_eq, differ, or_false]

theorem Settles.hiding {n : Nat} (h : Settles s n c) (listed : c.candidates.map (·.param) = s.params)
    (found : c.candidates[n]? = some x) (visible : ¬s.HidesBefore n n) (turn : Hiding s c n x c') :
    Settles s (n + 1) c' := by
  obtain ⟨links, linked, others, rfl⟩ := turn
  have length : c.candidates.length = s.params.length := by rw [← listed, List.length_map]
  have param : s.params[n]? = some x.param := by rw [← listed, List.getElem?_map, found]; rfl
  have range : n < c.candidates.length := (List.getElem?_eq_some_iff.mp found).1
  intro j inside
  rw [handlingAt_setHandling _ (by rw [length_hideAll]; exact range), handlingAt_hideAll (by rw [length]; exact inside)]
  by_cases same : n = j
  · subst same
    have own : s.HidesBefore (n + 1) n ↔ x.param.type.isDestroyNotify = true := by
      rw [Signature.hidesBefore_succ, ← linked, param]
      simp [visible, others]
    rw [if_pos rfl]
    simp only [own, Nat.lt_succ_self, if_true]
  · have next : s.HidesBefore (n + 1) j ↔ s.HidesBefore n j ∨ j ∈ links := by
      rw [Signature.hidesBefore_succ, ← linked]
      simp [Ne.symm same]
    rw [if_neg same]
    by_cases link : j ∈ links
    · rw [if_pos link, if_pos (next.mpr (Or.inr link))]
    · rw [if_neg link, h j inside]
      simp only [next, link, or_false, Nat.lt_succ_iff_lt_or_eq, Ne.symm same]

theorem classifyStep_hidden (found : c.candidates[i]? = some x) (hidden : x.handling = .hidden)
    (ok : classifyStep c i = .ok c') : c' = c := by
  simp only [classifyStep, found] at ok
  rw [if_pos (by simp [Candidate.isHidden, hidden]), Except.ok.injEq] at ok
  exact ok.symm

theorem classifyStep_visible (found : c.candidates[i]? = some x) (visible : x.handling ≠ .hidden)
    (ok : classifyStep c i = .ok c') :
    ∃ c₁, classifyOne c i x.param = .ok c₁ ∧ c'.handlingAt = c₁.handlingAt := by
  simp only [classifyStep, found] at ok
  rw [if_neg (by simp [Candidate.isHidden, visible])] at ok
  cases turn : classifyOne c i x.param with
  | error e =>
      rw [turn] at ok
      cases ok
  | ok c₁ =>
      rw [turn] at ok
      simp only [bind, Except.bind, pure, Except.pure, Except.ok.injEq] at ok
      refine ⟨c₁, rfl, ?_⟩
      rw [← ok]
      funext j
      split
      · rfl
      · exact handlingAt_count _

theorem Settles.step {n : Nat} (h : Settles s n c) (sound : Sound s.params (· < n) c) (inside : n < s.params.length)
    (apart : ∀ j, s.Referred j → ¬s.Refers j) (ok : classifyStep c n = .ok c') : Settles s (n + 1) c' := by
  have range : n < c.candidates.length := by rw [sound.length]; exact inside
  have found := List.getElem?_eq_getElem range
  have here := h n inside
  simp only [handlingAt, found, Option.map_some, Option.some.injEq, Nat.lt_irrefl, if_false] at here
  by_cases hidden : s.HidesBefore n n
  · rw [if_pos hidden] at here
    rw [classifyStep_hidden found here ok]
    exact h.pass inside apart hidden
  · rw [if_neg hidden] at here
    obtain ⟨c₁, turn, after⟩ := classifyStep_visible found (by simp [here]) ok
    have settled := h.hiding sound.listed found hidden (classifyOne_hiding sound.listed found here turn)
    intro j other
    rw [after]
    exact settled j other

theorem sound_induction {P : Nat → Classifying → Prop} (begins : P 0 (start s.params))
    (step : ∀ n c c', n < s.params.length → Sound s.params (· < n) c → P n c → classifyStep c n = .ok c' → P (n + 1) c')
    (n : Nat) (inside : n ≤ s.params.length) (ok : (List.range n).foldlM classifyStep (start s.params) = .ok c) :
    P n c := by
  have both : Sound s.params (· < n) c ∧ (n ≤ s.params.length → P n c) := by
    refine loop_induction (P := fun n c => Sound s.params (· < n) c ∧ (n ≤ s.params.length → P n c))
      ⟨sound_start s.params, fun _ => begins⟩ (fun n c c' ih turn => ?_) n ok
    exact ⟨ih.1.step turn, fun inside => step n c c' inside ih.1 (ih.2 (Nat.le_of_succ_le inside)) turn⟩
  exact both.2 inside

theorem settles_loop (apart : ∀ j, s.Referred j → ¬s.Refers j) (n : Nat) (inside : n ≤ s.params.length)
    (ok : (List.range n).foldlM classifyStep (start s.params) = .ok c) : Settles s n c :=
  sound_induction (settles_start s) (fun _ _ _ inside sound h turn => h.step sound inside apart turn) n inside ok

/-- The destroy notifiers before `n` are hidden, wherever references lead. -/
def HidesNotifiers (s : Signature) (n : Nat) (c : Classifying) : Prop :=
  ∀ j < n, s.params[j]?.any (·.type.isDestroyNotify) = true → c.handlingAt j = some .hidden

theorem HidesNotifiers.step {n : Nat} (h : HidesNotifiers s n c) (sound : Sound s.params (· < n) c)
    (inside : n < s.params.length) (ok : classifyStep c n = .ok c') : HidesNotifiers s (n + 1) c' := by
  have range : n < c.candidates.length := by rw [sound.length]; exact inside
  have found := List.getElem?_eq_getElem range
  intro j before notifier
  by_cases hidden : (c.candidates[n]).handling = .hidden
  · rw [classifyStep_hidden found hidden ok]
    rcases Nat.lt_succ_iff_lt_or_eq.mp before with earlier | rfl
    · exact h j earlier notifier
    · rw [handlingAt, found, Option.map_some, hidden]
  · have normal := ((sound.entry n _ found).2.1 hidden (Nat.lt_irrefl n)).1
    obtain ⟨c₁, turn, after⟩ := classifyStep_visible found hidden ok
    obtain ⟨links, -, -, rfl⟩ := classifyOne_hiding sound.listed found normal turn
    rw [after, handlingAt_setHandling _ (by rw [length_hideAll]; exact range)]
    rcases Nat.lt_succ_iff_lt_or_eq.mp before with earlier | rfl
    · rw [if_neg (by omega), handlingAt_hideAll (by omega), h j earlier notifier, ite_self]
    · rw [sound.param found, Option.any_some] at notifier
      rw [if_pos rfl, if_pos notifier]

theorem hidesNotifiers_loop (n : Nat) (inside : n ≤ s.params.length)
    (ok : (List.range n).foldlM classifyStep (start s.params) = .ok c) : HidesNotifiers s n c :=
  sound_induction (fun j before => absurd before (Nat.not_lt_zero j))
    (fun _ _ _ inside sound h turn => h.step sound inside turn) n inside ok

end Classifying

/-! ## The outcome -/

theorem classify_parameters {s : Signature} {k : Classified} {c : Classifying} (ok : classify s = .ok k)
    (loop : (List.range s.params.length).foldlM classifyStep (Classifying.start s.params) = .ok c) :
    ∃ d : Classifying, d.candidates.map (·.param) = s.params ∧ k.parameters = assignPositions d.candidates 0 0 ∧
      ∀ j < s.params.length, d.handlingAt j = if resultLength? s = some j then some .hidden else c.handlingAt j := by
  have sound := Classifying.sound_loop _ loop
  -- the count of outputs changes as well, but no candidate does
  obtain ⟨d, candidates, parameters⟩ : ∃ d : Classifying, d.candidates = c.candidates ∧
      k.parameters = assignPositions (d.hide? (resultLength? s)).candidates 0 0 := by
    unfold classify at ok
    rw [loop] at ok
    cases ok
    refine ⟨if s.skipsResult then c else { c with outputs := c.outputs + 1 }, ?_, rfl⟩
    split <;> rfl
  refine ⟨d.hide? (resultLength? s), ?_, parameters, fun j inside => ?_⟩
  · rw [← sound.listed, ← candidates]
    cases resultLength? s with
    | none => rfl
    | some l =>
        rw [Classifying.hide?, Option.elim_some, Classifying.candidates_hide, Classifying.map_param_modify]
        exact fun _ => rfl
  · have same : d.handlingAt j = c.handlingAt j := by
      rw [Classifying.handlingAt, candidates, ← Classifying.handlingAt]
    cases resultLength? s with
    | none => rw [Classifying.hide?, Option.elim_none, same, if_neg (by simp)]
    | some l =>
        rw [Classifying.hide?, Option.elim_some,
          Classifying.handlingAt_hide (by rw [candidates, sound.length]; exact inside), same]
        simp only [Option.some.injEq]

theorem notifier_hidden_of_classify {s : Signature} {k : Classified} (ok : classify s = .ok k) {j : Nat}
    {q : Parameter} (found : k.parameters[j]? = some q) (notifier : q.type.isDestroyNotify = true) :
    q.handling = .hidden := by
  cases loop : (List.range s.params.length).foldlM classifyStep (Classifying.start s.params) with
  | error e =>
      unfold classify at ok
      rw [loop] at ok
      cases ok
  | ok c =>
      have hides := Classifying.hidesNotifiers_loop _ (Nat.le_refl _) loop
      obtain ⟨d, listed, parameters, settled⟩ := classify_parameters ok loop
      rw [parameters] at found
      obtain ⟨x, at_j, -, param, handling, -⟩ := getElem?_assignPositions found
      have at_params : s.params[j]? = some q.param := by
        rw [← listed, List.getElem?_map, at_j, Option.map_some, param]
      have inside := (List.getElem?_eq_some_iff.mp at_params).1
      have hidden := settled j inside
      rw [hides j inside (by rw [at_params]; exact notifier), ite_self, Classifying.handlingAt, at_j, Option.map_some,
        Option.some.injEq] at hidden
      rw [handling, hidden]

theorem Signature.hides_iff {s : Signature} {j : Nat} :
    s.Hides j ↔ (s.params[j]?.any (·.type.isDestroyNotify) = true ∨ ∃ i < s.params.length, j ∈ s.hiddenFrom i) ∨
      resultLength? s = some j := by
  simp only [Hides, mem_hiddenFrom, and_or_left, exists_or]
  grind

/-- Where no parameter that is referred to refers to others, a parameter is hidden exactly if it is a destroy
notifier or is referred to as the length of an array or of the return value, or by a callback, wherever that is
declared; all others are handled by their own type. -/
theorem handling_of_classify {s : Signature} {k : Classified} (ok : classify s = .ok k)
    (apart : ∀ j, s.Referred j → ¬s.Refers j) :
    k.parameters.map (·.param) = s.params ∧ ∀ j q, k.parameters[j]? = some q →
      (q.handling = .hidden ↔ s.Hides j) ∧ (¬s.Hides j → q.handling = s.shownAs j) := by
  cases loop : (List.range s.params.length).foldlM classifyStep (Classifying.start s.params) with
  | error e =>
      unfold classify at ok
      rw [loop] at ok
      cases ok
  | ok c =>
      have settles := Classifying.settles_loop apart _ (Nat.le_refl _) loop
      obtain ⟨d, listed, parameters, hidden⟩ := classify_parameters ok loop
      have last : ∀ j < s.params.length, d.handlingAt j = some (if s.Hides j then .hidden else s.shownAs j) := by
        intro j inside
        have settled := settles j inside
        simp only [Signature.HidesBefore, inside, true_and, if_true] at settled
        rw [hidden j inside, settled]
        simp only [Signature.hides_iff]
        by_cases length : resultLength? s = some j <;> simp [length]
      refine ⟨by rw [parameters, map_param_assignPositions, listed], fun j q found => ?_⟩
      rw [parameters] at found
      obtain ⟨x, at_j, -, -, handling, -⟩ := getElem?_assignPositions found
      have inside : j < s.params.length := by
        rw [← listed, List.length_map]
        exact (List.getElem?_eq_some_iff.mp at_j).1
      have settled := last j inside
      rw [Classifying.handlingAt, at_j, Option.map_some, Option.some.injEq, ← handling] at settled
      rw [settled]
      have visible : s.shownAs j ≠ .hidden := by
        unfold Signature.shownAs
        split <;> simp
      by_cases hides : s.Hides j
      · simp [hides]
      · simp [hides, visible]

/-- The signature of a function that fills a buffer of the size that the caller asks for, calls back, and returns a
list; user data is declared behind its callback, all other references lead to what is declared before. -/
def filling : Signature where
  namespaceName := "Sample"
  name := "fill"
  result := .array .int32 (.parameter 3)
  resultTransfer := .everything
  skipResult := false
  mayReturnNull := false
  canThrow := false
  params := [
    ⟨"size", .uint64, .input, .nothing, false, false, none, none, .call⟩,
    ⟨"buffer", .array .uint8 (.parameter 0), .output, .nothing, false, true, none, none, .call⟩,
    ⟨"gone", .destroyNotify, .input, .nothing, false, false, none, none, .call⟩,
    ⟨"count", .int32, .output, .nothing, false, false, none, none, .call⟩,
    ⟨"each", .callback ⟨"Sample", "Each", [], .void, .nothing, false, false, false⟩, .input, .nothing, false, false,
      some 5, some 2, .durable⟩,
    ⟨"data", .pointer, .input, .nothing, false, false, none, none, .call⟩]

theorem handling_of_classify_filling : ∃ k, classify filling = .ok k ∧
    (∀ j, filling.Referred j → ¬filling.Refers j) ∧
    (∀ j q, k.parameters[j]? = some q →
      (q.handling = .hidden ↔ filling.Hides j) ∧ (¬filling.Hides j → q.handling = filling.shownAs j)) ∧
    ((List.range 6).filter fun j => filling.Hides j) = [2, 3, 5] ∧
    filling.shownAs 1 = .array 0 ∧ filling.shownAs 4 = .callback (some 5) (some 2) .durable := by
  have classified : (classify filling).isOk = true := by decide +kernel
  have apart : ∀ j, filling.Referred j → ¬filling.Refers j := by
    have near : ∀ j < filling.params.length, filling.Referred j → ¬filling.Refers j := by decide +kernel
    exact fun j referred refers => near j refers.inside referred refers
  cases ok : classify filling with
  | error e =>
      rw [ok] at classified
      cases classified
  | ok k =>
      exact ⟨k, rfl, apart, (handling_of_classify ok apart).2, by decide +kernel, by decide +kernel, by decide +kernel⟩

end Ferry
