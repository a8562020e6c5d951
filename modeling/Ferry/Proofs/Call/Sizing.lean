import Ferry.Proofs.Call.Buffers
import Ferry.Proofs.Plan.Visibility

/-!
# Buffers can be sized

The caller sizes an output buffer through a length parameter, which must therefore stay visible. Classification
hides a parameter only for a reason that stands in the signature, wherever references lead and in whatever order
they are declared (`handling_cases_of_classify`). So the length parameter is visible if nothing but buffers of the
caller refers to it, and the buffer never fails for want of a length; this is the main result, `sized_of_obtained`.
One other reference to the length parameter is enough to hide it: `unsized_of_hidden` shows that no call gets
past the buffer then.
-/

set_option autoImplicit false

namespace Ferry

/-! ## What is hidden is referred to -/

namespace Signature

variable {s : Signature} {i l : Nat}

theorem shownAs_ne_hidden (s : Signature) (i : Nat) : s.shownAs i ≠ .hidden := by
  unfold shownAs
  split <;> simp

theorem shownAs_of_linked (linked : s.lengthOf? i = some l) : s.shownAs i = .array l := by
  rw [shownAs, linked]

end Signature

namespace Classifying

variable {s : Signature} {c c' : Classifying} {n : Nat}

/-- What is known after `n` turns, wherever references lead: what is hidden is referred to, and a parameter that is
still visible after its turn is handled by its own type. -/
structure Founded (s : Signature) (n : Nat) (c : Classifying) : Prop where
  hidden : ∀ j < s.params.length, c.handlingAt j = some .hidden → s.Hides j
  shown : ∀ j < n, c.handlingAt j = some .hidden ∨ c.handlingAt j = some (s.shownAs j)

theorem founded_start (s : Signature) : Founded s 0 (start s.params) where
  hidden j inside hidden := by
    simp [handlingAt, start, Candidate.ofParam, List.getElem?_eq_getElem inside] at hidden
  shown j before := absurd before (Nat.not_lt_zero j)

theorem Founded.step (h : Founded s n c) (sound : Sound s.params (· < n) c) (inside : n < s.params.length)
    (ok : classifyStep c n = .ok c') : Founded s (n + 1) c' := by
  have range : n < c.candidates.length := by rw [sound.length]; exact inside
  have found := List.getElem?_eq_getElem range
  by_cases hidden : (c.candidates[n]).handling = .hidden
  · rw [classifyStep_hidden found hidden ok]
    refine ⟨h.hidden, fun j before => ?_⟩
    rcases Nat.lt_succ_iff_lt_or_eq.mp before with earlier | rfl
    · exact h.shown j earlier
    · left
      rw [handlingAt, found, Option.map_some, hidden]
  · have normal := ((sound.entry n _ found).2.1 hidden (Nat.lt_irrefl n)).1
    obtain ⟨c₁, turn, after⟩ := classifyStep_visible found hidden ok
    obtain ⟨links, linked, -, rfl⟩ := classifyOne_hiding sound.listed found normal turn
    -- the turn settles the parameter itself and what it refers to, and nothing else
    have handling : ∀ j < s.params.length, c'.handlingAt j =
        if n = j then some (if (c.candidates[n]).param.type.isDestroyNotify then .hidden else s.shownAs n)
        else if j ∈ links then some .hidden else c.handlingAt j := fun j other => by
      rw [after, handlingAt_setHandling _ (by rw [length_hideAll]; exact range),
        handlingAt_hideAll (by rw [sound.length]; exact other)]
    constructor
    · intro j other hides
      rw [handling j other] at hides
      by_cases same : n = j
      · subst same
        rw [if_pos rfl, Option.some.injEq] at hides
        by_cases notifier : (c.candidates[n]).param.type.isDestroyNotify = true
        · exact Or.inl (by rw [sound.param found]; exact notifier)
        · rw [if_neg notifier] at hides
          exact absurd hides (s.shownAs_ne_hidden n)
      · rw [if_neg same] at hides
        by_cases link : j ∈ links
        · exact Signature.hides_iff.mpr (Or.inl (Or.inr ⟨n, inside, (linked j).mp link⟩))
        · rw [if_neg link] at hides
          exact h.hidden j other hides
    · intro j before
      rw [handling j (by omega)]
      by_cases same : n = j
      · subst same
        rw [if_pos rfl]
        by_cases notifier : (c.candidates[n]).param.type.isDestroyNotify = true
        · exact Or.inl (by rw [if_pos notifier])
        · exact Or.inr (by rw [if_neg notifier])
      · rw [if_neg same]
        by_cases link : j ∈ links
        · exact Or.inl (by rw [if_pos link])
        · rw [if_neg link]
          exact h.shown j (by omega)

theorem founded_loop (n : Nat) (inside : n ≤ s.params.length)
    (ok : (List.range n).foldlM classifyStep (start s.params) = .ok c) : Founded s n c :=
  sound_induction (founded_start s) (fun _ _ _ inside sound h turn => h.step sound inside turn) n inside ok

end Classifying

theorem handling_cases_of_classify {s : Signature} {k : Classified} (ok : classify s = .ok k) {j : Nat}
    {q : Parameter} (found : k.parameters[j]? = some q) :
    q.handling = .hidden ∧ s.Hides j ∨ q.handling = s.shownAs j := by
  cases loop : (List.range s.params.length).foldlM classifyStep (Classifying.start s.params) with
  | error e =>
      unfold classify at ok
      rw [loop] at ok
      cases ok
  | ok c =>
      have founded := Classifying.founded_loop _ (Nat.le_refl _) loop
      obtain ⟨d, listed, parameters, settled⟩ := classify_parameters ok loop
      rw [parameters] at found
      obtain ⟨x, at_j, -, -, handling, -⟩ := getElem?_assignPositions found
      have inside : j < s.params.length := by
        rw [← listed, List.length_map]
        exact (List.getElem?_eq_some_iff.mp at_j).1
      have last := settled j inside
      rw [Classifying.handlingAt, at_j, Option.map_some, ← handling] at last
      by_cases length : resultLength? s = some j
      · rw [if_pos length, Option.some.injEq] at last
        exact Or.inl ⟨last, Signature.hides_iff.mpr (Or.inr length)⟩
      · rw [if_neg length] at last
        rcases founded.shown j inside with hidden | shown
        · rw [hidden, Option.some.injEq] at last
          exact Or.inl ⟨last, founded.hidden j inside hidden⟩
        · rw [shown, Option.some.injEq] at last
          exact Or.inr last

namespace Plan

variable {p : Plan} {q r : Parameter} {l : Nat}

theorem Obtained.handling_cases (h : p.Obtained) {j : Nat} (found : p.parameters[j]? = some q) :
    q.handling = .hidden ∧ p.signature.Hides j ∨ q.handling = p.signature.shownAs j := by
  obtain ⟨id, source, address, isMethod, ok⟩ := h.assembled
  simp only [assemble] at ok
  cases classified : classify source.descriptor.signature with
  | error e =>
      rw [classified] at ok
      cases ok
  | ok k =>
      rw [classified] at ok
      cases ok
      exact handling_cases_of_classify classified found

end Plan

/-! ## The turn of a buffer -/

def Value.count? (v : Value) : Option Nat :=
  v.int64?.bind fun i => if 0 ≤ i.toInt then some i.toInt.toNat else none

def Parameter.asked (r : Parameter) (arguments : List Value) : Except InvokeError Nat :=
  match (r.argument arguments).count? with
  | some count => .ok count
  | none => .error (.invalidArgument r.name r.type (r.argument arguments))

namespace Plan

variable {p : Plan} {q r : Parameter} {l : Nat} {arguments : List Value}

theorem requested_of_position (found : p.parameters[l]? = some r) (placed : r.position ≠ none) :
    p.requested l arguments = r.asked arguments := by
  have known : r.position.isNone = false := by simpa [Option.isSome_iff_ne_none] using placed
  simp only [requested, parameter?, found, known, Bool.false_eq_true, if_false, Parameter.asked, Value.count?]
  cases (r.argument arguments).int64? with
  | none => rfl
  | some i => by_cases positive : 0 ≤ i.toInt <;> simp [positive]

theorem requested_of_hidden (found : p.parameters[l]? = some r) (unplaced : r.position = none) :
    p.requested l arguments = .error (.marshal r.name .unknownLength) := by
  simp [requested, parameter?, found, unplaced]

/-- How the turn of a buffer ends, when the caller is asked for `asked` elements of a type: it panics if the size of
the buffer is no machine word. -/
def Ends (q : Parameter) (element : Ty) (asked : Except InvokeError Nat) (outcome : Except InvokeFailure Unit) : Prop :=
  match asked with
  | .error e => outcome = .error (.error e)
  | .ok count =>
    match byteSize? count element.elementSize with
    | none => outcome = .error .overflow
    | some size => outcome = .ok () ∨ outcome = .error (.error (.marshal q.name (.allocationFailed size)))

theorem ends_of_run {f f' : Frame} {s s' : Engine} {outcome : Except InvokeFailure Unit} {element : Ty}
    {length : ArrayLength} (visible : q.handling ≠ .hidden) (out : q.direction = .output)
    (given : q.callerAllocates = true) (linked : q.handling = .array l) (type : q.type = .array element length)
    (run : f.run (FrameM.buildParameter arguments q) s = ((outcome, f'), s')) :
    Ends q element (f.plan.requested l arguments) outcome := by
  have size : f.plan.bufferSize q arguments =
      (f.plan.requested l arguments).map fun count => (some count, byteSize? count element.elementSize) := by
    rw [bufferSize, linked, type]
  have reserves : Frame.Reserves arguments q f s outcome f' s' := by
    cases Frame.run_buildParameter run with
    | hidden hidden => exact absurd hidden visible
    | output _ _ _ _ _ reserves => exact reserves
    | input _ supplied => rw [out] at supplied; cases supplied
    | both _ supplied => rw [out] at supplied; cases supplied
    | refused _ supplied => exact absurd out supplied
  cases asked : f.plan.requested l arguments with
  | error e =>
      rw [asked] at size
      cases reserves with
      | cell own => rw [given] at own; cases own
      | unsized _ e' refused =>
          rw [size] at refused
          cases refused
          rfl
      | buffer _ _ _ _ _ sized => rw [size] at sized; cases sized
      | overflow _ _ sized => rw [size] at sized; cases sized
      | full _ _ _ _ sized => rw [size] at sized; cases sized
  | ok count =>
      rw [asked, Except.map] at size
      have bytes : ∀ {settled bytes}, f.plan.bufferSize q arguments = .ok (settled, bytes) →
          byteSize? count element.elementSize = bytes := fun sized => by
        rw [size, Except.ok.injEq, Prod.mk.injEq] at sized
        exact sized.2
      unfold Ends
      dsimp only
      cases reserves with
      | cell own => rw [given] at own; cases own
      | unsized _ _ refused => rw [size] at refused; cases refused
      | buffer _ _ _ _ _ sized =>
          rw [bytes sized]
          exact Or.inl rfl
      | overflow _ _ sized => rw [bytes sized]
      | full _ _ _ _ sized =>
          rw [bytes sized]
          exact Or.inr rfl

/-- A buffer that can be sized: its length parameter `l` is visible and consumes an argument of the caller, and the
turn of the buffer in whatever frame of the plan ends as that argument has it, never for want of a length. -/
structure Sizable (p : Plan) (q : Parameter) (element : Ty) (l : Nat) : Prop where
  linked : q.handling = .array l
  visible : ∃ r k, p.parameters[l]? = some r ∧ r.handling ≠ .hidden ∧ r.position = some k ∧ k < p.inputs ∧
    ∀ {f f' : Frame} {s s' : Engine} {arguments outcome}, f.plan = p →
      f.run (FrameM.buildParameter arguments q) s = ((outcome, f'), s') → Ends q element (r.asked arguments) outcome
  known : ∀ {f f' : Frame} {s s' : Engine} {arguments e}, f.plan = p →
    f.run (FrameM.buildParameter arguments q) s = ((.error e, f'), s') → ∀ name, e ≠ .error (.marshal name .unknownLength)

/-- An output buffer is sized through a parameter that the caller supplies, if nothing else refers to that
parameter. -/
theorem sized_of_obtained (obtained : p.Obtained) (hq : q ∈ p.parameters) (visible : q.handling ≠ .hidden)
    (out : q.direction = .output) (given : q.callerAllocates = true) {element : Ty}
    (type : q.type = .array element (.parameter l)) (found : p.parameters[l]? = some r) (input : r.direction = .input)
    (other : l ≠ q.index) (alone : ¬p.signature.Hides l) : p.Sizable q element l := by
  have coherent := obtained.coherent
  have at_q := coherent.inside hq
  have param : p.signature.params[q.index]? = some q.param := by
    rw [← coherent.listed, List.getElem?_map, at_q]
    rfl
  have inside : l < p.signature.params.length := by
    rw [← coherent.listed, List.length_map]
    exact (List.getElem?_eq_some_iff.mp found).1
  have length : p.signature.lengthOf? q.index = some l := by
    have holder : q.param.type = .array element (.parameter l) := type
    rw [Signature.lengthOf?_eq param, holder, Option.filter_eq_some_iff]
    exact ⟨rfl, by simp [inside, other]⟩
  have linked : q.handling = .array l := by
    rw [← Signature.shownAs_of_linked length]
    exact (obtained.handling_cases at_q).resolve_left fun hidden => visible hidden.1
  have shown : r.handling ≠ .hidden := by
    rcases obtained.handling_cases found with ⟨-, hides⟩ | shown
    · exact absurd hides alone
    · rw [shown]
      exact p.signature.shownAs_ne_hidden l
  obtain ⟨k, position, bound⟩ := coherent.position r (List.mem_of_getElem? found) (by
    simp [Parameter.isInput, Parameter.isHidden, shown, input, Direction.isIn])
  have ends : ∀ {f f' : Frame} {s s' : Engine} {arguments outcome}, f.plan = p →
      f.run (FrameM.buildParameter arguments q) s = ((outcome, f'), s') → Ends q element (r.asked arguments) outcome := by
    intro f f' s s' arguments outcome plan run
    have ends := ends_of_run visible out given linked type run
    rwa [plan, requested_of_position found (by simp [position])] at ends
  refine ⟨linked, ⟨r, k, found, shown, position, bound, ends⟩, ?_⟩
  intro f f' s s' arguments e plan run name same
  have outcome := ends plan run
  subst same
  rw [Parameter.asked] at outcome
  cases counted : (r.argument arguments).count? with
  | none =>
      rw [counted] at outcome
      cases outcome
  | some count =>
      rw [counted, Ends] at outcome
      split at outcome
      · cases outcome
      · rcases outcome with ends | ends <;> cases ends

theorem unsized_of_hidden (obtained : p.Obtained) {f f' : Frame} {s s' : Engine} {outcome : Except InvokeFailure Unit}
    {element : Ty} {length : ArrayLength} (plan : f.plan = p) (visible : q.handling ≠ .hidden)
    (out : q.direction = .output) (given : q.callerAllocates = true) (linked : q.handling = .array l)
    (type : q.type = .array element length) (found : p.parameters[l]? = some r) (hidden : r.handling = .hidden)
    (run : f.run (FrameM.buildParameter arguments q) s = ((outcome, f'), s')) :
    outcome = .error (.error (.marshal r.name .unknownLength)) := by
  have unplaced : r.position = none := by
    by_contra placed
    have shown := obtained.visible_of_position (List.mem_of_getElem? found) placed
    simp [Parameter.isInput, Parameter.isHidden, hidden] at shown
  have ends := ends_of_run visible out given linked type run
  rwa [plan, requested_of_hidden found unplaced] at ends

end Plan

def sampling : DescriptorRef where
  id := 0
  descriptor := {
    symbol := "sample", receiver := none, isConstructor := false, entry := .address 0x1000
    signature := {
      namespaceName := "Sample", name := "sample", result := .uint32, resultTransfer := .nothing, skipResult := false
      mayReturnNull := false, canThrow := false
      params := [
        ⟨"values", .array .int32 (.parameter 2), .output, .nothing, false, true, none, none, .call⟩,
        ⟨"flags", .array .uint8 (.parameter 2), .output, .nothing, false, true, none, none, .call⟩,
        ⟨"room", .uint32, .input, .nothing, false, false, none, none, .call⟩] } }

theorem sized_of_obtained_sampling : ∃ p s₁ values flags room,
    (Plan.compile sampling).run .initial = (.ok p, s₁) ∧ p.parameters = [values, flags, room] ∧
    ¬p.signature.Hides 2 ∧ p.Sizable values .int32 2 ∧ room.position = some 0 := by
  have builds : (match (Plan.compile sampling).run .initial with
      | (.ok p, _) => decide ((p.parameters.map fun q =>
          (q.index, q.handling, q.direction, q.callerAllocates, q.position)) =
            [(0, .array 2, .output, true, none), (1, .array 2, .output, true, none),
              (2, .normal, .input, false, some 0)])
      | _ => false) = true := by
    decide +kernel
  obtain ⟨p, s₁, compiled⟩ := exists_ok (r := (Plan.compile sampling).run .initial) (by decide +kernel)
  rw [compiled] at builds
  simp only [decide_eq_true_eq] at builds
  obtain ⟨values, rest, three, first, shape⟩ := List.map_eq_cons_iff.mp builds
  obtain ⟨flags, rest, rfl, -, shape⟩ := List.map_eq_cons_iff.mp shape
  obtain ⟨room, rest, rfl, third, shape⟩ := List.map_eq_cons_iff.mp shape
  cases List.map_eq_nil_iff.mp shape
  simp only [Prod.mk.injEq] at first third
  have obtained : p.Obtained := .compiled sampling _ _ compiled
  have signature : p.signature = sampling.descriptor.signature := by
    rw [Plan.signature, Plan.source_of_compile compiled]
  have listed := obtained.coherent.listed
  rw [three, signature] at listed
  have type : values.type = .array .int32 (.parameter 2) := congrArg Param.type (List.cons.inj listed).1
  have alone : ¬p.signature.Hides 2 := by
    rw [signature]
    decide +kernel
  exact ⟨p, s₁, values, flags, room, compiled, three, alone,
    Plan.sized_of_obtained obtained (r := room) (by simp [three]) (by simp [first]) first.2.2.1 first.2.2.2.1 type
      (by simp [three]) third.2.2.1 (by simp [first]) alone, third.2.2.2.2⟩

end Ferry
