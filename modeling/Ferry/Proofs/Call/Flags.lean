import Ferry.Proofs.Call.ArrayLengths
import Ferry.Proofs.Call.Checking
import Ferry.Proofs.Marshal.ReadingBack
import Ferry.Proofs.Plan.Flags

/-!
# Calls that differ in a flag

Who provides the memory of an output is told by a flag that every parameter has. It is meant for visible outputs. Here
two plans run side by side that differ in flags on which nothing depends (`Plan.Indifferent`): each step of building,
collecting and reclaiming does the same on a frame of the one and on the same frame of the other (`FrameM.Alike`). The
main result is `sameCalls_of_flagged`: whatever native code does, the two calls are the same.

The flag does matter for an array or a structure that is passed both ways, and for a hidden length parameter from which
an output takes its element count.
-/

set_option autoImplicit false

namespace Ferry

variable {World : Type} {host : Host World}

/-! ## Reading through a cell -/

/-- A word and the value of its type at the same place stand for the same, whatever the type. -/
theorem fromNative_load (m : Memory) (type : Ty) (a : UInt64) (transfer : Transfer) :
    fromNative type (m.load type.native a) transfer = fromNative type (m.load .u64 a) transfer :=
  fromNative_congr (m.payload_load type.native a) transfer

/-! ## Actions that do the same on both plans -/

/-- The same frame for another plan. -/
def Frame.onPlan (f : Frame) (p' : Plan) : Frame :=
  { f with plan := p' }

/-- Two actions that do the same: the one on a frame for the plan `p` that satisfies an invariant, the other on that
frame for the plan `p'`. -/
def FrameM.Alike {α : Type} (p p' : Plan) (inv : Frame → Prop) (act act' : FrameM α) : Prop :=
  ∀ f s r f₁ s₁, f.plan = p → inv f → f.run act s = ((r, f₁), s₁) →
    f₁.plan = p ∧ inv f₁ ∧ (f.onPlan p').run act' s = ((r, f₁.onPlan p'), s₁)

namespace FrameM.Alike

open Ferry.Frame

variable {α β : Type} {p p' : Plan} {inv : Frame → Prop}

theorem iff_mirrored {act act' : FrameM α} : Alike p p' inv act act' ↔
    Mirrored (·.onPlan p') (fun f => f.plan = p ∧ inv f) (fun _ => True) act act' := by
  constructor
  · intro alike f s r f' s' holds run
    obtain ⟨plan, holds', same⟩ := alike f s r f' s' holds.1 holds.2 run
    exact ⟨⟨plan, holds'⟩, fun _ _ => trivial, same⟩
  · intro mirrored f s r f' s' plan holds run
    obtain ⟨holds', -, same⟩ := mirrored f s r f' s' ⟨plan, holds⟩ run
    exact ⟨holds'.1, holds'.2, same⟩

theorem pure (a : α) : Alike p p' inv (Pure.pure a) (Pure.pure a) :=
  iff_mirrored.mpr (.pure a)

theorem throw (e : InvokeFailure) : Alike p p' inv (MonadExcept.throw e : FrameM α) (MonadExcept.throw e) :=
  iff_mirrored.mpr (.throw trivial)

theorem bind {act act' : FrameM α} {next next' : α → FrameM β} (first : Alike p p' inv act act')
    (later : ∀ a, Alike p p' inv (next a) (next' a)) : Alike p p' inv (act >>= next) (act' >>= next') :=
  iff_mirrored.mpr (.bind (iff_mirrored.mp first) fun a => iff_mirrored.mp (later a))

/-- What comes next may look at the frame, which each of the two sees for its own plan. -/
theorem get_bind {next next' : Frame → FrameM α}
    (later : ∀ f, f.plan = p → inv f → Alike p p' inv (next f) (next' (f.onPlan p'))) :
    Alike p p' inv (getThe Frame >>= next) (getThe Frame >>= next') :=
  iff_mirrored.mpr (.get_bind fun f holds => iff_mirrored.mp (later f holds.1 holds.2))

theorem lift (act : EngineM α) : Alike p p' inv (liftM act : FrameM α) (liftM act) :=
  iff_mirrored.mpr (.lift act)

theorem convert {ε : Type} (blame : ε → InvokeFailure) (act : ExceptT ε EngineM α) :
    Alike p p' inv (FrameM.convert blame act) (FrameM.convert blame act) :=
  iff_mirrored.mpr (.convert fun _ _ _ _ => trivial)

theorem modify {change : Frame → Frame} (plan : ∀ f, (change f).plan = f.plan)
    (same : ∀ f, change (f.onPlan p') = (change f).onPlan p') (kept : ∀ f, inv f → inv (change f)) :
    Alike p p' inv (modifyThe Frame change) (modifyThe Frame change) :=
  iff_mirrored.mpr (.modify (fun f _ => same f) fun f holds => ⟨(plan f).trans holds.1, kept f holds.2⟩)

theorem update (i : Nat) (change : Binding → Binding) (kept : ∀ f, inv f → inv (f.update i change)) :
    Alike p p' inv (FrameM.update i change) (FrameM.update i change) :=
  modify (fun _ => rfl) (fun _ => rfl) kept

theorem tryCatch {act act' : FrameM α} {handler : InvokeFailure → FrameM α} (first : Alike p p' inv act act')
    (later : ∀ e, Alike p p' inv (handler e) (handler e)) :
    Alike p p' inv (MonadExcept.tryCatch act handler) (MonadExcept.tryCatch act' handler) :=
  iff_mirrored.mpr (.tryCatch (iff_mirrored.mp first) fun e _ => iff_mirrored.mp (later e))

theorem forM {items items' : List β} {act act' : β → FrameM Unit}
    (each : List.Forall₂ (fun x x' => Alike p p' inv (act x) (act' x')) items items') :
    Alike p p' inv (items.forM act) (items'.forM act') :=
  iff_mirrored.mpr (.forM (each.imp fun _ _ => iff_mirrored.mp))

end FrameM.Alike

namespace Plan.Reflagged

variable {flags : Nat → Bool} {p p' : Plan} (h : Reflagged flags p p')

include h

theorem signature : p'.signature = p.signature.flagged flags := by
  rw [Plan.signature, h.descriptor]
  rfl

theorem name : p'.name = p.name := by
  rw [Plan.name, h.signature]
  rfl

theorem parameter? (i : Nat) : p'.parameter? i = (p.parameter? i).map fun q => q.flagged (flags q.index) := by
  rw [Plan.parameter?, h.parameters, List.getElem?_map]
  rfl

theorem requested (l : Nat) (arguments : List Value) : p'.requested l arguments = p.requested l arguments := by
  unfold Plan.requested
  rw [h.parameter?]
  cases p.parameter? l <;> rfl

theorem bufferSize (q : Parameter) (arguments : List Value) : p'.bufferSize q arguments = p.bufferSize q arguments := by
  unfold Plan.bufferSize
  simp only [h.requested]

theorem lengthSlot (l count : Nat) :
    p'.lengthSlot l count = (p.lengthSlot l count).map fun (q, slot) => (q.flagged (flags q.index), slot) := by
  unfold Plan.lengthSlot
  rw [h.parameter?]
  cases p.parameter? l with
  | none => rfl
  | some q =>
      have type : (q.flagged (flags q.index)).type = q.type := rfl
      simp only [Option.map_some, type]
      cases encodeLength count q.type <;> rfl

end Plan.Reflagged

/-! ## Building -/

namespace FrameM

open Ferry.Frame

variable {flags : Nat → Bool} {p p' : Plan} (h : p.Reflagged flags p') {q : Parameter} {arguments : List Value}

theorem buildParameter_flagged {flag : Bool}
    (same : q.handling ≠ .hidden → q.direction = .output → q.callerAllocates = flag) :
    buildParameter arguments (q.flagged flag) = buildParameter arguments q := by
  by_cases visible : q.handling ≠ .hidden ∧ q.direction = .output
  · rw [q.flagged_self (same visible.1 visible.2)]
  · have hidden : (q.flagged flag).isHidden = q.isHidden := rfl
    have direction : (q.flagged flag).direction = q.direction := rfl
    unfold buildParameter
    rw [hidden, direction]
    by_cases gone : q.isHidden = true
    · simp only [gone, if_true]
    · have supplied : q.direction ≠ .output := fun out =>
        visible ⟨by rwa [Parameter.isHidden_iff] at gone, out⟩
      simp only [gone, if_false, supplied]
      rfl

include h

theorem alike_bufferSize : Alike p p' (fun _ => True) (bufferSize q arguments) (bufferSize q arguments) := by
  intro f s r f₁ s₁ plan _ run
  rw [run_bufferSize, plan] at run
  have other := run_bufferSize (f.onPlan p') s q arguments
  rw [show (f.onPlan p').plan = p' from rfl, h.bufferSize] at other
  cases sized : p.bufferSize q arguments with
  | error e =>
      rw [sized] at run other
      cases run
      exact ⟨plan, trivial, other⟩
  | ok found =>
      rw [sized] at run other
      cases run
      exact ⟨plan, trivial, other⟩

theorem alike_reserveOutput : Alike p p' (fun _ => True) (reserveOutput q arguments) (reserveOutput q arguments) := by
  unfold reserveOutput
  split
  · refine .bind (alike_bufferSize h) fun size => .bind (.lift _) fun made => ?_
    cases made with
    | none => exact .throw _
    | some block => exact .update _ _ fun _ _ => trivial
  · exact .bind (.get_bind fun f _ _ => .update _ _ fun _ _ => trivial) fun _ => .update _ _ fun _ _ => trivial

theorem alike_passLength (l count : Nat) : Alike p p' (fun _ => True) (passLength l count) (passLength l count) := by
  intro f s r f₁ s₁ plan _ run
  rw [run_passLength, plan] at run
  have other := run_passLength (f.onPlan p') s l count
  rw [show (f.onPlan p').plan = p' from rfl, h.lengthSlot] at other
  cases passed : p.lengthSlot l count with
  | error e =>
      rw [passed] at run other
      cases run
      exact ⟨plan, trivial, other⟩
  | ok found =>
      obtain ⟨r, encoded⟩ := found
      have direction : (r.flagged (flags r.index)).direction = r.direction := rfl
      rw [passed] at run other
      simp only [Except.map, direction] at other
      cases run
      refine ⟨?_, trivial, ?_⟩
      · cases r.direction <;> exact plan
      · rw [other]
        cases r.direction <;> rfl

theorem alike_buildArray (l : Nat) (value : Value) :
    Alike p p' (fun _ => True) (buildArray q l value) (buildArray q l value) := by
  unfold buildArray
  cases q.type with
  | array element length =>
      refine .bind (.convert _ _) fun made => ?_
      exact .bind (.update _ _ fun _ _ => trivial) fun _ => alike_passLength h l made.2
  | _ => exact .throw _

theorem alike_buildCallback (closure destroy : Option Nat) (scope : Scope) (value : Value) :
    Alike p p' (fun _ => True) (buildCallback q closure destroy scope value)
      (buildCallback q closure destroy scope value) := by
  have link : ∀ (j : Option Nat) (slot : Slot), Alike p p' (fun _ => True) (j.forM fun j => setSlot j slot)
      (j.forM fun j => setSlot j slot) := fun j slot => by
    cases j with
    | none => exact .pure _
    | some j => exact .update _ _ fun _ _ => trivial
  unfold buildCallback
  cases q.type with
  | callback signature =>
      simp only
      split
      · exact .throw _
      · refine .get_bind fun f plan _ => ?_
        have length : (f.onPlan p').plan.parameters.length = f.plan.parameters.length := by
          rw [show (f.onPlan p').plan = p' from rfl, h.length, plan]
        rw [length]
        cases misplaced? f.plan.parameters.length q.index closure destroy with
        | some index => exact .throw _
        | none =>
            cases value with
            | function g =>
                exact .bind (.convert _ _) fun made => .bind (.update _ _ fun _ _ => trivial) fun _ =>
                  .bind (link _ _) fun _ => .bind (link _ _) fun _ => .update _ _ fun _ _ => trivial
            | _ =>
                simp only
                split
                · exact .update _ _ fun _ _ => trivial
                · exact .throw _
  | _ => exact .throw _

theorem alike_buildParameter (arguments : List Value) (q : Parameter) :
    Alike p p' (fun _ => True) (buildParameter arguments q) (buildParameter arguments q) := by
  have rehomes : Alike p p' (fun _ => True) (if q.direction = .both then rehome q.index else Pure.pure ())
      (if q.direction = .both then rehome q.index else Pure.pure ()) := by
    split
    · refine .get_bind fun f _ _ => .bind (.update _ _ fun _ _ => trivial) fun _ => .bind (.lift _) fun _ => ?_
      exact .get_bind fun f _ _ => .update _ _ fun _ _ => trivial
    · exact .pure _
  unfold buildParameter
  split
  · exact .pure _
  · split
    · exact alike_reserveOutput h
    · simp only
      cases q.handling with
      | hidden => exact .pure _
      | callback closure destroy scope => exact .bind (alike_buildCallback h _ _ _ _) fun _ => rehomes
      | array l => exact .bind (alike_buildArray h _ _) fun _ => rehomes
      | normal => exact .bind (.bind (.convert _ _) fun _ => .update _ _ fun _ _ => trivial) fun _ => rehomes

theorem alike_buildReceiver (receiver : Option Value) :
    Alike p p' (fun _ => True) (buildReceiver receiver) (buildReceiver receiver) := by
  refine .get_bind fun f plan _ => ?_
  have other : (f.onPlan p').plan = p' := rfl
  have container : p'.source.descriptor.container = p.source.descriptor.container := by rw [h.descriptor]; rfl
  simp only [other, plan, h.name, container]
  cases receiver with
  | none => exact .throw _
  | some value => exact .bind (.convert _ _) fun _ => .modify (fun _ => rfl) (fun _ => rfl) fun _ _ => trivial

omit h in
theorem alike_parameters {inv : Frame → Prop} {act act' : Parameter → FrameM Unit}
    (each : ∀ q ∈ p.parameters, Alike p p' inv (act q) (act' (q.flagged (flags q.index))))
    (parameters : p'.parameters = p.parameters.map fun q => q.flagged (flags q.index)) :
    Alike p p' inv (p.parameters.forM act) (p'.parameters.forM act') := by
  rw [parameters]
  refine .forM ?_
  rw [List.forall₂_map_right_iff, List.forall₂_same]
  exact each

theorem alike_build (same : ∀ q ∈ p.parameters, q.handling ≠ .hidden → q.direction = .output →
    q.callerAllocates = flags q.index) (receiver : Option Value) (arguments : List Value) :
    Alike p p' (fun _ => True) (build receiver arguments) (build receiver arguments) := by
  refine .get_bind fun f plan _ => ?_
  have other : (f.onPlan p').plan = p' := rfl
  simp only [other, plan, h.isMethod]
  have cells : Alike p p' (fun _ => True)
      (p.parameters.forM fun q => if q.isHidden && q.direction.isOut then passCell q.index else Pure.pure ())
      (p'.parameters.forM fun q => if q.isHidden && q.direction.isOut then passCell q.index else Pure.pure ()) := by
    refine alike_parameters (fun q _ => ?_) h.parameters
    have hidden : (q.flagged (flags q.index)).isHidden = q.isHidden := rfl
    have direction : (q.flagged (flags q.index)).direction = q.direction := rfl
    simp only [hidden, direction]
    split
    · exact .get_bind fun f _ _ => .update _ _ fun _ _ => trivial
    · exact .pure _
  have turns : Alike p p' (fun _ => True) (p.parameters.forM (buildParameter arguments))
      (p'.parameters.forM (buildParameter arguments)) := by
    refine alike_parameters (fun q hq => ?_) h.parameters
    rw [buildParameter_flagged (same q hq)]
    exact alike_buildParameter h arguments q
  split
  · exact .bind (alike_buildReceiver h receiver) fun _ => .bind cells fun _ => turns
  · exact .bind cells fun _ => turns

end FrameM

/-! ## Where the flag does not matter -/

/-- The element count of an output is read from the parameter at `l` when native code has returned. -/
def Plan.ReadsLength (p : Plan) (l : Nat) : Prop :=
  p.resultLength = some l ∨ ∃ q ∈ p.parameters, q.direction = .output ∧ q.handling = .array l

/-- Nothing depends on the flag of a parameter: it is only supplied by the caller; or it is passed both ways and is
neither an array nor a structure; or it is hidden and no element count is read from it afterwards. -/
def Plan.Indifferent (p : Plan) (q : Parameter) : Prop :=
  q.direction = .input ∨
  (q.handling ≠ .hidden ∧ q.direction = .both ∧ (∀ element length, q.type ≠ .array element length) ∧
    ∀ layout, q.type ≠ .struct layout) ∨
  (q.handling = .hidden ∧ ¬p.ReadsLength q.index ∧ (q.direction = .output → p.signature.lengthOf? q.index = none))

/-- Two plans that differ only in flags on which nothing depends. -/
structure Plan.Twins (flags : Nat → Bool) (p p' : Plan) : Prop where
  reflagged : p.Reflagged flags p'
  coherent : p.Coherent
  indifferent : ∀ q ∈ p.parameters, q.callerAllocates ≠ flags q.index → p.Indifferent q

namespace Plan.Twins

variable {flags : Nat → Bool} {p p' : Plan} (h : Twins flags p p') {f : Frame} {q : Parameter}

include h

theorem flag_of_output (hq : q ∈ p.parameters) (visible : q.handling ≠ .hidden) (out : q.direction = .output) :
    q.callerAllocates = flags q.index := by
  by_contra differ
  rcases h.indifferent q hq differ with input | ⟨-, both, -⟩ | ⟨hidden, -⟩
  · rw [out] at input
    cases input
  · rw [out] at both
    cases both
  · exact visible hidden

/-- A parameter from which an element count is read is hidden, or only supplied by the caller. -/
theorem input_of_visible {l : Nat} (reads : p.ReadsLength l) {r : Parameter} (found : p.parameters[l]? = some r)
    (visible : r.handling ≠ .hidden) : r.direction = .input := by
  rcases reads with result | ⟨q, hq, -, linked⟩
  · obtain ⟨x, at_l, hidden⟩ := h.coherent.lengthHidden l result
    rw [found] at at_l
    cases at_l
    exact absurd hidden visible
  · exact h.coherent.input_of_sizing hq linked found visible

theorem currentLength_eq {l : Nat} (plan : f.plan = p) (reads : p.ReadsLength l) :
    (f.onPlan p').currentLength l = f.currentLength l := by
  have other : (f.onPlan p').plan = p' := rfl
  unfold Frame.currentLength
  rw [other, plan, h.reflagged.parameter?]
  cases found : p.parameter? l with
  | none => rfl
  | some r =>
      have at_l : p.parameters[l]? = some r := found
      have index := h.coherent.index l r at_l
      have same : r.callerAllocates = flags r.index ∨ r.direction = .input := by
        by_contra neither
        obtain ⟨differ, supplied⟩ := not_or.mp neither
        rcases h.indifferent r (List.mem_of_getElem? at_l) differ with input | ⟨visible, -⟩ | ⟨-, unread, -⟩
        · exact supplied input
        · exact supplied (h.input_of_visible reads at_l visible)
        · exact unread (index ▸ reads)
      rcases same with same | input
      · simp only [Option.map_some, r.flagged_self same]
        rfl
      · have current : (f.onPlan p').current (r.flagged (flags r.index)) = f.current r := by
          have direction : (r.flagged (flags r.index)).direction = .input := input
          simp only [Frame.current, direction, input, Direction.isOut, Bool.false_and, Bool.false_eq_true, if_false]
          rfl
        simp only [Option.map_some, current]
        rfl

/-! ## Reclaiming -/

/-- The arrays of the caller that are built have an element count. -/
def Known (p : Plan) (f : Frame) : Prop :=
  ∀ q ∈ p.parameters, ∀ l, q.handling = .array l → q.direction ≠ .output → (f.binding q.index).built = true →
    (f.binding q.index).count ≠ none

theorem releaseParameter_eq (plan : f.plan = p) (known : Known p f) (hq : q ∈ p.parameters) :
    (f.onPlan p').releaseParameter (q.flagged (flags q.index)) = f.releaseParameter q := by
  have handling : (q.flagged (flags q.index)).handling = q.handling := rfl
  have binding : (f.onPlan p').binding (q.flagged (flags q.index)).index = f.binding q.index := rfl
  by_cases out : q.handling ≠ .hidden ∧ q.direction = .output
  · -- the flag of a visible output is the same
    rw [q.flagged_self (h.flag_of_output hq out.1 out.2)]
    unfold Frame.releaseParameter
    have same : (f.onPlan p').binding q.index = f.binding q.index := rfl
    rw [same]
    cases handling : q.handling with
    | array l =>
        have reads : p.ReadsLength l := Or.inr ⟨q, hq, out.2, handling⟩
        have count : (f.onPlan p').currentLength? l = f.currentLength? l := by
          unfold Frame.currentLength?
          rw [h.currentLength_eq plan reads]
        have array : (f.onPlan p').releaseArray q l = f.releaseArray q l := by
          unfold Frame.releaseArray
          rw [same, count]
          rfl
        simp only [array]
    | _ => rfl
  · unfold Frame.releaseParameter
    rw [handling, binding]
    by_cases built : (f.binding q.index).built = true
    · rw [if_pos built, if_pos built]
      cases handling : q.handling with
      | hidden => rfl
      | callback closure destroy scope => rfl
      | normal =>
          have supplied : q.direction ≠ .output := fun direction => out ⟨by simp [handling], direction⟩
          have supplied' : (q.flagged (flags q.index)).direction ≠ .output := supplied
          simp only [Frame.releaseValue, supplied, supplied', decide_false, Bool.false_and, Bool.false_eq_true, if_false]
          rfl
      | array l =>
          have supplied : q.direction ≠ .output := fun direction => out ⟨by simp [handling], direction⟩
          have supplied' : (q.flagged (flags q.index)).direction ≠ .output := supplied
          have type : (q.flagged (flags q.index)).type = q.type := rfl
          simp only [Frame.releaseArray, type, binding]
          cases q.type with
          | array element length =>
              cases count : (f.binding q.index).count with
              | none => exact absurd count (known q hq l handling supplied built)
              | some n =>
                  simp only [supplied, supplied', decide_false, Bool.false_and, Bool.false_eq_true, if_false]
                  rfl
          | _ => rfl
    · rw [if_neg built, if_neg built]

theorem reclaim_eq (plan : f.plan = p) (known : Known p f) : (f.onPlan p').reclaim = f.reclaim := by
  have other : (f.onPlan p').plan = p' := rfl
  have parameters : ((f.onPlan p').plan.parameters.forM (f.onPlan p').releaseParameter : EngineM Unit) =
      f.plan.parameters.forM f.releaseParameter := by
    rw [other, plan, h.reflagged.parameters]
    have sub : ∀ items : List Parameter, (∀ q ∈ items, q ∈ p.parameters) →
        ((items.map fun q => q.flagged (flags q.index)).forM (f.onPlan p').releaseParameter : EngineM Unit) =
          items.forM f.releaseParameter := by
      intro items
      induction items with
      | nil => exact fun _ => rfl
      | cons q rest ih =>
          intro sub
          obtain ⟨hq, sub⟩ := List.forall_mem_cons.mp sub
          have first := h.releaseParameter_eq plan known hq
          exact congrArg₂ (fun (x : EngineM Unit) (y : EngineM Unit) => x >>= fun _ => y) first (ih sub)
    exact sub p.parameters fun _ hq => hq
  have result : (f.onPlan p').releaseReturn = f.releaseReturn := by
    funext slot
    unfold Frame.releaseReturn
    have signature : (f.onPlan p').plan.signature.result = f.plan.signature.result ∧
        (f.onPlan p').plan.signature.resultTransfer = f.plan.signature.resultTransfer := by
      rw [other, plan, h.reflagged.signature]
      exact ⟨rfl, rfl⟩
    simp only [signature.1, signature.2]
    cases type : f.plan.signature.result with
    | array element length =>
        have count : (f.onPlan p').returnedCount = f.returnedCount := rfl
        simp only [count, other, h.reflagged.resultLength, plan]
        cases f.returnedCount with
        | some n => rfl
        | none =>
            cases shown : p.resultLength with
            | none => rfl
            | some l =>
                simp only [Frame.currentLength?, h.currentLength_eq plan (Or.inl shown)]
    | _ => rfl
  unfold Frame.reclaim
  rw [parameters, result]
  rfl

/-! ## The frame -/

theorem fresh?_eq (s : Engine) :
    Frame.fresh? p' s = ((Frame.fresh? p s).1.map (·.onPlan p'), (Frame.fresh? p s).2) := by
  have empty : ∀ cells failure, Frame.empty p' cells failure = (Frame.empty p cells failure).onPlan p' := by
    intro cells failure
    simp only [Frame.empty, Frame.onPlan, h.reflagged.parameters, List.map_map]
    rfl
  rw [Frame.fresh?_eq, Frame.fresh?_eq, h.reflagged.length]
  split
  · rfl
  · rw [empty]
    rfl

theorem prepare_eq (receiver : Option Value) (arguments : List Value) (s : Engine) :
    p'.prepare receiver arguments s =
      ((p.prepare receiver arguments s).1.map (·.onPlan p'), (p.prepare receiver arguments s).2) := by
  unfold Plan.prepare
  rw [h.reflagged.inputs]
  by_cases few : arguments.length < p.inputs
  · rw [if_pos few, if_pos few]
    rfl
  · rw [if_neg few, if_neg few]
    simp only [bind, StateT.bind, h.fresh?_eq]
    rcases fresh : Frame.fresh? p s with ⟨_ | f₀, s₀⟩
    · rfl
    · have plan : f₀.plan = p := by rw [(Frame.fresh?_some fresh).1]; rfl
      rcases built : f₀.run (FrameM.build receiver arguments) s₀ with ⟨⟨r, f⟩, s₁⟩
      obtain ⟨plan', -, same⟩ := FrameM.alike_build h.reflagged
        (fun q hq visible out => h.flag_of_output hq visible out) receiver arguments f₀ s₀ r f s₁ plan trivial built
      obtain ⟨-, counted⟩ := Frame.counted_of_build h.coherent fresh built
      have known : Known p f := fun q hq l linked supplied done => by
        rw [counted q hq l linked supplied done]
        simp
      simp only [Option.map_some, StateT.bind, same, built]
      cases r with
      | error e =>
          show ((.error e, ((f.onPlan p').reclaim s₁).2) : Except InvokeFailure Frame × Engine) = (.error e, (f.reclaim s₁).2)
          rw [h.reclaim_eq plan' known]
      | ok u => rfl

/-! ## Collecting -/

/-- What is passed both ways is passed by the address of its cell, and the arrays of the caller have an element
count. -/
structure Rehomed (p : Plan) (f : Frame) : Prop where
  slot : ∀ q ∈ p.parameters, q.handling ≠ .hidden → q.direction = .both →
    (f.binding q.index).slot = .ofAddress (f.cell q.index)
  count : ∀ q ∈ p.parameters, ∀ l, q.handling = .array l → q.direction ≠ .output → (f.binding q.index).count ≠ none

omit h in
theorem Rehomed.update (rehomed : Rehomed p f) (i : Nat) {change : Binding → Binding}
    (slot : ∀ b, (change b).slot = b.slot) (count : ∀ b, b.count ≠ none → (change b).count ≠ none) :
    Rehomed p (f.update i change) where
  slot q hq visible both := by
    rw [Frame.field_update slot f i q.index, Frame.cell_update]
    exact rehomed.slot q hq visible both
  count q hq l linked supplied := by
    rcases Frame.binding_update_cases f i q.index change with same | ⟨-, same⟩
    · rw [same]
      exact rehomed.count q hq l linked supplied
    · rw [same]
      exact count _ (rehomed.count q hq l linked supplied)

theorem alike_currentLength {l : Nat} (reads : p.ReadsLength l) (blame : MarshalError → InvokeFailure) {inv : Frame → Prop}
    (f : Frame) (plan : f.plan = p) : FrameM.Alike p p' inv (FrameM.convert blame (f.currentLength l))
      (FrameM.convert blame ((f.onPlan p').currentLength l)) := by
  rw [h.currentLength_eq plan reads]
  exact .convert _ _

theorem alike_collectReturn : FrameM.Alike p p' (Rehomed p) FrameM.collectReturn FrameM.collectReturn := by
  refine .get_bind fun f plan _ => ?_
  have other : (f.onPlan p').plan = p' := rfl
  have returned : (f.onPlan p').returned = f.returned := rfl
  have result : (p.signature.flagged flags).result = p.signature.result := rfl
  have transfer : (p.signature.flagged flags).resultTransfer = p.signature.resultTransfer := rfl
  simp only [other, returned, plan, h.reflagged.signature, h.reflagged.resultLength, result, transfer]
  split
  · rename_i element length index type shown
    refine .bind (h.alike_currentLength (Or.inl shown) _ f plan) fun count => ?_
    refine .bind (.modify (fun _ => rfl) (fun _ => rfl) fun _ rehomed => ?_) fun _ => .convert _ _
    exact ⟨rehomed.slot, rehomed.count⟩
  · exact .convert _ _

theorem alike_settledCount (hq : q ∈ p.parameters) {l : Nat} (linked : q.handling = .array l)
    (isOut : q.direction.isOut = true) :
    FrameM.Alike p p' (Rehomed p) (FrameM.settledCount q l) (FrameM.settledCount q l) := by
  refine .get_bind fun f plan rehomed => ?_
  have binding : (f.onPlan p').binding q.index = f.binding q.index := rfl
  simp only [binding]
  split
  · exact .pure _
  · rename_i unsettled
    have out : q.direction = .output := by
      cases direction : q.direction with
      | output => rfl
      | input =>
          rw [direction] at isOut
          cases isOut
      | both =>
          cases count : (f.binding q.index).count with
          | none => exact absurd count (rehomed.count q hq l linked (by simp [direction]))
          | some n => exact absurd count (unsettled n direction)
    refine .bind (h.alike_currentLength (Or.inr ⟨q, hq, out, linked⟩) _ f plan) fun count => ?_
    refine .bind (.update _ _ fun f rehomed => ?_) fun _ => .pure _
    exact rehomed.update q.index (fun _ => rfl) fun _ _ => by simp

theorem flag_of_array (hq : q ∈ p.parameters) {l : Nat} (linked : q.handling = .array l)
    (isOut : q.direction.isOut = true) : q.callerAllocates = flags q.index := by
  by_contra differ
  obtain ⟨element, type⟩ := h.coherent.typed hq linked
  rcases h.indifferent q hq differ with input | ⟨-, -, other, -⟩ | ⟨hidden, -⟩
  · rw [input] at isOut
    cases isOut
  · exact other _ _ type
  · rw [linked] at hidden
    cases hidden

theorem alike_collectArray (hq : q ∈ p.parameters) {l : Nat} (linked : q.handling = .array l)
    (isOut : q.direction.isOut = true) : FrameM.Alike p p' (Rehomed p) (FrameM.collectArray q l)
      (FrameM.collectArray (q.flagged (flags q.index)) l) := by
  rw [q.flagged_self (h.flag_of_array hq linked isOut)]
  unfold FrameM.collectArray
  cases q.type with
  | array element length =>
      refine .bind (h.alike_settledCount hq linked isOut) fun count => .get_bind fun f _ _ => ?_
      simp only
      split
      · exact .bind (.pure _) fun _ => .convert _ _
      · exact .bind (.lift _) fun _ => .convert _ _
  | _ => exact .throw _

omit h in
/-- An output that is neither an array nor a structure is the value in the cell, whatever the flag says, if the cell is
what was passed. -/
theorem run_collectValue (f : Frame) (s : Engine) (passed : (f.binding q.index).slot = .ofAddress (f.cell q.index))
    (array : ∀ element length, q.type ≠ .array element length) (struct : ∀ layout, q.type ≠ .struct layout) :
    f.run (FrameM.collectValue q) s =
      f.run (FrameM.convert (.ofResult q.name)
        (fromNative q.type (s.memory.load .u64 (f.cell q.index)) q.transfer)) s := by
  have loaded : ∀ t a, f.run (liftM (EngineM.load t a) >>= fun slot =>
      FrameM.convert (.ofResult q.name) (fromNative q.type slot q.transfer)) s =
      f.run (FrameM.convert (.ofResult q.name) (fromNative q.type (s.memory.load t a) q.transfer)) s :=
    fun t a => Frame.run_lift_bind _ _ f s
  have address : (f.binding q.index).slot.address = f.cell q.index := by rw [passed]; rfl
  unfold FrameM.collectValue
  by_cases given : q.callerAllocates = true
  · rw [if_pos given, ← fromNative_load, ← address, ← loaded]
    unfold FrameM.collectBuffer
    rw [Frame.run_bind, Frame.run_get]
    cases type : q.type with
    | array element length => exact absurd type (array element length)
    | struct layout => exact absurd type (struct layout)
    | _ => rfl
  · rw [if_neg given, ← loaded, Frame.run_bind, Frame.run_get]
    rfl

theorem alike_collectValue (hq : q ∈ p.parameters) (normal : q.handling = .normal) (isOut : q.direction.isOut = true) :
    FrameM.Alike p p' (Rehomed p) (FrameM.collectValue q) (FrameM.collectValue (q.flagged (flags q.index))) := by
  by_cases same : q.callerAllocates = flags q.index
  · rw [q.flagged_self same]
    unfold FrameM.collectValue
    split
    · refine .get_bind fun f _ _ => ?_
      have binding : (f.onPlan p').binding q.index = f.binding q.index := rfl
      simp only [binding]
      cases q.type with
      | struct layout =>
          cases (f.binding q.index).buffer with
          | none => exact .pure _
          | some block =>
              refine .bind (.update _ _ fun f rehomed => ?_) fun _ => .bind (.lift _) fun _ => .pure _
              exact rehomed.update q.index (fun _ => rfl) fun _ known => known
      | array element length => exact .convert _ _
      | _ => exact .bind (.lift _) fun _ => .convert _ _
    · exact .get_bind fun f _ _ => .bind (.lift _) fun _ => .convert _ _
  · rcases h.indifferent q hq same with input | ⟨visible, both, array, struct⟩ | ⟨hidden, -⟩
    · rw [input] at isOut
      cases isOut
    · intro f s r f₁ s₁ plan rehomed run
      have passed := rehomed.slot q hq visible both
      rw [run_collectValue f s passed array struct] at run
      have other := run_collectValue (q := q.flagged (flags q.index)) (f.onPlan p') s passed array struct
      rw [other]
      exact FrameM.Alike.convert _ _ f s r f₁ s₁ plan rehomed run
    · rw [normal] at hidden
      cases hidden

theorem alike_collectParameter (hq : q ∈ p.parameters) : FrameM.Alike p p' (Rehomed p) (FrameM.collectParameter q)
    (FrameM.collectParameter (q.flagged (flags q.index))) := by
  have direction : (q.flagged (flags q.index)).direction = q.direction := rfl
  have handling : (q.flagged (flags q.index)).handling = q.handling := rfl
  unfold FrameM.collectParameter
  rw [direction, handling]
  by_cases isOut : q.direction.isOut = true
  · simp only [isOut, Bool.not_true, Bool.false_eq_true, if_false]
    cases handling : q.handling with
    | hidden => exact .pure _
    | callback closure destroy scope => exact .pure _
    | array l => exact .bind (h.alike_collectArray hq handling isOut) fun _ => .pure _
    | normal => exact .bind (h.alike_collectValue hq handling isOut) fun _ => .pure _
  · simp only [isOut, Bool.not_false, if_true]
    exact .pure _

theorem alike_collectParameters (items : List Parameter) (sub : ∀ q ∈ items, q ∈ p.parameters) (found : List Value) :
    FrameM.Alike p p' (Rehomed p) (FrameM.collectParameters items found)
      (FrameM.collectParameters (items.map fun q => q.flagged (flags q.index)) found) := by
  induction items generalizing found with
  | nil => exact .pure _
  | cons q rest ih =>
      obtain ⟨hq, sub⟩ := List.forall_mem_cons.mp sub
      refine .bind (.tryCatch (h.alike_collectParameter hq) fun e => ?_) fun output => ih sub _
      exact .bind (.lift _) fun _ => .throw _

theorem alike_collect : FrameM.Alike p p' (Rehomed p) FrameM.collect FrameM.collect := by
  have taken : FrameM.Alike p p' (Rehomed p) FrameM.takeFailure FrameM.takeFailure := by
    refine .get_bind fun f _ _ => .bind (.lift _) fun report => ?_
    split
    · exact .pure _
    · exact .bind (.lift _) fun _ => .bind (.lift _) fun _ => .pure _
  refine .bind taken fun failure => ?_
  cases failure with
  | some failure => exact .throw _
  | none =>
      refine .get_bind fun f plan _ => ?_
      have other : (f.onPlan p').plan = p' := rfl
      have skips : (p.signature.flagged flags).skipsResult = p.signature.skipsResult := rfl
      simp only [other, plan, h.reflagged.signature, skips]
      have rest : ∀ first, FrameM.Alike p p' (Rehomed p)
          (do return FrameM.composeOutputs (← FrameM.collectParameters (← getThe Frame).plan.parameters first))
          (do return FrameM.composeOutputs (← FrameM.collectParameters (← getThe Frame).plan.parameters first)) := by
        refine fun first => .get_bind fun f plan _ => ?_
        have other : (f.onPlan p').plan = p' := rfl
        simp only [other, plan, h.reflagged.parameters]
        exact .bind (h.alike_collectParameters _ (fun _ hq => hq) first) fun _ => .pure _
      split
      · exact .bind (.pure _) rest
      · rw [map_eq_pure_bind]
        exact .bind (.bind h.alike_collectReturn fun _ => .pure _) rest

/-! ## Native code -/

theorem slots_eq (plan : f.plan = p) : (f.onPlan p').slots = f.slots := by
  have other : (f.onPlan p').plan = p' := rfl
  unfold Frame.slots
  rw [other, plan, h.reflagged.isMethod, h.reflagged.canThrow]
  rfl

theorem execute_eq (plan : f.plan = p) {M N : Machine World} {r : Except InvokeFailure Unit} {g : Frame}
    (run : f.execute host M = ((r, g), N)) : (f.onPlan p').execute host M = ((r, g.onPlan p'), N) := by
  obtain ⟨d, tokens, handed⟩ := Frame.run_handOverDurable f M.engine
  have handed' : (f.onPlan p').handOverDurable M.engine =
      ((f.withoutDurable.onPlan p', tokens), { M.engine with durable := d }) := by
    have same : (f.onPlan p').handOverDurable M.engine =
        (((f.handOverDurable M.engine).1.1.onPlan p', (f.handOverDurable M.engine).1.2),
          (f.handOverDurable M.engine).2) := rfl
    rw [same, handed]
  have plan' : f.withoutDurable.plan = p := plan
  have native : (f.withoutDurable.onPlan p').plan.native = f.withoutDurable.plan.native := by
    rw [plan']
    exact h.reflagged.native
  have slots := h.slots_eq plan'
  rcases called : f.withoutDurable.plan.native.call host f.withoutDurable.slots ⟨{ M.engine with durable := d }, M.world⟩
    with ⟨outcome, N'⟩
  cases outcome with
  | error e =>
      rw [Frame.execute_refused (by rw [handed]; exact called), handed] at run
      rw [Frame.execute_refused (by rw [handed', native, slots]; exact called), handed']
      cases run
      rfl
  | ok returned =>
      rw [Frame.execute_returned (by rw [handed]; exact called), handed] at run
      rw [Frame.execute_returned (by rw [handed', native, slots]; exact called), handed']
      cases run
      rfl

theorem rehomed_of_prepare (obtained : p.Obtained) {receiver : Option Value} {arguments : List Value} {s s' : Engine}
    (built : p.prepare receiver arguments s = (.ok f, s')) : Rehomed p f where
  slot q hq visible both := by
    cases (laidOut_of_prepare obtained built).visible q.index q (h.coherent.inside hq) visible with
    | both _ _ _ passed => exact passed
    | input direction => rw [both] at direction; cases direction
    | cell direction => rw [both] at direction; cases direction
    | buffer direction => rw [both] at direction; cases direction
  count q hq l linked supplied := by
    have count := Frame.builtCount_of_prepare h.coherent built hq linked
    generalize (f.binding q.index).count = settled at count
    cases count with
    | supplied => simp
    | open_ out => exact absurd out supplied
    | asked => simp

omit h in
theorem Rehomed.known (rehomed : Rehomed p f) : Known p f :=
  fun q hq l linked supplied _ => rehomed.count q hq l linked supplied

omit h in
theorem Rehomed.entered (rehomed : Rehomed p f) {g : Frame} (entered : Frame.Entered f g) : Rehomed p g where
  slot q hq visible both := by
    rw [entered.binding, Frame.cell, entered.cells]
    exact rehomed.slot q hq visible both
  count q hq l linked supplied := by
    rw [entered.binding]
    exact rehomed.count q hq l linked supplied

/-- The steps from the built frame to the one that is reclaimed, and reclaiming it, are the same. -/
theorem carryOut_eq (plan : f.plan = p) (rehomed : Rehomed p f) {settings : InvokeSettings} {M N : Machine World}
    {r : Except InvokeFailure Value} {g : Frame} (carried : Plan.carryOut host settings f M = ((r, g), N)) :
    Plan.carryOut host settings (f.onPlan p') M = ((r, g.onPlan p'), N) ∧ (g.onPlan p').reclaim = g.reclaim := by
  have other : (f.onPlan p').plan = p' := rfl
  have entry : LogEntry.callStarted (f.onPlan p').plan.name (f.onPlan p').plan.slotCount =
      .callStarted f.plan.name f.plan.slotCount := by
    rw [other, h.reflagged.name, h.reflagged.slotCount, plan]
  rcases entered : f.execute host ⟨M.engine.noted settings (.callStarted f.plan.name f.plan.slotCount), M.world⟩
    with ⟨⟨outcome, k⟩, L⟩
  have left := Frame.entered_of_execute entered
  have plan_k : k.plan = p := left.plan.trans plan
  have entered' := h.execute_eq plan entered
  rw [← entry] at entered'
  cases outcome with
  | error e =>
      rw [Plan.carryOut_refused entered] at carried
      rw [Plan.carryOut_refused entered']
      cases carried
      exact ⟨rfl, h.reclaim_eq plan_k (rehomed.entered left).known⟩
  | ok u =>
      rw [Plan.carryOut_entered entered] at carried
      rw [Plan.carryOut_entered entered']
      have name : (k.onPlan p').plan.name = k.plan.name := by
        rw [show (k.onPlan p').plan = p' from rfl, h.reflagged.name, plan_k]
      rw [name]
      rcases collected : k.run FrameM.collect (L.engine.noted settings (.callReturned k.plan.name)) with ⟨⟨v, g'⟩, S⟩
      obtain ⟨plan_g, rehomed_g, same⟩ := h.alike_collect k _ v g' S plan_k (rehomed.entered left) collected
      rw [collected] at carried
      rw [same]
      cases carried
      exact ⟨rfl, h.reclaim_eq plan_g rehomed_g.known⟩

theorem execute_plan_eq (obtained : p.Obtained) (host : Host World) (settings : InvokeSettings)
    (receiver : Option Value) (arguments : List Value) (M : Machine World) :
    p'.execute host settings receiver arguments M = p.execute host settings receiver arguments M := by
  have check : p'.typeCheck arguments = p.typeCheck arguments := by
    rw [Plan.typeCheck_eq, Plan.typeCheck_eq, h.reflagged.inputs, h.reflagged.parameters, List.forM_eq_forM,
      List.forM_map]
    rfl
  have admits : p'.Admits settings arguments ↔ p.Admits settings arguments := by
    unfold Plan.Admits
    rw [check]
  have built' := h.prepare_eq receiver arguments M.engine
  by_cases admitted : p.Admits settings arguments
  · rcases built : p.prepare receiver arguments M.engine with ⟨result, s⟩
    rw [built] at built'
    cases result with
    | error e => rw [Plan.execute_unbuilt admitted built, Plan.execute_unbuilt (admits.mpr admitted) built']
    | ok f =>
        have plan := Frame.plan_of_prepare h.coherent built
        rcases carried : Plan.carryOut host settings f ⟨s, M.world⟩ with ⟨⟨r, g⟩, N⟩
        obtain ⟨carried', reclaimed⟩ := h.carryOut_eq plan (h.rehomed_of_prepare obtained built) carried
        rw [Plan.execute_built admitted built carried, Plan.execute_built (admits.mpr admitted) built' carried', reclaimed]
  · unfold Plan.Admits at admitted
    obtain ⟨checks, refused⟩ := Classical.not_imp.mp admitted
    cases checked : p.typeCheck arguments with
    | ok u => exact absurd checked refused
    | error e =>
        unfold Plan.execute
        rw [if_pos checks, if_pos checks, check, checked]

end Plan.Twins

/-- Where nothing depends on the flags in which two descriptors differ, both compile on a platform, and every call of the one is the
same as of the other: native code is entered with the same arguments, the result and what is left of the machine are
the same. -/
theorem sameCalls_of_flagged {source source' : DescriptorRef} {flags : Nat → Bool}
    (differ : source'.descriptor = source.descriptor.flagged flags) {p : Plan} {s s₁ : Engine}
    (compiled : (Plan.compile source).run s = (.ok p, s₁))
    (indifferent : ∀ q ∈ p.parameters, q.callerAllocates ≠ flags q.index → p.Indifferent q) :
    (∃ p', (Plan.compile source').run s = (.ok p', s₁)) ∧
      ∀ p' t t', t.platform = s.platform → (Plan.compile source').run t = (.ok p', t') →
        ∀ {World : Type} (host : Host World) (settings : InvokeSettings) (receiver : Option Value)
          (arguments : List Value) (M : Machine World),
          p'.execute host settings receiver arguments M = p.execute host settings receiver arguments M := by
  have obtained : p.Obtained := .compiled source _ _ compiled
  have coherent := obtained.coherent
  have signature : p.signature = source.descriptor.signature := by
    rw [Plan.signature, Plan.source_of_compile compiled]
  have overlooks : ∀ i < source.descriptor.params.length, source.descriptor.signature.Overlooks flags i := by
    intro i _ x found
    rw [← signature, ← coherent.listed, List.getElem?_map] at found
    obtain ⟨q, at_i, rfl⟩ := Option.map_eq_some_iff.mp found
    have index := coherent.index i q at_i
    by_cases same : q.callerAllocates = flags q.index
    · exact Or.inl (index ▸ same)
    · right
      rcases indifferent q (List.mem_of_getElem? at_i) same with input | ⟨-, both, -⟩ | ⟨-, -, unlinked⟩
      · exact Or.inl fun out => by cases input.symm.trans out
      · exact Or.inl fun out => by cases both.symm.trans out
      · by_cases out : q.direction = .output
        · exact Or.inr (by rw [← signature, ← index]; exact unlinked out)
        · exact Or.inl out
  obtain ⟨compiles, reflagged⟩ := Plan.reflagged_of_compile differ overlooks compiled
  refine ⟨compiles, fun p' t t' platform compiled' World host settings receiver arguments M => ?_⟩
  have twins : p.Twins flags p' := ⟨reflagged p' t t' platform compiled', coherent, indifferent⟩
  exact twins.execute_plan_eq obtained host settings receiver arguments M

/-- A function that changes a list, its length and a number. -/
def adjusting : DescriptorRef where
  id := 0
  descriptor := {
    symbol := "adjust", receiver := none, isConstructor := false, entry := .address 0x1000
    signature := {
      namespaceName := "Sample", name := "adjust", result := .void, resultTransfer := .nothing, skipResult := false
      mayReturnNull := false, canThrow := false
      params := [
        ⟨"items", .array .int32 (.parameter 1), .both, .nothing, false, false, none, none, .call⟩,
        ⟨"count", .uint32, .both, .nothing, false, false, none, none, .call⟩,
        ⟨"factor", .int32, .both, .nothing, false, false, none, none, .call⟩] } }

/-- The flags of the length and of the number are set. -/
def adjustingFlags (i : Nat) : Bool :=
  decide (i = 1 ∨ i = 2)

def adjustingArguments : List Value := [.array [.int 4, .int 7], .int 3]

/-- With or without the flags, the call yields the list and the number, though the length was shortened. -/
theorem sameCalls_of_flagged_adjusting : ∃ (p p' : Plan) (s₁ : Engine),
    (Plan.compile adjusting).run .initial = (.ok p, s₁) ∧
    (Plan.compile ⟨1, adjusting.descriptor.flagged adjustingFlags⟩).run .initial = (.ok p', s₁) ∧
    p'.parameters.map (·.callerAllocates) = [false, true, true] ∧
    p'.execute shortening {} none adjustingArguments ⟨s₁, ()⟩ = p.execute shortening {} none adjustingArguments ⟨s₁, ()⟩ ∧
    ∃ v, (p.execute shortening {} none adjustingArguments ⟨s₁, ()⟩).1 = .ok v := by
  have shape : (match (Plan.compile adjusting).run .initial with
      | (.ok p, s) => decide (p.resultLength = none) && decide ((p.parameters.map fun q =>
          (q.index, q.handling, q.direction, q.callerAllocates)) =
            [(0, .array 1, .both, false), (1, .hidden, .both, false), (2, .normal, .both, false)]) &&
          (p.execute shortening {} none adjustingArguments ⟨s, ()⟩).1.isOk
      | _ => false) = true := by
    decide +kernel
  have flagged : (match (Plan.compile ⟨1, adjusting.descriptor.flagged adjustingFlags⟩).run .initial with
      | (.ok p, _) => decide (p.parameters.map (·.callerAllocates) = [false, true, true])
      | _ => false) = true := by
    decide +kernel
  obtain ⟨p, s₁, compiled⟩ := exists_ok (r := (Plan.compile adjusting).run .initial) (by decide +kernel)
  rw [compiled] at shape
  simp only [Bool.and_eq_true, decide_eq_true_eq] at shape
  obtain ⟨⟨unread, shape⟩, yields⟩ := shape
  obtain ⟨items, rest, three, first, shape⟩ := List.map_eq_cons_iff.mp shape
  obtain ⟨count, rest, rfl, second, shape⟩ := List.map_eq_cons_iff.mp shape
  obtain ⟨factor, rest, rfl, third, shape⟩ := List.map_eq_cons_iff.mp shape
  cases List.map_eq_nil_iff.mp shape
  simp only [Prod.mk.injEq] at first second third
  have listed := (Plan.Obtained.compiled adjusting _ _ compiled).coherent.listed
  rw [three, Plan.signature, Plan.source_of_compile compiled] at listed
  have type : factor.type = .int32 :=
    congrArg Param.type (List.cons.inj (List.cons.inj (List.cons.inj listed).2).2).1
  have unlinked : ¬p.ReadsLength count.index := by
    rintro (result | ⟨q, hq, out, -⟩)
    · rw [unread] at result
      cases result
    · rw [three] at hq
      simp only [List.mem_cons, List.not_mem_nil, or_false] at hq
      rcases hq with rfl | rfl | rfl
      · rw [first.2.2.1] at out; cases out
      · rw [second.2.2.1] at out; cases out
      · rw [third.2.2.1] at out; cases out
  have indifferent : ∀ q ∈ p.parameters, q.callerAllocates ≠ adjustingFlags q.index → p.Indifferent q := by
    rw [three]
    intro q hq differ
    simp only [List.mem_cons, List.not_mem_nil, or_false] at hq
    rcases hq with rfl | rfl | rfl
    · rw [first.1, first.2.2.2] at differ
      exact absurd rfl differ
    · exact Or.inr (Or.inr ⟨second.2.1, unlinked, fun out => by rw [second.2.2.1] at out; cases out⟩)
    · exact Or.inr (Or.inl ⟨by simp [third.2.1], third.2.2.1, by simp [type], by simp [type]⟩)
  obtain ⟨⟨p', compiled'⟩, same⟩ :=
    @sameCalls_of_flagged adjusting ⟨1, adjusting.descriptor.flagged adjustingFlags⟩ adjustingFlags rfl p .initial s₁
      compiled indifferent
  rw [compiled'] at flagged
  obtain ⟨v, yields⟩ : ∃ v, (p.execute shortening {} none adjustingArguments ⟨s₁, ()⟩).1 = .ok v := by
    cases result : (p.execute shortening {} none adjustingArguments ⟨s₁, ()⟩).1 with
    | error e =>
        rw [result] at yields
        cases yields
    | ok v => exact ⟨v, rfl⟩
  exact ⟨p, p', s₁, compiled, compiled', of_decide_eq_true flagged, same p' _ _ rfl compiled' shortening {} none
    adjustingArguments ⟨s₁, ()⟩, v, yields⟩

end Ferry
