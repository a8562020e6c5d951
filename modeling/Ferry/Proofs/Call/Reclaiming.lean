import Ferry.Proofs.Call.Carrying
import Ferry.Proofs.Call.Outputs
import Ferry.Proofs.Marshal.Counts
import Ferry.Proofs.Marshal.Parts

/-!
# What reclaiming gives up

`Frame.reclaimed` lists what is given up for a parameter when its frame ends, and `Frame.reclaimedResult` what is given
up of the return value; `reclaim_givesUp` says that it is this, with the buffers that the frame still owns. It is what
the frame carries, where native code was handed nothing: the values that native code made are left alone where they are
null or where nothing was handed over, and `Frame.Idle` says just that.
-/

set_option autoImplicit false

namespace Ferry

/-- The blocks of a failure report whose place is given: the text, and the record. -/
def Memory.reported (m : Memory) (place : UInt64) : List UInt64 :=
  let record := (m.load .pointer place).address
  if record = 0 then [] else [(m.load .pointer (record + 8)).address, record]

namespace Frame

variable {f : Frame} {s : Engine} {m m' : Memory} {q : Parameter} {L : List Resource}

/-- What releasing a parameter gives up, whatever is released before. -/
def Loses (f : Frame) (m : Memory) (q : Parameter) (L : List Resource) : Prop :=
  ∀ s : Engine, (∀ b, b ∈ s.memory.chunks ↔ b ∈ m.chunks) → s.GivesUp L (f.releaseParameter q s).2

/-- There is nothing to release in the cell or the buffer of an output. -/
def Idle (f : Frame) (m : Memory) (q : Parameter) : Prop :=
  if q.callerAllocates then
    q.transfer ≠ .everything ∨ ∀ element length, q.type = .array element length →
      ∃ n, (f.binding q.index).count = some n ∧ (element.isPointerLike = true → ∀ i < n,
        m.load element.native (elementAddress (f.binding q.index).slot.address element.native i) = .zero)
  else q.transfer = .nothing ∨ m.load .u64 (f.cell q.index) = .zero

/-! ## What length parameters show -/

/-- The element count that a length parameter shows. -/
def lengthShown (f : Frame) (m : Memory) (index : Nat) : Option Nat :=
  (f.plan.parameter? index).bind fun q => q.type.count? (f.held m q)

theorem current_eq (f : Frame) (q : Parameter) (s : Engine) : f.current q s = (f.held s.memory q, s) := by
  unfold current held
  split <;> rfl

theorem currentLength_eq (f : Frame) (index : Nat) (s : Engine) :
    (f.currentLength index s).1.toOption = f.lengthShown s.memory index ∧ (f.currentLength index s).2 = s := by
  unfold currentLength lengthShown
  cases f.plan.parameter? index with
  | none => exact ⟨rfl, rfl⟩
  | some q =>
      have run : (do
          let slot ← f.current q
          decodeLength slot q.type : MarshalM Nat) s =
          decodeLength (f.current q s).1 q.type (f.current q s).2 := rfl
      simp only [Option.bind_some]
      rw [run, current_eq]
      exact ⟨decodeLength_count _ _ _, decodeLength_reads _ _ s⟩

theorem currentLength?_eq (f : Frame) (index : Nat) (s : Engine) :
    f.currentLength? index s = (f.lengthShown s.memory index, s) :=
  Prod.ext (currentLength_eq f index s).1 (currentLength_eq f index s).2

/-! ## What is released -/

/-- What is left to release of a parameter: a slot, how deep, and who made what it refers to. Of a buffer that the
caller provides, this is the elements that were handed over. -/
def left (f : Frame) (m : Memory) (q : Parameter) : Slot × ReleaseDepth × Origin :=
  let b := f.binding q.index
  match q.direction, f.returned with
  | .input, none => (b.slot, .full, .engine)
  | .both, none => (b.engineMade, .full, .engine)
  | .input, some _ => (b.slot, .forTransfer .input q.transfer, .engine)
  | .output, _ =>
    if q.callerAllocates then (b.slot, if q.transfer = .everything then .elements else .none, .native)
    else (m.load .u64 (f.cell q.index), .forTransfer .output q.transfer, .native)
  | .both, some _ =>
    if q.transfer = .everything then (m.load .u64 (f.cell q.index), .full, .native)
    else (b.engineMade, .forTransfer .input q.transfer, .engine)

/-- The element count by which it is released, if anything but the type says one. -/
def leftCount (f : Frame) (m : Memory) (q : Parameter) : Option Nat :=
  match q.handling with
  | .array l => (f.binding q.index).count.or (f.lengthShown m l)
  | _ => if q.direction = .output && q.callerAllocates then (f.binding q.index).count else none

/-- The blocks and the callback that are given up for a parameter. -/
def reclaimed (f : Frame) (m : Memory) (q : Parameter) : List Resource :=
  if (f.binding q.index).built then
    match q.handling with
    | .hidden => []
    | .callback .. => (f.binding q.index).callback.toList.map fun c => .callback c.serial
    | _ => (q.type.released m (f.left m q).2.2 (f.left m q).2.1 (f.left m q).1 (f.leftCount m q)).map .block
  else []

theorem remainder_eq (own : (decide (q.direction = .output) && q.callerAllocates) = false) (s : Engine) :
    f.remainder q s = (f.left s.memory q, s) := by
  unfold remainder left
  cases direction : q.direction with
  | output =>
      have own : q.callerAllocates = false := by simpa [direction] using own
      simp only [own]
      rfl
  | input => cases f.returned <;> rfl
  | both =>
      cases f.returned with
      | none => rfl
      | some slot =>
          simp only
          split <;> rfl

theorem releaseBufferContents_releases {element : Ty} {length : ArrayLength} {count : Option Nat}
    (given : q.direction = .output ∧ q.callerAllocates = true) (s : Engine) :
    s.GivesUp (((Ty.array element length).released s.memory (f.left s.memory q).2.2 (f.left s.memory q).2.1
        (f.left s.memory q).1 count).map .block) (f.releaseBufferContents q element length count s).2 := by
  unfold releaseBufferContents left
  simp only [given.1, given.2, if_true]
  by_cases everything : q.transfer = .everything
  · simp only [everything, if_true]
    rw [if_pos (by rfl)]
    exact freeArray_releases element length _ count .elements .native s
  · have shallow : ReleaseDepth.forTransfer .output q.transfer ≠ .full := by
      cases transfer : q.transfer with
      | everything => exact absurd transfer everything
      | _ => decide
    rw [if_neg shallow, if_neg everything]
    have nothing : (Ty.array element length).released s.memory .native .none (f.binding q.index).slot count = [] := by
      simp [Ty.released, ReleaseDepth.coversElements, ReleaseDepth.coversContainer]
    rw [nothing]
    exact .refl s

theorem releaseValue_releases (normal : q.handling = .normal) (s : Engine) :
    s.GivesUp ((q.type.released s.memory (f.left s.memory q).2.2 (f.left s.memory q).2.1 (f.left s.memory q).1
      (f.leftCount s.memory q)).map .block) (f.releaseValue q s).2 := by
  unfold releaseValue
  by_cases given : (decide (q.direction = .output) && q.callerAllocates) = true
  · rw [if_pos given]
    have count : f.leftCount s.memory q = (f.binding q.index).count := by
      simp only [leftCount, normal]
      rw [if_pos given]
    have given : q.direction = .output ∧ q.callerAllocates = true := by simpa using given
    rw [count]
    cases type : q.type with
    | array element length => exact releaseBufferContents_releases given s
    | _ =>
        have shallow : (f.left s.memory q).2.1.coversContainer = false := by
          simp only [left, given.1, given.2, if_true]
          split <;> rfl
        simp only [Ty.released, shallow, Bool.false_eq_true, if_false]
        exact .refl s
  · have count : f.leftCount s.memory q = none := by
      simp only [leftCount, normal]
      rw [if_neg given]
    rw [if_neg given, EngineM.run_bind, remainder_eq (by simpa using given), count]
    exact freeValue_releases q.type _ _ _ s

theorem releaseArray_eq {element : Ty} {length : ArrayLength} (type : q.type = .array element length) (l : Nat)
    (s : Engine) :
    f.releaseArray q l s =
      (if (decide (q.direction = .output) && q.callerAllocates) = true then
        f.releaseBufferContents q element length ((f.binding q.index).count.or (f.lengthShown s.memory l))
      else f.remainder q >>= fun x =>
        freeArray element length x.1 ((f.binding q.index).count.or (f.lengthShown s.memory l)) x.2.1 x.2.2 :
        EngineM Unit) s := by
  unfold releaseArray
  rw [type]
  cases (f.binding q.index).count with
  | some n => rfl
  | none =>
      have shows : ∀ next : Option Nat → EngineM Unit, (f.currentLength? l >>= next) s =
          next (f.lengthShown s.memory l) s := fun next => by
        rw [EngineM.run_bind, currentLength?_eq]
      exact shows _

theorem releaseArray_releases {l : Nat} {element : Ty} {length : ArrayLength} (linked : q.handling = .array l)
    (type : q.type = .array element length) (s : Engine) :
    s.GivesUp ((q.type.released s.memory (f.left s.memory q).2.2 (f.left s.memory q).2.1 (f.left s.memory q).1
      (f.leftCount s.memory q)).map .block) (f.releaseArray q l s).2 := by
  have count : f.leftCount s.memory q = (f.binding q.index).count.or (f.lengthShown s.memory l) := by
    simp only [leftCount, linked]
  rw [releaseArray_eq type, type, count]
  split
  · rename_i given
    exact releaseBufferContents_releases (by simpa using given) s
  · rename_i own
    rw [EngineM.run_bind, remainder_eq (by simpa using own)]
    exact freeArray_releases element length _ _ _ _ s

theorem lengthShown_congr (same : ∀ b, b ∈ m.chunks ↔ b ∈ m'.chunks) (f : Frame) (index : Nat) :
    f.lengthShown m index = f.lengthShown m' index := by
  simp only [lengthShown, held, Memory.load_congr same]

theorem reclaimed_congr (same : ∀ b, b ∈ m.chunks ↔ b ∈ m'.chunks) : f.reclaimed m q = f.reclaimed m' q := by
  have left : f.left m q = f.left m' q := by simp only [Frame.left, Memory.load_congr same]
  have count : f.leftCount m q = f.leftCount m' q := by simp only [leftCount, lengthShown_congr same]
  simp only [reclaimed, left, count, released_congr same]

theorem releaseParameter_built (built : (f.binding q.index).built = true) :
    f.releaseParameter q =
      match q.handling with
      | .hidden => pure ()
      | .callback .. => (f.binding q.index).callback.forM EngineM.destroyCallback
      | .array length => f.releaseArray q length
      | .normal => f.releaseValue q := by
  unfold releaseParameter
  exact if_pos built

theorem releaseParameter_loses (coherent : f.plan.Coherent) (hq : q ∈ f.plan.parameters) :
    f.Loses m q (f.reclaimed m q) := by
  intro s same
  rw [← reclaimed_congr same]
  unfold reclaimed
  by_cases built : (f.binding q.index).built = true
  · rw [if_pos built, releaseParameter_built built]
    cases handling : q.handling with
    | hidden => exact .refl s
    | callback closure destroy scope =>
        simp only
        cases (f.binding q.index).callback with
        | none => exact .refl s
        | some c => exact EngineM.destroyCallback_givesUp c s
    | array l =>
        obtain ⟨element, type⟩ := coherent.typed hq handling
        exact releaseArray_releases handling type s
    | normal => exact releaseValue_releases handling s
  · rw [if_neg built, releaseParameter, if_neg built]
    exact .refl s

theorem loses_reclaimed (coherent : f.plan.Coherent) :
    List.Forall₂ (f.Loses m) f.plan.parameters (f.plan.parameters.map (f.reclaimed m)) := by
  rw [List.forall₂_map_right_iff, List.forall₂_same]
  exact fun q hq => releaseParameter_loses coherent hq

/-! ## What the frame carries -/

theorem left_made (supplied : q.direction ≠ .output) (kept : f.returned = none ∨ q.transfer = .nothing) :
    f.left m q = (f.made q, .full, .engine) := by
  unfold left made
  cases direction : q.direction with
  | output => exact absurd direction supplied
  | input | both =>
      cases returned : f.returned with
      | none => rfl
      | some slot =>
          have nothing := kept.resolve_left (by simp [returned])
          simp only [nothing]
          rfl

theorem Idle.released_eq (idle : f.Idle m q) (out : q.direction = .output)
    (handled : q.handling = .normal ∨ ∃ l, q.handling = .array l) :
    q.type.released m (f.left m q).2.2 (f.left m q).2.1 (f.left m q).1 (f.leftCount m q) = [] := by
  unfold Idle at idle
  by_cases given : q.callerAllocates = true
  · rw [if_pos given] at idle
    simp only [left, out, given, if_true]
    rcases idle with kept | blank
    · rw [if_neg kept]
      exact released_none
    · by_cases everything : q.transfer = .everything
      · rw [if_pos everything]
        cases type : q.type with
        | array element length =>
            obtain ⟨n, count, zeros⟩ := blank element length type
            have known : f.leftCount m q = some n := by
              rcases handled with normal | ⟨l, linked⟩
              · simp [leftCount, normal, out, given, count]
              · simp [leftCount, linked, count]
            have elements : (List.range n).flatMap (fun i => element.parts m .native
                (m.load element.native (elementAddress (f.binding q.index).slot.address element.native i))) = [] := by
              refine List.flatMap_eq_nil_iff.mpr fun i hi => ?_
              by_cases pointers : element.isPointerLike = true
              · rw [zeros pointers i (List.mem_range.mp hi)]
                exact parts_null rfl m .native element
              · exact parts_of_not_address (by simpa using pointers) m .native _
            simp only [Ty.released, known, ReleaseDepth.coversElements, ReleaseDepth.coversContainer,
              Memory.elementParts, Memory.arrayLength?, Option.elim_some, elements, Bool.false_eq_true, if_false,
              List.append_nil, ite_self]
        | _ => rfl
      · rw [if_neg everything]
        exact released_none
  · rw [if_neg given] at idle
    have own : q.callerAllocates = false := by simpa using given
    simp only [left, out, own, Bool.false_eq_true, if_false]
    rcases idle with nothing | zero
    · rw [nothing]
      exact released_none
    · rw [zero]
      exact released_null rfl

/-- What is reclaimed of a value that the engine made is all of it, if native code was not handed it. -/
theorem reclaimed_made (supplied : q.direction ≠ .output) (built : (f.binding q.index).built = true)
    (handled : q.handling = .normal ∨ ∃ l, q.handling = .array l) (left : f.returned = none ∨ q.transfer = .nothing)
    (flat : ∀ element length, q.type = .array element length → element.IsFlat) :
    f.reclaimed m q = (q.type.ownedIn m (f.made q) (f.leftCount m q)).map .block := by
  rw [reclaimed, if_pos built, left_made supplied left, released_ownedIn flat]
  rcases handled with normal | ⟨l, linked⟩
  · rw [normal]
  · rw [linked]

theorem Carries.reclaimed_perm (h : f.Carries m q L) (left : f.returned = none ∨ q.transfer = .nothing)
    (flat : ∀ element length, q.type = .array element length → element.IsFlat)
    (idle : q.handling ≠ .hidden → (f.binding q.index).built = true → q.direction = .output → f.Idle m q) :
    (f.reclaimed m q).Perm L := by
  cases h with
  | nothing unbuilt =>
      unfold reclaimed
      rcases unbuilt with hidden | unbuilt
      · rw [hidden, ite_self]
      · rw [if_neg (by simp [unbuilt])]
  | output out uncalled =>
      unfold reclaimed
      split
      · rename_i built
        cases handling : q.handling with
        | hidden => exact .refl _
        | callback closure destroy scope =>
            rw [uncalled]
            exact .refl _
        | array l =>
            have none_left := (idle (by simp [handling]) built out).released_eq out (Or.inr ⟨l, handling⟩)
            simp only [none_left]
            exact .refl _
        | normal =>
            have none_left := (idle (by simp [handling]) built out).released_eq out (Or.inl handling)
            simp only [none_left]
            exact .refl _
      · exact .refl _
  | callback closure destroy scope handled built =>
      rw [reclaimed, if_pos built, handled]
  | value supplied built handled L owns apart =>
      have count : f.leftCount m q = (f.binding q.index).count := by
        rcases handled with ⟨normal, none⟩ | ⟨l, n, linked, known⟩
        · simp [leftCount, normal, supplied, none]
        · simp [leftCount, linked, known]
      have visible : q.handling = .normal ∨ ∃ l, q.handling = .array l := by
        rcases handled with ⟨normal, -⟩ | ⟨l, n, linked, -⟩
        · exact Or.inl normal
        · exact Or.inr ⟨l, linked⟩
      rw [reclaimed_made supplied built visible left flat, count]
      exact owns.now.map _

theorem Carries.loses (h : f.Carries m q L) (coherent : f.plan.Coherent) (hq : q ∈ f.plan.parameters)
    (left : f.returned = none ∨ q.transfer = .nothing)
    (flat : ∀ element length, q.type = .array element length → element.IsFlat)
    (idle : q.handling ≠ .hidden → (f.binding q.index).built = true → q.direction = .output → f.Idle m q) :
    f.Loses m q L :=
  fun s same => (releaseParameter_loses coherent hq s same).perm (h.reclaimed_perm left flat idle)

/-! ## The whole frame -/

theorem freeFailure_givesUp (record : UInt64) (s : Engine) : s.GivesUp [] (EngineM.freeFailure record s).2 := by
  unfold EngineM.freeFailure
  split
  · exact .refl s
  · have steps : ∀ message : UInt64, s.GivesUp [] (EngineM.unreserve record (EngineM.unreserve message s).2).2 :=
      fun message => (EngineM.unreserve_givesUp message s).trans (EngineM.unreserve_givesUp record _)
    exact steps _

theorem freeFailure_spares {place a : UInt64} (other : a ∉ s.memory.reported place) :
    s.Spares a (EngineM.freeFailure (s.memory.load .pointer place).address s).2 := by
  unfold EngineM.freeFailure
  unfold Memory.reported at other
  by_cases null : (s.memory.load .pointer place).address = 0
  · rw [if_pos null]
    exact .refl a s
  · simp only [if_neg null, List.mem_cons, List.not_mem_nil, or_false, not_or] at other
    rw [if_neg null]
    exact (EngineM.unreserve_spares other.1 s).trans (EngineM.unreserve_spares other.2 _)

theorem releaseBuffers_givesUp (f : Frame) (s : Engine) :
    s.GivesUp f.buffers ((f.bindings.forM fun b => b.buffer.forM fun block => EngineM.release block true :
      EngineM Unit) s).2 := by
  have each : List.Forall₂ (fun (b : Binding) L => ∀ t : Engine, (∀ c, c ∈ t.memory.chunks ↔ c ∈ s.memory.chunks) →
      t.GivesUp L ((b.buffer.forM fun block => EngineM.release block true : EngineM Unit) t).2) f.bindings
      (f.bindings.map fun b => b.buffer.toList.map .block) := by
    rw [List.forall₂_map_right_iff, List.forall₂_same]
    intro b _ t _
    cases b.buffer with
    | none => exact .refl t
    | some block => exact EngineM.release_givesUp block true t
  have all := Engine.GivesUp.forM each s fun _ => .rfl
  rwa [← List.flatMap_def] at all

/-- The blocks of the return value that are given up. -/
def reclaimedResult (f : Frame) (m : Memory) : List UInt64 :=
  f.returned.elim [] fun slot =>
    f.plan.signature.result.released m .native (.forTransfer .output f.plan.signature.resultTransfer) slot
      (f.returnedCount.or (f.plan.resultLength.bind (f.lengthShown m)))

theorem reclaimedResult_congr (same : ∀ b, b ∈ m.chunks ↔ b ∈ m'.chunks) (f : Frame) :
    f.reclaimedResult m = f.reclaimedResult m' := by
  simp only [reclaimedResult, released_congr same, funext (lengthShown_congr same f)]

theorem releaseReturn_eq {element : Ty} {length : ArrayLength} (type : f.plan.signature.result = .array element length)
    (slot : Slot) (s : Engine) :
    f.releaseReturn slot s =
      freeArray element length slot (f.returnedCount.or (f.plan.resultLength.bind (f.lengthShown s.memory)))
        (.forTransfer .output f.plan.signature.resultTransfer) .native s := by
  unfold releaseReturn
  rw [type]
  simp only
  cases f.returnedCount with
  | some n => rfl
  | none =>
      cases f.plan.resultLength with
      | none => rfl
      | some index =>
          have shows : ∀ next : Option Nat → EngineM Unit, (f.currentLength? index >>= next) s =
              next (f.lengthShown s.memory index) s := fun next => by
            rw [EngineM.run_bind, currentLength?_eq]
          exact shows _

theorem releaseReturn_flat (flat : f.plan.signature.result.IsFlat) (slot : Slot) :
    f.releaseReturn slot =
      freeValue f.plan.signature.result slot (.forTransfer .output f.plan.signature.resultTransfer) .native := by
  unfold releaseReturn
  simp only
  split
  · rename_i element length type
    exact absurd type (flat element length)
  · rfl

theorem releaseReturn_releases (f : Frame) (s : Engine) :
    s.GivesUp ((f.reclaimedResult s.memory).map .block) ((f.returned.forM f.releaseReturn : EngineM Unit) s).2 := by
  unfold reclaimedResult
  cases f.returned with
  | none => exact .refl s
  | some slot =>
      rw [Option.elim_some]
      show s.GivesUp _ (f.releaseReturn slot s).2
      by_cases flat : f.plan.signature.result.IsFlat
      · rw [releaseReturn_flat flat, released_of_flat flat]
        exact freeValue_releases _ slot _ .native s
      · obtain ⟨element, length, type⟩ := Ty.exists_of_not_flat flat
        rw [releaseReturn_eq type, type]
        exact freeArray_releases element length slot _ _ .native s

theorem run_reclaim (f : Frame) (s : Engine) :
    (f.reclaim s).2 = (EngineM.unreserve f.failure (EngineM.unreserve f.cells
      ((f.returned.forM f.releaseReturn : EngineM Unit)
        ((f.bindings.forM fun b => b.buffer.forM fun block => EngineM.release block true : EngineM Unit)
          ((f.plan.parameters.forM f.releaseParameter : EngineM Unit)
            (EngineM.freeFailure (s.memory.load .pointer f.failure).address s).2).2).2).2).2).2 := rfl

/-- Reclaiming gives up what is lost for the parameters, then the buffers, then what was handed over with the return
value, and nothing else. -/
theorem reclaim_givesUp {Ls : List (List Resource)} (each : List.Forall₂ (f.Loses s.memory) f.plan.parameters Ls) :
    s.GivesUp (Ls.flatten ++ f.buffers ++ (f.reclaimedResult s.memory).map .block) (f.reclaim s).2 := by
  have report := freeFailure_givesUp (s.memory.load .pointer f.failure).address s
  have parameters := report.trans (Engine.GivesUp.forM each _ report.chunks)
  have buffers := parameters.trans (f.releaseBuffers_givesUp _)
  have result := buffers.trans (f.releaseReturn_releases _)
  rw [f.reclaimedResult_congr buffers.chunks] at result
  rw [run_reclaim]
  have rest := (result.trans (EngineM.unreserve_givesUp f.cells _)).trans (EngineM.unreserve_givesUp f.failure _)
  rwa [List.append_nil, List.append_nil] at rest

/-! ## What holds across a reclaim -/

theorem remainder_same (f : Frame) (q : Parameter) (s : Engine) : (f.remainder q s).2 = s := by
  unfold remainder
  cases q.direction <;> cases f.returned <;> simp only [] <;> first | rfl | (split <;> rfl)

section Across

variable {R : Engine → Engine → Prop} (refl : ∀ s, R s s) (trans : ∀ {s s' s''}, R s s' → R s' s'' → R s s'')
  (release : ∀ a counted s, R s (EngineM.release a counted s).2)

include refl trans release

theorem releaseBufferContents_across (f : Frame) (q : Parameter) (element : Ty) (length : ArrayLength)
    (count : Option Nat) (s : Engine) : R s (f.releaseBufferContents q element length count s).2 := by
  unfold releaseBufferContents
  split
  · exact freeArray_across _ refl trans (fun a => release a _) _ _ _ _ _ s
  · exact refl s

theorem releaseValue_across (f : Frame) (q : Parameter) (s : Engine) : R s (f.releaseValue q s).2 := by
  unfold releaseValue
  by_cases given : (decide (q.direction = .output) && q.callerAllocates) = true
  · rw [if_pos given]
    cases q.type with
    | array element length => exact releaseBufferContents_across refl trans release f q element length _ s
    | _ => exact refl s
  · rw [if_neg given, EngineM.run_bind, remainder_same]
    exact freeValue_across _ refl trans (fun a => release a _) _ _ _ s

theorem releaseArray_across (f : Frame) (q : Parameter) (l : Nat) (s : Engine) : R s (f.releaseArray q l s).2 := by
  cases type : q.type with
  | array element length =>
      rw [releaseArray_eq type]
      split
      · exact releaseBufferContents_across refl trans release f q element length _ s
      · rw [EngineM.run_bind, remainder_same]
        exact freeArray_across _ refl trans (fun a => release a _) _ _ _ _ _ s
  | _ =>
      unfold releaseArray
      rw [type]
      exact refl s

theorem releaseReturn_across (f : Frame) (slot : Slot) (s : Engine) : R s (f.releaseReturn slot s).2 := by
  by_cases flat : f.plan.signature.result.IsFlat
  · rw [releaseReturn_flat flat]
    exact freeValue_across _ refl trans (fun a => release a _) _ _ _ s
  · obtain ⟨element, length, type⟩ := Ty.exists_of_not_flat flat
    rw [releaseReturn_eq type]
    exact freeArray_across _ refl trans (fun a => release a _) _ _ _ _ _ s

theorem releaseBuffers_across (f : Frame) (s : Engine) :
    R s ((f.bindings.forM fun b => b.buffer.forM fun block => EngineM.release block true : EngineM Unit) s).2 :=
  EngineM.forM_across refl trans _
    (fun b _ => EngineM.forM_option_across refl b.buffer fun block _ => release block true) s

theorem releaseResult_across (f : Frame) (s : Engine) : R s ((f.returned.forM f.releaseReturn : EngineM Unit) s).2 :=
  EngineM.forM_option_across refl _ (fun slot _ => releaseReturn_across refl trans release f slot) s

theorem releaseParameter_across
    (destroyed : q.handling ≠ .hidden → ∀ c ∈ (f.binding q.index).callback, ∀ s, R s (EngineM.destroyCallback c s).2)
    (s : Engine) : R s (f.releaseParameter q s).2 := by
  unfold releaseParameter
  split
  · cases handling : q.handling with
    | hidden => exact refl s
    | callback closure destroy scope =>
        exact EngineM.forM_option_across refl _ (fun c held => destroyed (by simp [handling]) c held) s
    | array l => exact releaseArray_across refl trans release f q l s
    | normal => exact releaseValue_across refl trans release f q s
  · exact refl s

/-- What holds across the release of a block, the end of a callback of the frame, and the end of the working storage, holds
across a reclaim. -/
theorem reclaim_across (reported : R s (EngineM.freeFailure (s.memory.load .pointer f.failure).address s).2)
    (destroyed : ∀ q ∈ f.plan.parameters, q.handling ≠ .hidden → ∀ c ∈ (f.binding q.index).callback, ∀ s,
      R s (EngineM.destroyCallback c s).2)
    (storage : ∀ a ∈ [f.cells, f.failure], ∀ s, R s (EngineM.unreserve a s).2) : R s (f.reclaim s).2 := by
  rw [run_reclaim]
  have parameters := trans reported (EngineM.forM_across refl trans f.plan.parameters
    (fun q hq => releaseParameter_across refl trans release (destroyed q hq)) _)
  have buffers := trans parameters (releaseBuffers_across refl trans release f _)
  have result := trans buffers (releaseResult_across refl trans release f _)
  exact trans (trans result (storage _ (by simp) _)) (storage _ (by simp) _)

end Across

end Frame

end Ferry
