import Mathlib.Data.List.Count
import Mathlib.Data.List.Nodup
import Ferry.Proofs.Call.Gathering
import Ferry.Proofs.Marshal.Resting

/-!
# What native code hands over

Native code makes the values of its outputs and its return value, and hands over as much of each as the transfer says.
The main result is `handedOver_of_execute`: when a call is over, just the blocks that were handed over have been
released, each of them once, whether the outputs were collected, or one of them did not convert, or none was collected
since native code reported a failure.
-/

set_option autoImplicit false

namespace Ferry

variable {World : Type} {host : Host World}

/-- An output that the caller is shown and that native code makes room for. -/
def Parameter.isProduced (q : Parameter) : Bool :=
  !q.isHidden && q.direction = .output && !q.callerAllocates

theorem Parameter.isProduced_iff (q : Parameter) :
    q.isProduced = true ↔ q.handling ≠ .hidden ∧ q.direction = .output ∧ q.callerAllocates = false := by
  simp [isProduced, isHidden, and_assoc]

/-! ## Values of native code -/

/-- What native code hands over of a value: nothing, the container of an array, or all of it. A value that is no array
goes with its container. -/
def Ty.handedOver (type : Ty) (m : Memory) (transfer : Transfer) (slot : Slot) (known : Option Nat) : List UInt64 :=
  match transfer, type with
  | .nothing, _ => []
  | .container, .array _ _ => if slot.isNull then [] else [slot.address]
  | _, type => type.released m .native .full slot known

/-- A value that native code made, and how much of it is handed over. -/
structure NativeValue where
  type : Ty
  transfer : Transfer
  slot : Slot
  count : Option Nat

namespace NativeValue

def blocks (v : NativeValue) (m : Memory) : List UInt64 :=
  v.type.released m .native .full v.slot v.count

def handedOver (v : NativeValue) (m : Memory) : List UInt64 :=
  v.type.handedOver m v.transfer v.slot v.count

/-- An array has no arrays for elements, and lies in its block with as many elements as are said to be there. -/
def Fits (v : NativeValue) (m : Memory) : Prop :=
  ∀ element length, v.type = .array element length → element.IsFlat ∧
    (v.slot.isNull = false → ∃ b ∈ m.chunks, b.address = v.slot.address ∧
      ∃ n, m.arrayLength? element length v.slot.address v.count = some n ∧ n * element.native.size ≤ b.capacity)

variable {v : NativeValue} {m m' : Memory}

theorem handedOver_eq (v : NativeValue) (m : Memory) :
    v.handedOver m = v.type.released m .native (.forTransfer .output v.transfer) v.slot v.count := by
  unfold handedOver Ty.handedOver
  cases v.transfer with
  | nothing => exact released_none.symm
  | everything => cases v.type <;> rfl
  | container => cases v.type <;> rfl

theorem handedOver_sublist (v : NativeValue) (m : Memory) : (v.handedOver m).Sublist (v.blocks m) := by
  unfold handedOver Ty.handedOver blocks
  cases v.transfer with
  | nothing => exact List.nil_sublist _
  | everything => cases v.type <;> exact .refl _
  | container =>
      cases v.type with
      | array element length =>
          simp only [Ty.released]
          split
          · exact .refl _
          · exact List.sublist_append_right _ _
      | _ => exact .refl _

def fits (v : NativeValue) (m : Memory) : Bool :=
  match v.type with
  | .array (.array _ _) _ => false
  | .array element length => v.slot.isNull || m.chunks.any fun b => b.address == v.slot.address &&
      (m.arrayLength? element length v.slot.address v.count).any fun n => decide (n * element.native.size ≤ b.capacity)
  | _ => true

theorem fits_of_check (checked : v.fits m = true) : v.Fits m := by
  intro element length type
  unfold fits at checked
  rw [type] at checked
  have flat : element.IsFlat := by
    rintro _ _ rfl
    cases checked
  refine ⟨flat, fun present => ?_⟩
  have found : (v.slot.isNull || m.chunks.any fun b => b.address == v.slot.address &&
      (m.arrayLength? element length v.slot.address v.count).any fun n => decide (n * element.native.size ≤ b.capacity)) =
      true := by
    cases element with
    | array element' length' => exact absurd rfl (flat element' length')
    | _ => exact checked
  simpa [present, Option.any_eq_true] using found

theorem address_mem_blocks {element : Ty} {length : ArrayLength} (type : v.type = .array element length)
    (present : v.slot.isNull = false) (m : Memory) : v.slot.address ∈ v.blocks m := by
  simp [blocks, type, Ty.released, present, ReleaseDepth.coversContainer]

theorem Fits.rests (fits : v.Fits m) : v.type.Rests m v.slot v.count := by
  cases type : v.type with
  | array element length =>
      obtain ⟨flat, lies⟩ := fits element length type
      intro present
      obtain ⟨b, hb, address, n, count, room⟩ := lies present
      refine ⟨b, hb, address, fun k counted => ?_⟩
      cases count.symm.trans counted
      exact ⟨room, fun i _ => .of_flat flat m _ none⟩
  | _ => trivial

theorem Fits.released_eq {touched : List UInt64} (fits : v.Fits m) (remains : m.Remains touched m')
    (apart : ∀ a ∈ v.blocks m, a ∉ touched) (depth : ReleaseDepth) :
    v.type.released m' .native depth v.slot v.count = v.type.released m .native depth v.slot v.count :=
  fits.rests.released_eq (fun b hb listed => remains b hb (apart _ listed)) depth

end NativeValue

namespace Frame

def cellValue (g : Frame) (m : Memory) (q : Parameter) : NativeValue where
  type := q.type
  transfer := q.transfer
  slot := m.load .u64 (g.cell q.index)
  count :=
    match q.handling with
    | .array l => g.lengthShown m l
    | _ => none

def returnedValue (g : Frame) (m : Memory) : NativeValue where
  type := g.plan.signature.result
  transfer := g.plan.signature.resultTransfer
  slot := g.returned.getD .zero
  count := g.plan.resultLength.bind (g.lengthShown m)

/-- The values that native code made: in the cells of the outputs, and returned. -/
def nativeValues (g : Frame) (m : Memory) : List NativeValue :=
  (g.plan.parameters.filter (·.isProduced)).map (g.cellValue m) ++ [g.returnedValue m]

def handedOver (g : Frame) (m : Memory) : List UInt64 :=
  (g.nativeValues m).flatMap (·.handedOver m)

/-- The element counts by which a parameter may be released: the one that is known when native code returns, or the one
that the length parameter of an output shows. -/
inductive MayCount (g : Frame) (m : Memory) (q : Parameter) : Option Nat → Prop
  | known : MayCount g m q (g.leftCount m q)
  | shown (l : Nat) (out : q.direction = .output) (linked : q.handling = .array l) :
    MayCount g m q (g.lengthShown m l)

/-- What native code leaves behind: `own` are the blocks that belong to native code. The values that it made consist of
such blocks, no block twice, and nothing else that the engine releases leads to one, whatever it makes meanwhile. -/
structure Produces (g : Frame) (m : Memory) (own : UInt64 → Prop) : Prop where
  live : ∀ a, own a → m.Live a
  values : ∀ v ∈ g.nativeValues m, v.Fits m ∧ ∀ a ∈ v.blocks m, own a
  distinct : ((g.nativeValues m).flatMap (·.blocks m)).Nodup
  apart : ¬own g.failure ∧ ∀ a ∈ g.bufferBlocks, ¬own a
  elsewhere : ∀ q ∈ g.plan.parameters, q.handling ≠ .hidden → q.isProduced = false → ∀ known, g.MayCount m q known →
    ∀ m', m.Remains [g.failure] m' →
      ∀ a ∈ q.type.released m' (g.left m q).2.2 (g.left m q).2.1 (g.left m q).1 known, ¬own a

variable {g f f' : Frame} {m m' : Memory} {s₀ s s' : Engine} {q : Parameter} {own : UInt64 → Prop}

theorem sublist_flatMap {α β : Type} {F G : α → List β} {items : List α} (each : ∀ x, (F x).Sublist (G x)) :
    (items.flatMap F).Sublist (items.flatMap G) := by
  induction items with
  | nil => exact .slnil
  | cons x rest ih => exact (each x).append ih

theorem Produces.nodup_handedOver (h : g.Produces m own) : (g.handedOver m).Nodup :=
  h.distinct.sublist (sublist_flatMap fun v => v.handedOver_sublist m)

/-! ## The frame after collecting -/

section Settled

variable (settled : g.Settled m f) (placed : g.Placed m) (remains : m.Remains [g.failure] m')
  (apart : g.cells ≠ g.failure) (coherent : g.plan.Coherent)

include settled placed remains apart

theorem Settled.left_eq (inside : q.index < g.plan.parameters.length) : f.left m' q = g.left m q := by
  have cell : m'.load .u64 (f.cell q.index) = m.load .u64 (g.cell q.index) := by
    rw [Frame.cell, settled.cells]
    exact placed.load_remains remains apart inside
  simp only [left, settled.returned, settled.slot, settled.engineMade, cell]

include coherent

theorem Settled.leftCount_mayCount (hq : q ∈ g.plan.parameters) : g.MayCount m q (f.leftCount m' q) := by
  have known := settled.count q hq
  generalize found : (f.binding q.index).count = count at known
  have same : (f.binding q.index).count = (g.binding q.index).count → f.leftCount m' q = g.leftCount m q := by
    intro same
    simp only [leftCount, same, settled.lengthShown_eq placed remains apart coherent]
  cases known with
  | built =>
      rw [same found]
      exact .known
  | shown l n linked out open_ shows =>
      have count : f.leftCount m' q = g.lengthShown m l := by
        simp only [leftCount, linked, found, Option.some_or, shows]
      rw [count]
      cases direction : q.direction with
      | input => simp [direction, Direction.isOut] at out
      | output => exact .shown l direction linked
      | both =>
          have same : g.lengthShown m l = g.leftCount m q := by
            simp only [leftCount, linked, open_ direction, Option.none_or]
          rw [same]
          exact .known

theorem Settled.reclaimed_produced (produces : g.Produces m own) (hq : q ∈ g.plan.parameters)
    (made : q.isProduced = true) (built : (g.binding q.index).built = true)
    (unsettled : (g.binding q.index).count = none) :
    f.reclaimed m' q = ((g.cellValue m q).handedOver m).map .block := by
  obtain ⟨visible, out, own_cell⟩ := q.isProduced_iff.mp made
  have value : g.cellValue m q ∈ g.nativeValues m :=
    List.mem_append_left _ (List.mem_map.mpr ⟨q, List.mem_filter.mpr ⟨hq, made⟩, rfl⟩)
  obtain ⟨fits, owned⟩ := produces.values _ value
  have apart' : ∀ a ∈ (g.cellValue m q).blocks m, a ∉ [g.failure] := by
    intro a ha listed
    rw [List.mem_singleton.mp listed] at ha
    exact produces.apart.1 (owned _ ha)
  have place : g.left m q =
      (m.load .u64 (g.cell q.index), .forTransfer .output q.transfer, .native) := by
    simp only [left, out, own_cell, Bool.false_eq_true, if_false]
  have count : f.leftCount m' q = (g.cellValue m q).count := by
    have may := settled.leftCount_mayCount placed remains apart coherent hq
    generalize f.leftCount m' q = known at may
    cases may with
    | known => cases handling : q.handling <;> simp [leftCount, cellValue, handling, unsettled, own_cell]
    | shown l _ linked => simp [cellValue, linked]
  have blocks : q.type.released m' (f.left m' q).2.2 (f.left m' q).2.1 (f.left m' q).1 (f.leftCount m' q) =
      (g.cellValue m q).handedOver m := by
    rw [settled.left_eq placed remains apart (coherent.index_lt hq), place, count, NativeValue.handedOver_eq]
    exact fits.released_eq remains apart' _
  rw [reclaimed, if_pos (by rw [settled.built]; exact built), blocks]
  have handled := coherent.handled q.index q (coherent.inside hq)
  cases handling : q.handling with
  | hidden => exact absurd handling visible
  | callback closure destroy scope =>
      rw [handling] at handled
      simp [Parameter.direction, handled.1] at out
  | array l => rfl
  | normal => rfl

theorem Settled.not_reclaimed (hq : q ∈ g.plan.parameters) {a : UInt64}
    (elsewhere : q.handling ≠ .hidden → ∀ known, g.MayCount m q known →
      a ∉ q.type.released m' (g.left m q).2.2 (g.left m q).2.1 (g.left m q).1 known) : .block a ∉ f.reclaimed m' q := by
  unfold reclaimed
  split
  · have released : q.handling ≠ .hidden → .block a ∉ (q.type.released m' (f.left m' q).2.2 (f.left m' q).2.1
        (f.left m' q).1 (f.leftCount m' q)).map Resource.block := by
      intro visible listed
      obtain ⟨b, hb, same⟩ := List.mem_map.mp listed
      cases same
      rw [settled.left_eq placed remains apart (coherent.index_lt hq)] at hb
      exact elsewhere visible _ (settled.leftCount_mayCount placed remains apart coherent hq) hb
    cases handling : q.handling with
    | hidden => simp
    | callback closure destroy scope => simp
    | array l => exact released (by simp [handling])
    | normal => exact released (by simp [handling])
  · simp

theorem Settled.resultCount_eq (unsettled : g.returnedCount = none) :
    f.returnedCount.or (f.plan.resultLength.bind (f.lengthShown m')) = (g.returnedValue m).count := by
  have shows := fun index => settled.lengthShown_eq placed remains apart coherent index
  rw [settled.plan, funext shows]
  rcases settled.returnedCount with same | ⟨l, n, linked, shown, known⟩
  · rw [same, unsettled, Option.none_or]
    rfl
  · rw [known, Option.some_or, returnedValue, linked, Option.bind_some, shown]

theorem Settled.reclaimedResult_eq
    (rests : (g.returnedValue m).type.Rests m (g.returnedValue m).slot (g.returnedValue m).count)
    (elsewhere : g.failure ∉ (g.returnedValue m).blocks m) {slot : Slot} (returned : g.returned = some slot)
    (unsettled : g.returnedCount = none) : f.reclaimedResult m' = (g.returnedValue m).handedOver m := by
  have kept : ∀ b ∈ m.chunks, b.address ∈ (g.returnedValue m).blocks m → b ∈ m'.chunks := fun b hb listed =>
    remains b hb fun touched => elsewhere (List.mem_singleton.mp touched ▸ listed)
  rw [reclaimedResult, settled.returned, returned, Option.elim_some,
    settled.resultCount_eq placed remains apart coherent unsettled, settled.plan, NativeValue.handedOver_eq,
    ← rests.released_eq kept]
  simp only [returnedValue, returned, Option.getD_some]

end Settled

/-! ## From native code to the end -/

theorem count_flatMap_filter {α : Type} {F : α → List Resource} {G : α → List UInt64} {test : α → Bool} {a : UInt64}
    {items : List α} (chosen : ∀ x ∈ items, test x = true → F x = (G x).map .block)
    (others : ∀ x ∈ items, test x = false → .block a ∉ F x) :
    (items.flatMap F).count (.block a) = ((items.filter test).flatMap G).count a := by
  induction items with
  | nil => rfl
  | cons x rest ih =>
      have later := ih (fun y hy => chosen y (List.mem_cons_of_mem x hy)) fun y hy => others y (List.mem_cons_of_mem x hy)
      rw [List.flatMap_cons, List.count_append, later]
      cases tested : test x with
      | true =>
          rw [List.filter_cons_of_pos tested, List.flatMap_cons, List.count_append, chosen x List.mem_cons_self tested]
          rw [List.count_map_of_injective _ _ (fun _ _ same => by cases same; rfl)]
      | false =>
          rw [List.filter_cons_of_neg (by simp [tested]), List.count_eq_zero_of_not_mem (others x List.mem_cons_self tested),
            Nat.zero_add]

theorem Collected.count_reclaimed (h : Collected g s₀ f s) (coherent : g.plan.Coherent) :
    ∃ t, (f.reclaim s).2.events = t ++ s₀.events ∧ ∀ a, s₀.memory.Live a → a ∉ g.bufferBlocks →
      (losses t).count (.block a) =
        (g.plan.parameters.flatMap (f.reclaimed s.memory)).count (.block a) + (f.reclaimedResult s.memory).count a := by
  obtain ⟨settled, left⟩ := h
  obtain ⟨t, events, spent⟩ := left.events
  obtain ⟨t', events', -, spent'⟩ := (reclaim_givesUp (loses_reclaimed
    (by rw [settled.plan]; exact coherent))).moves.events
  refine ⟨t' ++ t, by rw [events', events, List.append_assoc], fun a alive other => ?_⟩
  -- collecting gives up copies of its own and buffers
  have early : (losses t).count (.block a) = 0 := by
    refine List.count_eq_zero_of_not_mem fun listed => ?_
    obtain ⟨b, same, known⟩ := spent _ listed
    cases same
    rcases known with new | buffer
    · have := alive.toNat_lt
      omega
    · exact other buffer
  have buffers : f.buffers.count (.block a) = 0 := by
    refine List.count_eq_zero_of_not_mem fun listed => ?_
    obtain ⟨b, hb, held⟩ := List.mem_flatMap.mp listed
    obtain ⟨c, hc, same⟩ := List.mem_map.mp held
    cases same
    obtain ⟨i, found⟩ := List.mem_iff_getElem?.mp hb
    have at_i : (f.binding i).buffer = some a := by
      simpa [binding, found] using hc
    rcases settled.buffer i with none | kept
    · rw [none] at at_i
      cases at_i
    · exact other (mem_bufferBlocks (kept.symm.trans at_i))
  have late := spent'.count_eq (.block a)
  rw [List.count_append, List.count_append, buffers, settled.plan, ← List.flatMap_def,
    List.count_map_of_injective _ _ fun _ _ same => by cases same; rfl] at late
  rw [losses_append, List.count_append, early, late]
  omega

theorem Collected.releases (h : Collected g s₀ f s) (placed : g.Placed s₀.memory) (apart : g.cells ≠ g.failure)
    (coherent : g.plan.Coherent) (produces : g.Produces s₀.memory own)
    (built : ∀ q ∈ g.plan.parameters, q.isProduced = true →
      (g.binding q.index).built = true ∧ (g.binding q.index).count = none)
    {slot : Slot} (returned : g.returned = some slot) (unsettled : g.returnedCount = none) :
    ∃ t, (f.reclaim s).2.events = t ++ s₀.events ∧ (g.handedOver s₀.memory).Nodup ∧
      ∀ a, own a → (losses t).count (.block a) = if a ∈ g.handedOver s₀.memory then 1 else 0 := by
  obtain ⟨t, events, counts⟩ := h.count_reclaimed coherent
  obtain ⟨settled, left⟩ := h
  have remains := left.remains
  refine ⟨t, events, produces.nodup_handedOver, fun a belongs => ?_⟩
  have parameters := count_flatMap_filter (F := f.reclaimed s.memory)
    (G := fun q => (g.cellValue s₀.memory q).handedOver s₀.memory)
    (fun q hq made => settled.reclaimed_produced placed remains apart coherent produces hq made (built q hq made).1
      (built q hq made).2)
    fun q hq other => settled.not_reclaimed placed remains apart coherent hq fun visible known may released =>
      produces.elsewhere q hq visible other known may s.memory remains a released belongs
  obtain ⟨fits, owned⟩ :=
    produces.values (g.returnedValue s₀.memory) (List.mem_append_right _ (List.mem_singleton.mpr rfl))
  have result := settled.reclaimedResult_eq placed remains apart coherent fits.rests
    (fun listed => produces.apart.1 (owned _ listed)) returned unsettled
  have total : (losses t).count (.block a) = (g.handedOver s₀.memory).count a := by
    rw [counts a (produces.live a belongs) fun buffer => produces.apart.2 a buffer belongs, parameters, result, handedOver,
      nativeValues, List.flatMap_append, List.flatMap_map, List.flatMap_cons, List.flatMap_nil, List.append_nil,
      List.count_append]
  rw [total]
  split
  · rename_i handed
    exact List.count_eq_one_of_mem produces.nodup_handedOver handed
  · rename_i kept
    exact List.count_eq_zero_of_not_mem kept

section Built

variable {p : Plan} {receiver : Option Value} {arguments : List Value}

theorem produced_of_prepare (coherent : p.Coherent) (built : p.prepare receiver arguments s = (.ok f, s')) :
    f.plan = p ∧ f.Housed s'.memory ∧ f.returnedCount = none ∧ ∀ q ∈ p.parameters, q.isProduced = true →
      (f.binding q.index).built = true ∧ (f.binding q.index).count = none := by
  obtain ⟨-, f₁, s₁, begun, run, -⟩ := begun_of_prepare coherent built
  obtain ⟨housed, differs, -⟩ := housed_of_run begun coherent run
  refine ⟨differs.plan.trans begun.plan, housed, differs.returnedCount.trans begun.returned.2, fun q hq made => ?_⟩
  obtain ⟨visible, out, own⟩ := q.isProduced_iff.mp made
  have at_q := coherent.inside hq
  obtain ⟨t, g, t', g', turn⟩ := turn_of_run begun coherent run at_q
  obtain ⟨blank, kept, inside⟩ := turn.own begun coherent at_q visible
  rw [kept]
  cases turn.step with
  | hidden hidden => exact absurd hidden visible
  | input _ direction => simp [direction] at out
  | both _ direction => simp [direction] at out
  | output _ _ _ _ _ reserves =>
      cases reserves with
      | buffer given => simp [given] at own
      | cell =>
          rw [binding_update_self inside, blank]
          exact ⟨rfl, rfl⟩

end Built

end Frame

section Executed

variable {p : Plan} {settings : InvokeSettings} {receiver : Option Value} {arguments : List Value}
  {M M' N : Machine World} {r : Except InvokeFailure Value} {f g : Frame} {s : Engine}

theorem Frame.collected_of_execute (coherent : p.Coherent) (places : host.KeepsPlaces)
    (admitted : p.Admits settings arguments) (built : p.prepare receiver arguments M.engine = (.ok f, s))
    (entered : f.execute host ⟨s.noted settings (.callStarted p.name p.slotCount), M.world⟩ = ((.ok (), g), N))
    (run : p.execute host settings receiver arguments M = (r, M')) :
    ∃ h s', g.plan = p ∧ g.Placed N.engine.memory ∧ g.cells ≠ g.failure ∧ (∃ slot, g.returned = some slot) ∧
      g.returnedCount = none ∧ (∀ q ∈ p.parameters, q.isProduced = true →
        (g.binding q.index).built = true ∧ (g.binding q.index).count = none) ∧
      Frame.Collected g (N.engine.noted settings (.callReturned g.plan.name)) h s' ∧
      M' = ⟨(h.reclaim s').2, N.world⟩ := by
  obtain ⟨plan, housed, unsettled, cells⟩ := Frame.produced_of_prepare coherent built
  subst plan
  obtain ⟨e, impossible, -⟩ | ⟨-, h, s', collected, rfl⟩ := Plan.execute_ends admitted built entered run
  · cases impossible
  obtain ⟨d, slot, rfl, entering⟩ := Frame.execute_ok entered
  obtain ⟨M₁, before, entering⟩ : ∃ M₁ : Machine World, M₁.engine.memory = s.memory ∧
      host.enter f.plan.native.address (f.plan.native.arguments.zip f.slots) M₁ = (slot, N) :=
    ⟨_, by simp, entering⟩
  have same : s.memory.SamePlaces N.engine.memory := by
    have same := places f.plan.native.address (f.plan.native.arguments.zip f.slots) M₁
    rwa [entering, before] at same
  have placed : (f.afterReturn slot).Placed N.engine.memory := housed.placed.afterReturn same
  have place : ∃ b ∈ N.engine.memory.chunks, b.address = f.failure := by
    obtain ⟨b, hb, address, -⟩ := housed.failure
    obtain ⟨b', hb', base, -⟩ := same b (Memory.mem_chunks_of_live hb)
    exact ⟨b', hb', by rw [← address, Block.address, base]; rfl⟩
  have apart : (f.afterReturn slot).cells ≠ (f.afterReturn slot).failure := housed.apart
  have noted := memory_noted N.engine settings (.callReturned (f.afterReturn slot).plan.name)
  refine ⟨h, s', rfl, placed, apart, ⟨_, rfl⟩, unsettled, fun q hq made => ?_, ?_, rfl⟩
  · rw [Frame.binding_afterReturn]
    exact cells q hq made
  · rw [← noted] at placed place
    exact Frame.collect_gathering placed apart coherent place collected

end Executed

/-- What native code hands over is released exactly once, and nothing else that belongs to it: whatever the call yields,
`g` is the frame and `N` the machine when native code has returned. -/
theorem handedOver_of_execute {p : Plan} (obtained : p.Obtained) (places : host.KeepsPlaces)
    {settings : InvokeSettings} {receiver : Option Value} {arguments : List Value} {M M' N : Machine World}
    {r : Except InvokeFailure Value} {f g : Frame} {s : Engine} {own : UInt64 → Prop}
    (admitted : p.Admits settings arguments) (built : p.prepare receiver arguments M.engine = (.ok f, s))
    (entered : f.execute host ⟨s.noted settings (.callStarted p.name p.slotCount), M.world⟩ = ((.ok (), g), N))
    (produces : g.Produces N.engine.memory own)
    (run : p.execute host settings receiver arguments M = (r, M')) :
    ∃ t, M'.engine.events = t ++ N.engine.events ∧ (g.handedOver N.engine.memory).Nodup ∧
      ∀ a, own a → (losses t).count (.block a) = if a ∈ g.handedOver N.engine.memory then 1 else 0 := by
  have coherent := obtained.coherent
  obtain ⟨h, s', plan, placed, apart, ⟨slot, returned⟩, unsettled, cells, gathering, rfl⟩ :=
    Frame.collected_of_execute coherent places admitted built entered run
  subst plan
  have noted := memory_noted N.engine settings (.callReturned g.plan.name)
  rw [← noted] at placed produces
  obtain ⟨t, events, distinct, counts⟩ := gathering.releases placed apart coherent produces cells returned unsettled
  rw [noted] at distinct counts
  obtain ⟨lines, logged, -, quiet⟩ := noted_quiet N.engine settings (.callReturned g.plan.name)
  refine ⟨t ++ lines, by rw [events, logged, List.append_assoc], distinct, fun a belongs => ?_⟩
  rw [losses_append, quiet, List.append_nil]
  exact counts a belongs

/-! ## A function that hands over a list and a title -/

/-- A function that makes a list of two names with its count, and returns a title. Everything is handed over. -/
def naming : DescriptorRef where
  id := 0
  descriptor := {
    symbol := "names", receiver := none, isConstructor := false, entry := .address 0x1000
    signature := {
      namespaceName := "Sample", name := "names", result := .utf8, resultTransfer := .everything, skipResult := false
      mayReturnNull := false, canThrow := false
      params := [
        ⟨"names", .array .utf8 (.parameter 1), .output, .everything, false, false, none, none, .call⟩,
        ⟨"count", .uint32, .output, .nothing, false, false, none, none, .call⟩] } }

def handing : Host Unit where
  enter _ arguments :=
    match arguments with
    | (_, names) :: (_, count) :: _ => Run.engine do
      let list ← EngineM.reserve 16
      let first ← EngineM.reserve 4
      let second ← EngineM.reserve 4
      let title ← EngineM.reserve 8
      EngineM.store .u64 list (.ofAddress first)
      EngineM.store .u64 (list + 8) (.ofAddress second)
      EngineM.store .u64 names.address (.ofAddress list)
      EngineM.store .u32 count.address ⟨2⟩
      return .ofAddress title
    | _ => return .zero
  apply _ _ := return .ok .undefined

theorem handing_keepsPlaces : handing.KeepsPlaces := by
  intro address arguments M
  match arguments with
  | [] | [_] => exact .refl M.engine.memory
  | (_, names) :: (_, count) :: _ =>
      refine EngineM.KeepsPlaces.run ?_ M
      refine .bind (.reserve 16) fun list => ?_
      refine .bind (.reserve 4) fun first => .bind (.reserve 4) fun second => .bind (.reserve 8) fun title => ?_
      refine .bind (.store _ _ _) fun _ => .bind (.store _ _ _) fun _ => ?_
      exact .bind (.store _ _ _) fun _ => .bind (.store _ _ _) fun _ => .pure _

theorem handedOver_of_execute_naming : ∃ (p : Plan) (g : Frame) (N M' : Machine Unit) (v : Value) (t : List Event),
    ∃ s₁, (Plan.compile naming).run .initial = (.ok p, s₁) ∧
    p.execute handing {} none [] ⟨s₁, ()⟩ = (.ok v, M') ∧ M'.engine.events = t ++ N.engine.events ∧
    (g.handedOver N.engine.memory).length = 4 ∧
    ∀ a ∈ g.handedOver N.engine.memory, (losses t).count (.block a) = 1 := by
  have facts : (((Plan.compile naming).run .initial).1.toOption.any fun p =>
      let s := ((Plan.compile naming).run .initial).2
      (p.prepare none [] s).1.toOption.any fun f =>
        let entered := f.execute handing
          ⟨(p.prepare none [] s).2.noted {} (.callStarted p.name p.slotCount), ()⟩
        let g : Frame := entered.1.2
        let m : Memory := entered.2.engine.memory
        let blocks : List UInt64 := (g.nativeValues m).flatMap (·.blocks m)
        entered.1.1.isOk && (p.execute handing {} none [] ⟨s, ()⟩).1.isOk && (p.typeCheck []).isOk &&
          decide ((g.handedOver m).length = 4) && decide blocks.Nodup &&
          blocks.all (fun a => m.blocks.any (·.address == a)) && !blocks.contains g.failure && g.bufferBlocks.isEmpty &&
          g.plan.parameters.all (fun q => q.isHidden || q.isProduced) &&
          (g.nativeValues m).all (·.fits m)) = true := by
    decide +kernel
  obtain ⟨p, s₁, compiled⟩ := exists_ok (r := (Plan.compile naming).run .initial) (by decide +kernel)
  simp only [compiled, Except.toOption, Option.any_some] at facts
  rcases built : p.prepare none [] s₁ with ⟨f | f, s⟩
  · simp [built] at facts
  simp only [built, Option.any_some] at facts
  rcases entered : f.execute handing ⟨s.noted {} (.callStarted p.name p.slotCount), ()⟩ with ⟨⟨u, g⟩, N⟩
  simp only [entered, Bool.and_eq_true, Bool.not_eq_true', List.all_eq_true, decide_eq_true_eq] at facts
  obtain ⟨⟨⟨⟨⟨⟨⟨⟨⟨ran, succeeds⟩, checked⟩, four⟩, distinct⟩, live⟩, failure⟩, buffers⟩, others⟩, fit⟩ := facts
  obtain ⟨v, M', success⟩ := exists_ok succeeds
  have admitted : p.Admits {} [] := Plan.admits_of_isOk checked {}
  cases u with
  | error e => cases ran
  | ok u =>
  have produces : g.Produces N.engine.memory fun a => a ∈ (g.nativeValues N.engine.memory).flatMap (·.blocks N.engine.memory) := by
    refine ⟨fun a ha => ?_, fun w hw => ⟨w.fits_of_check (fit w hw), fun a ha => List.mem_flatMap.mpr ⟨w, hw, ha⟩⟩,
      distinct, ⟨?_, ?_⟩, fun q hq visible other => ?_⟩
    · obtain ⟨b, hb, address⟩ := List.any_eq_true.mp (live a ha)
      exact ⟨b, hb, by simpa using address⟩
    · simpa using failure
    · simp [List.isEmpty_iff.mp buffers]
    · have shown := others q hq
      rw [other, Bool.or_false, Parameter.isHidden_iff] at shown
      exact absurd shown visible
  obtain ⟨t, events, -, counts⟩ := handedOver_of_execute (.compiled naming _ _ compiled) handing_keepsPlaces admitted
    built entered produces success
  refine ⟨p, g, N, M', v, t, s₁, compiled, success, events, four, fun a handed => ?_⟩
  have belongs : a ∈ (g.nativeValues N.engine.memory).flatMap (·.blocks N.engine.memory) :=
    (Frame.sublist_flatMap fun w => w.handedOver_sublist N.engine.memory).subset handed
  rw [counts a belongs, if_pos handed]

end Ferry
