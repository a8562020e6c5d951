import Ferry.Proofs.Call.Reclaiming
import Ferry.Proofs.Marshal.Discarding

/-!
# Collecting, whichever way it ends

Outputs are collected one after the other, and any of them may fail to convert; or native code has reported a
failure, and none is collected. In every case the frame keeps what reclaiming looks at: `Frame.Settled` says that no
more happened than that counts were settled, as the length parameters show them, and buffers given away. And the
engine releases nothing but copies that it made while collecting, and buffers of the frame: `collect_gathering`.
-/

set_option autoImplicit false

namespace Ferry

namespace Frame

variable {g f f' : Frame} {m m' : Memory} {s₀ s s' : Engine} {q : Parameter}

theorem Placed.load_remains (placed : g.Placed m) (remains : m.Remains [g.failure] m') (apart : g.cells ≠ g.failure)
    {i : Nat} (inside : i < g.plan.parameters.length) : m'.load .u64 (g.cell i) = m.load .u64 (g.cell i) := by
  obtain ⟨b, hb, address, room⟩ := placed
  have fits := room i inside
  have hb' := remains b hb (by rw [address]; simpa using apart)
  rw [cell, ← address, Memory.load_address_add hb (by omega), Memory.load_address_add hb' (by omega)]

/-! ## The frame -/

theorem binding_update_cases (f : Frame) (k i : Nat) (change : Binding → Binding) :
    (f.update k change).binding i = f.binding i ∨
      i = k ∧ (f.update k change).binding i = change (f.binding i) := by
  by_cases here : k = i
  · subst here
    by_cases inside : k < f.bindings.length
    · exact Or.inr ⟨rfl, binding_update_self inside change⟩
    · left
      rw [update, List.modify_eq_self (Nat.le_of_not_lt inside)]
  · exact Or.inl (binding_update_of_ne here change)

/-- What is known of the element count of a parameter: what was settled when the frame was built, or what the length
parameter of an output shows. -/
inductive CountKnown (g : Frame) (m : Memory) (q : Parameter) : Option Nat → Prop
  | built : CountKnown g m q (g.binding q.index).count
  | shown (l n : Nat) (linked : q.handling = .array l) (out : q.direction.isOut = true)
    (open_ : q.direction = .both → (g.binding q.index).count = none) (shows : g.lengthShown m l = some n) :
    CountKnown g m q (some n)

/-- The frame `f` is `g`, except that counts may be settled and buffers given away. -/
structure Settled (g : Frame) (m : Memory) (f : Frame) : Prop where
  plan : f.plan = g.plan
  cells : f.cells = g.cells
  failure : f.failure = g.failure
  returned : f.returned = g.returned
  slot : ∀ i, (f.binding i).slot = (g.binding i).slot
  engineMade : ∀ i, (f.binding i).engineMade = (g.binding i).engineMade
  built : ∀ i, (f.binding i).built = (g.binding i).built
  callback : ∀ i, (f.binding i).callback = (g.binding i).callback
  buffer : ∀ i, (f.binding i).buffer = none ∨ (f.binding i).buffer = (g.binding i).buffer
  count : ∀ q ∈ g.plan.parameters, g.CountKnown m q (f.binding q.index).count
  returnedCount : f.returnedCount = g.returnedCount ∨
    ∃ l n, g.plan.resultLength = some l ∧ g.lengthShown m l = some n ∧ f.returnedCount = some n

namespace Settled

theorem refl (g : Frame) (m : Memory) : g.Settled m g :=
  ⟨rfl, rfl, rfl, rfl, fun _ => rfl, fun _ => rfl, fun _ => rfl, fun _ => rfl, fun _ => Or.inr rfl, fun _ _ => .built,
    Or.inl rfl⟩

theorem held_eq (h : g.Settled m f) (m' : Memory) (q : Parameter) : f.held m' q = g.held m' q := by
  simp only [held, cell, h.cells, h.slot]

theorem lengthShown_eq (h : g.Settled m f) (placed : g.Placed m) (remains : m.Remains [g.failure] m')
    (apart : g.cells ≠ g.failure) (coherent : g.plan.Coherent) (index : Nat) :
    f.lengthShown m' index = g.lengthShown m index := by
  unfold lengthShown
  rw [h.plan]
  cases found : g.plan.parameter? index with
  | none => rfl
  | some q =>
      have inside := coherent.index_lt (List.mem_of_getElem? found)
      have held : f.held m' q = g.held m q := by
        rw [h.held_eq]
        unfold held
        rw [placed.load_remains remains apart inside]
      simp only [Option.bind_some, held]

/-- A change to one binding that leaves its slots, and settles the count or gives the buffer away. -/
theorem update {k : Nat} {change : Binding → Binding} (h : g.Settled m f)
    (kept : ∀ b, (change b).slot = b.slot ∧ (change b).engineMade = b.engineMade ∧ (change b).built = b.built ∧
      (change b).callback = b.callback)
    (buffer : ∀ b, (change b).buffer = none ∨ (change b).buffer = b.buffer)
    (count : ∀ r ∈ g.plan.parameters, r.index = k → g.CountKnown m r (change (f.binding k)).count) :
    g.Settled m (f.update k change) where
  plan := h.plan
  cells := h.cells
  failure := h.failure
  returned := h.returned
  slot i := by
    rw [← h.slot i]
    exact field_update (fun b => (kept b).1) f k i
  engineMade i := by
    rw [← h.engineMade i]
    exact field_update (fun b => (kept b).2.1) f k i
  built i := by
    rw [← h.built i]
    exact field_update (fun b => (kept b).2.2.1) f k i
  callback i := by
    rw [← h.callback i]
    exact field_update (fun b => (kept b).2.2.2) f k i
  buffer i := by
    rcases binding_update_cases f k i change with same | ⟨-, changed⟩
    · rw [same]
      exact h.buffer i
    · rw [changed]
      rcases buffer (f.binding i) with none | same
      · exact Or.inl none
      · rw [same]
        exact h.buffer i
  count r hr := by
    rcases binding_update_cases f k r.index change with same | ⟨here, changed⟩
    · rw [same]
      exact h.count r hr
    · rw [changed, here]
      exact count r hr here
  returnedCount := h.returnedCount

end Settled

/-! ## Steps that keep both -/

def bufferBlocks (f : Frame) : List UInt64 :=
  f.bindings.filterMap (·.buffer)

theorem mem_bufferBlocks {i : Nat} {a : UInt64} (held : (f.binding i).buffer = some a) : a ∈ f.bufferBlocks := by
  unfold binding at held
  cases found : f.bindings[i]? with
  | none =>
      rw [found] at held
      cases held
  | some b =>
      rw [found] at held
      exact List.mem_filterMap.mpr ⟨b, List.mem_of_getElem? found, held⟩

/-- The frame and the engine while outputs are collected: `g` and `s₀` are those right after native code. -/
structure Gathering (g : Frame) (s₀ : Engine) (f : Frame) (s : Engine) : Prop where
  frame : g.Settled s₀.memory f
  engine : s₀.Leaves g.bufferBlocks [] [] s

/-- An action of the collection: whichever way it ends, no more has happened than may happen, and what it yields has
the given property. -/
def Gathers {α : Type} (g : Frame) (s₀ : Engine) : FrameM α → (α → Prop) → Prop :=
  Keeps (Gathering g s₀)

/-- The value owns nothing but what was made while collecting, and buffers of the frame. -/
def Spare (g : Frame) (s₀ : Engine) (v : Value) : Prop :=
  ∀ a ∈ v.owned, s₀.memory.frontier ≤ a.toNat ∨ a ∈ g.bufferBlocks

namespace Gathers

variable {α : Type} {P : α → Prop}

theorem get : Gathers g s₀ (getThe Frame) (g.Settled s₀.memory) := by
  intro f s r f' s' h run
  obtain ⟨h', holds⟩ := Keeps.get f s r f' s' h run
  exact ⟨h', fun a same => (holds a same).elim fun _ h => h.frame⟩

theorem modify {change : Frame → Frame} (keeps : ∀ f, g.Settled s₀.memory f → g.Settled s₀.memory (change f)) :
    Gathers g s₀ (modifyThe Frame change) fun _ => True :=
  Keeps.modify fun f _ h => ⟨keeps f h.frame, h.engine⟩

theorem convert {ε : Type} {blame : ε → InvokeFailure} {act : ExceptT ε EngineM α}
    (converts : ∀ s, s₀.Leaves g.bufferBlocks [] [] s →
      s.Leaves [] [] [] (act s).2 ∧ ∀ a, (act s).1 = .ok a → P a) : Gathers g s₀ (FrameM.convert blame act) P :=
  Keeps.convert fun _ s h =>
    ⟨⟨h.frame, h.engine.trans (converts s h.engine).1.of_nil⟩, (converts s h.engine).2⟩

theorem copies {blame : MarshalError → InvokeFailure} {act : MarshalM Value} (h : Copies act) :
    Gathers g s₀ (FrameM.convert blame act) (g.Spare s₀) :=
  convert fun s left => ⟨(h s).1, fun v yields a ha =>
    Or.inl (Nat.le_trans left.frontier_le ((h s).2 v yields a ha))⟩

end Gathers

/-! ## The collection -/

section Collection

variable (placed : g.Placed s₀.memory) (apart : g.cells ≠ g.failure) (coherent : g.plan.Coherent)

include placed apart coherent

theorem gathers_currentLength (settled : g.Settled s₀.memory f) (blame : MarshalError → InvokeFailure) (index : Nat) :
    Gathers g s₀ (FrameM.convert blame (f.currentLength index)) fun n => g.lengthShown s₀.memory index = some n := by
  refine .convert fun s left => ?_
  obtain ⟨shows, same⟩ := currentLength_eq f index s
  rw [same]
  refine ⟨.refl s [] [] [], fun n counted => ?_⟩
  rw [← settled.lengthShown_eq placed (fun b hb _ => left.remains b hb (by simp)) apart coherent, ← shows, counted]
  rfl

theorem gathers_collectReturn : Gathers g s₀ FrameM.collectReturn (g.Spare s₀) := by
  unfold FrameM.collectReturn
  refine .bind Gathers.get fun f settled => ?_
  simp only
  split
  · rename_i element length index type linked
    refine .bind (gathers_currentLength placed apart coherent settled _ index) fun n shows => ?_
    refine .bind (Gathers.modify fun f' settled' => ?_) fun _ _ => Gathers.copies (arrayFromNative_copies _ _ _ _ _)
    rw [settled.plan] at linked
    exact { settled' with returnedCount := Or.inr ⟨index, n, linked, shows, rfl⟩ }
  · exact Gathers.copies (fromNative_copies _ _ _)

theorem gathers_settledCount {l : Nat} (hq : q ∈ g.plan.parameters) (linked : q.handling = .array l)
    (out : q.direction.isOut = true) :
    Gathers g s₀ (FrameM.settledCount q l) fun n => g.CountKnown s₀.memory q (some n) := by
  unfold FrameM.settledCount
  refine .bind Gathers.get fun f settled => ?_
  split
  · rename_i n both found
    refine .pure ?_
    rw [← found]
    exact settled.count q hq
  · rename_i unsettled
    refine .bind (gathers_currentLength placed apart coherent settled _ l) fun n shows => ?_
    have free : q.direction = .both → (g.binding q.index).count = none := fun both => by
      have known := settled.count q hq
      generalize found : (f.binding q.index).count = count at known
      cases known with
      | shown l' n' => exact absurd found (unsettled n' both)
      | built =>
          cases before : (g.binding q.index).count with
          | none => rfl
          | some n' => exact absurd (found.trans before) (unsettled n' both)
    refine .bind (Gathers.modify fun f' settled' => ?_) fun _ _ => .pure (.shown l n linked out free shows)
    refine settled'.update (fun _ => ⟨rfl, rfl, rfl, rfl⟩) (fun _ => Or.inr rfl) fun r hr same => ?_
    have equal : r = q := by
      have at_q := coherent.inside hq
      rw [← same, coherent.inside hr] at at_q
      exact Option.some.inj at_q
    subst equal
    exact .shown l n linked out free shows

theorem gathers_collectArray {l : Nat} (hq : q ∈ g.plan.parameters) (linked : q.handling = .array l)
    (out : q.direction.isOut = true) : Gathers g s₀ (FrameM.collectArray q l) (g.Spare s₀) := by
  unfold FrameM.collectArray
  split
  · refine .bind (gathers_settledCount placed apart coherent hq linked out) fun n _ => ?_
    refine .bind Gathers.get fun f settled => ?_
    simp only
    split
    · exact .bind (.pure (P := fun _ => True) trivial) fun slot _ => Gathers.copies (arrayFromNative_copies _ _ _ _ _)
    · exact .bind (.load _ _) fun slot _ => Gathers.copies (arrayFromNative_copies _ _ _ _ _)
  · exact .throw _

omit placed apart coherent

theorem gathers_ownStructure (layout : Layout) {block : UInt64} (provided : block ∈ g.bufferBlocks) :
    Gathers g s₀ (liftM (ownStructure layout block) : FrameM Boxed) fun b => b = ⟨layout, block, true⟩ :=
  Keeps.lift fun _ s h => by
    have owned : ∀ a ∉ g.bufferBlocks, s.Spares a (ownStructure layout block s).2 := fun a kept =>
      EngineM.own_spares (fun same => kept (by rwa [same])) s
    have owned : s.Leaves g.bufferBlocks [] [] (ownStructure layout block s).2 :=
      ⟨⟨[], rfl, by simp [losses]⟩, Nat.le_refl _, fun _ hb _ => hb, fun a _ kept _ => owned a kept,
        fun a _ kept free => (owned a kept).owners.trans free⟩
    exact ⟨⟨h.frame, h.engine.trans owned⟩, rfl⟩

theorem gathers_collectBuffer : Gathers g s₀ (FrameM.collectBuffer q) (g.Spare s₀) := by
  unfold FrameM.collectBuffer
  refine .bind Gathers.get fun f settled => ?_
  simp only
  split
  · cases provided : (f.binding q.index).buffer with
    | none => exact .pure fun a ha => by cases ha
    | some block =>
        refine .bind (Gathers.modify fun f' settled' => ?_) fun _ _ => ?_
        · exact settled'.update (fun _ => ⟨rfl, rfl, rfl, rfl⟩) (fun _ => Or.inl rfl) fun r hr same => by
            rw [← same]
            exact settled'.count r hr
        · have mine : block ∈ g.bufferBlocks := by
            rcases settled.buffer q.index with gone | kept
            · rw [gone] at provided
              cases provided
            · exact mem_bufferBlocks (kept.symm.trans provided)
          refine .bind (gathers_ownStructure _ mine) fun boxed same => .pure fun a ha => ?_
          subst same
          simp only [Value.owned, if_true, List.mem_singleton] at ha
          subst ha
          exact Or.inr mine
  · exact Gathers.copies (arrayFromNative_copies _ _ _ _ _)
  · exact .bind (.load _ _) fun slot _ => Gathers.copies (fromNative_copies _ _ _)

theorem gathers_collectValue : Gathers g s₀ (FrameM.collectValue q) (g.Spare s₀) := by
  unfold FrameM.collectValue
  split
  · exact gathers_collectBuffer
  · exact .bind Gathers.get fun f settled => .bind (.load _ _) fun slot _ => Gathers.copies (fromNative_copies _ _ _)

theorem gathers_releaseAll {found : List Value} (spare : ∀ v ∈ found, g.Spare s₀ v) :
    Gathers g s₀ (liftM (Value.releaseAll found.reverse) : FrameM Unit) fun _ => True := by
  intro f s r f' s' h run
  rw [run_lift] at run
  cases run
  obtain ⟨lost, only, drops⟩ := releaseAll_drops found.reverse s
  have owns : ∀ a ∈ Value.ownedAll found.reverse, s₀.memory.frontier ≤ a.toNat ∨ a ∈ g.bufferBlocks := by
    intro a ha
    obtain ⟨v, hv, owned⟩ := mem_ownedAll.mp (mem_ownedAll_reverse.mp ha)
    exact spare v hv a owned
  refine ⟨⟨h.frame, h.engine.givesUp drops (fun a ha => owns a (only a ha)) fun a old kept _ => ?_⟩, fun _ _ => trivial⟩
  refine releaseAll_spares found.reverse (fun owned => ?_) s
  rcases owns a owned with new | provided
  · omega
  · exact kept provided

include placed apart coherent

theorem gathers_collectParameter (hq : q ∈ g.plan.parameters) :
    Gathers g s₀ (FrameM.collectParameter q) fun o => ∀ v ∈ o, g.Spare s₀ v := by
  unfold FrameM.collectParameter
  by_cases out : q.direction.isOut = true
  · rw [if_neg (by simp [out])]
    cases handling : q.handling with
    | hidden | callback => exact .pure (by simp)
    | array l =>
        exact .bind (gathers_collectArray placed apart coherent hq handling out) fun v spare => .pure (by simpa using spare)
    | normal => exact .bind gathers_collectValue fun v spare => .pure (by simpa using spare)
  · rw [if_pos (by simp [out])]
    exact .pure (by simp)

theorem gathers_collectParameters {parameters : List Parameter} (sub : ∀ q ∈ parameters, q ∈ g.plan.parameters)
    {found : List Value} (spare : ∀ v ∈ found, g.Spare s₀ v) :
    Gathers g s₀ (FrameM.collectParameters parameters found) fun _ => True := by
  induction parameters generalizing found with
  | nil => exact .pure trivial
  | cons q rest ih =>
      unfold FrameM.collectParameters
      have first := gathers_collectParameter placed apart coherent (sub q List.mem_cons_self)
      refine .bind (.tryCatch first fun e => ?_) fun o outputs => ?_
      · exact .bind (gathers_releaseAll spare) fun _ _ => .throw e
      · refine ih (fun r hr => sub r (List.mem_cons_of_mem q hr)) fun v hv => ?_
        rcases List.mem_append.mp hv with new | old
        · exact outputs v (Option.mem_toList.mp new)
        · exact spare v old

end Collection

/-! ## Failure reports -/

theorem store_leaves {given silent : List UInt64} {a : UInt64} {t : Engine} (released : s.GivesUp [] t)
    (spares : ∀ x, x ∉ silent → s.Spares x t) (place : ∃ b ∈ s.memory.chunks, b.address = a) (type : NativeType)
    (x : Slot) : s.Leaves given [a] silent (EngineM.store type a x t).2 := by
  obtain ⟨b, hb, address⟩ := place
  have hb' := (released.chunks b).mpr hb
  have reached : b.reaches a.toNat = true := by
    rw [← address, Memory.toNat_address hb']
    exact b.reaches_base
  have moved := Memory.write_evolves hb' reached (x.toBytes type)
  rw [address] at moved
  have nothing : s.GivesUp (([] : List UInt64).map .block) t := released
  have first : s.Leaves given [a] silent t :=
    (Engine.Leaves.refl s given [a] silent).givesUp nothing (by simp) fun y _ _ loud => spares y loud
  exact ⟨first.events, Nat.le_trans first.frontier_le moved.frontier_le,
    fun c hc out => moved.mem_chunks (first.remains c hc out) out,
    fun y _ _ loud => (spares y loud).trans (EngineM.store_spares y type a x t), fun y behind kept free =>
      first.unowned y (Nat.le_trans (Nat.le_of_eq (Memory.frontier_store _ _ _ _).symm) behind) kept free⟩

theorem load_store_address {b : Block} (hb : b ∈ m.chunks) (room : 8 ≤ b.capacity) (x : Slot) :
    (m.store .pointer b.address x).load .pointer b.address = x := by
  obtain ⟨b', hb', base, size, -, stored, -⟩ :=
    Memory.exists_chunk_store hb .pointer (show 0 + NativeType.pointer.size ≤ b.capacity from room) (by omega) x
  have same : b'.address = b.address := by simp [Block.address, base]
  have origin : b.address + UInt64.ofNat 0 = b.address := by simp
  have loaded := Memory.load_address_add hb' (show 0 < b'.capacity by rw [Block.capacity_congr size]; omega) .pointer
  rwa [same, origin, stored, Slot.ofNat_payload_word rfl] at loaded

/-- The frame and the engine when the outputs are collected, or are not since native code has reported a failure. The
report is gone. -/
structure Collected (g : Frame) (s₀ : Engine) (f : Frame) (s : Engine) : Prop where
  frame : g.Settled s₀.memory f
  engine : s₀.Leaves g.bufferBlocks [g.failure] (s₀.memory.reported g.failure) s
  unreported : (∃ b ∈ s₀.memory.chunks, b.address = g.failure ∧ 8 ≤ b.capacity) →
    (s.memory.load .pointer g.failure).isNull = true

theorem Gathering.collected (h : Gathering g s₀ f s) (null : (s₀.memory.load .pointer g.failure).isNull = true) :
    Collected g s₀ f s := by
  refine ⟨h.frame, h.engine.of_given, fun ⟨b, hb, address, room⟩ => ?_⟩
  have hb' := h.engine.remains b hb (by simp)
  have reached : b.reaches b.address.toNat = true := by
    rw [Memory.toNat_address hb]
    exact b.reaches_base
  rw [← address] at null ⊢
  rwa [Memory.load_eq hb' reached, ← Memory.load_eq hb reached]

theorem takeFailure_collected {r : Except InvokeFailure (Option NativeFailure)}
    (place : ∃ b ∈ s₀.memory.chunks, b.address = g.failure)
    (run : g.run FrameM.takeFailure s₀ = ((r, f'), s')) :
    (r = .ok none ∧ f' = g ∧ s' = s₀ ∧ (s₀.memory.load .pointer g.failure).isNull = true) ∨
      (∃ failure, r = .ok (some failure)) ∧ Collected g s₀ f' s' := by
  unfold FrameM.takeFailure at run
  rw [run_bind, run_get] at run
  simp only at run
  rw [run_bind, run_lift] at run
  simp only at run
  split at run
  · rename_i null
    cases run
    exact Or.inl ⟨rfl, rfl, rfl, null⟩
  · have freed := freeFailure_givesUp (s₀.memory.load .pointer g.failure).address s₀
    have spares : ∀ x, x ∉ s₀.memory.reported g.failure →
        s₀.Spares x (EngineM.freeFailure (s₀.memory.load .pointer g.failure).address s₀).2 :=
      fun x loud => freeFailure_spares loud
    cases run
    refine Or.inr ⟨⟨_, rfl⟩, .refl g _, store_leaves freed spares place .pointer .zero, fun ⟨b, hb, address, room⟩ => ?_⟩
    have stored := load_store_address ((freed.chunks b).mpr hb) room .zero
    rw [address] at stored
    exact congrArg Slot.isNull stored

/-- Whichever way the collection ends, the frame and the engine have what reclaiming looks at. -/
theorem collect_gathering {r : Except InvokeFailure Value} (placed : g.Placed s₀.memory) (apart : g.cells ≠ g.failure)
    (coherent : g.plan.Coherent) (place : ∃ b ∈ s₀.memory.chunks, b.address = g.failure)
    (run : g.run FrameM.collect s₀ = ((r, f'), s')) : Collected g s₀ f' s' := by
  unfold FrameM.collect at run
  rcases run_bind_cases run with ⟨failure, f, s, taken, later⟩ | ⟨e, failed, -⟩
  · rcases takeFailure_collected place taken with ⟨same, rfl, rfl, null⟩ | ⟨⟨reported, same⟩, gathered⟩
    · cases same
      have begun : Gathering f s f s := ⟨.refl f _, .refl s _ _ _⟩
      have others : ∀ found : List Value, (∀ v ∈ found, f.Spare s v) → Gathers f s (do
          let f ← getThe Frame
          return FrameM.composeOutputs (← FrameM.collectParameters f.plan.parameters found)) fun _ => True := by
        intro found spare
        refine .bind Gathers.get fun f' settled => ?_
        rw [settled.plan]
        have collected := gathers_collectParameters placed apart coherent (fun _ hq => hq) spare
        exact .bind collected fun _ _ => .pure trivial
      simp only at later
      rw [run_bind, run_get] at later
      simp only at later
      split at later
      · exact (others [] (by simp) f s r f' s' begun later).1.collected null
      · rw [map_eq_pure_bind] at later
        have result := (gathers_collectReturn placed apart coherent).bind fun v spare =>
          Keeps.pure (a := List.singleton v) (P := fun found => ∀ v ∈ found, f.Spare s v) (by
            simpa [List.singleton] using spare)
        exact (result.bind others f s r f' s' begun later).1.collected null
    · cases same
      cases later
      exact gathered
  · rcases takeFailure_collected place failed with ⟨impossible, -⟩ | ⟨⟨reported, impossible⟩, -⟩ <;> cases impossible

end Frame

end Ferry
