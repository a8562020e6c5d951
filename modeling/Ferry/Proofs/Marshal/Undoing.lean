import Ferry.Proofs.Marshal.Demands
import Ferry.Proofs.Marshal.RoundTrip

/-!
# Nothing left behind

The engine makes a block for each text and for each array in a value, and it gives them up again: all of them when the value
is released in full, and those that there are when an item does not convert. The conversion goes by the items of the value,
and a release by what memory shows. `Partial` says how the two agree while the block of an array is filled, one item at a
time, for arrays of any depth.
-/

set_option autoImplicit false

namespace Ferry

variable {s s' s'' s₀ : Engine} {value : Value} {type element : Ty} {length : ArrayLength} {slot : Slot}
  {nullable : Bool}

/-! ## What a release leaves -/

/-- A relation between states that holds across the release of a block that the engine made, and across any number of such
releases. -/
structure Engine.AcrossReleases (R : Engine → Engine → Prop) : Prop where
  refl : ∀ s, R s s
  trans : ∀ {s s' s''}, R s s' → R s' s'' → R s s''
  release : ∀ a s, R s (EngineM.release a true s).2

namespace Engine.AcrossReleases

variable {R : Engine → Engine → Prop}

theorem freeValue (across : Engine.AcrossReleases R) (type : Ty) (slot : Slot) (depth : ReleaseDepth) (s : Engine) :
    R s (Ferry.freeValue type slot depth .engine s).2 :=
  freeValue_across .engine across.refl across.trans across.release type slot depth s

theorem freeArray (across : Engine.AcrossReleases R) (element : Ty) (length : ArrayLength) (slot : Slot)
    (known : Option Nat) (depth : ReleaseDepth) (s : Engine) :
    R s (Ferry.freeArray element length slot known depth .engine s).2 :=
  freeArray_across .engine across.refl across.trans across.release element length slot known depth s

end Engine.AcrossReleases

/-- The blocks that are left are those that the events do not tell the release of. -/
def Engine.Frees (s s' : Engine) : Prop :=
  ∃ t, s'.events = t ++ s.events ∧
    ∀ b, b ∈ s'.memory.blocks ↔ b ∈ s.memory.blocks ∧ .block b.address ∉ losses t

theorem across_frees : Engine.AcrossReleases Engine.Frees where
  refl s := ⟨[], rfl, by simp [losses]⟩
  trans := by
    rintro s s' s'' ⟨t, events, left⟩ ⟨t', events', left'⟩
    refine ⟨t' ++ t, by rw [events', events, List.append_assoc], fun b => ?_⟩
    rw [left', left, losses_append, List.mem_append]
    tauto
  release a s := by
    obtain ⟨counters, -, same⟩ := EngineM.release_eq a true s
    rw [same]
    refine ⟨[_], rfl, fun b => ?_⟩
    rw [Memory.mem_blocks_release]
    simp [losses, Event.lost?]

theorem Engine.Frees.of_givesUp {lost : List UInt64} (frees : s.Frees s') (given : s.GivesUp (lost.map .block) s') (b : Block) :
    b ∈ s'.memory.blocks ↔ b ∈ s.memory.blocks ∧ b.address ∉ lost := by
  obtain ⟨t, events, left⟩ := frees
  rw [left, (given.moves.of_events events).2.mem_iff]
  simp

/-! ## Counting -/

/-- The blocks that the engine made and did not give up, by its counters. -/
def Engine.outstanding (s : Engine) : Int := s.counters.allocations - s.counters.releases

/-- The counters count what the events tell. -/
def Engine.Tallies (s s' : Engine) : Prop :=
  ∃ t, s'.events = t ++ s.events ∧ s'.counters.allocations = s.counters.allocations + (gains t).length ∧
    s'.counters.releases = s.counters.releases + (losses t).length

namespace Engine.Tallies

theorem refl (s : Engine) : s.Tallies s := ⟨[], rfl, rfl, rfl⟩

theorem trans (first : s.Tallies s') (second : s'.Tallies s'') : s.Tallies s'' := by
  obtain ⟨t, events, made, released⟩ := first
  obtain ⟨t', events', made', released'⟩ := second
  refine ⟨t' ++ t, by rw [events', events, List.append_assoc], ?_, ?_⟩
  · rw [made', made, gains_append, List.length_append]
    omega
  · rw [released', released, losses_append, List.length_append]
    omega

theorem quiet (memory : Memory) (s : Engine) : s.Tallies { s with memory } := ⟨[], rfl, rfl, rfl⟩

theorem allocate (size : Nat) (s : Engine) : s.Tallies (EngineM.allocate size s).2 := by
  rcases made : EngineM.allocate size s with ⟨_ | a, s'⟩
  · rw [EngineM.allocate_none made]
    exact .refl s
  · obtain ⟨memory, -, rfl⟩ := EngineM.allocate_some made
    exact ⟨[_], rfl, rfl, rfl⟩

theorem across : AcrossReleases Tallies := ⟨refl, trans, fun _ _ => ⟨[_], rfl, rfl, rfl⟩⟩

theorem outstanding_eq {gained lost : List Resource} (h : s.Tallies s') (moves : s.Moves gained lost s')
    (balanced : gained.Perm lost) : s'.outstanding = s.outstanding := by
  obtain ⟨t, events, made, released⟩ := h
  obtain ⟨gains, losses⟩ := moves.of_events events
  have same := (gains.trans (balanced.trans losses.symm)).length_eq
  unfold outstanding
  rw [made, released, same]
  omega

end Engine.Tallies

theorem encode_tallies (value : Value) (type : Ty) (nullable : Bool) (s : Engine) :
    s.Tallies (encode value type nullable s).2 :=
  encode_across (R := Engine.Tallies) .refl .trans .allocate (fun _ _ _ => .quiet _ _) Engine.Tallies.across.release value type
    nullable s

theorem encodeArray_tallies (value : Value) (element : Ty) (length : ArrayLength) (nullable : Bool) (s : Engine) :
    s.Tallies (encodeArray value element length nullable s).2 :=
  encodeArray_across (R := Engine.Tallies) .refl .trans .allocate (fun _ _ _ => .quiet _ _) Engine.Tallies.across.release value
    element length nullable s

/-! ## What a conversion makes and what it undoes -/

/-- The engine makes a block for every value of the type that is not null. -/
def Ty.isMade : Ty → Bool
  | .utf8 | .array _ _ => true
  | _ => false

theorem Ty.size_of_made (made : type.isMade = true) : type.native.size = 8 := by
  cases type with
  | utf8 | array => rfl
  | _ => cases made

theorem parts_of_not_made (other : type.isMade = false) (m : Memory) (slot : Slot) : type.parts m .engine slot = [] := by
  cases type with
  | utf8 | array => cases other
  | struct layout => simp [Ty.parts]
  | _ => rfl

/-- A value of a type became a slot, and the blocks of `made` were made for it. They are all that is new, and as long as the
blocks from the first new one on stay as they are, memory shows just these as the blocks of the value. -/
structure Making (type : Ty) (s : Engine) (slot : Slot) (made : List UInt64) (s' : Engine) : Prop where
  moves : s.Moves (made.map .block) [] s'
  forward : s.memory.Evolves [] s'.memory
  only : ∀ b ∈ s'.memory.blocks, s.memory.frontier ≤ b.base → b.address ∈ made
  parts : ∀ m, s'.memory.KeepsFrom s.memory.frontier m → (type.parts m .engine slot).Perm made

/-- What was made between two states was given up again, once each, and nothing else happened to memory. -/
structure Engine.Undone (s s' : Engine) : Prop where
  moves : ∃ made : List UInt64, s.Moves (made.map .block) (made.map .block) s'
  blocks : ∀ b, b ∈ s'.memory.blocks ↔ b ∈ s.memory.blocks
  chunks : ∀ c ∈ s.memory.chunks, c ∈ s'.memory.chunks

theorem Engine.Undone.refl (s : Engine) : s.Undone s :=
  ⟨⟨[], .refl s⟩, fun _ => .rfl, fun _ hc => hc⟩

/-- How a conversion ends. A panic undoes nothing. -/
inductive Ends (type : Ty) (s : Engine) : Except (Failure MarshalError) Slot → Engine → Prop
  | made (slot : Slot) (made : List UInt64) (s' : Engine) (making : Making type s slot made s') : Ends type s (.ok slot) s'
  | undone (e : MarshalError) (s' : Engine) (undone : s.Undone s') : Ends type s (.error (.error e)) s'
  | panicked (text : String) (s' : Engine) : Ends type s (.error (.panic text)) s'

theorem made_of_not_made {made : List UInt64} (making : Making type s slot made s') (other : type.isMade = false) :
    made = [] := by
  have nothing := making.parts s'.memory (.refl _ _)
  rw [parts_of_not_made other] at nothing
  exact nothing.symm.eq_nil

theorem allocate_only {size : Nat} {a : UInt64} (made : EngineM.allocate size s = (some a, s')) :
    ∀ b ∈ s'.memory.blocks, s.memory.frontier ≤ b.base → b.address = a := by
  obtain ⟨memory, allocated, rfl⟩ := EngineM.allocate_some made
  obtain ⟨base, blocks, -⟩ := Memory.allocateEngine?_some allocated
  intro b hb new
  rw [blocks] at hb
  rcases List.mem_cons.mp hb with rfl | old
  · rw [Block.address, ← base, UInt64.ofNat_toNat]
  · have := Memory.base_lt_frontier (Memory.mem_chunks_of_live old)
    omega

theorem only_write {m m₀ : Memory} {listed : List UInt64} (only : ∀ b ∈ m.blocks, m₀.frontier ≤ b.base → b.address ∈ listed)
    (a : UInt64) (bytes : List UInt8) : ∀ b ∈ (m.write a bytes).blocks, m₀.frontier ≤ b.base → b.address ∈ listed := by
  intro b hb new
  obtain ⟨c, hc, base, -⟩ := Memory.exists_of_mem_write hb
  have address : b.address = c.address := by rw [Block.address, Block.address, base]
  rw [address]
  exact only c hc (by omega)

theorem blocks_without {m m' : Memory} {made : List UInt64} (forward : m.Evolves [] m')
    (only : ∀ b ∈ m'.blocks, m.frontier ≤ b.base → b.address ∈ made) (new : ∀ a ∈ made, m.frontier ≤ a.toNat)
    (b : Block) : b ∈ m'.blocks ∧ b.address ∉ made ↔ b ∈ m.blocks := by
  constructor
  · rintro ⟨hb, kept⟩
    by_cases late : m.frontier ≤ b.base
    · exact absurd (only b hb late) kept
    · obtain ⟨c, hc, base⟩ := forward.old b hb (Nat.lt_of_not_le late)
      have same := Memory.eq_of_base (Memory.mem_chunks_of_live (forward.mem hc (by simp)))
        (Memory.mem_chunks_of_live hb) base
      rwa [← same]
  · intro hb
    refine ⟨forward.mem hb (by simp), fun listed => ?_⟩
    have behind := new _ listed
    rw [Memory.toNat_address (Memory.mem_chunks_of_live hb)] at behind
    have := Memory.base_lt_frontier (Memory.mem_chunks_of_live hb)
    omega

theorem Engine.Moves.new {made : List UInt64} {lost : List Resource} (h : s.Moves (made.map .block) lost s') :
    ∀ a ∈ made, s.memory.frontier ≤ a.toNat :=
  fun _ ha => (h.between _ (List.mem_map_of_mem ha)).1

theorem encode_flat_ends {r : Except (Failure MarshalError) Slot} (flat : type.IsFlat)
    (run : encode value type nullable s = (r, s')) : Ends type s r s' := by
  cases r with
  | error failure =>
      cases encode_flat_refused flat run
      cases failure with
      | error e => exact .undone e s (.refl s)
      | panic text => exact .panicked text s
  | ok slot =>
      obtain ⟨moves, forward, -⟩ := encode_flat_moves flat run
      refine .made slot (type.owned slot) s' ⟨moves, forward, ?_, fun m _ => by rw [parts_engine flat]⟩
      rcases encode_flat_cases flat run with ⟨text, rfl, copied⟩ | ⟨rfl, -⟩
      · rcases encodeText_cases copied with ⟨block, s₁, made, same, rfl⟩ | ⟨-, e, impossible⟩
        · cases same
          obtain ⟨b, hb, address, -⟩ := allocate_block made
          have present : (Slot.ofAddress block).isNull = false := by
            rw [← address]
            exact isNull_ofAddress (Memory.mem_chunks_of_live hb)
          have owned : Ty.utf8.owned (.ofAddress block) = [block] := by
            simp only [Ty.owned, present]
            rfl
          rw [owned]
          exact only_write (fun c hc new => List.mem_singleton.mpr (allocate_only made c hc new)) _ _
        · cases impossible
      · intro b hb new
        have := Memory.base_lt_frontier (Memory.mem_chunks_of_live hb)
        omega

theorem present_of_made (made : type.isMade = true) (run : encode value type false s = (.ok slot, s')) :
    slot.isNull = false := by
  cases type with
  | utf8 => exact (encode_flat_moves (by intro element length same; cases same) run).2.2 rfl rfl
  | array element length =>
      rw [encode] at run
      obtain ⟨⟨x, count⟩, s₁, filled, last⟩ := EngineM.failing_bind_ok run
      cases last
      rcases encodeArrayWith_cases filled with ⟨items, block, s₂, done, -, -, allocated, -, same⟩ |
        ⟨-, ⟨-, other⟩ | ⟨e, impossible⟩⟩
      · cases done with
        | error e => cases same
        | ok u =>
            cases same
            obtain ⟨b, hb, rfl, -⟩ := allocate_block allocated
            exact isNull_ofAddress (Memory.mem_chunks_of_live hb)
      · cases value with
        | array items => exact absurd rfl (other items)
        | undefined | null => cases filled
        | _ => cases filled
      · cases impossible
  | _ => cases made

/-! ## Filling the block of an array -/

/-- The first elements of a block consist of the blocks of `made`, none of them is null, and the elements behind them are
zero. -/
structure Block.Shows (b : Block) (element : Ty) (index : Nat) (made : List UInt64) (m : Memory) : Prop where
  parts : ∀ m', m.KeepsFrom (b.base + 1) m' →
    ((List.range index).flatMap fun j => element.parts m' .engine (b.element element.native j)).Perm made
  present : ∀ j < index, (b.element element.native j).isNull = false
  behind : ∀ j, index ≤ j → b.element element.native j = .zero

theorem Block.Shows.store {b : Block} {index floor : Nat} {made more : List UInt64} {m₀ m : Memory}
    (shows : b.Shows element index made m₀) (has : element.isMade = true) (forward : m₀.Evolves [] m) (hb : b ∈ m.chunks)
    (room : (index + 1) * element.native.size ≤ b.capacity) (present : slot.isNull = false) (new : b.base < floor)
    (parts : ∀ m', m.KeepsFrom floor m' → (element.parts m' .engine slot).Perm more) :
    ∃ b' ∈ (m.store element.native (elementAddress b.address element.native index) slot).chunks,
      b'.base = b.base ∧ b'.size = b.size ∧ b'.Shows element (index + 1) (made ++ more)
        (m.store element.native (elementAddress b.address element.native index) slot) := by
  obtain ⟨b', hb', base, size, -, stored, others⟩ := Memory.exists_element_store hb room slot
  rw [Slot.ofNat_payload_word (Ty.size_of_made has)] at stored
  have kept : m.KeepsFrom (b.base + 1)
      (m.store element.native (elementAddress b.address element.native index) slot) :=
    .of_write hb (Nat.lt_succ_self _) (Memory.reaches_address_add hb (Block.element_inside room)) _
  refine ⟨b', hb', base, size, fun m' keeps => ?_, fun j before => ?_, fun j behind => ?_⟩
  · rw [base] at keeps
    have all := kept.trans keeps
    rw [List.range_succ, List.flatMap_append, List.flatMap_singleton, stored]
    refine List.Perm.append ?_ (parts m' (all.mono new))
    have early := shows.parts m' ((Memory.KeepsFrom.of_evolves forward).trans all)
    refine .trans (.of_eq (List.flatMap_congr fun j hj => ?_)) early
    rw [others j (Nat.ne_of_lt (List.mem_range.mp hj))]
  · rcases Nat.lt_succ_iff_lt_or_eq.mp before with early | rfl
    · rw [others j (Nat.ne_of_lt early)]
      exact shows.present j early
    · rw [stored]
      exact present
  · rw [others j (Nat.ne_of_gt behind)]
    exact shows.behind j (Nat.le_of_succ_le behind)

/-- How far an array is whose items before an index are stored: the block at `a` was made for it, and those of `made` for
the items. Elements that have blocks of their own are in the block of the array, as far as it has room. -/
structure Partial (element : Ty) (s₀ : Engine) (a : UInt64) (capacity index : Nat) (made : List UInt64) (s : Engine) :
    Prop where
  moves : s₀.Moves ((a :: made).map .block) [] s
  forward : s₀.memory.Evolves [] s.memory
  base : a.toNat = s₀.memory.frontier
  only : ∀ b ∈ s.memory.blocks, s₀.memory.frontier ≤ b.base → b.address ∈ a :: made
  bare : element.isMade = false → made = []
  shows : element.isMade = true → ∃ b ∈ s.memory.chunks, b.address = a ∧ b.capacity = capacity ∧
    b.Shows element index made s.memory

namespace Partial

variable {a : UInt64} {capacity index : Nat} {made more : List UInt64}

theorem start (element : Ty) {size : Nat} (allocated : EngineM.allocate size s = (some a, s')) :
    ∃ capacity, size ≤ capacity ∧ Partial element s a capacity 0 [] s' := by
  obtain ⟨forward, base⟩ := allocate_evolves allocated
  obtain ⟨b, hb, address, -, large, fresh⟩ := allocate_block allocated
  have chunk := Memory.mem_chunks_of_live hb
  refine ⟨b.capacity, ?_, ⟨EngineM.allocate_moves allocated, forward, base, fun c hc new => ?_, fun _ => rfl, fun _ => ?_⟩⟩
  · have := b.size_le_capacity
    omega
  · rw [allocate_only allocated c hc new]
    exact List.mem_cons_self
  · exact ⟨b, chunk, address, rfl, fun _ _ => .refl _, by simp, fun j _ => Block.element_of_fresh fresh _ j⟩

theorem store {s₁ : Engine} (f : Partial element s₀ a capacity index made s) (item : Making element s slot more s₁)
    (present : element.isMade = true → slot.isNull = false) (small : (index + 1) * element.native.size ≤ Memory.limit)
    (room : element.isMade = true → (index + 1) * element.native.size ≤ capacity) :
    Partial element s₀ a capacity (index + 1) (made ++ more)
      { s₁ with memory := s₁.memory.store element.native (elementAddress a element.native index) slot } where
  moves := by
    have both := f.moves.trans_gained item.moves
    rw [← List.map_append, List.cons_append] at both
    exact both.quiet (t := []) rfl rfl rfl (Nat.le_of_eq (Memory.frontier_store _ _ _ _).symm) rfl rfl rfl
  forward := by
    refine (f.forward.trans item.forward).write_behind ?_ _
    have low := s₀.memory.frontier_lt
    have here : index * element.native.size ≤ Memory.limit :=
      Nat.le_trans (Nat.mul_le_mul_right _ (Nat.le_succ index)) small
    rw [toNat_elementAddress (by rw [f.base]; exact low) here, f.base]
    exact Nat.le_add_right _ _
  base := f.base
  only := by
    refine only_write (fun b hb new => ?_) _ _
    rw [← List.cons_append, List.mem_append]
    by_cases late : s.memory.frontier ≤ b.base
    · exact Or.inr (item.only b hb late)
    · obtain ⟨c, hc, base⟩ := item.forward.old b hb (Nat.lt_of_not_le late)
      have address : b.address = c.address := by rw [Block.address, Block.address, base]
      rw [address]
      exact Or.inl (f.only c hc (by omega))
  bare other := by rw [f.bare other, made_of_not_made item other, List.append_nil]
  shows has := by
    obtain ⟨b, hb, rfl, rfl, shows⟩ := f.shows has
    have hb₁ := item.forward.mem_chunks hb (by simp)
    obtain ⟨b', hb', base, size, shows'⟩ := shows.store has item.forward hb₁ (room has) (present has)
      (Memory.base_lt_frontier hb) item.parts
    exact ⟨b', hb', by rw [Block.address, Block.address, base], Block.capacity_congr size, shows'⟩

theorem present (f : Partial element s₀ a capacity index made s) : (Slot.ofAddress a).isNull = false := by
  have base := f.base
  have first := s₀.memory.layout.first_le_frontier
  have nonzero : a ≠ 0 := by
    rintro rfl
    simp only [Memory.firstBlock, UInt64.toNat_zero] at first base
    omega
  simpa [Slot.isNull, Slot.ofAddress] using nonzero

theorem elements (f : Partial element s₀ a capacity index made s) {k : Nat} (le : index ≤ k)
    (room : element.isMade = true → k * element.native.size ≤ capacity) {m : Memory}
    (keeps : s.memory.KeepsFrom s₀.memory.frontier m) :
    ((List.range k).flatMap fun i =>
      element.parts m .engine (m.load element.native (elementAddress a element.native i))).Perm made := by
  cases has : element.isMade with
  | false => simp [parts_of_not_made has, f.bare has]
  | true =>
      obtain ⟨b, hb, rfl, rfl, shows⟩ := f.shows has
      have base : b.base = s₀.memory.frontier := by rw [← f.base, Memory.toNat_address hb]
      have shown : ∀ j < k, m.load element.native (elementAddress b.address element.native j) =
          b.element element.native j := fun j before =>
        Memory.load_element (keeps b hb (Nat.le_of_eq base.symm)) element.native
          (Block.element_inside (Nat.le_trans (Nat.mul_le_mul_right _ before) (room has)))
      obtain ⟨more, rfl⟩ := Nat.exists_eq_add_of_le le
      have zeros : ((List.range more).map (index + ·)).flatMap (fun i =>
          element.parts m .engine (m.load element.native (elementAddress b.address element.native i))) = [] := by
        refine List.flatMap_eq_nil_iff.mpr fun i hi => ?_
        obtain ⟨j, hj, rfl⟩ := List.mem_map.mp hi
        rw [shown _ (Nat.add_lt_add_left (List.mem_range.mp hj) index), shows.behind _ (Nat.le_add_right index j)]
        exact parts_null rfl m .engine element
      rw [List.range_add, List.flatMap_append, zeros, List.append_nil]
      refine .trans (.of_eq (List.flatMap_congr fun j hj => ?_))
        (shows.parts m (keeps.mono (by rw [base]; exact Nat.le_succ _)))
      rw [shown j (Nat.lt_of_lt_of_le (List.mem_range.mp hj) (Nat.le_add_right _ _))]

theorem released (f : Partial element s₀ a capacity index made s) (length : ArrayLength)
    (room : element.isMade = true → index * element.native.size ≤ capacity) {m : Memory}
    (kept : ∀ c ∈ s.memory.chunks, c ∈ m.chunks) :
    ((Ty.array element length).released m .engine .full (.ofAddress a) (some index)).Perm (made ++ [a]) := by
  simp only [Ty.released, f.present, Bool.false_eq_true, if_false]
  exact (f.elements (Nat.le_refl index) room fun c hc _ => kept c hc).append_right [a]

theorem array (f : Partial element s₀ a capacity index made s) (length : ArrayLength)
    (room : element.isMade = true → length.capacity index * element.native.size ≤ capacity)
    (counted : element.isMade = true → Counted length index none) :
    Making (.array element length) s₀ (.ofAddress a) (made ++ [a]) s where
  moves := f.moves.perm (List.Perm.map _ (@List.perm_append_comm _ [a] made)) (.refl _)
  forward := f.forward
  only b hb new := by simpa [or_comm] using f.only b hb new
  parts m keeps := by
    simp only [Ty.parts, f.present, Bool.false_eq_true, if_false]
    refine List.Perm.append_right [a] ?_
    unfold Memory.elementParts
    cases has : element.isMade with
    | false =>
        simp only [parts_of_not_made has, f.bare has]
        cases m.arrayLength? element length (Slot.ofAddress a).address none <;> simp
    | true =>
        have shown := fun k le room => f.elements (k := k) le (fun _ => room) keeps
        rcases counted has with known | ⟨-, rfl | ⟨n, rfl, le⟩⟩
        · cases known
        · obtain ⟨b, hb, rfl, rfl, shows⟩ := f.shows has
          have base : b.base = s₀.memory.frontier := by rw [← f.base, Memory.toNat_address hb]
          have ended := terminatedLength_filled (by rw [Ty.size_of_made has]; decide)
            (keeps b hb (Nat.le_of_eq base.symm)) (room has) shows.present (by rw [shows.behind index (Nat.le_refl _)]; rfl)
          have found : m.arrayLength? element .zeroTerminated b.address none = some index := by
            rw [Memory.arrayLength?, ended]
          rw [show (Slot.ofAddress b.address).address = b.address from rfl, found]
          exact shown index (Nat.le_refl _) (Nat.le_trans (Nat.mul_le_mul_right _ (Nat.le_succ _)) (room has))
        · exact shown n le (Nat.le_trans (Nat.mul_le_mul_right _ (Nat.le_max_left _ _)) (room has))

theorem undo {s₁ : Engine} (f : Partial element s₀ a capacity index made s) (item : s.Undone s₁) (length : ArrayLength)
    (room : element.isMade = true → index * element.native.size ≤ capacity) :
    s₀.Undone (freeArray element length (.ofAddress a) (some index) .full .engine s₁).2 := by
  obtain ⟨⟨others, moves⟩, blocks, chunks⟩ := item
  have given := (freeArray_releases element length (.ofAddress a) (some index) .full .engine s₁).perm
    ((f.released length room chunks).map Resource.block)
  have left := (across_frees.freeArray element length (.ofAddress a) (some index) .full s₁).of_givesUp given
  refine ⟨⟨a :: made ++ others, ?_⟩, fun b => ?_, fun c hc => ?_⟩
  · have all := (f.moves.trans moves).trans given.moves
    rw [List.append_nil, List.nil_append, ← List.map_append, ← List.map_append] at all
    refine all.perm (.refl _) (List.Perm.map _ ?_)
    exact List.perm_append_comm.trans (List.Perm.append_right _ List.perm_append_comm)
  · have without := blocks_without f.forward f.only f.moves.new b
    rw [left, blocks, ← without]
    simp [or_comm]
  · exact (given.chunks c).mpr (chunks c (f.forward.mem_chunks hc (by simp)))

end Partial

theorem encodeItems_ends {a : UInt64} {capacity : Nat} {r : Except (Failure MarshalError) Unit} (length : ArrayLength)
    {items : List Value} (each : ∀ item ∈ items, ∀ r s s', encode item element false s = (r, s') → Ends element s r s')
    {index : Nat} {made : List UInt64} (f : Partial element s₀ a capacity index made s)
    (small : (index + items.length) * element.native.size ≤ Memory.limit)
    (room : element.isMade = true → (index + items.length) * element.native.size ≤ capacity)
    (run : encodeItems (fun item => encode item element false)
      (fun stored => freeArray element length (.ofAddress a) (some stored) .full .engine) element.native a index items s =
        (r, s')) :
    (r = .ok () ∧ ∃ made, Partial element s₀ a capacity (index + items.length) made s') ∨
      ((∃ e, r = .error (.error e)) ∧ s₀.Undone s') ∨ ∃ text, r = .error (.panic text) := by
  induction items generalizing s index made with
  | nil =>
      cases run
      exact Or.inl ⟨rfl, made, f⟩
  | cons item rest ih =>
      obtain ⟨first, later_each⟩ := List.forall_mem_cons.mp each
      have count : index + 1 + rest.length = index + (item :: rest).length := by
        simp only [List.length_cons]
        omega
      have next : (index + 1) * element.native.size ≤ (index + (item :: rest).length) * element.native.size :=
        Nat.mul_le_mul_right _ (by rw [← count]; omega)
      rcases encodeItems_cons_cases run with ⟨slot, s₁, converted, later⟩ | ⟨e, s₁, refused, after, rfl⟩
      · cases first _ s s₁ converted with
        | made slot more s₁ making =>
            have stored := f.store making (fun has => present_of_made has converted) (Nat.le_trans next small)
              fun has => Nat.le_trans next (room has)
            rw [← count]
            exact ih later_each stored (by rw [count]; exact small) (by rw [count]; exact room) later
      · cases first _ s s₁ refused with
        | undone e s₁ undone =>
            obtain ⟨-, rfl⟩ | ⟨⟨text, impossible⟩, -⟩ := after
            · exact Or.inr (Or.inl ⟨⟨e, rfl⟩, f.undo undone length fun has =>
                Nat.le_trans (Nat.mul_le_mul_right _ (Nat.le_add_right _ _)) (room has)⟩)
            · cases impossible
        | panicked text s₁ => exact Or.inr (Or.inr ⟨text, rfl⟩)

theorem encodeArray_ends {r : Except (Failure MarshalError) (Slot × Nat)}
    (each : ∀ items, value = .array items → ∀ item ∈ items, ∀ r s s', encode item element false s = (r, s') →
      Ends element s r s')
    (run : encodeArray value element length nullable s = (r, s')) :
    ((∃ e, r = .error (.error e)) ∧ s.Undone s') ∨ (∃ text, r = .error (.panic text)) ∨ (r = .ok (.zero, 0) ∧ s' = s) ∨
      ∃ items a capacity made, value = .array items ∧ r = .ok (.ofAddress a, items.length) ∧
        items.length * element.native.size ≤ Memory.limit ∧
        length.capacity items.length * element.native.size ≤ capacity ∧
        Partial element s a capacity items.length made s' := by
  rcases encodeArrayWith_cases run with ⟨items, a, s₁, filled, rfl, small, made, stores, rfl⟩ |
    ⟨rfl, ⟨rfl, -⟩ | ⟨e, rfl⟩⟩
  · obtain ⟨capacity, large, f⟩ := Partial.start element made
    rcases encodeItems_ends length (each items rfl) f (by rwa [Nat.zero_add])
      (fun _ => by
        rw [Nat.zero_add]
        exact Nat.le_trans (Nat.mul_le_mul_right _ (length.le_capacity _)) large) stores with
      ⟨rfl, blocks, f⟩ | ⟨⟨e, rfl⟩, undone⟩ | ⟨text, rfl⟩
    · rw [Nat.zero_add] at f
      exact Or.inr (Or.inr (Or.inr ⟨items, a, capacity, blocks, rfl, rfl, small, large, f⟩))
    · exact Or.inl ⟨⟨e, rfl⟩, undone⟩
    · exact Or.inr (Or.inl ⟨text, rfl⟩)
  · exact Or.inr (Or.inr (Or.inl ⟨rfl, rfl⟩))
  · cases e with
    | error e => exact Or.inl ⟨⟨e, rfl⟩, .refl _⟩
    | panic text => exact Or.inr (Or.inl ⟨text, rfl⟩)

/-! ## Whole values -/

/-- Every array in the type says itself how long it is. -/
def Ty.isUnlinked : Ty → Bool
  | .array element length => length.parameter?.isNone && element.isUnlinked
  | _ => true

def Ty.isTerminated : Ty → Bool
  | .array element length => length == .zeroTerminated && element.isTerminated
  | _ => true

/-- Fixed arrays whose elements have blocks get no more items than they count. -/
def Value.within (value : Value) : Ty → Bool
  | .array element length =>
    match value with
    | .array items =>
      (items.all fun item => item.within element) &&
        match length with
        | .fixed n => !element.isMade || decide (items.length ≤ n)
        | _ => true
    | _ => true
  | _ => true

theorem unlinked_of_terminated (type : Ty) (terminated : type.isTerminated = true) : type.isUnlinked = true := by
  cases shape : type with
  | array element length =>
      rw [shape, Ty.isTerminated, Bool.and_eq_true, beq_iff_eq] at terminated
      obtain ⟨rfl, inner⟩ := terminated
      exact unlinked_of_terminated element inner
  | _ => rfl
termination_by type
decreasing_by simp only [shape, Ty.array.sizeOf_spec]; omega

theorem within_of_terminated (type : Ty) (terminated : type.isTerminated = true) (value : Value) :
    value.within type = true := by
  cases shape : type with
  | array element length =>
      rw [shape, Ty.isTerminated, Bool.and_eq_true, beq_iff_eq] at terminated
      obtain ⟨rfl, inner⟩ := terminated
      cases value with
      | array items =>
          simp only [Value.within, Bool.and_true, List.all_eq_true]
          exact fun item _ => within_of_terminated element inner item
      | _ => rfl
  | _ => rfl
termination_by type
decreasing_by simp only [shape, Ty.array.sizeOf_spec]; omega

theorem encode_ends (type : Ty) {value : Value} {nullable : Bool} {r : Except (Failure MarshalError) Slot} {s s' : Engine}
    (unlinked : type.isUnlinked = true) (within : value.within type = true)
    (run : encode value type nullable s = (r, s')) : Ends type s r s' := by
  cases shape : type with
  | array element length =>
      subst shape
      rw [Ty.isUnlinked, Bool.and_eq_true] at unlinked
      obtain ⟨own, inner⟩ := unlinked
      have each : ∀ items, value = .array items → ∀ item ∈ items, ∀ r s s', encode item element false s = (r, s') →
          Ends element s r s' := by
        rintro items rfl item listed r s s' converted
        simp only [Value.within, Bool.and_eq_true] at within
        exact encode_ends element inner (List.all_eq_true.mp within.1 item listed) converted
      have fixed : element.isMade = true → ∀ items n, value = .array items → length = .fixed n → items.length ≤ n := by
        rintro has items n rfl rfl
        simpa [Value.within, has] using ((Bool.and_eq_true _ _).mp within).2
      rw [encode] at run
      have ends : ∀ {r s'}, encodeArray value element length nullable s = (r, s') → _ := fun run => encodeArray_ends each run
      rcases EngineM.failing_bind_cases run with ⟨made, s₁, filled, last⟩ | ⟨e, failed, rfl⟩
      · cases last
        rcases ends filled with ⟨⟨e, impossible⟩, -⟩ | ⟨text, impossible⟩ | ⟨same, rfl⟩ |
          ⟨items, a, capacity, made, array, same, small, large, f⟩
        · cases impossible
        · cases impossible
        · cases same
          exact .made .zero [] _ ⟨.refl _, .refl _ _, fun b hb new => by
            have := Memory.base_lt_frontier (Memory.mem_chunks_of_live hb)
            omega, fun m _ => .refl _⟩
        · cases same
          refine .made _ _ _ (f.array length (fun _ => large) fun has => Or.inr ⟨rfl, ?_⟩)
          · cases length with
            | zeroTerminated => exact Or.inl rfl
            | fixed n => exact Or.inr ⟨n, rfl, fixed has items n array rfl⟩
            | parameter index => cases own
      · rcases ends failed with ⟨⟨e, same⟩, undone⟩ | ⟨text, same⟩ | ⟨impossible, -⟩ |
          ⟨items, a, capacity, made, -, impossible, -⟩
        · cases same
          exact .undone e _ undone
        · cases same
          exact .panicked text _
        · cases impossible
        · cases impossible
  | _ => exact encode_flat_ends (by intro element length same; cases same) (by rw [← shape]; exact run)
termination_by type
decreasing_by simp [shape]; omega

/-! ## The two results -/

/-- Releasing a converted value in full undoes the conversion: it gives up the blocks that were made for the value, each of
them once, and no others. What is alive then was alive before, with what it holds, and as many blocks are outstanding. -/
theorem freeValue_undoes_toNative (unlinked : type.isUnlinked = true) (within : value.within type = true)
    (run : toNative value type nullable s = (.ok slot, s')) (freed : freeValue type slot .full .engine s' = ((), s'')) :
    (∃ t t', s'.events = t ++ s.events ∧ s''.events = t' ++ s'.events ∧ losses t = [] ∧ gains t' = [] ∧
      (gains t).Nodup ∧ (losses t').Perm (gains t)) ∧
    (∀ b, b ∈ s''.memory.blocks ↔ b ∈ s.memory.blocks) ∧ s''.outstanding = s.outstanding := by
  have encoded := toNative_ok run
  rcases encode_ends type unlinked within encoded with ⟨slot, made, s', making⟩
  have given := freeValue_releases type slot .full .engine s'
  have frees := across_frees.freeValue type slot .full s'
  have converts := encode_tallies value type nullable s
  rw [encoded] at converts
  have tallies := converts.trans (Engine.Tallies.across.freeValue type slot .full s')
  rw [freed] at given frees tallies
  rw [released_full] at given
  have given := given.perm ((making.parts s'.memory (.refl _ _)).map Resource.block)
  obtain ⟨t, events, gained, lost⟩ := making.moves.events
  obtain ⟨t', events', gained', lost'⟩ := given.moves.events
  refine ⟨⟨t, t', events, events', lost.eq_nil, gained'.eq_nil, gained.nodup_iff.mpr making.moves.nodup,
    lost'.trans gained.symm⟩, fun b => ?_, ?_⟩
  · rw [frees.of_givesUp given]
    exact blocks_without making.forward making.only making.moves.new b
  · have both := making.moves.trans given.moves
    rw [List.append_nil, List.nil_append] at both
    exact tallies.outstanding_eq both (.refl _)

def pairs : Value := .array [.array [.string "né", .string "b"], .array [.string "c"]]

theorem freeValue_undoes_toNative_pairing : ∃ slot s' s'',
    (Ty.array (.array .utf8 (.fixed 2)) .zeroTerminated).isUnlinked = true ∧
    pairs.within (.array (.array .utf8 (.fixed 2)) .zeroTerminated) = true ∧
    toNative pairs (.array (.array .utf8 (.fixed 2)) .zeroTerminated) false .initial = (.ok slot, s') ∧
    freeValue (.array (.array .utf8 (.fixed 2)) .zeroTerminated) slot .full .engine s' = ((), s'') ∧
    s''.memory.blocks = [] ∧ s''.outstanding = 0 := by
  have converts : (toNative pairs (.array (.array .utf8 (.fixed 2)) .zeroTerminated) false .initial).1.isOk = true := by
    decide +kernel
  obtain ⟨slot, s', run⟩ := exists_ok converts
  rcases freed : freeValue (.array (.array .utf8 (.fixed 2)) .zeroTerminated) slot .full .engine s' with ⟨u, s''⟩
  obtain ⟨-, same, outstanding⟩ := freeValue_undoes_toNative (by decide) (by decide +kernel) run freed
  refine ⟨slot, s', s'', by decide, by decide +kernel, run, freed, ?_, outstanding⟩
  exact List.eq_nil_iff_forall_not_mem.mpr fun b hb => List.not_mem_nil ((same b).mp hb)

theorem calm_encode_of_terminated (type : Ty) (terminated : type.isTerminated = true) (value : Value) (nullable : Bool) :
    (encode value type nullable).Calm := by
  intro s text s' run
  cases shape : type with
  | array element length =>
      rw [shape, encode] at run
      rw [shape, Ty.isTerminated, Bool.and_eq_true, beq_iff_eq] at terminated
      obtain ⟨rfl, inner⟩ := terminated
      rcases EngineM.failing_bind_cases run with ⟨made, s₁, -, last⟩ | ⟨failure, failed, same⟩
      · cases last
      cases same
      obtain ⟨items, rfl, ⟨s₁, stopped⟩ | ⟨item, -, s₁, s₂, fails⟩⟩ := overflow_of_encodeArrayWith failed
      · -- one element more than there are items, so that the size exceeds a word only where the items do not fit either
        obtain ⟨-, fits, large⟩ := overflow_of_allocateArray stopped
        have word := element.native.size_le_word
        rw [ArrayLength.capacity, Nat.succ_mul] at large
        simp only [Memory.limit] at fits
        omega
      · exact calm_encode_of_terminated element inner item false s₁ text s₂ fails
  | _ => exact calm_encode_flat (by simp [shape]) s text s' run
termination_by type
decreasing_by simp only [shape, Ty.array.sizeOf_spec]; omega

theorem unmoved_of_overflow {text : String}
    (calm : ∀ items, value = .array items → ∀ item ∈ items, (encode item element false).Calm)
    (run : encodeArray value element length nullable s = (.error (.panic text), s')) : s' = s := by
  rcases encodeArrayWith_cases run with ⟨items, a, s₁, filled, rfl, -, -, stores, same⟩ | ⟨same, -⟩
  · cases filled with
    | ok u => cases same
    | error failure =>
        cases same
        obtain ⟨item, listed, s₂, s₃, fails⟩ := overflow_of_encodeItems items 0 stores
        exact absurd fails (calm items rfl item listed s₂ text s₃)
  · exact same

/-- An array whose conversion fails leaves nothing behind, whichever item does not convert, however deep: the blocks that
were made are given up, each of them once, and no other block is. The failure is that of the first demand in the order of the
items that was not met; all demands before it were. -/
theorem nothing_left_of_encodeArray {failure : Failure MarshalError} (nested : element.isTerminated = true)
    (run : encodeArray value element length nullable s = (.error failure, s')) :
    (∃ t met d rest, s'.events = t ++ s.events ∧ (gains t).Nodup ∧ (losses t).Perm (gains t) ∧
      value.demands (.array element length) nullable = met ++ d :: rest ∧
      met.map (·.size?) = (allocated t).map some ∧ failure = d.failure) ∧
    (∀ b, b ∈ s'.memory.blocks ↔ b ∈ s.memory.blocks) ∧ s'.outstanding = s.outstanding := by
  have unlinked := unlinked_of_terminated element nested
  have undone : s.Undone s' := by
    rcases encodeArray_ends
      (fun items _ item _ r s s' converted =>
        encode_ends element unlinked (within_of_terminated element nested item) converted)
      run with ⟨-, undone⟩ | ⟨text, same⟩ | ⟨impossible, -⟩ | ⟨items, a, capacity, made, -, impossible, -⟩
    · exact undone
    · cases same
      rw [unmoved_of_overflow (fun _ _ item _ => calm_encode_of_terminated element nested item false) run]
      exact .refl s
    · cases impossible
    · cases impossible
  have tallies := encodeArray_tallies value element length nullable s
  rw [run] at tallies
  obtain ⟨met, d, rest, asked, ⟨t, events, sizes⟩, error, -⟩ :=
    encodeArrayWith_follows (fun item r s s' converted => encode_follows element converted) run
  obtain ⟨made, moves⟩ := undone.moves
  obtain ⟨gained, lost⟩ := moves.of_events events
  exact ⟨⟨t, met, d, rest, events, gained.nodup_iff.mpr moves.nodup, lost.trans gained.symm, asked, sizes, error⟩,
    undone.blocks, tallies.outstanding_eq moves (.refl _)⟩

/-- Names with a number among them, in the second row. -/
def mislabelled : Value := .array [.array [.string "né"], .array [.string "b", .int 5], .array []]

theorem nothing_left_of_encodeArray_mislabelling : ∃ e s',
    (Ty.array .utf8 .zeroTerminated).isTerminated = true ∧
    encodeArray mislabelled (.array .utf8 .zeroTerminated) (.fixed 2) false .initial = (.error (.error e), s') ∧
    e.message = "Expected string, got integer" ∧ s'.memory.blocks = [] ∧ s'.outstanding = 0 := by
  have refused : (encodeArray mislabelled (.array .utf8 .zeroTerminated) (.fixed 2) false .initial).1.mapError
      (Failure.map MarshalError.message) = .error (.error "Expected string, got integer") := by decide +kernel
  rcases run : encodeArray mislabelled (.array .utf8 .zeroTerminated) (.fixed 2) false .initial with ⟨r, s'⟩
  rw [run] at refused
  cases r with
  | ok made => cases refused
  | error failure =>
      obtain ⟨-, same, outstanding⟩ := nothing_left_of_encodeArray rfl run
      cases failure with
      | panic text => cases refused
      | error e =>
      refine ⟨e, s', rfl, rfl, Failure.error.inj (Except.error.inj refused), ?_, outstanding⟩
      exact List.eq_nil_iff_forall_not_mem.mpr fun b hb => List.not_mem_nil ((same b).mp hb)

end Ferry
