import Ferry.Proofs.Marshal.Discarding
import Ferry.Proofs.Marshal.Parts
import Ferry.Proofs.Marshal.RoundTrip

/-!
# Where values lead

A value in native memory leads to blocks: those of its texts and arrays, and those of the structures in it. `Ty.Leads`
says of a slot that the former are of one kind and the latter of another, arrays inside of arrays included. So what is
released of the value is of these kinds (`Leads.mem_released`), and a block of neither kind is missed by what is left of it
(`Leads.misses`). That a slot leads to given blocks is decidable.
-/

set_option autoImplicit false

namespace Ferry

/-- Texts and arrays lie in blocks of the kind `own`, and structures in blocks of the kind `lent`. Arrays are followed into
memory, to every element for which their block has room. -/
def Ty.Leads (m : Memory) (own lent : UInt64 → Prop) : Ty → Slot → Prop
  | .utf8, slot => slot.isNull = false → own slot.address
  | .struct _, slot => slot.isNull = false → lent slot.address
  | .array element length, slot => slot.isNull = false → own slot.address ∧ ∃ b ∈ m.chunks, b.address = slot.address ∧
      (element.isPointerLike = true → ∀ n, length = .fixed n → n * element.native.size ≤ b.capacity) ∧
      ∀ i, (i + 1) * element.native.size ≤ b.capacity → element.Leads m own lent (b.element element.native i)
  | _, _ => True

/-- The block of an array has room for as many elements as it is known to have. -/
def Ty.Roomy (m : Memory) : Ty → Slot → Option Nat → Prop
  | .array element _, slot, known => slot.isNull = false → element.isPointerLike = true → ∀ n, known = some n →
      ∃ b ∈ m.chunks, b.address = slot.address ∧ n * element.native.size ≤ b.capacity
  | _, _, _ => True

mutual

/-- The addresses of the structures that a value holds, whether it owns them or not. -/
def Value.structures : Value → List UInt64
  | .array items => Value.structuresAll items
  | .boxed b => [b.address]
  | _ => []

def Value.structuresAll : List Value → List UInt64
  | [] => []
  | v :: rest => v.structures ++ Value.structuresAll rest

end

theorem mem_structuresAll {values : List Value} {a : UInt64} :
    a ∈ Value.structuresAll values ↔ ∃ v ∈ values, a ∈ v.structures := by
  induction values with
  | nil => simp [Value.structuresAll]
  | cons v rest ih => simp [Value.structuresAll, ih]

/-- Releasing a value of the type this deep releases the structures in it, if native code made it. -/
def ReleaseDepth.coversStructures (depth : ReleaseDepth) : Ty → Bool
  | .array _ _ => depth.coversElements
  | _ => depth.coversContainer

/-- Releasing a value of the type this deep releases something of it. -/
def ReleaseDepth.covers (depth : ReleaseDepth) : Ty → Bool
  | .array _ _ => depth.coversContainer || depth.coversElements
  | _ => depth.coversContainer

variable {m m' : Memory} {own own' lent lent' : UInt64 → Prop} {type element : Ty} {length : ArrayLength} {slot : Slot}
  {known : Option Nat} {depth : ReleaseDepth} {origin : Origin} {a : UInt64}

/-! ## Arrays end with their blocks -/

theorem terminator?_bound {size n : Nat} (positive : 0 < size) {fuel : Nat} {bytes : List UInt8}
    (found : terminator? size fuel bytes = some n) : (n + 1) * size ≤ bytes.length := by
  have width : max size 1 = size := Nat.max_eq_left positive
  induction fuel generalizing bytes n with
  | zero => cases found
  | succ fuel ih =>
      unfold terminator? at found
      simp only [width] at found
      split at found
      · cases found
      · split at found
        · cases found
          omega
        · obtain ⟨k, later, rfl⟩ := Option.map_eq_some_iff.mp found
          have rest := ih later
          rw [List.length_drop] at rest
          rw [Nat.succ_mul]
          omega

theorem terminatedLength_roomy {b : Block} {t : NativeType} (positive : 0 < t.size) (hb : b ∈ m.chunks) :
    m.terminatedLength t b.address * t.size ≤ b.capacity := by
  have reached : b.reaches b.address.toNat = true := by
    rw [Memory.toNat_address hb]
    exact b.reaches_base
  have whole : (m.tail b.address).length = b.capacity := by
    rw [Memory.tail_eq hb reached, Memory.toNat_address hb, Nat.sub_self, Nat.sub_zero]
    simp [Block.slice]
  unfold Memory.terminatedLength
  cases found : m.terminator? t b.address with
  | none =>
      rw [Option.getD_none, whole, Nat.max_eq_left positive]
      exact Nat.div_mul_le_self _ _
  | some n =>
      have bound := terminator?_bound positive found
      rw [whole, Nat.succ_mul] at bound
      rw [Option.getD_some]
      omega

theorem Ty.size_of_pointerLike (address : type.isPointerLike = true) : type.native.size = 8 := by
  cases type with
  | utf8 | pointer | array | struct | callback | destroyNotify => rfl
  | _ => cases address

/-! ## Where values lead can be looked up -/

theorem Ty.leads_elements_iff {b : Block} :
    (∀ i < b.capacity, (i + 1) * element.native.size ≤ b.capacity → element.Leads m own lent (b.element element.native i)) ↔
      ∀ i, (i + 1) * element.native.size ≤ b.capacity → element.Leads m own lent (b.element element.native i) := by
  refine ⟨fun leads i room => ?_, fun leads i _ => leads i⟩
  cases address : element.isPointerLike with
  | false =>
      cases element with
      | utf8 | struct | array => cases address
      | _ => trivial
  | true =>
      rw [Ty.size_of_pointerLike address] at room
      exact leads i (by omega) (by rwa [Ty.size_of_pointerLike address])

instance ArrayLength.decidableFixed (P : Nat → Prop) [DecidablePred P] :
    (length : ArrayLength) → Decidable (∀ n, length = .fixed n → P n)
  | .fixed n => decidable_of_iff (P n) ⟨fun h _ same => by cases same; exact h, fun h => h n rfl⟩
  | .parameter _ | .zeroTerminated => .isTrue fun _ same => nomatch same

instance Ty.decidableLeads (m : Memory) (own lent : UInt64 → Prop) [DecidablePred own] [DecidablePred lent] :
    (type : Ty) → (slot : Slot) → Decidable (type.Leads m own lent slot)
  | .utf8, slot => inferInstanceAs (Decidable (slot.isNull = false → own slot.address))
  | .struct _, slot => inferInstanceAs (Decidable (slot.isNull = false → lent slot.address))
  | .array element length, slot =>
    have (b : Block) : Decidable (∀ i, (i + 1) * element.native.size ≤ b.capacity →
        element.Leads m own lent (b.element element.native i)) :=
      have (i : Nat) : Decidable (element.Leads m own lent (b.element element.native i)) :=
        Ty.decidableLeads m own lent element _
      decidable_of_iff _ Ty.leads_elements_iff
    inferInstanceAs (Decidable (slot.isNull = false → own slot.address ∧ ∃ b ∈ m.chunks, b.address = slot.address ∧
      (element.isPointerLike = true → ∀ n, length = .fixed n → n * element.native.size ≤ b.capacity) ∧
      ∀ i, (i + 1) * element.native.size ≤ b.capacity → element.Leads m own lent (b.element element.native i)))
  | .void, _ | .boolean, _ | .int8, _ | .uint8, _ | .int16, _ | .uint16, _ | .int32, _ | .uint32, _ | .int64, _
  | .uint64, _ | .float, _ | .double, _ | .pointer, _ | .callback _, _ | .destroyNotify, _ => .isTrue trivial

namespace Ty.Leads

/-! ## What is released -/

theorem null (null : slot.isNull = true) : type.Leads m own lent slot := by
  cases type with
  | utf8 | struct | array =>
      intro present
      rw [null] at present
      cases present
  | _ => trivial

theorem scalar (scalar : type.isPointerLike = false) (slot : Slot) : type.Leads m own lent slot := by
  cases type with
  | utf8 | struct | array => cases scalar
  | _ => trivial

theorem counted {b : Block} {count : Nat} (hb : b ∈ m.chunks) (address : element.isPointerLike = true)
    (fixed : element.isPointerLike = true → ∀ n, length = .fixed n → n * element.native.size ≤ b.capacity)
    (room : ∀ n, known = some n → n * element.native.size ≤ b.capacity)
    (counted : m.arrayLength? element length b.address known = some count) : count * element.native.size ≤ b.capacity := by
  have positive : 0 < element.native.size := by
    rw [Ty.size_of_pointerLike address]
    decide
  cases known with
  | some n =>
      cases counted
      exact room count rfl
  | none =>
      cases length with
      | fixed n =>
          cases counted
          exact fixed address count rfl
      | zeroTerminated =>
          cases counted
          exact terminatedLength_roomy positive hb
      | parameter l => cases counted

theorem mem_elementParts {b : Block} (hb : b ∈ m.chunks) (at_slot : b.address = slot.address)
    (fixed : element.isPointerLike = true → ∀ n, length = .fixed n → n * element.native.size ≤ b.capacity)
    (room : element.isPointerLike = true → ∀ n, known = some n → n * element.native.size ≤ b.capacity)
    {P : UInt64 → Prop} (each : ∀ i, (i + 1) * element.native.size ≤ b.capacity →
      ∀ x ∈ element.parts m origin (b.element element.native i), P x)
    {x : UInt64} (hx : x ∈ m.elementParts (element.parts m origin) element length slot known) : P x := by
  unfold Memory.elementParts at hx
  cases address : element.isPointerLike with
  | false =>
      cases found : m.arrayLength? element length slot.address known with
      | none => simp [found] at hx
      | some count =>
          rw [found, Option.elim_some] at hx
          obtain ⟨i, -, here⟩ := List.mem_flatMap.mp hx
          rw [parts_of_not_address address] at here
          cases here
  | true =>
      cases found : m.arrayLength? element length slot.address known with
      | none => simp [found] at hx
      | some count =>
          rw [found, Option.elim_some] at hx
          obtain ⟨i, hi, here⟩ := List.mem_flatMap.mp hx
          rw [← at_slot] at found here
          have bound := counted hb address fixed (room address) found
          have fits : (i + 1) * element.native.size ≤ b.capacity :=
            Nat.le_trans (Nat.mul_le_mul_right _ (List.mem_range.mp hi)) bound
          rw [Memory.load_element hb element.native (Block.element_inside fits)] at here
          exact each i fits x here

theorem mem_parts (type : Ty) {slot : Slot} (h : type.Leads m own lent slot) {x : UInt64}
    (hx : x ∈ type.parts m origin slot) : own x ∨ origin = .native ∧ lent x := by
  cases present : slot.isNull with
  | true =>
      rw [parts_null present] at hx
      cases hx
  | false =>
      cases shape : type with
      | array element length =>
          rw [shape] at h hx
          simp only [Ty.parts, present, Bool.false_eq_true, if_false] at hx
          obtain ⟨mine, b, hb, at_slot, fixed, each⟩ := h present
          rcases List.mem_append.mp hx with inner | outer
          · exact mem_elementParts hb at_slot fixed (fun _ n none => by cases none)
              (fun i fits y hy => mem_parts element (each i fits) hy) inner
          · rw [List.mem_singleton.mp outer]
            exact Or.inl mine
      | utf8 =>
          rw [shape] at h hx
          simp only [Ty.parts, present, Bool.false_eq_true, if_false, List.mem_singleton] at hx
          rw [hx]
          exact Or.inl (h present)
      | struct layout =>
          rw [shape] at h hx
          cases origin with
          | engine => simp [Ty.parts] at hx
          | native =>
              have here : x = slot.address := by simpa [Ty.parts, present] using hx
              rw [here]
              exact Or.inr ⟨rfl, h present⟩
      | _ =>
          rw [shape] at h hx
          cases hx
termination_by type
decreasing_by simp [shape]; omega

/-- What is released of a value is what it leads to, where the count that is known is one that the block has room for.
Structures are released as deep as they are covered, and only if native code made them. -/
theorem mem_released (h : type.Leads m own lent slot) (room : type.Roomy m slot known) {x : UInt64}
    (hx : x ∈ type.released m origin depth slot known) :
    own x ∨ origin = .native ∧ depth.coversStructures type = true ∧ lent x := by
  cases present : slot.isNull with
  | true =>
      rw [released_null present] at hx
      cases hx
  | false =>
      cases type with
      | array element length =>
          simp only [Ty.released, present, Bool.false_eq_true, if_false] at hx
          obtain ⟨mine, b, hb, at_slot, fixed, each⟩ := h present
          have room : element.isPointerLike = true → ∀ n, known = some n → n * element.native.size ≤ b.capacity := by
            intro address n counted
            obtain ⟨c, hc, same, bound⟩ := room present address n counted
            rwa [Memory.eq_of_address hb hc (at_slot.trans same.symm)]
          rcases List.mem_append.mp hx with inner | outer
          · split at inner
            · rename_i covered
              have either := mem_elementParts hb at_slot fixed room (fun i fits y hy => mem_parts element (each i fits) hy) inner
              exact either.imp_right fun both => ⟨both.1, covered, both.2⟩
            · cases inner
          · split at outer
            · rw [List.mem_singleton.mp outer]
              exact Or.inl mine
            · cases outer
      | _ =>
          simp only [Ty.released] at hx
          split at hx
          · rename_i covered
            exact (mem_parts _ h hx).imp_right fun both => ⟨both.1, covered, both.2⟩
          · cases hx

/-! ## Later -/

theorem later (type : Ty) {slot : Slot} (h : type.Leads m own lent slot)
    (kept : ∀ b ∈ m.chunks, own b.address → b ∈ m'.chunks) (owns : ∀ x, own x → own' x) (lends : ∀ x, lent x → lent' x) :
    type.Leads m' own' lent' slot := by
  cases shape : type with
  | array element length =>
      rw [shape] at h
      intro present
      obtain ⟨mine, b, hb, at_slot, fixed, each⟩ := h present
      refine ⟨owns _ mine, b, kept b hb (by rwa [at_slot]), at_slot, fixed, fun i fits => ?_⟩
      exact later element (each i fits) kept owns lends
  | utf8 =>
      rw [shape] at h
      exact fun present => owns _ (h present)
  | struct layout =>
      rw [shape] at h
      exact fun present => lends _ (h present)
  | _ => trivial
termination_by type
decreasing_by simp [shape]; omega

end Ty.Leads

/-! ## After somebody else has written -/

/-- Whoever wrote to the arrays of a value left their elements as they were, or put values there that lead to blocks of
the kind `own` and to structures of the kind `lent`. -/
def Ty.Kept (m m' : Memory) (own lent : UInt64 → Prop) : Ty → Slot → Prop
  | .array element _, slot => slot.isNull = false → ∀ b ∈ m.chunks, ∀ b' ∈ m'.chunks, b.address = slot.address →
      b'.address = slot.address → ∀ i, (i + 1) * element.native.size ≤ b.capacity →
        (b'.element element.native i = b.element element.native i ∧
          element.Kept m m' own lent (b.element element.native i)) ∨
        element.Leads m' own lent (b'.element element.native i)
  | _, _ => True

theorem Ty.Kept.of_chunks (type : Ty) (stay : ∀ b ∈ m.chunks, b ∈ m'.chunks) (slot : Slot) : type.Kept m m' own lent slot := by
  cases shape : type with
  | array element length =>
      intro present b hb b' hb' at_slot at_slot' i fits
      have same : b' = b := Memory.eq_of_address hb' (stay b hb) (at_slot'.trans at_slot.symm)
      rw [same]
      exact Or.inl ⟨rfl, Ty.Kept.of_chunks element stay _⟩
  | _ => trivial
termination_by type
decreasing_by simp; omega

theorem Ty.Kept.mono (type : Ty) {slot : Slot} (h : type.Kept m m' own lent slot) (owns : ∀ x, own x → own' x)
    (lends : ∀ x, lent x → lent' x) : type.Kept m m' own' lent' slot := by
  cases shape : type with
  | array element length =>
      rw [shape] at h
      intro present b hb b' hb' at_slot at_slot' i fits
      rcases h present b hb b' hb' at_slot at_slot' i fits with ⟨same, inner⟩ | other
      · exact Or.inl ⟨same, Ty.Kept.mono element inner owns lends⟩
      · exact Or.inr (other.later element (fun _ hb _ => hb) owns lends)
  | _ => trivial
termination_by type
decreasing_by simp [shape]; omega

theorem Ty.Kept.of_leads (h : type.Leads m' own lent slot) (places : m.SamePlaces m') : type.Kept m m' own lent slot := by
  cases type with
  | array element length =>
      intro present b hb b' hb' at_slot at_slot' i fits
      obtain ⟨-, c, hc, here, -, each⟩ := h present
      obtain ⟨d, hd, base, size⟩ := places b hb
      have same : c = b' := Memory.eq_of_address hc hb' (here.trans at_slot'.symm)
      have same' : d = b' := Memory.eq_of_address hd hb' (by rw [at_slot', ← at_slot, Block.address, base, Block.address])
      subst same same'
      exact Or.inr (each i (by rwa [Block.capacity_congr size]))
  | _ => trivial

theorem Ty.Leads.kept (type : Ty) {slot : Slot} (h : type.Leads m own lent slot) (kept : type.Kept m m' own' lent' slot)
    (places : m.SamePlaces m') (owns : ∀ x, own x → own' x) (lends : ∀ x, lent x → lent' x) :
    type.Leads m' own' lent' slot := by
  cases shape : type with
  | array element length =>
      rw [shape] at h kept
      intro present
      obtain ⟨mine, b, hb, at_slot, fixed, each⟩ := h present
      obtain ⟨b', hb', base, size⟩ := places b hb
      have address : b'.address = b.address := by simp [Block.address, base]
      have capacity : b'.capacity = b.capacity := Block.capacity_congr size
      refine ⟨owns _ mine, b', hb', address.trans at_slot, by rwa [capacity], fun i fits => ?_⟩
      rw [capacity] at fits
      rcases kept present b hb b' hb' at_slot (address.trans at_slot) i fits with ⟨same, inner⟩ | other
      · rw [same]
        exact Leads.kept element (each i fits) inner places owns lends
      · exact other
  | utf8 =>
      rw [shape] at h
      exact fun present => owns _ (h present)
  | struct layout =>
      rw [shape] at h
      exact fun present => lends _ (h present)
  | _ => trivial
termination_by type
decreasing_by simp [shape]; omega

theorem Ty.Roomy.unknown : type.Roomy m slot none := by
  cases type with
  | array element length => exact fun _ _ n counted => nomatch counted
  | _ => trivial

theorem Ty.Roomy.null (null : slot.isNull = true) : type.Roomy m slot known := by
  cases type with
  | array element length =>
      intro present
      rw [null] at present
      cases present
  | _ => trivial

theorem Ty.Roomy.later (room : type.Roomy m slot known) (kept : ∀ b ∈ m.chunks, b.address = slot.address →
    ∃ b' ∈ m'.chunks, b'.address = b.address ∧ b'.capacity = b.capacity) : type.Roomy m' slot known := by
  cases type with
  | array element length =>
      intro present address n counted
      obtain ⟨b, hb, at_slot, bound⟩ := room present address n counted
      obtain ⟨b', hb', same, capacity⟩ := kept b hb at_slot
      exact ⟨b', hb', same.trans at_slot, by rwa [capacity]⟩
  | _ => trivial

theorem Ty.Leads.roomy (h : type.Leads m own lent slot) (room : type.Roomy m slot known)
    (kept : ∀ b ∈ m.chunks, own b.address → b ∈ m'.chunks) : type.Roomy m' slot known := by
  cases type with
  | array element length =>
      intro present address n counted
      obtain ⟨b, hb, at_slot, bound⟩ := room present address n counted
      exact ⟨b, kept b hb (by rw [at_slot]; exact (h present).1), at_slot, bound⟩
  | _ => trivial

/-! ## Values that miss a block -/

theorem released_uncovered (uncovered : depth.covers type = false) : type.released m origin depth slot known = [] := by
  cases type with
  | array element length =>
      have neither : depth.coversContainer = false ∧ depth.coversElements = false := by
        simpa [ReleaseDepth.covers] using uncovered
      simp only [Ty.released, neither, Bool.false_eq_true, if_false, List.append_nil, ite_self]
  | _ =>
      have open_ : depth.coversContainer = false := uncovered
      simp only [Ty.released, open_, Bool.false_eq_true, if_false]

/-- What is left of a value, with its depth and who made it, leads past the block at `a`, and past the block where a failure
is reported. Structures may lie there if they are not released. -/
def Ty.Misses (type : Ty) (m : Memory) (a report : UInt64) (left : Slot × ReleaseDepth × Origin) (known : Option Nat) :
    Prop :=
  left.2.1.covers type = true → type.Leads m (fun x => x ≠ a ∧ x ≠ report)
    (fun x => left.2.2 = .native → left.2.1.coversStructures type = true → x ≠ a) left.1 ∧ type.Roomy m left.1 known

theorem Ty.Leads.misses {report : UInt64} {left : Slot × ReleaseDepth × Origin} (h : type.Leads m own lent left.1)
    (room : type.Roomy m left.1 known) (owns : ∀ x, own x → x ≠ a ∧ x ≠ report)
    (structure_apart : ∀ layout, type = .struct layout → left.2.1.coversContainer = true → ∀ x, lent x → x ≠ a)
    (elements_apart : ∀ element length, type = .array element length → left.2.1.coversElements = true → ∀ x, lent x → x ≠ a) :
    type.Misses m a report left known := by
  refine fun _ => ⟨?_, room⟩
  cases type with
  | struct layout => exact fun present _ covered => structure_apart layout rfl covered _ (h present)
  | array element length =>
      exact h.later _ (fun _ hb _ => hb) owns fun x lent _ covered => elements_apart element length rfl covered x lent
  | utf8 => exact fun present => owns _ (h present)
  | _ => trivial

theorem Ty.Misses.not_mem {report : UInt64} {left : Slot × ReleaseDepth × Origin} (h : type.Misses m a report left known)
    (remains : m.Remains [report] m') : a ∉ type.released m' left.2.2 left.2.1 left.1 known := by
  intro released
  cases covered : left.2.1.covers type with
  | false =>
      rw [released_uncovered covered] at released
      cases released
  | true =>
      obtain ⟨leads, roomy⟩ := h covered
      have kept : ∀ b ∈ m.chunks, b.address ≠ a ∧ b.address ≠ report → b ∈ m'.chunks := fun b hb other =>
        remains b hb (by simpa using other.2)
      rcases (leads.later type kept (fun _ own => own) fun _ lent => lent).mem_released (leads.roomy roomy kept) released with
        own | ⟨made, covered, lent⟩
      · exact own.1 rfl
      · exact lent made covered rfl

theorem Ty.Misses.null {report : UInt64} {left : Slot × ReleaseDepth × Origin} (null : left.1.isNull = true) :
    type.Misses m a report left known :=
  fun _ => ⟨.null null, .null null⟩

theorem Ty.Misses.scalar {report : UInt64} (scalar : type.isPointerLike = false) (left : Slot × ReleaseDepth × Origin) :
    type.Misses m a report left known := by
  refine fun _ => ⟨.scalar scalar _, ?_⟩
  cases type with
  | array => cases scalar
  | _ => trivial

end Ferry
