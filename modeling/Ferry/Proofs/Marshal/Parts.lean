import Ferry.Proofs.Marshal.Across

/-!
# The blocks of a value

A value in native memory consists of blocks: the block of text or of a structure, or the block of an array with
the blocks of its elements. `Ty.parts` lists them as memory shows them, for values of any depth. Releasing a value
gives up what its depth covers, each block once: `freeValue_releases` and `freeArray_releases`.
-/

set_option autoImplicit false

namespace Ferry

/-- The blocks of the elements of an array, where something says how many there are. -/
def Memory.elementParts (m : Memory) (parts : Slot → List UInt64) (element : Ty) (length : ArrayLength) (slot : Slot)
    (known : Option Nat) : List UInt64 :=
  (m.arrayLength? element length slot.address known).elim [] fun count =>
    (List.range count).flatMap fun i => parts (m.load element.native (elementAddress slot.address element.native i))

/-- The blocks that a value consists of. The engine makes no structures, it borrows them. -/
def Ty.parts (m : Memory) (origin : Origin) : Ty → Slot → List UInt64
  | .utf8, slot => if slot.isNull then [] else [slot.address]
  | .struct _, slot => if slot.isNull || origin == .engine then [] else [slot.address]
  | .array element length, slot =>
    if slot.isNull then []
    else m.elementParts (fun x => element.parts m origin x) element length slot none ++ [slot.address]
  | _, _ => []

/-- The blocks that are released of a value of which the element count may be known, if it is an array. -/
def Ty.released (type : Ty) (m : Memory) (origin : Origin) (depth : ReleaseDepth) (slot : Slot) (known : Option Nat) :
    List UInt64 :=
  match type with
  | .array element length =>
    if slot.isNull then []
    else
      (if depth.coversElements then m.elementParts (element.parts m origin) element length slot known else []) ++
        if depth.coversContainer then [slot.address] else []
  | type => if depth.coversContainer then type.parts m origin slot else []

variable {s : Engine} {m m' : Memory} {element type : Ty} {length : ArrayLength} {slot : Slot} {known : Option Nat}
  {depth : ReleaseDepth} {origin : Origin}

/-! ## What matters of memory -/

theorem arrayLength?_congr (same : ∀ b, b ∈ m.chunks ↔ b ∈ m'.chunks) (element : Ty) (length : ArrayLength)
    (a : UInt64) (known : Option Nat) : m.arrayLength? element length a known = m'.arrayLength? element length a known := by
  unfold Memory.arrayLength? Memory.terminatedLength Memory.terminator?
  rw [Memory.tail_congr same]

theorem elementParts_congr {parts parts' : Slot → List UInt64} (same : ∀ b, b ∈ m.chunks ↔ b ∈ m'.chunks)
    (each : ∀ x, parts x = parts' x) (element : Ty) (length : ArrayLength) (slot : Slot) (known : Option Nat) :
    m.elementParts parts element length slot known = m'.elementParts parts' element length slot known := by
  simp only [Memory.elementParts, arrayLength?_congr same, Memory.load_congr same, each]

theorem parts_congr (same : ∀ b, b ∈ m.chunks ↔ b ∈ m'.chunks) (origin : Origin) (type : Ty) (slot : Slot) :
    type.parts m origin slot = type.parts m' origin slot := by
  cases shape : type with
  | array element length =>
      simp only [Ty.parts]
      rw [elementParts_congr same (fun x => parts_congr same origin element x)]
  | _ => rfl
termination_by type
decreasing_by simp; omega

theorem parts_of_not_address (scalar : element.isPointerLike = false) (m : Memory) (origin : Origin) (x : Slot) :
    element.parts m origin x = [] := by
  cases element with
  | utf8 | struct | array => cases scalar
  | _ => rfl

theorem parts_null (null : slot.isNull = true) (m : Memory) (origin : Origin) (type : Ty) :
    type.parts m origin slot = [] := by
  cases type <;> simp [Ty.parts, null]

theorem released_null (null : slot.isNull = true) : type.released m origin depth slot known = [] := by
  cases type <;> simp [Ty.released, null, parts_null]

theorem released_of_flat (flat : type.IsFlat) (m : Memory) (origin : Origin) (depth : ReleaseDepth) (slot : Slot)
    (known : Option Nat) : type.released m origin depth slot known = type.released m origin depth slot none := by
  cases type with
  | array element length => exact absurd rfl (flat element length)
  | _ => rfl

/-- Everything of a value that is no array, or of an array that says itself how long it is. -/
theorem released_full (type : Ty) (m : Memory) (origin : Origin) (slot : Slot) :
    type.released m origin .full slot none = type.parts m origin slot := by
  cases type <;> rfl

theorem released_none : type.released m origin .none slot known = [] := by
  cases type <;> simp [Ty.released, ReleaseDepth.coversElements, ReleaseDepth.coversContainer]

theorem released_congr (same : ∀ b, b ∈ m.chunks ↔ b ∈ m'.chunks) (type : Ty) (origin : Origin) (depth : ReleaseDepth)
    (slot : Slot) (known : Option Nat) :
    type.released m origin depth slot known = type.released m' origin depth slot known := by
  cases type with
  | array element length =>
      simp only [Ty.released]
      rw [elementParts_congr same (parts_congr same origin element)]
  | _ => rfl

theorem parts_engine (flat : type.IsFlat) (m : Memory) (slot : Slot) : type.parts m .engine slot = type.owned slot := by
  cases type with
  | array element length => exact absurd rfl (flat element length)
  | struct layout => simp [Ty.parts, Ty.owned]
  | _ => rfl

theorem released_engine (flat : element.IsFlat) (m : Memory) (length : ArrayLength) (slot : Slot) (known : Option Nat) :
    (Ty.array element length).released m .engine .full slot known = m.ownedArray element length slot known := by
  have same : element.parts m .engine = element.owned := funext (parts_engine flat m)
  simp only [Ty.released, same]
  rfl

/-! ## Releasing -/

theorem elements_releases {freeElement : Slot → EngineM Unit} {parts : Slot → List UInt64}
    (each : ∀ (x : Slot) (t : Engine), (∀ b, b ∈ t.memory.chunks ↔ b ∈ s.memory.chunks) →
      t.GivesUp ((parts x).map .block) (freeElement x t).2)
    (scalar : element.isPointerLike = false → ∀ x, parts x = []) (length : ArrayLength) (slot : Slot)
    (known : Option Nat) (depth : ReleaseDepth) :
    s.GivesUp ((if depth.coversElements then s.memory.elementParts parts element length slot known else []).map .block)
      ((if depth.coversElements && element.isPointerLike then
          (s.memory.arrayLength? element length slot.address known).forM fun count =>
            forElements freeElement element.native slot.address 0 count
        else pure () : EngineM Unit) s).2 := by
  cases covers : depth.coversElements with
  | false => exact .refl s
  | true =>
      simp only [if_true, Bool.true_and]
      unfold Memory.elementParts
      cases address : element.isPointerLike with
      | false =>
          have nothing : ∀ count, ((List.range count).flatMap fun i =>
              parts (s.memory.load element.native (elementAddress slot.address element.native i))) = [] := fun count => by
            simp [scalar address]
          cases s.memory.arrayLength? element length slot.address known with
          | none => exact .refl s
          | some count =>
              rw [Option.elim_some, nothing]
              exact .refl s
      | true =>
          cases s.memory.arrayLength? element length slot.address known with
          | none => exact .refl s
          | some count =>
              have all := forElements_givesUp each element.native slot.address 0 count s fun _ => .rfl
              rwa [← List.range_eq_range', ← List.map_flatMap] at all

theorem freeArrayWith_releases {freeElement : Slot → EngineM Unit} {parts : Slot → List UInt64}
    (each : ∀ (x : Slot) (t : Engine), (∀ b, b ∈ t.memory.chunks ↔ b ∈ s.memory.chunks) →
      t.GivesUp ((parts x).map .block) (freeElement x t).2)
    (scalar : element.isPointerLike = false → ∀ x, parts x = []) (length : ArrayLength) (present : slot.isNull = false)
    (known : Option Nat) (depth : ReleaseDepth) (origin : Origin) :
    s.GivesUp (((if depth.coversElements then s.memory.elementParts parts element length slot known else []) ++
        if depth.coversContainer then [slot.address] else []).map .block)
      (freeArrayWith freeElement element length slot known depth origin s).2 := by
  by_cases none : depth = .none
  · subst none
    have nothing : freeArrayWith freeElement element length slot known .none origin s = ((), s) := by
      simp only [freeArrayWith, beq_self_eq_true, Bool.or_true, if_true]
      rfl
    rw [nothing]
    exact .refl s
  · rw [freeArrayWith_eq present (by simpa using none), List.map_append]
    refine (elements_releases each scalar length slot known depth).trans ?_
    cases depth.coversContainer with
    | false => exact .refl _
    | true => exact EngineM.release_givesUp slot.address (origin == .engine) _

/-- A value that is released at a depth gives up what the depth covers. -/
theorem freeValue_releases (type : Ty) (slot : Slot) (depth : ReleaseDepth) (origin : Origin) (s : Engine) :
    s.GivesUp ((type.released s.memory origin depth slot none).map .block) (freeValue type slot depth origin s).2 := by
  by_cases null : slot.isNull = true
  · rw [freeValue_null null, released_null null]
    exact .refl s
  · have present : slot.isNull = false := by simpa using null
    cases shape : type with
    | array element length =>
        simp only [Ty.released, present, Bool.false_eq_true, if_false]
        exact freeArrayWith_releases (fun x t same => by
          have step := freeValue_releases element x .full origin t
          rwa [released_full, parts_congr same] at step) (fun scalar x => parts_of_not_address scalar _ origin x)
          length present none depth origin
    | utf8 =>
        simp only [Ty.released, Ty.parts, freeValue, present]
        cases depth.coversContainer with
        | false => exact .refl s
        | true => exact EngineM.release_givesUp slot.address (origin == .engine) s
    | struct layout =>
        simp only [Ty.released, Ty.parts, freeValue, present]
        cases depth.coversContainer with
        | false => exact .refl s
        | true =>
            cases origin with
            | engine => exact .refl s
            | native => exact EngineM.release_givesUp slot.address false s
    | _ =>
        simp only [Ty.released, Ty.parts, freeValue]
        split <;> exact .refl s
termination_by type
decreasing_by simp; omega

theorem freeArray_releases (element : Ty) (length : ArrayLength) (slot : Slot) (known : Option Nat)
    (depth : ReleaseDepth) (origin : Origin) (s : Engine) :
    s.GivesUp (((Ty.array element length).released s.memory origin depth slot known).map .block)
      (freeArray element length slot known depth origin s).2 := by
  by_cases null : slot.isNull = true
  · rw [freeArray_null null, released_null null]
    exact .refl s
  · have present : slot.isNull = false := by simpa using null
    simp only [Ty.released, present, Bool.false_eq_true, if_false]
    exact freeArrayWith_releases (fun x t same => by
      have step := freeValue_releases element x .full origin t
      rwa [released_full, parts_congr same] at step) (fun scalar x => parts_of_not_address scalar _ origin x)
      length present known depth origin

theorem freeArray_spares {a : UInt64} (kept : a ∉ (Ty.array element length).released s.memory origin depth slot known) :
    s.Spares a (freeArray element length slot known depth origin s).2 :=
  (freeArray_reports a element length slot known depth origin s).spares
    (freeArray_releases element length slot known depth origin s) (by simpa using kept)

theorem freeArray_givesUp (flat : element.IsFlat) (length : ArrayLength) (slot : Slot) (known : Option Nat)
    (s : Engine) :
    s.GivesUp ((s.memory.ownedArray element length slot known).map .block)
      (freeArray element length slot known .full .engine s).2 := by
  rw [← released_engine flat]
  exact freeArray_releases element length slot known .full .engine s

end Ferry
