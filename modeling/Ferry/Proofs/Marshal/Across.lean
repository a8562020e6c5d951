import Ferry.Proofs.Engine.Sparing
import Ferry.Proofs.Marshal.Conversions
import Ferry.Proofs.Marshal.Freeing

/-!
# What holds across conversions and releases

A conversion to a native value makes blocks, writes to memory, and releases what it made when it fails; a release goes
through a value and gives up one block after the other. A relation between states of the engine that holds across each of
these, and across one step after another, holds across the whole: `encode_across` and `freeValue_across`. What the relation
says is of no importance here.
-/

set_option autoImplicit false

namespace Ferry

variable {element type : Ty} {length : ArrayLength} {slot : Slot} {known : Option Nat} {depth : ReleaseDepth}
  {origin : Origin} {R : Engine → Engine → Prop}

/-! ## Releases -/

section Releases

variable (refl : ∀ s, R s s) (trans : ∀ {s s' s''}, R s s' → R s' s'' → R s s'')

include refl trans

theorem forElements_across {act : Slot → EngineM Unit} (each : ∀ x s, R s (act x s).2) (t : NativeType) (base : UInt64)
    (index count : Nat) (s : Engine) : R s (forElements act t base index count s).2 := by
  induction count generalizing index s with
  | zero => exact refl s
  | succ count ih => exact trans (each _ s) (ih (index + 1) _)

variable (origin) (release : ∀ a s, R s (EngineM.release a (origin == .engine) s).2)

include release

theorem freeArrayWith_across {freeElement : Slot → EngineM Unit} (each : ∀ x s, R s (freeElement x s).2) (element : Ty)
    (length : ArrayLength) (slot : Slot) (known : Option Nat) (depth : ReleaseDepth) (s : Engine) :
    R s (freeArrayWith freeElement element length slot known depth origin s).2 := by
  by_cases nothing : (slot.isNull || depth == .none) = true
  · unfold freeArrayWith
    rw [if_pos nothing]
    exact refl s
  · rw [Bool.not_eq_true, Bool.or_eq_false_iff] at nothing
    rw [freeArrayWith_eq nothing.1 nothing.2]
    have elements : R s ((if depth.coversElements && element.isPointerLike then
        (s.memory.arrayLength? element length slot.address known).forM fun count =>
          forElements freeElement element.native slot.address 0 count
      else pure () : EngineM Unit) s).2 := by
      split
      · exact EngineM.forM_option_across refl _ (fun count _ => forElements_across refl trans each _ _ 0 count) s
      · exact refl s
    refine trans elements ?_
    cases depth.coversContainer with
    | true => exact release slot.address _
    | false => exact refl _

/-- What holds across the release of a block of the origin, and across one step after another, holds across the release of a
value. -/
theorem freeValue_across (type : Ty) (slot : Slot) (depth : ReleaseDepth) (s : Engine) :
    R s (freeValue type slot depth origin s).2 := by
  cases shape : type with
  | array element length =>
      rw [freeValue]
      exact freeArrayWith_across origin refl trans release (fun x t => freeValue_across element x .full t) element length
        slot none depth s
  | utf8 =>
      rw [freeValue]
      split
      · exact release slot.address s
      · exact refl s
  | struct layout =>
      rw [freeValue]
      cases origin with
      | engine =>
          rw [if_neg (by simp)]
          exact refl s
      | native =>
          split
          · exact release slot.address s
          · exact refl s
  | _ => exact refl s
termination_by type
decreasing_by simp; omega

theorem freeArray_across (element : Ty) (length : ArrayLength) (slot : Slot) (known : Option Nat) (depth : ReleaseDepth)
    (s : Engine) : R s (freeArray element length slot known depth origin s).2 :=
  freeArrayWith_across origin refl trans release (fun x t => freeValue_across origin refl trans release element x .full t)
    element length slot known depth s

end Releases

/-- Whatever is released of a value, the events tell. -/
theorem freeArray_reports (a : UInt64) (element : Ty) (length : ArrayLength) (slot : Slot) (known : Option Nat)
    (depth : ReleaseDepth) (origin : Origin) (s : Engine) :
    s.Reports a (freeArray element length slot known depth origin s).2 :=
  freeArray_across (R := Engine.Reports a) origin (.refl a) .trans (fun x => EngineM.release_reports a x _) element length
    slot known depth s

/-! ## Conversions -/

section Conversions

variable (refl : ∀ s, R s s) (trans : ∀ {s s' s''}, R s s' → R s' s'' → R s s'')
  (allocate : ∀ size s, R s (EngineM.allocate size s).2) (write : ∀ a bytes s, R s (EngineM.writeBytes a bytes s).2)

include refl trans write

theorem encodeItems_across {encodeItem : Value → EncodeM Slot} {undo : Nat → EngineM Unit}
    (each : ∀ item s, R s (encodeItem item s).2) (undoes : ∀ n s, R s (undo n s).2) (t : NativeType) (base : UInt64)
    (index : Nat) (items : List Value) (s : Engine) : R s (encodeItems encodeItem undo t base index items s).2 := by
  induction items generalizing index s with
  | nil => exact refl s
  | cons item rest ih =>
      rcases run : encodeItems encodeItem undo t base index (item :: rest) s with ⟨r, s'⟩
      have first := each item s
      rcases encodeItems_cons_cases run with ⟨slot, s₁, converted, later⟩ | ⟨e, s₁, refused, after, -⟩
      · rw [converted] at first
        have others := ih (index + 1) (EngineM.store t (elementAddress base t index) slot s₁).2
        have stored := trans first (write (elementAddress base t index) (slot.toBytes t) s₁)
        have ends : (encodeItems encodeItem undo t base (index + 1) rest
            (EngineM.store t (elementAddress base t index) slot s₁).2).2 = s' := congrArg Prod.snd later
        rw [ends] at others
        exact trans stored others
      · rw [refused] at first
        rcases after with ⟨-, rfl⟩ | ⟨-, rfl⟩
        · exact trans first (undoes index s₁)
        · exact first

include allocate

theorem encodeText_across (text : String) (s : Engine) : R s (encodeText text s).2 := by
  rcases run : encodeText text s with ⟨r, s'⟩
  rcases encodeText_cases run with ⟨block, s₁, made, -, rfl⟩ | ⟨rfl, -⟩
  · have first := allocate ((Utf8.write text).length + 1) s
    rw [made] at first
    exact trans first (write block (Utf8.write text) s₁)
  · exact refl _

variable (release : ∀ a s, R s (EngineM.release a true s).2)

include release

theorem encodeArrayWith_across {encodeItem : Value → EncodeM Slot} (each : ∀ item s, R s (encodeItem item s).2)
    (value : Value) (element : Ty) (length : ArrayLength) (nullable : Bool) (s : Engine) :
    R s (encodeArrayWith encodeItem value element length nullable s).2 := by
  rcases run : encodeArrayWith encodeItem value element length nullable s with ⟨r, s'⟩
  rcases encodeArrayWith_cases run with ⟨items, block, s₁, filled, -, -, made, stores, -⟩ | ⟨rfl, -⟩
  · have first := allocate (length.capacity items.length * element.native.size) s
    have undoes := fun n => freeArray_across .engine refl trans release element length (.ofAddress block) (some n) .full
    have items_across := encodeItems_across refl trans write each undoes element.native block 0 items s₁
    rw [made] at first
    rw [stores] at items_across
    exact trans first items_across
  · exact refl _

/-- What holds across the making of a block, a write, and the release of a block of the engine, holds across a conversion,
whether it succeeds or not. -/
theorem encode_across (value : Value) (type : Ty) (nullable : Bool) (s : Engine) :
    R s (encode value type nullable s).2 := by
  rcases run : encode value type nullable s with ⟨r, s'⟩
  cases shape : type with
  | array element length =>
      rw [shape, encode] at run
      have array := encodeArrayWith_across refl trans allocate write release
        (fun item t => encode_across item element false t) value element length nullable s
      rcases EngineM.failing_bind_cases run with ⟨made, s₁, filled, last⟩ | ⟨e, failed, -⟩
      · cases last
        rwa [filled] at array
      · rwa [failed] at array
  | _ =>
      rcases encode_flat_cases (by simp [shape]) run with ⟨text, -, copied⟩ | ⟨rfl, -⟩
      · have across := encodeText_across refl trans allocate write text s
        rwa [copied] at across
      · exact refl _
termination_by type
decreasing_by simp; omega

theorem encodeArray_across (value : Value) (element : Ty) (length : ArrayLength) (nullable : Bool) (s : Engine) :
    R s (encodeArray value element length nullable s).2 :=
  encodeArrayWith_across refl trans allocate write release
    (fun item t => encode_across refl trans allocate write release item element false t) value element length nullable s

end Conversions

end Ferry
