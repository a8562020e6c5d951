import Ferry.Proofs.Marshal.Conversions

/-!
# Which values convert

`canConvert` says without native work whether a value converts. What converts passes the check, arrays of any nesting
included (`canConvert_of_encode`). For the types of single values the check decides: with room in memory a value that
passes converts, and one that does not is refused as the fault of the caller (`toNative_plain`).
-/

set_option autoImplicit false

namespace Ferry

variable {s s' : Engine} {value : Value} {type element : Ty} {length : ArrayLength} {nullable : Bool}

/-! ## Single values -/

theorem canConvert_nullish (flat : ∀ element length, type ≠ .array element length) (null : value.isNullish = true) :
    canConvert value type nullable = (type.isVoid || (type.isPointerLike && nullable)) := by
  cases type with
  | array element length => exact absurd rfl (flat element length)
  | _ => simp only [canConvert, null, if_true]

/-- The outcomes of converting a single value: the check passes and the value has a slot or is text, or the check does
not pass and the caller is at fault, or the type is one that the engine fills by itself. -/
inductive ScalarOutcome (value : Value) (type : Ty) (nullable : Bool) : Prop
  | slot (slot : Slot) (run : encodeScalar value type = pure slot) (passes : canConvert value type nullable = true)
  | text (t : String) (text : type = .utf8) (run : encodeScalar value type = encodeText t) (given : value = .string t)
    (clean : t.toList.contains '\x00' = false) (passes : canConvert value type nullable = true)
  | refused (e : MarshalError) (run : encodeScalar value type = throw (.error e)) (fault : e.isTypeError = true)
    (fails : canConvert value type nullable = false)
  | supplied (e : MarshalError) (run : encodeScalar value type = throw (.error e))
    (type : type = .destroyNotify ∨ ∃ signature, type = .callback signature)

theorem scalarOutcome_integer (integral : type.native.isInteger = true)
    (scalar : encodeScalar value type = match value.integer? with
      | some v => .ofExcept (encodeInteger v type)
      | none => throw (.error (mismatch type value)))
    (check : canConvert value type nullable = value.integer?.any type.native.holds) :
    ScalarOutcome value type nullable := by
  cases given : value.integer? with
  | none =>
      rw [given] at scalar check
      exact .refused _ scalar rfl check
  | some v =>
      rw [given] at scalar check
      simp only [encodeInteger, integral, if_true] at scalar
      by_cases held : type.native.holds v = true
      · rw [if_pos held] at scalar
        exact .slot _ scalar (check.trans held)
      · rw [if_neg held] at scalar
        exact .refused _ scalar rfl (check.trans (Bool.eq_false_iff.mpr held))

theorem scalarOutcome (flat : ∀ element length, type ≠ .array element length) (present : value.isNullish = false) :
    ScalarOutcome value type nullable := by
  cases type with
  | array element length => exact absurd rfl (flat element length)
  | int8 | uint8 | int16 | uint16 | int32 | uint32 | int64 | uint64 =>
      cases value with
      | undefined | null => cases present
      | _ => exact scalarOutcome_integer rfl rfl rfl
  | void =>
      cases value with
      | undefined | null => cases present
      | _ => exact .slot .zero rfl rfl
  | boolean =>
      cases value with
      | boolean b => exact .slot _ rfl rfl
      | undefined | null => cases present
      | _ => exact .refused _ rfl rfl rfl
  | float | double =>
      cases value with
      | int | uint | number => exact .slot _ rfl rfl
      | undefined | null => cases present
      | _ => exact .refused _ rfl rfl rfl
  | utf8 =>
      cases value with
      | string t =>
          cases clean : t.toList.contains '\x00' with
          | false => exact .text t rfl rfl rfl clean (by simp only [canConvert, clean]; rfl)
          | true =>
              refine .refused .interiorZero ?_ rfl (by simp only [canConvert, clean]; rfl)
              simp only [encodeScalar, encodeText, clean, if_true]
              rfl
      | undefined | null => cases present
      | _ => exact .refused _ rfl rfl rfl
  | pointer =>
      cases value with
      | pointer | boxed => exact .slot _ rfl rfl
      | undefined | null => cases present
      | _ => exact .refused _ rfl rfl rfl
  | struct layout =>
      cases value with
      | boxed b =>
          by_cases same : b.layout = layout
          · exact .slot (.ofAddress b.address) (by simp only [encodeScalar, same, if_true]) (by simp [canConvert, same, Value.isNullish])
          · exact .refused _ (by simp only [encodeScalar, same, if_false]; rfl) rfl
              (by simp [canConvert, same, Value.isNullish])
      | undefined | null => cases present
      | _ => exact .refused _ rfl rfl rfl
  | callback signature => exact .supplied _ (by cases value <;> rfl) (Or.inr ⟨signature, rfl⟩)
  | destroyNotify => exact .supplied _ (by cases value <;> rfl) (Or.inl rfl)

theorem encode_nullish (flat : ∀ element length, type ≠ .array element length) (null : value.isNullish = true) :
    (encode value type nullable = pure .zero ∧ canConvert value type nullable = true) ∨
      ∃ e, encode value type nullable = throw (.error e) ∧ e.isTypeError = true ∧ canConvert value type nullable = false := by
  rw [encode_of_flat flat, canConvert_nullish flat null, null]
  cases void : type.isVoid with
  | true =>
      cases type with
      | void => exact Or.inl ⟨by cases value <;> rfl, rfl⟩
      | _ => cases void
  | false =>
      cases pointer : type.isPointerLike with
      | false => exact Or.inr ⟨_, rfl, rfl, rfl⟩
      | true =>
          cases nullable with
          | true => exact Or.inl ⟨rfl, rfl⟩
          | false => exact Or.inr ⟨_, rfl, rfl, rfl⟩

/-! ## What converts passes the check -/

theorem canConvert_of_encodeItems {encodeItem : Value → EncodeM Slot} {undo : Nat → EngineM Unit} {t : NativeType}
    {base : UInt64} (each : ∀ item slot s s', encodeItem item s = (.ok slot, s') → canConvert item element false = true)
    {items : List Value} {index : Nat} (run : encodeItems encodeItem undo t base index items s = (.ok (), s')) :
    items.all (fun item => canConvert item element false) = true := by
  induction items generalizing index s with
  | nil => rfl
  | cons item rest ih =>
      rcases encodeItems_cons_cases run with ⟨slot, s₁, converted, later⟩ | ⟨e, s₁, -, -, impossible⟩
      · rw [List.all_cons, each item slot s s₁ converted, ih later]
        rfl
      · cases impossible

theorem canConvert_of_encodeArrayWith {encodeItem : Value → EncodeM Slot} {made : Slot × Nat}
    (each : ∀ item slot s s', encodeItem item s = (.ok slot, s') → canConvert item element false = true)
    (run : encodeArrayWith encodeItem value element length nullable s = (.ok made, s')) :
    canConvert value (.array element length) nullable = true := by
  rcases encodeArrayWith_cases run with ⟨items, block, s₁, filled, rfl, -, -, items_run, result⟩ | ⟨-, ⟨same, other⟩ | ⟨e, impossible⟩⟩
  · cases filled with
    | error e => cases result
    | ok u =>
        have all := canConvert_of_encodeItems each items_run
        simpa only [canConvert, Value.isNullish, Bool.false_eq_true, if_false] using all
  · cases value with
    | array items => exact absurd rfl (other items)
    | undefined | null =>
        cases nullable with
        | true => rfl
        | false => cases run
    | _ => cases run
  · cases impossible

theorem canConvert_of_encode (type : Ty) {value : Value} {nullable : Bool} {slot : Slot} {s s' : Engine}
    (run : encode value type nullable s = (.ok slot, s')) : canConvert value type nullable = true := by
  cases shape : type with
  | array element length =>
      rw [shape, encode] at run
      obtain ⟨made, s₁, run, last⟩ := EngineM.failing_bind_ok run
      exact canConvert_of_encodeArrayWith (fun item slot s s' each => canConvert_of_encode element each) run
  | _ =>
      have flat : ∀ element length, type ≠ .array element length := by simp [shape]
      rw [← shape]
      cases null : value.isNullish with
      | true =>
          rcases @encode_nullish value type nullable flat null with ⟨-, passes⟩ | ⟨e, refused, -⟩
          · exact passes
          · rw [refused] at run
            cases run
      | false =>
          rw [encode_of_flat flat, null] at run
          cases @scalarOutcome value type nullable flat null with
          | slot _ _ passes => exact passes
          | text _ _ _ _ _ passes => exact passes
          | refused e refused => rw [refused] at run; cases run
          | supplied e refused => rw [refused] at run; cases run
termination_by type
decreasing_by simp [shape]; omega

theorem canConvert_of_encodeArray {made : Slot × Nat}
    (run : encodeArray value element length nullable s = (.ok made, s')) :
    canConvert value (.array element length) nullable = true :=
  canConvert_of_encodeArrayWith (fun _ _ _ _ each => canConvert_of_encode element each) run

/-! ## Room in memory -/

namespace Memory

/-- How much of the address space a block takes. -/
def span (size : Nat) : Nat := (max size 1 / granule + 2) * granule

theorem allocate?_of_room {m : Memory} {size : Nat} (label : Label) (room : m.frontier + span size ≤ limit) :
    ∃ a m', m.allocate? label size = some (a, m') ∧ m'.frontier = m.frontier + span size := by
  have fits : m.frontier + max size 1 ≤ limit := by
    unfold span granule at room
    omega
  unfold allocate?
  rw [dif_pos fits]
  exact ⟨_, _, rfl, rfl⟩

end Memory

/-- The room that the text of a value takes when it is converted. -/
def Value.textSpan : Value → Nat
  | .string t => Memory.span ((Utf8.write t).length + 1)
  | _ => 0

theorem allocate_of_room {size : Nat} (room : s.memory.frontier + Memory.span size ≤ Memory.limit) :
    ∃ a s', EngineM.allocate size s = (some a, s') ∧ s'.memory.frontier = s.memory.frontier + Memory.span size := by
  obtain ⟨a, m, made, frontier⟩ := Memory.allocate?_of_room (.engine s.memory.engineBlocks) room
  rw [EngineM.allocate_eq]
  simp only [Memory.allocateEngine?, made, Option.map_some]
  exact ⟨a, _, rfl, frontier⟩

theorem encodeText_of_room {t : String} (clean : t.toList.contains '\x00' = false)
    (room : s.memory.frontier + (Value.string t).textSpan ≤ Memory.limit) :
    ∃ slot s', encodeText t s = (.ok slot, s') ∧
      s'.memory.frontier = s.memory.frontier + (Value.string t).textSpan := by
  obtain ⟨a, s₁, made, frontier⟩ := allocate_of_room room
  have block : allocateBlock ((Utf8.write t).length + 1) s = (.ok a, s₁) := by
    unfold allocateBlock
    rw [EngineM.failing_lift, made]
    rfl
  refine ⟨.ofAddress a, { s₁ with memory := s₁.memory.write a (Utf8.write t) }, ?_, ?_⟩
  · simp only [encodeText, clean, Bool.false_eq_true, if_false]
    rw [EngineM.failing_bind, block]
    rfl
  · rw [Memory.frontier_write]
    exact frontier

/-- The types of single values that a caller can supply. -/
structure Ty.IsPlain (type : Ty) : Prop where
  flat : ∀ element length, type ≠ .array element length
  uncalled : ∀ signature, type ≠ .callback signature
  given : type ≠ .destroyNotify

theorem encode_plain (plain : type.IsPlain) (room : s.memory.frontier + value.textSpan ≤ Memory.limit) :
    (canConvert value type nullable = true ∧ ∃ slot s', encode value type nullable s = (.ok slot, s') ∧
      s'.memory.frontier ≤ s.memory.frontier + value.textSpan) ∨
    canConvert value type nullable = false ∧ ∃ e, encode value type nullable s = (.error (.error e), s) ∧
      e.isTypeError = true := by
  cases null : value.isNullish with
  | true =>
      rcases @encode_nullish value type nullable plain.flat null with ⟨made, passes⟩ | ⟨e, refused, fault, fails⟩
      · exact Or.inl ⟨passes, .zero, s, by rw [made]; rfl, Nat.le_add_right _ _⟩
      · exact Or.inr ⟨fails, e, by rw [refused]; rfl, fault⟩
  | false =>
      rw [encode_of_flat plain.flat, null]
      cases @scalarOutcome value type nullable plain.flat null with
      | slot slot made passes =>
          exact Or.inl ⟨passes, slot, s, congrFun made s, Nat.le_add_right _ _⟩
      | text t text made given clean passes =>
          subst given
          obtain ⟨slot, s', run, frontier⟩ := encodeText_of_room clean room
          exact Or.inl ⟨passes, slot, s', (congrFun made s).trans run, Nat.le_of_eq frontier⟩
      | refused e refused fault fails => exact Or.inr ⟨fails, e, congrFun refused s, fault⟩
      | supplied e refused other =>
          rcases other with notify | ⟨signature, called⟩
          · exact absurd notify plain.given
          · exact absurd called (plain.uncalled signature)

theorem toNative_plain (plain : type.IsPlain) (room : s.memory.frontier + value.textSpan ≤ Memory.limit) :
    (canConvert value type nullable = true ∧ ∃ slot s', toNative value type nullable s = (.ok slot, s') ∧
      s'.memory.frontier ≤ s.memory.frontier + value.textSpan) ∨
    canConvert value type nullable = false ∧ ∃ e s', toNative value type nullable s = (.error (.error e), s') ∧
      e.isTypeError = true := by
  unfold toNative
  rw [EncodeM.onError_eq]
  rcases @encode_plain s value type nullable plain room with ⟨passes, slot, s', run, room⟩ | ⟨fails, e, run, fault⟩
  · exact Or.inl ⟨passes, slot, s', by rw [run], room⟩
  · exact Or.inr ⟨fails, e, _, by rw [run], fault⟩

end Ferry
