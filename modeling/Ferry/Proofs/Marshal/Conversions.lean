import Ferry.Marshal.Decode
import Ferry.Marshal.Encode
import Ferry.Proofs.Engine.Running
import Ferry.Proofs.Memory.Evolution

/-!
# What conversions do to memory

A conversion to a native value that succeeds makes blocks, and leaves those that were there as they were. A
conversion from a native value that hands nothing over leaves the whole engine as it was.
-/

set_option autoImplicit false

namespace Ferry

variable {s s' : Engine}

theorem allocateBlock_cases {size : Nat} {r : Except (Failure MarshalError) UInt64} (run : allocateBlock size s = (r, s')) :
    (∃ a, EngineM.allocate size s = (some a, s') ∧ r = .ok a) ∨
    (EngineM.allocate size s = (none, s') ∧ r = .error (.error (.allocationFailed size))) := by
  unfold allocateBlock at run
  rw [EngineM.failing_lift] at run
  rcases found : EngineM.allocate size s with ⟨result, s₁⟩
  rw [found] at run
  cases result with
  | some a =>
      cases run
      exact Or.inl ⟨a, rfl, rfl⟩
  | none =>
      cases run
      exact Or.inr ⟨rfl, rfl⟩

theorem allocateBlock_ok {size : Nat} {a : UInt64} (made : allocateBlock size s = (.ok a, s')) :
    EngineM.allocate size s = (some a, s') := by
  rcases allocateBlock_cases made with ⟨b, found, same⟩ | ⟨-, impossible⟩
  · cases same
    exact found
  · cases impossible

theorem allocateBlock_error {size : Nat} {e : Failure MarshalError} (full : allocateBlock size s = (.error e, s')) :
    s' = s := by
  rcases allocateBlock_cases full with ⟨a, -, impossible⟩ | ⟨found, -⟩
  · cases impossible
  · exact EngineM.allocate_none found

theorem encodeText_cases {text : String} {r : Except (Failure MarshalError) Slot} (run : encodeText text s = (r, s')) :
    (∃ block s₁, EngineM.allocate ((Utf8.write text).length + 1) s = (some block, s₁) ∧
      r = .ok (.ofAddress block) ∧ s' = { s₁ with memory := s₁.memory.write block (Utf8.write text) }) ∨
    (s' = s ∧ ∃ e, r = .error e) := by
  unfold encodeText at run
  by_cases interior : text.toList.contains '\x00' = true
  · rw [if_pos interior] at run
    cases run
    exact Or.inr ⟨rfl, _, rfl⟩
  · rw [if_neg interior] at run
    rcases EngineM.failing_bind_cases run with ⟨block, s₁, made, rest⟩ | ⟨e, failed, rfl⟩
    · cases rest
      exact Or.inl ⟨block, s₁, allocateBlock_ok made, rfl, rfl⟩
    · exact Or.inr ⟨allocateBlock_error failed, e, rfl⟩

/-- Only text needs the engine. -/
theorem encodeScalar_cases {value : Value} {type : Ty} {r : Except (Failure MarshalError) Slot}
    (run : encodeScalar value type s = (r, s')) :
    (∃ text, type = .utf8 ∧ encodeText text s = (r, s')) ∨ (s' = s ∧ (type = .utf8 → ∃ e, r = .error e)) := by
  unfold encodeScalar at run
  split at run
  case h_5 text => exact Or.inl ⟨text, rfl, run⟩
  case h_3 | h_4 =>
    right
    cases found : value.double? <;>
    · rw [found] at run
      cases run
      exact ⟨rfl, by simp⟩
  case h_8 =>
    right
    split at run <;>
    · cases run
      exact ⟨rfl, by simp⟩
  case h_16 text _ =>
    right
    cases found : value.integer? <;>
    · rw [found] at run
      cases run
      exact ⟨rfl, by simp_all⟩
  all_goals
    cases run
    exact Or.inr ⟨rfl, by simp⟩

theorem encode_of_flat {value : Value} {type : Ty} {nullable : Bool}
    (flat : ∀ element length, type ≠ .array element length) :
    encode value type nullable =
      if value.isNullish && !type.isVoid then
        if type.isPointerLike then if nullable then return .zero else throw (.error (.unexpectedNull type))
        else throw (.error (mismatch type value))
      else encodeScalar value type := by
  cases type with
  | array element length => exact absurd rfl (flat element length)
  | _ => rfl

/-- A value of a type that is no array is null, or needs the engine at most for text. -/
theorem encode_flat_cases {value : Value} {type : Ty} {nullable : Bool} {r : Except (Failure MarshalError) Slot}
    (flat : ∀ element length, type ≠ .array element length) (run : encode value type nullable s = (r, s')) :
    (∃ text, type = .utf8 ∧ encodeText text s = (r, s')) ∨
      (s' = s ∧ (type = .utf8 → (r = .ok .zero ∧ nullable = true) ∨ ∃ e, r = .error e)) := by
  rw [encode_of_flat flat] at run
  split at run
  · right
    split at run
    · split at run
      · rename_i admitted
        cases run
        exact ⟨rfl, fun _ => Or.inl ⟨rfl, admitted⟩⟩
      · cases run
        exact ⟨rfl, fun _ => Or.inr ⟨_, rfl⟩⟩
    · cases run
      exact ⟨rfl, fun _ => Or.inr ⟨_, rfl⟩⟩
  · rcases encodeScalar_cases run with text | ⟨same, refused⟩
    · exact Or.inl text
    · exact Or.inr ⟨same, fun h => Or.inr (refused h)⟩

/-- The conversion raises no panic: it succeeds or answers an error. -/
def EncodeM.Calm {α : Type} (act : EncodeM α) : Prop :=
  ∀ s text s', act s ≠ (.error (.panic text), s')

namespace EncodeM.Calm

variable {α β : Type}

theorem pure (a : α) : Calm (Pure.pure a : EncodeM α) := fun _ _ _ run => by cases run

theorem throw (e : MarshalError) : Calm (MonadExcept.throw (.error e) : EncodeM α) := fun _ _ _ run => by cases run

theorem ofExcept (r : Except MarshalError α) : Calm (EncodeM.ofExcept r) := by
  intro s text s' run
  cases r <;> cases run

theorem lift (act : EngineM α) : Calm (liftM act : EncodeM α) := fun _ _ _ run => by cases run

theorem bind {act : EncodeM α} {next : α → EncodeM β} (first : act.Calm) (later : ∀ a, (next a).Calm) :
    Calm (act >>= next) := by
  intro s text s' run
  rcases EngineM.failing_bind_cases run with ⟨a, s₁, -, rest⟩ | ⟨e, failed, same⟩
  · exact later a s₁ text s' rest
  · cases same
    exact first s text s' failed

end EncodeM.Calm

theorem calm_allocateBlock (size : Nat) : (allocateBlock size).Calm := by
  intro s text s' run
  rcases allocateBlock_cases run with ⟨a, -, impossible⟩ | ⟨-, impossible⟩ <;> cases impossible

theorem calm_encodeText (text : String) : (encodeText text).Calm := by
  unfold encodeText
  split
  · exact .bind (.throw _) fun _ => .bind (calm_allocateBlock _) fun _ => .bind (.lift _) fun _ => .pure _
  · exact .bind (calm_allocateBlock _) fun _ => .bind (.lift _) fun _ => .pure _

theorem calm_encodeScalar (value : Value) (type : Ty) : (encodeScalar value type).Calm := by
  unfold encodeScalar
  split
  case h_5 text => exact calm_encodeText text
  all_goals
    try split
    all_goals first
      | exact .pure _
      | exact .throw _
      | exact .ofExcept _

/-- Only the size of an array can be too large for a machine word. -/
theorem calm_encode_flat {value : Value} {type : Ty} {nullable : Bool}
    (flat : ∀ element length, type ≠ .array element length) : (encode value type nullable).Calm := by
  rw [encode_of_flat flat]
  split
  · split
    · split
      · exact .pure _
      · exact .throw _
    · exact .throw _
  · exact calm_encodeScalar value type

/-- The block of an array has the exact size; if that is no machine word, a panic comes before any block. -/
theorem allocateArray_cases {length : ArrayLength} {items size : Nat} {r : Except (Failure MarshalError) UInt64}
    (run : allocateArray length items size s = (r, s')) :
    (∃ block, items * size ≤ Memory.limit ∧
      EngineM.allocate (length.capacity items * size) s = (some block, s') ∧ r = .ok block) ∨
    (s' = s ∧ ∃ e, r = .error e) := by
  unfold allocateArray at run
  by_cases fits : items * size ≤ Memory.limit
  · simp only [fits, if_true] at run
    cases sized : byteSize? (length.capacity items) size with
    | none =>
        rw [sized] at run
        cases run
        exact Or.inr ⟨rfl, _, rfl⟩
    | some bytes =>
        obtain ⟨-, rfl⟩ := byteSize?_eq_some.mp sized
        rw [sized] at run
        cases r with
        | ok block => exact Or.inl ⟨block, fits, allocateBlock_ok run, rfl⟩
        | error e => exact Or.inr ⟨allocateBlock_error run, e, rfl⟩
  · simp only [fits, if_false] at run
    cases run
    exact Or.inr ⟨rfl, _, rfl⟩

theorem ArrayLength.le_capacity (length : ArrayLength) (count : Nat) : count ≤ length.capacity count := by
  cases length with
  | parameter l => exact Nat.le_refl count
  | zeroTerminated => exact Nat.le_succ count
  | fixed n => exact Nat.le_max_right n count

/-- An array is filled in a new block, unless it is null or refused at once. -/
theorem encodeArrayWith_cases {encodeItem : Value → EncodeM Slot} {value : Value} {element : Ty}
    {length : ArrayLength} {nullable : Bool} {r : Except (Failure MarshalError) (Slot × Nat)}
    (run : encodeArrayWith encodeItem value element length nullable s = (r, s')) :
    (∃ items block s₁ filled, value = .array items ∧ items.length * element.native.size ≤ Memory.limit ∧
      EngineM.allocate (length.capacity items.length * element.native.size) s = (some block, s₁) ∧
      encodeItems encodeItem
        (fun stored => freeArray element length (.ofAddress block) (some stored) .full .engine)
        element.native block 0 items s₁ = (filled, s') ∧
      r = filled.map fun _ => (.ofAddress block, items.length)) ∨
    (s' = s ∧ (r = .ok (.zero, 0) ∧ (∀ items, value ≠ .array items) ∨ ∃ e, r = .error e)) := by
  cases value with
  | array items =>
      simp only [encodeArrayWith] at run
      rcases EngineM.failing_bind_cases run with ⟨block, s₁, made, rest⟩ | ⟨e, failed, rfl⟩
      · rcases allocateArray_cases made with ⟨block', fits, made, same⟩ | ⟨-, e, impossible⟩
        · cases same
          left
          rcases EngineM.failing_bind_cases rest with ⟨u, s₂, filled, last⟩ | ⟨e, failed, rfl⟩
          · cases last
            exact ⟨items, block, s₁, _, rfl, fits, made, filled, rfl⟩
          · exact ⟨items, block, s₁, _, rfl, fits, made, failed, rfl⟩
        · cases impossible
      · rcases allocateArray_cases failed with ⟨block', -, -, impossible⟩ | ⟨same, -⟩
        · cases impossible
        · exact Or.inr ⟨same, Or.inr ⟨e, rfl⟩⟩
  | undefined | null =>
      right
      cases nullable with
      | true =>
          cases run
          exact ⟨rfl, Or.inl ⟨rfl, by simp⟩⟩
      | false =>
          cases run
          exact ⟨rfl, Or.inr ⟨_, rfl⟩⟩
  | _ =>
      right
      cases run
      exact ⟨rfl, Or.inr ⟨_, rfl⟩⟩

theorem encodeItems_cons_cases {encodeItem : Value → EncodeM Slot} {undo : Nat → EngineM Unit} {t : NativeType}
    {base : UInt64} {index : Nat} {item : Value} {rest : List Value} {r : Except (Failure MarshalError) Unit}
    (run : encodeItems encodeItem undo t base index (item :: rest) s = (r, s')) :
    (∃ slot s₁, encodeItem item s = (.ok slot, s₁) ∧
      encodeItems encodeItem undo t base (index + 1) rest
        { s₁ with memory := s₁.memory.store t (elementAddress base t index) slot } = (r, s')) ∨
    ∃ failure s₁, encodeItem item s = (.error failure, s₁) ∧
      ((∃ e, failure = .error e) ∧ s' = (undo index s₁).2 ∨ (∃ text, failure = .panic text) ∧ s' = s₁) ∧
      r = .error failure := by
  unfold encodeItems at run
  rcases EngineM.failing_bind_cases run with ⟨slot, s₁, converted, later⟩ | ⟨failure, failed, rfl⟩
  · exact Or.inl ⟨slot, s₁, EncodeM.onError_ok converted, later⟩
  · obtain ⟨s₁, refused, after⟩ := EncodeM.onError_error failed
    exact Or.inr ⟨failure, s₁, refused, after, rfl⟩

/-! ## Sizes that are too large -/

/-- An array in the value needs a block whose size is no machine word. -/
def Value.Overflows (value : Value) : Ty → Prop
  | .array element length => ∃ items, value = .array items ∧
      (0x10000000000000000 ≤ length.capacity items.length * element.native.size ∨ ∃ item ∈ items, item.Overflows element)
  | _ => False

theorem overflow_of_allocateArray {length : ArrayLength} {items size : Nat} {text : String}
    (run : allocateArray length items size s = (.error (.panic text), s')) :
    Failure.panic text = (.overflow : Failure MarshalError) ∧ items * size ≤ Memory.limit ∧
      0x10000000000000000 ≤ length.capacity items * size := by
  unfold allocateArray at run
  by_cases fits : items * size ≤ Memory.limit
  · simp only [fits, if_true] at run
    cases sized : byteSize? (length.capacity items) size with
    | some bytes =>
        rw [sized] at run
        exact absurd run (calm_allocateBlock bytes s text s')
    | none =>
        rw [sized] at run
        cases run
        exact ⟨rfl, fits, byteSize?_eq_none.mp sized⟩
  · simp only [fits, if_false] at run
    cases run

theorem overflow_of_encodeItems {encodeItem : Value → EncodeM Slot} {undo : Nat → EngineM Unit} {t : NativeType}
    {base : UInt64} {text : String} (items : List Value) (index : Nat)
    (run : encodeItems encodeItem undo t base index items s = (.error (.panic text), s')) :
    ∃ item ∈ items, ∃ s₁ s₂, encodeItem item s₁ = (.error (.panic text), s₂) := by
  induction items generalizing index s with
  | nil => cases run
  | cons item rest ih =>
      rcases encodeItems_cons_cases run with ⟨slot, s₁, -, later⟩ | ⟨failure, s₁, failed, -, same⟩
      · obtain ⟨x, listed, fails⟩ := ih (index + 1) later
        exact ⟨x, List.mem_cons_of_mem item listed, fails⟩
      · cases same
        exact ⟨item, List.mem_cons_self, s, s₁, failed⟩

/-- An array panics at its own block or at an item. -/
theorem overflow_of_encodeArrayWith {encodeItem : Value → EncodeM Slot} {value : Value} {element : Ty}
    {length : ArrayLength} {nullable : Bool} {text : String}
    (run : encodeArrayWith encodeItem value element length nullable s = (.error (.panic text), s')) :
    ∃ items, value = .array items ∧
      ((∃ s₁, allocateArray length items.length element.native.size s = (.error (.panic text), s₁)) ∨
        ∃ item ∈ items, ∃ s₁ s₂, encodeItem item s₁ = (.error (.panic text), s₂)) := by
  cases value with
  | array items =>
      refine ⟨items, rfl, ?_⟩
      rcases EngineM.failing_bind_cases run with ⟨block, s₁, -, rest⟩ | ⟨failure, failed, same⟩
      · rcases EngineM.failing_bind_cases rest with ⟨u, s₂, -, last⟩ | ⟨failure, failed, same⟩
        · cases last
        · cases same
          exact Or.inr (overflow_of_encodeItems items 0 failed)
      · cases same
        exact Or.inl ⟨_, failed⟩
  | undefined | null => cases nullable <;> cases run
  | _ => cases run

theorem Value.overflows_of_encodeArrayWith {encodeItem : Value → EncodeM Slot} {value : Value} {element : Ty}
    {length : ArrayLength} {nullable : Bool} {text : String}
    (each : ∀ item s s', encodeItem item s = (.error (.panic text), s') →
      Failure.panic text = (.overflow : Failure MarshalError) ∧ item.Overflows element)
    (run : encodeArrayWith encodeItem value element length nullable s = (.error (.panic text), s')) :
    Failure.panic text = (.overflow : Failure MarshalError) ∧ value.Overflows (.array element length) := by
  obtain ⟨items, array, ⟨s₁, failed⟩ | ⟨item, listed, s₁, s₂, fails⟩⟩ := overflow_of_encodeArrayWith run
  · obtain ⟨text, -, large⟩ := overflow_of_allocateArray failed
    exact ⟨text, items, array, Or.inl large⟩
  · obtain ⟨text, within⟩ := each item s₁ s₂ fails
    exact ⟨text, items, array, Or.inr ⟨item, listed, within⟩⟩

/-- A conversion panics only where the size of an array is no machine word. -/
theorem overflow_of_encode (type : Ty) {value : Value} {nullable : Bool} {text : String} {s s' : Engine}
    (run : encode value type nullable s = (.error (.panic text), s')) :
    Failure.panic text = (.overflow : Failure MarshalError) ∧ value.Overflows type := by
  cases shape : type with
  | array element length =>
      rw [shape, encode] at run
      rcases EngineM.failing_bind_cases run with ⟨made, s₁, -, last⟩ | ⟨failure, failed, same⟩
      · cases last
      · cases same
        exact Value.overflows_of_encodeArrayWith (fun _ _ _ each => overflow_of_encode element each) failed
  | _ => exact absurd run (calm_encode_flat (by simp [shape]) s text s')
termination_by type
decreasing_by simp only [shape, Ty.array.sizeOf_spec]; omega

theorem overflow_of_encodeArray {value : Value} {element : Ty} {length : ArrayLength} {nullable : Bool} {text : String}
    (run : encodeArray value element length nullable s = (.error (.panic text), s')) :
    Failure.panic text = (.overflow : Failure MarshalError) ∧ value.Overflows (.array element length) :=
  Value.overflows_of_encodeArrayWith (fun _ _ _ each => overflow_of_encode element each) run

theorem overflow_of_toNative {value : Value} {type : Ty} {nullable : Bool} {text : String}
    (run : toNative value type nullable s = (.error (.panic text), s')) :
    Failure.panic text = (.overflow : Failure MarshalError) ∧ value.Overflows type := by
  obtain ⟨s₁, failed, -⟩ := EncodeM.onError_error run
  exact overflow_of_encode type failed

/-! ## Moving memory forward -/

theorem allocate_evolves {size : Nat} {a : UInt64} (made : EngineM.allocate size s = (some a, s')) :
    s.memory.Evolves [] s'.memory ∧ a.toNat = s.memory.frontier := by
  obtain ⟨memory, allocated, rfl⟩ := EngineM.allocate_some made
  exact ⟨Memory.allocateEngine?_evolves allocated, (Memory.allocateEngine?_some allocated).1⟩

/-- The new block is full of zeros. -/
theorem allocate_block {size : Nat} {a : UInt64} (made : EngineM.allocate size s = (some a, s')) :
    ∃ b ∈ s'.memory.blocks, b.address = a ∧ b.base = s.memory.frontier ∧ b.size = max size 1 ∧ b.stored = #[] := by
  obtain ⟨memory, allocated, rfl⟩ := EngineM.allocate_some made
  exact Memory.allocateEngine?_block allocated

theorem encodeText_evolves {text : String} {slot : Slot} (run : encodeText text s = (.ok slot, s')) :
    s.memory.Evolves [] s'.memory := by
  rcases encodeText_cases run with ⟨block, s₁, made, -, rfl⟩ | ⟨-, e, impossible⟩
  · obtain ⟨forward, base⟩ := allocate_evolves made
    exact forward.write_behind (Nat.le_of_eq base.symm) _
  · cases impossible

/-- The address of an element, where the array lies in memory. -/
theorem toNat_elementAddress {base : UInt64} {t : NativeType} {i : Nat} (low : base.toNat < 2 ^ 63)
    (small : i * t.size ≤ Memory.limit) : (elementAddress base t i).toNat = base.toNat + i * t.size := by
  simp only [Memory.limit] at small
  simp only [elementAddress, UInt64.toNat_add, UInt64.toNat_ofNat']
  omega

theorem encodeItems_evolves {encodeItem : Value → EncodeM Slot} {undo : Nat → EngineM Unit} {t : NativeType}
    {base : UInt64} {m : Memory}
    (each : ∀ item slot s s', encodeItem item s = (.ok slot, s') → s.memory.Evolves [] s'.memory)
    (low : base.toNat < 2 ^ 63) (new : m.frontier ≤ base.toNat) (items : List Value) (index : Nat)
    (small : (index + items.length) * t.size ≤ Memory.limit) (start : m.Evolves [] s.memory)
    (run : encodeItems encodeItem undo t base index items s = (.ok (), s')) : m.Evolves [] s'.memory := by
  induction items generalizing index s with
  | nil =>
      cases run
      exact start
  | cons item rest ih =>
      rcases encodeItems_cons_cases run with ⟨slot, s₁, converted, later⟩ | ⟨e, s₁, -, -, impossible⟩
      · have here : index * t.size ≤ Memory.limit := by
          refine Nat.le_trans (Nat.mul_le_mul_right t.size ?_) small
          exact Nat.le_add_right index _
        refine ih (index + 1) ?_ ?_ later
        · refine Nat.le_trans (Nat.mul_le_mul_right t.size ?_) small
          simp only [List.length_cons]
          omega
        · refine (start.trans (each item slot s s₁ converted)).write_behind ?_ _
          rw [toNat_elementAddress low here]
          omega
      · cases impossible

theorem encodeArrayWith_evolves {encodeItem : Value → EncodeM Slot} {value : Value} {element : Ty}
    {length : ArrayLength} {nullable : Bool} {made : Slot × Nat}
    (each : ∀ item slot s s', encodeItem item s = (.ok slot, s') → s.memory.Evolves [] s'.memory)
    (run : encodeArrayWith encodeItem value element length nullable s = (.ok made, s')) :
    s.memory.Evolves [] s'.memory := by
  rcases encodeArrayWith_cases run with ⟨items, block, s₁, filled, -, fits, allocated, items_run, result⟩ | ⟨same, -⟩
  · cases filled with
    | error e => cases result
    | ok u =>
        obtain ⟨forward, base⟩ := allocate_evolves allocated
        have low := s.memory.frontier_lt
        refine encodeItems_evolves each (by omega) (by omega) items 0 ?_ forward items_run
        rw [Nat.zero_add]
        exact fits
  · rw [same]
    exact .refl [] _

theorem encode_evolves (type : Ty) {value : Value} {nullable : Bool} {slot : Slot} {s s' : Engine}
    (run : encode value type nullable s = (.ok slot, s')) : s.memory.Evolves [] s'.memory := by
  cases shape : type with
  | array element length =>
      rw [shape, encode] at run
      obtain ⟨made, s₁, run, last⟩ := EngineM.failing_bind_ok run
      cases last
      exact encodeArrayWith_evolves (fun item slot s s' each => encode_evolves element each) run
  | _ =>
      rcases encode_flat_cases (by simp [shape]) run with ⟨text, -, made⟩ | ⟨same, -⟩
      · exact encodeText_evolves made
      · rw [same]
        exact .refl [] _
termination_by type
decreasing_by simp [shape]; omega

theorem encodeArray_evolves {value : Value} {element : Ty} {length : ArrayLength} {nullable : Bool}
    {made : Slot × Nat} (run : encodeArray value element length nullable s = (.ok made, s')) :
    s.memory.Evolves [] s'.memory :=
  encodeArrayWith_evolves (fun _ _ _ _ each => encode_evolves element each) run

theorem toNative_ok {value : Value} {type : Ty} {nullable : Bool} {slot : Slot}
    (run : toNative value type nullable s = (.ok slot, s')) : encode value type nullable s = (.ok slot, s') :=
  EncodeM.onError_ok run

theorem toNative_evolves {value : Value} {type : Ty} {nullable : Bool} {slot : Slot}
    (run : toNative value type nullable s = (.ok slot, s')) : s.memory.Evolves [] s'.memory :=
  encode_evolves type (toNative_ok run)

/-! ## Reading without taking anything over -/

mutual

/-- The blocks that a value owns, in the structures that it holds. -/
def Value.owned : Value → List UInt64
  | .array items => Value.ownedAll items
  | .boxed b => if b.owned then [b.address] else []
  | _ => []

def Value.ownedAll : List Value → List UInt64
  | [] => []
  | v :: rest => v.owned ++ Value.ownedAll rest

end

/-- The value owns nothing, and dropping it does nothing. -/
structure Value.Idle (v : Value) : Prop where
  release : ∀ s, v.release s = ((), s)
  owned : v.owned = []

theorem releaseAll_cons (v : Value) (rest : List Value) (s : Engine) :
    Value.releaseAll (v :: rest) s = Value.releaseAll rest (v.release s).2 := by
  simp only [Value.releaseAll]
  rfl

theorem releaseAll_idle {values : List Value} (idle : ∀ v ∈ values, v.Idle) (s : Engine) :
    Value.releaseAll values s = ((), s) := by
  induction values with
  | nil => rfl
  | cons v rest ih =>
      have first := (idle v List.mem_cons_self).release s
      rw [releaseAll_cons, first]
      exact ih fun w hw => idle w (List.mem_cons_of_mem v hw)

theorem ownedAll_idle {values : List Value} (idle : ∀ v ∈ values, v.Idle) : Value.ownedAll values = [] := by
  induction values with
  | nil => rfl
  | cons v rest ih =>
      rw [Value.ownedAll, (idle v List.mem_cons_self).owned, ih fun w hw => idle w (List.mem_cons_of_mem v hw)]
      rfl

theorem idle_array {items : List Value} (idle : ∀ v ∈ items, v.Idle) : (Value.array items).Idle where
  release s := by
    simp only [Value.release]
    exact releaseAll_idle idle s
  owned := by
    rw [Value.owned]
    exact ownedAll_idle idle

theorem decodeScalar?_idle {type : Ty} {slot : Slot} {v : Value} (found : decodeScalar? type slot = some v) :
    v.Idle := by
  have integer : ∀ u, (Value.ofUInt64 u).Idle := fun u => by
    unfold Value.ofUInt64
    split <;> exact ⟨fun _ => rfl, rfl⟩
  unfold decodeScalar? at found
  split at found
  case h_3 =>
    cases found
    exact integer _
  case h_6 =>
    split at found
    · cases found
      exact ⟨fun _ => rfl, rfl⟩
    · split at found
      · cases found
        exact ⟨fun _ => rfl, rfl⟩
      · cases found
  all_goals
    cases found
    exact ⟨fun _ => rfl, rfl⟩

/-- An action that reads: the engine stays as it was, and the value that it yields owns nothing. -/
def Reads (act : MarshalM Value) : Prop :=
  ∀ s, (act s).2 = s ∧ ∀ v, (act s).1 = .ok v → v.Idle

theorem decodeItems_succ_cases {decodeItem : Slot → MarshalM Value} {t : NativeType} {base : UInt64}
    {index count : Nat} {found : List Value} {r : Except MarshalError (List Value)}
    (run : decodeItems decodeItem t base index (count + 1) found s = (r, s')) :
    (∃ item s₁, decodeItem (s.memory.load t (elementAddress base t index)) s = (.ok item, s₁) ∧
      decodeItems decodeItem t base (index + 1) count (item :: found) s₁ = (r, s')) ∨
    ∃ e s₁, decodeItem (s.memory.load t (elementAddress base t index)) s = (.error e, s₁) ∧
      s' = (Value.releaseAll found.reverse s₁).2 ∧ r = .error e := by
  unfold decodeItems at run
  have loaded : (tryCatch (decodeItem (s.memory.load t (elementAddress base t index)))
      (fun e => do Value.releaseAll found.reverse; throw e) >>= fun item =>
        decodeItems decodeItem t base (index + 1) count (item :: found) : MarshalM (List Value)) s = (r, s') :=
    run
  rcases EngineM.failing_bind_cases loaded with ⟨item, s₁, converted, later⟩ | ⟨e, failed, rfl⟩
  · exact Or.inl ⟨item, s₁, EngineM.tryCatch_ok converted, later⟩
  · obtain ⟨s₁, refused, rfl⟩ := EngineM.tryCatch_error failed
    exact Or.inr ⟨e, s₁, refused, rfl, rfl⟩

/-- An array is read element by element, unless it is null or nothing says how long it is. -/
theorem decodeArrayWith_cases {decodeItem : Slot → MarshalM Value} {element : Ty} {length : ArrayLength} {slot : Slot}
    {known : Option Nat} {r : Except MarshalError Value}
    (run : decodeArrayWith decodeItem element length slot known s = (r, s')) :
    (∃ count decoded, slot.isNull = false ∧
      s.memory.arrayLength? element length slot.address known = some count ∧
      decodeItems decodeItem element.native slot.address 0 count [] s = (decoded, s') ∧
      r = decoded.map .array) ∨
    (s' = s ∧ (r = .ok (if known = some 0 then .array [] else .null) ∨ ∃ e, r = .error e)) := by
  unfold decodeArrayWith at run
  by_cases null : slot.isNull = true
  · rw [if_pos null] at run
    cases run
    exact Or.inr ⟨rfl, Or.inl rfl⟩
  · rw [if_neg null, EngineM.failing_get] at run
    cases found : s.memory.arrayLength? element length slot.address known with
    | none =>
        rw [found] at run
        cases run
        exact Or.inr ⟨rfl, Or.inr ⟨_, rfl⟩⟩
    | some count =>
        rw [found] at run
        left
        rcases EngineM.failing_bind_cases run with ⟨items, s₁, converted, last⟩ | ⟨e, failed, rfl⟩
        · cases last
          exact ⟨count, _, by simpa using null, rfl, converted, rfl⟩
        · exact ⟨count, _, by simpa using null, rfl, failed, rfl⟩

theorem decodeItems_reads {decodeItem : Slot → MarshalM Value} (each : ∀ slot, Reads (decodeItem slot))
    (t : NativeType) (base : UInt64) (index count : Nat) {found : List Value} (idle : ∀ v ∈ found, v.Idle)
    (s : Engine) :
    (decodeItems decodeItem t base index count found s).2 = s ∧
      ∀ items, (decodeItems decodeItem t base index count found s).1 = .ok items → ∀ v ∈ items, v.Idle := by
  induction count generalizing index found with
  | zero =>
      refine ⟨rfl, fun items same v hv => ?_⟩
      cases same
      exact idle v (List.mem_reverse.mp hv)
  | succ count ih =>
      rcases result : decodeItems decodeItem t base index (count + 1) found s with ⟨r, s'⟩
      obtain ⟨same, idleItem⟩ := each (s.memory.load t (elementAddress base t index)) s
      rcases decodeItems_succ_cases result with ⟨item, s₁, converted, later⟩ | ⟨e, s₁, refused, rfl, rfl⟩
      · rw [converted] at same idleItem
        cases same
        have idle' : ∀ v ∈ item :: found, v.Idle := by
          intro v hv
          rcases List.mem_cons.mp hv with rfl | hv
          · exact idleItem v rfl
          · exact idle v hv
        have rest := ih (index + 1) idle'
        rw [later] at rest
        exact rest
      · rw [refused] at same
        cases same
        refine ⟨?_, by simp⟩
        rw [releaseAll_idle fun v hv => idle v (List.mem_reverse.mp hv)]

theorem decodeArrayWith_reads {decodeItem : Slot → MarshalM Value} (each : ∀ slot, Reads (decodeItem slot))
    (element : Ty) (length : ArrayLength) (slot : Slot) (known : Option Nat) :
    Reads (decodeArrayWith decodeItem element length slot known) := by
  intro s
  rcases result : decodeArrayWith decodeItem element length slot known s with ⟨r, s'⟩
  rcases decodeArrayWith_cases result with ⟨count, decoded, -, -, items_run, rfl⟩ | ⟨rfl, rfl | ⟨e, rfl⟩⟩
  · have none_found : ∀ v ∈ ([] : List Value), v.Idle := by simp
    have reads := decodeItems_reads each element.native slot.address 0 count none_found s
    rw [items_run] at reads
    refine ⟨reads.1, fun v same => ?_⟩
    cases decoded with
    | error e => cases same
    | ok items =>
        cases same
        exact idle_array (reads.2 items rfl)
  · refine ⟨rfl, fun v same => ?_⟩
    cases same
    split
    · exact idle_array (by simp)
    · exact ⟨fun _ => rfl, rfl⟩
  · exact ⟨rfl, by simp⟩

/-- A conversion that hands nothing over reads. -/
theorem fromNative_reads (type : Ty) (slot : Slot) : Reads (fromNative type slot .nothing) := by
  cases shape : type with
  | array element length =>
      rw [fromNative]
      exact decodeArrayWith_reads (fun s => fromNative_reads element s) element length slot none
  | _ =>
      intro s
      simp only [fromNative]
      cases found : decodeScalar? _ slot with
      | some v =>
          refine ⟨rfl, fun w same => ?_⟩
          cases same
          exact decodeScalar?_idle found
      | none =>
          refine ⟨rfl, fun w same => ?_⟩
          cases same
          exact ⟨fun _ => rfl, rfl⟩
termination_by type
decreasing_by simp; omega

theorem arrayFromNative_reads (element : Ty) (length : ArrayLength) (slot : Slot) (known : Option Nat) :
    Reads (arrayFromNative element length slot known .nothing) :=
  decodeArrayWith_reads (fun s => fromNative_reads element s) element length slot known

theorem decodeLength_reads (slot : Slot) (type : Ty) (s : Engine) : (decodeLength slot type s).2 = s := by
  rcases result : decodeLength slot type s with ⟨r, s'⟩
  have reads := (fromNative_reads type slot s).1
  unfold decodeLength at result
  rcases EngineM.failing_bind_cases result with ⟨v, s₁, converted, last⟩ | ⟨e, failed, -⟩
  · rw [converted] at reads
    have reads : s₁ = s := reads
    subst reads
    cases found : v.integer? with
    | none =>
        rw [found] at last
        cases last
        rfl
    | some i =>
        rw [found] at last
        by_cases positive : 0 ≤ i
        · simp only [positive, if_true] at last
          cases last
          rfl
        · simp only [positive, if_false] at last
          cases last
          rfl
  · rw [failed] at reads
    exact reads

/-! ## Reading what is handed over -/

theorem copyStructure_evolves {layout : Layout} {a : UInt64} {boxed : Boxed}
    (run : copyStructure layout a s = (.ok boxed, s')) : s.memory.Evolves [] s'.memory := by
  unfold copyStructure at run
  rw [EngineM.failing_lift] at run
  rcases made : EngineM.allocate layout.size s with ⟨result, s₁⟩
  rw [made] at run
  cases result with
  | none => cases run
  | some block =>
      obtain ⟨forward, base⟩ := allocate_evolves made
      cases run
      exact forward.write_behind (Nat.le_of_eq base.symm) _

theorem decodeItems_evolves {decodeItem : Slot → MarshalM Value} {t : NativeType} {base : UInt64}
    (each : ∀ slot v s s', decodeItem slot s = (.ok v, s') → s.memory.Evolves [] s'.memory) (index count : Nat)
    {found items : List Value} (run : decodeItems decodeItem t base index count found s = (.ok items, s')) :
    s.memory.Evolves [] s'.memory := by
  induction count generalizing index found s with
  | zero =>
      cases run
      exact .refl [] _
  | succ count ih =>
      rcases decodeItems_succ_cases run with ⟨item, s₁, converted, later⟩ | ⟨e, s₁, -, -, impossible⟩
      · exact (each _ item s s₁ converted).trans (ih (index + 1) later)
      · cases impossible

theorem decodeArrayWith_evolves {decodeItem : Slot → MarshalM Value} {element : Ty} {length : ArrayLength}
    {slot : Slot} {known : Option Nat} {v : Value}
    (each : ∀ slot v s s', decodeItem slot s = (.ok v, s') → s.memory.Evolves [] s'.memory)
    (run : decodeArrayWith decodeItem element length slot known s = (.ok v, s')) :
    s.memory.Evolves [] s'.memory := by
  rcases decodeArrayWith_cases run with ⟨count, decoded, -, -, items_run, result⟩ | ⟨rfl, -⟩
  · cases decoded with
    | error e => cases result
    | ok items => exact decodeItems_evolves each 0 count items_run
  · exact .refl [] _

theorem fromNative_evolves (type : Ty) {slot : Slot} {transfer : Transfer} {v : Value} {s s' : Engine}
    (run : fromNative type slot transfer s = (.ok v, s')) : s.memory.Evolves [] s'.memory := by
  cases shape : type with
  | array element length =>
      rw [shape, fromNative] at run
      exact decodeArrayWith_evolves (fun slot v s s' each => fromNative_evolves element each) run
  | struct layout =>
      simp only [shape, fromNative] at run
      cases found : decodeScalar? (.struct layout) slot with
      | some w =>
          rw [found] at run
          cases run
          exact .refl [] _
      | none =>
          rw [found] at run
          simp only at run
          split at run
          · obtain ⟨boxed, s₁, copied, last⟩ := EngineM.failing_bind_ok run
            cases last
            exact copyStructure_evolves copied
          · cases run
            exact .refl [] _
  | _ =>
      simp only [shape, fromNative] at run
      cases found : decodeScalar? _ slot <;>
      · rw [found] at run
        cases run
        exact .refl [] _
termination_by type
decreasing_by simp [shape]; omega

theorem arrayFromNative_evolves {element : Ty} {length : ArrayLength} {slot : Slot} {known : Option Nat}
    {transfer : Transfer} {v : Value}
    (run : arrayFromNative element length slot known transfer s = (.ok v, s')) :
    s.memory.Evolves [] s'.memory :=
  decodeArrayWith_evolves (fun _ _ _ _ each => fromNative_evolves element each) run

end Ferry
