import Ferry.Proofs.Marshal.Admission
import Ferry.Proofs.Marshal.Making

/-!
# What a conversion asks for

A conversion to a native value asks for one thing after the other: a block for each text and each array in the value, and
where an item does not convert, for nothing but the failure. `Value.demands` lists these demands depth first, without any
native work. A conversion goes through the list (`encode_follows`): it makes the blocks that are asked for, in order, up to
the first demand that is not met, and fails with the error of that one. A value that passes `canConvert` has no faults among
its demands (`sound_of_canConvert`), so with room in memory it converts: `toNative_iff_canConvert`.
-/

set_option autoImplicit false

namespace Ferry

/-! ## Demands -/

/-- One thing that a conversion asks for. -/
inductive Demand where
  | text (bytes : Nat)
  | elements (items count size : Nat)
  | fault (e : MarshalError)

namespace Demand

/-- The size of the block that is asked for, if it is a machine word. -/
def size? : Demand → Option Nat
  | text bytes => some bytes
  | elements _ count size => byteSize? count size
  | fault _ => none

/-- How a conversion fails for which the demand is not met. -/
def failure : Demand → Failure MarshalError
  | text bytes => .error (.allocationFailed bytes)
  | elements items count size =>
    if items * size ≤ Memory.limit ∧ byteSize? count size = none then .overflow
    else .error (.allocationFailed (count * size))
  | fault e => .error e

def span : Demand → Nat
  | text bytes => Memory.span bytes
  | elements _ count size => Memory.span (count * size)
  | fault _ => 0

def isFault : Demand → Bool
  | fault _ => true
  | _ => false

end Demand

def spans (demands : List Demand) : Nat := (demands.map Demand.span).sum

@[simp] theorem spans_append (first later : List Demand) : spans (first ++ later) = spans first + spans later := by
  simp [spans]

@[simp] theorem spans_cons (d : Demand) (rest : List Demand) : spans (d :: rest) = d.span + spans rest := by
  simp [spans]

/-- Why a single value that is not null does not convert, if it does not. -/
def Value.scalarFault? (value : Value) (type : Ty) : Option MarshalError :=
  match type, value with
  | .void, _ | .boolean, .boolean _ | .pointer, .pointer _ | .pointer, .boxed _ => none
  | .float, .number _ | .float, .int _ | .float, .uint _ | .double, .number _ | .double, .int _ | .double, .uint _ => none
  | .utf8, .string s => if s.toList.contains '\x00' then some .interiorZero else none
  | .struct layout, .boxed b => if b.layout = layout then none else some (mismatch type value)
  | .callback _, _ | .destroyNotify, _ => some (.unsupported type)
  | .boolean, _ | .pointer, _ | .float, _ | .double, _ | .utf8, _ | .struct _, _ | .array _ _, _ =>
    some (mismatch type value)
  | type, value =>
    match value.integer? with
    | some v => if type.native.holds v then none else some (.outOfRange v type)
    | none => some (mismatch type value)

/-- Why a single value does not convert, if it does not. -/
def Value.fault? (value : Value) (type : Ty) (nullable : Bool) : Option MarshalError :=
  if value.isNullish && !type.isVoid then
    if type.isPointerLike then if nullable then none else some (.unexpectedNull type)
    else some (mismatch type value)
  else value.scalarFault? type

def Value.singleDemands (value : Value) (type : Ty) (nullable : Bool) : List Demand :=
  match value.fault? type nullable, type, value with
  | some e, _, _ => [.fault e]
  | none, .utf8, .string s => [.text ((Utf8.write s).length + 1)]
  | none, _, _ => []

/-- What a value asks for as a value of a type: the block of an array comes first, then what its items ask for. -/
def Value.demands (value : Value) : Ty → (nullable : Bool) → List Demand
  | .array element length, nullable =>
    match value with
    | .array items =>
      .elements items.length (length.capacity items.length) element.native.size :: items.flatMap fun item => item.demands element false
    | value =>
      if value.isNullish then if nullable then [] else [.fault (.unexpectedNull (.array element length))]
      else [.fault (mismatch (.array element length) value)]
  | type, nullable => value.singleDemands type nullable

variable {s s' s'' : Engine} {value : Value} {type element : Ty} {length : ArrayLength} {nullable : Bool}

theorem demands_flat (flat : type.IsFlat) (value : Value) (nullable : Bool) :
    value.demands type nullable = value.singleDemands type nullable := by
  cases type with
  | array element length => exact absurd rfl (flat element length)
  | _ => rfl

/-! ## Going through a list -/

def Event.size? : Event → Option Nat
  | allocated _ _ size => some size
  | _ => none

/-- The sizes of the blocks that were made, first to last. -/
def allocated (t : List Event) : List Nat := (t.filterMap (·.size?)).reverse

theorem allocated_append (t t' : List Event) : allocated (t' ++ t) = allocated t ++ allocated t' := by
  simp [allocated]

theorem allocated_of_gains {t : List Event} (nothing : gains t = []) : allocated t = [] := by
  have each : ∀ e ∈ t, e.size? = none := by
    intro e he
    have other := List.filterMap_eq_nil_iff.mp nothing e he
    cases e with
    | allocated base label size => cases other
    | _ => rfl
  simp [allocated, List.filterMap_eq_nil_iff.mpr each]

/-- Between the two states the demands were met: the blocks that they ask for were made in their order. -/
def Engine.Meets (s : Engine) (met : List Demand) (s' : Engine) : Prop :=
  ∃ t, s'.events = t ++ s.events ∧ met.map (·.size?) = (allocated t).map some

/-- A conversion that asks for the demands ended like this. If it failed, there is a first demand that was not met, for a
fault in the value or for want of room. -/
def Engine.Follows {α : Type} (s : Engine) (demands : List Demand) (r : Except (Failure MarshalError) α) (s' : Engine) : Prop :=
  match r with
  | .ok _ => s.Meets demands s' ∧ s'.memory.frontier ≤ s.memory.frontier + spans demands
  | .error e => ∃ met d rest, demands = met ++ d :: rest ∧ s.Meets met s' ∧ e = d.failure ∧
      (d.isFault = false → Memory.limit < s.memory.frontier + spans met + d.span)

namespace Engine.Follows

variable {α β : Type} {demands later : List Demand}

theorem refl (s : Engine) (a : α) : s.Follows [] (.ok a) s :=
  ⟨⟨[], rfl, rfl⟩, Nat.le_add_right _ _⟩

theorem fault (s : Engine) (e : MarshalError) (rest : List Demand) :
    s.Follows (.fault e :: rest) (.error (.error e) : Except (Failure MarshalError) α) s :=
  ⟨[], .fault e, rest, rfl, ⟨[], rfl, rfl⟩, rfl, by simp [Demand.isFault]⟩

theorem map (h : s.Follows demands (.ok ()) s') (a : α) : s.Follows demands (.ok a) s' := h

theorem stop {e : Failure MarshalError} (h : s.Follows demands (.error e : Except (Failure MarshalError) α) s')
    (later : List Demand) : s.Follows (demands ++ later) (.error e : Except (Failure MarshalError) β) s' := by
  obtain ⟨met, d, rest, rfl, meets, error, full⟩ := h
  exact ⟨met, d, rest ++ later, by simp, meets, error, full⟩

theorem next {a : α} {r : Except (Failure MarshalError) β} (first : s.Follows demands (.ok a) s')
    (second : s'.Follows later r s'') : s.Follows (demands ++ later) r s'' := by
  obtain ⟨⟨t, events, sizes⟩, room⟩ := first
  have joined : ∀ {met : List Demand}, s'.Meets met s'' → s.Meets (demands ++ met) s'' := by
    rintro met ⟨t', events', sizes'⟩
    refine ⟨t' ++ t, by rw [events', events, List.append_assoc], ?_⟩
    rw [allocated_append, List.map_append, List.map_append, sizes, sizes']
  cases r with
  | ok b =>
      obtain ⟨meets, room'⟩ := second
      refine ⟨joined meets, ?_⟩
      rw [spans_append]
      omega
  | error e =>
      obtain ⟨met, d, rest, rfl, meets, error, full⟩ := second
      refine ⟨demands ++ met, d, rest, by simp, joined meets, error, fun asked => ?_⟩
      have := full asked
      rw [spans_append]
      omega

theorem quiet {r : Except (Failure MarshalError) α} (h : s.Follows demands r s') {t : List Event}
    (events : s''.events = t ++ s'.events) (none_made : gains t = [])
    (frontier : r.isOk = true → s''.memory.frontier ≤ s'.memory.frontier) : s.Follows demands r s'' := by
  have longer : ∀ {met : List Demand}, s.Meets met s' → s.Meets met s'' := by
    rintro met ⟨t', events', sizes⟩
    refine ⟨t ++ t', by rw [events, events', List.append_assoc], ?_⟩
    rw [allocated_append, allocated_of_gains none_made, List.append_nil, sizes]
  cases r with
  | ok a => exact ⟨longer h.1, Nat.le_trans (frontier rfl) h.2⟩
  | error e =>
      obtain ⟨met, d, rest, same, meets, error, full⟩ := h
      exact ⟨met, d, rest, same, longer meets, error, full⟩

theorem ok_of_room {r : Except (Failure MarshalError) α} (h : s.Follows demands r s')
    (sound : ∀ d ∈ demands, d.isFault = false) (room : s.memory.frontier + spans demands ≤ Memory.limit) :
    ∃ a, r = .ok a := by
  cases r with
  | ok a => exact ⟨a, rfl⟩
  | error e =>
      obtain ⟨met, d, rest, rfl, -, -, full⟩ := h
      have short := full (sound d (by simp))
      simp only [spans_append, spans_cons] at room
      omega

theorem error_of_sound {e : MarshalError} (h : s.Follows demands (.error (.error e) : Except (Failure MarshalError) α) s')
    (sound : ∀ d ∈ demands, d.isFault = false) : ∃ size, e = .allocationFailed size := by
  obtain ⟨met, d, rest, rfl, -, same, -⟩ := h
  have asked := sound d (by simp)
  cases d with
  | text bytes =>
      cases same
      exact ⟨bytes, rfl⟩
  | elements items count size =>
      rw [Demand.failure] at same
      split at same <;> cases same
      exact ⟨_, rfl⟩
  | fault e => cases asked

end Engine.Follows

/-! ## Blocks -/

theorem Memory.le_span (n : Nat) : max n 1 ≤ Memory.span n := by
  unfold Memory.span Memory.granule
  omega

theorem Memory.frontier_allocate? {m m' : Memory} {label : Label} {size : Nat} {a : UInt64}
    (made : m.allocate? label size = some (a, m')) : m'.frontier = m.frontier + span size := by
  simp only [allocate?] at made
  split at made
  · cases made
    rfl
  · cases made

theorem allocate_some_spans {size : Nat} {a : UInt64} (made : EngineM.allocate size s = (some a, s')) :
    (∃ label, s'.events = [.allocated a label size] ++ s.events) ∧
      s'.memory.frontier = s.memory.frontier + Memory.span size := by
  obtain ⟨memory, allocated, rfl⟩ := EngineM.allocate_some made
  obtain ⟨⟨b, grown⟩, found, same⟩ := Option.map_eq_some_iff.mp allocated
  cases same
  have frontier := Memory.frontier_allocate? found
  exact ⟨⟨_, rfl⟩, frontier⟩

theorem allocate_none_full {size : Nat} (full : EngineM.allocate size s = (none, s')) :
    Memory.limit < s.memory.frontier + Memory.span size := by
  by_contra room
  obtain ⟨a, s₁, made, -⟩ := allocate_of_room (Nat.le_of_not_lt room)
  rw [full] at made
  cases made

theorem allocateBlock_follows {size : Nat} {d : Demand} {r : Except (Failure MarshalError) UInt64} (asked : d.size? = some size)
    (whole : d.span = Memory.span size) (failure : d.failure = .error (.allocationFailed size))
    (run : allocateBlock size s = (r, s')) : s.Follows [d] r s' := by
  rcases allocateBlock_cases run with ⟨a, made, rfl⟩ | ⟨full, rfl⟩
  · obtain ⟨⟨label, events⟩, frontier⟩ := allocate_some_spans made
    refine ⟨⟨_, events, ?_⟩, ?_⟩
    · rw [List.map_singleton, asked]
      rfl
    · simp only [spans, List.map_singleton, List.sum_singleton]
      omega
  · have short := allocate_none_full full
    cases EngineM.allocate_none full
    exact ⟨[], d, [], rfl, ⟨[], rfl, rfl⟩, failure.symm, fun _ => by simp [spans]; omega⟩

theorem encodeText_follows {text : String} {r : Except (Failure MarshalError) Slot} (clean : text.toList.contains '\x00' = false)
    (run : encodeText text s = (r, s')) : s.Follows [.text ((Utf8.write text).length + 1)] r s' := by
  simp only [encodeText, clean, Bool.false_eq_true, if_false] at run
  rcases EngineM.failing_bind_cases run with ⟨block, s₁, made, rest⟩ | ⟨e, failed, rfl⟩
  · cases rest
    have follows : s.Follows [.text ((Utf8.write text).length + 1)]
        (.ok (.ofAddress block) : Except (Failure MarshalError) Slot) s₁ :=
      allocateBlock_follows rfl rfl rfl made
    exact follows.quiet (t := []) rfl rfl fun _ => Nat.le_of_eq (Memory.frontier_write _ _ _)
  · have follows : s.Follows [.text ((Utf8.write text).length + 1)] (.error e : Except (Failure MarshalError) UInt64) s' :=
      allocateBlock_follows rfl rfl rfl failed
    exact follows

theorem allocateArray_follows {items size : Nat} {r : Except (Failure MarshalError) UInt64}
    (run : allocateArray length items size s = (r, s')) :
    s.Follows [.elements items (length.capacity items) size] r s' := by
  unfold allocateArray at run
  have span := Memory.le_span (length.capacity items * size)
  by_cases fits : items * size ≤ Memory.limit
  · simp only [fits, if_true] at run
    cases sized : byteSize? (length.capacity items) size with
    | some bytes =>
        obtain ⟨-, rfl⟩ := byteSize?_eq_some.mp sized
        rw [sized] at run
        exact allocateBlock_follows sized rfl (by simp [Demand.failure, sized]) run
    | none =>
        rw [sized] at run
        cases run
        refine ⟨[], _, [], rfl, ⟨[], rfl, rfl⟩, by rw [Demand.failure, if_pos ⟨fits, sized⟩], fun _ => ?_⟩
        have large := byteSize?_eq_none.mp sized
        simp only [Demand.span, Memory.limit]
        omega
  · simp only [fits, if_false] at run
    cases run
    refine ⟨[], _, [], rfl, ⟨[], rfl, rfl⟩, by simp [Demand.failure, fits], fun _ => ?_⟩
    have large := Nat.mul_le_mul_right size (length.le_capacity items)
    simp only [Demand.span]
    omega

/-! ## Single values -/

/-- How the conversion of a single value starts: with the fault, with a block for text, or with the slot at once. -/
inductive SingleStart (value : Value) (type : Ty) (nullable : Bool) : Option MarshalError → EncodeM Slot → Prop
  | fault (e : MarshalError) : SingleStart value type nullable (some e) (throw (.error e))
  | text (t : String) (text : type = .utf8) (given : value = .string t) (clean : t.toList.contains '\x00' = false) :
    SingleStart value type nullable none (encodeText t)
  | slot (slot : Slot) (other : type = .utf8 → ∀ t, value ≠ .string t) : SingleStart value type nullable none (pure slot)

theorem scalarStart_integer (integral : type.native.isInteger = true) (other : type ≠ .utf8) :
    SingleStart value type nullable
      (match value.integer? with
        | some v => if type.native.holds v then none else some (.outOfRange v type)
        | none => some (mismatch type value))
      (match value.integer? with
        | some v => .ofExcept (encodeInteger v type)
        | none => throw (.error (mismatch type value))) := by
  cases value.integer? with
  | none => exact .fault _
  | some v =>
      simp only [encodeInteger, integral, if_true]
      cases type.native.holds v with
      | true => exact .slot _ fun text => absurd text other
      | false => exact .fault _

theorem scalarStart (flat : type.IsFlat) :
    SingleStart value type nullable (value.scalarFault? type) (encodeScalar value type) := by
  cases type with
  | array element length => exact absurd rfl (flat element length)
  | int8 | uint8 | int16 | uint16 | int32 | uint32 | int64 | uint64 =>
      cases value <;> exact scalarStart_integer rfl (by simp)
  | void => exact .slot _ (by simp)
  | boolean =>
      cases value with
      | boolean b => exact .slot _ (by simp)
      | _ => exact .fault _
  | float | double =>
      cases value with
      | int | uint | number => exact .slot _ (by simp)
      | _ => exact .fault _
  | utf8 =>
      cases value with
      | string t =>
          cases clean : t.toList.contains '\x00' with
          | false =>
              simp only [Value.scalarFault?, clean]
              exact .text t rfl rfl clean
          | true =>
              simp only [Value.scalarFault?, encodeScalar, encodeText, clean, if_true]
              exact .fault _
      | _ => exact .fault _
  | pointer =>
      cases value with
      | pointer | boxed => exact .slot _ (by simp)
      | _ => exact .fault _
  | struct layout =>
      cases value with
      | boxed b =>
          simp only [Value.scalarFault?, encodeScalar]
          split
          · exact .slot _ (by simp)
          · exact .fault _
      | _ => exact .fault _
  | callback | destroyNotify => cases value <;> exact .fault _

theorem singleStart (flat : type.IsFlat) :
    SingleStart value type nullable (value.fault? type nullable) (encode value type nullable) := by
  rw [encode_of_flat flat]
  unfold Value.fault?
  cases null : value.isNullish && !type.isVoid with
  | false => exact scalarStart flat
  | true =>
      simp only [if_true]
      cases type.isPointerLike with
      | false => exact .fault _
      | true =>
          cases nullable with
          | true =>
              refine .slot _ fun _ t given => ?_
              rw [given] at null
              cases null
          | false => exact .fault _

theorem encode_single_follows {r : Except (Failure MarshalError) Slot} (flat : type.IsFlat)
    (run : encode value type nullable s = (r, s')) : s.Follows (value.demands type nullable) r s' := by
  rw [demands_flat flat]
  unfold Value.singleDemands
  have start := @singleStart value type nullable flat
  generalize value.fault? type nullable = fault, encode value type nullable = act at start run
  cases start with
  | fault e =>
      cases run
      exact .fault s e []
  | text t text given clean =>
      subst text given
      exact encodeText_follows clean run
  | slot slot other =>
      cases run
      split
      · contradiction
      · exact absurd rfl (other rfl _)
      · exact .refl _ slot

/-! ## Arrays -/

theorem encodeItems_follows {encodeItem : Value → EncodeM Slot} {undo : Nat → EngineM Unit} {t : NativeType}
    {base : UInt64} {asked : Value → List Demand} {r : Except (Failure MarshalError) Unit}
    (each : ∀ item r s s', encodeItem item s = (r, s') → s.Follows (asked item) r s')
    (silent : ∀ n s, ∃ t, (undo n s).2.events = t ++ s.events ∧ gains t = []) (items : List Value) (index : Nat)
    (run : encodeItems encodeItem undo t base index items s = (r, s')) : s.Follows (items.flatMap asked) r s' := by
  induction items generalizing index s with
  | nil =>
      cases run
      exact .refl _ ()
  | cons item rest ih =>
      rw [List.flatMap_cons]
      rcases encodeItems_cons_cases run with ⟨slot, s₁, converted, later⟩ | ⟨e, s₁, refused, after, rfl⟩
      · have first := each item (.ok slot) s s₁ converted
        have stored : s.Follows (asked item) (.ok slot)
            { s₁ with memory := s₁.memory.store t (elementAddress base t index) slot } :=
          first.quiet (t := []) rfl rfl fun _ => Nat.le_of_eq (Memory.frontier_store _ _ _ _)
        exact stored.next (ih (index + 1) later)
      · have failed := each item (.error e) s s₁ refused
        rcases after with ⟨-, rfl⟩ | ⟨-, rfl⟩
        · obtain ⟨t, events, nothing⟩ := silent index s₁
          exact (failed.quiet events nothing (by simp [Except.isOk, Except.toBool])).stop _
        · exact failed.stop _

theorem encodeArrayWith_follows {encodeItem : Value → EncodeM Slot} {r : Except (Failure MarshalError) (Slot × Nat)}
    (each : ∀ item r s s', encodeItem item s = (r, s') → s.Follows (item.demands element false) r s')
    (run : encodeArrayWith encodeItem value element length nullable s = (r, s')) :
    s.Follows (value.demands (.array element length) nullable) r s' := by
  cases value with
  | array items =>
      simp only [encodeArrayWith] at run
      rcases EngineM.failing_bind_cases run with ⟨block, s₁, made, rest⟩ | ⟨e, failed, rfl⟩
      · have first := allocateArray_follows made
        have silent : ∀ n (s : Engine), ∃ t,
            (freeArray element length (.ofAddress block) (some n) .full .engine s).2.events = t ++ s.events ∧
              gains t = [] := by
          intro n s
          obtain ⟨t, events, none_made, -⟩ :=
            (freeArray_releases element length (.ofAddress block) (some n) .full .engine s).moves.events
          exact ⟨t, events, none_made.eq_nil⟩
        rcases EngineM.failing_bind_cases rest with ⟨u, s₂, filled, last⟩ | ⟨e, failed, rfl⟩
        · cases last
          exact first.next (encodeItems_follows each silent items 0 filled)
        · exact first.next (encodeItems_follows each silent items 0 failed)
      · exact (allocateArray_follows failed).stop _
  | undefined | null =>
      cases nullable with
      | true =>
          cases run
          exact .refl _ _
      | false =>
          cases run
          exact .fault _ _ []
  | _ =>
      cases run
      exact .fault _ _ []

theorem encode_follows (type : Ty) {value : Value} {nullable : Bool} {r : Except (Failure MarshalError) Slot} {s s' : Engine}
    (run : encode value type nullable s = (r, s')) : s.Follows (value.demands type nullable) r s' := by
  cases shape : type with
  | array element length =>
      rw [shape, encode] at run
      have each : ∀ item r s s', encode item element false s = (r, s') → s.Follows (item.demands element false) r s' :=
        fun item r s s' converted => encode_follows element converted
      rcases EngineM.failing_bind_cases run with ⟨made, s₁, filled, last⟩ | ⟨e, failed, rfl⟩
      · cases last
        exact encodeArrayWith_follows each filled
      · exact encodeArrayWith_follows each failed
  | _ =>
      rw [← shape]
      exact encode_single_follows (by intro element length same; cases shape.symm.trans same) run
termination_by type
decreasing_by simp [shape]; omega

/-! ## Sound values -/

def Ty.isUncalled : Ty → Bool
  | .array element _ => element.isUncalled
  | .callback _ => false
  | _ => true

theorem scalarFault?_of_canConvert (flat : type.IsFlat) (uncalled : type.isUncalled = true)
    (present : value.isNullish = false) (passes : canConvert value type nullable = true) :
    value.scalarFault? type = none := by
  cases @scalarOutcome value type nullable flat present with
  | slot slot run =>
      have start := @scalarStart value type nullable flat
      generalize value.scalarFault? type = fault at start
      generalize encodeScalar value type = act at start run
      cases start with
      | fault e => cases congrFun run .initial
      | text | slot => rfl
  | text t text run given clean =>
      subst text given
      simp only [Value.scalarFault?, clean, Bool.false_eq_true, if_false]
  | refused e run fault fails =>
      rw [passes] at fails
      cases fails
  | supplied e run engine =>
      rcases engine with rfl | ⟨signature, rfl⟩
      · cases value with
        | undefined | null => cases present
        | int | uint | _ => cases passes
      · cases uncalled

theorem fault?_of_canConvert (flat : type.IsFlat) (uncalled : type.isUncalled = true)
    (passes : canConvert value type nullable = true) : value.fault? type nullable = none := by
  unfold Value.fault?
  cases null : value.isNullish with
  | false => exact scalarFault?_of_canConvert flat uncalled null passes
  | true =>
      rw [canConvert_nullish flat null] at passes
      cases void : type.isVoid with
      | true =>
          cases type with
          | void => rfl
          | _ => cases void
      | false =>
          rw [void, Bool.false_or, Bool.and_eq_true] at passes
          obtain ⟨pointer, rfl⟩ := passes
          simp only [pointer, Bool.not_false, Bool.and_true, if_true]

theorem sound_of_fault? (sound : value.fault? type nullable = none) :
    ∀ d ∈ value.singleDemands type nullable, d.isFault = false := by
  unfold Value.singleDemands
  rw [sound]
  split
  · contradiction
  · simp [Demand.isFault]
  · simp

theorem sound_of_canConvert (type : Ty) {value : Value} {nullable : Bool} (uncalled : type.isUncalled = true)
    (passes : canConvert value type nullable = true) : ∀ d ∈ value.demands type nullable, d.isFault = false := by
  cases shape : type with
  | array element length =>
      subst shape
      cases value with
      | array items =>
          simp only [canConvert, Value.isNullish, Bool.false_eq_true, if_false, List.all_eq_true] at passes
          intro d hd
          rcases List.mem_cons.mp hd with rfl | hd
          · rfl
          · obtain ⟨item, listed, hd⟩ := List.mem_flatMap.mp hd
            exact sound_of_canConvert element uncalled (passes item listed) d hd
      | undefined | null =>
          cases nullable with
          | true => simp [Value.demands, Value.isNullish]
          | false => simp [canConvert, Value.isNullish] at passes
      | _ => simp [canConvert, Value.isNullish] at passes
  | _ =>
      have flat : type.IsFlat := by
        intro element length same
        cases shape.symm.trans same
      rw [← shape, demands_flat flat]
      exact sound_of_fault? (fault?_of_canConvert flat uncalled passes)
termination_by type
decreasing_by simp [shape]; omega

/-! ## The check decides -/

theorem toNative_follows {r : Except (Failure MarshalError) Slot} (run : toNative value type nullable s = (r, s')) :
    s.Follows (value.demands type nullable) r s' := by
  cases r with
  | ok slot => exact encode_follows type (toNative_ok run)
  | error failure =>
      obtain ⟨s₁, failed, ⟨-, rfl⟩ | ⟨-, rfl⟩⟩ := EncodeM.onError_error run
      · exact (encode_follows type failed).quiet (t := []) rfl rfl (by simp [Except.isOk, Except.toBool])
      · exact encode_follows type failed

/-- The check decides whether a value converts. What converts passes it. Where no callback is in the type, what passes
converts: only the making of a block can fail, for want of room or with a size that is no machine word, and with room for
the blocks that the value asks for nothing does. -/
theorem toNative_iff_canConvert (value : Value) (type : Ty) (nullable : Bool) (s : Engine) :
    (∀ slot s', toNative value type nullable s = (.ok slot, s') → canConvert value type nullable = true) ∧
    (type.isUncalled = true → canConvert value type nullable = true →
      (∀ e s', toNative value type nullable s = (.error e, s') →
        (∃ size, e = .error (.allocationFailed size)) ∨ e = .overflow ∧ value.Overflows type) ∧
      (s.memory.frontier + spans (value.demands type nullable) ≤ Memory.limit →
        ∃ slot s', toNative value type nullable s = (.ok slot, s'))) := by
  refine ⟨fun slot s' run => canConvert_of_encode type (toNative_ok run), fun uncalled passes => ⟨?_, ?_⟩⟩
  · rintro (e | text) s' run
    · obtain ⟨size, rfl⟩ := (toNative_follows run).error_of_sound (sound_of_canConvert type uncalled passes)
      exact Or.inl ⟨size, rfl⟩
    · exact Or.inr (overflow_of_toNative run)
  · intro room
    rcases run : toNative value type nullable s with ⟨r, s'⟩
    obtain ⟨slot, rfl⟩ := (toNative_follows run).ok_of_room (sound_of_canConvert type uncalled passes) room
    exact ⟨slot, s', rfl⟩

/-- Names of two rows, the second of which is empty, for three that are asked for. -/
def namesByRow : Value := .array [.array [.string "né", .string ""], .array []]

theorem toNative_iff_canConvert_listing :
    (Ty.array (.array .utf8 .zeroTerminated) (.fixed 3)).isUncalled = true ∧
    canConvert namesByRow (.array (.array .utf8 .zeroTerminated) (.fixed 3)) false = true ∧
    ∃ slot s', toNative namesByRow (.array (.array .utf8 .zeroTerminated) (.fixed 3)) false .initial = (.ok slot, s') := by
  have passes : canConvert namesByRow (.array (.array .utf8 .zeroTerminated) (.fixed 3)) false = true := by decide +kernel
  have room : Engine.initial.memory.frontier +
      spans (namesByRow.demands (.array (.array .utf8 .zeroTerminated) (.fixed 3)) false) ≤ Memory.limit := by decide +kernel
  obtain ⟨-, converts⟩ :=
    toNative_iff_canConvert namesByRow (.array (.array .utf8 .zeroTerminated) (.fixed 3)) false .initial
  exact ⟨rfl, passes, (converts rfl passes).2 room⟩

end Ferry
