import Mathlib.Data.List.Nodup
import Ferry.Proofs.Callback.Contract
import Ferry.Proofs.Marshal.Undoing

/-!
# Answers of callables

A callable that returns a text or an array makes the engine copy it for native code. A conversion that succeeds only adds
blocks (`encode_adds`); one that fails gives up what it had added, block by block (`encode_undone`). From then on the blocks of
an answer stand as they are, as long as everybody spares them (`Callback.Answer.Stands`): alive if the value converted, and
otherwise released, once each.
-/

set_option autoImplicit false

namespace Ferry

variable {s s' s'' : Engine} {value : Value} {type element : Ty} {length : ArrayLength} {slot : Slot} {nullable : Bool}
  {made made' : List UInt64} {a : UInt64}

/-! ## What a conversion adds -/

/-- The blocks of `made` were made and are alive, and nothing was given up. -/
structure Engine.Adds (s : Engine) (made : List UInt64) (s' : Engine) : Prop where
  moves : s.Moves (made.map .block) [] s'
  kept : ∀ a, s.memory.Live a → s'.memory.Live a
  live : ∀ a ∈ made, s'.memory.Live a

namespace Engine.Adds

theorem refl (s : Engine) : s.Adds [] s :=
  ⟨.refl s, fun _ alive => alive, by simp⟩

theorem trans (first : s.Adds made s') (second : s'.Adds made' s'') : s.Adds (made ++ made') s'' where
  moves := by
    rw [List.map_append]
    exact first.moves.trans_gained second.moves
  kept a alive := second.kept a (first.kept a alive)
  live a listed := by
    rcases List.mem_append.mp listed with early | late
    · exact second.kept a (first.live a early)
    · exact second.live a late

theorem allocate {size : Nat} (run : EngineM.allocate size s = (some a, s')) : s.Adds [a] s' where
  moves := EngineM.allocate_moves run
  kept _ alive := (allocate_evolves run).1.live alive
  live b listed := by
    rw [List.mem_singleton.mp listed]
    obtain ⟨b, hb, address, -⟩ := allocate_block run
    exact ⟨b, hb, address⟩

theorem write (s : Engine) (x : UInt64) (bytes : List UInt8) : s.Adds [] { s with memory := s.memory.write x bytes } where
  moves := (Moves.refl s).quiet (t := []) rfl rfl rfl (Nat.le_of_eq (Memory.frontier_write _ _ _).symm) rfl rfl rfl
  kept _ alive := Memory.live_write alive x bytes
  live := by simp

end Engine.Adds

theorem encodeItems_adds {encodeItem : Value → EncodeM Slot} {undo : Nat → EngineM Unit} {t : NativeType} {base : UInt64}
    (each : ∀ item slot s s', encodeItem item s = (.ok slot, s') → ∃ made, s.Adds made s') (items : List Value) (index : Nat)
    (run : encodeItems encodeItem undo t base index items s = (.ok (), s')) : ∃ made, s.Adds made s' := by
  induction items generalizing index s with
  | nil =>
      cases run
      exact ⟨[], .refl _⟩
  | cons item rest ih =>
      rcases encodeItems_cons_cases run with ⟨slot, s₁, converted, later⟩ | ⟨e, s₁, -, -, impossible⟩
      · obtain ⟨first, adds⟩ := each item slot s s₁ converted
        obtain ⟨others, rest_adds⟩ := ih (index + 1) later
        exact ⟨_, (adds.trans (.write s₁ _ _)).trans rest_adds⟩
      · cases impossible

theorem Ty.utf8_of_made (flat : type.IsFlat) (has : type.isMade = true) : type = .utf8 := by
  cases type with
  | utf8 => rfl
  | array element length => exact absurd rfl (flat element length)
  | _ => cases has

theorem encode_adds (type : Ty) {value : Value} {nullable : Bool} {slot : Slot} {s s' : Engine}
    (run : encode value type nullable s = (.ok slot, s')) :
    ∃ made, s.Adds made s' ∧ (type.isMade = true → (slot.isNull = true ↔ made = [])) := by
  cases shape : type with
  | array element length =>
      rw [shape, encode] at run
      obtain ⟨⟨x, count⟩, s₁, filled, last⟩ := EngineM.failing_bind_ok run
      cases last
      rcases encodeArrayWith_cases filled with ⟨items, block, s₂, done, -, -, allocated, stores, same⟩ |
        ⟨rfl, ⟨same, -⟩ | ⟨e, impossible⟩⟩
      · cases done with
        | error e => cases same
        | ok u =>
            cases same
            have each : ∀ item slot s s', encode item element false s = (.ok slot, s') → ∃ made, s.Adds made s' := by
              intro item slot s s' converted
              obtain ⟨made, adds, -⟩ := encode_adds element converted
              exact ⟨made, adds⟩
            obtain ⟨others, adds⟩ := encodeItems_adds each items 0 stores
            obtain ⟨b, hb, rfl, -⟩ := allocate_block allocated
            refine ⟨b.address :: others, (Engine.Adds.allocate allocated).trans adds, fun _ => ?_⟩
            simp [isNull_ofAddress (Memory.mem_chunks_of_live hb)]
      · cases same
        exact ⟨[], .refl _, fun _ => by simp [Slot.isNull, Slot.zero]⟩
      · cases impossible
  | _ =>
      rcases encode_flat_cases (by simp [shape]) run with ⟨text, -, copied⟩ | ⟨rfl, other⟩
      · rcases encodeText_moves copied with ⟨block, same, moves, forward, live⟩ | ⟨⟨e, impossible⟩, -⟩
        · cases same
          refine ⟨[block], ⟨moves, fun a alive => forward.live alive, by simpa using live⟩, fun _ => ?_⟩
          have nonzero := live.ne_zero
          simpa [Slot.isNull, Slot.ofAddress] using nonzero
        · cases impossible
      · refine ⟨[], .refl _, fun has => ?_⟩
        rcases other (Ty.utf8_of_made (by simp [shape, Ty.IsFlat]) (by rw [shape]; exact has)) with ⟨zero, -⟩ | ⟨e, impossible⟩
        · cases zero
          simp [Slot.isNull, Slot.zero]
        · cases impossible
termination_by type
decreasing_by simp [shape]; omega

/-! ## What a conversion that fails undoes -/

/-- What there is of the value when its conversion fails can be told from memory: an array inside of it says itself how many
items it has, and a fixed array inside of it has no more items than its type counts, in a block whose size is a machine word. -/
structure Value.Undoable (value : Value) (type : Ty) : Prop where
  unlinked : ∀ element length, type = .array element length → element.isUnlinked = true
  within : ∀ element length items, type = .array element length → value = .array items → ∀ item ∈ items, item.within element
  small : ∀ element length items, type = .array element length → value = .array items → ∀ item ∈ items, ¬item.Overflows element

theorem encode_undone {failure : Failure MarshalError} (undoable : value.Undoable type)
    (run : encode value type nullable s = (.error failure, s')) : s.Undone s' := by
  cases shape : type with
  | array element length =>
      subst shape
      rw [encode] at run
      rcases EngineM.failing_bind_cases run with ⟨made, s₁, -, impossible⟩ | ⟨e', failed, -⟩
      · cases impossible
      · rcases encodeArray_ends
          (fun items array item listed r s s' converted => encode_ends element (undoable.unlinked element length rfl)
            (undoable.within element length items rfl array item listed) converted)
          failed with ⟨-, undone⟩ | ⟨text, same⟩ | ⟨impossible, -⟩ | ⟨items, a, capacity, made, -, impossible, -⟩
        · exact undone
        · cases same
          rw [unmoved_of_overflow (fun items array item listed s text s' overflows =>
            undoable.small element length items rfl array item listed (overflow_of_encode element overflows).2) failed]
          exact .refl s
        · cases impossible
        · cases impossible
  | _ =>
      have flat : type.IsFlat := by
        intro element length same
        cases shape.symm.trans same
      cases encode_flat_ends flat run with
      | undone e s' undone => exact undone
      | panicked text s' => exact absurd run (calm_encode_flat flat s text s')

/-! ## What nobody owns -/

theorem Engine.Spares.of_moves {gained lost : List Resource} (moves : s.Moves gained lost s') (kept : .block a ∉ lost)
    (live : s.memory.Live a → s'.memory.Live a) (unowned : s.owners.lookup a = none) : s.Spares a s' := by
  obtain ⟨t, events, -, same⟩ := moves.events
  refine ⟨⟨t, events, fun hit => kept (same.mem_iff.mp hit)⟩, live, ?_, moves.frontier_le⟩
  rw [unowned, moves.unowned a unowned]

/-- Nothing is made between the two states, and every block is spared that nobody owns. -/
structure Engine.SparesUnowned (s s' : Engine) : Prop where
  events : ∃ t, s'.events = t ++ s.events ∧ gains t = []
  frontier_le : s.memory.frontier ≤ s'.memory.frontier
  spares : ∀ a, s.owners.lookup a = none → s.Spares a s'

namespace Engine.SparesUnowned

theorem trans (first : s.SparesUnowned s') (second : s'.SparesUnowned s'') : s.SparesUnowned s'' where
  events := by
    obtain ⟨t, events, none_made⟩ := first.events
    obtain ⟨t', events', none_made'⟩ := second.events
    exact ⟨t' ++ t, by rw [events', events, List.append_assoc], by rw [gains_append, none_made, none_made']; rfl⟩
  frontier_le := Nat.le_trans first.frontier_le second.frontier_le
  spares a unowned := by
    have early := first.spares a unowned
    exact early.trans (second.spares a (early.owners.trans unowned))

theorem log (entry : LogEntry) (s : Engine) : s.SparesUnowned (EngineM.log entry s).2 :=
  ⟨⟨[_], rfl, rfl⟩, Nat.le_refl _, fun a _ => EngineM.log_spares a entry s⟩

theorem complain (signature : Signature) (failure : InvokeFailure) (s : Engine) :
    s.SparesUnowned (Callback.complain signature failure s).2 := by
  cases failure with
  | error e => exact .log _ _
  | panic text => exact .log _ _

end Engine.SparesUnowned

theorem EngineM.disown_spares_unowned (x : UInt64) (unowned : s.owners.lookup a = none) : s.Spares a (disown x s).2 := by
  by_cases same : a = x
  · subst same
    unfold disown
    rw [run_get, unowned]
    exact .refl a s
  · exact disown_spares same s

mutual

theorem release_spares_unowned (v : Value) (s : Engine) (unowned : s.owners.lookup a = none) : s.Spares a (v.release s).2 := by
  cases v with
  | array items =>
      simp only [Value.release]
      exact releaseAll_spares_unowned items s unowned
  | boxed b =>
      simp only [Value.release]
      split
      · exact EngineM.disown_spares_unowned b.address unowned
      · exact .refl a s
  | function f =>
      simp only [Value.release]
      exact EngineM.letGo_spares a f.id s
  | _ => exact .refl a s

theorem releaseAll_spares_unowned (values : List Value) (s : Engine) (unowned : s.owners.lookup a = none) :
    s.Spares a (Value.releaseAll values s).2 := by
  cases values with
  | nil => exact .refl a s
  | cons v rest =>
      rw [releaseAll_cons]
      have first := release_spares_unowned v s unowned
      exact first.trans (releaseAll_spares_unowned rest _ (first.owners.trans unowned))

end

theorem release_sparesUnowned (v : Value) (s : Engine) : s.SparesUnowned (v.release s).2 := by
  obtain ⟨lost, -, given⟩ := release_drops v s
  obtain ⟨t, events, none_made, -⟩ := given.moves.events
  exact ⟨⟨t, events, none_made.eq_nil⟩, given.moves.frontier_le, fun _ unowned => release_spares_unowned v s unowned⟩

/-! ## Answers -/

/-- An answer of a callback to native code: what the callable returned, the engine when it did, and what was made from then on
until native code goes on. -/
structure Callback.Answer where
  callback : Callback
  outcome : Except InvokeFailure Value
  before : Engine
  made : List Resource

namespace Callback.Answer

/-- What the returned value converts to. -/
def given (A : Callback.Answer) : Option Slot :=
  match A.outcome with
  | .ok value => (Callback.encodeReturn A.callback.signature value A.before).1.toOption
  | .error _ => none

def Undoable (A : Callback.Answer) : Prop :=
  ∀ value, A.outcome = .ok value → A.given = none →
    (Callback.shown A.callback.signature value).Undoable A.callback.signature.result

/-- What is made of the returned value: nothing is given up if it converts, and otherwise all that was made. -/
structure Converts (A : Callback.Answer) (made : List UInt64) (s : Engine) : Prop where
  moves : A.before.Moves (made.map .block) (if A.given.isSome then [] else made.map .block) s
  kept : ∀ a, A.before.memory.Live a → s.memory.Live a
  live : A.given.isSome = true → ∀ a ∈ made, s.memory.Live a
  null : ∀ x, A.given = some x → A.callback.signature.result.isMade = true → (x.isNull = true ↔ made = [])

variable {A : Callback.Answer}

theorem converts_of_ok {value : Value} {x : Slot} (returned : A.outcome = .ok value)
    (run : Callback.encodeReturn A.callback.signature value A.before = (.ok x, s)) : ∃ made, A.Converts made s := by
  have given : A.given = some x := by
    unfold Callback.Answer.given
    rw [returned]
    simp only [run]
    rfl
  have adds : ∃ made, A.before.Adds made s ∧ (A.callback.signature.result.isMade = true → (x.isNull = true ↔ made = [])) := by
    cases void : A.callback.signature.result.isVoid with
    | true =>
        unfold Callback.encodeReturn at run
        rw [void, if_pos rfl] at run
        cases run
        refine ⟨[], .refl _, fun has => ?_⟩
        cases shape : A.callback.signature.result with
        | void => simp [shape, Ty.isMade] at has
        | _ => simp [shape, Ty.isVoid] at void
    | false =>
        rw [Callback.encodeReturn_eq void] at run
        exact encode_adds _ (toNative_ok run)
  obtain ⟨made, adds, null⟩ := adds
  refine ⟨made, ?_, adds.kept, fun _ => adds.live, fun y same => ?_⟩
  · rw [given]
    exact adds.moves
  · cases given.symm.trans same
    exact null

theorem converts_of_error {value : Value} {failure : Failure MarshalError} (returned : A.outcome = .ok value)
    (undoable : A.Undoable)
    (run : Callback.encodeReturn A.callback.signature value A.before = (.error failure, s)) : ∃ made, A.Converts made s := by
  have given : A.given = none := by
    unfold Callback.Answer.given
    rw [returned]
    simp only [run]
    rfl
  have full : A.callback.signature.result.isVoid = false := by
    cases void : A.callback.signature.result.isVoid with
    | true =>
        unfold Callback.encodeReturn at run
        rw [void, if_pos rfl] at run
        cases run
    | false => rfl
  rw [Callback.encodeReturn_eq full] at run
  obtain ⟨s₁, failed, after⟩ := EncodeM.onError_error run
  have counted : A.before.Undone s := by
    obtain ⟨⟨made, moves⟩, blocks, chunks⟩ := encode_undone (undoable value returned given) failed
    obtain ⟨-, rfl⟩ | ⟨-, rfl⟩ := after
    · exact ⟨⟨made, moves.quiet (t := []) rfl rfl rfl (Nat.le_refl _) rfl rfl rfl⟩, blocks, chunks⟩
    · exact ⟨⟨made, moves⟩, blocks, chunks⟩
  obtain ⟨⟨made, moves⟩, blocks, -⟩ := counted
  refine ⟨made, ?_, ?_, ?_, ?_⟩
  · rw [given]
    exact moves
  · rintro a ⟨b, hb, address⟩
    exact ⟨b, (blocks b).mpr hb, address⟩
  · intro some_given
    rw [given] at some_given
    cases some_given
  · intro x same
    rw [given] at same
    cases same

theorem exists_converts (undoable : A.Undoable) : ∃ made s, A.Converts made s ∧
    s.SparesUnowned (Callback.conclude A.callback.signature A.outcome A.before).2 := by
  cases returned : A.outcome with
  | error failure =>
      have given : A.given = none := by
        unfold Callback.Answer.given
        rw [returned]
      refine ⟨[], A.before, ⟨?_, fun _ alive => alive, by simp, fun x same => ?_⟩, ?_⟩
      · rw [given]
        exact .refl _
      · rw [given] at same
        cases same
      · exact .complain _ _ _
  | ok value =>
      rcases run : Callback.encodeReturn A.callback.signature value A.before with ⟨r, s⟩
      have dropped := release_sparesUnowned value s
      cases r with
      | ok x =>
          obtain ⟨made, converts⟩ := converts_of_ok returned run
          rw [Callback.conclude_converted run]
          exact ⟨made, s, converts, dropped⟩
      | error failure =>
          obtain ⟨made, converts⟩ := converts_of_error returned undoable run
          rw [Callback.conclude_unconverted run]
          exact ⟨made, s, converts, dropped.trans (.complain _ _ _)⟩

/-! ## How answers stand later -/

/-- What was made for an answer, at a later moment: it lies behind `floor`, and nobody owns it. If the value converted, its
blocks are alive and none of them was released; otherwise each was released once. -/
structure Stands (floor : Nat) (A : Callback.Answer) (s : Engine) : Prop where
  history : ∃ t, s.events = t ++ A.before.events ∧ ∀ r ∈ A.made, (losses t).count r = if A.given.isSome then 0 else 1
  blocks : ∀ r ∈ A.made, ∃ a, r = .block a ∧ floor ≤ a.toNat ∧ a.toNat < s.memory.frontier ∧
    s.owners.lookup a = none ∧ (A.given.isSome = true → s.memory.Live a)
  null : ∀ x, A.given = some x → A.callback.signature.result.isMade = true → (x.isNull = true ↔ A.made = [])

variable {floor : Nat}

theorem Stands.spared (stands : A.Stands floor s) (events : ∃ t, s'.events = t ++ s.events)
    (spares : ∀ a, .block a ∈ A.made → s.Spares a s') : A.Stands floor s' where
  history := by
    obtain ⟨t, early, counts⟩ := stands.history
    obtain ⟨t', late⟩ := events
    refine ⟨t' ++ t, by rw [late, early, List.append_assoc], fun r listed => ?_⟩
    obtain ⟨a, rfl, -⟩ := stands.blocks r listed
    obtain ⟨t'', told, kept⟩ := (spares a listed).events
    have same : t'' = t' := List.append_cancel_right (told.symm.trans late)
    rw [losses_append, List.count_append, counts _ listed, ← same, List.count_eq_zero.mpr kept, Nat.zero_add]
  blocks r listed := by
    obtain ⟨a, rfl, behind, old, unowned, live⟩ := stands.blocks r listed
    have step := spares a listed
    exact ⟨a, rfl, behind, Nat.lt_of_lt_of_le old step.frontier_le, step.owners.trans unowned,
      fun given => step.live (live given)⟩
  null := stands.null

theorem Converts.stands {made : List UInt64} {t : List Event} (converts : A.Converts made s) (rest : s.SparesUnowned s')
    (events : s'.events = t ++ A.before.events) (told : A.made = gains t)
    (unowned : ∀ a, A.before.memory.frontier ≤ a.toNat → A.before.owners.lookup a = none)
    (low : floor ≤ A.before.memory.frontier) : A.Stands floor s' := by
  obtain ⟨t₁, first, gained, lost⟩ := converts.moves.events
  obtain ⟨t₂, second, none_made⟩ := rest.events
  have same : t = t₂ ++ t₁ := by
    have both : t ++ A.before.events = t₂ ++ t₁ ++ A.before.events := by
      rw [← events, second, first, List.append_assoc]
    exact List.append_cancel_right both
  have whole : A.made.Perm (made.map .block) := by
    rw [told, same, gains_append, none_made]
    exact gained
  have new : ∀ r ∈ A.made, ∃ a ∈ made, r = .block a ∧ A.before.memory.frontier ≤ a.toNat ∧ a.toNat < s.memory.frontier := by
    intro r listed
    obtain ⟨a, ha, rfl⟩ := List.mem_map.mp (whole.mem_iff.mp listed)
    have between := converts.moves.between _ (List.mem_map_of_mem ha)
    exact ⟨a, ha, rfl, between.1, between.2⟩
  have here : A.Stands floor s := by
    refine ⟨⟨t₁, first, fun r listed => ?_⟩, fun r listed => ?_, fun x given has => ?_⟩
    · rw [lost.count_eq]
      cases A.given with
      | some x => rfl
      | none => exact List.count_eq_one_of_mem converts.moves.nodup (whole.mem_iff.mp listed)
    · obtain ⟨a, ha, rfl, behind, old⟩ := new r listed
      exact ⟨a, rfl, Nat.le_trans low behind, old, converts.moves.unowned a (unowned a behind),
        fun given => converts.live given a ha⟩
    · rw [converts.null x given has]
      constructor
      · rintro rfl
        exact whole.eq_nil
      · intro none_told
        rw [none_told] at whole
        simpa using whole.symm.eq_nil
  refine here.spared ⟨t₂, second⟩ fun a listed => ?_
  obtain ⟨b, hb, same, behind, -⟩ := new _ listed
  cases same
  exact rest.spares a (converts.moves.unowned a (unowned a behind))

end Callback.Answer

end Ferry
