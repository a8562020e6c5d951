import Ferry.Proofs.Engine.Running
import Ferry.Proofs.Structures.Fields
import Ferry.Session.Handles

/-!
# Steps on a row of handles

`Row.Change` says once what a step can do to the row and to the engine: which handle is added or taken away, and which of
the actions of the engine goes with it. Steps that look at handles, or find none, change nothing (`HandleStep.Idle`). So does
an access to a field that is refused, and at the end stands which accesses are.
-/

set_option autoImplicit false

namespace Ferry

/-! ## Running actions on a row -/

namespace RowM

variable {α β : Type}

theorem run_bind (act : RowM α) (next : α → RowM β) (row : Row) (s : Engine) :
    (act >>= next : RowM β) row s =
      match act row s with
      | ((.ok a, row'), s') => next a row' s'
      | ((.error e, row'), s') => ((.error e, row'), s') := by
  rcases found : act row s with ⟨⟨r, row'⟩, s'⟩
  simp only [bind, ExceptT.bind, ExceptT.mk, StateT.bind, found]
  cases r <;> rfl

theorem run_engine (act : EngineM α) (next : α → RowM β) (row : Row) (s : Engine) :
    (engine act >>= next : RowM β) row s = next (act s).1 row (act s).2 := rfl

theorem entry_eq (place : Nat) (row : Row) (s : Engine) :
    entry place row s = ((match row[place]? with | some h => .ok h | none => .error (.empty place), row), s) := by
  unfold entry
  rw [run_bind]
  show (match row[place]? with | some h => pure h | none => throw (.empty place) : RowM (Option Boxed)) row s = _
  cases row[place]? <;> rfl

theorem handle_eq (place : Nat) (row : Row) (s : Engine) :
    handle place row s = ((match row[place]? with | some (some b) => .ok b | _ => .error (.empty place), row), s) := by
  unfold handle
  rw [run_bind, entry_eq]
  rcases row[place]? with _ | _ | b <;> rfl

/-- An action that only looks at the row and at the engine. -/
def Looks (act : RowM α) : Prop :=
  ∀ row s, (act row s).1.2 = row ∧ (act row s).2 = s

theorem looks_pure (a : α) : Looks (pure a) := fun _ _ => ⟨rfl, rfl⟩

theorem looks_throw (e : HandleError) : Looks (throw e : RowM α) := fun _ _ => ⟨rfl, rfl⟩

theorem looks_engine {act : EngineM α} (quiet : ∀ s, (act s).2 = s) : Looks (engine act) := fun _ s => ⟨rfl, quiet s⟩

theorem looks_handle (place : Nat) : Looks (handle place) := fun row s => by
  rw [handle_eq]
  exact ⟨rfl, rfl⟩

theorem Looks.bind {act : RowM α} {next : α → RowM β} (first : Looks act) (second : ∀ a, Looks (next a)) :
    Looks (act >>= next) := by
  intro row s
  have same := first row s
  rw [run_bind]
  rcases found : act row s with ⟨⟨r, row'⟩, s'⟩
  rw [found] at same
  obtain ⟨rfl, rfl⟩ := same
  cases r with
  | ok a => exact second a row' s'
  | error e => exact ⟨rfl, rfl⟩

end RowM

/-- A step that changes neither the row nor the engine: it looks at handles, finds none where it needs one, or is refused. -/
def HandleStep.Idle (row : Row) : HandleStep → Prop
  | .create _ => False
  | .clone place | .borrow place => row[place]? = none
  | .drop place => ∀ b, row[place]? ≠ some (some b)
  | .write place t offset _ => ∀ b, row[place]? = some (some b) → b.admits offset t.size = false
  | .read .. | .same .. | .sameLayout .. => True

def HandleStep.Adds : HandleStep → Prop
  | .create _ | .clone _ | .borrow _ => True
  | _ => False

/-- What a step can do to the row and to the engine. -/
inductive Row.Change (row : Row) (s : Engine) : HandleStep → Row → Engine → Prop
  | idle (step : HandleStep) (idle : step.Idle row) : Change row s step row s
  | blank (step : HandleStep) (adds : step.Adds) : Change row s step (row ++ [none]) s
  | created (layout : Layout) (a : UInt64) (s₁ : Engine) (made : EngineM.allocate layout.size s = (some a, s₁)) :
      Change row s (.create layout) (row ++ [some ⟨layout, a, true⟩]) (EngineM.own a s₁).2
  | cloned (place : Nat) (b : Boxed) (found : row[place]? = some (some b)) :
      Change row s (.clone place) (row ++ [some b]) ((Value.boxed b).retain s).2
  | borrowed (place : Nat) (b : Boxed) (found : row[place]? = some (some b)) :
      Change row s (.borrow place) (row ++ [some b.borrow]) s
  | dropped (place : Nat) (b : Boxed) (found : row[place]? = some (some b)) :
      Change row s (.drop place) (row.set place none) ((Value.boxed b).release s).2
  | written (place : Nat) (t : NativeType) (offset : UInt64) (slot : Slot) (b : Boxed)
      (found : row[place]? = some (some b)) (admitted : b.admits offset t.size = true) :
      Change row s (.write place t offset slot) row
        { s with memory := s.memory.write (b.address + offset) (slot.toBytes t) }

namespace RowM

variable {row : Row} {s : Engine} {place : Nat} {b : Boxed}

theorem make?_eq (layout : Layout) (s : Engine) :
    Boxed.make? layout s =
      match EngineM.allocate layout.size s with
      | (none, s₁) => (none, s₁)
      | (some a, s₁) => (some ⟨layout, a, true⟩, (EngineM.own a s₁).2) := by
  unfold Boxed.make?
  rw [EngineM.run_bind]
  rcases EngineM.allocate layout.size s with ⟨_ | a, s₁⟩ <;> rfl

theorem carryOut_create (layout : Layout) : carryOut (.create layout) row s =
    view (row ++ [(Boxed.make? layout s).1]) (Boxed.make? layout s).2 := rfl

theorem carryOut_clone {h : Option Boxed} (found : row[place]? = some h) : carryOut (.clone place) row s =
    view (row ++ [h]) (h.elim s fun b => ((Value.boxed b).retain s).2) := by
  simp only [carryOut]
  rw [run_bind, entry_eq, found]
  cases h <;> rfl

theorem carryOut_borrow {h : Option Boxed} (found : row[place]? = some h) : carryOut (.borrow place) row s =
    view (row ++ [h.map Boxed.borrow]) s := by
  simp only [carryOut]
  rw [run_bind, entry_eq, found]
  rfl

theorem carryOut_drop {h : Option Boxed} (found : row[place]? = some h) : carryOut (.drop place) row s =
    view (row.set place none) (h.elim s fun b => ((Value.boxed b).release s).2) := by
  simp only [carryOut]
  rw [run_bind, entry_eq, found]
  cases h <;> rfl

theorem carryOut_missing {step : HandleStep} (names : step = .clone place ∨ step = .borrow place ∨ step = .drop place)
    (missing : row[place]? = none) : carryOut step row s = ((.error (.empty place), row), s) := by
  rcases names with rfl | rfl | rfl <;>
  · simp only [carryOut]
    rw [run_bind, entry_eq, missing]

theorem carryOut_write (found : row[place]? = some (some b)) (t : NativeType) (offset : UInt64) (slot : Slot) :
    carryOut (.write place t offset slot) row s =
      if b.admits offset t.size then
        view row { s with memory := s.memory.write (b.address + offset) (slot.toBytes t) }
      else ((.error .outOfBounds, row), s) := by
  have width := Slot.length_toBytes t slot
  simp only [carryOut]
  rw [run_bind, handle_eq, found]
  show (engine (b.write? t offset slot) >>= _ : RowM HandleReply) row s = _
  rw [run_engine, Boxed.write?]
  cases admitted : b.admits offset t.size with
  | true =>
      rw [Boxed.writeBytes?_admitted (by rwa [width])]
      rfl
  | false =>
      rw [Boxed.writeBytes?_refused (by rwa [width])]
      rfl

theorem carryOut_read (found : row[place]? = some (some b)) (t : NativeType) (offset : UInt64) :
    carryOut (.read place t offset) row s =
      if b.admits offset t.size then
        ((.ok (.field (s.viewNative t (Slot.ofBytes (s.memory.read (b.address + offset) t.size)))), row), s)
      else ((.error .outOfBounds, row), s) := by
  simp only [carryOut]
  rw [run_bind, handle_eq, found]
  show (engine (b.read? t offset) >>= _ : RowM HandleReply) row s = _
  rw [run_engine, Boxed.read?_eq]
  cases admitted : b.admits offset t.size with
  | true =>
      rw [Boxed.readBytes?_admitted admitted]
      rfl
  | false =>
      rw [Boxed.readBytes?_refused admitted]
      rfl

theorem carryOut_same {other : Nat} {c : Boxed} (found : row[place]? = some (some b))
    (found' : row[other]? = some (some c)) :
    carryOut (.same place other) row s = ((.ok (.truth (b.address == c.address)), row), s) := by
  simp only [carryOut]
  rw [run_bind, handle_eq, found]
  show (handle other >>= _ : RowM HandleReply) row s = _
  rw [run_bind, handle_eq, found']
  rfl

theorem carryOut_write_empty (empty : ∀ b, row[place]? ≠ some (some b)) (t : NativeType) (offset : UInt64)
    (slot : Slot) : carryOut (.write place t offset slot) row s = ((.error (.empty place), row), s) := by
  simp only [carryOut]
  rw [run_bind, handle_eq]
  rcases found : row[place]? with _ | _ | b
  · rfl
  · rfl
  · exact absurd found (empty b)

theorem looks_read (place : Nat) (t : NativeType) (offset : UInt64) : Looks (carryOut (.read place t offset)) := by
  refine (looks_handle place).bind fun b => (looks_engine fun s => ?_).bind fun slot => ?_
  · rw [Boxed.read?_eq]
    cases admitted : b.admits offset t.size with
    | true => rw [Boxed.readBytes?_admitted admitted]
    | false => rw [Boxed.readBytes?_refused admitted]
  · cases slot with
    | none => exact looks_throw _
    | some slot => exact (looks_engine fun _ => rfl).bind fun s => looks_pure _

theorem looks_same (place other : Nat) : Looks (carryOut (.same place other)) :=
  (looks_handle place).bind fun _ => (looks_handle other).bind fun _ => looks_pure _

theorem looks_sameLayout (place other : Nat) : Looks (carryOut (.sameLayout place other)) :=
  (looks_handle place).bind fun _ => (looks_handle other).bind fun _ => looks_pure _

end RowM

namespace Row

open RowM

theorem Change.of_looks {row : Row} {s : Engine} {step : HandleStep} (looks : Looks (carryOut step)) (idle : step.Idle row) :
    row.Change s step (carryOut step row s).1.2 (carryOut step row s).2 := by
  rw [(looks row s).1, (looks row s).2]
  exact .idle step idle

theorem change_carryOut (row : Row) (s : Engine) (step : HandleStep) :
    row.Change s step (carryOut step row s).1.2 (carryOut step row s).2 := by
  cases step with
  | create layout =>
      rw [carryOut_create, make?_eq]
      rcases made : EngineM.allocate layout.size s with ⟨_ | a, s₁⟩
      · rw [EngineM.allocate_none made]
        exact .blank _ trivial
      · exact .created layout a s₁ made
  | clone place =>
      rcases found : row[place]? with _ | _ | b
      · rw [carryOut_missing (Or.inl rfl) found]
        exact .idle _ found
      · rw [carryOut_clone found]
        exact .blank _ trivial
      · rw [carryOut_clone found]
        exact .cloned place b found
  | borrow place =>
      rcases found : row[place]? with _ | _ | b
      · rw [carryOut_missing (Or.inr (Or.inl rfl)) found]
        exact .idle _ found
      · rw [carryOut_borrow found]
        exact .blank _ trivial
      · rw [carryOut_borrow found]
        exact .borrowed place b found
  | drop place =>
      rcases found : row[place]? with _ | _ | b
      · rw [carryOut_missing (Or.inr (Or.inr rfl)) found]
        exact .idle _ fun b => by simp [found]
      · rw [carryOut_drop found]
        show row.Change s _ (row.set place none) s
        obtain ⟨inside, there⟩ := List.getElem?_eq_some_iff.mp found
        rw [← there, List.set_getElem_self inside]
        exact .idle _ fun b => by simp [found]
      · rw [carryOut_drop found]
        exact .dropped place b found
  | write place t offset slot =>
      by_cases held : ∃ b, row[place]? = some (some b)
      · obtain ⟨b, found⟩ := held
        rw [carryOut_write found]
        cases admitted : b.admits offset t.size with
        | true => exact .written place t offset slot b found admitted
        | false =>
            refine .idle _ fun c found' => ?_
            rw [found] at found'
            cases found'
            exact admitted
      · have empty : ∀ b, row[place]? ≠ some (some b) := fun b found => held ⟨b, found⟩
        rw [carryOut_write_empty empty]
        exact .idle _ fun b found => absurd found (empty b)
  | read place t offset => exact .of_looks (looks_read place t offset) trivial
  | same place other => exact .of_looks (looks_same place other) trivial
  | sameLayout place other => exact .of_looks (looks_sameLayout place other) trivial

end Row

/-! ## Every access -/

/-- The access is refused: no byte is read or changed, and whoever asks for the field is told that it is out of bounds. -/
structure Boxed.Refuses (b : Boxed) (offset : UInt64) (width : Nat) (s : Engine) : Prop where
  reads : b.readBytes? offset width s = (none, s)
  writes : ∀ field : List UInt8, field.length = width → b.writeBytes? offset field s = (false, s)
  told : ∀ (row : Row) place (t : NativeType), row[place]? = some (some b) → t.size = width →
    RowM.carryOut (.read place t offset) row s = ((.error .outOfBounds, row), s) ∧
      ∀ slot, RowM.carryOut (.write place t offset slot) row s = ((.error .outOfBounds, row), s)

/-- The access is to a field of the structure: just the bytes of the field are read, or replaced. -/
structure Boxed.Grants (b : Boxed) (offset : UInt64) (width : Nat) (s : Engine) : Prop where
  reads : b.readBytes? offset width s = (some (((b.bytes s.memory).drop offset.toNat).take width), s)
  writes : ∀ field : List UInt8, field.length = width → ∃ memory : Memory,
    b.writeBytes? offset field s = (true, { s with memory }) ∧
      b.bytes memory = (b.bytes s.memory).take offset.toNat ++ field ++ (b.bytes s.memory).drop (offset.toNat + width) ∧
      ∀ (x : UInt64) (n : Nat),
        x.toNat + n ≤ b.address.toNat + offset.toNat ∨ b.address.toNat + offset.toNat + width ≤ x.toNat →
          memory.read x n = s.memory.read x n

/-- An access whose end does not lead astray stays inside of the structure, whatever the size of the structure, the offset
and the width: it is to a field of the structure, or it is refused. -/
theorem grants_or_refuses (b : Boxed) (offset : UInt64) (width : Nat) (exact : ¬b.Astray offset width) (s : Engine) :
    (b.Contains offset width → b.LiesIn s.memory → b.Grants offset width s) ∧
      (¬b.Contains offset width → b.Refuses offset width s) := by
  refine ⟨fun inside lies => ⟨?_, fun field len => ?_⟩, fun outside => ?_⟩
  · rw [Boxed.readBytes?_admitted (Boxed.admits_of_contains inside), Boxed.read_field lies inside]
  · subst len
    refine ⟨_, Boxed.writeBytes?_admitted (Boxed.admits_of_contains inside) s, Boxed.bytes_write lies inside,
      fun x n beside => Memory.read_write_beside _ _ ?_⟩
    rwa [Boxed.toNat_field lies inside]
  · have refused : b.admits offset width = false := by
      rw [Bool.eq_false_iff, ne_eq, Boxed.admits_iff]
      exact not_or.mpr ⟨outside, exact⟩
    refine ⟨Boxed.readBytes?_refused refused s, fun field len => Boxed.writeBytes?_refused (by rwa [len]) s,
      fun row place t found len => ?_⟩
    subst len
    refine ⟨?_, fun slot => ?_⟩
    · rw [RowM.carryOut_read found, refused]
      rfl
    · rw [RowM.carryOut_write found, refused]
      rfl

/-- A point in a memory of its own. -/
def lonePoint : Boxed × Engine :=
  (⟨⟨"Geo", "Point", 8, 4⟩, UInt64.ofNat Memory.firstBlock, true⟩, (EngineM.allocate 8 .initial).2)

/-- An access whose end wraps around to a place behind the structure is refused, as is any other beside it; the last four
bytes of a new structure are zeros. -/
theorem grants_or_refuses_wrapping :
    lonePoint.1.Refuses 0xfffffffffffffff8 32 lonePoint.2 ∧
      lonePoint.1.readBytes? 4 4 lonePoint.2 = (some [0, 0, 0, 0], lonePoint.2) := by
  have lies : lonePoint.1.LiesIn lonePoint.2.memory :=
    ⟨⟨Memory.firstBlock, 8, .engine 0, #[]⟩, List.mem_singleton.mpr rfl, by decide, by decide⟩
  exact ⟨(grants_or_refuses lonePoint.1 _ 32 (by decide) lonePoint.2).2 (by decide),
    ((grants_or_refuses lonePoint.1 4 4 (by decide) lonePoint.2).1 (by decide) lies).reads⟩

end Ferry
