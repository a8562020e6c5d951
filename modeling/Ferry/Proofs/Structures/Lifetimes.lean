import Ferry.Proofs.Structures.Owners

/-!
# How long structures live

A structure lives exactly as long as a handle in the row owns it, in whatever order handles are made and dropped, and while
it lives every handle to it reads what was last written, through whichever handle. The first half is the invariant about
owners and the events that follow it. The second is that every block holds what the writes of the run so far left there
(`Memory.Recalls`), where what they left is told by the writes alone (`lastByte`).
-/

set_option autoImplicit false

namespace Ferry

/-! ## What was last written -/

/-- Bytes that were written into the structure at an address, from an offset on. -/
structure FieldWrite where
  address : UInt64
  offset : Nat
  bytes : List UInt8

/-- The byte that was last written at an offset into the structure at an address, zero if none was. Latest first. -/
def lastByte (a : UInt64) (i : Nat) : List FieldWrite → UInt8
  | [] => 0
  | w :: earlier =>
    if w.address = a ∧ w.offset ≤ i then w.bytes[i - w.offset]?.getD (lastByte a i earlier) else lastByte a i earlier

/-- The bytes that were last written over a range of the structure at an address. -/
def lastBytes (a : UInt64) (offset n : Nat) (writes : List FieldWrite) : List UInt8 :=
  (List.range n).map fun k => lastByte a (offset + k) writes

theorem lastBytes_self (w : FieldWrite) (writes : List FieldWrite) :
    lastBytes w.address w.offset w.bytes.length (w :: writes) = w.bytes := by
  refine List.ext_getElem (by simp [lastBytes]) fun k _ inside => ?_
  simp [lastBytes, lastByte, inside]

theorem lastBytes_beside {w : FieldWrite} {a : UInt64} {offset n : Nat} (writes : List FieldWrite)
    (beside : w.address ≠ a ∨ offset + n ≤ w.offset ∨ w.offset + w.bytes.length ≤ offset) :
    lastBytes a offset n (w :: writes) = lastBytes a offset n writes := by
  refine List.map_congr_left fun k hk => ?_
  have hk := List.mem_range.mp hk
  rw [lastByte]
  split
  · rename_i here
    have apart := beside.resolve_left fun other => other here.1
    rw [List.getElem?_eq_none (by omega), Option.getD_none]
  · rfl

theorem lastBytes_append {a : UInt64} {offset n : Nat} (newer writes : List FieldWrite)
    (beside : ∀ w ∈ newer, w.address ≠ a ∨ offset + n ≤ w.offset ∨ w.offset + w.bytes.length ≤ offset) :
    lastBytes a offset n (newer ++ writes) = lastBytes a offset n writes := by
  induction newer with
  | nil => rfl
  | cons w rest ih =>
      rw [List.cons_append, lastBytes_beside _ (beside w List.mem_cons_self)]
      exact ih fun v hv => beside v (List.mem_cons_of_mem w hv)

theorem lastByte_unwritten {a : UInt64} {writes : List FieldWrite} {i : Nat} (elsewhere : ∀ w ∈ writes, w.address ≠ a) :
    lastByte a i writes = 0 := by
  induction writes with
  | nil => rfl
  | cons w rest ih =>
      rw [lastByte, if_neg fun here => elsewhere w List.mem_cons_self here.1]
      exact ih fun v hv => elsewhere v (List.mem_cons_of_mem w hv)

/-- Every block holds what was last written there. -/
structure Memory.Recalls (m : Memory) (writes : List FieldWrite) : Prop where
  bytes : ∀ c ∈ m.chunks, ∀ i, c.byte i = lastByte c.address i writes
  known : ∀ w ∈ writes, w.address.toNat < m.frontier

def HandleStep.written (row : Row) : HandleStep → List FieldWrite
  | .write place t offset slot =>
    match row[place]? with
    | some (some b) => if b.Contains offset t.size then [⟨b.address, offset.toNat, slot.toBytes t⟩] else []
    | _ => []
  | _ => []

theorem HandleStep.written_write {row : Row} {place : Nat} {b : Boxed} {t : NativeType} {offset : UInt64} {slot : Slot}
    (found : row[place]? = some (some b)) (inside : b.Contains offset t.size) :
    HandleStep.written row (.write place t offset slot) = [⟨b.address, offset.toNat, slot.toBytes t⟩] := by
  simp only [HandleStep.written, found, if_pos inside]

theorem HandleStep.Idle.written {row : Row} {step : HandleStep} (idle : step.Idle row) : step.written row = [] := by
  cases step with
  | write place t offset slot =>
      simp only [HandleStep.written]
      split
      · rename_i b found
        refine if_neg fun inside => ?_
        have admitted := Boxed.admits_of_contains inside
        rw [idle b found] at admitted
        cases admitted
      · rfl
  | _ => rfl

theorem HandleStep.Adds.written {step : HandleStep} (adds : step.Adds) (row : Row) : step.written row = [] := by
  cases step with
  | write _ _ _ _ => cases adds
  | _ => rfl

namespace Memory.Recalls

variable {m m' : Memory} {writes : List FieldWrite}

theorem congr (recalls : m.Recalls writes) (chunks : ∀ c, c ∈ m'.chunks ↔ c ∈ m.chunks) (frontier : m'.frontier = m.frontier) :
    m'.Recalls writes :=
  ⟨fun c hc => recalls.bytes c ((chunks c).mp hc), fun w hw => by rw [frontier]; exact recalls.known w hw⟩

theorem created (recalls : m.Recalls writes) {size : Nat} {a : UInt64} (made : m.allocateEngine? size = some (a, m')) :
    m'.Recalls writes := by
  obtain ⟨base, -, -, next, -⟩ := allocateEngine?_some made
  obtain ⟨new, address, -, -, zeros, -, chunks⟩ := allocateEngine?_adds made
  have untouched : ∀ i, lastByte a i writes = 0 := fun i => lastByte_unwritten fun w hw here => by
    have := recalls.known w hw
    rw [here] at this
    omega
  refine ⟨fun c hc i => ?_, fun w hw => Nat.lt_trans (recalls.known w hw) next⟩
  rcases (chunks c).mp hc with rfl | old
  · rw [zeros, address, untouched]
  · exact recalls.bytes c old i

theorem written (recalls : m.Recalls writes) {c : Block} (hc : c ∈ m.chunks) {offset : UInt64} {bytes : List UInt8}
    (fits : offset.toNat + bytes.length ≤ c.capacity) :
    (m.write (c.address + offset) bytes).Recalls (⟨c.address, offset.toNat, bytes⟩ :: writes) := by
  have start := toNat_address hc
  have behind := chunk_end_le hc
  have room := m.frontier_lt
  have place : (c.address + offset).toNat = c.base + offset.toNat := by
    rw [UInt64.toNat_add, start]
    omega
  refine ⟨fun e he i => ?_, fun w hw => ?_⟩
  · rw [chunks_write_inside hc (by omega) (by omega), place, Nat.add_sub_cancel_left] at he
    obtain ⟨d, hd, rfl⟩ := List.mem_map.mp he
    have same : (d.rewrite c.base offset.toNat bytes).address = d.address := by simp [Block.address]
    rw [same, lastByte, ← recalls.bytes d hd]
    by_cases here : d.base = c.base
    · obtain rfl := eq_of_base hd hc here
      rw [rewrite_self, Block.byte_write _ _ fits]
      simp
    · have other : c.address ≠ d.address := fun same => here (congrArg Block.base (eq_of_address hd hc same.symm))
      rw [rewrite_of_ne _ here, if_neg fun both => other both.1]
  · rw [frontier_write]
    rcases List.mem_cons.mp hw with rfl | earlier
    · rw [start]
      exact base_lt_frontier hc
    · exact recalls.known w earlier

end Memory.Recalls

def HandleStep.Exact : HandleStep → Prop
  | .write _ t offset _ => offset.toNat + t.size < 2 ^ 64
  | _ => True

instance (step : HandleStep) : Decidable step.Exact := by
  cases step <;> unfold HandleStep.Exact <;> infer_instance

theorem Row.Change.recalls {row row' : Row} {s s' : Engine} {step : HandleStep} {writes : List FieldWrite}
    (changed : row.Change s step row' s') (h : row.Owns s) (exact : step.Exact) (recalls : s.memory.Recalls writes) :
    s'.memory.Recalls (step.written row ++ writes) := by
  cases changed with
  | idle _ idle => rwa [idle.written]
  | blank _ adds => rwa [adds.written]
  | created layout a s₁ made =>
      obtain ⟨memory, allocated, rfl⟩ := EngineM.allocate_some made
      exact recalls.created allocated
  | cloned place b found =>
      have same : ((Value.boxed b).retain s).2.memory = s.memory := by
        simp only [Value.retain]
        split <;> rfl
      rwa [same]
  | borrowed place b found => exact recalls
  | dropped place b found =>
      rcases h.release_cases found with ⟨-, same⟩ | ⟨-, -, counters, label, same⟩ | ⟨-, n, -, same⟩
      · rwa [same]
      · rw [same]
        exact recalls.congr (fun _ => Memory.mem_chunks_release) rfl
      · rwa [same]
  | written place t offset slot b found admitted =>
      have inside : b.Contains offset t.size := (Boxed.admits_iff.mp admitted).resolve_right (Boxed.not_astray_of_lt exact)
      obtain ⟨c, hc, address, size⟩ := h.placed b (List.mem_of_getElem? found)
      have capacity := c.size_le_capacity
      have fits : offset.toNat + (slot.toBytes t).length ≤ c.capacity := by
        rw [Slot.length_toBytes]
        unfold Boxed.Contains at inside
        omega
      rw [HandleStep.written_write found inside, ← address]
      exact recalls.written hc fits

/-! ## Runs -/

/-- Where a run has come to: the row, the engine, what the steps answered so far, and what they wrote, latest first. -/
structure RowHistory where
  row : Row
  engine : Engine
  answers : List (Except HandleError HandleReply × Observation)
  writes : List FieldWrite

namespace RowHistory

def start : RowHistory := ⟨[], .initial, [], []⟩

def answer (c : RowHistory) (step : HandleStep) : Except HandleError HandleReply × Observation :=
  (((Row.advance step).run c.row).run c.engine).1.1

def next (c : RowHistory) (step : HandleStep) : RowHistory where
  row := (((Row.advance step).run c.row).run c.engine).1.2
  engine := (((Row.advance step).run c.row).run c.engine).2
  answers := c.answers ++ [c.answer step]
  writes := step.written c.row ++ c.writes

def of (steps : List HandleStep) : RowHistory :=
  steps.foldl next start

def events (c : RowHistory) : List Event :=
  c.answers.flatMap (·.2.events)

/-- What the structure at an address holds in a range, by what was last written there. -/
def field (c : RowHistory) (a : UInt64) (offset n : Nat) : List UInt8 :=
  lastBytes a offset n c.writes

variable {c : RowHistory} {step : HandleStep}

theorem answer_eq (c : RowHistory) (step : HandleStep) :
    c.answer step = ((RowM.carryOut step c.row c.engine.withoutEvents).1.1,
      c.engine.withoutEvents.observation (RowM.carryOut step c.row c.engine.withoutEvents).2) := rfl

theorem next_row (c : RowHistory) (step : HandleStep) :
    (c.next step).row = (RowM.carryOut step c.row c.engine.withoutEvents).1.2 := rfl

theorem events_next (c : RowHistory) (step : HandleStep) :
    (c.next step).events = c.events ++ (RowM.carryOut step c.row c.engine.withoutEvents).2.events.reverse := by
  simp only [events, next, List.flatMap_append, List.flatMap_cons, List.flatMap_nil, List.append_nil]
  rfl

theorem answers_foldl (steps : List HandleStep) (c : RowHistory) :
    (steps.foldl next c).answers = c.answers ++ (((Row.runSteps steps).run c.row).run c.engine).1.1 := by
  induction steps generalizing c with
  | nil => exact (List.append_nil _).symm
  | cons step rest ih =>
      rw [List.foldl_cons, ih]
      show c.answers ++ [c.answer step] ++ _ = c.answers ++ (c.answer step :: _)
      rw [List.append_assoc]
      rfl

theorem run_eq (steps : List HandleStep) : Row.run steps = (of steps).answers :=
  (answers_foldl steps start).symm

theorem of_append (steps : List HandleStep) (step : HandleStep) : of (steps ++ [step]) = (of steps).next step := by
  rw [of, List.foldl_append]
  rfl

/-- What every step keeps. -/
structure Sound (c : RowHistory) : Prop where
  owns : c.row.Owns c.engine
  accounts : c.engine.Accounts c.events
  recalls : c.engine.memory.Recalls c.writes

theorem sound_start : start.Sound := by
  have unmade : ∀ a, ¬start.engine.memory.Made a := by simp [start, Engine.initial, Engine.on, Memory.empty, Memory.Made, Memory.chunks]
  have dead : ∀ a, ¬start.engine.memory.Live a := fun a alive => unmade a alive.made
  constructor
  · refine ⟨fun b member => absurd member List.not_mem_nil, fun _ => rfl, fun a => ?_⟩
    exact iff_of_false (dead a) fun owned => owned rfl
  · refine ⟨fun a => ?_, fun a => ?_⟩
    · rw [if_neg (unmade a)]
      rfl
    · rw [if_neg fun both => unmade a both.1]
      rfl
  · exact ⟨fun c hc => absurd ⟨c, hc, rfl⟩ (unmade c.address), fun w listed => absurd listed List.not_mem_nil⟩

theorem Sound.next (h : c.Sound) (exact : step.Exact) : (c.next step).Sound := by
  have owns : c.row.Owns c.engine.withoutEvents := ⟨h.owns.placed, h.owns.counted, h.owns.live⟩
  have changed := Row.change_carryOut c.row c.engine.withoutEvents step
  obtain ⟨t, told, -⟩ := changed.told owns
  have after := owns.change changed
  refine ⟨⟨after.placed, after.counted, after.live⟩, ?_, changed.recalls owns exact h.recalls⟩
  have events : (RowM.carryOut step c.row c.engine.withoutEvents).2.events = t := by
    rw [told.events]
    exact List.append_nil t
  have accounts : c.engine.withoutEvents.Accounts c.events := ⟨h.accounts.made, h.accounts.lost⟩
  rw [events_next, events]
  exact ⟨(accounts.next told).made, (accounts.next told).lost⟩

theorem Sound.foldl {steps : List HandleStep} (h : c.Sound) (exact : ∀ step ∈ steps, step.Exact) :
    (steps.foldl RowHistory.next c).Sound := by
  induction steps generalizing c with
  | nil => exact h
  | cons step rest ih =>
      exact ih (h.next (exact step List.mem_cons_self)) fun x hx => exact x (List.mem_cons_of_mem step hx)

theorem Sound.mem_gains_iff (h : c.Sound) (a : UInt64) : .block a ∈ gains c.events ↔ c.engine.memory.Made a := by
  rw [← List.count_pos_iff, h.accounts.made]
  split <;> simp [*]

theorem Sound.read_eq (h : c.Sound) {b : Boxed} {offset : UInt64} {n : Nat} (member : some b ∈ c.row)
    (inside : b.Contains offset n) : c.engine.memory.read (b.address + offset) n = c.field b.address offset.toNat n := by
  obtain ⟨chunk, hc, address, size⟩ := h.owns.placed b member
  have start := Memory.toNat_address hc
  have behind := Memory.chunk_end_le hc
  have room := c.engine.memory.frontier_lt
  have capacity := chunk.size_le_capacity
  unfold Boxed.Contains at inside
  have place : (b.address + offset).toNat = chunk.base + offset.toNat := by
    rw [← address, UInt64.toNat_add, start]
    omega
  rw [Memory.read_inside hc (by omega) (by omega), place, Nat.add_sub_cancel_left, ← address]
  exact List.map_congr_left fun k _ => h.recalls.bytes chunk hc _

/-- What a run keeps to, wherever it has come to. -/
structure Keeps (c : RowHistory) : Prop where
  creates : ∀ layout,
    (c.engine.memory.allocateEngine? layout.size = none ∧ (c.next (.create layout)).row = c.row ++ [none]) ∨
      ∃ a, gains (c.answer (.create layout)).2.events = [.block a] ∧ .block a ∉ gains c.events ∧
        (c.next (.create layout)).row = c.row ++ [some ⟨layout, a, true⟩]
  clones : ∀ place b, c.row[place]? = some (some b) → (c.next (.clone place)).row = c.row ++ [some b]
  borrows : ∀ place b, c.row[place]? = some (some b) →
    (c.next (.borrow place)).row = c.row ++ [some { b with owned := false }]
  drops : ∀ place b, c.row[place]? = some (some b) → (c.next (.drop place)).row = c.row.set place none
  once : ∀ a, (gains c.events).count (.block a) ≤ 1
  released : ∀ a, (losses c.events).count (.block a) =
    if .block a ∈ gains c.events ∧ c.row.owning a = 0 then 1 else 0
  live : ∀ a, c.engine.memory.Live a ↔ 0 < c.row.owning a
  abandons : ∀ step : HandleStep, losses (c.answer step).2.events = step.abandons c.row
  same : ∀ place other b d, c.row[place]? = some (some b) → c.row[other]? = some (some d) →
    (c.answer (.same place other)).1 = .ok (.truth (decide (b.address = d.address)))
  reads : ∀ place b t offset, c.row[place]? = some (some b) → c.engine.memory.Live b.address → b.Contains offset t.size →
    (c.answer (.read place t offset)).1 =
      .ok (.field (c.engine.viewNative t (Slot.ofBytes (c.field b.address offset.toNat t.size))))
  writes : ∀ place b t offset slot, c.row[place]? = some (some b) → b.Contains offset t.size →
    (c.answer (.write place t offset slot)).1.isOk = true ∧
      (c.next (.write place t offset slot)).field b.address offset.toNat t.size = slot.toBytes t
  beside : ∀ (step : HandleStep) a offset n,
    (∀ w ∈ step.written c.row, w.address ≠ a ∨ offset + n ≤ w.offset ∨ w.offset + w.bytes.length ≤ offset) →
      (c.next step).field a offset n = c.field a offset n
  unwritten : ∀ a offset n,
    (∀ w ∈ c.writes, w.address ≠ a ∨ offset + n ≤ w.offset ∨ w.offset + w.bytes.length ≤ offset) →
      c.field a offset n = List.replicate n 0
  words : ∀ b, some b ∈ c.row → b.layout.size < 2 ^ 64

theorem Sound.creates (h : c.Sound) (layout : Layout) :
    (c.engine.memory.allocateEngine? layout.size = none ∧ (c.next (.create layout)).row = c.row ++ [none]) ∨
      ∃ a, gains (c.answer (.create layout)).2.events = [.block a] ∧ .block a ∉ gains c.events ∧
        (c.next (.create layout)).row = c.row ++ [some ⟨layout, a, true⟩] := by
  rw [answer_eq, next_row, RowM.carryOut_create, RowM.make?_eq]
  rcases made : EngineM.allocate layout.size c.engine.withoutEvents with ⟨_ | a, s₁⟩
  · refine Or.inl ⟨?_, rfl⟩
    rw [EngineM.allocate_eq] at made
    cases full : c.engine.memory.allocateEngine? layout.size with
    | none => rfl
    | some p =>
        rw [show c.engine.withoutEvents.memory = c.engine.memory from rfl, full] at made
        cases made
  · obtain ⟨e, gained, -, told⟩ := Engine.Told.created made
    have events : (EngineM.own a s₁).2.events = [e] := told.events
    refine Or.inr ⟨a, ?_, fun before => ?_, rfl⟩
    · show gains (EngineM.own a s₁).2.events.reverse = _
      rw [events]
      exact gained
    · have fresh := told.gained a
      rw [gained, if_neg fun both => both.2 ((h.mem_gains_iff a).mp before)] at fresh
      simp at fresh

theorem Sound.keeps (h : c.Sound) : c.Keeps where
  creates := h.creates
  clones place b found := by
    rw [next_row, RowM.carryOut_clone found]
    rfl
  borrows place b found := by
    rw [next_row, RowM.carryOut_borrow found]
    rfl
  drops place b found := by
    rw [next_row, RowM.carryOut_drop found]
    rfl
  once a := by
    rw [h.accounts.made]
    split <;> omega
  released a := by
    have unowned : ¬c.engine.memory.Live a ↔ c.row.owning a = 0 := by
      rw [h.owns.live, not_not]
    simp only [h.accounts.lost, h.mem_gains_iff, unowned]
  live a := by
    rw [h.owns.live]
    omega
  abandons step := by
    have owns : c.row.Owns c.engine.withoutEvents := ⟨h.owns.placed, h.owns.counted, h.owns.live⟩
    obtain ⟨t, told, lost⟩ := (Row.change_carryOut c.row c.engine.withoutEvents step).told owns
    have events : (c.answer step).2.events = t.reverse := by
      rw [answer_eq]
      simp only [Engine.observation, told.events]
      rw [show c.engine.withoutEvents.events = [] from rfl, List.append_nil]
    have reversed : losses t.reverse = (losses t).reverse := List.filterMap_reverse
    rw [events, reversed, lost, HandleStep.abandons_reverse]
  same place other b d found found' := by
    rw [answer_eq, RowM.carryOut_same found found']
    rfl
  reads place b t offset found alive inside := by
    rw [answer_eq, RowM.carryOut_read found, if_pos (Boxed.admits_of_contains inside),
      ← h.read_eq (List.mem_of_getElem? found) inside]
    rfl
  writes place b t offset slot found inside := by
    refine ⟨?_, ?_⟩
    · rw [answer_eq, RowM.carryOut_write found, if_pos (Boxed.admits_of_contains inside)]
      rfl
    · have last := lastBytes_self ⟨b.address, offset.toNat, slot.toBytes t⟩ c.writes
      rw [Slot.length_toBytes] at last
      rw [field, RowHistory.next, HandleStep.written_write found inside]
      exact last
  beside step a offset n apart := lastBytes_append (step.written c.row) c.writes apart
  unwritten a offset n apart := by
    have first := lastBytes_append c.writes [] apart
    rw [List.append_nil] at first
    rw [field, first]
    exact List.eq_replicate_iff.mpr ⟨by simp [lastBytes], by simp [lastBytes, lastByte]⟩
  words b member := by
    obtain ⟨chunk, hc, -, size⟩ := h.owns.placed b member
    have := Memory.chunk_end_le hc
    have := c.engine.memory.frontier_lt
    have := chunk.size_le_capacity
    omega

end RowHistory

/-- A structure lives as long as a handle in the row owns it, and is released once, when the last owner is dropped; as long
as it lives, its fields read as what was last written there, through whichever handle. -/
theorem structures_of_run (steps : List HandleStep) (exact : ∀ step ∈ steps, step.Exact) :
    Row.run steps = (RowHistory.of steps).answers ∧
      (∀ step, Row.run (steps ++ [step]) = Row.run steps ++ [(RowHistory.of steps).answer step]) ∧ (RowHistory.of steps).Keeps := by
  refine ⟨RowHistory.run_eq steps, fun step => ?_, (RowHistory.sound_start.foldl exact).keeps⟩
  rw [RowHistory.run_eq, RowHistory.run_eq, RowHistory.of_append]
  rfl

/-- A point is written through a handle that borrows it, and then cloned; the first owner goes. -/
def passingOn : List HandleStep :=
  [.create ⟨"Geo", "Point", 8, 4⟩, .borrow 0, .write 0 .i32 0 (.ofNat 0x01020304), .write 1 .i16 2 (.ofNat 0x0a0b), .clone 0,
    .drop 0]

theorem structures_of_run_passing_on :
    let c := RowHistory.of passingOn
    (c.answer (.read 2 .i32 0)).1 = .ok (.field (.integer 0x0a0b0304)) ∧
      (c.answer (.same 1 2)).1 = .ok (.truth true) ∧ losses (c.answer (.drop 1)).2.events = [] ∧
      losses (c.answer (.drop 2)).2.events = [.block (UInt64.ofNat Memory.firstBlock)] := by
  intro c
  obtain ⟨-, -, keeps⟩ := structures_of_run passingOn (by decide)
  have lent : c.row[1]? = some (some ⟨⟨"Geo", "Point", 8, 4⟩, UInt64.ofNat Memory.firstBlock, false⟩) := rfl
  have owner : c.row[2]? = some (some ⟨⟨"Geo", "Point", 8, 4⟩, UInt64.ofNat Memory.firstBlock, true⟩) := rfl
  have alive : c.engine.memory.Live (UInt64.ofNat Memory.firstBlock) := (keeps.live _).mpr (by decide)
  refine ⟨(keeps.reads 2 _ .i32 0 owner alive (by decide)).trans ?_, (keeps.same 1 2 _ _ lent owner).trans ?_,
    (keeps.abandons (.drop 1)).trans ?_, (keeps.abandons (.drop 2)).trans ?_⟩
  · rfl
  · rfl
  · rfl
  · rfl

end Ferry
