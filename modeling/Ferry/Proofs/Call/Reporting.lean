import Ferry.Proofs.Call.ArrayLengths
import Ferry.Proofs.Call.Withholding

/-!
# Failures that native code reports

A report is a record and a text, in a block each. When native code leaves one, the call fails with what it says and no
output is converted; the blocks are released when the report is taken, and the end of the call leaves them alone unless
native code has handed them over as outputs too. Native code that leaves no report never makes a call fail in this way. The
main result is `reported_of_execute`.
-/

set_option autoImplicit false

namespace Ferry

variable {World : Type} {host : Host World}

def InvokeError.isReported : InvokeError → Bool
  | .nativeReported _ => true
  | _ => false

/-! ## Making a report -/

/-- The block is a record with this domain and code, for the text at this address. -/
structure Block.IsRecord (b : Block) (domain : UInt32) (code : Int32) (message : UInt64) : Prop where
  room : 16 ≤ b.capacity
  first : b.slice 0 4 = (Slot.ofNat domain.toNat).toBytes .u32
  second : b.slice 4 4 = (Slot.ofInt code.toInt).toBytes .i32
  third : b.slice 8 8 = (Slot.ofAddress message).toBytes .pointer

/-- The block holds this text, with a zero byte behind it. -/
structure Block.IsText (b : Block) (text : List UInt8) : Prop where
  room : text.length < b.capacity
  written : b.slice 0 text.length = text
  ended : b.byte text.length = 0
  nonzero : ∀ byte ∈ text, byte ≠ 0

/-- A report was made from the one state to the other: there was room for the record and for the text. -/
structure MadeReport (domain : UInt32) (code : Int32) (text : List UInt8) (message record : UInt64) (s s' : Engine) :
    Prop where
  run : EngineM.makeFailure domain code text s = (record, s')
  refers : (s'.memory.load .pointer (record + 8)).address = message
  room : record ≠ 0 ∧ message ≠ 0

/-- A report that lies in memory: two blocks of their own, alive. -/
structure Memory.HoldsReport (m : Memory) (domain : UInt32) (code : Int32) (text : List UInt8)
    (message record : UInt64) : Prop where
  recorded : ∃ b ∈ m.blocks, b.address = record ∧ b.IsRecord domain code message
  spelled : ∃ c ∈ m.blocks, c.address = message ∧ c.IsText text
  apart : message ≠ record

namespace Memory

variable {m : Memory} {b : Block} {o : Nat}

theorem write_live (hb : b ∈ m.blocks) (inside : o < b.capacity) (bytes : List UInt8) :
    b.write o bytes ∈ (m.write (b.address + UInt64.ofNat o) bytes).blocks ∧
      m.Evolves [b.address] (m.write (b.address + UInt64.ofNat o) bytes) := by
  refine ⟨?_, write_address_evolves hb inside bytes⟩
  rw [write_address_add (mem_chunks_of_live hb) inside]
  exact List.mem_map.mpr ⟨b, hb, rewrite_self o⟩

end Memory

@[simp] theorem Block.address_write (b : Block) (o : Nat) (bytes : List UInt8) : (b.write o bytes).address = b.address := by
  simp [Block.address]

theorem Block.isRecord_write (b : Block) (room : 16 ≤ b.capacity) (domain : UInt32) (code : Int32) (message : UInt64) :
    (((b.write 0 ((Slot.ofNat domain.toNat).toBytes .u32)).write 4 ((Slot.ofInt code.toInt).toBytes .i32)).write 8
      ((Slot.ofAddress message).toBytes .pointer)).IsRecord domain code message := by
  have four : ((Slot.ofNat domain.toNat).toBytes .u32).length = 4 := Slot.length_toBytes .u32 _
  have next : ((Slot.ofInt code.toInt).toBytes .i32).length = 4 := Slot.length_toBytes .i32 _
  have word : ((Slot.ofAddress message).toBytes .pointer).length = 8 := Slot.length_toBytes .pointer _
  refine ⟨by simpa using room, ?_, ?_, ?_⟩
  · rw [slice_write_apart 8 _ (by simp only [capacity_write]; omega) (by omega),
      slice_write_apart 4 _ (by simp only [capacity_write]; omega) (by omega)]
    have whole := slice_write_self (b := b) 0 ((Slot.ofNat domain.toNat).toBytes .u32) (by omega)
    rwa [four] at whole
  · rw [slice_write_apart 8 _ (by simp only [capacity_write]; omega) (by omega)]
    have whole := slice_write_self (b := b.write 0 ((Slot.ofNat domain.toNat).toBytes .u32)) 4
      ((Slot.ofInt code.toInt).toBytes .i32) (by simp only [capacity_write]; omega)
    rwa [next] at whole
  · have whole := slice_write_self (b := (b.write 0 ((Slot.ofNat domain.toNat).toBytes .u32)).write 4
      ((Slot.ofInt code.toInt).toBytes .i32)) 8 ((Slot.ofAddress message).toBytes .pointer)
      (by simp only [capacity_write]; omega)
    rwa [word] at whole

theorem Block.isText_write {b : Block} {text : List UInt8} (fresh : b.stored = #[]) (room : text.length < b.capacity)
    (nonzero : ∀ byte ∈ text, byte ≠ 0) : (b.write 0 text).IsText text := by
  refine ⟨by simpa using room, slice_write_self 0 text (by omega), ?_, nonzero⟩
  rw [byte_write 0 text (by omega), if_pos (Nat.zero_le _)]
  simp [Block.byte, fresh]

/-- The memory in which a record is filled in: its domain, its code and where its text is. -/
def Memory.withRecord (m : Memory) (record : UInt64) (domain : UInt32) (code : Int32) (message : UInt64) : Memory :=
  ((m.store .u32 record (.ofNat domain.toNat)).store .i32 (record + 4) (.ofInt code.toInt)).store .pointer (record + 8)
    (.ofAddress message)

/-- The three stores lie in the block one behind the other, so that each leaves what the ones before it wrote. -/
theorem Memory.withRecord_live {m : Memory} {b : Block} (hb : b ∈ m.blocks) (room : 16 ≤ b.capacity) (domain : UInt32)
    (code : Int32) (message : UInt64) :
    (∃ b' ∈ (m.withRecord b.address domain code message).blocks, b'.address = b.address ∧
      b'.IsRecord domain code message) ∧
    m.Evolves [b.address] (m.withRecord b.address domain code message) := by
  obtain ⟨hb₁, forward₁⟩ := write_live hb (o := 0) (by omega) ((Slot.ofNat domain.toNat).toBytes .u32)
  obtain ⟨hb₂, forward₂⟩ := write_live hb₁ (o := 4) (by simp only [Block.capacity_write]; omega)
    ((Slot.ofInt code.toInt).toBytes .i32)
  obtain ⟨hb₃, forward₃⟩ := write_live hb₂ (o := 8) (by simp only [Block.capacity_write]; omega)
    ((Slot.ofAddress message).toBytes .pointer)
  have start : b.address + UInt64.ofNat 0 = b.address := by simp
  simp only [Block.address_write, start] at hb₁ hb₂ hb₃ forward₁ forward₂ forward₃
  exact ⟨⟨_, hb₃, by simp, b.isRecord_write room domain code message⟩, (forward₁.trans forward₂).trans forward₃⟩

theorem Memory.load_message {m : Memory} {b : Block} {domain : UInt32} {code : Int32} {message : UInt64}
    (hb : b ∈ m.blocks) (isRecord : b.IsRecord domain code message) :
    m.load .pointer (b.address + 8) = .ofAddress message := by
  have room := isRecord.room
  have third := load_address_add (mem_chunks_of_live hb) (o := 8) (by omega) .pointer
  rwa [show NativeType.pointer.size = 8 from rfl, isRecord.third, Slot.ofBytes_toBytes_word rfl] at third

section Making

variable {domain : UInt32} {code : Int32} {text : List UInt8} {message record : UInt64} {s s' : Engine}

theorem MadeReport.fresh (made : MadeReport domain code text message record s s') :
    s'.memory.HoldsReport domain code (text.takeWhile (· != 0)) message record ∧
      ∀ a ∈ [message, record], s.memory.frontier ≤ a.toNat := by
  obtain ⟨run, refers, present, told⟩ := made
  unfold EngineM.makeFailure at run
  simp only [EngineM.run_bind] at run
  have nonzero : ∀ byte ∈ text.takeWhile (· != 0), byte ≠ 0 := fun byte within => by
    simpa using List.mem_takeWhile_imp within
  generalize text.takeWhile (· != 0) = text at run nonzero ⊢
  have textMade := @Frame.reserve_made s (text.length + 1)
  obtain ⟨early, -, -⟩ := Frame.reserve_spec (text.length + 1) s
  rcases first : EngineM.reserve (text.length + 1) s with ⟨place, s₁⟩
  rw [first] at run textMade early
  have written : EngineM.writeBytes place text s₁ = ((), { s₁ with memory := s₁.memory.write place text }) := rfl
  rw [written] at run
  simp only at run textMade
  have recordMade := @Frame.reserve_made { s₁ with memory := s₁.memory.write place text } EngineM.failureRecordSize
  obtain ⟨forward, -, -⟩ := Frame.reserve_spec EngineM.failureRecordSize { s₁ with memory := s₁.memory.write place text }
  rcases second : EngineM.reserve EngineM.failureRecordSize { s₁ with memory := s₁.memory.write place text }
    with ⟨record', s₂⟩
  rw [second] at run recordMade forward
  have ends : ((record', { s₂ with memory := s₂.memory.withRecord record' domain code place }) : UInt64 × Engine) =
    (record, s') := run
  cases ends
  obtain ⟨b, hb, rfl, base, size, -⟩ := recordMade present
  have room : 16 ≤ b.capacity := by
    have := b.size_le_capacity
    simp only [EngineM.failureRecordSize] at size
    omega
  obtain ⟨⟨b', hb', address, isRecord⟩, filled⟩ := Memory.withRecord_live hb room domain code place
  have same : place = message := by
    have word := Memory.load_message hb' isRecord
    rw [address] at word
    exact (congrArg Slot.address word).symm.trans refers
  subst same
  obtain ⟨c, hc, rfl, base', size', fresh⟩ := textMade told
  have fits : text.length < c.capacity := by
    have := c.size_le_capacity
    omega
  obtain ⟨hc₁, -⟩ := Memory.write_live hc (o := 0) (by omega) text
  have start' : c.address + UInt64.ofNat 0 = c.address := by simp
  rw [start'] at hc₁
  have apart : c.address ≠ b.address := by
    intro same
    have low := Memory.base_lt_frontier (Memory.mem_chunks_of_live hc₁)
    have below := Memory.toNat_address (Memory.mem_chunks_of_live hc)
    have above := Memory.toNat_address (Memory.mem_chunks_of_live hb)
    rw [Block.base_write] at low
    simp only at base
    rw [same] at below
    omega
  refine ⟨⟨⟨b', hb', address, isRecord⟩, ⟨c.write 0 text, ?_, by simp, Block.isText_write fresh fits nonzero⟩, apart⟩, ?_⟩
  · have out : (c.write 0 text).address ∉ [b.address] := by simpa using apart
    exact filled.mem (forward.mem hc₁ (by simp)) out
  · have later : s.memory.frontier ≤ s₁.memory.frontier := early.frontier_le
    have low := Memory.toNat_address (Memory.mem_chunks_of_live hc)
    have high := Memory.toNat_address (Memory.mem_chunks_of_live hb)
    simp only [Memory.frontier_write] at base
    simp only [List.mem_cons, List.not_mem_nil, or_false, forall_eq_or_imp, forall_eq]
    omega

theorem MadeReport.holds (made : MadeReport domain code text message record s s') :
    s'.memory.HoldsReport domain code (text.takeWhile (· != 0)) message record :=
  made.fresh.1

end Making

/-! ## Taking a report -/

def Engine.taken (s : Engine) (place message record : UInt64) : Engine :=
  { s with memory := ((s.memory.release message).release record).store .pointer place .zero }

namespace Memory.HoldsReport

variable {m : Memory} {domain : UInt32} {code : Int32} {text : List UInt8} {message record : UInt64}

theorem congr {m' : Memory} (h : m.HoldsReport domain code text message record)
    (kept : ∀ b ∈ m.blocks, b.address = message ∨ b.address = record → b ∈ m'.blocks) :
    m'.HoldsReport domain code text message record := by
  obtain ⟨⟨b, hb, address, isRecord⟩, ⟨c, hc, address', isText⟩, apart⟩ := h
  exact ⟨⟨b, kept b hb (Or.inr address), address, isRecord⟩, ⟨c, kept c hc (Or.inl address'), address', isText⟩, apart⟩

theorem live (h : m.HoldsReport domain code text message record) : m.Live message ∧ m.Live record := by
  obtain ⟨⟨b, hb, address, -⟩, ⟨c, hc, address', -⟩, -⟩ := h
  exact ⟨⟨c, hc, address'⟩, ⟨b, hb, address⟩⟩

theorem loads (h : m.HoldsReport domain code text message record) :
    (m.load .u32 record).payload .u32 = domain.toNat ∧ (m.load .i32 (record + 4)).integer .i32 = code.toInt ∧
      m.load .pointer (record + 8) = .ofAddress message := by
  obtain ⟨⟨b, hb, rfl, isRecord⟩, -, -⟩ := h
  have room := isRecord.room
  have chunk := Memory.mem_chunks_of_live hb
  have first := Memory.load_address_add chunk (o := 0) (by omega) .u32
  have second := Memory.load_address_add chunk (o := 4) (by omega) .i32
  have start : b.address + UInt64.ofNat 0 = b.address := by simp
  rw [start, show NativeType.u32.size = 4 from rfl, isRecord.first, Slot.ofBytes_toBytes] at first
  rw [show NativeType.i32.size = 4 from rfl, isRecord.second, Slot.ofBytes_toBytes] at second
  refine ⟨?_, ?_, Memory.load_message hb isRecord⟩
  · have low := domain.toNat_lt
    rw [first, Slot.payload_ofNat_payload]
    show (UInt64.ofNat domain.toNat).toNat % 4294967296 = domain.toNat
    rw [UInt64.toNat_ofNat']
    omega
  · have held : NativeType.i32.holds code.toInt = true := by
      have low := code.le_toInt
      have high := code.toInt_lt
      simp only [NativeType.holds, NativeType.range?, Bool.and_eq_true, decide_eq_true_eq]
      omega
    have word : b.address + 4 = b.address + UInt64.ofNat 4 := rfl
    rw [word, second, Slot.integer_congr (Slot.payload_ofNat_payload _ .i32), Slot.integer_ofInt held]

theorem text_eq (h : m.HoldsReport domain code text message record) : m.text message = text := by
  obtain ⟨-, ⟨c, hc, rfl, isText⟩, -⟩ := h
  exact text_of_block (Memory.mem_chunks_of_live hc) isText.room isText.nonzero isText.written isText.ended

end Memory.HoldsReport

theorem MadeReport.between {domain : UInt32} {code : Int32} {text : List UInt8} {message record : UInt64} {t t' : Engine}
    (made : MadeReport domain code text message record t t') :
    ∀ a ∈ [message, record], Between t.memory.frontier t'.memory.frontier a := by
  obtain ⟨held, late⟩ := made.fresh
  have alive := held.live
  refine fun a listed => ⟨late a listed, ?_⟩
  rcases List.mem_cons.mp listed with rfl | listed
  · exact alive.1.toNat_lt
  · rw [List.mem_singleton.mp listed]
    exact alive.2.toNat_lt

theorem takeFailure_taken {s : Engine} {domain : UInt32} {code : Int32} {text : List UInt8} {message record : UInt64}
    (h : s.memory.HoldsReport domain code text message record) :
    EngineM.takeFailure record s = (⟨domain, code, Utf8.read text⟩,
      { s with memory := (s.memory.release message).release record }) := by
  obtain ⟨first, second, third⟩ := h.loads
  have present : record ≠ 0 := h.live.2.ne_zero
  have steps : EngineM.takeFailure record s = (⟨UInt32.ofNat ((s.memory.load .u32 record).payload .u32),
      Int32.ofInt ((s.memory.load .i32 (record + 4)).integer .i32),
      Utf8.read (s.memory.text (s.memory.load .pointer (record + 8)).address)⟩,
      (EngineM.freeFailure record s).2) := rfl
  have freed : (EngineM.freeFailure record s).2 = { s with
      memory := (s.memory.release (s.memory.load .pointer (record + 8)).address).release record } := by
    unfold EngineM.freeFailure
    rw [if_neg present]
    rfl
  have refers : (Slot.ofAddress message).address = message := rfl
  rw [steps, freed, first, second, third, refers, h.text_eq, UInt32.ofNat_toNat, Int32.ofInt_toInt]

namespace Frame

variable {f g : Frame} {s s' : Engine} {q : Parameter}

theorem collect_taken {domain : UInt32} {code : Int32} {text : List UInt8} {message record : UInt64}
    (h : s.memory.HoldsReport domain code text message record)
    (left : s.memory.load .pointer g.failure = .ofAddress record) :
    g.run FrameM.collect s =
      ((.error (.error (.nativeReported ⟨domain, code, Utf8.read text⟩)), g), s.taken g.failure message record) := by
  have present : (Slot.ofAddress record).isNull = false := by
    simpa [Slot.isNull, Slot.ofAddress] using h.live.2.ne_zero
  have taken : g.run FrameM.takeFailure s =
      ((.ok (some ⟨domain, code, Utf8.read text⟩), g), s.taken g.failure message record) := by
    unfold FrameM.takeFailure
    rw [run_bind, run_get]
    simp only
    rw [run_lift_bind]
    have loaded : EngineM.load .pointer g.failure s = (.ofAddress record, s) := Prod.ext left rfl
    rw [loaded]
    simp only [present, Bool.false_eq_true, if_false]
    rw [run_lift_bind]
    have said := takeFailure_taken h
    rw [show (Slot.ofAddress record).address = record from rfl, said]
    rfl
  unfold FrameM.collect
  rw [run_bind, taken]
  rfl

/-! ## Collecting outputs reports nothing -/

/-- However the action ends, it does not report a failure of native code. -/
def Unreporting {α : Type} (act : FrameM α) : Prop :=
  Mirrored id (fun _ => True) (·.any (·.isReported) = false) act act

section Unreporting

variable {α : Type}

theorem unreporting_update (i : Nat) (change : Binding → Binding) : Unreporting (FrameM.update i change) :=
  Mirrored.modify (fun _ _ => rfl) fun _ _ => trivial

theorem unreporting_result (context : String) (act : MarshalM α) :
    Unreporting (FrameM.convert (.ofResult context) act) :=
  Mirrored.convert fun _ c _ _ => show (InvokeFailure.ofResult context c).any (·.isReported) = false from rfl

theorem unreporting_collectReturn : Unreporting FrameM.collectReturn := by
  refine .get_bind fun f _ => ?_
  simp only [id]
  split
  · refine .bind (unreporting_result _ _) fun count => .bind ?_ fun _ => unreporting_result _ _
    exact .modify (fun _ _ => rfl) fun _ _ => trivial
  · exact unreporting_result _ _

theorem unreporting_settledCount (q : Parameter) (l : Nat) : Unreporting (FrameM.settledCount q l) := by
  refine .get_bind fun f _ => ?_
  simp only [id]
  split
  · exact .pure _
  · exact .bind (unreporting_result _ _) fun count => .bind (unreporting_update _ _) fun _ => .pure _

theorem unreporting_collectArray (q : Parameter) (l : Nat) : Unreporting (FrameM.collectArray q l) := by
  unfold FrameM.collectArray
  split
  · refine .bind (unreporting_settledCount q l) fun count => .get_bind fun f _ => ?_
    simp only [id]
    split
    · exact .bind (.pure _) fun slot => unreporting_result _ _
    · exact .bind (.lift _) fun slot => unreporting_result _ _
  · exact .throw rfl

theorem unreporting_collectValue (q : Parameter) : Unreporting (FrameM.collectValue q) := by
  unfold FrameM.collectValue FrameM.collectBuffer
  split
  · refine .get_bind fun f _ => ?_
    simp only [id]
    split
    · split
      · exact .bind (unreporting_update _ _) fun _ => .bind (.lift _) fun _ => .pure _
      · exact .pure _
    · exact unreporting_result _ _
    · exact .bind (.lift _) fun slot => unreporting_result _ _
  · exact .get_bind fun f _ => .bind (.lift _) fun slot => unreporting_result _ _

theorem unreporting_collectParameter (q : Parameter) : Unreporting (FrameM.collectParameter q) := by
  unfold FrameM.collectParameter
  split
  · exact .pure _
  · split
    · exact .pure _
    · exact .pure _
    · exact .bind (unreporting_collectArray _ _) fun v => .pure _
    · exact .bind (unreporting_collectValue q) fun v => .pure _

theorem unreporting_collectParameters (parameters : List Parameter) (found : List Value) :
    Unreporting (FrameM.collectParameters parameters found) := by
  induction parameters generalizing found with
  | nil => exact .pure _
  | cons q rest ih =>
      unfold FrameM.collectParameters
      refine .bind (.tryCatch (unreporting_collectParameter q) fun e allowed => ?_) fun output => ih _
      exact .bind (.lift _) fun _ => .throw allowed

end Unreporting

theorem collect_unreported {e : InvokeFailure} (null : (s.memory.load .pointer g.failure).isNull = true)
    (run : g.run FrameM.collect s = ((.error e, f), s')) : e.any (·.isReported) = false := by
  have nothing : g.run FrameM.takeFailure s = ((.ok none, g), s) := by
    unfold FrameM.takeFailure
    rw [run_bind, run_get]
    simp only
    rw [run_lift_bind]
    have loaded : EngineM.load .pointer g.failure s = (s.memory.load .pointer g.failure, s) := rfl
    rw [loaded]
    simp only [null, if_true]
    rfl
  have others : ∀ found : List Value, Unreporting (do
      let f ← getThe Frame
      return FrameM.composeOutputs (← FrameM.collectParameters f.plan.parameters found)) := fun found =>
    .get_bind fun f _ => .bind (unreporting_collectParameters _ found) fun _ => .pure _
  unfold FrameM.collect at run
  rw [run_bind, nothing] at run
  simp only at run
  rw [run_bind, run_get] at run
  simp only at run
  split at run
  · exact (others [] g s _ f s' trivial run).2.1 e rfl
  · rw [map_eq_pure_bind] at run
    have result : Unreporting (FrameM.collectReturn >>= fun v => pure (List.singleton v)) :=
      .bind unreporting_collectReturn fun v => .pure _
    have both : Unreporting (do
        let found ← FrameM.collectReturn >>= fun v => pure (List.singleton v)
        let f ← getThe Frame
        return FrameM.composeOutputs (← FrameM.collectParameters f.plan.parameters found)) :=
      .bind result others
    exact (both g s _ f s' trivial run).2.1 e rfl

end Frame

/-! ## Reclaiming makes nothing -/

def EngineM.Sheds {α : Type} (act : EngineM α) : Prop :=
  ∀ (s : Engine), ∀ b ∈ (act s).2.memory.blocks, b ∈ s.memory.blocks

namespace EngineM

theorem release_sheds (a : UInt64) (counted : Bool) : Sheds (release a counted) := by
  intro s b hb
  obtain ⟨counters, -, same⟩ := release_eq a counted s
  rw [same] at hb
  exact (Memory.mem_blocks_release.mp hb).1

theorem unreserve_sheds (a : UInt64) : Sheds (unreserve a) := fun _ _ hb => (Memory.mem_blocks_release.mp hb).1

theorem destroyCallback_sheds (c : Callback) : Sheds (destroyCallback c) := by
  intro s b hb
  obtain ⟨t, callables, functions, -, -, same⟩ := letGo_eq c.callable (s.withoutCallback c)
  rw [destroyCallback_eq, same] at hb
  exact (Memory.mem_blocks_release.mp hb).1

theorem freeFailure_sheds (record : UInt64) : Sheds (freeFailure record) := by
  intro s b hb
  unfold freeFailure at hb
  split at hb
  · exact hb
  · exact unreserve_sheds _ s b (unreserve_sheds record _ b hb)

end EngineM

namespace Frame

variable {g : Frame} {s : Engine}

theorem reclaim_sheds (f : Frame) : EngineM.Sheds f.reclaim := by
  intro s
  refine reclaim_across (R := fun s s' => ∀ b ∈ s'.memory.blocks, b ∈ s.memory.blocks) (fun _ _ => id)
    (fun first later b hb => first b (later b hb)) EngineM.release_sheds (EngineM.freeFailure_sheds _ s) ?_ ?_
  · exact fun q _ _ c _ => EngineM.destroyCallback_sheds c
  · exact fun a _ => EngineM.unreserve_sheds a

/-! ## Once, and by the collection -/

/-- The blocks of a report are released on the way from `s`, where native code has returned, to `s'`, where the collection
has ended. -/
structure TakenOnce (g : Frame) (s : Engine) (message record : UInt64) (s' : Engine) : Prop where
  apart : message ≠ record
  alive : s.memory.Live message ∧ s.memory.Live record
  taken : s' = s.taken g.failure message record
  cleared : (s'.memory.load .pointer g.failure).isNull = true
  gone : ∀ a ∈ [message, record], ¬s'.memory.Live a ∧ ¬(g.reclaim s').2.memory.Live a

/-- Reclaiming the frame does not release the block again: not even where it is alive, in an engine that has the same
memory otherwise. -/
def LeavesReleased (g : Frame) (m : Memory) (a : UInt64) : Prop :=
  ∀ t : Engine, (∀ b, b ∈ t.memory.chunks ↔ b ∈ m.chunks) → t.Spares a (g.reclaim t).2

theorem not_live_taken {message record a : UInt64} (listed : a ∈ [message, record]) (place : UInt64) (s : Engine) :
    ¬(s.taken place message record).memory.Live a := by
  intro alive
  obtain ⟨early, notRecord⟩ := Memory.live_release_iff.mp (Memory.live_write_iff.mp alive)
  obtain ⟨-, notMessage⟩ := Memory.live_release_iff.mp early
  rcases List.mem_cons.mp listed with message | record
  · exact notMessage message
  · exact notRecord (List.mem_singleton.mp record)

theorem takenOnce {domain : UInt32} {code : Int32} {text : List UInt8} {message record : UInt64}
    (cleared : ((s.taken g.failure message record).memory.load .pointer g.failure).isNull = true)
    (h : s.memory.HoldsReport domain code text message record) :
    g.TakenOnce s message record (s.taken g.failure message record) := by
  refine ⟨h.apart, h.live, rfl, cleared, fun a listed => ?_⟩
  have dead := not_live_taken listed g.failure s
  refine ⟨dead, ?_⟩
  rintro ⟨b, hb, address⟩
  exact dead ⟨b, reclaim_sheds g _ b hb, address⟩

end Frame

/-- A failure that native code reports wins over all outputs: the call fails with the domain, the code and the text of the
report, up to the first zero byte, the frame that is reclaimed is the one that native code left, and the blocks of the report
are released by the collection. They are not released again, unless native code has put them into an output, the return
value or an array of the inputs as well. Where native code leaves no report the call does not fail in this way. Here `f` and
`s` are the frame and the engine when the call is built, and `g` and `N` the frame and the machine when native code has
returned; the report is made in between or before the call. -/
theorem reported_of_execute {p : Plan} (obtained : p.Obtained) (places : host.KeepsPlaces) {settings : InvokeSettings}
    {receiver : Option Value} {arguments : List Value} {M M' N : Machine World} {r : Except InvokeFailure Value} {f g : Frame}
    {s : Engine} (admitted : p.Admits settings arguments) (built : p.prepare receiver arguments M.engine = (.ok f, s))
    (entered : f.execute host ⟨s.noted settings (.callStarted p.name p.slotCount), M.world⟩ = ((.ok (), g), N))
    (run : p.execute host settings receiver arguments M = (r, M')) :
    (∀ (domain : UInt32) (code : Int32) (text : List UInt8) (message record : UInt64) (t t' : Engine),
      MadeReport domain code text message record t t' →
      t'.memory.frontier ≤ M.engine.memory.frontier ∨ s.memory.frontier ≤ t.memory.frontier →
      (∀ b ∈ t'.memory.blocks, b.address = message ∨ b.address = record → b ∈ N.engine.memory.blocks) →
      N.engine.memory.load .pointer g.failure = .ofAddress record →
        r = .error (.error (.nativeReported ⟨domain, code, Utf8.read (text.takeWhile (· != 0))⟩)) ∧
        ∃ s', g.run FrameM.collect (N.engine.noted settings (.callReturned p.name)) = ((r, g), s') ∧
          M' = ⟨(g.reclaim s').2, N.world⟩ ∧
          g.TakenOnce (N.engine.noted settings (.callReturned p.name)) message record s' ∧
          ∀ a ∈ [message, record], f.KeptFromInputs s.memory N.engine.memory a → g.Unshared s'.memory a →
            g.LeavesReleased s'.memory a) ∧
    ((N.engine.memory.load .pointer g.failure).isNull = true →
      ∀ failure, r ≠ .error (.error (.nativeReported failure))) := by
  have coherent := obtained.coherent
  have plan := Frame.plan_of_prepare coherent built
  subst plan
  have same := Frame.samePlaces_of_execute places entered
  obtain ⟨e, impossible, -⟩ | ⟨-, h, s', collected, rfl⟩ := Plan.execute_ends admitted built entered run
  · cases impossible
  have plan' : g.plan = f.plan := by
    obtain ⟨⟨result, rfl⟩, -⟩ := Frame.execute_enters entered
    rfl
  rw [plan'] at collected
  obtain ⟨gathered, placed, apart, room⟩ := Frame.collected_of_returned obtained built entered same collected
  have noted := memory_noted N.engine settings (.callReturned f.plan.name)
  refine ⟨fun domain code text message record t t' made outside kept left => ?_, fun null failure same => ?_⟩
  · have holds := made.holds.congr kept
    rw [← noted] at holds left
    have taken := Frame.collect_taken holds left
    rw [collected] at taken
    cases taken
    have cleared := gathered.unreported (by rw [noted]; exact room)
    refine ⟨rfl, _, collected, rfl, Frame.takenOnce cleared holds, fun a listed inputs unshared u held => ?_⟩
    obtain ⟨-, f₀, s₀, fresh, build⟩ := Plan.prepare_ok built
    have behind := Frame.behind_of_build coherent fresh build
    obtain ⟨⟨result, rfl⟩, -⟩ := Frame.execute_enters entered
    have follows := Frame.follows_afterReturn f result
    have foreign : ¬Between M.engine.memory.frontier s.memory.frontier a := by
      rintro ⟨late, early⟩
      obtain ⟨low, high⟩ := made.between a listed
      omega
    have settled := gathered.frame
    have remains := gathered.engine.remains
    rw [noted] at settled remains
    have same' := fun b => (held b).symm
    refine behind.reclaim_spares follows (by simp [Frame.afterReturn]) same inputs foreign coherent settled placed apart
      (fun b hb there => (same' b).mp (remains b hb there)) (unshared.congr same') ?_
    exact Memory.not_mem_reported (by rw [← Memory.load_congr same']; exact cleared)
  · rw [← noted] at null
    subst same
    cases Frame.collect_unreported null collected

/-! ## A function that reports a failure and writes an output as well -/

/-- A function that looks a name up, and reports when there is none. -/
def lookingUp : DescriptorRef where
  id := 0
  descriptor := {
    symbol := "look_up", receiver := none, isConstructor := false, entry := .address 0x1000
    signature := {
      namespaceName := "Sample", name := "look_up", result := .void, resultTransfer := .nothing, skipResult := false
      mayReturnNull := false, canThrow := true
      params := [⟨"name", .utf8, .output, .everything, false, false, none, none, .call⟩] } }

/-- Native code that reports that there is no such name. What it stores as the name is empty, or the text of the report. -/
def refusing (sharing : Bool) : Host Unit where
  enter _ arguments :=
    match arguments with
    | (_, name) :: (_, place) :: _ => Run.engine do
      let record ← EngineM.makeFailure 3 (-2) [110, 111, 0, 33]
      let empty ← EngineM.reserve 1
      let message ← EngineM.load .pointer (record + 8)
      EngineM.store .u64 name.address (if sharing then message else .ofAddress empty)
      EngineM.store .pointer place.address (.ofAddress record)
      return .zero
    | _ => return .zero
  apply _ _ := return .ok .undefined

theorem EngineM.KeepsPlaces.makeFailure (domain : UInt32) (code : Int32) (text : List UInt8) :
    KeepsPlaces (EngineM.makeFailure domain code text) := by
  have writes : ∀ (a : UInt64) (bytes : List UInt8), KeepsPlaces (EngineM.writeBytes a bytes) :=
    fun a bytes s => s.memory.samePlaces_write a bytes
  refine .bind (.reserve _) fun message => .bind (writes _ _) fun _ => .bind (.reserve _) fun record => ?_
  exact .bind (.store _ _ _) fun _ => .bind (.store _ _ _) fun _ => .bind (.store _ _ _) fun _ => .pure _

theorem refusing_keepsPlaces (sharing : Bool) : (refusing sharing).KeepsPlaces := by
  intro address arguments M
  match arguments with
  | [] | [_] => exact .refl M.engine.memory
  | (_, name) :: (_, place) :: _ =>
      refine EngineM.KeepsPlaces.run ?_ M
      refine .bind (.makeFailure _ _ _) fun record => .bind (.reserve 1) fun empty => ?_
      refine .bind (fun s => .refl s.memory) fun message => ?_
      exact .bind (.store _ _ _) fun _ => .bind (.store _ _ _) fun _ => .pure _

/-- A call of the function, as far as the return of native code that has left a report. -/
structure Refusal (sharing : Bool) where
  p : Plan
  s₁ : Engine
  f : Frame
  s : Engine
  g : Frame
  N : Machine Unit
  message : UInt64
  record : UInt64
  t : Engine
  compiled : (Plan.compile lookingUp).run .initial = (.ok p, s₁)
  throws : p.canThrow = true
  admitted : p.Admits {} []
  built : p.prepare none [] s₁ = (.ok f, s)
  entered : f.execute (refusing sharing) ⟨s.noted {} (.callStarted p.name p.slotCount), ()⟩ = ((.ok (), g), N)
  made : MadeReport 3 (-2) [110, 111, 0, 33] message record s t
  kept : ∀ b ∈ t.memory.blocks, b.address = message ∨ b.address = record → b ∈ N.engine.memory.blocks
  left : N.engine.memory.load .pointer g.failure = .ofAddress record

namespace Refusal

variable {sharing : Bool}

def returned (h : Refusal sharing) : Engine :=
  h.N.engine.noted {} (.callReturned h.p.name)

def taken (h : Refusal sharing) : Engine :=
  h.returned.taken h.g.failure h.message h.record

/-- Whether the call comes to native code's return, and the frame, the memory where the report is taken, the message and the
record pass the check then. -/
def passes (sharing : Bool) (check : Frame → Memory → UInt64 → UInt64 → Bool) : Bool :=
  ((Plan.compile lookingUp).run .initial).1.toOption.any fun p =>
    let s := ((Plan.compile lookingUp).run .initial).2
    (p.prepare none [] s).1.toOption.any fun f =>
      let t := (p.prepare none [] s).2
      let entered := f.execute (refusing sharing) ⟨t.noted {} (.callStarted p.name p.slotCount), ()⟩
      let g : Frame := entered.1.2
      let m : Memory := entered.2.engine.memory
      let made := EngineM.makeFailure 3 (-2) [110, 111, 0, 33] t
      let record := made.1
      let message := (made.2.memory.load .pointer (record + 8)).address
      entered.1.1.isOk && (p.typeCheck []).isOk && p.canThrow && decide (record ≠ 0) && decide (message ≠ 0) &&
        made.2.memory.blocks.all (fun b => !(b.address == message || b.address == record) ||
          m.blocks.any fun c => c.base == b.base && c.size == b.size && decide (c.label = b.label) &&
            c.stored.toList == b.stored.toList) &&
        decide (m.load .pointer g.failure = .ofAddress record) &&
        check g ((entered.2.engine.noted {} (.callReturned p.name)).taken g.failure message record).memory message record

theorem exists_of_passes (sharing : Bool) (check : Frame → Memory → UInt64 → UInt64 → Bool)
    (facts : passes sharing check = true) :
    ∃ h : Refusal sharing, check h.g h.taken.memory h.message h.record = true := by
  unfold passes at facts
  obtain ⟨p, s₁, compiled⟩ := exists_ok (r := (Plan.compile lookingUp).run .initial) (by decide +kernel)
  simp only [compiled, Except.toOption, Option.any_some] at facts
  rcases built : p.prepare none [] s₁ with ⟨f | f, s⟩
  · simp [built] at facts
  simp only [built, Option.any_some] at facts
  rcases entered : f.execute (refusing sharing) ⟨s.noted {} (.callStarted p.name p.slotCount), ()⟩ with ⟨⟨u, g⟩, N⟩
  rcases made : EngineM.makeFailure 3 (-2) [110, 111, 0, 33] s with ⟨record, t⟩
  simp only [entered, made, Bool.and_eq_true, decide_eq_true_eq] at facts
  obtain ⟨⟨⟨⟨⟨⟨⟨ran, checked⟩, throws⟩, present⟩, told⟩, kept⟩, left⟩, passed⟩ := facts
  cases u with
  | error e => cases ran
  | ok u =>
  refine ⟨⟨p, s₁, f, s, g, N, _, record, t, compiled, throws, Plan.admits_of_isOk checked {}, built, entered,
    ⟨made, rfl, present, told⟩, fun b hb ours => ?_, left⟩, passed⟩
  have found := List.all_eq_true.mp kept b hb
  rcases ours with ours | ours <;>
  · simp only [ours, beq_self_eq_true, Bool.or_true, Bool.true_or, Bool.not_true, Bool.false_or, List.any_eq_true,
      Bool.and_eq_true, beq_iff_eq, decide_eq_true_eq] at found
    obtain ⟨c, hc, ⟨⟨base, size⟩, label⟩, stored⟩ := found
    have same : c = b := by
      cases c
      cases b
      simp only [Block.mk.injEq] at base size label stored ⊢
      exact ⟨base, size, label, Array.ext' stored⟩
    rwa [same] at hc

end Refusal

theorem reported_of_execute_refusing : ∃ (p : Plan) (f g : Frame) (s₁ s s' : Engine) (N M' : Machine Unit)
    (message record : UInt64), (Plan.compile lookingUp).run .initial = (.ok p, s₁) ∧ p.canThrow = true ∧
    p.execute (refusing false) {} none [] ⟨s₁, ()⟩ = (.error (.error (.nativeReported ⟨3, -2, Utf8.read [110, 111]⟩)), M') ∧
    M'.engine = (g.reclaim s').2 ∧ g.TakenOnce (N.engine.noted {} (.callReturned p.name)) message record s' ∧
    (∀ a ∈ [message, record], f.KeptFromInputs s.memory N.engine.memory a ∧ g.Unshared s'.memory a) ∧
    ∀ a ∈ [message, record], g.LeavesReleased s'.memory a := by
  obtain ⟨h, clear⟩ := Refusal.exists_of_passes false (fun g m message record =>
    g.plan.parameters.all (fun q => q.direction.isOut) && [message, record].all fun a =>
      g.plan.parameters.all (fun q => !(g.reclaimed m q).contains (.block a)) && !(g.reclaimedResult m).contains a)
    (by decide +kernel)
  simp only [Bool.and_eq_true, List.all_eq_true, Bool.not_eq_true'] at clear
  obtain ⟨outputs, clear⟩ := clear
  have obtained : h.p.Obtained := .compiled lookingUp _ _ h.compiled
  rcases run : h.p.execute (refusing false) {} none [] ⟨h.s₁, ()⟩ with ⟨r, M'⟩
  obtain ⟨reported, -⟩ := reported_of_execute obtained (refusing_keepsPlaces false) h.admitted h.built h.entered run
  obtain ⟨rfl, s', -, rfl, once, spared⟩ := reported 3 (-2) [110, 111, 0, 33] _ _ _ _ h.made (Or.inr (Nat.le_refl _)) h.kept
    h.left
  have apart : ∀ a ∈ [h.message, h.record], h.f.KeptFromInputs h.s.memory h.N.engine.memory a ∧ h.g.Unshared s'.memory a := by
    intro a listed
    obtain ⟨parameters, result⟩ := clear a listed
    obtain ⟨⟨slot, same⟩, -⟩ := Frame.execute_enters h.entered
    have taken : s' = h.taken := once.taken
    refine ⟨fun q hq _ input => ?_, fun q hq _ => ?_, ?_⟩
    · have out := outputs q (by rw [same]; exact hq)
      simp [input, Direction.isOut] at out
    · simpa [taken] using parameters q hq
    · simpa [taken] using result
  exact ⟨h.p, h.f, h.g, h.s₁, h.s, s', h.N, _, _, _, h.compiled, h.throws, run, rfl, once, apart,
    fun a listed => spared a listed (apart a listed).1 (apart a listed).2⟩

theorem released_again_of_sharing : ∃ (p : Plan) (g : Frame) (s₁ s' : Engine) (N M' : Machine Unit) (message record : UInt64),
    (Plan.compile lookingUp).run .initial = (.ok p, s₁) ∧ p.canThrow = true ∧
    p.execute (refusing true) {} none [] ⟨s₁, ()⟩ = (.error (.error (.nativeReported ⟨3, -2, Utf8.read [110, 111]⟩)), M') ∧
    g.TakenOnce (N.engine.noted {} (.callReturned p.name)) message record s' ∧
    ∃ t, M'.engine.events = t ++ s'.events ∧ .block message ∈ losses t := by
  obtain ⟨h, shared⟩ := Refusal.exists_of_passes true (fun g m message record =>
    (m.load .pointer g.failure).isNull && g.plan.parameters.any fun q => (g.reclaimed m q).contains (.block message))
    (by decide +kernel)
  simp only [Bool.and_eq_true, List.any_eq_true, List.contains_iff_mem] at shared
  obtain ⟨cleared, q, hq, lost⟩ := shared
  have obtained : h.p.Obtained := .compiled lookingUp _ _ h.compiled
  have noted := memory_noted h.N.engine {} (.callReturned h.p.name)
  have holds := h.made.holds.congr h.kept
  have left := h.left
  rw [← noted] at holds left
  have collected := Frame.collect_taken holds left
  have plan : h.f.plan = h.p := Frame.plan_of_prepare obtained.coherent h.built
  obtain ⟨⟨result, same⟩, -⟩ := Frame.execute_enters h.entered
  have plan' : h.g.plan = h.p := by
    rw [same]
    exact plan
  have entered : h.f.execute (refusing true) ⟨h.s.noted {} (.callStarted h.f.plan.name h.f.plan.slotCount), ()⟩ =
      ((.ok (), h.g), h.N) := by rw [plan]; exact h.entered
  have carried := Plan.carryOut_entered (M := ⟨h.s, ()⟩) entered
  rw [plan', collected] at carried
  have coherent : h.g.plan.Coherent := by rw [plan']; exact obtained.coherent
  have reclaimed := Frame.reclaim_givesUp (f := h.g) (s := h.taken) (Frame.loses_reclaimed coherent)
  obtain ⟨t, events, -, spent⟩ := reclaimed.moves.events
  refine ⟨h.p, h.g, h.s₁, h.taken, h.N, _, h.message, h.record, h.compiled, h.throws,
    Plan.execute_built h.admitted h.built carried, Frame.takenOnce cleared holds, t, events, spent.mem_iff.mpr ?_⟩
  refine List.mem_append_left _ (List.mem_append_left _ (List.mem_flatten.mpr ⟨_, List.mem_map.mpr ⟨q, hq, rfl⟩, lost⟩))

end Ferry
