import Ferry.Proofs.Callback.Contract
import Ferry.Proofs.Marshal.ReadingBack
import Ferry.Proofs.Native.Words

/-!
# Values that pass unchanged

A value of a native type is the same after it was stored and loaded, and after it was widened to a word and cut again. So
native code gets what a callback answered, and what native code returned is what the frame of the call keeps. Two words that
carry the same value are shown to a caller alike. All of it together is `NativeType.passes`.
-/

set_option autoImplicit false

namespace Ferry

variable {World : Type} {host : Host World}

theorem Ty.native_of_isVoid {type : Ty} (void : type.isVoid = true) : type.native = .void := by
  cases type <;> first | rfl | cases void

theorem Callback.trampolineInto_passes {c : Callback} {slots : List Slot} {M N : Machine World} {v : Slot} (place : Slot)
    (answered : c.answer host slots M = (.ok v, N)) :
    ∃ w, c.trampolineInto host slots place M = (w, N) ∧
      w.value c.signature.result.native = v.value c.signature.result.native ∧
      (c.signature.result.native ≠ .void → w = v.widen c.signature.result.native) := by
  refine ⟨_, trampolineInto_answered place answered, ?_, fun full => ?_⟩
  · split
    · rename_i void
      rw [Ty.native_of_isVoid void]
      exact Slot.value_void _ _
    · exact Slot.value_widen _ v
  · rw [if_neg fun void => full (Ty.native_of_isVoid void)]

theorem Frame.execute_passes {f g : Frame} {M N : Machine World} (run : f.execute host M = ((.ok (), g), N)) :
    ∃ M₁ word kept, M₁.world = M.world ∧ M₁.engine.memory = M.engine.memory ∧
      host.enter f.plan.native.address (f.plan.native.arguments.zip f.slots) M₁ = (word, N) ∧
      g.returned = some kept ∧ kept.value f.plan.native.result = word.value f.plan.native.result := by
  obtain ⟨d, word, rfl, entered⟩ := Frame.execute_ok run
  refine ⟨_, word, _, ?_, ?_, entered, rfl, ?_⟩
  · rfl
  · rfl
  split
  · rename_i void
    rw [void]
    exact Slot.value_void _ _
  · exact Slot.value_narrow _ word

namespace NativeType

/-- Values of a native type pass through memory, callbacks and native code unchanged. -/
structure Passes (t : NativeType) : Prop where
  loaded : ∀ (m : Memory) (a : UInt64) (v : Slot), m.Writable a t.size → ((m.store t a v).load t a).value t = v.value t
  stored : ∀ (m : Memory) (a : UInt64) (v : Slot), m.Writable a t.size → ∀ x, (m.store t a v).byte x =
    if a.toNat ≤ x.toNat ∧ x.toNat < a.toNat + t.size then v.byte (x.toNat - a.toNat) else m.byte x
  signed : t ∈ [.i8, .i16, .i32] → ∀ v : Slot, (v.widen t).bits.toBitVec = (v.value t).signExtend 64
  unsigned : t ∈ [.bool, .u8, .u16, .u32] → ∀ v : Slot, (v.widen t).bits.toBitVec = (v.value t).zeroExtend 64
  narrowed : ∀ v : Slot, ((v.widen t).narrow t).value t = v.value t
  answered : ∀ {World : Type} (host : Host World) (c : Callback) (slots : List Slot) (place v : Slot) (M N : Machine World),
    c.signature.result.native = t → c.answer host slots M = (.ok v, N) →
      ∃ w, c.trampolineInto host slots place M = (w, N) ∧ w.value t = v.value t ∧ (t ≠ .void → w = v.widen t)
  returned : ∀ {World : Type} (host : Host World) (f g : Frame) (M N : Machine World),
    f.plan.native.result = t → f.execute host M = ((.ok (), g), N) →
      ∃ M₁ word kept, M₁.world = M.world ∧ M₁.engine.memory = M.engine.memory ∧
        host.enter f.plan.native.address (f.plan.native.arguments.zip f.slots) M₁ = (word, N) ∧
        g.returned = some kept ∧ kept.value t = word.value t
  shown : ∀ (type : Ty) (x y : Slot), type.native = t → x.value t = y.value t → ∀ transfer s,
    fromNative type x transfer s = fromNative type y transfer s

/-- Values of every native type pass unchanged. -/
theorem passes (t : NativeType) : t.Passes where
  loaded m a v writable := Memory.value_load_store writable v
  stored m a v writable := Memory.byte_store writable v
  signed small v := by
    have extended : t.isExtended = true ∧ t.isSigned = true := by
      revert small
      cases t <;> decide
    exact Slot.widen_signed extended.1 extended.2 v
  unsigned small v := by
    have extended : t.isExtended = true ∧ t.isSigned = false := by
      revert small
      cases t <;> decide
    exact Slot.widen_unsigned extended.1 extended.2 v
  narrowed v := (Slot.value_narrow t _).trans (Slot.value_widen t v)
  answered host c slots place v M N result answered := by
    subst result
    exact Callback.trampolineInto_passes place answered
  returned host f g M N result run := by
    subst result
    exact Frame.execute_passes run
  shown type x y native same transfer s := by
    subst native
    rw [fromNative_congr (Slot.value_eq_iff.mp same)]

def crowded : Slot := ⟨0xDEADBEEFCAFE80FE⟩

def crowding : Host Unit where
  enter _ _ := return crowded
  apply _ _ := return .ok (.int (-32514))

def crowdedCallback : Callback × Engine :=
  (⟨0, 0x10000, 0x10008, 7, signature, .call⟩, { Engine.initial with callables := [⟨7, "number", 1, .host⟩] })
where
  signature : Signature := {
    namespaceName := "Sample", name := "Number", params := [], result := .int16, resultTransfer := .nothing
    skipResult := false, mayReturnNull := false, canThrow := false }

def crowdedFrame : Frame :=
  .empty { (default : Plan) with native := ⟨0x10000, .i16, []⟩ } 0 0

/-- A store to an odd address changes two bytes. The number is the same after it was stored, answered by a callback and
returned by native code, and its word has the sign in every bit above it. -/
theorem passes_crowded : ∃ (m : Memory) (a : UInt64), m.Writable a 2 ∧
    ((m.store .i16 a crowded).load .i16 a).value .i16 = 0x80FE ∧
    [a - 1, a, a + 1, a + 2].map (m.store .i16 a crowded).byte = [0, 0xFE, 0x80, 0] ∧
    (crowded.widen .i16).bits.toBitVec = 0xFFFFFFFFFFFF80FE ∧
    (∃ w N, crowdedCallback.1.trampolineInto crowding [] .zero ⟨crowdedCallback.2, ()⟩ = (w, N) ∧ w.value .i16 = 0x80FE) ∧
    ∃ g N kept, crowdedFrame.execute crowding ⟨.initial, ()⟩ = ((.ok (), g), N) ∧ g.returned = some kept ∧
      kept.value .i16 = 0x80FE := by
  have short := NativeType.passes .i16
  have writable : (EngineM.allocate 8 .initial).2.memory.Writable (UInt64.ofNat Memory.firstBlock + 3) 2 := fun _ =>
    ⟨⟨Memory.firstBlock, 8, .engine 0, #[]⟩, List.mem_singleton.mpr rfl, by decide, by decide⟩
  have number : crowded.value .i16 = 0x80FE := by decide
  refine ⟨_, _, writable, (short.loaded _ _ crowded writable).trans number, ?_, ?_, ?_, ?_⟩
  · have bytes := short.stored _ _ crowded writable
    simp only [List.map_cons, List.map_nil, bytes]
    decide +kernel
  · rw [short.signed (by decide), number]
    decide
  · obtain ⟨v, N, answered⟩ := exists_ok (show (crowdedCallback.1.answer crowding [] ⟨crowdedCallback.2, ()⟩).1.isOk = true by
      decide +kernel)
    have same : (crowdedCallback.1.answer crowding [] ⟨crowdedCallback.2, ()⟩).1.toOption.map (·.value .i16) =
      some 0x80FE := by decide +kernel
    obtain ⟨w, run, reached, -⟩ := short.answered crowding crowdedCallback.1 [] .zero v _ N rfl answered
    rw [answered] at same
    exact ⟨w, N, run, reached.trans (Option.some.inj same)⟩
  · have entered : (crowdedFrame.execute crowding ⟨.initial, ()⟩).1.1.isOk = true := by decide +kernel
    rcases run : crowdedFrame.execute crowding ⟨.initial, ()⟩ with ⟨⟨r, g⟩, N⟩
    rw [run] at entered
    cases r with
    | error e => cases entered
    | ok u =>
        obtain ⟨M₁, word, kept, -, -, returned, found, same⟩ := short.returned crowding crowdedFrame g _ N rfl run
        cases returned
        exact ⟨g, _, kept, rfl, found, same.trans number⟩

end NativeType

end Ferry
