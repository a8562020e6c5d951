import Ferry.Proofs.Engine.Untouched
import Ferry.Proofs.Marshal.Across

/-!
# Conversions leave callbacks alone

Whatever a conversion makes, copies, drops or releases, and whichever way it ends, the callbacks stay as they are.
-/

set_option autoImplicit false

namespace Ferry

/-! ## Caller values to native values -/

theorem quiet_encodeArray (value : Value) (element : Ty) (length : ArrayLength) (nullable : Bool) :
    Quiet (encodeArray value element length nullable) :=
  encodeArray_across (R := Engine.Untouched) .refl .trans EngineM.quiet_allocate EngineM.quiet_writeBytes
    (fun a => EngineM.quiet_release a true) value element length nullable

theorem quiet_encode (value : Value) (type : Ty) (nullable : Bool) : Quiet (encode value type nullable) :=
  encode_across (R := Engine.Untouched) .refl .trans EngineM.quiet_allocate EngineM.quiet_writeBytes
    (fun a => EngineM.quiet_release a true) value type nullable

theorem quiet_toNative (value : Value) (type : Ty) (nullable : Bool) : Quiet (toNative value type nullable) :=
  Quiet.tryCatch (quiet_encode value type nullable) fun failure =>
    match failure with
    | .error _ => Quiet.failing_lift (EngineM.quiet_count _) fun _ => Quiet.throw _
    | .panic _ => Quiet.throw _

/-! ## Native values to caller values -/

theorem quiet_copyStructure (layout : Layout) (a : UInt64) : Quiet (copyStructure layout a) := by
  refine Quiet.failing_lift (EngineM.quiet_allocate _) fun made => ?_
  cases made with
  | none => exact Quiet.throw _
  | some block =>
      refine Quiet.failing_lift (EngineM.quiet_readBytes _ _) fun bytes => ?_
      exact Quiet.failing_lift (EngineM.quiet_writeBytes _ _) fun _ => fun s => EngineM.quiet_own block s

theorem quiet_decodeItems {decodeItem : Slot → MarshalM Value} (each : ∀ slot, Quiet (decodeItem slot)) (t : NativeType)
    (base : UInt64) (index count : Nat) (found : List Value) :
    Quiet (decodeItems decodeItem t base index count found) := by
  induction count generalizing index found with
  | zero => exact Quiet.ok _
  | succ n ih =>
      refine Quiet.failing_lift (EngineM.quiet_load _ _) fun slot => ?_
      refine Quiet.failing_bind (Quiet.tryCatch (each slot) fun e => ?_) fun item => ih (index + 1) (item :: found)
      exact Quiet.failing_lift (Value.quiet_releaseAll _) fun _ => Quiet.throw e

theorem quiet_decodeArrayWith {decodeItem : Slot → MarshalM Value} (each : ∀ slot, Quiet (decodeItem slot)) (element : Ty)
    (length : ArrayLength) (slot : Slot) (known : Option Nat) :
    Quiet (decodeArrayWith decodeItem element length slot known) := by
  intro s
  rcases run : decodeArrayWith decodeItem element length slot known s with ⟨r, s'⟩
  rcases decodeArrayWith_cases run with ⟨count, decoded, -, -, items_run, -⟩ | ⟨rfl, -⟩
  · have quiet := quiet_decodeItems each element.native slot.address 0 count [] s
    rw [items_run] at quiet
    exact quiet
  · exact .refl _

theorem quiet_fromNative (type : Ty) (slot : Slot) (transfer : Transfer) : Quiet (fromNative type slot transfer) := by
  cases shape : type with
  | array element length =>
      unfold fromNative
      exact quiet_decodeArrayWith (fun s => quiet_fromNative element s transfer.ofElement) element length slot none
  | struct layout =>
      unfold fromNative
      simp only
      split
      · exact Quiet.ok _
      · split
        · exact Quiet.failing_bind (quiet_copyStructure _ _) fun _ => Quiet.ok _
        · exact Quiet.ok _
  | _ =>
      intro s
      simp only [fromNative]
      cases decodeScalar? _ slot with
      | some v => exact .refl s
      | none => exact .refl s
termination_by type
decreasing_by simp; omega

theorem quiet_arrayFromNative (element : Ty) (length : ArrayLength) (slot : Slot) (known : Option Nat)
    (transfer : Transfer) : Quiet (arrayFromNative element length slot known transfer) :=
  quiet_decodeArrayWith (fun s => quiet_fromNative element s transfer.ofElement) element length slot known

end Ferry
