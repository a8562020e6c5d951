import Ferry.Engine.Ownership

/-!
# Common ground of the conversions

Who made a value that is to be released, how much of it is to be released, and which values convert
to which types.
-/

namespace Ferry

inductive Origin where
  | engine
  | native
deriving DecidableEq, Repr, Inhabited

inductive ReleaseDepth where
  | none
  | container
  | elements
  | full
deriving DecidableEq, Repr, Inhabited

namespace ReleaseDepth

/-- What is left to release of a value that travelled in a direction. The engine made what the caller
supplied, and releases what native code did not take; native code made what it returned, and the engine
releases what was handed over. -/
def forTransfer : Direction → Transfer → ReleaseDepth
  | .input, .nothing => full
  | .input, .container => elements
  | .input, .everything => none
  | _, .nothing => none
  | _, .container => container
  | _, .everything => full

def coversContainer : ReleaseDepth → Bool
  | container | full => true
  | none | elements => false

def coversElements : ReleaseDepth → Bool
  | elements | full => true
  | none | container => false

def name : ReleaseDepth → String
  | none => "none"
  | container => "container"
  | elements => "elements"
  | full => "full"

end ReleaseDepth

/-- A conversion: an action of the engine that may fail. What it did before it failed stays done. -/
abbrev MarshalM := ExceptT MarshalError EngineM

abbrev EncodeM := ExceptT (Failure MarshalError) EngineM

namespace EncodeM

def ofExcept (r : Except MarshalError α) : EncodeM α :=
  ExceptT.mk (pure (r.mapError .error))

def onError (act : EncodeM α) (repair : EngineM Unit) : EncodeM α :=
  tryCatch act fun failure => do
    match failure with
    | .error _ => repair
    | .panic _ => pure ()
    throw failure

end EncodeM

def mismatch (type : Ty) (value : Value) : MarshalError :=
  .typeMismatch type value.kind

/-- The value converts to the type, so far as this can be told without any native work. -/
def canConvert (value : Value) : Ty → (nullable : Bool) → Bool
  | .array element _, nullable =>
    if value.isNullish then nullable
    else
      match value with
      | .array items => items.all fun item => canConvert item element false
      | _ => false
  | type, nullable =>
    if value.isNullish then type.isVoid || (type.isPointerLike && nullable)
    else
      match type, value with
      | .void, _ => true
      | .boolean, .boolean _ => true
      | .float, .number _ | .float, .int _ | .float, .uint _ => true
      | .double, .number _ | .double, .int _ | .double, .uint _ => true
      | .utf8, .string s => !s.toList.contains '\x00'
      | .pointer, .pointer _ | .pointer, .boxed _ => true
      | .struct layout, .boxed b => b.layout = layout
      | .callback _, .function _ => true
      | type, value => value.integer?.any type.native.holds

end Ferry
