import Ferry.Call.Frame

/-!
# Building a frame

The caller's values are converted one parameter after the other, in the order of declaration. Whatever
was built before a failure stays in the frame, for the reclaimer to find.
-/

namespace Ferry

def Parameter.argument (p : Parameter) (arguments : List Value) : Value :=
  (p.position.bind (arguments[·]?)).getD .undefined

namespace FrameM

def buildReceiver (receiver : Option Value) : FrameM Unit := do
  let plan := (← getThe Frame).plan
  match receiver with
  | none => throw (.error (.missingReceiver plan.name))
  | some value =>
    let container := plan.source.descriptor.container
    let slot ← convert (.ofConversion "self" container value) (toNative value container false)
    modifyThe Frame fun f => { f with receiver := slot }

/-- The buffer size that the caller asks for through the length parameter of a buffer. -/
def requestedCount (length : Nat) (arguments : List Value) : FrameM Nat := do
  match (← getThe Frame).plan.parameter? length with
  | none => throw (.error (.marshal "" .unknownLength))
  | some p =>
    if p.position.isNone then throw (.error (.marshal p.name .unknownLength))
    let value := p.argument arguments
    match value.int64? with
    | some i =>
      if 0 ≤ i.toInt then return i.toInt.toNat
      else throw (.error (.invalidArgument p.name p.type value))
    | none => throw (.error (.invalidArgument p.name p.type value))

def settle (i count : Nat) : FrameM Unit :=
  update i fun b => { b with count := some count }

def elementBytes (count : Nat) (element : Ty) : FrameM Nat :=
  match byteSize? count element.elementSize with
  | some bytes => return bytes
  | none => throw .overflow

def bufferSize (p : Parameter) (arguments : List Value) : FrameM Nat :=
  match p.handling, p.type with
  | .array length, .array element _ => do
    let count ← requestedCount length arguments
    settle p.index count
    elementBytes count element
  | _, .array element (.fixed count) => do
    settle p.index count
    elementBytes count element
  | _, .array _ _ => throw (.error (.marshal p.name .unknownLength))
  | _, type => return type.inlineSize

def reserveOutput (p : Parameter) (arguments : List Value) : FrameM Unit := do
  if p.callerAllocates then
    let size ← bufferSize p arguments
    match ← EngineM.allocate size with
    | none => throw (.error (.marshal p.name (.allocationFailed size)))
    | some block =>
      update p.index fun b => { b with slot := .ofAddress block, buffer := some block, built := true }
  else
    passCell p.index
    update p.index fun b => { b with built := true }

def passLength (length count : Nat) : FrameM Unit := do
  match (← getThe Frame).plan.parameter? length with
  | none => throw (.error (.marshal "" .unknownLength))
  | some p =>
    match encodeLength count p.type with
    | .error e => throw (.error (.marshal p.name e))
    | .ok encoded =>
      match p.direction with
      | .input => setSlot length encoded
      | .both =>
        let f ← getThe Frame
        f.storeCell length encoded
        passCell length
      | .output => return ()

def buildArray (p : Parameter) (length : Nat) (value : Value) : FrameM Unit :=
  match p.type with
  | .array element arrayLength => do
    let (slot, count) ←
      convert (.ofConversion p.name p.type value) (encodeArray value element arrayLength p.nullable)
    update p.index fun b => { b with slot, count := some count, built := true }
    passLength length count
  | type => throw (.error (.marshal p.name (.unsupported type)))

/-- Makes a callback and passes its code, its token and the destroy notifier. Without a callable all
three stay null. -/
def buildCallback (p : Parameter) (closure destroy : Option Nat) (scope : Scope) (value : Value) :
    FrameM Unit :=
  match p.type with
  | .callback signature => do
    if destroy.isSome && closure.isNone then
      throw (.error (.classification (.unsupportedCallback signature.namespaceName signature.name)))
    let n := (← getThe Frame).plan.parameters.length
    match misplaced? n p.index closure destroy with
    | some index => throw (.error (.classification (.misplacedCallbackArgument p.name index)))
    | none =>
      match value with
      | .function f =>
        let callback ← convert .error (EngineM.makeCallback f.id signature scope)
        setSlot p.index (.ofAddress callback.code)
        closure.forM fun j => setSlot j (.ofAddress callback.token)
        destroy.forM fun j => setSlot j (.ofAddress Engine.notifier)
        update p.index fun b => { b with callback := some callback, built := true }
      | value =>
        if value.isNullish && p.nullable then update p.index fun b => { b with built := true }
        else throw (.error (.invalidArgument p.name p.type value))
  | type => throw (.error (.marshal p.name (.unsupported type)))

def buildValue (p : Parameter) (value : Value) : FrameM Unit := do
  let slot ← convert (.ofConversion p.name p.type value) (toNative value p.type p.nullable)
  update p.index fun b => { b with slot, built := true }

/-- A parameter that is passed by reference gets a copy of what the engine made, in its cell. -/
def rehome (i : Nat) : FrameM Unit := do
  let f ← getThe Frame
  let made := (f.binding i).slot
  update i fun b => { b with engineMade := made }
  f.storeCell i made
  passCell i

def buildParameter (arguments : List Value) (p : Parameter) : FrameM Unit := do
  if p.isHidden then return
  if p.direction = .output then reserveOutput p arguments
  else
    let value := p.argument arguments
    match p.handling with
    | .hidden => return
    | .callback closure destroy scope => buildCallback p closure destroy scope value
    | .array length => buildArray p length value
    | .normal => buildValue p value
    if p.direction = .both then rehome p.index

def build (receiver : Option Value) (arguments : List Value) : FrameM Unit := do
  let plan := (← getThe Frame).plan
  if plan.isMethod then buildReceiver receiver
  plan.parameters.forM fun p =>
    if p.isHidden && p.direction.isOut then passCell p.index else pure ()
  plan.parameters.forM (buildParameter arguments)

end FrameM

end Ferry
