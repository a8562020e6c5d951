import Ferry.Marshal.Basic

/-!
# Compiling plans

A plan is compiled from a descriptor and the address of the native code. `planFor` keeps compiled
plans under the identity of their descriptor, while the settings ask for it; a compilation that fails
leaves nothing behind.
-/

namespace Ferry

namespace Descriptor

def entryAddress (d : Descriptor) : InvokeM UInt64 :=
  match d.entry with
  | .address a => if a = 0 then throw (.symbol (.notFound d.symbol)) else return a
  | .symbol library => do
    match (← getThe Engine).platform.resolve library d.symbol with
    | .ok a => do
      EngineM.log (.symbolResolved library d.symbol)
      return a
    | .error e => throw (.symbol e)
  | .dispatched => throw (.symbol (.notFound d.symbol))

end Descriptor

namespace Plan

def assemble (id : Nat) (source : DescriptorRef) (address : UInt64) (isMethod : Bool) :
    Except ClassificationError Plan := do
  let s := source.descriptor.signature
  let c ← classify s
  let arguments := (if isMethod then [NativeType.pointer] else []) ++ c.parameters.map Parameter.native ++
    (if s.canThrow then [NativeType.pointer] else [])
  return {
    id, source, isMethod
    parameters := c.parameters
    inputs := c.inputs
    outputs := c.outputs
    canThrow := s.canThrow
    resultLength := c.resultLength
    native := ⟨address, s.result.native, arguments⟩ }

def compileAt (source : DescriptorRef) (address : UInt64) (isMethod : Bool) : InvokeM Plan := do
  let id ← EngineM.freshIdentity
  match assemble id source address isMethod with
  | .error e => throw (.classification e)
  | .ok plan =>
    EngineM.log (.planCompiled source.descriptor.symbol plan.inputs plan.outputs plan.slotCount)
    return plan

def compile (source : DescriptorRef) : InvokeM Plan := do
  let address ← source.descriptor.entryAddress
  compileAt source address source.descriptor.isMethod

/-- Compiles a plan for a virtual function: it always has a receiver. -/
def compileVirtual (source : DescriptorRef) (address : UInt64) : InvokeM Plan :=
  compileAt source address true

def typeCheck (p : Plan) (arguments : List Value) : Except InvokeError Unit := do
  if arguments.length < p.inputs then
    throw (.notEnoughArguments p.inputs arguments.length)
  p.parameters.forM fun param =>
    match param.position with
    | none => return ()
    | some position =>
      let value := arguments[position]?.getD .undefined
      if canConvert value param.type param.nullable then return ()
      else throw (.invalidArgument param.name param.type value)

end Plan

def planFor (source : DescriptorRef) : InvokeM Plan := do
  let s ← getThe Engine
  if !s.config.invoke.cachePlans then Plan.compile source
  else
    match s.plans.lookup source.id with
    | some plan => return plan
    | none =>
      let plan ← Plan.compile source
      modifyThe Engine fun s => { s with plans := (source.id, plan) :: s.plans }
      return plan

namespace EngineM

def clearPlans : EngineM Unit :=
  modify fun s => { s with plans := [] }

end EngineM

/-- Binds a descriptor. Its plan is compiled when it is first needed. -/
def NativeFunction.bind (source : DescriptorRef) : NativeFunction :=
  ⟨source, none, none⟩

/-- Binds the implementation of a virtual function in a dispatch table. -/
def NativeFunction.makeVirtual (source : DescriptorRef) (tables : DispatchChain) :
    InvokeM NativeFunction := do
  let name := source.descriptor.name
  match tables.resolve name with
  | none => throw (.unresolvedVirtual name tables.typeName)
  | some address =>
    let plan ← Plan.compileVirtual source address
    EngineM.log (.virtualResolved name tables.typeName)
    return ⟨source, some plan, some tables.typeName⟩

end Ferry
