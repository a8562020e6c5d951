import Ferry.Marshal.Error
import Ferry.Plan.Classification

/-!
# Invocation errors

Why an invocation failed, with the message for each cause.
-/

namespace Ferry

inductive SymbolError where
  | invalidName
  | notFound (symbol : String)
deriving DecidableEq, Repr, Inhabited

def SymbolError.message : SymbolError → String
  | invalidName => "Invalid symbol name"
  | notFound symbol => "Symbol not found: " ++ symbol

inductive LoadError where
  | invalidName
  | loadFailed
deriving DecidableEq, Repr, Inhabited

/-- Why a native call was refused before it was made. -/
inductive CallError where
  | argumentCount (expected given : Nat)
  | nullAddress
deriving DecidableEq, Repr, Inhabited

def CallError.message : CallError → String
  | argumentCount expected given =>
    "Expected " ++ toString expected ++ " arguments, got " ++ toString given
  | nullAddress => "Native entry point is null"

structure NativeFailure where
  domain : UInt32
  code : Int32
  message : String
deriving DecidableEq, Repr, Inhabited

inductive InvokeError where
  | notEnoughArguments (expected given : Nat)
  | invalidArgument (param : String) (expected : Ty) (value : Value)
  | classification (cause : ClassificationError)
  | nativeReported (failure : NativeFailure)
  | unresolvedVirtual (name implementor : String)
  | missingReceiver (function : String)
  | marshal (context : String) (cause : MarshalError)
  | symbol (cause : SymbolError)
  | call (cause : CallError)
  | host (text : String)
deriving Inhabited

namespace InvokeError

def message : InvokeError → String
  | notEnoughArguments expected given =>
    "Not enough arguments; expected " ++ toString expected ++ ", have " ++ toString given
  | invalidArgument param expected value =>
    "Expected argument of type " ++ expected.name ++ " for parameter " ++ param ++ ", got '" ++
      value.render ++ "'"
  | classification (.unsupportedCallback namespaceName name) =>
    "Callback " ++ namespaceName ++ "." ++ name ++
      " has a destroy notifier but no closure argument, not supported"
  | classification (.misplacedCallbackArgument param index) =>
    "Callback parameter " ++ param ++ " refers to argument " ++ toString index ++
      ", which it can't use"
  | nativeReported f =>
    f.message ++ " (domain " ++ toString f.domain.toNat ++ ", code " ++ toString f.code.toInt ++ ")"
  | unresolvedVirtual name implementor =>
    "Couldn't create virtual function '" ++ name ++ "': no implementation of '" ++ name ++
      "' in the dispatch table of " ++ implementor
  | missingReceiver function => "Method " ++ function ++ " called without a receiver"
  | marshal context cause => "Conversion failed for " ++ context ++ ": " ++ cause.message
  | symbol cause => "Couldn't resolve entry point: " ++ cause.message
  | call cause => cause.message
  | host text => text

/-- The error for a parameter whose value could not be converted. -/
def ofConversion (param : String) (type : Ty) (value : Value) (cause : MarshalError) : InvokeError :=
  if cause.isTypeError then invalidArgument param type value else marshal param cause

end InvokeError

abbrev InvokeFailure := Failure InvokeError

/-- The failure for a parameter whose value could not be converted. -/
def InvokeFailure.ofConversion (param : String) (type : Ty) (value : Value) :
    Failure MarshalError → InvokeFailure :=
  Failure.map (.ofConversion param type value)

end Ferry
