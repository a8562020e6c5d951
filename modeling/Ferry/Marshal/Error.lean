import Ferry.Value

/-!
# Conversion errors

Why a value could not be converted, with the message for each cause. Errors of the first four kinds
are the fault of the caller, who supplied a value of the wrong shape.
-/

namespace Ferry

/-- An error is answered to whoever asked for the action. A panic ends all that is under way, and only the
trampoline of a callback stops it: nothing handles it on its way as an error is handled. -/
inductive Failure (ε : Type) where
  | error (cause : ε)
  | panic (text : String)
deriving DecidableEq, Inhabited

namespace Failure

def overflow {ε : Type} : Failure ε :=
  panic "attempt to multiply with overflow"

def map {ε δ : Type} (blame : ε → δ) : Failure ε → Failure δ
  | error cause => error (blame cause)
  | panic text => panic text

end Failure

inductive MarshalError where
  | typeMismatch (expected : Ty) (found : String)
  | outOfRange (value : Int) (expected : Ty)
  -- A value read back where an array length was expected is none.
  | notALength (value : Value)
  | unexpectedNull (expected : Ty)
  | interiorZero
  | unsupported (type : Ty)
  -- Nothing says how many elements an array has.
  | unknownLength
  | allocationFailed (size : Nat)
deriving Inhabited

namespace MarshalError

def message : MarshalError → String
  | typeMismatch expected found => "Expected " ++ expected.name ++ ", got " ++ found
  | outOfRange value expected =>
    "Value " ++ toString value ++ " is out of range for " ++ expected.name
  | notALength value => "Value " ++ value.render ++ " is out of range for array length"
  | unexpectedNull expected => "Null is not allowed for " ++ expected.name
  | interiorZero => "String contains an interior NUL byte"
  | unsupported type => "Cannot convert " ++ type.name ++ " values"
  | unknownLength => "Array length is unknown"
  | allocationFailed size => "Failed to allocate " ++ toString size ++ " bytes"

def isTypeError : MarshalError → Bool
  | typeMismatch .. | outOfRange .. | notALength _ | unexpectedNull _ | interiorZero => true
  | unsupported _ | unknownLength | allocationFailed _ => false

end MarshalError

end Ferry
