import Ferry.Call.Build

/-!
# Failure reports

Native code reports a failure by storing the address of a record where its last argument points. The
record holds a domain, a code and the address of a text, all of which belong to the record.
-/

namespace Ferry

namespace EngineM

def failureRecordSize : Nat := 16

def makeFailure (domain : UInt32) (code : Int32) (text : List UInt8) : EngineM UInt64 := do
  let text := text.takeWhile (· != 0)
  let message ← reserve (text.length + 1)
  writeBytes message text
  let record ← reserve failureRecordSize
  store .u32 record (.ofNat domain.toNat)
  store .i32 (record + 4) (.ofInt code.toInt)
  store .pointer (record + 8) (.ofAddress message)
  return record

/-- Releases a record with its text; the null address is none. -/
def freeFailure (record : UInt64) : EngineM Unit := do
  if record = 0 then return
  let message ← load .pointer (record + 8)
  unreserve message.address
  unreserve record

def takeFailure (record : UInt64) : EngineM NativeFailure := do
  let domain ← load .u32 record
  let code ← load .i32 (record + 4)
  let message ← load .pointer (record + 8)
  let text := (← get).memory.text message.address
  freeFailure record
  return ⟨UInt32.ofNat (domain.payload .u32), Int32.ofInt (code.integer .i32), Utf8.read text⟩

end EngineM

namespace FrameM

def takeFailure : FrameM (Option NativeFailure) := do
  let f ← getThe Frame
  let report ← EngineM.load .pointer f.failure
  if report.isNull then return none
  else
    let failure ← EngineM.takeFailure report.address
    EngineM.store .pointer f.failure .zero
    return some failure

end FrameM

end Ferry
