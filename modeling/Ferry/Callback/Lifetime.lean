import Ferry.Engine.Ownership

/-!
# Lifetime of callbacks

A callback is made for one callable and holds it until it is destroyed. The registry keeps the durable
callbacks that native code has; each leaves it when its token is given to the destroy notifier, or with
all others.
-/

namespace Ferry

namespace EngineM

/-- Makes a callback, given room for its closure and code for its signature. Otherwise nothing is left of it. -/
def makeCallback (callable : Nat) (signature : Signature) (scope : Scope) : InvokeM Callback := do
  let s ← getThe Engine
  match s.memory.allocate? .hidden 16 with
  | none => throw (.host "Failed to allocate callback closure")
  | some (storage, memory) =>
    if !s.platform.prepares signature then
      throw (.host ("Failed to prepare callback " ++ signature.qualifiedName))
    let callback : Callback :=
      { serial := s.nextCallback, token := storage, code := storage + 8, callable, signature, scope }
    set { s with memory, nextCallback := s.nextCallback + 1, callbacks := callback :: s.callbacks }
    hold callable
    count fun c => { c with callbacksCreated := c.callbacksCreated + 1 }
    record (.callbackCreated callback.serial signature.name)
    return callback

def destroyCallback (callback : Callback) : EngineM Unit := do
  record (.callbackDestroyed callback.serial callback.signature.name)
  unreserve callback.token
  modify fun s => { s with callbacks := s.callbacks.filter (·.serial != callback.serial) }
  count fun c => { c with callbacksDestroyed := c.callbacksDestroyed + 1 }
  letGo callback.callable

def registerDurable (callback : Callback) : EngineM Unit :=
  modify fun s => { s with durable := s.durable.filter (· != callback.token) ++ [callback.token] }

def notifyDestroyed (token : UInt64) : EngineM Unit := do
  let s ← get
  if s.durable.contains token then
    set { s with durable := s.durable.filter (· != token) }
    match s.callbacks.find? (·.token == token) with
    | some callback => destroyCallback callback
    | none => return ()

def clearDurable : EngineM Unit := do
  let s ← get
  set { s with durable := [] }
  s.durable.forM fun token =>
    match s.callbacks.find? (·.token == token) with
    | some callback => destroyCallback callback
    | none => return ()

end EngineM

end Ferry
