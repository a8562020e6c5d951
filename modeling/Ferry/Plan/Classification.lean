import Ferry.Plan.Basic

/-!
# Classification of parameters

`classify` decides for each parameter of a descriptor whether the caller sees it. Parameters refer to
each other, forward and backward: an array to its length, a callback to its user data and its destroy
notifier, a returned array to its length. What is referred to is filled by the engine and hidden from
the caller, with one exception: the length of an output buffer that the caller wants to size.
-/

namespace Ferry

inductive ClassificationError where
  | unsupportedCallback (namespaceName name : String)
  | misplacedCallbackArgument (param : String) (index : Nat)
deriving DecidableEq, Repr, Inhabited

/-- What a parameter has added to the counts so far. -/
structure Contribution where
  input : Nat := 0
  output : Nat := 0
deriving DecidableEq, Repr, Inhabited

structure Candidate where
  param : Param
  handling : Handling
  contribution : Contribution
deriving Inhabited

namespace Candidate

def ofParam (p : Param) : Candidate := ⟨p, .normal, {}⟩

def isHidden (c : Candidate) : Bool := c.handling = .hidden

end Candidate

/-- The parameters under classification with the running counts. -/
structure Classifying where
  candidates : List Candidate
  inputs : Nat
  outputs : Nat
deriving Inhabited

namespace Classifying

def start (params : List Param) : Classifying :=
  ⟨params.map .ofParam, 0, 0⟩

def setHandling (c : Classifying) (i : Nat) (h : Handling) : Classifying :=
  { c with candidates := c.candidates.modify i fun x => { x with handling := h } }

def hide (c : Classifying) (i : Nat) : Classifying :=
  match c.candidates[i]? with
  | none => c
  | some x =>
    { candidates := c.candidates.modify i fun x => { x with handling := .hidden, contribution := {} }
      inputs := c.inputs - x.contribution.input
      outputs := c.outputs - x.contribution.output }

def hide? (c : Classifying) (i : Option Nat) : Classifying :=
  i.elim c c.hide

def count (c : Classifying) (i : Nat) (d : Direction) : Classifying :=
  let added : Contribution := ⟨d.isIn.toNat, d.isOut.toNat⟩
  { candidates := c.candidates.modify i fun x => { x with contribution := added }
    inputs := c.inputs + added.input
    outputs := c.outputs + added.output }

def isInput (c : Classifying) (i : Nat) : Bool :=
  c.candidates[i]?.any (·.param.direction = .input)

end Classifying

def misplaced? (n i : Nat) (closure destroy : Option Nat) : Option Nat :=
  (closure.toList ++ destroy.toList).find? fun j => decide (n ≤ j) || j == i

def classifyOne (c : Classifying) (i : Nat) (p : Param) : Except ClassificationError Classifying :=
  let n := c.candidates.length
  match p.type with
  | .array _ length =>
    match length.parameter?.filter fun l => decide (l < n) && l != i with
    | some l =>
      let c := c.setHandling i (.array l)
      let callerSized := p.direction = .output && p.callerAllocates && c.isInput l
      .ok (if callerSized then c else c.hide l)
    | none => .ok c
  | .callback signature =>
    if p.direction = .input then
      if p.destroy.isSome && p.closure.isNone then
        .error (.unsupportedCallback signature.namespaceName signature.name)
      else
        match misplaced? n i p.closure p.destroy with
        | some index => .error (.misplacedCallbackArgument p.name index)
        | none =>
          .ok (((c.setHandling i (.callback p.closure p.destroy p.scope)).hide? p.destroy).hide? p.closure)
    else .ok c
  | .destroyNotify => .ok (c.setHandling i .hidden)
  | _ => .ok c

/-- One step: parameters that are hidden already are passed over; visible ones are counted. -/
def classifyStep (c : Classifying) (i : Nat) : Except ClassificationError Classifying :=
  match c.candidates[i]? with
  | none => .ok c
  | some x =>
    if x.isHidden then .ok c
    else do
      let c ← classifyOne c i x.param
      let hidden := c.candidates[i]?.any (·.isHidden)
      return if hidden then c else c.count i x.param.direction

structure Classified where
  parameters : List Parameter
  inputs : Nat
  outputs : Nat
  resultLength : Option Nat
deriving Inhabited

def assignPositions : List Candidate → (index next : Nat) → List Parameter
  | [], _, _ => []
  | c :: rest, index, next =>
    if !c.isHidden && c.param.direction.isIn then
      ⟨index, c.param, c.handling, some next⟩ :: assignPositions rest (index + 1) (next + 1)
    else
      ⟨index, c.param, c.handling, none⟩ :: assignPositions rest (index + 1) next

/-- The parameter that holds the length of the return value, when the caller is shown it. -/
def resultLength? (s : Signature) : Option Nat :=
  if s.skipsResult then none
  else s.result.lengthIndex?.filter fun l => decide (l < s.params.length)

def classify (s : Signature) : Except ClassificationError Classified := do
  let c ← (List.range s.params.length).foldlM classifyStep (Classifying.start s.params)
  let c := if s.skipsResult then c else { c with outputs := c.outputs + 1 }
  let resultLength := resultLength? s
  let c := c.hide? resultLength
  return ⟨assignPositions c.candidates 0 0, c.inputs, c.outputs, resultLength⟩

end Ferry
