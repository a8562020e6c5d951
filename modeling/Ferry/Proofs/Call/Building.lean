import Ferry.Proofs.Call.Running
import Ferry.Proofs.Plan.Obtained

/-!
# What one step of building does

`Frame.BuildStep` lists the outcomes of building one parameter, with the frame and the engine that each
leaves: nothing for a hidden parameter, a cell or a buffer for an output, a converted value for an input. All
that is said of building is derived from this list.
-/

set_option autoImplicit false

namespace Ferry

namespace Plan

def requested (p : Plan) (length : Nat) (arguments : List Value) : Except InvokeError Nat :=
  match p.parameter? length with
  | none => .error (.marshal "" .unknownLength)
  | some q =>
    if q.position.isNone then .error (.marshal q.name .unknownLength)
    else
      match (q.argument arguments).int64? with
      | some i =>
        if 0 ≤ i.toInt then .ok i.toInt.toNat
        else .error (.invalidArgument q.name q.type (q.argument arguments))
      | none => .error (.invalidArgument q.name q.type (q.argument arguments))

/-- The element count of the buffer for an output that the caller provides, and its size if that is a machine
word. -/
def bufferSize (p : Plan) (q : Parameter) (arguments : List Value) : Except InvokeError (Option Nat × Option Nat) :=
  match q.handling, q.type with
  | .array length, .array element _ =>
    (p.requested length arguments).map fun count => (some count, byteSize? count element.elementSize)
  | _, .array element (.fixed count) => .ok (some count, byteSize? count element.elementSize)
  | _, .array _ _ => .error (.marshal q.name .unknownLength)
  | _, type => .ok (none, some type.inlineSize)

theorem bufferSize_array {p : Plan} {q : Parameter} {arguments : List Value} {element : Ty} {length : ArrayLength}
    {size : Nat} {settled : Option Nat}
    (type : q.type = .array element length) (sized : p.bufferSize q arguments = .ok (settled, some size)) :
    ∃ count, settled = some count ∧ size = count * element.elementSize ∧
      ((∃ l, q.handling = .array l ∧ p.requested l arguments = .ok count) ∨
        (∀ l, q.handling ≠ .array l) ∧ length = .fixed count) := by
  unfold bufferSize at sized
  cases handling : q.handling with
  | array l =>
      rw [handling, type] at sized
      simp only at sized
      cases asked : p.requested l arguments with
      | error e =>
          rw [asked] at sized
          cases sized
      | ok count =>
          rw [asked] at sized
          obtain ⟨rfl, fits⟩ := Prod.mk.inj (Except.ok.inj sized)
          exact ⟨count, rfl, (byteSize?_eq_some.mp fits).2, Or.inl ⟨l, rfl, asked⟩⟩
  | _ =>
      rw [handling, type] at sized
      cases length with
      | fixed count =>
          obtain ⟨rfl, fits⟩ := Prod.mk.inj (Except.ok.inj sized)
          exact ⟨count, rfl, (byteSize?_eq_some.mp fits).2, Or.inr ⟨by simp, rfl⟩⟩
      | _ => cases sized

/-- The length parameter that an element count is passed through, and the count in its representation. -/
def lengthSlot (p : Plan) (length count : Nat) : Except InvokeError (Parameter × Slot) :=
  match p.parameter? length with
  | none => .error (.marshal "" .unknownLength)
  | some q =>
    match encodeLength count q.type with
    | .error e => .error (.marshal q.name e)
    | .ok encoded => .ok (q, encoded)

end Plan

namespace Frame

def withCell (f : Frame) (i : Nat) : Frame :=
  f.update i fun b => { b with slot := .ofAddress (f.cell i) }

/-- An element count goes into the slot of a length parameter, or its cell is passed. -/
def withLength (f : Frame) (l : Nat) (d : Direction) (encoded : Slot) : Frame :=
  match d with
  | .input => f.update l fun b => { b with slot := encoded }
  | .both => f.withCell l
  | .output => f

/-- Something goes into the slot of a parameter that a callback refers to, if it does. -/
def linkTo (f : Frame) (j : Option Nat) (slot : Slot) : Frame :=
  j.elim f fun j => f.update j fun b => { b with slot }

/-- A value that is passed by reference is remembered, and the address of its cell is passed. -/
def rehomed (f : Frame) (i : Nat) : Frame :=
  f.update i fun b => { b with engineMade := b.slot, slot := .ofAddress (f.cell i) }

end Frame

def Engine.withCell (s : Engine) (f : Frame) (i : Nat) (slot : Slot) : Engine :=
  { s with memory := s.memory.store .u64 (f.cell i) slot }

/-- An element count goes into the cell of a length parameter that is passed both ways. -/
def Engine.withLength (s : Engine) (f : Frame) (l : Nat) (d : Direction) (encoded : Slot) : Engine :=
  if d = .both then s.withCell f l encoded else s

namespace Frame

variable {f f' : Frame} {s s' : Engine} {arguments : List Value} {p : Parameter} {r : Except InvokeFailure Unit}

/-- The outcomes of making room for an output. -/
inductive Reserves (arguments : List Value) (p : Parameter) (f : Frame) (s : Engine) :
    Except InvokeFailure Unit → Frame → Engine → Prop
  | cell (own : p.callerAllocates = false) :
    Reserves arguments p f s (.ok ())
      (f.update p.index fun b => { b with slot := .ofAddress (f.cell p.index), built := true }) s
  | buffer (given : p.callerAllocates = true) (count : Option Nat) (size : Nat) (block : UInt64) (s' : Engine)
    (sized : f.plan.bufferSize p arguments = .ok (count, some size))
    (made : EngineM.allocate size s = (some block, s')) :
    Reserves arguments p f s (.ok ())
      (f.update p.index fun b => { b with
        count := count.or b.count, slot := .ofAddress block, buffer := some block, built := true }) s'
  | unsized (given : p.callerAllocates = true) (e : InvokeError)
    (refused : f.plan.bufferSize p arguments = .error e) : Reserves arguments p f s (.error (.error e)) f s
  | overflow (given : p.callerAllocates = true) (count : Option Nat)
    (sized : f.plan.bufferSize p arguments = .ok (count, none)) :
    Reserves arguments p f s (.error .overflow) (f.update p.index fun b => { b with count := count.or b.count }) s
  | full (given : p.callerAllocates = true) (count : Option Nat) (size : Nat) (s' : Engine)
    (sized : f.plan.bufferSize p arguments = .ok (count, some size))
    (made : EngineM.allocate size s = (none, s')) :
    Reserves arguments p f s (.error (.error (.marshal p.name (.allocationFailed size))))
      (f.update p.index fun b => { b with count := count.or b.count }) s'

/-- The outcomes of converting the value of the caller. -/
inductive Supplies (p : Parameter) (value : Value) (f : Frame) (s : Engine) :
    Except InvokeFailure Unit → Frame → Engine → Prop
  | value (normal : p.handling = .normal) (slot : Slot) (s' : Engine)
    (converted : toNative value p.type p.nullable s = (.ok slot, s')) :
    Supplies p value f s (.ok ()) (f.update p.index fun b => { b with slot, built := true }) s'
  | valueRefused (normal : p.handling = .normal) (c : Failure MarshalError) (s' : Engine)
    (refused : toNative value p.type p.nullable s = (.error c, s')) :
    Supplies p value f s (.error (.ofConversion p.name p.type value c)) f s'
  | array (l : Nat) (element : Ty) (length : ArrayLength) (linked : p.handling = .array l)
    (type : p.type = .array element length) (slot : Slot) (count : Nat) (s' : Engine) (q : Parameter)
    (encoded : Slot) (converted : encodeArray value element length p.nullable s = (.ok (slot, count), s'))
    (passed : f.plan.lengthSlot l count = .ok (q, encoded)) :
    Supplies p value f s (.ok ())
      ((f.update p.index fun b => { b with slot, count := some count, built := true }).withLength l q.direction
        encoded) (s'.withLength f l q.direction encoded)
  | arrayRefused (l : Nat) (element : Ty) (length : ArrayLength) (linked : p.handling = .array l)
    (type : p.type = .array element length) (c : Failure MarshalError) (s' : Engine)
    (refused : encodeArray value element length p.nullable s = (.error c, s')) :
    Supplies p value f s (.error (.ofConversion p.name p.type value c)) f s'
  | lengthRefused (l : Nat) (element : Ty) (length : ArrayLength) (linked : p.handling = .array l)
    (type : p.type = .array element length) (slot : Slot) (count : Nat) (s' : Engine) (e : InvokeError)
    (converted : encodeArray value element length p.nullable s = (.ok (slot, count), s'))
    (refused : f.plan.lengthSlot l count = .error e) :
    Supplies p value f s (.error (.error e))
      (f.update p.index fun b => { b with slot, count := some count, built := true }) s'
  | callback (closure destroy : Option Nat) (scope : Scope) (signature : Signature)
    (handled : p.handling = .callback closure destroy scope) (type : p.type = .callback signature)
    (g : FunctionRef) (callable : value = .function g) (made : Callback) (s' : Engine)
    (run : EngineM.makeCallback g.id signature scope s = (.ok made, s')) :
    Supplies p value f s (.ok ())
      ((((f.update p.index fun b => { b with slot := .ofAddress made.code }).linkTo closure
        (.ofAddress made.token)).linkTo destroy (.ofAddress Engine.notifier)).update p.index fun b =>
          { b with callback := some made, built := true }) s'
  | noCallback (closure destroy : Option Nat) (scope : Scope) (signature : Signature)
    (handled : p.handling = .callback closure destroy scope) (type : p.type = .callback signature)
    (absent : value.isNullish = true) (nullable : p.nullable = true) :
    Supplies p value f s (.ok ()) (f.update p.index fun b => { b with built := true }) s
  | refused (e : InvokeError)
    (other : ∀ l element length, p.handling = .array l → p.type ≠ .array element length) :
    Supplies p value f s (.error (.error e)) f s

/-- The outcomes of building one parameter. -/
inductive BuildStep (arguments : List Value) (p : Parameter) (f : Frame) (s : Engine) :
    Except InvokeFailure Unit → Frame → Engine → Prop
  | hidden (hidden : p.handling = .hidden) : BuildStep arguments p f s (.ok ()) f s
  | output (visible : p.handling ≠ .hidden) (out : p.direction = .output) (r : Except InvokeFailure Unit)
    (f' : Frame) (s' : Engine) (reserves : Reserves arguments p f s r f' s') : BuildStep arguments p f s r f' s'
  | input (visible : p.handling ≠ .hidden) (supplied : p.direction = .input) (f' : Frame) (s' : Engine)
    (supplies : Supplies p (p.argument arguments) f s (.ok ()) f' s') : BuildStep arguments p f s (.ok ()) f' s'
  | both (visible : p.handling ≠ .hidden) (supplied : p.direction = .both) (f' : Frame) (s' : Engine)
    (supplies : Supplies p (p.argument arguments) f s (.ok ()) f' s') :
    BuildStep arguments p f s (.ok ()) (f'.rehomed p.index)
      (s'.withCell f' p.index (f'.binding p.index).slot)
  | refused (visible : p.handling ≠ .hidden) (supplied : p.direction ≠ .output) (e : InvokeFailure) (f' : Frame)
    (s' : Engine) (supplies : Supplies p (p.argument arguments) f s (.error e) f' s') :
    BuildStep arguments p f s (.error e) f' s'

/-! ## The list is complete -/

theorem run_requestedCount (f : Frame) (s : Engine) (length : Nat) (arguments : List Value) :
    f.run (FrameM.requestedCount length arguments) s =
      (((f.plan.requested length arguments).mapError .error, f), s) := by
  have start : f.run (FrameM.requestedCount length arguments) s =
      f.run (match f.plan.parameter? length with
        | none => throw (.error (.marshal "" .unknownLength))
        | some p => do
          if p.position.isNone then throw (.error (.marshal p.name .unknownLength))
          let value := p.argument arguments
          match value.int64? with
          | some i =>
            if 0 ≤ i.toInt then return i.toInt.toNat
            else throw (.error (.invalidArgument p.name p.type value))
          | none => throw (.error (.invalidArgument p.name p.type value)) : FrameM Nat) s := rfl
  rw [start, Plan.requested]
  cases f.plan.parameter? length with
  | none => rfl
  | some q =>
      by_cases unplaced : q.position.isNone = true
      · simp only [unplaced, if_true]
        rfl
      · simp only [unplaced, Bool.false_eq_true, if_false]
        cases (q.argument arguments).int64? with
        | none => rfl
        | some i => by_cases positive : 0 ≤ i.toInt <;> simp only [positive, if_true, if_false] <;> rfl

theorem update_count_none (f : Frame) (i : Nat) :
    (f.update i fun b => { b with count := (none : Option Nat).or b.count }) = f := by
  have same : (f.update i fun b => { b with count := (none : Option Nat).or b.count }) = f.update i id :=
    update_congr (by simp)
  rw [same]
  simp [update]

theorem run_elementBytes (f : Frame) (s : Engine) (count : Nat) (element : Ty) :
    f.run (FrameM.elementBytes count element) s =
      (((byteSize? count element.elementSize).elim (.error .overflow) .ok, f), s) := by
  unfold FrameM.elementBytes
  cases byteSize? count element.elementSize <;> rfl

theorem run_bufferSize (f : Frame) (s : Engine) (p : Parameter) (arguments : List Value) :
    f.run (FrameM.bufferSize p arguments) s =
      match f.plan.bufferSize p arguments with
      | .ok (count, size) => ((size.elim (.error .overflow) .ok, f.update p.index fun b =>
          { b with count := count.or b.count }), s)
      | .error e => ((.error (.error e), f), s) := by
  cases type : p.type with
  | array element length =>
      cases handling : p.handling with
      | array l =>
          simp only [FrameM.bufferSize, Plan.bufferSize, handling, type]
          rw [run_bind, run_requestedCount]
          cases f.plan.requested l arguments with
          | error e => rfl
          | ok count => exact run_elementBytes _ s count element
      | _ =>
          simp only [FrameM.bufferSize, Plan.bufferSize, handling, type]
          cases length with
          | fixed count => exact run_elementBytes _ s count element
          | _ => rfl
  | _ =>
      simp only [FrameM.bufferSize, Plan.bufferSize, type]
      cases p.handling <;>
      · simp only [update_count_none]
        rfl

theorem run_reserveOutput (run : f.run (FrameM.reserveOutput p arguments) s = ((r, f'), s')) :
    Reserves arguments p f s r f' s' := by
  unfold FrameM.reserveOutput at run
  by_cases given : p.callerAllocates = true
  · rw [if_pos given, run_bind, run_bufferSize] at run
    cases sized : f.plan.bufferSize p arguments with
    | error e =>
        rw [sized] at run
        cases run
        exact .unsized given e sized
    | ok found =>
        obtain ⟨count, _ | size⟩ := found
        · rw [sized] at run
          cases run
          exact .overflow given count sized
        rw [sized] at run
        have allocation := (run_lift_bind _ _ _ s).symm.trans run
        rcases made : EngineM.allocate size s with ⟨result, s₁⟩
        rw [made] at allocation
        cases result with
        | none =>
            cases allocation
            exact .full given count size s₁ sized made
        | some block =>
            have ends : ((Except.ok (), (f.update p.index fun b => { b with count := count.or b.count }).update
                p.index fun b => { b with slot := .ofAddress block, buffer := some block, built := true }), s₁) =
                  ((r, f'), s') := allocation
            rw [update_update] at ends
            cases ends
            exact .buffer given count size block _ sized made
  · rw [if_neg given] at run
    have ends : ((Except.ok (), (f.withCell p.index).update p.index fun b => { b with built := true }), s) =
        ((r, f'), s') := run
    rw [withCell, update_update] at ends
    cases ends
    exact .cell (by simpa using given)

theorem run_passLength (f : Frame) (s : Engine) (l count : Nat) :
    f.run (FrameM.passLength l count) s =
      match f.plan.lengthSlot l count with
      | .ok (q, encoded) => ((.ok (), f.withLength l q.direction encoded), s.withLength f l q.direction encoded)
      | .error e => ((.error (.error e), f), s) := by
  have start : f.run (FrameM.passLength l count) s =
      f.run (match f.plan.parameter? l with
        | none => throw (.error (.marshal "" .unknownLength))
        | some p =>
          match encodeLength count p.type with
          | .error e => throw (.error (.marshal p.name e))
          | .ok encoded =>
            match p.direction with
            | .input => FrameM.setSlot l encoded
            | .both => do
              let f ← getThe Frame
              f.storeCell l encoded
              FrameM.passCell l
            | .output => return () : FrameM Unit) s := rfl
  rw [start, Plan.lengthSlot]
  cases f.plan.parameter? l with
  | none => rfl
  | some q =>
      simp only
      cases encodeLength count q.type with
      | error e => rfl
      | ok encoded => cases direction : q.direction <;> simp only [direction] <;> rfl

theorem run_buildArray {l : Nat} {value : Value} (linked : p.handling = .array l)
    (run : f.run (FrameM.buildArray p l value) s = ((r, f'), s')) : Supplies p value f s r f' s' := by
  unfold FrameM.buildArray at run
  cases type : p.type with
  | array element length =>
      simp only [type] at run
      rw [run_bind, run_convert] at run
      rcases converted : encodeArray value element length p.nullable s with ⟨result, s₁⟩
      rw [converted] at run
      cases result with
      | error c =>
          cases run
          rw [← type]
          exact .arrayRefused l element length linked type c s₁ converted
      | ok made =>
          obtain ⟨slot, count⟩ := made
          have passing : (f.update p.index fun b => { b with slot, count := some count, built := true }).run
              (FrameM.passLength l count) s₁ = ((r, f'), s') := run
          rw [run_passLength] at passing
          cases passed : f.plan.lengthSlot l count with
          | error e =>
              rw [plan_update, passed] at passing
              cases passing
              exact .lengthRefused l element length linked type slot count _ e converted passed
          | ok found =>
              obtain ⟨q, encoded⟩ := found
              rw [plan_update, passed] at passing
              cases passing
              exact .array l element length linked type slot count s₁ q encoded converted passed
  | _ =>
      simp only [type] at run
      cases run
      exact .refused _ fun _ _ _ _ same => by rw [type] at same; cases same

theorem run_buildValue {value : Value} (normal : p.handling = .normal)
    (run : f.run (FrameM.buildValue p value) s = ((r, f'), s')) : Supplies p value f s r f' s' := by
  unfold FrameM.buildValue at run
  rw [run_bind, run_convert] at run
  rcases converted : toNative value p.type p.nullable s with ⟨result, s₁⟩
  rw [converted] at run
  cases result with
  | error c =>
      cases run
      exact .valueRefused normal c s₁ converted
  | ok slot =>
      cases run
      exact .value normal slot s₁ converted

theorem run_buildCallback {closure destroy : Option Nat} {scope : Scope} {value : Value}
    (handled : p.handling = .callback closure destroy scope)
    (run : f.run (FrameM.buildCallback p closure destroy scope value) s = ((r, f'), s')) :
    Supplies p value f s r f' s' := by
  have other : ∀ l element length, p.handling = .array l → p.type ≠ .array element length := by
    intro l element length same
    rw [handled] at same
    cases same
  unfold FrameM.buildCallback at run
  cases type : p.type with
  | callback signature =>
      simp only [type] at run
      by_cases unsupported : (destroy.isSome && closure.isNone) = true
      · rw [if_pos unsupported] at run
        cases run
        exact .refused _ other
      · rw [if_neg unsupported] at run
        rw [run_bind, run_get] at run
        simp only at run
        cases misplaced : misplaced? f.plan.parameters.length p.index closure destroy with
        | some index =>
            rw [misplaced] at run
            cases run
            exact .refused _ other
        | none =>
            rw [misplaced] at run
            cases value with
            | function g =>
                simp only at run
                rw [run_bind, run_convert] at run
                rcases made : EngineM.makeCallback g.id signature scope s with ⟨e | callback, s₁⟩ <;> rw [made] at run
                · obtain ⟨rfl, -⟩ := EngineM.makeCallback_error made
                  cases run
                  exact .refused e other
                -- both references are optional; without one the frame is left as it is
                have ends : ((Except.ok (), (((f.update p.index fun b => { b with
                    slot := .ofAddress callback.code }).linkTo closure (.ofAddress callback.token)).linkTo destroy
                      (.ofAddress Engine.notifier)).update p.index fun b =>
                        { b with callback := some callback, built := true }), s₁) = ((r, f'), s') := by
                  rw [← run]
                  cases closure <;> cases destroy <;> rfl
                cases ends
                exact .callback closure destroy scope signature handled type g rfl callback _ made
            | undefined | null =>
                simp only at run
                split at run
                · rename_i admitted
                  cases run
                  exact .noCallback closure destroy scope signature handled type rfl (by simpa [Value.isNullish] using admitted)
                · cases run
                  exact .refused _ other
            | _ =>
                simp only [Value.isNullish, Bool.false_and, Bool.false_eq_true, if_false] at run
                cases run
                exact .refused _ other
  | _ =>
      simp only [type] at run
      cases run
      exact .refused _ other

theorem run_rehome (f : Frame) (s : Engine) (i : Nat) :
    f.run (FrameM.rehome i) s = ((.ok (), f.rehomed i), s.withCell f i (f.binding i).slot) := by
  have run : f.run (FrameM.rehome i) s = ((.ok (), (f.update i fun b =>
      { b with engineMade := (f.binding i).slot }).withCell i), s.withCell f i (f.binding i).slot) := rfl
  rw [run, withCell, update_update, rehomed]
  congr 2
  exact update_congr rfl

theorem run_supplied {act : FrameM Unit} (visible : p.handling ≠ .hidden) (supplied : p.direction ≠ .output)
    (converts : ∀ r f' s', f.run act s = ((r, f'), s') → Supplies p (p.argument arguments) f s r f' s')
    (run : f.run (act >>= fun _ => if p.direction = .both then FrameM.rehome p.index else pure ()) s =
      ((r, f'), s')) : BuildStep arguments p f s r f' s' := by
  rcases run_bind_cases run with ⟨u, f₁, s₁, first, later⟩ | ⟨e, failed, rfl⟩
  · have supplies := converts _ _ _ first
    cases direction : p.direction with
    | input =>
        rw [direction, if_neg (by simp)] at later
        cases later
        exact .input visible direction f' s' supplies
    | output => exact absurd direction supplied
    | both =>
        rw [direction, if_pos rfl, run_rehome] at later
        cases later
        exact .both visible direction f₁ s₁ supplies
  · exact .refused visible supplied e f' s' (converts _ _ _ failed)

theorem run_buildParameter (run : f.run (FrameM.buildParameter arguments p) s = ((r, f'), s')) :
    BuildStep arguments p f s r f' s' := by
  unfold FrameM.buildParameter at run
  by_cases hidden : p.isHidden = true
  · rw [if_pos hidden] at run
    cases run
    exact .hidden (p.isHidden_iff.mp hidden)
  · rw [if_neg hidden] at run
    have visible : p.handling ≠ .hidden := fun same => hidden (p.isHidden_iff.mpr same)
    by_cases out : p.direction = .output
    · rw [if_pos out] at run
      exact .output visible out r f' s' (run_reserveOutput run)
    · rw [if_neg out] at run
      cases handling : p.handling with
      | hidden => exact absurd handling visible
      | normal =>
          simp only [handling] at run
          exact run_supplied visible out (fun _ _ _ => run_buildValue handling) run
      | array l =>
          simp only [handling] at run
          exact run_supplied visible out (fun _ _ _ => run_buildArray handling) run
      | callback closure destroy scope =>
          simp only [handling] at run
          exact run_supplied visible out (fun _ _ _ => run_buildCallback handling) run

/-! ## The whole build -/

end Frame

def FrameM.start (receiver : Option Value) : FrameM Unit := do
  let plan := (← getThe Frame).plan
  if plan.isMethod then buildReceiver receiver
  plan.parameters.forM fun q =>
    if q.isHidden && q.direction.isOut then passCell q.index else pure ()

namespace Frame

variable {f f' : Frame} {s s' : Engine} {arguments : List Value}

def withHiddenCells (parameters : List Parameter) (f : Frame) : Frame :=
  parameters.foldl (fun f q => if q.isHidden && q.direction.isOut then f.withCell q.index else f) f

theorem run_hiddenCells (parameters : List Parameter) (f : Frame) (s : Engine) :
    f.run (parameters.forM fun q =>
        if q.isHidden && q.direction.isOut then FrameM.passCell q.index else pure ()) s =
      ((.ok (), f.withHiddenCells parameters), s) := by
  induction parameters generalizing f with
  | nil => rfl
  | cons q rest ih =>
      rw [run_forM_cons, run_bind]
      by_cases hidden : (q.isHidden && q.direction.isOut) = true
      · rw [if_pos hidden]
        refine (ih (f.withCell q.index)).trans ?_
        simp only [withHiddenCells, List.foldl_cons, hidden, if_true]
      · rw [if_neg hidden]
        refine (ih f).trans ?_
        simp only [withHiddenCells, List.foldl_cons]
        rw [if_neg hidden]

def ReceiverStep (receiver : Option Value) (f : Frame) (s : Engine) (f' : Frame) (s' : Engine) : Prop :=
  (f.plan.isMethod = false ∧ f' = f ∧ s' = s) ∨
    (f.plan.isMethod = true ∧ ∃ value slot, receiver = some value ∧
      toNative value f.plan.source.descriptor.container false s = (.ok slot, s') ∧
      f' = { f with receiver := slot })

theorem run_start_ok {receiver : Option Value} (run : f.run (FrameM.start receiver) s = ((.ok (), f'), s')) :
    ∃ f₁, ReceiverStep receiver f s f₁ s' ∧ f' = f₁.withHiddenCells f.plan.parameters := by
  unfold FrameM.start at run
  rw [run_bind, run_get] at run
  simp only at run
  by_cases method : f.plan.isMethod = true
  · rw [if_pos method] at run
    obtain ⟨u, f₁, s₁, first, later⟩ := run_bind_ok run
    rw [run_hiddenCells] at later
    cases later
    refine ⟨f₁, ?_, rfl⟩
    unfold FrameM.buildReceiver at first
    rw [run_bind, run_get] at first
    cases receiver with
    | none => cases first
    | some value =>
        simp only at first
        rw [run_bind, run_convert] at first
        rcases converted : toNative value f.plan.source.descriptor.container false s with ⟨r, s₂⟩
        rw [converted] at first
        cases r with
        | error e => cases first
        | ok slot =>
            cases first
            exact Or.inr ⟨method, value, slot, rfl, converted, rfl⟩
  · rw [if_neg method, run_hiddenCells] at run
    cases run
    exact ⟨f, Or.inl ⟨by simpa using method, rfl, rfl⟩, rfl⟩

theorem run_start_error {receiver : Option Value} {e : InvokeFailure}
    (run : f.run (FrameM.start receiver) s = ((.error e, f'), s')) :
    f' = f ∧ ((∃ cause, e = .error cause) ∧ s' = s ∨ ∃ value c, receiver = some value ∧
      toNative value f.plan.source.descriptor.container false s = (.error c, s') ∧
        e = .ofConversion "self" f.plan.source.descriptor.container value c) := by
  unfold FrameM.start at run
  rw [run_bind, run_get] at run
  simp only at run
  by_cases method : f.plan.isMethod = true
  · rw [if_pos method] at run
    rcases run_bind_cases run with ⟨u, f₁, s₁, -, later⟩ | ⟨e, failed, same⟩
    · rw [run_hiddenCells] at later
      cases later
    · cases same
      unfold FrameM.buildReceiver at failed
      rw [run_bind, run_get] at failed
      cases receiver with
      | none =>
          cases failed
          exact ⟨rfl, Or.inl ⟨⟨_, rfl⟩, rfl⟩⟩
      | some value =>
          simp only at failed
          rw [run_bind, run_convert] at failed
          rcases converted : toNative value f.plan.source.descriptor.container false s with ⟨r, s₂⟩
          rw [converted] at failed
          cases r with
          | error c =>
              cases failed
              exact ⟨rfl, Or.inr ⟨value, c, rfl, converted, rfl⟩⟩
          | ok slot => cases failed
  · rw [if_neg method, run_hiddenCells] at run
    cases run

theorem run_build (receiver : Option Value) (arguments : List Value) (f : Frame) (s : Engine) :
    f.run (FrameM.build receiver arguments) s =
      f.run (FrameM.start receiver >>= fun _ => f.plan.parameters.forM (FrameM.buildParameter arguments)) s := by
  unfold FrameM.build FrameM.start
  rw [run_bind, run_bind, run_bind, run_get]
  simp only
  by_cases method : f.plan.isMethod = true
  · simp only [method, if_true]
    rw [run_bind, run_bind]
    rcases f.run (FrameM.buildReceiver receiver) s with ⟨⟨r, f₁⟩, s₁⟩
    cases r with
    | error e => rfl
    | ok u => exact run_bind _ _ _ _
  · simp only [method, Bool.false_eq_true, if_false]
    exact run_bind _ _ _ _

theorem run_start_plain {receiver : Option Value} (plain : f.plan.isMethod = false) (s : Engine) :
    f.run (FrameM.start receiver) s = ((.ok (), f.withHiddenCells f.plan.parameters), s) := by
  unfold FrameM.start
  rw [run_bind, run_get]
  simp only [plain, Bool.false_eq_true, if_false]
  exact run_hiddenCells f.plan.parameters f s

end Frame

namespace Plan

variable {p : Plan} {receiver : Option Value} {arguments : List Value} {s s' : Engine} {f : Frame}

theorem prepare_ok (built : p.prepare receiver arguments s = (.ok f, s')) :
    p.inputs ≤ arguments.length ∧ ∃ f₀ s₀, Frame.fresh? p s = (some f₀, s₀) ∧
      f₀.run (FrameM.build receiver arguments) s₀ = ((.ok (), f), s') := by
  unfold prepare at built
  by_cases few : arguments.length < p.inputs
  · rw [if_pos few] at built
    cases built
  · rw [if_neg few] at built
    refine ⟨Nat.le_of_not_lt few, ?_⟩
    rcases fresh : Frame.fresh? p s with ⟨_ | f₀, s₀⟩
    · simp only [bind, StateT.bind, fresh] at built
      cases built
    · refine ⟨f₀, s₀, rfl, ?_⟩
      rcases build : f₀.run (FrameM.build receiver arguments) s₀ with ⟨⟨r, f₁⟩, s₁⟩
      simp only [bind, StateT.bind, fresh, build] at built
      cases r with
      | error e => cases built
      | ok u =>
          cases built
          rfl

theorem prepare_error {e : InvokeFailure} (refused : p.prepare receiver arguments s = (.error e, s')) :
    (arguments.length < p.inputs ∧ s' = s) ∨ Frame.fresh? p s = (none, s') ∨ p.inputs ≤ arguments.length ∧
      ∃ f₀ s₀ f s₁, Frame.fresh? p s = (some f₀, s₀) ∧
        f₀.run (FrameM.build receiver arguments) s₀ = ((.error e, f), s₁) ∧ s' = (f.reclaim s₁).2 := by
  unfold prepare at refused
  by_cases few : arguments.length < p.inputs
  · rw [if_pos few] at refused
    cases refused
    exact Or.inl ⟨few, rfl⟩
  · rw [if_neg few] at refused
    rcases fresh : Frame.fresh? p s with ⟨_ | f₀, s₀⟩
    · simp only [bind, StateT.bind, fresh] at refused
      cases refused
      exact Or.inr (Or.inl rfl)
    · rcases build : f₀.run (FrameM.build receiver arguments) s₀ with ⟨⟨r, f₁⟩, s₁⟩
      simp only [bind, StateT.bind, fresh, build] at refused
      cases r with
      | error e' =>
          cases refused
          exact Or.inr (Or.inr ⟨Nat.le_of_not_lt few, f₀, s₀, f₁, s₁, rfl, build, rfl⟩)
      | ok u => cases refused

theorem prepare_panic {text : String} (refused : p.prepare receiver arguments s = (.error (.panic text), s')) :
    ∃ f₀ s₀ f s₁, Frame.fresh? p s = (some f₀, s₀) ∧
      f₀.run (FrameM.build receiver arguments) s₀ = ((.error (.panic text), f), s₁) := by
  unfold prepare at refused
  by_cases few : arguments.length < p.inputs
  · rw [if_pos few] at refused
    cases refused
  · rw [if_neg few] at refused
    rcases fresh : Frame.fresh? p s with ⟨_ | f₀, s₀⟩
    · simp only [bind, StateT.bind, fresh] at refused
      cases refused
    · rcases build : f₀.run (FrameM.build receiver arguments) s₀ with ⟨⟨e | u, f₁⟩, s₁⟩ <;>
        simp only [bind, StateT.bind, fresh, build] at refused <;> cases refused
      exact ⟨f₀, s₀, f₁, s₁, rfl, build⟩

end Plan

end Ferry
