import Ferry.Proofs.Call.Execution
import Ferry.Proofs.Call.Layout

/-!
# The outputs of a call

What a call yields when native code has returned is said here without the loop that collects it: the return
value, then the output of every visible parameter that native code writes through, each decoded from a place of
its own. The main result is `outputs_of_execute`: every call that succeeds yields just these.
-/

set_option autoImplicit false

namespace Ferry

variable {World : Type} {host : Host World}

/-- An action of the engine that leaves everything where it lay. -/
def EngineM.KeepsPlaces {α : Type} (act : EngineM α) : Prop :=
  ∀ s : Engine, s.memory.SamePlaces (act s).2.memory

namespace EngineM.KeepsPlaces

theorem pure {α : Type} (a : α) : KeepsPlaces (Pure.pure a : EngineM α) := fun s => .refl s.memory

theorem bind {α β : Type} {act : EngineM α} {next : α → EngineM β} (first : KeepsPlaces act)
    (later : ∀ a, KeepsPlaces (next a)) : KeepsPlaces (act >>= next) := fun s => (first s).trans (later _ _)

theorem reserve (size : Nat) : KeepsPlaces (EngineM.reserve size) := fun s => .of_evolves (Frame.reserve_spec size s).1

theorem store (t : NativeType) (a : UInt64) (slot : Slot) : KeepsPlaces (EngineM.store t a slot) :=
  fun s => s.memory.samePlaces_write a _

theorem run {α : Type} {act : EngineM α} (keeps : KeepsPlaces act) (M : Machine World) :
    M.engine.memory.SamePlaces (Run.engine act M).2.engine.memory := keeps M.engine

end EngineM.KeepsPlaces

/-- Native code stores, makes and releases what it likes, but memory that was there stays where it was. -/
def Host.KeepsPlaces (host : Host World) : Prop :=
  ∀ address arguments (M : Machine World), M.engine.memory.SamePlaces (host.enter address arguments M).2.engine.memory

namespace Frame

theorem samePlaces_of_execute (places : host.KeepsPlaces) {f g : Frame} {s : Engine} {settings : InvokeSettings}
    {entry : LogEntry} {world : World} {N : Machine World}
    (run : f.execute host ⟨s.noted settings entry, world⟩ = ((.ok (), g), N)) : s.memory.SamePlaces N.engine.memory := by
  obtain ⟨d, result, rfl, entered⟩ := execute_ok run
  have same := places f.plan.native.address (f.plan.native.arguments.zip f.slots) ⟨{ s.noted settings entry with
    durable := d, counters := { (s.noted settings entry).counters with
      calls := (s.noted settings entry).counters.calls + 1 } }, world⟩
  rw [entered] at same
  simpa using same

/-! ## What is held when native code has returned -/

/-- What a parameter holds: the word in its cell if native code can write there, or else what was passed. -/
def held (f : Frame) (m : Memory) (q : Parameter) : Slot :=
  if q.direction.isOut && !q.callerAllocates then m.load .u64 (f.cell q.index) else (f.binding q.index).slot

/-- The element count that a length parameter holds. -/
def lengthHeld (f : Frame) (m : Memory) (index : Nat) : MarshalM Nat :=
  match f.plan.parameter? index with
  | none => throw .unknownLength
  | some q => decodeLength (f.held m q) q.type

/-- The element count of an output: for a linked array what the length parameter holds, unless the array was
passed both ways and its count was settled when the frame was built. -/
def countHeld (f : Frame) (m : Memory) (q : Parameter) : MarshalM (Option Nat) :=
  match q.handling with
  | .array length =>
    match q.direction, (f.binding q.index).count with
    | .both, some count => return some count
    | _, _ => some <$> f.lengthHeld m length
  | _ => return (f.binding q.index).count

/-- The output of a parameter, from its buffer if the caller provides one, or else from its cell. -/
def outputHeld (f : Frame) (m : Memory) (q : Parameter) : MarshalM Value := do
  let count ← f.countHeld m q
  match (f.binding q.index).buffer, q.type with
  | some block, .struct layout => return .boxed (← ownStructure layout block)
  | some block, .array element length =>
    arrayFromNative element length (.ofAddress block) count q.transfer
  | some block, type => fromNative type (m.load type.native block) q.transfer
  | none, .array element length =>
    arrayFromNative element length (m.load .u64 (f.cell q.index)) count q.transfer
  | none, type => fromNative type (m.load .u64 (f.cell q.index)) q.transfer

def resultHeld (f : Frame) (m : Memory) : MarshalM Value :=
  match f.plan.signature.result, f.plan.resultLength with
  | .array element length, some index => do
    let count ← f.lengthHeld m index
    arrayFromNative element length (f.returned.getD .zero) (some count) f.plan.signature.resultTransfer
  | type, _ => fromNative type (f.returned.getD .zero) f.plan.signature.resultTransfer

/-- The return value, if the caller is shown one, and the outputs of the visible parameters in the order of
declaration. -/
def outputsHeld (f : Frame) (m : Memory) : MarshalM (List Value) := do
  let first ← if f.plan.signature.skipsResult then pure [] else List.singleton <$> f.resultHeld m
  let others ← (f.plan.parameters.filter (·.isOutput)).mapM (f.outputHeld m)
  return first ++ others

/-- Where the output of a visible parameter is: in its cell, or in a buffer that the frame owns. -/
inductive Found (f : Frame) (m : Memory) (q : Parameter) : Prop
  | cell (own : q.callerAllocates = false) (free : (f.binding q.index).buffer = none)
    (unsettled : q.handling = .normal → (f.binding q.index).count = none)
  | buffer (given : q.callerAllocates = true) (direction : q.direction = .output) (b : Block) (hb : b ∈ m.chunks)
    (provided : (f.binding q.index).buffer = some b.address)
    (passed : (f.binding q.index).slot = .ofAddress b.address) (apart : b.address ≠ f.cells)

/-! ## Collecting -/

variable {g f f' : Frame} {m : Memory} {s s' : Engine} {rest : List Parameter} {q : Parameter}

/-- The frame and the engine while outputs are collected: `g` and `m` are the frame and memory right after native
code, and the parameters in `rest` are not collected yet. -/
structure Collecting (g : Frame) (m : Memory) (rest : List Parameter) (f : Frame) (s : Engine) : Prop where
  plan : f.plan = g.plan
  cells : f.cells = g.cells
  returned : f.returned = g.returned
  slot : ∀ i, (f.binding i).slot = (g.binding i).slot
  waiting : ∀ q ∈ rest, f.binding q.index = g.binding q.index
  forward : m.Evolves [] s.memory

namespace Collecting

theorem refl (g : Frame) (rest : List Parameter) (s : Engine) : Collecting g s.memory rest g s :=
  ⟨rfl, rfl, rfl, fun _ => rfl, fun _ _ => rfl, .refl [] _⟩

theorem move (h : Collecting g m rest f s) (forward : s.memory.Evolves [] s'.memory) :
    Collecting g m rest f s' :=
  ⟨h.plan, h.cells, h.returned, h.slot, h.waiting, h.forward.trans forward⟩

theorem settle (h : Collecting g m (q :: rest) f s) (apart : ∀ r ∈ rest, r.index ≠ q.index)
    {change : Binding → Binding} (kept : ∀ b, (change b).slot = b.slot) :
    Collecting g m rest (f.update q.index change) s where
  plan := h.plan
  cells := h.cells
  returned := h.returned
  slot i := by
    rw [← h.slot i]
    exact field_update kept f q.index i
  waiting r hr := by
    rw [binding_update_of_ne (Ne.symm (apart r hr))]
    exact h.waiting r (List.mem_cons_of_mem q hr)
  forward := h.forward

theorem tail (h : Collecting g m (q :: rest) f s) : Collecting g m rest f s :=
  ⟨h.plan, h.cells, h.returned, h.slot, fun r hr => h.waiting r (List.mem_cons_of_mem q hr), h.forward⟩

variable (h : Collecting g m rest f s) (placed : g.Placed m)

include h placed

theorem loadCell_eq {i : Nat} (inside : i < g.plan.parameters.length) :
    f.loadCell i s = (m.load .u64 (g.cell i), s) := by
  have loaded : f.loadCell i s = (s.memory.load .u64 (f.cell i), s) := rfl
  rw [loaded, cell, h.cells]
  congr 1
  exact placed.load_evolves h.forward (by simp) inside

theorem current_eq (inside : q.index < g.plan.parameters.length) : f.current q s = (g.held m q, s) := by
  unfold current held
  split
  · exact h.loadCell_eq placed inside
  · have passed : (f.binding q.index).slot = (g.binding q.index).slot := h.slot q.index
    rw [← passed]
    rfl

theorem currentLength_eq (coherent : g.plan.Coherent) (index : Nat) :
    f.currentLength index s = g.lengthHeld m index s := by
  unfold currentLength lengthHeld
  rw [h.plan]
  cases found : g.plan.parameter? index with
  | none => rfl
  | some q =>
      have inside := coherent.index_lt (List.mem_of_getElem? found)
      have run : (do
          let slot ← f.current q
          decodeLength slot q.type : MarshalM Nat) s =
          decodeLength (f.current q s).1 q.type (f.current q s).2 := rfl
      simp only
      rw [run, h.current_eq placed inside]

end Collecting

theorem run_convert_ok {α : Type} {ε : Type} {blame : ε → InvokeFailure} {act : ExceptT ε EngineM α} {a : α}
    (run : f.run (FrameM.convert blame act) s = ((.ok a, f'), s')) : act s = (.ok a, s') ∧ f = f' := by
  rw [run_convert] at run
  rcases converted : act s with ⟨r, s₁⟩
  rw [converted] at run
  cases r with
  | error e => cases run
  | ok b =>
      cases run
      exact ⟨rfl, rfl⟩

theorem lengthHeld_reads {index : Nat} {r : Except MarshalError Nat}
    (run : f.lengthHeld m index s = (r, s')) : s' = s := by
  unfold lengthHeld at run
  cases found : f.plan.parameter? index with
  | none =>
      rw [found] at run
      cases run
      rfl
  | some q =>
      have reads := decodeLength_reads (f.held m q) q.type s
      have run : decodeLength (f.held m q) q.type s = (r, s') := by rwa [found] at run
      rw [run] at reads
      exact reads

section Steps

variable (c : Collecting g m rest f s) (placed : g.Placed m) (coherent : g.plan.Coherent)

include c placed coherent

theorem run_collectReturn {v : Value} (run : f.run FrameM.collectReturn s = ((.ok v, f'), s')) :
    g.resultHeld m s = (.ok v, s') ∧ Collecting g m rest f' s' := by
  unfold FrameM.collectReturn at run
  rw [run_bind, run_get] at run
  simp only at run
  rw [c.plan, c.returned] at run
  split at run
  · rename_i element length index type linked
    obtain ⟨count, f₁, s₁, counting, later⟩ := run_bind_ok run
    obtain ⟨counted, rfl⟩ := run_convert_ok counting
    obtain ⟨u, f₂, s₂, noted, last⟩ := run_bind_ok later
    cases noted
    obtain ⟨decoded, rfl⟩ := run_convert_ok last
    rw [c.currentLength_eq placed coherent] at counted
    cases lengthHeld_reads counted
    refine ⟨?_, ?_⟩
    · simp only [resultHeld, type, linked]
      rw [EngineM.failing_bind, counted]
      exact decoded
    · have forward := c.forward.trans (arrayFromNative_evolves decoded)
      exact ⟨c.plan, c.cells, c.returned, c.slot, c.waiting, forward⟩
  · rename_i other
    obtain ⟨decoded, rfl⟩ := run_convert_ok run
    have held : g.resultHeld m =
        fromNative g.plan.signature.result (g.returned.getD .zero) g.plan.signature.resultTransfer := by
      unfold resultHeld
      split
      · rename_i type linked
        exact (other _ _ _ type linked).elim
      · rfl
    rw [held]
    exact ⟨decoded, c.move (fromNative_evolves _ decoded)⟩

end Steps

section Steps

variable (c : Collecting g m (q :: rest) f s) (placed : g.Placed m) (coherent : g.plan.Coherent)
  (apart : ∀ r ∈ rest, r.index ≠ q.index)

include c placed coherent apart

theorem run_settledCount {l count : Nat} (linked : q.handling = .array l)
    (run : f.run (FrameM.settledCount q l) s = ((.ok count, f'), s')) :
    g.countHeld m q s = (.ok (some count), s) ∧ s' = s ∧ Collecting g m rest f' s := by
  unfold FrameM.settledCount at run
  rw [run_bind, run_get] at run
  simp only at run
  rw [c.waiting q List.mem_cons_self] at run
  split at run
  · rename_i settled both known
    cases run
    refine ⟨?_, rfl, c.tail⟩
    simp only [countHeld, linked, both, known]
    rfl
  · obtain ⟨count', f₁, s₁, counting, later⟩ := run_bind_ok run
    obtain ⟨counted, rfl⟩ := run_convert_ok counting
    cases later
    rw [c.currentLength_eq placed coherent] at counted
    cases lengthHeld_reads counted
    refine ⟨?_, rfl, c.settle apart fun _ => rfl⟩
    have held : g.countHeld m q = some <$> g.lengthHeld m l := by
      simp only [countHeld, linked]
    rw [held, map_eq_pure_bind, EngineM.failing_bind, counted]
    rfl

theorem run_collectArray {l : Nat} {v : Value} (linked : q.handling = .array l) (found : g.Found m q)
    (inside : q.index < g.plan.parameters.length)
    (run : f.run (FrameM.collectArray q l) s = ((.ok v, f'), s')) :
    g.outputHeld m q s = (.ok v, s') ∧ Collecting g m rest f' s' := by
  unfold FrameM.collectArray at run
  split at run
  case h_2 => cases run
  case h_1 _ element length type =>
    obtain ⟨count, f₁, s₁, counting, later⟩ := run_bind_ok run
    obtain ⟨counted, rfl, collecting⟩ := run_settledCount c placed coherent apart linked counting
    rw [run_bind, run_get] at later
    simp only at later
    unfold outputHeld
    rw [EngineM.failing_bind, counted, type]
    cases found with
    | cell own free =>
        rw [if_neg (by simp [own]), run_bind, run_lift, collecting.loadCell_eq placed inside] at later
        obtain ⟨decoded, rfl⟩ := run_convert_ok later
        simp only [free]
        exact ⟨decoded, collecting.move (arrayFromNative_evolves decoded)⟩
    | buffer given direction b hb provided passed _ =>
        rw [if_pos given, run_bind, run_pure, collecting.slot, passed] at later
        obtain ⟨decoded, rfl⟩ := run_convert_ok later
        simp only [provided]
        exact ⟨decoded, collecting.move (arrayFromNative_evolves decoded)⟩

omit coherent apart in
theorem run_collectCell {v : Value} (normal : q.handling = .normal) (own : q.callerAllocates = false)
    (free : (g.binding q.index).buffer = none) (unsettled : (g.binding q.index).count = none)
    (inside : q.index < g.plan.parameters.length)
    (run : f.run (FrameM.collectValue q) s = ((.ok v, f'), s')) :
    g.outputHeld m q s = (.ok v, s') ∧ Collecting g m rest f' s' := by
  unfold FrameM.collectValue at run
  rw [if_neg (by simp [own]), run_bind, run_get] at run
  simp only at run
  rw [run_bind, run_lift, c.loadCell_eq placed inside] at run
  obtain ⟨decoded, rfl⟩ := run_convert_ok run
  have held : g.outputHeld m q s = fromNative q.type (m.load .u64 (g.cell q.index)) q.transfer s := by
    have counted : g.countHeld m q s = (.ok none, s) := by
      simp only [countHeld, normal, unsettled]
      rfl
    unfold outputHeld
    rw [EngineM.failing_bind, counted]
    cases q.type with
    | array element length =>
        simp only [free, fromNative]
        rfl
    | _ => simp only [free]
  rw [held]
  exact ⟨decoded, c.tail.move (fromNative_evolves _ decoded)⟩

omit placed coherent in
theorem run_collectBuffer {v : Value} (normal : q.handling = .normal) {b : Block} (hb : b ∈ m.chunks)
    (provided : (g.binding q.index).buffer = some b.address)
    (passed : (g.binding q.index).slot = .ofAddress b.address)
    (run : f.run (FrameM.collectBuffer q) s = ((.ok v, f'), s')) :
    g.outputHeld m q s = (.ok v, s') ∧ Collecting g m rest f' s' := by
  have counted : g.countHeld m q s = (.ok (g.binding q.index).count, s) := by
    simp only [countHeld, normal]
    rfl
  unfold FrameM.collectBuffer at run
  rw [run_bind, run_get] at run
  simp only at run
  rw [c.waiting q List.mem_cons_self, passed] at run
  unfold outputHeld
  rw [EngineM.failing_bind, counted]
  cases type : q.type with
  | struct layout =>
      simp only [type, provided] at run ⊢
      cases run
      have kept : Collecting g m rest (f.update q.index fun b => { b with buffer := none }) s :=
        c.settle apart fun _ => rfl
      exact ⟨rfl, kept.move (.refl [] _)⟩
  | array element length =>
      simp only [type, provided] at run ⊢
      obtain ⟨decoded, rfl⟩ := run_convert_ok run
      exact ⟨decoded, c.tail.move (arrayFromNative_evolves decoded)⟩
  | _ =>
      have loaded : ∀ t, s.memory.load t b.address = m.load t b.address := fun t => by
        have reached : b.reaches b.address.toNat = true := by
          rw [Memory.toNat_address hb]
          exact b.reaches_base
        rw [Memory.load_eq hb reached, Memory.load_eq (c.forward.mem_chunks hb (by simp)) reached]
      simp only [type, provided] at run ⊢
      rw [run_bind] at run
      obtain ⟨decoded, rfl⟩ := run_convert_ok run
      have decoded := (congrArg (fun x => fromNative _ x q.transfer s) (loaded _)).symm.trans decoded
      exact ⟨decoded, c.tail.move (fromNative_evolves _ decoded)⟩

theorem run_collectParameter {o : Option Value} (found : q.isOutput = true → g.Found m q) (inside : q ∈ g.plan.parameters)
    (run : f.run (FrameM.collectParameter q) s = ((.ok o, f'), s')) :
    (q.isOutput = false ∧ o = none ∧ s' = s ∧ Collecting g m rest f' s') ∨
      (q.isOutput = true ∧ ∃ v, o = some v ∧ g.outputHeld m q s = (.ok v, s') ∧ Collecting g m rest f' s') := by
  have range := coherent.index_lt inside
  unfold FrameM.collectParameter at run
  by_cases out : q.direction.isOut = true
  · rw [if_neg (by simp [out])] at run
    cases handling : q.handling with
    | hidden =>
        simp only [handling] at run
        cases run
        exact Or.inl ⟨by simp [Parameter.isOutput, q.isHidden_iff.mpr handling], rfl, rfl, c.tail⟩
    | callback closure destroy scope =>
        have handled := coherent.handled q.index q (coherent.inside inside)
        rw [handling] at handled
        simp [Parameter.direction, handled.1, Direction.isOut] at out
    | array l =>
        right
        have output : q.isOutput = true := by simp [Parameter.isOutput, Parameter.isHidden, handling, out]
        simp only [handling] at run
        obtain ⟨v, f₁, s₁, collected, last⟩ := run_bind_ok run
        cases last
        exact ⟨output, v, rfl, run_collectArray c placed coherent apart handling (found output) range collected⟩
    | normal =>
        right
        have output : q.isOutput = true := by simp [Parameter.isOutput, Parameter.isHidden, handling, out]
        simp only [handling] at run
        obtain ⟨v, f₁, s₁, collected, last⟩ := run_bind_ok run
        cases last
        refine ⟨output, v, rfl, ?_⟩
        cases found output with
        | cell own free unsettled =>
            exact run_collectCell c placed handling own free (unsettled handling) range collected
        | buffer given direction b hb provided passed _ =>
            unfold FrameM.collectValue at collected
            rw [if_pos given] at collected
            exact run_collectBuffer c apart handling hb provided passed collected
  · rw [if_pos (by simp [out])] at run
    cases run
    exact Or.inl ⟨by simp [Parameter.isOutput, out], rfl, rfl, c.tail⟩

end Steps

theorem run_collectParameters {found out : List Value} (c : Collecting g m rest f s) (placed : g.Placed m)
    (coherent : g.plan.Coherent) (apart : rest.Pairwise fun q r => r.index ≠ q.index)
    (sub : ∀ q ∈ rest, q ∈ g.plan.parameters) (places : ∀ q ∈ rest, q.isOutput = true → g.Found m q)
    (run : f.run (FrameM.collectParameters rest found) s = ((.ok out, f'), s')) :
    ∃ values, (rest.filter (·.isOutput)).mapM (g.outputHeld m) s = (.ok values, s') ∧
      out = found.reverse ++ values := by
  induction rest generalizing f s found with
  | nil =>
      cases run
      exact ⟨[], rfl, by simp⟩
  | cons q rest ih =>
      obtain ⟨others, apart⟩ := List.pairwise_cons.mp apart
      unfold FrameM.collectParameters at run
      obtain ⟨o, f₁, s₁, caught, later⟩ := run_bind_ok run
      have collected : f.run (FrameM.collectParameter q) s = ((.ok o, f₁), s₁) := by
        rw [run_tryCatch] at caught
        rcases first : f.run (FrameM.collectParameter q) s with ⟨⟨r, f'⟩, s'⟩
        rw [first] at caught
        cases r with
        | ok a => exact caught
        | error e => cases caught
      have step := run_collectParameter c placed coherent others (places q List.mem_cons_self)
        (sub q List.mem_cons_self) collected
      have sub' : ∀ r ∈ rest, r ∈ g.plan.parameters := fun r hr => sub r (List.mem_cons_of_mem q hr)
      have places' : ∀ r ∈ rest, r.isOutput = true → g.Found m r :=
        fun r hr => places r (List.mem_cons_of_mem q hr)
      rcases step with ⟨none, rfl, rfl, c'⟩ | ⟨output, v, rfl, held, c'⟩
      · obtain ⟨values, decoded, rfl⟩ := ih c' apart sub' places' later
        refine ⟨values, ?_, by simp⟩
        rw [List.filter_cons, if_neg (by simp [none])]
        exact decoded
      · obtain ⟨values, decoded, rfl⟩ := ih c' apart sub' places' later
        refine ⟨v :: values, ?_, by simp⟩
        rw [List.filter_cons, if_pos output, List.mapM_cons, EngineM.failing_bind, held]
        simp only
        rw [EngineM.failing_bind, decoded]
        rfl

theorem takeFailure_none (run : f.run FrameM.takeFailure s = ((.ok none, f'), s')) : f' = f ∧ s' = s := by
  unfold FrameM.takeFailure at run
  rw [run_bind, run_get] at run
  simp only at run
  rw [run_bind, run_lift] at run
  simp only at run
  split at run
  · cases run
    exact ⟨rfl, rfl⟩
  · rw [run_bind, run_lift] at run
    cases run

theorem run_collect {v : Value} (placed : g.Placed s.memory) (coherent : g.plan.Coherent)
    (places : ∀ q ∈ g.plan.parameters, q.isOutput = true → g.Found s.memory q)
    (run : g.run FrameM.collect s = ((.ok v, f'), s')) :
    ∃ outputs, g.outputsHeld s.memory s = (.ok outputs, s') ∧ v = FrameM.composeOutputs outputs := by
  have apart : g.plan.parameters.Pairwise fun q r => r.index ≠ q.index := coherent.order.imp Ne.symm
  unfold FrameM.collect at run
  obtain ⟨failure, f₁, s₁, taken, later⟩ := run_bind_ok run
  cases failure with
  | some failure => cases later
  | none =>
      obtain ⟨rfl, rfl⟩ := takeFailure_none taken
      simp only at later
      rw [run_bind, run_get] at later
      simp only at later
      unfold outputsHeld
      by_cases skips : f₁.plan.signature.skipsResult = true
      · rw [if_pos skips, run_bind, run_pure] at later
        simp only at later
        rw [run_bind, run_get] at later
        simp only at later
        obtain ⟨out, f₂, s₂, collected, ends⟩ := run_bind_ok later
        cases ends
        obtain ⟨values, decoded, same⟩ := run_collectParameters (.refl f₁ _ s₁) placed coherent apart
          (fun _ hq => hq) places collected
        refine ⟨values, ?_, by rw [same]; rfl⟩
        rw [if_pos skips, EngineM.failing_bind]
        show ((f₁.plan.parameters.filter (·.isOutput)).mapM (f₁.outputHeld s₁.memory) >>= fun others =>
          pure ([] ++ others) : MarshalM (List Value)) s₁ = _
        rw [EngineM.failing_bind, decoded]
        rfl
      · rw [if_neg skips, map_eq_pure_bind] at later
        obtain ⟨first, f₂, s₂, returned, last⟩ := run_bind_ok later
        obtain ⟨w, f₃, s₃, result, single⟩ := run_bind_ok returned
        cases single
        rw [run_bind, run_get] at last
        simp only at last
        obtain ⟨out, f₄, s₄, collected, ends⟩ := run_bind_ok last
        cases ends
        obtain ⟨held, c⟩ := run_collectReturn (.refl f₁ f₁.plan.parameters s₁) placed coherent result
        rw [c.plan] at collected
        obtain ⟨values, decoded, rfl⟩ := run_collectParameters c placed coherent apart (fun _ hq => hq) places
          collected
        refine ⟨w :: values, ?_, by simp [List.singleton]⟩
        rw [if_neg skips, map_eq_pure_bind, EngineM.failing_bind, EngineM.failing_bind, held]
        show ((f₁.plan.parameters.filter (·.isOutput)).mapM (f₁.outputHeld s₁.memory) >>= fun others =>
          pure (List.singleton w ++ others) : MarshalM (List Value)) s₂ = _
        rw [EngineM.failing_bind, decoded]
        rfl

/-! ## From the build to the outputs -/

section Built

variable {f₀ f₁ : Frame} {s₁ : Engine} {arguments : List Value} {receiver : Option Value} {p : Plan}

theorem found_of_prepare (coherent : p.Coherent)
    (allocates : ∀ q ∈ p.parameters, q.callerAllocates = true → q.handling ≠ .hidden ∧ q.direction = .output)
    (built : p.prepare receiver arguments s = (.ok f, s')) :
    f.plan = p ∧ f.Placed s'.memory ∧ ∀ q ∈ p.parameters, q.isOutput = true → f.Found s'.memory q := by
  obtain ⟨-, f₁, s₁, begun, run, -⟩ := begun_of_prepare coherent built
  obtain ⟨housed, differs, -⟩ := housed_of_run begun coherent run
  refine ⟨differs.plan.trans begun.plan, housed.placed, fun q hq output => ?_⟩
  have at_q := coherent.inside hq
  have range := coherent.index_lt hq
  simp only [Parameter.isOutput, Bool.and_eq_true, Bool.not_eq_true', Parameter.isHidden_eq_false] at output
  obtain ⟨visible, out⟩ := output
  obtain ⟨t, g, t', g', turn⟩ := turn_of_run begun coherent run at_q
  obtain ⟨blank, kept, inside⟩ := turn.own begun coherent at_q visible
  have laid := turn.laid begun coherent at_q visible
  -- its own turn says where the output will be, and no other turn reaches its binding
  cases turn.step with
  | hidden hidden => exact absurd hidden visible
  | input _ direction => simp [direction, Direction.isOut] at out
  | output _ direction _ _ _ reserves =>
      cases reserves with
      | cell own =>
          rw [binding_update_self inside, blank] at kept
          refine .cell own ?_ fun _ => ?_
          · rw [kept]
          · rw [kept]
      | buffer given count size block _ sized made =>
          rw [binding_update_self inside, blank] at kept
          cases laid with
          | input direction' => simp [direction'] at direction
          | both direction' => simp [direction'] at direction
          | cell _ own => simp [own] at given
          | buffer _ _ b _ _ _ live _ _ new passed =>
              have address : block = b.address := by
                rw [kept] at passed
                exact congrArg Slot.bits passed
              have apart := cell_ne_address begun coherent run live (by
                rw [new]
                exact turn.earlyCells.forward.frontier_le) (Nat.lt_of_le_of_lt (Nat.zero_le _) range)
              have first : f.cell 0 = f.cells := by simp [Frame.cell]
              refine .buffer given direction b (Memory.mem_chunks_of_live live) ?_ passed ?_
              · rw [kept, address]
              · rw [← first]
                exact apart.symm
  | both _ direction g₂ t₂ supplies =>
      have own : q.callerAllocates = false := by
        by_cases given : q.callerAllocates = true
        · rw [(allocates q hq given).2] at direction
          cases direction
        · simpa using given
      have inside₂ : q.index < g₂.bindings.length := by
        rw [(supplies.differs (by simp [direction])).length]
        exact inside
      rw [rehomed, binding_update_self inside₂] at kept
      refine .cell own ?_ fun normal => ?_
      · rw [kept, supplies.buffer, blank]
      · rw [kept]
        cases supplies with
        | value => rw [binding_update_self inside, blank]
        | array l _ _ linked => simp [normal] at linked
        | callback _ _ _ _ handled => simp [normal] at handled
        | noCallback _ _ _ _ handled => simp [normal] at handled

end Built

/-! ## After native code -/

section AfterNative

variable {m' : Memory} {result : Slot}

theorem binding_afterReturn (f : Frame) (result : Slot) (i : Nat) :
    (f.afterReturn result).binding i =
      { f.binding i with callback := (f.binding i).callback.filter (·.scope ≠ .durable) } :=
  binding_withoutDurable f i

theorem Placed.afterReturn (h : f.Placed m) (same : m.SamePlaces m') : (f.afterReturn result).Placed m' := by
  obtain ⟨b, hb, address, room⟩ := h
  obtain ⟨b', hb', base, size⟩ := same b hb
  refine ⟨b', hb', ?_, fun i hi => ?_⟩
  · rw [Block.address, base]
    exact address
  · rw [Block.capacity_congr size]
    exact room i hi

theorem Found.afterReturn (h : f.Found m q) (same : m.SamePlaces m') : (f.afterReturn result).Found m' q := by
  have binding := binding_afterReturn f result q.index
  cases h with
  | cell own free unsettled =>
      refine .cell own ?_ fun normal => ?_
      · rw [binding]
        exact free
      · rw [binding]
        exact unsettled normal
  | buffer given direction b hb provided passed apart =>
      obtain ⟨b', hb', base, -⟩ := same b hb
      have address : b'.address = b.address := by simp [Block.address, base]
      refine .buffer given direction b' hb' ?_ ?_ ?_
      · rw [binding, address]
        exact provided
      · rw [binding, address]
        exact passed
      · rw [address]
        exact apart

end AfterNative

/-! ## Independence -/

section Independence

variable (placed : g.Placed m) (coherent : g.plan.Coherent) {j : Nat} (inside : j < g.plan.parameters.length)
  (x : Slot)

include placed coherent inside

theorem lengthHeld_store {l : Nat} (differ : l ≠ j) :
    g.lengthHeld (m.store .u64 (g.cell j) x) l = g.lengthHeld m l := by
  unfold lengthHeld
  cases found : g.plan.parameter? l with
  | none => rfl
  | some r =>
      have index := coherent.index l r found
      have held : g.held (m.store .u64 (g.cell j) x) r = g.held m r := by
        unfold held
        split
        · refine placed.load_store_of_ne inside ?_ (by rw [index]; exact differ) x
          exact coherent.index_lt (List.mem_of_getElem? found)
        · rfl
      simp only [held]

theorem outputHeld_store (hq : q ∈ g.plan.parameters) (found : g.Found m q) (differ : j ≠ q.index)
    (unlinked : q.handling ≠ .array j) :
    g.outputHeld (m.store .u64 (g.cell j) x) q = g.outputHeld m q := by
  have counted : g.countHeld (m.store .u64 (g.cell j) x) q = g.countHeld m q := by
    unfold countHeld
    cases handling : q.handling with
    | array l =>
        have other : l ≠ j := by
          rintro rfl
          exact unlinked handling
        simp only [lengthHeld_store placed coherent inside x other]
    | _ => rfl
  have cell := placed.load_store_of_ne inside (coherent.index_lt hq) (Ne.symm differ) x
  have buffer : ∀ t block, (g.binding q.index).buffer = some block →
      (m.store .u64 (g.cell j) x).load t block = m.load t block := by
    intro t block provided
    cases found with
    | cell _ free => simp [free] at provided
    | buffer _ _ b hb provided' _ apart =>
        rw [provided'] at provided
        cases provided
        obtain ⟨c, hc, address, room⟩ := placed
        have fits := room j inside
        have reached : b.reaches b.address.toNat = true := by
          rw [Memory.toNat_address hb]
          exact b.reaches_base
        have moved := Memory.write_evolves hc (Memory.reaches_address_add hc (o := 8 * j) (by omega))
          (x.toBytes .u64)
        rw [address] at moved
        have hb' := moved.mem_chunks hb (by simpa using apart)
        rw [Memory.load_eq hb reached]
        exact Memory.load_eq hb' reached t
  unfold outputHeld
  rw [counted, cell]
  congr 1
  funext count
  cases provided : (g.binding q.index).buffer with
  | none => cases q.type <;> rfl
  | some block => cases q.type <;> simp only [buffer _ block provided]

end Independence

/-! ## The result -/

theorem length_mapM {act : Parameter → MarshalM Value} {parameters : List Parameter} {values : List Value}
    (run : parameters.mapM act s = (.ok values, s')) : values.length = parameters.length := by
  induction parameters generalizing s values with
  | nil =>
      cases run
      rfl
  | cons q rest ih =>
      rw [List.mapM_cons] at run
      obtain ⟨v, s₁, -, later⟩ := EngineM.failing_bind_ok run
      obtain ⟨others, s₂, mapped, last⟩ := EngineM.failing_bind_ok later
      cases last
      rw [List.length_cons, List.length_cons, ih mapped]

theorem length_outputsHeld (coherent : g.plan.Coherent) {outputs : List Value}
    (decoded : g.outputsHeld m s = (.ok outputs, s')) : outputs.length = g.plan.outputs := by
  rw [coherent.outputs, List.countP_eq_length_filter]
  unfold outputsHeld at decoded
  by_cases skips : g.plan.signature.skipsResult = true
  · rw [if_pos skips] at decoded ⊢
    obtain ⟨first, s₁, nothing, later⟩ := EngineM.failing_bind_ok decoded
    cases nothing
    obtain ⟨others, s₂, mapped, last⟩ := EngineM.failing_bind_ok later
    cases last
    exact length_mapM mapped
  · rw [if_neg skips, map_eq_pure_bind] at decoded
    rw [if_neg skips]
    obtain ⟨first, s₁, single, later⟩ := EngineM.failing_bind_ok decoded
    obtain ⟨w, s₂, -, ends⟩ := EngineM.failing_bind_ok single
    cases ends
    obtain ⟨others, s₃, mapped, last⟩ := EngineM.failing_bind_ok later
    cases last
    rw [List.length_append, length_mapM mapped]
    exact Nat.add_comm _ _

/-- What a call yields. `f` is the frame and `m` is memory when native code has returned, and the outputs are
decoded by an engine in the state `s`. -/
structure Yields (f : Frame) (m : Memory) (s s' : Engine) (outputs : List Value) (v : Value) : Prop where
  decoded : f.outputsHeld m s = (.ok outputs, s')
  length : outputs.length = f.plan.outputs
  nothing : f.plan.outputs = 0 → v = .undefined
  single : f.plan.outputs = 1 → outputs = [v]
  several : 2 ≤ f.plan.outputs → v = .array outputs
  places : ∀ q ∈ f.plan.parameters, q.isOutput = true → f.Found m q
  independent : ∀ q ∈ f.plan.parameters, q.isOutput = true → ∀ j < f.plan.parameters.length, j ≠ q.index →
    q.handling ≠ .array j → ∀ x, f.outputHeld (m.store .u64 (f.cell j) x) q = f.outputHeld m q

theorem yields_of_collect {v : Value} (placed : g.Placed s.memory) (coherent : g.plan.Coherent)
    (places : ∀ q ∈ g.plan.parameters, q.isOutput = true → g.Found s.memory q)
    (run : g.run FrameM.collect s = ((.ok v, f'), s')) : ∃ outputs, g.Yields s.memory s s' outputs v := by
  obtain ⟨outputs, decoded, rfl⟩ := run_collect placed coherent places run
  have length := length_outputsHeld coherent decoded
  refine ⟨outputs, decoded, length, fun none => ?_, fun one => ?_, fun many => ?_, places,
    fun q hq output j inside differ unlinked x => ?_⟩
  · rw [none, List.length_eq_zero_iff] at length
    rw [length]
    rfl
  · rw [one, List.length_eq_one_iff] at length
    obtain ⟨w, rfl⟩ := length
    rfl
  · rw [← length] at many
    match outputs, many with
    | _ :: _ :: _, _ => rfl
  · exact outputHeld_store placed coherent inside x hq (places q hq output) differ unlinked

end Frame

/-- Every call that succeeds yields what is held when native code has returned. -/
theorem outputs_of_execute {p : Plan} (obtained : p.Obtained)
    (allocates : ∀ q ∈ p.parameters, q.callerAllocates = true → q.handling ≠ .hidden ∧ q.direction = .output)
    (places : host.KeepsPlaces) {settings : InvokeSettings} {receiver : Option Value} {arguments : List Value}
    {M M' : Machine World} {v : Value} (success : p.execute host settings receiver arguments M = (.ok v, M')) :
    ∃ f s₁ M₁ result N outputs s₂, p.prepare receiver arguments M.engine = (.ok f, s₁) ∧ f.plan = p ∧
      M₁.engine.memory = s₁.memory ∧
      host.enter p.native.address (p.native.arguments.zip f.slots) M₁ = (result, N) ∧
      (f.afterReturn result).Yields N.engine.memory (N.engine.noted settings (.callReturned p.name)) s₂ outputs
        v := by
  have coherent := obtained.coherent
  obtain ⟨f, s₁, g, N, h, s₂, built, entered, collected, -⟩ := Plan.execute_ok success
  obtain ⟨plan, placed, found⟩ := Frame.found_of_prepare coherent allocates built
  obtain ⟨d, result, rfl, run⟩ := Frame.execute_ok entered
  obtain ⟨M₁, before, run⟩ : ∃ M₁ : Machine World, M₁.engine.memory = s₁.memory ∧
      host.enter f.plan.native.address (f.plan.native.arguments.zip f.slots) M₁ = (result, N) :=
    ⟨_, by simp, run⟩
  subst plan
  have same : s₁.memory.SamePlaces N.engine.memory := by
    have same := places f.plan.native.address (f.plan.native.arguments.zip f.slots) M₁
    rwa [run, before] at same
  obtain ⟨outputs, yields⟩ := Frame.yields_of_collect (g := f.afterReturn result)
    (by simpa using placed.afterReturn same) coherent
    (fun q hq output => by simpa using (found q hq output).afterReturn same) collected
  rw [memory_noted] at yields
  exact ⟨f, s₁, M₁, result, N, outputs, s₂, built, rfl, before, run, yields⟩

/-- Native code that stores a number at the address of its third argument. -/
def storing : Host Unit where
  enter _ arguments := do
    match arguments with
    | _ :: _ :: (_, total) :: _ => Run.engine (EngineM.store .i64 total.address ⟨9⟩)
    | _ => pure ()
    return .zero
  apply _ _ := return .ok .undefined

theorem storing_keepsPlaces : storing.KeepsPlaces := by
  intro address arguments M
  match arguments with
  | [] | [_] | [_, _] => exact .refl M.engine.memory
  | _ :: _ :: (_, total) :: _ => exact EngineM.KeepsPlaces.run (.store .i64 total.address ⟨9⟩) M

theorem outputs_of_execute_storing : ∃ (p : Plan) (f : Frame) (M₁ N : Machine Unit) (v : Value),
    ∃ s₁ M' result outputs s₂,
    (Plan.compile summing).run .initial = (.ok p, s₁) ∧
    p.execute storing {} none summingArguments ⟨s₁, ()⟩ = (.ok v, M') ∧
    storing.enter p.native.address (p.native.arguments.zip f.slots) M₁ = (result, N) ∧
    (f.afterReturn result).Yields N.engine.memory (N.engine.noted {} (.callReturned p.name)) s₂ outputs v := by
  have succeeds : (match (Plan.compile summing).run .initial with
      | (.ok p, s) => (p.execute storing {} none summingArguments ⟨s, ()⟩).1.isOk
      | _ => false) = true := by
    decide +kernel
  have allocated : (match (Plan.compile summing).run .initial with
      | (.ok p, _) => p.parameters.all fun q =>
        !q.callerAllocates || (decide (q.handling ≠ .hidden) && decide (q.direction = .output))
      | _ => false) = true := by
    decide +kernel
  obtain ⟨p, s₁, compiled⟩ := exists_ok (r := (Plan.compile summing).run .initial) (by decide +kernel)
  rw [compiled] at succeeds allocated
  obtain ⟨v, M', success⟩ := exists_ok succeeds
  obtain ⟨f, -, M₁, result, N, outputs, s₂, -, -, -, entered, yields⟩ :=
    outputs_of_execute (.compiled summing _ _ compiled) (by simpa [imp_iff_not_or] using allocated)
      storing_keepsPlaces success
  exact ⟨p, f, M₁, N, v, s₁, M', result, outputs, s₂, compiled, success, entered, yields⟩

end Ferry
