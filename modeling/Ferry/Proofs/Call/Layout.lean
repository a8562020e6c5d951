import Ferry.Proofs.Call.Turns

/-!
# The frame at native entry

When native code runs, the slots of a call are the receiver of a method, one slot for each parameter, and
the place for a failure report. `Frame.Laid` says what the slot of a visible parameter is, by direction:
what converting its argument produced, or the address of a cell or buffer of its own. The main result is
`laidOut_of_prepare`: every frame that is built satisfies `Frame.LaidOut`.
-/

set_option autoImplicit false

namespace Ferry

/-- The engine when the turn of the parameter at an index comes. -/
def Plan.atTurn (p : Plan) (receiver : Option Value) (arguments : List Value) (s : Engine) (k : Nat) : Engine :=
  match Frame.fresh? p s with
  | (none, s₀) => s₀
  | (some f₀, s₀) =>
    (f₀.run (FrameM.start receiver >>= fun _ =>
      (p.parameters.take k).forM (FrameM.buildParameter arguments)) s₀).2

/-- Converting the caller's value for a parameter produces a slot. For a callback that is the code of the
trampoline, or null where no callable is given. -/
def Parameter.Converts (q : Parameter) (arguments : List Value) (turn : Engine) (slot : Slot) : Prop :=
  match q.handling, q.type with
  | .callback _ _ scope, .callback signature =>
    (∃ g made after, q.argument arguments = .function g ∧
      EngineM.makeCallback g.id signature scope turn = (.ok made, after) ∧ slot = .ofAddress made.code) ∨
    ((q.argument arguments).isNullish = true ∧ q.nullable = true ∧ slot = .zero)
  | _, _ => ∃ after, toNative (q.argument arguments) q.type q.nullable turn = (.ok slot, after)

namespace Frame

/-- What the slot of a visible parameter is. `turn` is the engine when it was built, `m` is memory when native
code runs. -/
inductive Laid (f : Frame) (m : Memory) (arguments : List Value) (turn : Engine) (q : Parameter) : Prop
  | input (direction : q.direction = .input) (slot : Slot) (converted : q.Converts arguments turn slot)
    (passed : (f.binding q.index).slot = slot)
  | both (direction : q.direction = .both) (slot : Slot) (converted : q.Converts arguments turn slot)
    (passed : (f.binding q.index).slot = .ofAddress (f.cell q.index))
    (held : m.load .u64 (f.cell q.index) = slot)
  | cell (direction : q.direction = .output) (own : q.callerAllocates = false)
    (passed : (f.binding q.index).slot = .ofAddress (f.cell q.index))
    (zeroed : m.load .u64 (f.cell q.index) = .zero)
  | buffer (direction : q.direction = .output) (given : q.callerAllocates = true) (b : Block)
    (count : Option Nat) (size : Nat) (sized : f.plan.bufferSize q arguments = .ok (count, some size))
    (live : b ∈ m.blocks) (room : b.size = max size 1) (zeroed : b.stored = #[])
    (new : b.base = turn.memory.frontier) (passed : (f.binding q.index).slot = .ofAddress b.address)
    (settled : (f.binding q.index).count = count)

/-- The layout of a frame at native entry. -/
structure LaidOut (p : Plan) (receiver : Option Value) (arguments : List Value) (s : Engine) (f : Frame)
    (m : Memory) : Prop where
  slots : f.slots = (if p.isMethod then [f.receiver] else []) ++ f.bindings.map (·.slot) ++
    if p.canThrow then [.ofAddress f.failure] else []
  parameters : f.bindings.length = p.parameters.length
  received : p.isMethod = true → ∃ value after, receiver = some value ∧
    toNative value p.source.descriptor.container false (Frame.fresh? p s).2 = (.ok f.receiver, after)
  failure : m.Live f.failure ∧ m.load .pointer f.failure = .zero
  supplied : ∀ q ∈ p.parameters, q.isInput = true → ∃ k value,
    q.position = some k ∧ arguments[k]? = some value ∧ q.argument arguments = value
  visible : ∀ k q, p.parameters[k]? = some q → q.handling ≠ .hidden →
    f.Laid m arguments (p.atTurn receiver arguments s k) q
  hidden : ∀ k q, p.parameters[k]? = some q → q.handling = .hidden → q.direction.isOut = true →
    (∀ r ∈ p.parameters, ∀ closure destroy scope, r.handling = .callback closure destroy scope → k ∉ r.links) →
    (f.binding k).slot = .ofAddress (f.cell k)
  cells : ∀ i j, i < p.parameters.length → j < p.parameters.length → f.cell i = f.cell j → i = j
  apart : ∀ i j q r, p.parameters[i]? = some q → p.parameters[j]? = some r → q.isOutput = true →
    r.isOutput = true → (f.binding i).slot = (f.binding j).slot → i = j

variable {p : Plan} {receiver : Option Value} {arguments : List Value} {s s' : Engine} {f f₀ f₁ : Frame}

/-! ## The beginning -/

/-- What the first turn finds: nothing but the receiver and the cells of hidden outputs. -/
structure Begun (p : Plan) (receiver : Option Value) (s : Engine) (f : Frame) (s₁ : Engine) : Prop where
  plan : f.plan = p
  length : f.bindings.length = p.parameters.length
  housed : f.Housed s₁.memory
  forward : s.memory.Evolves [] s₁.memory
  new : s.memory.frontier ≤ f.cells.toNat
  newFailure : s.memory.frontier ≤ f.failure.toNat
  returned : f.returned = none ∧ f.returnedCount = none
  received : p.isMethod = true → ∃ value after, receiver = some value ∧
    toNative value p.source.descriptor.container false (fresh? p s).2 = (.ok f.receiver, after)
  blank : ∀ k q, p.parameters[k]? = some q → q.handling ≠ .hidden → f.binding k = {}
  hidden : ∀ k q, p.parameters[k]? = some q → q.handling = .hidden →
    f.binding k = { slot := if q.direction.isOut then .ofAddress (f.cell k) else .zero }
  zeroed : ∀ k < p.parameters.length, s₁.memory.load .u64 (f.cell k) = .zero
  unreported : s₁.memory.load .pointer f.failure = .zero

theorem binding_empty (plan : Plan) (cells failure : UInt64) (k : Nat) :
    (empty plan cells failure).binding k = {} := by
  simp only [binding, empty, List.getElem?_map]
  cases plan.parameters[k]? <;> rfl

theorem withHiddenCells_differs (parameters : List Parameter) (f : Frame) :
    Differs ((parameters.filter fun q => q.isHidden && q.direction.isOut).map (·.index)) f
      (f.withHiddenCells parameters) := by
  induction parameters generalizing f with
  | nil => exact .refl _ f
  | cons q rest ih =>
      by_cases hidden : (q.isHidden && q.direction.isOut) = true
      · simp only [withHiddenCells, List.foldl_cons, hidden, if_true, List.filter_cons, List.map_cons]
        exact (Differs.update f q.index _).trans (ih _)
      · simp only [withHiddenCells, List.foldl_cons, hidden, Bool.false_eq_true, if_false, List.filter_cons]
        exact ih f

theorem withHiddenCells_kept (parameters : List Parameter) (f : Frame) {k : Nat} (inside : k < f.bindings.length)
    (passed : f.binding k = { slot := .ofAddress (f.cell k) }) :
    (f.withHiddenCells parameters).binding k = { slot := .ofAddress (f.cell k) } := by
  induction parameters generalizing f with
  | nil => exact passed
  | cons q rest ih =>
      simp only [withHiddenCells, List.foldl_cons]
      by_cases hidden : (q.isHidden && q.direction.isOut) = true
      · rw [if_pos hidden]
        refine ih (f.withCell q.index) (by simpa [withCell] using inside) ?_
        by_cases same : q.index = k
        · rw [same, withCell, binding_update_self inside, passed]
          rfl
        · rw [withCell, binding_update_of_ne same, passed]
          rfl
      · rw [if_neg hidden]
        exact ih f inside passed

theorem binding_withHiddenCells (parameters : List Parameter) (f : Frame) {q : Parameter} (hq : q ∈ parameters)
    (hidden : (q.isHidden && q.direction.isOut) = true) (inside : q.index < f.bindings.length)
    (blank : f.binding q.index = {}) :
    (f.withHiddenCells parameters).binding q.index = { slot := .ofAddress (f.cell q.index) } := by
  induction parameters generalizing f with
  | nil => cases hq
  | cons r rest ih =>
      simp only [withHiddenCells, List.foldl_cons]
      by_cases here : (r.isHidden && r.direction.isOut) = true ∧ r.index = q.index
      · rw [if_pos here.1, here.2]
        refine withHiddenCells_kept rest (f.withCell q.index) (by simpa [withCell] using inside) ?_
        rw [withCell, binding_update_self inside, blank]
        rfl
      · have later : q ∈ rest := by
          rcases List.mem_cons.mp hq with rfl | hq
          · exact absurd ⟨hidden, rfl⟩ here
          · exact hq
        by_cases other : (r.isHidden && r.direction.isOut) = true
        · rw [if_pos other]
          have differ : r.index ≠ q.index := fun same => here ⟨other, same⟩
          refine ih (f.withCell r.index) later (by simpa [withCell] using inside) ?_
          rw [withCell, binding_update_of_ne differ, blank]
        · rw [if_neg other]
          exact ih f later inside blank

theorem withHiddenCells_binding (coherent : p.Coherent) {g : Frame} (blank : ∀ k, g.binding k = {})
    (length : g.bindings.length = p.parameters.length) {k : Nat} {q : Parameter} (found : p.parameters[k]? = some q) :
    (g.withHiddenCells p.parameters).binding k =
      { slot := if q.isHidden && q.direction.isOut then .ofAddress (g.cell k) else .zero } := by
  have hq := List.mem_of_getElem? found
  by_cases early : (q.isHidden && q.direction.isOut) = true
  · rw [if_pos early, ← coherent.index k q found]
    exact binding_withHiddenCells _ g hq early (by rw [length]; exact coherent.index_lt hq) (blank _)
  · rw [if_neg early, (withHiddenCells_differs p.parameters g).binding k, blank k]
    intro hit
    obtain ⟨r, hr, same⟩ := List.mem_map.mp hit
    obtain ⟨hr, chosen⟩ := List.mem_filter.mp hr
    have at_k := coherent.inside hr
    rw [same, found] at at_k
    cases at_k
    exact early chosen

theorem begun_of_start (coherent : p.Coherent) {s₀ s₁ : Engine} (fresh : fresh? p s = (some f₀, s₀))
    (start : f₀.run (FrameM.start receiver) s₀ = ((.ok (), f₁), s₁)) : Begun p receiver s f₁ s₁ := by
  obtain ⟨made, housed, forward, -, new, newFailure, zeroed, unreported⟩ := fresh?_some fresh
  obtain ⟨g, step, rfl⟩ := run_start_ok start
  have plan : f₀.plan = p := by rw [made]; rfl
  have length : f₀.bindings.length = p.parameters.length := by
    rw [made]
    simp [empty]
  have blank : ∀ k, f₀.binding k = {} := fun k => by
    rw [made]
    exact binding_empty p _ _ k
  have receiver_only : Differs [] { f₀ with receiver := g.receiver } g ∧ s₀.memory.Evolves [] s₁.memory := by
    rcases step with ⟨-, rfl, rfl⟩ | ⟨-, value, slot, -, converted, rfl⟩
    · exact ⟨.refl [] _, .refl [] _⟩
    · exact ⟨.refl [] _, toNative_evolves converted⟩
  obtain ⟨same, moved⟩ := receiver_only
  have differs := same.trans (withHiddenCells_differs f₀.plan.parameters g)
  have binding : ∀ k, g.binding k = {} := fun k => (same.binding k (by simp)).trans (blank k)
  have cells : (g.withHiddenCells f₀.plan.parameters).cells = f₀.cells := differs.cells
  have bindings : ∀ k q, p.parameters[k]? = some q → (g.withHiddenCells f₀.plan.parameters).binding k =
      { slot := if q.isHidden && q.direction.isOut then .ofAddress (g.cell k) else .zero } := fun k q found => by
    rw [plan]
    exact withHiddenCells_binding coherent binding (same.length.trans length) found
  constructor
  · exact differs.plan.trans plan
  · exact differs.length.trans length
  · exact (housed.of_evolves moved).congr differs.plan cells differs.failure
  · exact forward.trans moved
  · rw [cells]
    exact new
  · rw [differs.failure]
    exact newFailure
  · rw [differs.returned, differs.returnedCount, made]
    exact ⟨rfl, rfl⟩
  · intro method
    rcases step with ⟨plain, -, -⟩ | ⟨-, value, slot, given, converted, rfl⟩
    · rw [plan, method] at plain
      cases plain
    · refine ⟨value, s₁, given, ?_⟩
      rw [fresh, (withHiddenCells_differs f₀.plan.parameters _).receiver, ← plan]
      exact converted
  · intro k q found visible
    rw [bindings k q found, q.isHidden_eq_false.mpr visible]
    rfl
  · intro k q found hidden
    rw [bindings k q found, q.isHidden_iff.mpr hidden, Bool.true_and,
      (withHiddenCells_differs f₀.plan.parameters g).cell]
  · intro k hk
    rw [Frame.cell, cells, ← zeroed k hk]
    exact housed.placed.load_evolves moved (by simp) (by rw [plan]; exact hk)
  · rw [differs.failure, ← unreported]
    exact housed.load_failure_evolves moved (by simp)

theorem begun_of_prepare (coherent : p.Coherent) (built : p.prepare receiver arguments s = (.ok f, s')) :
    p.inputs ≤ arguments.length ∧ ∃ f₁ s₁, Begun p receiver s f₁ s₁ ∧
      f₁.run (p.parameters.forM (FrameM.buildParameter arguments)) s₁ = ((.ok (), f), s') ∧
      ∀ k f' s', f₁.run ((p.parameters.take k).forM (FrameM.buildParameter arguments)) s₁ = ((.ok (), f'), s') →
        p.atTurn receiver arguments s k = s' := by
  obtain ⟨enough, f₀, s₀, fresh, run⟩ := Plan.prepare_ok built
  rw [run_build] at run
  obtain ⟨u, f₁, s₁, start, rest⟩ := run_bind_ok run
  have plan : f₀.plan = p := by rw [(fresh?_some fresh).1]; rfl
  rw [plan] at rest
  refine ⟨enough, f₁, s₁, begun_of_start coherent fresh start, rest, fun k f' s' turns => ?_⟩
  simp only [Plan.atTurn, fresh]
  rw [run_bind, start]
  simp only
  rw [turns]

/-! ## One turn -/

theorem converts_of_encodeArray {q : Parameter} {element : Ty} {length : ArrayLength} {slot : Slot} {count : Nat}
    {turn after : Engine} (type : q.type = .array element length)
    (converted : encodeArray (q.argument arguments) element length q.nullable turn = (.ok (slot, count), after)) :
    q.Converts arguments turn slot := by
  have whole : toNative (q.argument arguments) (.array element length) q.nullable turn = (.ok slot, after) := by
    rw [toNative, EncodeM.onError_eq, encode, EngineM.failing_bind]
    have converted' : encodeArrayWith (fun item => encode item element false) (q.argument arguments) element length
        q.nullable turn = (.ok (slot, count), after) := converted
    rw [converted']
    rfl
  unfold Parameter.Converts
  rw [type]
  cases q.handling <;> exact ⟨after, whole⟩

theorem converts_of_toNative {q : Parameter} {slot : Slot} {turn after : Engine} (normal : q.handling = .normal)
    (converted : toNative (q.argument arguments) q.type q.nullable turn = (.ok slot, after)) :
    q.Converts arguments turn slot := by
  unfold Parameter.Converts
  rw [normal]
  exact ⟨after, converted⟩

theorem Supplies.slot {q : Parameter} {f' : Frame} (inside : q.index < f.bindings.length)
    (apart : ∀ j ∈ q.links, j ≠ q.index) (input : q.direction ≠ .output) (blank : f.binding q.index = {})
    (h : Supplies q (q.argument arguments) f s (.ok ()) f' s') :
    q.Converts arguments s (f'.binding q.index).slot := by
  cases h with
  | value normal slot s' converted =>
      rw [binding_update_self inside]
      exact converts_of_toNative normal converted
  | array l element length linked type slot count s' r encoded converted passed =>
      have other : l ≠ q.index := apart l (by simp [Parameter.links, linked, input])
      rw [binding_withLength _ other, binding_update_self inside]
      exact converts_of_encodeArray type converted
  | callback closure destroy scope signature handled type g callable made s' run =>
      have links : q.links = closure.toList ++ destroy.toList := by simp [Parameter.links, handled]
      rw [binding_passing inside (by rw [← links]; exact apart)]
      unfold Parameter.Converts
      rw [handled, type]
      exact Or.inl ⟨g, made, s', callable, run, rfl⟩
  | noCallback closure destroy scope signature handled type absent nullable =>
      rw [binding_update_self inside, blank]
      unfold Parameter.Converts
      rw [handled, type]
      exact Or.inr ⟨absent, nullable, rfl⟩

theorem Turn.block_lives {n k : Nat} {q : Parameter} {s₁ t t' : Engine} {g g' : Frame} {b : Block}
    (turn : Turn arguments f₁ s₁ k n q f s' g t g' t') (forward : t.memory.Evolves [] t'.memory)
    (made : b ∈ t'.memory.blocks) (new : b.base = t.memory.frontier) : b ∈ s'.memory.blocks := by
  refine turn.lateCells.forward.mem made ?_
  obtain ⟨c, hc, same, -⟩ := turn.housed.cells
  rw [turn.cells.2, ← turn.cells.1, ← same, List.mem_singleton]
  intro clash
  have hc' := forward.mem hc (by simp)
  have := Memory.eq_of_address (Memory.mem_chunks_of_live made) (Memory.mem_chunks_of_live hc') clash
  have := Memory.base_lt_frontier (Memory.mem_chunks_of_live hc)
  subst_vars
  omega

theorem Turn.own {n : Nat} {q : Parameter} {s₁ t t' : Engine} {g g' : Frame} (begun : Begun p receiver s f₁ s₁)
    (coherent : p.Coherent) (found : p.parameters[q.index]? = some q) (visible : q.handling ≠ .hidden)
    (turn : Turn arguments f₁ s₁ q.index n q f s' g t g' t') :
    g.binding q.index = {} ∧ f.binding q.index = g'.binding q.index ∧ q.index < g.bindings.length := by
  have coherent' : f₁.plan.Coherent := by rw [begun.plan]; exact coherent
  have found' : f₁.plan.parameters[q.index]? = some q := by rw [begun.plan]; exact found
  refine ⟨?_, turn.binding_after coherent' found' visible, ?_⟩
  · exact (turn.binding_before coherent' found' visible).trans (begun.blank _ q found visible)
  · rw [turn.early.length, begun.length]
    exact (List.getElem?_eq_some_iff.mp found).1

theorem Turn.laid {n k : Nat} {q : Parameter} {s₁ t t' : Engine} {g g' : Frame} (begun : Begun p receiver s f₁ s₁)
    (coherent : p.Coherent) (found : p.parameters[k]? = some q) (visible : q.handling ≠ .hidden)
    (turn : Turn arguments f₁ s₁ k n q f s' g t g' t') : f.Laid s'.memory arguments t q := by
  have plan := begun.plan
  have coherent' : f₁.plan.Coherent := by rw [plan]; exact coherent
  have found' : f₁.plan.parameters[k]? = some q := by rw [plan]; exact found
  have range : k < p.parameters.length := (List.getElem?_eq_some_iff.mp found).1
  have index : q.index = k := coherent.index k q found
  subst index
  obtain ⟨blank, kept, inside⟩ := turn.own begun coherent found visible
  have cellG : g.cell q.index = f.cell q.index := by rw [Frame.cell, Frame.cell, turn.cells.1]
  have cellG' : g'.cell q.index = f.cell q.index := by rw [Frame.cell, Frame.cell, turn.cells.2]
  have held : s'.memory.load .u64 (f.cell q.index) = t'.memory.load .u64 (f.cell q.index) := by
    rw [← cellG']
    exact turn.cell_after coherent' found' visible
  have zero : t.memory.load .u64 (f.cell q.index) = .zero := by
    have cell₁ : f₁.cell q.index = f.cell q.index := by
      rw [← cellG, Frame.cell, Frame.cell, turn.early.cells]
    rw [← cell₁, turn.cell_before coherent' found' visible]
    exact begun.zeroed _ range
  have apart := coherent.links_apart (List.mem_of_getElem? found) visible
  cases turn.step with
  | hidden hidden => exact absurd hidden visible
  | output _ out _ _ _ reserves =>
      cases reserves with
      | cell own =>
          refine .cell out own ?_ ?_
          · rw [kept, binding_update_self inside, cellG]
          · rw [held]
            exact zero
      | buffer given count size block _ sized made =>
          obtain ⟨b, hb, address, base, room, zeroed⟩ := allocate_block made
          refine .buffer out given b count size ?_ (turn.block_lives (allocate_evolves made).1 hb base)
            room zeroed base ?_ ?_
          · rw [turn.plan.2, ← turn.plan.1]
            exact sized
          · rw [kept, binding_update_self inside, address]
          · rw [kept, binding_update_self inside, blank]
            exact Option.or_none
  | input _ direction _ _ supplies =>
      refine .input direction _ (supplies.slot inside apart (by simp [direction]) blank) ?_
      rw [kept]
  | both _ direction g₂ t₂ supplies =>
      have differs := supplies.differs (by simp [direction])
      have stay := supplies.cellsStay turn.housed (by simp [direction])
      have cell₂ : g₂.cell q.index = f.cell q.index := by rw [differs.cell, cellG]
      refine .both direction _ (supplies.slot inside apart (by simp [direction]) blank) ?_ ?_
      · rw [kept, rehomed, binding_update_self (by rw [differs.length]; exact inside), cell₂]
      · rw [held, ← cellG]
        have housed := turn.housed.of_evolves stay.forward
        simp only [Engine.withCell, differs.cell]
        exact housed.placed.load_store_self (by rw [turn.early.plan, plan]; exact range) _

/-! ## All turns -/

theorem run_take {parameters : List Parameter} {s₁ : Engine}
    (run : f₁.run (parameters.forM (FrameM.buildParameter arguments)) s₁ = ((.ok (), f), s')) (n : Nat) :
    ∃ f₂ s₂, f₁.run ((parameters.take n).forM (FrameM.buildParameter arguments)) s₁ = ((.ok (), f₂), s₂) ∧
      Differs (reach (parameters.drop n)) f₂ f := by
  rw [← List.take_append_drop n parameters, run_forM_append] at run
  obtain ⟨u, f₂, s₂, first, later⟩ := run_bind_ok run
  exact ⟨f₂, s₂, first, run_differs _ later⟩

theorem BuildStep.hidden_output {r q : Parameter} {k : Nat} {t t' : Engine} {g g' : Frame}
    (step : BuildStep arguments r g t (.ok ()) g' t') (found : g.plan.parameters[k]? = some q)
    (out : q.direction.isOut = true) (inside : k < g.bindings.length) (other : r.handling = .hidden ∨ r.index ≠ k)
    (unlinked : ∀ closure destroy scope, r.handling = .callback closure destroy scope → k ∉ r.links)
    (passed : (g.binding k).slot = .ofAddress (g.cell k)) : (g'.binding k).slot = .ofAddress (g'.cell k) := by
  have elsewhere : k ∉ r.index :: r.links → (g'.binding k).slot = .ofAddress (g'.cell k) := fun apart => by
    rw [step.differs.binding k apart, step.differs.cell, passed]
  have supplied : ∀ {h : Frame} {u : Engine}, r.handling ≠ .hidden → r.direction ≠ .output →
      Supplies r (r.argument arguments) g t (.ok ()) h u → (h.binding k).slot = .ofAddress (h.cell k) := by
    intro h u visible input supplies
    have differ := other.resolve_left visible
    -- an array writes into its length parameter only where that is no output by itself, and then passes its cell
    by_cases linked : k ∈ r.links
    · cases supplies with
      | value normal => simp [Parameter.links, normal] at linked
      | callback closure destroy scope signature handled => exact absurd linked (unlinked _ _ _ handled)
      | noCallback closure destroy scope signature handled => exact absurd linked (unlinked _ _ _ handled)
      | array l element length array type slot count u q' encoded converted accepted =>
          have same : l = k := by
            simp only [Parameter.links, array, input, if_false] at linked
            exact (List.mem_singleton.mp linked).symm
          subst same
          have holder := (lengthSlot_ok accepted).1
          rw [found] at holder
          cases holder
          have inside' : l < (g.update r.index fun b =>
              { b with slot := slot, count := some count, built := true }).bindings.length := by
            simpa using inside
          cases direction : q.direction with
          | input => simp [direction, Direction.isOut] at out
          | output =>
              simp only [withLength]
              rw [binding_update_of_ne differ, cell_update, passed]
          | both =>
              simp only [withLength, withCell]
              rw [binding_update_self inside']
              rfl
    · have differs := supplies.differs input
      rw [differs.binding k (by simp [Ne.symm differ, linked]), differs.cell, passed]
  cases step with
  | hidden => exact passed
  | output visible direction =>
      refine elsewhere ?_
      have : r.links = [] ∨ ∃ closure destroy scope, r.handling = .callback closure destroy scope := by
        unfold Parameter.links
        cases handling : r.handling <;> simp [direction]
      rcases this with none | ⟨closure, destroy, scope, handled⟩
      · rw [none]
        simpa using Ne.symm (other.resolve_left visible)
      · simp only [List.mem_cons, not_or]
        exact ⟨Ne.symm (other.resolve_left visible), unlinked _ _ _ handled⟩
  | input visible direction _ _ supplies => exact supplied visible (by simp [direction]) supplies
  | both visible direction h u supplies =>
      have kept := supplied visible (by simp [direction]) supplies
      rw [rehomed, binding_update_of_ne (other.resolve_left visible), cell_update]
      exact kept

theorem run_hidden_output {parameters : List Parameter} {q : Parameter} {k : Nat} {t t' : Engine} {g g' : Frame}
    (run : g.run (parameters.forM (FrameM.buildParameter arguments)) t = ((.ok (), g'), t'))
    (found : g.plan.parameters[k]? = some q) (out : q.direction.isOut = true) (inside : k < g.bindings.length)
    (other : ∀ r ∈ parameters, r.handling = .hidden ∨ r.index ≠ k)
    (unlinked : ∀ r ∈ parameters, ∀ closure destroy scope, r.handling = .callback closure destroy scope →
      k ∉ r.links)
    (passed : (g.binding k).slot = .ofAddress (g.cell k)) : (g'.binding k).slot = .ofAddress (g'.cell k) := by
  induction parameters generalizing g t with
  | nil =>
      cases run
      exact passed
  | cons r rest ih =>
      rw [run_forM_cons] at run
      obtain ⟨u, g₁, t₁, first, later⟩ := run_bind_ok run
      have step := run_buildParameter first
      refine ih later (by rw [step.differs.plan]; exact found) (by rw [step.differs.length]; exact inside)
        (fun r hr => other r (List.mem_cons_of_mem _ hr)) (fun r hr => unlinked r (List.mem_cons_of_mem _ hr)) ?_
      exact step.hidden_output found out inside (other r List.mem_cons_self) (unlinked r List.mem_cons_self) passed

section AllTurns

variable {s₁ : Engine} (begun : Begun p receiver s f₁ s₁) (coherent : p.Coherent)
  (run : f₁.run (p.parameters.forM (FrameM.buildParameter arguments)) s₁ = ((.ok (), f), s'))

include begun coherent run

theorem turn_of_run {k : Nat} {q : Parameter} (found : p.parameters[k]? = some q) : ∃ t g t' g',
    Turn arguments f₁ s₁ k p.parameters.length q f s' g t g' t' := by
  have plan := begun.plan
  rw [← List.take_length (l := p.parameters)] at run
  obtain ⟨g, t, g', t', turn⟩ := exists_turn (k := k) (q := q) (by rw [plan]; exact coherent) begun.housed
    (List.getElem?_eq_some_iff.mp found).1 (by rw [plan]; exact run) (by rw [plan]; exact found)
  exact ⟨t, g, t', g', turn⟩

theorem housed_of_run : f.Housed s'.memory ∧ Differs (reach p.parameters) f₁ f ∧
    CellsStay f₁ (reach p.parameters) s₁.memory s'.memory := by
  have differs := run_differs _ run
  have stay := run_cellsStay _ begun.housed (fun q hq => by
    rw [begun.plan]
    exact coherent.index_lt hq) run
  exact ⟨(begun.housed.of_evolves stay.forward).congr differs.plan differs.cells differs.failure, differs, stay⟩

theorem cell_ne_address {b : Block} {k : Nat} (live : b ∈ s'.memory.blocks) (new : s₁.memory.frontier ≤ b.base)
    (inside : k < p.parameters.length) : f.cell k ≠ b.address := by
  intro same
  obtain ⟨housed, differs, stay⟩ := housed_of_run begun coherent run
  obtain ⟨c, hc, address, room⟩ := housed.room
  have plan : f.plan = p := differs.plan.trans begun.plan
  have fits := room k (by rw [plan]; exact inside)
  have inC := Memory.reaches_address_add (Memory.mem_chunks_of_live hc) (o := 8 * k) (by omega)
  rw [address] at inC
  have inB : b.reaches (f.cell k).toNat = true := by
    rw [same, Memory.toNat_address (Memory.mem_chunks_of_live live)]
    exact b.reaches_base
  have equal := Memory.eq_of_reaches (Memory.mem_chunks_of_live live) (Memory.mem_chunks_of_live hc) inB inC
  obtain ⟨c₁, hc₁, address₁, -⟩ := begun.housed.cells
  have := Memory.base_lt_frontier (Memory.mem_chunks_of_live hc₁)
  have base := congrArg UInt64.toNat (address₁.trans (differs.cells.symm.trans address.symm))
  rw [Memory.toNat_address (Memory.mem_chunks_of_live hc₁),
    Memory.toNat_address (Memory.mem_chunks_of_live hc)] at base
  subst equal
  omega

theorem buffer_alive {i j : Nat} {q : Parameter} {u u' : Engine} {h h' : Frame} {r : Parameter} (before : i < j)
    (found : p.parameters[i]? = some q) (visible : q.handling ≠ .hidden) (out : q.direction = .output)
    (given : q.callerAllocates = true) (turn : Turn arguments f₁ s₁ j p.parameters.length r f s' h u h' u') :
    ∃ c ∈ u.memory.blocks, (f.binding q.index).slot = .ofAddress c.address := by
  have plan := begun.plan
  obtain ⟨f₂, s₂, early, rest⟩ := run_take run j
  have same := turn.before
  rw [plan, early] at same
  cases same
  -- the layout after the turns before `j` is looked at in a build that ends there
  obtain ⟨v, k, v', k', turn₂⟩ := exists_turn (k := i) (q := q) (by rw [plan]; exact coherent) begun.housed before
    (by rw [plan]; exact early) (by rw [plan]; exact found)
  have kept : f.binding i = h.binding i :=
    rest.binding i (coherent.not_mem_reach found visible fun x hx =>
      ⟨List.mem_of_mem_drop hx, Nat.ne_of_gt (Nat.lt_of_lt_of_le before (coherent.le_index_of_mem_drop hx))⟩)
  rw [coherent.index i q found, kept, ← coherent.index i q found]
  cases turn₂.laid begun coherent found visible with
  | input direction | both direction =>
      rw [out] at direction
      cases direction
  | cell _ own =>
      rw [given] at own
      cases own
  | buffer _ _ c _ _ _ alive _ _ _ passed => exact ⟨c, alive, passed⟩

theorem slots_apart {i j : Nat} {q r : Parameter} (before : i < j) (at_i : p.parameters[i]? = some q)
    (at_j : p.parameters[j]? = some r) (shown : q.isOutput = true) (shown' : r.isOutput = true) :
    (f.binding i).slot ≠ (f.binding j).slot := by
  simp only [Parameter.isOutput, Bool.and_eq_true, Bool.not_eq_true', Parameter.isHidden_eq_false] at shown shown'
  have plan := begun.plan
  have index := coherent.index i q at_i
  have index' := coherent.index j r at_j
  have range : i < p.parameters.length := (List.getElem?_eq_some_iff.mp at_i).1
  have range' : j < p.parameters.length := (List.getElem?_eq_some_iff.mp at_j).1
  obtain ⟨housed, differs, -⟩ := housed_of_run begun coherent run
  obtain ⟨t, g, t', g', turn⟩ := turn_of_run begun coherent run at_i
  obtain ⟨u, h, u', h', turn'⟩ := turn_of_run begun coherent run at_j
  have laid := turn.laid begun coherent at_i shown.1
  have laid' := turn'.laid begun coherent at_j shown'.1
  have late : s₁.memory.frontier ≤ t.memory.frontier := turn.earlyCells.forward.frontier_le
  have late' : s₁.memory.frontier ≤ u.memory.frontier := turn'.earlyCells.forward.frontier_le
  have cells_apart : f.cell i ≠ f.cell j := fun same => by
    have := housed.placed.cell_injective (by rw [differs.plan, plan]; exact range)
      (by rw [differs.plan, plan]; exact range') same
    omega
  have buffer_new : ∀ {b : Block} {k : Nat}, b ∈ s'.memory.blocks → s₁.memory.frontier ≤ b.base →
      k < p.parameters.length → f.cell k ≠ b.address := fun live new inside =>
    cell_ne_address begun coherent run live new inside
  intro same
  have same' : (f.binding q.index).slot = (f.binding r.index).slot := by
    rw [index, index']
    exact same
  cases laid with
  | input direction => simp [direction, Direction.isOut] at shown
  | both _ _ _ passed | cell _ _ passed =>
      rw [passed, index] at same'
      cases laid' with
      | input direction => simp [direction, Direction.isOut] at shown'
      | both _ _ _ passed' | cell _ _ passed' =>
          rw [passed', index'] at same'
          exact cells_apart (congrArg Slot.bits same')
      | buffer _ _ b _ _ _ live _ _ new passed' =>
          rw [passed'] at same'
          exact buffer_new live (by omega) range (congrArg Slot.bits same')
  | buffer out given b _ _ _ live _ _ new passed =>
      rw [passed] at same'
      cases laid' with
      | input direction => simp [direction, Direction.isOut] at shown'
      | both _ _ _ passed' | cell _ _ passed' =>
          rw [passed', index'] at same'
          exact buffer_new live (by omega) range' (congrArg Slot.bits same').symm
      | buffer _ _ b' _ _ _ live' _ _ new' passed' =>
          rw [passed'] at same'
          -- the later buffer lies behind all that is alive when it is made
          obtain ⟨c, alive, held⟩ := buffer_alive begun coherent run before at_i shown.1 out given turn'
          rw [passed] at held
          have base := congrArg UInt64.toNat ((congrArg Slot.bits held).symm.trans (congrArg Slot.bits same'))
          have low := Memory.base_lt_frontier (Memory.mem_chunks_of_live alive)
          simp only [Slot.ofAddress] at base
          rw [Memory.toNat_address (Memory.mem_chunks_of_live alive),
            Memory.toNat_address (Memory.mem_chunks_of_live live')] at base
          omega

end AllTurns

end Frame

/-- A frame that is built is laid out as native code expects, whatever the plan, the receiver and the
arguments. -/
theorem laidOut_of_prepare {p : Plan} (obtained : p.Obtained) {receiver : Option Value} {arguments : List Value}
    {s s' : Engine} {f : Frame} (built : p.prepare receiver arguments s = (.ok f, s')) :
    f.LaidOut p receiver arguments s s'.memory := by
  have coherent := obtained.coherent
  obtain ⟨enough, f₁, s₁, begun, run, atTurn⟩ := Frame.begun_of_prepare coherent built
  obtain ⟨housed, differs, stay⟩ := Frame.housed_of_run begun coherent run
  have plan : f.plan = p := differs.plan.trans begun.plan
  constructor
  · rw [Frame.slots, plan]
  · rw [differs.length, begun.length]
  · intro method
    rw [differs.receiver]
    exact begun.received method
  · obtain ⟨b, hb, address, -⟩ := housed.failure
    refine ⟨⟨b, hb, address⟩, ?_⟩
    rw [differs.failure, begun.housed.load_failure_evolves stay.forward (by simpa using begun.housed.apart.symm)]
    exact begun.unreported
  · intro q hq input
    obtain ⟨k, position, bound⟩ := coherent.position q hq input
    have there : k < arguments.length := Nat.lt_of_lt_of_le bound enough
    refine ⟨k, arguments[k], position, List.getElem?_eq_getElem there, ?_⟩
    simp [Parameter.argument, position, there]
  · intro k q found visible
    obtain ⟨t, g, t', g', turn⟩ := Frame.turn_of_run begun coherent run found
    rw [atTurn k g t (by rw [← begun.plan]; exact turn.before)]
    exact turn.laid begun coherent found visible
  · intro k q found hidden out unlinked
    have range := (List.getElem?_eq_some_iff.mp found).1
    refine Frame.run_hidden_output run (by rw [begun.plan]; exact found) out (by rw [begun.length]; exact range)
      (fun r hr => ?_) unlinked ?_
    · by_cases same : r.index = k
      · left
        have at_k := coherent.inside hr
        rw [same, found] at at_k
        cases at_k
        exact hidden
      · exact Or.inr same
    · rw [begun.hidden k q found hidden, if_pos out]
  · intro i j inside other same
    exact housed.placed.cell_injective (by rw [plan]; exact inside) (by rw [plan]; exact other) same
  · intro i j q r at_i at_j shown shown' same
    rcases Nat.lt_trichotomy i j with before | equal | behind
    · exact absurd same (Frame.slots_apart begun coherent run before at_i at_j shown shown')
    · exact equal
    · exact absurd same.symm (Frame.slots_apart begun coherent run behind at_j at_i shown' shown)

/-- A function that sums items into a total and fills a point: a hidden length, a parameter passed both ways, a
buffer of the caller, and a failure report. -/
def summing : DescriptorRef where
  id := 0
  descriptor := {
    symbol := "sum", receiver := none, isConstructor := false, entry := .address 0x1000
    signature := {
      namespaceName := "Sample", name := "sum", result := .void, resultTransfer := .nothing, skipResult := false
      mayReturnNull := false, canThrow := true
      params := [
        ⟨"items", .array .int32 (.parameter 1), .input, .nothing, false, false, none, none, .call⟩,
        ⟨"count", .int32, .input, .nothing, false, false, none, none, .call⟩,
        ⟨"total", .int64, .both, .nothing, false, false, none, none, .call⟩,
        ⟨"point", .struct ⟨"Sample", "Point", 16, 8⟩, .output, .nothing, false, true, none, none, .call⟩] } }

def summingArguments : List Value := [.array [.int 1, .int 2], .int 5]

theorem laidOut_of_prepare_summing : ∃ p s₁ f s₂,
    (Plan.compile summing).run .initial = (.ok p, s₁) ∧
    p.prepare none summingArguments s₁ = (.ok f, s₂) ∧
    f.LaidOut p none summingArguments s₁ s₂.memory := by
  have builds : (match (Plan.compile summing).run .initial with
      | (.ok p, s) => (p.prepare none summingArguments s).1.isOk
      | _ => false) = true := by
    decide +kernel
  obtain ⟨p, s₁, compiled⟩ := exists_ok (r := (Plan.compile summing).run .initial) (by decide +kernel)
  rw [compiled] at builds
  obtain ⟨f, s₂, built⟩ := exists_ok builds
  exact ⟨p, s₁, f, s₂, compiled, built, laidOut_of_prepare (.compiled summing _ _ compiled) built⟩

end Ferry
