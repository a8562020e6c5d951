import Ferry.Proofs.Call.Cells
import Ferry.Proofs.Marshal.Conversions

/-!
# Turns

Every parameter has its turn while a frame is built. A turn changes the parameter's own binding and cell and
those of the parameters that it refers to, and these are hidden. So what a visible parameter gets in its own
turn is what it has when native code runs, and what it had before its turn is what every new frame has.
-/

set_option autoImplicit false

namespace Ferry

/-- The parameters that building this one writes to. -/
def Parameter.links (q : Parameter) : List Nat :=
  match q.handling with
  | .array l => if q.direction = .output then [] else [l]
  | .callback closure destroy _ => closure.toList ++ destroy.toList
  | _ => []

namespace Frame

variable {f f' f'' : Frame} {s s' : Engine} {m m' m'' : Memory} {changed more : List Nat}
  {arguments : List Value} {p : Parameter} {r : Except InvokeFailure Unit}

/-- The frames differ in the listed bindings at most. -/
structure Differs (changed : List Nat) (f f' : Frame) : Prop where
  plan : f'.plan = f.plan
  cells : f'.cells = f.cells
  failure : f'.failure = f.failure
  receiver : f'.receiver = f.receiver
  returned : f'.returned = f.returned
  returnedCount : f'.returnedCount = f.returnedCount
  length : f'.bindings.length = f.bindings.length
  binding : ∀ k, k ∉ changed → f'.binding k = f.binding k

namespace Differs

theorem refl (changed : List Nat) (f : Frame) : Differs changed f f :=
  ⟨rfl, rfl, rfl, rfl, rfl, rfl, rfl, fun _ _ => rfl⟩

theorem trans (first : Differs changed f f') (second : Differs more f' f'') : Differs (changed ++ more) f f'' where
  plan := second.plan.trans first.plan
  cells := second.cells.trans first.cells
  failure := second.failure.trans first.failure
  receiver := second.receiver.trans first.receiver
  returned := second.returned.trans first.returned
  returnedCount := second.returnedCount.trans first.returnedCount
  length := second.length.trans first.length
  binding k out := by
    simp only [List.mem_append, not_or] at out
    rw [second.binding k out.2, first.binding k out.1]

theorem mono (h : Differs changed f f') (sub : ∀ k ∈ changed, k ∈ more) : Differs more f f' :=
  { h with binding := fun k out => h.binding k fun hit => out (sub k hit) }

theorem update (f : Frame) (i : Nat) (change : Binding → Binding) : Differs [i] f (f.update i change) where
  plan := rfl
  cells := rfl
  failure := rfl
  receiver := rfl
  returned := rfl
  returnedCount := rfl
  length := length_bindings_update f i change
  binding k out := binding_update_of_ne (Ne.symm (by simpa using out)) change

theorem cell (h : Differs changed f f') (k : Nat) : f'.cell k = f.cell k := by
  rw [Frame.cell, Frame.cell, h.cells]

theorem withLength (f : Frame) (l : Nat) (d : Direction) (encoded : Slot) :
    Differs [l] f (f.withLength l d encoded) := by
  cases d with
  | input => exact update f l _
  | output => exact refl [l] f
  | both => exact update f l _

theorem linkTo (f : Frame) (j : Option Nat) (slot : Slot) : Differs j.toList f (f.linkTo j slot) := by
  cases j with
  | none => exact refl [] f
  | some j => exact update f j _

end Differs

theorem binding_linkTo (f : Frame) {j : Option Nat} {k : Nat} (apart : ∀ i ∈ j, i ≠ k) (slot : Slot) :
    (f.linkTo j slot).binding k = f.binding k := by
  cases j with
  | none => rfl
  | some i => exact binding_update_of_ne (apart i rfl) _

@[simp] theorem length_linkTo (f : Frame) (j : Option Nat) (slot : Slot) :
    (f.linkTo j slot).bindings.length = f.bindings.length :=
  (Differs.linkTo f j slot).length

theorem binding_linkTo_self {f : Frame} {j : Nat} (inside : j < f.bindings.length) (slot : Slot) :
    (f.linkTo (some j) slot).binding j = { f.binding j with slot } :=
  binding_update_self inside _

/-- What a callback passes through other parameters does not get into its own binding. -/
theorem binding_passing {f : Frame} {i : Nat} {closure destroy : Option Nat} (inside : i < f.bindings.length)
    (apart : ∀ j ∈ closure.toList ++ destroy.toList, j ≠ i) (first last : Binding → Binding) (token notifier : Slot) :
    ((((f.update i first).linkTo closure token).linkTo destroy notifier).update i last).binding i =
      last (first (f.binding i)) := by
  have apart_closure : ∀ j ∈ closure, j ≠ i := fun j hj =>
    apart j (List.mem_append_left _ (Option.mem_toList.mpr hj))
  have apart_destroy : ∀ j ∈ destroy, j ≠ i := fun j hj =>
    apart j (List.mem_append_right _ (Option.mem_toList.mpr hj))
  rw [binding_update_self (by simpa using inside), binding_linkTo _ apart_destroy, binding_linkTo _ apart_closure,
    binding_update_self inside]

theorem binding_withLength (f : Frame) {l k : Nat} (apart : l ≠ k) (d : Direction) (encoded : Slot) :
    (f.withLength l d encoded).binding k = f.binding k :=
  (Differs.withLength f l d encoded).binding k (by simpa using Ne.symm apart)

theorem Reserves.differs (h : Reserves arguments p f s r f' s') : Differs [p.index] f f' := by
  cases h with
  | cell => exact .update f _ _
  | buffer => exact .update f _ _
  | unsized => exact .refl _ f
  | overflow => exact .update f _ _
  | full => exact .update f _ _

theorem Supplies.differs {value : Value} (input : p.direction ≠ .output) (h : Supplies p value f s r f' s') :
    Differs (p.index :: p.links) f f' := by
  have own : ∀ change, Differs (p.index :: p.links) f (f.update p.index change) := fun change =>
    (Differs.update f p.index change).mono (by simp)
  cases h with
  | value => exact own _
  | valueRefused => exact .refl _ f
  | array l element length linked type slot count s' q encoded converted passed =>
      refine ((Differs.update f p.index _).trans (Differs.withLength _ l q.direction encoded)).mono ?_
      simp [Parameter.links, linked, input]
  | arrayRefused => exact .refl _ f
  | lengthRefused => exact own _
  | callback closure destroy scope signature handled =>
      refine ((((Differs.update f p.index _).trans (Differs.linkTo _ closure _)).trans
        (Differs.linkTo _ destroy _)).trans (Differs.update _ p.index _)).mono ?_
      intro k hk
      simp only [Parameter.links, handled, List.mem_append, List.mem_cons, List.not_mem_nil, or_false] at hk ⊢
      rcases hk with ((own | closure) | destroy) | own
      · exact Or.inl own
      · exact Or.inr (Or.inl closure)
      · exact Or.inr (Or.inr destroy)
      · exact Or.inl own
  | noCallback => exact own _
  | refused => exact .refl _ f

/-- A turn changes the binding of the parameter and those that it refers to. -/
theorem BuildStep.differs (h : BuildStep arguments p f s r f' s') : Differs (p.index :: p.links) f f' := by
  cases h with
  | hidden => exact .refl _ f
  | output visible out r f' s' reserves => exact reserves.differs.mono (by simp)
  | input visible input f' s' supplies => exact supplies.differs (by simp [input])
  | both visible both f₁ s₁ supplies =>
      refine ((supplies.differs (by simp [both])).trans (Differs.update f₁ p.index _)).mono fun k hk => ?_
      simp only [List.mem_append, List.mem_cons, List.not_mem_nil, or_false] at hk ⊢
      rcases hk with (own | link) | own
      · exact Or.inl own
      · exact Or.inr link
      · exact Or.inl own
  | refused visible input e f' s' supplies => exact supplies.differs input

/-! ## Buffers -/

theorem buffer_update {change : Binding → Binding} (kept : ∀ b, (change b).buffer = b.buffer) (f : Frame)
    (i k : Nat) : ((f.update i change).binding k).buffer = (f.binding k).buffer :=
  field_update kept f i k

theorem buffer_linkTo (f : Frame) (j : Option Nat) (slot : Slot) (k : Nat) :
    ((f.linkTo j slot).binding k).buffer = (f.binding k).buffer := by
  cases j with
  | none => rfl
  | some j => exact buffer_update (by intro b; rfl) f j k

theorem buffer_withLength (f : Frame) (l : Nat) (d : Direction) (encoded : Slot) (k : Nat) :
    ((f.withLength l d encoded).binding k).buffer = (f.binding k).buffer := by
  cases d with
  | input => exact buffer_update (by intro b; rfl) f l k
  | output => rfl
  | both => exact buffer_update (by intro b; rfl) f l k

theorem Supplies.buffer {value : Value} (h : Supplies p value f s r f' s') (k : Nat) :
    (f'.binding k).buffer = (f.binding k).buffer := by
  cases h with
  | value => exact buffer_update (by intro b; rfl) f p.index k
  | valueRefused | arrayRefused | refused => rfl
  | array l element length linked type slot count s' q encoded converted passed =>
      rw [buffer_withLength]
      exact buffer_update (by intro b; rfl) f p.index k
  | lengthRefused => exact buffer_update (by intro b; rfl) f p.index k
  | callback closure destroy scope signature handled type g callable made s' run =>
      refine (buffer_update (by intro b; rfl) _ p.index k).trans ?_
      rw [buffer_linkTo, buffer_linkTo]
      exact buffer_update (by intro b; rfl) f p.index k
  | noCallback => exact buffer_update (by intro b; rfl) f p.index k

/-! ## What a turn does to memory -/

/-- Memory moves forward, and the listed cells are the only ones that change. -/
structure CellsStay (f : Frame) (changed : List Nat) (m m' : Memory) : Prop where
  forward : m.Evolves [f.cells] m'
  cell : ∀ k < f.plan.parameters.length, k ∉ changed → m'.load .u64 (f.cell k) = m.load .u64 (f.cell k)

namespace CellsStay

theorem refl (f : Frame) (changed : List Nat) (m : Memory) : CellsStay f changed m m :=
  ⟨.refl _ m, fun _ _ _ => rfl⟩

theorem of_evolves (housed : f.Housed m) (forward : m.Evolves [] m') : CellsStay f changed m m' :=
  ⟨forward.of_nil, fun _ inside _ => housed.placed.load_evolves forward (by simp) inside⟩

theorem trans (first : CellsStay f changed m m') (second : CellsStay f more m' m'') :
    CellsStay f (changed ++ more) m m'' where
  forward := first.forward.trans second.forward
  cell k inside out := by
    simp only [List.mem_append, not_or] at out
    rw [second.cell k inside out.2, first.cell k inside out.1]

theorem mono (h : CellsStay f changed m m') (sub : ∀ k ∈ changed, k ∈ more) : CellsStay f more m m' :=
  ⟨h.forward, fun k inside out => h.cell k inside fun hit => out (sub k hit)⟩

theorem store {i : Nat} (housed : f.Housed m) (inside : i < f.plan.parameters.length) (x : Slot) :
    CellsStay f [i] m (m.store .u64 (f.cell i) x) :=
  ⟨housed.cell_evolves inside x, fun _ other out =>
    housed.placed.load_store_of_ne inside other (by simpa using out) x⟩

theorem congr (h : CellsStay f changed m m') (plan : f'.plan = f.plan) (cells : f'.cells = f.cells) :
    CellsStay f' changed m m' where
  forward := by
    rw [cells]
    exact h.forward
  cell k inside out := by
    rw [Frame.cell, cells]
    exact h.cell k (by rw [← plan]; exact inside) out

end CellsStay

theorem makeCallback_evolves {callable : Nat} {signature : Signature} {scope : Scope} {made : Callback}
    (run : EngineM.makeCallback callable signature scope s = (.ok made, s')) : s.memory.Evolves [] s'.memory := by
  obtain ⟨a, memory, found, -, rfl⟩ := EngineM.makeCallback_ok run
  exact Memory.allocate?_evolves found

theorem lengthSlot_ok {plan : Plan} {l count : Nat} {q : Parameter} {encoded : Slot}
    (passed : plan.lengthSlot l count = .ok (q, encoded)) :
    plan.parameters[l]? = some q ∧ encodeLength count q.type = .ok encoded := by
  unfold Plan.lengthSlot Plan.parameter? at passed
  cases found : plan.parameters[l]? with
  | none =>
      rw [found] at passed
      cases passed
  | some r =>
      rw [found] at passed
      simp only at passed
      split at passed
      · cases passed
      · rename_i accepted
        cases passed
        exact ⟨rfl, accepted⟩

theorem lengthSlot_inside {plan : Plan} {l count : Nat} {q : Parameter} {encoded : Slot}
    (passed : plan.lengthSlot l count = .ok (q, encoded)) : l < plan.parameters.length :=
  (List.getElem?_eq_some_iff.mp (lengthSlot_ok passed).1).1

theorem Supplies.cellsStay {value : Value} (housed : f.Housed s.memory) (input : p.direction ≠ .output)
    (h : Supplies p value f s (.ok ()) f' s') : CellsStay f p.links s.memory s'.memory := by
  cases h with
  | value normal slot s' converted => exact .of_evolves housed (toNative_evolves converted)
  | array l element length linked type slot count s' q encoded converted passed =>
      have forward := encodeArray_evolves converted
      have first : CellsStay f [] s.memory s'.memory := .of_evolves housed forward
      have links : p.links = [l] := by simp [Parameter.links, linked, input]
      rw [links]
      unfold Engine.withLength
      split
      · refine (first.trans (.store (housed.of_evolves forward) (lengthSlot_inside passed) encoded)).mono ?_
        simp
      · exact first.mono (by simp)
  | callback closure destroy scope signature handled type g callable made s' run =>
      exact .of_evolves housed (makeCallback_evolves run)
  | noCallback => exact .refl f _ _

/-- A turn that succeeds changes the cell of the parameter and those of the parameters it refers to. -/
theorem BuildStep.cellsStay (housed : f.Housed s.memory) (inside : p.index < f.plan.parameters.length)
    (h : BuildStep arguments p f s (.ok ()) f' s') : CellsStay f (p.index :: p.links) s.memory s'.memory := by
  cases h with
  | hidden => exact .refl f _ _
  | output visible out r f' s' reserves =>
      cases reserves with
      | cell => exact .refl f _ _
      | buffer given count size block s' sized made => exact .of_evolves housed (allocate_evolves made).1
  | input visible input f' s' supplies =>
      exact (supplies.cellsStay housed (by simp [input])).mono fun _ => List.mem_cons_of_mem p.index
  | both visible both f₁ s₁ supplies =>
      have differs := supplies.differs (by simp [both])
      have first := supplies.cellsStay housed (by simp [both])
      have moved := CellsStay.store (i := p.index) (housed.of_evolves first.forward) inside
        (f₁.binding p.index).slot
      have memory : (s₁.withCell f₁ p.index (f₁.binding p.index).slot).memory =
          s₁.memory.store .u64 (f.cell p.index) (f₁.binding p.index).slot := by
        simp only [Engine.withCell, differs.cell]
      rw [memory]
      refine (first.trans moved).mono fun k hk => ?_
      simpa [or_comm] using hk

/-! ## All turns -/

/-- The bindings and cells that building some parameters changes. -/
def reach (parameters : List Parameter) : List Nat :=
  parameters.flatMap fun q => q.index :: q.links

theorem run_differs (parameters : List Parameter)
    (run : f.run (parameters.forM (FrameM.buildParameter arguments)) s = ((r, f'), s')) :
    Differs (reach parameters) f f' := by
  induction parameters generalizing f s with
  | nil =>
      cases run
      exact .refl _ _
  | cons q rest ih =>
      rw [run_forM_cons] at run
      rcases run_bind_cases run with ⟨u, f₁, s₁, first, later⟩ | ⟨e, failed, -⟩
      · exact (run_buildParameter first).differs.trans (ih later)
      · exact (run_buildParameter failed).differs.mono fun k hk => by
          simp only [reach, List.flatMap_cons, List.mem_append]
          exact Or.inl hk

theorem run_cellsStay (parameters : List Parameter) (housed : f.Housed s.memory)
    (inside : ∀ q ∈ parameters, q.index < f.plan.parameters.length)
    (run : f.run (parameters.forM (FrameM.buildParameter arguments)) s = ((.ok (), f'), s')) :
    CellsStay f (reach parameters) s.memory s'.memory := by
  induction parameters generalizing f s with
  | nil =>
      cases run
      exact .refl _ _ _
  | cons q rest ih =>
      rw [run_forM_cons] at run
      obtain ⟨u, f₁, s₁, first, later⟩ := run_bind_ok run
      have step := run_buildParameter first
      have differs := step.differs
      have stay := step.cellsStay housed (inside q List.mem_cons_self)
      have housed' : f₁.Housed s₁.memory :=
        (housed.of_evolves stay.forward).congr differs.plan differs.cells differs.failure
      have inside' : ∀ q ∈ rest, q.index < f₁.plan.parameters.length := fun q hq => by
        rw [differs.plan]
        exact inside q (List.mem_cons_of_mem _ hq)
      exact stay.trans ((ih housed' inside' later).congr differs.plan.symm differs.cells.symm)

end Frame

namespace Plan

/-- Building a visible parameter writes to hidden ones only. -/
theorem Coherent.links_hidden {p : Plan} (h : p.Coherent) {i j : Nat} {q : Parameter}
    (found : p.parameters[i]? = some q) (link : j ∈ q.links) : p.HiddenAt j := by
  have handled := h.handled i q found
  unfold Parameter.links at link
  cases handling : q.handling with
  | hidden | normal =>
      rw [handling] at link
      cases link
  | array l =>
      rw [handling] at link handled
      obtain ⟨-, -, -, sized | hidden⟩ := handled
      · simp only [Parameter.direction, sized.1, if_true] at link
        cases link
      · simp only at link
        split at link
        · cases link
        · rw [List.mem_singleton.mp link]
          exact hidden
  | callback closure destroy scope =>
      rw [handling] at link handled
      exact (handled.2.2.2.2.2.2 j link).2.2

theorem Coherent.inside {p : Plan} (h : p.Coherent) {q : Parameter} (hq : q ∈ p.parameters) :
    p.parameters[q.index]? = some q := by
  obtain ⟨i, range, rfl⟩ := List.getElem_of_mem hq
  have found := List.getElem?_eq_getElem range
  rw [h.index i _ found]
  exact found

theorem Coherent.index_lt {p : Plan} (h : p.Coherent) {q : Parameter} (hq : q ∈ p.parameters) :
    q.index < p.parameters.length :=
  (List.getElem?_eq_some_iff.mp (h.inside hq)).1

theorem Coherent.length_params {p : Plan} (h : p.Coherent) : p.signature.params.length = p.parameters.length := by
  rw [← h.listed, List.length_map]

theorem Coherent.order {p : Plan} (h : p.Coherent) : p.parameters.Pairwise fun q r => q.index ≠ r.index := by
  refine List.pairwise_iff_getElem.mpr fun i j at_i at_j before => ?_
  rw [h.index i _ (List.getElem?_eq_getElem at_i), h.index j _ (List.getElem?_eq_getElem at_j)]
  omega

theorem Coherent.typed {p : Plan} (h : p.Coherent) {q : Parameter} (hq : q ∈ p.parameters) {l : Nat} (linked : q.handling = .array l) :
    ∃ element, q.type = .array element (.parameter l) := by
  have handled := h.handled q.index q (h.inside hq)
  rw [linked] at handled
  exact handled.1

/-- The turns of other parameters do not reach a visible one. -/
theorem Coherent.not_mem_reach {p : Plan} (h : p.Coherent) {k : Nat} {q : Parameter} {others : List Parameter}
    (found : p.parameters[k]? = some q) (visible : q.handling ≠ .hidden)
    (sub : ∀ r ∈ others, r ∈ p.parameters ∧ r.index ≠ k) : k ∉ Frame.reach others := by
  intro hit
  obtain ⟨r, hr, hit⟩ := List.mem_flatMap.mp hit
  rcases List.mem_cons.mp hit with own | link
  · exact (sub r hr).2 own.symm
  · obtain ⟨x, at_k, hidden⟩ := h.links_hidden (h.inside (sub r hr).1) link
    rw [found] at at_k
    cases at_k
    exact visible hidden

theorem Coherent.index_lt_of_mem_take {p : Plan} (h : p.Coherent) {k : Nat} {q : Parameter}
    (hq : q ∈ p.parameters.take k) : q.index < k := by
  obtain ⟨i, found⟩ := List.mem_iff_getElem?.mp hq
  rw [List.getElem?_take] at found
  split at found
  · rw [h.index i q found]
    assumption
  · cases found

theorem Coherent.le_index_of_mem_drop {p : Plan} (h : p.Coherent) {k : Nat} {q : Parameter}
    (hq : q ∈ p.parameters.drop k) : k ≤ q.index := by
  obtain ⟨i, found⟩ := List.mem_iff_getElem?.mp hq
  rw [List.getElem?_drop] at found
  rw [h.index (k + i) q found]
  exact Nat.le_add_right k i

theorem Coherent.links_apart {p : Plan} (h : p.Coherent) {q : Parameter} (hq : q ∈ p.parameters)
    (visible : q.handling ≠ .hidden) : ∀ j ∈ q.links, j ≠ q.index := by
  rintro j link rfl
  obtain ⟨r, at_q, hidden⟩ := h.links_hidden (h.inside hq) link
  rw [h.inside hq] at at_q
  cases at_q
  exact visible hidden

/-- A turn leaves the bindings of other visible parameters as they are. -/
theorem Coherent.binding_of_step {p : Plan} (h : p.Coherent) {q r : Parameter} {f f' : Frame} {s s' : Engine}
    {arguments : List Value} {o : Except InvokeFailure Unit} (step : Frame.BuildStep arguments q f s o f' s')
    (hq : q ∈ p.parameters) (hr : r ∈ p.parameters) (visible : r.handling ≠ .hidden) (other : r.index ≠ q.index) :
    f'.binding r.index = f.binding r.index := by
  refine step.differs.binding r.index ?_
  have reached : r.index ∉ Frame.reach [q] := h.not_mem_reach (h.inside hr) visible fun x hx => by
    rw [List.mem_singleton.mp hx]
    exact ⟨hq, Ne.symm other⟩
  simpa [Frame.reach] using reached

/-- The other parameters, before and behind the one at an index. -/
theorem Coherent.others {p : Plan} (h : p.Coherent) (n k : Nat) :
    (∀ r ∈ (p.parameters.take n).take k, r ∈ p.parameters ∧ r.index ≠ k) ∧
      ∀ r ∈ (p.parameters.take n).drop (k + 1), r ∈ p.parameters ∧ r.index ≠ k := by
  constructor
  · intro r hr
    rw [List.take_take] at hr
    have before := h.index_lt_of_mem_take hr
    exact ⟨List.mem_of_mem_take hr, by omega⟩
  · intro r hr
    rw [List.drop_take] at hr
    have behind := h.le_index_of_mem_drop (List.mem_of_mem_take hr)
    exact ⟨List.mem_of_mem_drop (List.mem_of_mem_take hr), by omega⟩

end Plan

namespace Frame

variable {p : Plan} {f₀ f : Frame} {s₀ s : Engine} {arguments : List Value} {k n : Nat} {q : Parameter}

/-- The turn of the parameter at `k` among the first `n` turns of a build: the frame and the engine before it
and behind it. -/
structure Turn (arguments : List Value) (f₀ : Frame) (s₀ : Engine) (k n : Nat) (q : Parameter) (f : Frame)
    (s : Engine) (f₁ : Frame) (s₁ : Engine) (f₂ : Frame) (s₂ : Engine) : Prop where
  before : f₀.run ((f₀.plan.parameters.take k).forM (FrameM.buildParameter arguments)) s₀ = ((.ok (), f₁), s₁)
  step : BuildStep arguments q f₁ s₁ (.ok ()) f₂ s₂
  housed : f₁.Housed s₁.memory
  early : Differs (reach ((f₀.plan.parameters.take n).take k)) f₀ f₁
  late : Differs (reach ((f₀.plan.parameters.take n).drop (k + 1))) f₂ f
  earlyCells : CellsStay f₀ (reach ((f₀.plan.parameters.take n).take k)) s₀.memory s₁.memory
  ownCells : CellsStay f₁ (q.index :: q.links) s₁.memory s₂.memory
  lateCells : CellsStay f₂ (reach ((f₀.plan.parameters.take n).drop (k + 1))) s₂.memory s.memory

theorem exists_turn (coherent : f₀.plan.Coherent) (housed : f₀.Housed s₀.memory) (before_n : k < n)
    (run : f₀.run ((f₀.plan.parameters.take n).forM (FrameM.buildParameter arguments)) s₀ = ((.ok (), f), s))
    (found : f₀.plan.parameters[k]? = some q) :
    ∃ f₁ s₁ f₂ s₂, Turn arguments f₀ s₀ k n q f s f₁ s₁ f₂ s₂ := by
  have found' : (f₀.plan.parameters.take n)[k]? = some q := by
    rw [List.getElem?_take, if_pos before_n]
    exact found
  obtain ⟨f₁, s₁, f₂, s₂, before, turn, behind⟩ := run_forM_split run found'
  have early := run_differs _ before
  have earlyCells := run_cellsStay _ housed
    (fun r hr => coherent.index_lt ((coherent.others n k).1 r hr).1) before
  have housed₁ : f₁.Housed s₁.memory :=
    (housed.of_evolves earlyCells.forward).congr early.plan early.cells early.failure
  have step := run_buildParameter turn
  have inside : q.index < f₁.plan.parameters.length := by
    rw [early.plan]
    exact coherent.index_lt (List.mem_of_getElem? found)
  have stay := step.cellsStay housed₁ inside
  have housed₂ : f₂.Housed s₂.memory :=
    (housed₁.of_evolves stay.forward).congr step.differs.plan step.differs.cells step.differs.failure
  have late := run_differs _ behind
  have lateCells := run_cellsStay _ housed₂ (fun r hr => by
    rw [step.differs.plan, early.plan]
    exact coherent.index_lt ((coherent.others n k).2 r hr).1) behind
  have first : (f₀.plan.parameters.take n).take k = f₀.plan.parameters.take k := by
    rw [List.take_take, Nat.min_eq_left (Nat.le_of_lt before_n)]
  exact ⟨f₁, s₁, f₂, s₂, ⟨by rw [← first]; exact before, step, housed₁, early, late, earlyCells, stay, lateCells⟩⟩

namespace Turn

variable {f₁ f₂ : Frame} {s₁ s₂ : Engine}

theorem plan (h : Turn arguments f₀ s₀ k n q f s f₁ s₁ f₂ s₂) : f₁.plan = f₀.plan ∧ f.plan = f₀.plan := by
  refine ⟨h.early.plan, ?_⟩
  rw [h.late.plan, h.step.differs.plan, h.early.plan]

theorem cells (h : Turn arguments f₀ s₀ k n q f s f₁ s₁ f₂ s₂) : f₁.cells = f.cells ∧ f₂.cells = f.cells := by
  rw [h.late.cells]
  exact ⟨h.step.differs.cells.symm, rfl⟩

/-- Before its turn a visible parameter is as it was at the beginning. -/
theorem binding_before (h : Turn arguments f₀ s₀ k n q f s f₁ s₁ f₂ s₂) (coherent : f₀.plan.Coherent)
    (found : f₀.plan.parameters[k]? = some q) (visible : q.handling ≠ .hidden) :
    f₁.binding k = f₀.binding k :=
  h.early.binding k (coherent.not_mem_reach found visible (coherent.others n k).1)

/-- What a visible parameter gets in its turn it keeps. -/
theorem binding_after (h : Turn arguments f₀ s₀ k n q f s f₁ s₁ f₂ s₂) (coherent : f₀.plan.Coherent)
    (found : f₀.plan.parameters[k]? = some q) (visible : q.handling ≠ .hidden) : f.binding k = f₂.binding k :=
  h.late.binding k (coherent.not_mem_reach found visible (coherent.others n k).2)

theorem cell_before (h : Turn arguments f₀ s₀ k n q f s f₁ s₁ f₂ s₂) (coherent : f₀.plan.Coherent)
    (found : f₀.plan.parameters[k]? = some q) (visible : q.handling ≠ .hidden) :
    s₁.memory.load .u64 (f₀.cell k) = s₀.memory.load .u64 (f₀.cell k) :=
  h.earlyCells.cell k (List.getElem?_eq_some_iff.mp found).1
    (coherent.not_mem_reach found visible (coherent.others n k).1)

theorem cell_after (h : Turn arguments f₀ s₀ k n q f s f₁ s₁ f₂ s₂) (coherent : f₀.plan.Coherent)
    (found : f₀.plan.parameters[k]? = some q) (visible : q.handling ≠ .hidden) :
    s.memory.load .u64 (f₂.cell k) = s₂.memory.load .u64 (f₂.cell k) := by
  refine h.lateCells.cell k ?_ (coherent.not_mem_reach found visible (coherent.others n k).2)
  rw [h.step.differs.plan, h.early.plan]
  exact (List.getElem?_eq_some_iff.mp found).1

end Turn

end Frame

end Ferry
