import Ferry.Proofs.Call.Buffers
import Ferry.Proofs.Call.FailedBuild
import Ferry.Proofs.Call.Gathering
import Ferry.Proofs.Callback.Frames
import Ferry.Proofs.Marshal.Supplying

/-!
# What a frame holds while it is built

Whatever the engine makes for a frame lies behind everything that was there before, and leads to nothing but that and the
structures of the argument that it was made of. `Frame.Guarded` says so of a frame at any point of a build: every turn keeps
it, whether the turn succeeds or fails (`run_guarded`), and so do all of them together.
-/

set_option autoImplicit false

namespace Ferry

namespace Frame

variable {f f' g : Frame} {s s' s'' : Engine} {m m' : Memory} {changed more : List Nat} {arguments : List Value}
  {p q : Parameter} {r : Except InvokeFailure Unit} {floor : Nat}

/-! ## What a turn does to the engine -/

/-- What is behind the working storage of the frame stays as it is, and so do the failure report and the cells that are not
listed. Everything that was there before is spared. -/
structure Steps (floor : Nat) (f : Frame) (changed : List Nat) (s s' : Engine) : Prop extends s.SparesOld s' where
  keeps : s.memory.KeepsFrom floor s'.memory
  report : s'.memory.load .pointer f.failure = s.memory.load .pointer f.failure
  cell : ∀ k < f.plan.parameters.length, k ∉ changed → s'.memory.load .u64 (f.cell k) = s.memory.load .u64 (f.cell k)

namespace Steps

theorem of_leaves (housed : f.Housed s.memory) (left : s.Leaves [] [] [] s') : Steps floor f changed s s' := by
  have kept := housed.kept fun b hb => left.remains b hb (by simp)
  exact ⟨.of_leaves left, fun b hb _ => left.remains b hb (by simp), kept.1, fun k inside _ => kept.2 k inside⟩

theorem refl (housed : f.Housed s.memory) : Steps floor f changed s s :=
  of_leaves housed (.refl s [] [] [])

theorem trans (first : Steps floor f changed s s') (second : Steps floor f more s' s'') :
    Steps floor f (changed ++ more) s s'' where
  toSparesOld := first.toSparesOld.trans second.toSparesOld
  keeps := first.keeps.trans second.keeps
  report := second.report.trans first.report
  cell k inside out := by
    simp only [List.mem_append, not_or] at out
    exact (second.cell k inside out.2).trans (first.cell k inside out.1)

theorem mono (h : Steps floor f changed s s') (sub : ∀ k ∈ changed, k ∈ more) : Steps floor f more s s' :=
  ⟨h.toSparesOld, h.keeps, h.report, fun k inside out => h.cell k inside fun hit => out (sub k hit)⟩

theorem store {i : Nat} (housed : f.Housed s.memory) (low : f.cells.toNat < floor) (inside : i < f.plan.parameters.length)
    (x : Slot) : Steps floor f [i] s (s.withCell f i x) := by
  obtain ⟨b, hb, address, room⟩ := housed.room
  have chunk := Memory.mem_chunks_of_live hb
  have reached : b.reaches (f.cell i).toNat = true := by
    rw [Frame.cell, ← address]
    exact Memory.reaches_address_add chunk (by have := room i inside; omega)
  have base : b.base < floor := by
    rw [← Memory.toNat_address chunk, address]
    exact low
  have spares : s.SparesOld (s.withCell f i x) :=
    ⟨⟨[], rfl⟩, Nat.le_of_eq (Memory.frontier_store _ _ _ _).symm,
      fun a _ => EngineM.store_spares a .u64 (f.cell i) x s, fun _ _ free => free⟩
  refine ⟨spares, .of_write chunk base reached _, ?_, fun k other out => ?_⟩
  · exact housed.load_failure_evolves (housed.cell_evolves inside x) (by simpa using Ne.symm housed.apart)
  · exact housed.placed.load_store_of_ne inside other (by simpa using out) x

end Steps

theorem Steps.withLength {l : Nat} (housed : f.Housed s.memory) (low : f.cells.toNat < floor)
    (inside : l < f.plan.parameters.length) (d : Direction) (encoded : Slot) :
    Steps floor f [l] s (s.withLength f l d encoded) := by
  unfold Engine.withLength
  split
  · exact .store housed low inside encoded
  · exact .refl housed

theorem makeCallback_leaves {callable : Nat} {signature : Signature} {scope : Scope} {made : Callback}
    (run : EngineM.makeCallback callable signature scope s = (.ok made, s')) : s.Leaves [] [] [] s' :=
  .of_moves (EngineM.makeCallback_moves run) (makeCallback_evolves run) fun a => EngineM.makeCallback_spares a run

theorem Supplies.steps {value : Value} (housed : f.Housed s.memory) (low : f.cells.toNat < floor)
    (input : p.direction ≠ .output) (h : Supplies p value f s r f' s') : Steps floor f p.links s s' := by
  cases h with
  | value normal slot s' converted => exact .of_leaves housed (toNative_supplies converted).leaves
  | valueRefused normal c s' refused => exact .of_leaves housed (toNative_supplies refused).leaves
  | array l element length linked type slot count s₁ q encoded converted passed =>
      have made : Steps floor f [] s s₁ :=
        .of_leaves housed (encodeArray_supplies converted).supplied.leaves
      have links : p.links = [l] := by simp [Parameter.links, linked, input]
      rw [links]
      exact made.trans
        (.withLength (housed.of_evolves (encodeArray_evolves converted)) low (lengthSlot_inside passed) _ _)
  | arrayRefused l element length linked type c s' refused =>
      exact .of_leaves housed (encodeArray_supplies refused).supplied.leaves
  | lengthRefused l element length linked type slot count s' e converted refused =>
      exact .of_leaves housed (encodeArray_supplies converted).supplied.leaves
  | callback closure destroy scope signature handled type g callable made s' run =>
      exact .of_leaves housed (makeCallback_leaves run)
  | noCallback => exact .refl housed
  | refused => exact .refl housed

theorem BuildStep.steps (housed : f.Housed s.memory) (low : f.cells.toNat < floor)
    (inside : p.index < f.plan.parameters.length)
    (h : BuildStep arguments p f s r f' s') : Steps floor f (p.index :: p.links) s s' := by
  cases h with
  | hidden => exact .refl housed
  | output visible out r f' s' reserves =>
      cases reserves with
      | cell | unsized | overflow => exact .refl housed
      | buffer given count size block s' sized made => exact .of_leaves housed (allocate_leaves made)
      | full given count size s' sized made => exact .of_leaves housed (allocate_leaves made)
  | input visible supplied f' s' supplies =>
      exact (supplies.steps housed low (by simp [supplied])).mono fun _ => List.mem_cons_of_mem p.index
  | refused visible supplied e f' s' supplies =>
      exact (supplies.steps housed low supplied).mono fun _ => List.mem_cons_of_mem p.index
  | both visible supplied g t supplies =>
      have input : p.direction ≠ .output := by simp [supplied]
      have differs := supplies.differs input
      have first := supplies.steps housed low input
      have housed' : f.Housed t.memory := housed.of_evolves (supplies.cellsStay housed input).forward
      have moved : t.withCell g p.index (g.binding p.index).slot = t.withCell f p.index (g.binding p.index).slot := by
        simp only [Engine.withCell, differs.cell]
      rw [moved]
      refine (first.trans (.store housed' low inside _)).mono fun k hk => ?_
      simpa [or_comm] using hk

/-! ## What a turn leaves in the frame -/

/-- The block was made for the frame, and is no buffer of another parameter. -/
def Own (f : Frame) (first last i : Nat) (x : UInt64) : Prop :=
  Between first last x ∧ ∀ k ≠ i, (f.binding k).buffer ≠ some x

/-- What is known of a parameter of a frame in which everything from `first` on is its own: a cell holds what the engine
made, and what the engine made leads to new blocks and to the structures of the argument. A linked array has room for as
many elements as were settled, whatever its length parameter may show. -/
structure Guards (first : Nat) (arguments : List Value) (f : Frame) (m : Memory) (q : Parameter) : Prop where
  cell : m.load .u64 (f.cell q.index) = if q.direction = .both then (f.binding q.index).engineMade else .zero
  supplied : q.direction ≠ .output → q.type.Leads m (f.Own first m.frontier q.index)
    (· ∈ (q.argument arguments).structures) (f.made q) ∧
    ∀ l, q.handling = .array l → ∀ shown, q.type.Roomy m (f.made q) ((f.binding q.index).count.or shown)
  given : q.direction = .output → q.callerAllocates = true → q.transfer = .everything →
    ∀ element length, q.type = .array element length →
      q.type.Leads m (f.Own first m.frontier q.index) (fun _ => False) (f.binding q.index).slot ∧
      ∀ shown, q.type.Roomy m (f.binding q.index).slot ((f.binding q.index).count.or shown)

variable {first : Nat}

theorem Own.later {last last' i : Nat} {x : UInt64} (own : f.Own first last i x) (le : last ≤ last')
    (buffers : ∀ k y, (f'.binding k).buffer = some y → (f.binding k).buffer = some y ∨ last ≤ y.toNat) :
    f'.Own first last' i x := by
  refine ⟨own.1.mono (Nat.le_refl _) le, fun k other held => ?_⟩
  rcases buffers k x held with before | new
  · exact own.2 k other before
  · exact absurd own.1.2 (Nat.not_lt.mpr new)

theorem Guards.later (h : f.Guards first arguments m q) (binding : f'.binding q.index = f.binding q.index)
    (cell : m'.load .u64 (f'.cell q.index) = m.load .u64 (f.cell q.index)) (kept : m.KeepsFrom first m')
    (le : m.frontier ≤ m'.frontier)
    (buffers : ∀ k y, (f'.binding k).buffer = some y → (f.binding k).buffer = some y ∨ m.frontier ≤ y.toNat) :
    f'.Guards first arguments m' q := by
  have remains : ∀ b ∈ m.chunks, f.Own first m.frontier q.index b.address → b ∈ m'.chunks := fun b hb own =>
    kept b hb (by rw [← Memory.toNat_address hb]; exact own.1.1)
  have made : f'.made q = f.made q := by simp only [Frame.made, binding]
  refine ⟨by rw [cell, binding, h.cell], fun input => ?_, fun out given handed element length type => ?_⟩
  · rw [made, binding]
    obtain ⟨leads, room⟩ := h.supplied input
    exact ⟨leads.later _ remains (fun x own => own.later le buffers) fun _ hx => hx,
      fun l linked shown => leads.roomy (room l linked shown) remains⟩
  · rw [binding]
    obtain ⟨leads, room⟩ := h.given out given handed element length type
    exact ⟨leads.later _ remains (fun x own => own.later le buffers) fun _ hx => hx,
      fun shown => leads.roomy (room shown) remains⟩

theorem makeCallback_token {callable : Nat} {signature : Signature} {scope : Scope} {made : Callback}
    (run : EngineM.makeCallback callable signature scope s = (.ok made, s')) :
    Between s.memory.frontier s'.memory.frontier made.token := by
  obtain ⟨a, memory, found, rfl, rfl⟩ := EngineM.makeCallback_ok run
  obtain ⟨place, -, -, next, -⟩ := Memory.allocate?_some found
  exact ⟨Nat.le_of_eq place.symm, Nat.lt_of_le_of_lt (Nat.le_of_eq place) next⟩

/-- What the frame holds of the caller's value, whichever way the conversion ends. -/
structure Supplies.Holds (arguments : List Value) (q : Parameter) (s : Engine) (f' : Frame) (s' : Engine) : Prop where
  leads : q.type.Leads s'.memory (Between s.memory.frontier s'.memory.frontier) (· ∈ (q.argument arguments).structures)
    (f'.binding q.index).slot
  roomy : ∀ l, q.handling = .array l → ∀ shown,
    q.type.Roomy s'.memory (f'.binding q.index).slot ((f'.binding q.index).count.or shown)
  unmoved : (f'.binding q.index).engineMade = .zero

theorem Supplies.Holds.of_blank {q : Parameter} (blank : f'.binding q.index = {}) :
    Supplies.Holds arguments q s f' s' := by
  refine ⟨?_, fun _ _ _ => ?_, by rw [blank]⟩ <;> rw [blank]
  · exact .null rfl
  · exact .null rfl

theorem Supplies.holds (h : Supplies q (q.argument arguments) f s r f' s') (housed : f.Housed s.memory)
    (low : f.cells.toNat < s.memory.frontier) (input : q.direction ≠ .output)
    (inside : q.index < f.bindings.length) (apart : ∀ j ∈ q.links, j ≠ q.index) (blank : f.binding q.index = {}) :
    Supplies.Holds arguments q s f' s' := by
  have own : ∀ change : Binding → Binding, (f.update q.index change).binding q.index = change {} := fun change => by
    rw [binding_update_self inside, blank]
  cases h with
  | value normal slot s' converted =>
      refine ⟨?_, fun l linked => ?_, by rw [own]⟩
      · rw [own]
        exact (toNative_supplies converted).leads slot rfl
      · rw [normal] at linked
        cases linked
  | array l element length linked type slot count s₁ r encoded converted passed =>
      have made := encodeArray_supplies converted
      have other : l ≠ q.index := apart l (by simp [Parameter.links, linked, input])
      have housed' : f.Housed s₁.memory := housed.of_evolves (encodeArray_evolves converted)
      have length_step := Steps.withLength housed' low (lengthSlot_inside passed) r.direction encoded
      have leads := made.supplied.leads slot rfl
      have kept : ∀ b ∈ s₁.memory.chunks, Between s.memory.frontier s₁.memory.frontier b.address →
          b ∈ (s₁.withLength f l r.direction encoded).memory.chunks := fun b hb new =>
        length_step.keeps b hb (by rw [← Memory.toNat_address hb]; exact new.1)
      have wider : ∀ x, Between s.memory.frontier s₁.memory.frontier x →
          Between s.memory.frontier (s₁.withLength f l r.direction encoded).memory.frontier x := fun x new =>
        new.mono (Nat.le_refl _) length_step.frontier_le
      have later := leads.later _ kept wider fun _ hx => hx
      have room := leads.roomy (made.roomy slot count rfl) kept
      rw [← type] at later room
      refine ⟨?_, fun _ _ _ => ?_, by rw [binding_withLength _ other, own]⟩ <;>
        rw [binding_withLength _ other, own]
      · exact later
      · exact room
  | lengthRefused l element length linked type slot count s' e converted refused =>
      have made := encodeArray_supplies converted
      have leads := made.supplied.leads slot rfl
      have room := made.roomy slot count rfl
      rw [← type] at leads room
      refine ⟨?_, fun _ _ _ => ?_, by rw [own]⟩ <;> rw [own]
      · exact leads
      · exact room
  | callback closure destroy scope signature handled type g callable made s' run =>
      have links : q.links = closure.toList ++ destroy.toList := by simp [Parameter.links, handled]
      have passed := binding_passing inside (by rwa [← links])
        (fun b => { b with slot := .ofAddress made.code }) (fun b => { b with callback := some made, built := true })
        (.ofAddress made.token) (.ofAddress Engine.notifier)
      rw [blank] at passed
      exact ⟨by rw [type]; trivial, by simp [handled], by rw [passed]⟩
  | noCallback closure destroy scope signature handled type =>
      exact ⟨by rw [type]; trivial, by simp [handled], by rw [own]⟩
  | valueRefused | arrayRefused | refused => exact .of_blank blank

/-- The frame has buffers for outputs only, and each of them is apart from the others and from the storage of callbacks. -/
structure Separate (f : Frame) : Prop where
  outputs : ∀ k x, (f.binding k).buffer = some x → ∀ q ∈ f.plan.parameters, q.index = k →
    q.direction = .output ∧ q.callerAllocates = true
  single : ∀ i j x, (f.binding i).buffer = some x → (f.binding j).buffer = some x → i = j
  uncalled : ∀ i j x c, (f.binding i).buffer = some x → (f.binding j).callback = some c → c.token ≠ x

/-- Everything from `first` on is the frame's own, whether its build is at an end or not. -/
structure Guarded (first : Nat) (arguments : List Value) (f : Frame) (s : Engine) : Prop where
  first_le : first ≤ s.memory.frontier
  low : f.cells.toNat < first
  lowFailure : f.failure.toNat < first
  returned : f.returned = none ∧ f.returnedCount = none
  unreported : s.memory.load .pointer f.failure = .zero
  buffers : ∀ k x, (f.binding k).buffer = some x → Between first s.memory.frontier x
  tokens : ∀ k c, (f.binding k).callback = some c → Between first s.memory.frontier c.token
  separate : f.Separate
  parameters : ∀ q ∈ f.plan.parameters, q.handling ≠ .hidden → f.Guards first arguments s.memory q

/-- The build may go on with the parameters that are left. -/
structure Open (rest : List Parameter) (f : Frame) (s : Engine) : Prop where
  housed : f.Housed s.memory
  length : f.bindings.length = f.plan.parameters.length
  blank : ∀ q ∈ rest, q.handling ≠ .hidden → f.binding q.index = {}

theorem BuildStep.buffers {q : Parameter} (h : BuildStep arguments q f s r f' s') (k : Nat) (x : UInt64)
    (held : (f'.binding k).buffer = some x) :
    (f.binding k).buffer = some x ∨ k = q.index ∧ (q.direction = .output ∧ q.callerAllocates = true) ∧
      Between s.memory.frontier s'.memory.frontier x ∧ ∀ j, (f'.binding j).callback = (f.binding j).callback := by
  cases h with
  | hidden => exact Or.inl held
  | output visible out r f' s' reserves =>
      cases reserves with
      | unsized => exact Or.inl held
      | cell | overflow | full => exact Or.inl (by rwa [buffer_update (by intro b; rfl)] at held)
      | buffer given count size block s' sized made =>
          rcases binding_update_cases f q.index k fun b => { b with
            count := count.or b.count, slot := .ofAddress block, buffer := some block, built := true } with same | ⟨here, own⟩
          · exact Or.inl (by rwa [same] at held)
          · rw [own] at held
            cases held
            obtain ⟨b, hb, rfl, base, -⟩ := allocate_block made
            have chunk := Memory.mem_chunks_of_live hb
            have inside := Memory.base_lt_frontier chunk
            rw [Between, Memory.toNat_address chunk]
            exact Or.inr ⟨here, ⟨out, given⟩, ⟨Nat.le_of_eq base.symm, inside⟩,
              (Calm.update f q.index (by simp) (by simp)).callback⟩
  | input visible supplied f' s' supplies => exact Or.inl (by rwa [supplies.buffer] at held)
  | refused visible supplied e f' s' supplies => exact Or.inl (by rwa [supplies.buffer] at held)
  | both visible supplied g t supplies =>
      refine Or.inl ?_
      rw [rehomed, buffer_update (by intro b; rfl), supplies.buffer] at held
      exact held

theorem Supplies.tokens {value : Value} {q : Parameter} (h : Supplies q value f s r f' s') (k : Nat) (c : Callback)
    (held : (f'.binding k).callback = some c) :
    (f.binding k).callback = some c ∨ Between s.memory.frontier s'.memory.frontier c.token := by
  cases h with
  | value | lengthRefused | noCallback => exact Or.inl (by rwa [(Calm.update f q.index (by simp) (by simp)).callback] at held)
  | valueRefused | arrayRefused | refused => exact Or.inl held
  | array l element length linked type slot count s₁ r encoded converted passed =>
      rw [(Calm.withLength _ _ _ _).callback, (Calm.update f q.index (by simp) (by simp)).callback] at held
      exact Or.inl held
  | callback closure destroy scope signature handled type g callable made s' run =>
      rcases binding_update_cases (((f.update q.index fun b => { b with slot := .ofAddress made.code }).linkTo closure
        (.ofAddress made.token)).linkTo destroy (.ofAddress Engine.notifier)) q.index k
        fun b => { b with callback := some made, built := true } with same | ⟨-, own⟩
      · rw [same, (Calm.linkTo _ _ _).callback, (Calm.linkTo _ _ _).callback,
          (Calm.update f q.index (by simp) (by simp)).callback] at held
        exact Or.inl held
      · rw [own] at held
        cases held
        exact Or.inr (makeCallback_token run)

theorem BuildStep.tokens {q : Parameter} (h : BuildStep arguments q f s r f' s') (k : Nat) (c : Callback)
    (held : (f'.binding k).callback = some c) :
    (f.binding k).callback = some c ∨ Between s.memory.frontier s'.memory.frontier c.token := by
  cases h with
  | hidden => exact Or.inl held
  | output visible out r f' s' reserves =>
      cases reserves with
      | unsized => exact Or.inl held
      | cell | overflow | full | buffer => exact Or.inl (by rwa [(Calm.update f q.index (by simp) (by simp)).callback] at held)
  | input visible supplied f' s' supplies => exact supplies.tokens k c held
  | refused visible supplied e f' s' supplies => exact supplies.tokens k c held
  | both visible supplied g t supplies =>
      rw [rehomed, (Calm.update g q.index (by simp) (by simp)).callback] at held
      exact (supplies.tokens k c held).imp_right fun new => new.mono (Nat.le_refl _)
        (Nat.le_of_eq (Memory.frontier_store _ _ _ _).symm)

theorem BuildStep.separate {q : Parameter} (h : BuildStep arguments q f s r f' s') (coherent : f.plan.Coherent)
    (hq : q ∈ f.plan.parameters) (guarded : Guarded first arguments f s) : f'.Separate := by
  have before := guarded.separate
  refine ⟨fun k x held t ht here => ?_, fun i j x held held' => ?_, fun i j x c held called => ?_⟩
  · rw [h.differs.plan] at ht
    rcases h.buffers k x held with old | ⟨same, out, -⟩
    · exact before.outputs k x old t ht here
    · have at_t := coherent.inside ht
      rw [here.trans same, coherent.inside hq] at at_t
      cases at_t
      exact out
  · rcases h.buffers i x held with old | ⟨rfl, -, new, -⟩ <;> rcases h.buffers j x held' with old' | ⟨rfl, -, new', -⟩
    · exact before.single i j x old old'
    · exact absurd (guarded.buffers i x old).2 (Nat.not_lt.mpr new'.1)
    · exact absurd (guarded.buffers j x old').2 (Nat.not_lt.mpr new.1)
    · rfl
  · rintro rfl
    rcases h.buffers i c.token held with old | ⟨-, -, new, calm⟩
    · rcases h.tokens j c called with old' | new'
      · exact before.uncalled i j c.token c old old' rfl
      · exact absurd (guarded.buffers i c.token old).2 (Nat.not_lt.mpr new'.1)
    · rw [calm] at called
      exact absurd (guarded.tokens j c called).2 (Nat.not_lt.mpr new.1)

theorem buffer_guards {q : Parameter} {count : Option Nat} {size : Nat} {block : UInt64} (coherent : f.plan.Coherent)
    (hq : q ∈ f.plan.parameters) {element : Ty} {length : ArrayLength} (type : q.type = .array element length)
    (sized : f.plan.bufferSize q arguments = .ok (count, some size)) (made : EngineM.allocate size s = (some block, s'))
    {own lent : UInt64 → Prop} (mine : own block) : q.type.Leads s'.memory own lent (.ofAddress block) ∧
      ∀ shown, q.type.Roomy s'.memory (.ofAddress block) (count.or shown) := by
  obtain ⟨n, rfl, rfl, asked⟩ := Plan.bufferSize_array type sized
  obtain ⟨b, hb, rfl, base, large, fresh⟩ := allocate_block made
  have chunk := Memory.mem_chunks_of_live hb
  have room : n * element.native.size ≤ b.capacity := by
    have := b.size_le_capacity
    rw [Ty.elementSize] at large
    omega
  -- a fixed count is the one that the buffer was sized for
  have fixed : ∀ k, length = .fixed k → k = n := by
    rintro k rfl
    rcases asked with ⟨l, linked, -⟩ | ⟨-, same⟩
    · obtain ⟨element', other⟩ := coherent.typed hq linked
      rw [type] at other
      cases other
    · cases same
      rfl
  rw [type]
  refine ⟨fun _ => ⟨mine, b, chunk, rfl, fun _ k same => ?_, fun i _ => ?_⟩, fun _ _ _ k same => ?_⟩
  · rw [fixed k same]
    exact room
  · rw [Block.element_of_fresh fresh]
    exact .null rfl
  · cases same
    exact ⟨b, chunk, rfl, room⟩

theorem Guarded.own_of_new {i : Nat} {x : UInt64} {last : Nat} (guarded : Guarded first arguments f s)
    (buffers : ∀ k y, (f'.binding k).buffer = some y → (f.binding k).buffer = some y)
    (new : Between s.memory.frontier last x) : f'.Own first last i x := by
  refine ⟨new.mono guarded.first_le (Nat.le_refl _), fun k _ held => ?_⟩
  exact absurd (guarded.buffers k x (buffers k x held)).2 (Nat.not_lt.mpr new.1)

section Turn

variable {q : Parameter} {rest : List Parameter} (coherent : f.plan.Coherent) (hq : q ∈ f.plan.parameters)
  (guarded : Guarded first arguments f s) (open_ : Open (q :: rest) f s)
  (visible : q.handling ≠ .hidden)
include coherent hq guarded open_ visible

omit coherent in
theorem Guarded.zeroed : s.memory.load .u64 (f.cell q.index) = .zero := by
  have cell := (guarded.parameters q hq visible).cell
  rw [open_.blank q List.mem_cons_self visible] at cell
  rw [cell]
  split <;> rfl

theorem Supplies.holds_own (h : Supplies q (q.argument arguments) f s r f' s') (input : q.direction ≠ .output) :
    Holds arguments q s f' s' :=
  h.holds open_.housed (Nat.lt_of_lt_of_le guarded.low guarded.first_le) input
    (by rw [open_.length]; exact coherent.index_lt hq) (coherent.links_apart hq visible)
    (open_.blank q List.mem_cons_self visible)

theorem Supplies.guards (h : Supplies q (q.argument arguments) f s r f' s') (input : q.direction ≠ .output) :
    f'.Guards first arguments s'.memory q := by
  have holds := h.holds_own coherent hq guarded open_ visible input
  have steps := h.steps open_.housed guarded.low input
  have zeroed := guarded.zeroed hq open_ visible
  have untouched := steps.cell q.index (coherent.index_lt hq) fun link => coherent.links_apart hq visible _ link rfl
  have differs := h.differs input
  refine ⟨?_, fun _ => ?_, fun out => absurd out input⟩
  · rw [differs.cell, untouched, zeroed, holds.unmoved]
    split <;> rfl
  · by_cases both : q.direction = .both
    · rw [Frame.made, if_pos both, holds.unmoved]
      exact ⟨.null rfl, fun _ _ _ => .null rfl⟩
    · rw [Frame.made, if_neg both]
      refine ⟨holds.leads.later _ (fun _ hb _ => hb) (fun x new => ?_) fun _ hx => hx, holds.roomy⟩
      exact guarded.own_of_new (fun k y held => by rwa [h.buffer] at held) new

theorem Supplies.rehomed_guards (h : Supplies q (q.argument arguments) f s (.ok ()) f' s') (both : q.direction = .both) :
    (f'.rehomed q.index).Guards first arguments (s'.withCell f' q.index (f'.binding q.index).slot).memory q := by
  have input : q.direction ≠ .output := by simp [both]
  have holds := h.holds_own coherent hq guarded open_ visible input
  have differs := h.differs input
  have inside := coherent.index_lt hq
  have housed : f'.Housed s'.memory :=
    (open_.housed.of_evolves (h.cellsStay open_.housed input).forward).congr differs.plan differs.cells differs.failure
  have own : (f'.rehomed q.index).binding q.index = { f'.binding q.index with
      engineMade := (f'.binding q.index).slot, slot := .ofAddress (f'.cell q.index) } :=
    binding_update_self (by rw [differs.length, open_.length]; exact inside) _
  rw [← differs.plan] at inside
  have low : f'.cells.toNat < first := by
    rw [differs.cells]
    exact guarded.low
  have moved := Steps.store housed low inside (f'.binding q.index).slot
  have kept : ∀ b ∈ s'.memory.chunks, Between s.memory.frontier s'.memory.frontier b.address →
      b ∈ (s'.withCell f' q.index (f'.binding q.index).slot).memory.chunks := fun b hb new =>
    moved.keeps b hb (by rw [← Memory.toNat_address hb]; exact Nat.le_trans guarded.first_le new.1)
  have buffers : ∀ k y, ((f'.rehomed q.index).binding k).buffer = some y → (f.binding k).buffer = some y := by
    intro k y held
    rw [rehomed, buffer_update (by intro b; rfl), h.buffer] at held
    exact held
  refine ⟨?_, fun _ => ?_, fun out => absurd out input⟩
  · rw [if_pos both, own]
    exact housed.placed.load_store_self inside _
  · rw [Frame.made, if_pos both, own]
    refine ⟨holds.leads.later _ kept (fun x new => ?_) fun _ hx => hx,
      fun l linked shown => holds.leads.roomy (holds.roomy l linked shown) kept⟩
    exact guarded.own_of_new buffers (new.mono (Nat.le_refl _) moved.frontier_le)

theorem BuildStep.guards (h : BuildStep arguments q f s r f' s') :
    f'.Guards first arguments s'.memory q := by
  have blank := open_.blank q List.mem_cons_self visible
  have zeroed := guarded.zeroed hq open_ visible
  have own : ∀ change : Binding → Binding, (f.update q.index change).binding q.index = change {} := fun change => by
    rw [binding_update_self (by rw [open_.length]; exact coherent.index_lt hq), blank]
  cases h with
  | hidden hidden => exact absurd hidden visible
  | input _ supplied f' s' supplies =>
      exact supplies.guards coherent hq guarded open_ visible (by simp [supplied])
  | refused _ supplied e f' s' supplies =>
      exact supplies.guards coherent hq guarded open_ visible supplied
  | both _ supplied f' s' supplies =>
      exact supplies.rehomed_guards coherent hq guarded open_ visible supplied
  | output _ out r f' s' reserves =>
      have single : q.direction ≠ .both := by simp [out]
      cases reserves with
      | unsized => exact guarded.parameters q hq visible
      | cell unprovided =>
          refine ⟨by rw [if_neg single]; exact zeroed, fun input => absurd out input, fun _ given => ?_⟩
          rw [unprovided] at given
          cases given
      | overflow given count sized =>
          refine ⟨by rw [if_neg single]; exact zeroed, fun input => absurd out input, fun _ _ _ _ _ _ => ?_⟩
          rw [own]
          exact ⟨.null rfl, fun _ => .null rfl⟩
      | full given count size s' sized made =>
          rw [EngineM.allocate_none made]
          refine ⟨by rw [if_neg single]; exact zeroed, fun input => absurd out input, fun _ _ _ _ _ _ => ?_⟩
          rw [own]
          exact ⟨.null rfl, fun _ => .null rfl⟩
      | buffer given count size block s' sized made =>
          have cells := open_.housed.kept fun b hb => (allocate_leaves made).remains b hb (by simp)
          obtain ⟨b, hb, rfl, base, -⟩ := allocate_block made
          have chunk := Memory.mem_chunks_of_live hb
          have place : b.address.toNat = s.memory.frontier := by rw [Memory.toNat_address chunk, base]
          have new : Between s.memory.frontier s'.memory.frontier b.address := by
            have := Memory.base_lt_frontier chunk
            exact ⟨Nat.le_of_eq place.symm, by omega⟩
          refine ⟨?_, fun input => absurd out input, fun _ _ _ element length type => ?_⟩
          · rw [if_neg single]
            exact (cells.2 q.index (coherent.index_lt hq)).trans zeroed
          · rw [own]
            simp only [Option.or_none]
            refine buffer_guards coherent hq type sized made ?_
            refine ⟨new.mono guarded.first_le (Nat.le_refl _), fun k other held => ?_⟩
            rw [binding_update_of_ne (Ne.symm other)] at held
            exact absurd (guarded.buffers k _ held).2 (Nat.not_lt.mpr new.1)

end Turn

/-! ## All turns -/

section Turns

variable {plan : Plan} {q : Parameter} {rest : List Parameter} (coherent : plan.Coherent)
include coherent

theorem BuildStep.guarded (h : BuildStep arguments q f s r f' s') (same : f.plan = plan) (hq : q ∈ plan.parameters)
    (guarded : Guarded first arguments f s) (open_ : Open (q :: rest) f s) : Guarded first arguments f' s' := by
  subst same
  have steps := h.steps open_.housed guarded.low (coherent.index_lt hq)
  have differs := h.differs
  have buffers : ∀ k y, (f'.binding k).buffer = some y → (f.binding k).buffer = some y ∨ s.memory.frontier ≤ y.toNat :=
    fun k y held => (h.buffers k y held).imp_right fun new => new.2.2.1.1
  refine ⟨Nat.le_trans guarded.first_le steps.frontier_le, by rw [differs.cells]; exact guarded.low,
    by rw [differs.failure]; exact guarded.lowFailure, by rw [differs.returned, differs.returnedCount]; exact guarded.returned,
    by rw [differs.failure, steps.report]; exact guarded.unreported, fun k x held => ?_, fun k c held => ?_,
    h.separate coherent hq guarded, fun t ht visible => ?_⟩
  · rcases h.buffers k x held with before | ⟨-, -, new, -⟩
    · exact (guarded.buffers k x before).mono (Nat.le_refl _) steps.frontier_le
    · exact new.mono guarded.first_le (Nat.le_refl _)
  · rcases h.tokens k c held with before | new
    · exact (guarded.tokens k c before).mono (Nat.le_refl _) steps.frontier_le
    · exact new.mono guarded.first_le (Nat.le_refl _)
  · rw [differs.plan] at ht
    by_cases own : t.index = q.index
    · have equal : t = q := by
        have at_t := coherent.inside ht
        rw [own, coherent.inside hq] at at_t
        exact (Option.some.inj at_t).symm
      subst equal
      exact h.guards coherent ht guarded open_ visible
    · have apart : t.index ∉ q.index :: q.links := by
        have unreached : t.index ∉ reach [q] :=
          coherent.not_mem_reach (coherent.inside ht) visible (by simpa using ⟨hq, Ne.symm own⟩)
        simpa [reach] using unreached
      refine (guarded.parameters t ht visible).later (coherent.binding_of_step h hq ht visible own) ?_ steps.keeps
        steps.frontier_le buffers
      rw [differs.cell]
      exact steps.cell t.index (coherent.index_lt ht) apart

theorem BuildStep.open_ (h : BuildStep arguments q f s (.ok ()) f' s') (same : f.plan = plan)
    (sub : ∀ t ∈ q :: rest, t ∈ plan.parameters) (before : ∀ t ∈ rest, q.index ≠ t.index) (open_ : Open (q :: rest) f s) :
    Open rest f' s' := by
  subst same
  have differs := h.differs
  have hq := sub q List.mem_cons_self
  refine ⟨?_, by rw [differs.length, differs.plan]; exact open_.length, fun t ht visible => ?_⟩
  · exact (open_.housed.of_evolves (h.cellsStay open_.housed (coherent.index_lt hq)).forward).congr differs.plan
      differs.cells differs.failure
  · rw [coherent.binding_of_step h hq (sub t (List.mem_cons_of_mem q ht)) visible (Ne.symm (before t ht))]
    exact open_.blank t (List.mem_cons_of_mem q ht) visible

theorem run_guarded (parameters : List Parameter) (same : f.plan = plan)
    (sub : ∀ q ∈ parameters, q ∈ plan.parameters) (order : parameters.Pairwise fun q r => q.index ≠ r.index)
    (guarded : Guarded first arguments f s) (open_ : Open parameters f s)
    (run : f.run (parameters.forM (FrameM.buildParameter arguments)) s = ((r, f'), s')) :
    Guarded first arguments f' s' ∧ s.SparesOld s' := by
  induction parameters generalizing f s with
  | nil =>
      cases run
      exact ⟨guarded, .refl _⟩
  | cons q rest ih =>
      rw [run_forM_cons] at run
      have hq := sub q List.mem_cons_self
      obtain ⟨before, order⟩ := List.pairwise_cons.mp order
      have spares : ∀ {r f₁ s₁}, BuildStep arguments q f s r f₁ s₁ → s.SparesOld s₁ := fun step =>
        (step.steps open_.housed guarded.low (by rw [same]; exact coherent.index_lt hq)).toSparesOld
      rcases run_bind_cases run with ⟨u, f₁, s₁, turn, later⟩ | ⟨e, failed, -⟩
      · have step := run_buildParameter turn
        obtain ⟨kept, spared⟩ := ih (step.differs.plan.trans same) (fun t ht => sub t (List.mem_cons_of_mem q ht)) order
          (step.guarded coherent same hq guarded open_)
          (step.open_ coherent same sub before open_) later
        exact ⟨kept, (spares step).trans spared⟩
      · have step := run_buildParameter failed
        exact ⟨step.guarded coherent same hq guarded open_, spares step⟩

end Turns

/-! ## The whole build -/

theorem Guarded.of_blank (first_le : first ≤ s.memory.frontier) (low : f.cells.toNat < first)
    (lowFailure : f.failure.toNat < first) (returned : f.returned = none ∧ f.returnedCount = none)
    (unreported : s.memory.load .pointer f.failure = .zero)
    (unprovided : ∀ k, (f.binding k).buffer = none) (uncalled : ∀ k, (f.binding k).callback = none)
    (blank : ∀ q ∈ f.plan.parameters, q.handling ≠ .hidden → f.binding q.index = {})
    (zeroed : ∀ q ∈ f.plan.parameters, s.memory.load .u64 (f.cell q.index) = .zero) : Guarded first arguments f s := by
  refine ⟨first_le, low, lowFailure, returned, unreported, fun k x held => ?_, fun k c held => ?_,
    ⟨fun k x held => ?_, fun i j x held => ?_, fun i j x c held => ?_⟩, fun q hq visible => ?_⟩
  · rw [unprovided] at held
    cases held
  · rw [uncalled] at held
    cases held
  · simp [unprovided] at held
  · simp [unprovided] at held
  · simp [unprovided] at held
  · have empty := blank q hq visible
    have made : q.direction ≠ .output → f.made q = .zero := fun _ => by rw [Frame.made, empty]; split <;> rfl
    refine ⟨by rw [zeroed q hq, empty]; split <;> rfl, fun input => ?_, fun _ _ _ _ _ _ => ?_⟩
    · rw [made input]
      exact ⟨.null rfl, fun _ _ _ => .null rfl⟩
    · rw [empty]
      exact ⟨.null rfl, fun _ => .null rfl⟩

/-- A frame lies behind everything that was there when it was begun, whether its build succeeded or not. -/
structure Behind (p : Plan) (arguments : List Value) (s : Engine) (first : Nat) (f : Frame) (s' : Engine) : Prop
    extends s.SparesOld s' where
  plan : f.plan = p
  first_le : s.memory.frontier ≤ first
  cells : s.memory.frontier ≤ f.cells.toNat
  failure : s.memory.frontier ≤ f.failure.toNat
  guarded : Guarded first arguments f s'

/-- Whatever the plan, the receiver and the arguments, and whether the build succeeds or not, the frame lies behind
everything that was there. -/
theorem behind_of_build {plan : Plan} {receiver : Option Value} {f₀ : Frame} {s₀ : Engine} (coherent : plan.Coherent)
    (fresh : fresh? plan s = (some f₀, s₀))
    (run : f₀.run (FrameM.build receiver arguments) s₀ = ((r, f), s')) :
    Behind plan arguments s s₀.memory.frontier f s' := by
  obtain ⟨made, housed, forward, same, new, newFailure, zeroed, unreported⟩ := fresh?_some fresh
  have plan_eq : f₀.plan = plan := by rw [made]; rfl
  have low : f₀.cells.toNat < s₀.memory.frontier := by
    obtain ⟨b, hb, address, -⟩ := housed.room
    have chunk := Memory.mem_chunks_of_live hb
    rw [← address, Memory.toNat_address chunk]
    exact Memory.base_lt_frontier chunk
  have lowFailure : f₀.failure.toNat < s₀.memory.frontier := by
    obtain ⟨b, hb, address, -⟩ := housed.failure
    have chunk := Memory.mem_chunks_of_live hb
    rw [← address, Memory.toNat_address chunk]
    exact Memory.base_lt_frontier chunk
  have begins : s.SparesOld s₀ := .of_spares fun a => by
    rw [same]
    exact .of_forward (t := []) rfl rfl forward rfl
  have receives : ∀ {value slot t}, toNative value f₀.plan.source.descriptor.container false s₀ = (slot, t) →
      s₀.Leaves [] [] [] t := fun converted => by
    rw [plan_eq] at converted
    exact (toNative_supplies converted).leaves
  rw [run_build, plan_eq] at run
  rcases run_bind_cases run with ⟨u, f₁, s₁, start, turns⟩ | ⟨e, failed, -⟩
  · have begun := begun_of_start coherent fresh start
    have left : s₀.Leaves [] [] [] s₁ := by
      obtain ⟨g, ⟨-, -, rfl⟩ | ⟨-, value, slot, -, converted, -⟩, -⟩ := run_start_ok start
      · exact .refl _ [] [] []
      · exact receives converted
    have differs := run_differs _ turns
    have storage : f₁.cells = f₀.cells ∧ f₁.failure = f₀.failure := by
      obtain ⟨g, step, rfl⟩ := run_start_ok start
      rw [(withHiddenCells_differs f₀.plan.parameters g).cells, (withHiddenCells_differs f₀.plan.parameters g).failure]
      rcases step with ⟨-, rfl, -⟩ | ⟨-, value, slot, -, -, rfl⟩ <;> exact ⟨rfl, rfl⟩
    have blank : ∀ q ∈ f₁.plan.parameters, q.handling ≠ .hidden → f₁.binding q.index = {} := fun q hq visible => by
      rw [begun.plan] at hq
      exact begun.blank q.index q (coherent.inside hq) visible
    have uncalled : ∀ k, (f₁.binding k).callback = none := fun k => by
      rw [(unstirred_start receiver f₀ s₀ _ f₁ s₁ (.refl f₀ s₀) start).1.calm.callback, made, binding_empty]
    have start_guarded : Guarded s₀.memory.frontier arguments f₁ s₁ :=
      .of_blank left.frontier_le (by rw [storage.1]; exact low) (by rw [storage.2]; exact lowFailure) begun.returned
        begun.unreported begun.buffer_none uncalled blank
        fun q hq => begun.zeroed q.index (by rw [begun.plan] at hq; exact coherent.index_lt hq)
    obtain ⟨guarded, spares⟩ := run_guarded coherent plan.parameters begun.plan (fun _ hq => hq)
      coherent.order start_guarded ⟨begun.housed, by rw [begun.length, begun.plan], by rw [begun.plan] at blank; exact blank⟩
      turns
    exact ⟨(begins.trans (.of_leaves left)).trans spares, differs.plan.trans begun.plan, forward.frontier_le,
      by rw [differs.cells]; exact begun.new, by rw [differs.failure]; exact begun.newFailure, guarded⟩
  · obtain ⟨rfl, kept⟩ := run_start_error failed
    have left : s₀.Leaves [] [] [] s' := by
      rcases kept with ⟨-, rfl⟩ | ⟨value, c, -, refused, -⟩
      · exact .refl _ [] [] []
      · exact receives refused
    have words := housed.kept fun b hb => left.remains b hb (by simp)
    have blank : ∀ k, f.binding k = {} := fun k => by
      rw [made]
      exact binding_empty plan _ _ k
    refine ⟨begins.trans (.of_leaves left), plan_eq, forward.frontier_le, new, newFailure, ?_⟩
    · refine .of_blank left.frontier_le low lowFailure (by rw [made]; exact ⟨rfl, rfl⟩) (words.1.trans unreported)
        (fun k => by rw [blank]) (fun k => by rw [blank]) (fun q _ _ => blank q.index) fun q hq => ?_
      have inside := coherent.index_lt (by rwa [plan_eq] at hq)
      exact (words.2 q.index (by rw [plan_eq]; exact inside)).trans (zeroed q.index inside)

end Frame

end Ferry
