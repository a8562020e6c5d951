import Ferry.Proofs.Call.Layout
import Ferry.Proofs.Marshal.Making

/-!
# What a frame carries

Everything that is gained while a frame is built is found in it again: `Frame.Carries` says which blocks and which
callback a frame holds for a parameter, apart from the buffers, which the frame owns by itself. Turns of other
parameters leave that as it is. So the turns gain what the parameters carry and the buffers, and nothing else.
-/

set_option autoImplicit false

namespace Ferry

/-- An array parameter whose items are no arrays, and whose element count can be told when it is released. -/
structure Parameter.Shallow (q : Parameter) (arguments : List Value) : Prop where
  flat : ∀ element length, q.type = .array element length → element.IsFlat
  counted : q.handling = .normal → ∀ element length items, q.type = .array element length →
    q.argument arguments = .array items → Counted length items.length none

namespace Frame

variable {f f' : Frame} {s s' : Engine} {m m' : Memory} {arguments : List Value} {q : Parameter} {L : List Resource}

/-- The value that the engine made for a parameter. -/
def made (f : Frame) (q : Parameter) : Slot :=
  if q.direction = .both then (f.binding q.index).engineMade else (f.binding q.index).slot

/-- What the frame holds for a parameter, apart from a buffer. -/
inductive Carries (f : Frame) (m : Memory) (q : Parameter) : List Resource → Prop
  | nothing (unbuilt : q.handling = .hidden ∨ (f.binding q.index).built = false) : Carries f m q []
  | output (out : q.direction = .output) (uncalled : (f.binding q.index).callback = none) : Carries f m q []
  | callback (closure destroy : Option Nat) (scope : Scope) (handled : q.handling = .callback closure destroy scope)
    (built : (f.binding q.index).built = true) :
    Carries f m q ((f.binding q.index).callback.toList.map fun c => .callback c.serial)
  | value (supplied : q.direction ≠ .output) (built : (f.binding q.index).built = true)
    (handled : q.handling = .normal ∧ (f.binding q.index).count = none ∨
      ∃ l n, q.handling = .array l ∧ (f.binding q.index).count = some n) (L : List UInt64)
    (owns : m.Owns (q.type.pointers (f.made q)) (fun m' => q.type.ownedIn m' (f.made q) (f.binding q.index).count) L)
    (apart : f.cells ∉ q.type.pointers (f.made q) ∧ f.failure ∉ q.type.pointers (f.made q)) :
    Carries f m q (L.map .block)

theorem Carries.later (h : f.Carries m q L) (binding : q.handling ≠ .hidden → f'.binding q.index = f.binding q.index)
    (cells : f'.cells = f.cells) (failure : f'.failure = f.failure)
    (shown : f.cells ∉ q.type.pointers (f.made q) → f.failure ∉ q.type.pointers (f.made q) →
      m.Shows (q.type.pointers (f.made q)) m') : f'.Carries m' q L := by
  cases h with
  | nothing unbuilt =>
      by_cases hidden : q.handling = .hidden
      · exact .nothing (Or.inl hidden)
      · refine .nothing (Or.inr ?_)
        rw [binding hidden]
        exact unbuilt.resolve_left hidden
  | output out uncalled =>
      by_cases hidden : q.handling = .hidden
      · exact .nothing (Or.inl hidden)
      · refine .output out ?_
        rw [binding hidden]
        exact uncalled
  | callback closure destroy scope handled built =>
      have same := binding (by simp [handled])
      rw [← same]
      exact .callback closure destroy scope handled (by rw [same]; exact built)
  | value supplied built handled L owns apart =>
      have visible : q.handling ≠ .hidden := by
        rcases handled with ⟨normal, -⟩ | ⟨l, n, linked, -⟩
        · simp [normal]
        · simp [linked]
      have same := binding visible
      have value : f'.made q = f.made q := by simp only [made, same]
      refine .value supplied (by rw [same]; exact built) (by rw [same]; exact handled) L ?_ ?_
      · rw [value, same]
        exact owns.later (shown apart.1 apart.2)
      · rw [value, cells, failure]
        exact apart

theorem shows_of_evolves (forward : m.Evolves [f.cells] m') (pointers : List UInt64) (apart : f.cells ∉ pointers) :
    m.Shows pointers m' :=
  .of_chunks fun b hb listed => forward.mem_chunks hb fun hit => by
    rw [List.mem_singleton] at hit
    rw [hit] at listed
    exact apart listed

/-! ## Buffers -/

/-- The buffers that the frame owns. -/
def buffers (f : Frame) : List Resource :=
  f.bindings.flatMap fun b => b.buffer.toList.map .block

theorem buffers_congr (length : f'.bindings.length = f.bindings.length)
    (same : ∀ k, (f'.binding k).buffer = (f.binding k).buffer) : f'.buffers = f.buffers := by
  have listed : f'.bindings.map (·.buffer) = f.bindings.map (·.buffer) := map_bindings_congr length same
  have flat : ∀ g : Frame, g.buffers = (g.bindings.map (·.buffer)).flatMap fun b => b.toList.map .block := fun g => by
    rw [List.flatMap_map]
    rfl
  rw [flat, flat, listed]

theorem buffers_update {i : Nat} {a : UInt64} {change : Binding → Binding} (inside : i < f.bindings.length)
    (none_here : (f.binding i).buffer = none) (given : (change (f.binding i)).buffer = some a) :
    (f.update i change).buffers.Perm (.block a :: f.buffers) := by
  have item : f.bindings[i] = f.binding i := by simp [binding, inside]
  have parts : f.bindings = f.bindings.take i ++ f.bindings[i] :: f.bindings.drop (i + 1) := by
    rw [← List.drop_eq_getElem_cons inside, List.take_append_drop]
  have changed : (f.update i change).bindings =
      f.bindings.take i ++ change f.bindings[i] :: f.bindings.drop (i + 1) := by
    simp only [update]
    rw [List.modify_eq_take_cons_drop inside]
  have before : f.buffers = (f.bindings.take i).flatMap (fun b => b.buffer.toList.map .block) ++
      (f.bindings.drop (i + 1)).flatMap fun b => b.buffer.toList.map .block := by
    rw [buffers]
    conv_lhs => rw [parts]
    rw [List.flatMap_append, List.flatMap_cons, item, none_here]
    rfl
  rw [before, buffers, changed, List.flatMap_append, List.flatMap_cons, item, given]
  exact List.perm_middle

/-! ## One turn -/

theorem Housed.apart_of_new (housed : f.Housed m) {pointers : List UInt64}
    (new : ∀ a ∈ pointers, a = 0 ∨ m.frontier ≤ a.toNat) : f.cells ∉ pointers ∧ f.failure ∉ pointers := by
  have apart : ∀ a, m.Live a → a ∉ pointers := fun a live listed => by
    rcases new a listed with null | behind
    · exact live.ne_zero null
    · have := live.toNat_lt
      omega
  obtain ⟨b, hb, address, -⟩ := housed.cells
  obtain ⟨c, hc, address', -⟩ := housed.failure
  exact ⟨apart _ ⟨b, hb, address⟩, apart _ ⟨c, hc, address'⟩⟩

theorem withLength_shows {l : Nat} {d : Direction} {encoded : Slot} {pointers : List UInt64} (housed : f.Housed s.memory)
    (inside : l < f.plan.parameters.length) (apart : f.cells ∉ pointers) :
    s.memory.Shows pointers (s.withLength f l d encoded).memory := by
  unfold Engine.withLength
  split
  · exact shows_of_evolves (housed.cell_evolves inside encoded) pointers apart
  · exact .of_chunks fun b hb _ => hb

/-- What the frame holds once the value of the caller is converted, before it is moved into a cell. -/
inductive Gives (f : Frame) (m : Memory) (q : Parameter) : List Resource → Prop
  | callback (closure destroy : Option Nat) (scope : Scope) (handled : q.handling = .callback closure destroy scope) :
    Gives f m q ((f.binding q.index).callback.toList.map fun c => .callback c.serial)
  | value (handled : q.handling = .normal ∧ (f.binding q.index).count = none ∨
      ∃ l n, q.handling = .array l ∧ (f.binding q.index).count = some n) (L : List UInt64)
    (owns : m.Owns (q.type.pointers (f.binding q.index).slot)
      (fun m' => q.type.ownedIn m' (f.binding q.index).slot (f.binding q.index).count) L)
    (apart : f.cells ∉ q.type.pointers (f.binding q.index).slot ∧
      f.failure ∉ q.type.pointers (f.binding q.index).slot) : Gives f m q (L.map .block)

theorem Supplies.gives (h : Supplies q (q.argument arguments) f s (.ok ()) f' s') (housed : f.Housed s.memory)
    (shallow : q.Shallow arguments) (input : q.direction ≠ .output) (inside : q.index < f.bindings.length)
    (apart : ∀ j ∈ q.links, j ≠ q.index) (blank : f.binding q.index = {}) :
    (f'.binding q.index).built = true ∧ ∃ L, f'.Gives s'.memory q L ∧ s.Moves L [] s' := by
  cases h with
  | value normal slot s' converted =>
      have own : ∀ change, (f.update q.index change).binding q.index = change {} := fun change => by
        rw [binding_update_self inside, blank]
      obtain ⟨L, moves, new, owns⟩ := made_of_toNative shallow.flat converted
      refine ⟨by rw [own], L.map .block, .value (Or.inl ⟨normal, by rw [own]⟩) L ?_ ?_, moves⟩
      · simp only [own]
        exact owns fun element length items type array => shallow.counted normal element length items type array
      · simp only [own]
        exact housed.apart_of_new new
  | array l element length linked type slot count s₁ r encoded converted passed =>
      have other : l ≠ q.index := apart l (by simp [Parameter.links, linked, input])
      have flat := shallow.flat element length type
      have own : ∀ g : Frame, g.bindings = f.bindings → ∀ change d x,
          ((g.update q.index change).withLength l d x).binding q.index = change {} := by
        intro g same change d x
        have here : g.binding q.index = f.binding q.index := by simp [Frame.binding, same]
        rw [binding_withLength _ other, binding_update_self (by rw [same]; exact inside), here, blank]
      obtain ⟨L, made⟩ := made_of_encodeArray flat converted
      have owned := made.owns_counted
      have away := housed.apart_of_new made.new
      rw [← type] at owned away
      have differs := Differs.withLength
        (f.update q.index fun b => { b with slot, count := some count, built := true }) l r.direction encoded
      refine ⟨by rw [own f rfl], L.map .block, .value (Or.inr ⟨l, count, linked, by rw [own f rfl]⟩) L ?_ ?_, ?_⟩
      · simp only [own f rfl]
        exact owned.later (withLength_shows (housed.of_evolves (encodeArray_evolves converted))
          (lengthSlot_inside passed) away.1)
      · simp only [own f rfl, differs.cells, differs.failure]
        exact away
      · unfold Engine.withLength
        split
        · refine made.moves.quiet (t := []) rfl rfl rfl ?_ rfl rfl rfl
          exact Nat.le_of_eq (Memory.frontier_store _ _ _ _).symm
        · exact made.moves
  | callback closure destroy scope signature handled type g callable made s' run =>
      have links : q.links = closure.toList ++ destroy.toList := by simp [Parameter.links, handled]
      have own := binding_update_self (f := ((f.update q.index fun b => { b with slot := .ofAddress made.code }).linkTo
        closure (.ofAddress made.token)).linkTo destroy (.ofAddress Engine.notifier)) (i := q.index)
        (by simpa using inside)
        fun b => { b with callback := some made, built := true }
      refine ⟨by rw [own], _, .callback closure destroy scope handled, ?_⟩
      rw [own]
      exact EngineM.makeCallback_moves run
  | noCallback closure destroy scope signature handled type absent nullable =>
      have own := binding_update_self inside fun b => { b with built := true }
      refine ⟨by rw [own], _, .callback closure destroy scope handled, ?_⟩
      rw [own, blank]
      exact .refl s

theorem BuildStep.carries (h : BuildStep arguments q f s (.ok ()) f' s') (housed : f.Housed s.memory)
    (shallow : q.handling ≠ .hidden → q.direction ≠ .output → q.Shallow arguments) (inside : q.index < f.bindings.length)
    (within : q.index < f.plan.parameters.length) (apart : q.handling ≠ .hidden → ∀ j ∈ q.links, j ≠ q.index)
    (blank : q.handling ≠ .hidden → f.binding q.index = {}) :
    ∃ L B, f'.Carries s'.memory q L ∧ s.Moves (L ++ B) [] s' ∧ f'.buffers.Perm (B ++ f.buffers) := by
  cases h with
  | hidden hidden => exact ⟨[], [], .nothing (Or.inl hidden), .refl s, .refl _⟩
  | output visible out r f' s' reserves =>
      cases reserves with
      | cell =>
          refine ⟨[], [], .output out ?_, .refl s, ?_⟩
          · rw [binding_update_self inside, blank visible]
          · rw [buffers_congr (length_bindings_update f _ _) fun k => buffer_update (by intro b; rfl) f q.index k]
            exact .refl _
      | buffer given count size block s' sized made =>
          refine ⟨[], [.block block], .output out ?_, EngineM.allocate_moves made, buffers_update inside ?_ rfl⟩
          · rw [binding_update_self inside, blank visible]
          · rw [blank visible]
  | input visible direction f' s' supplies =>
      obtain ⟨built, L, gives, moves⟩ := supplies.gives housed (shallow visible (by simp [direction]))
        (by simp [direction]) inside
        (apart visible) (blank visible)
      have value : f'.made q = (f'.binding q.index).slot := by simp [Frame.made, direction]
      have same := buffers_congr (supplies.differs (by simp [direction])).length supplies.buffer
      refine ⟨L, [], ?_, by rw [List.append_nil]; exact moves, by rw [same]; exact .refl _⟩
      cases gives with
      | callback closure destroy scope handled => exact .callback closure destroy scope handled built
      | value handled L owns away =>
          rw [← value] at owns away
          exact .value (by simp [direction]) built handled L owns away
  | both visible direction g t supplies =>
      obtain ⟨built, L, gives, moves⟩ := supplies.gives housed (shallow visible (by simp [direction]))
        (by simp [direction]) inside
        (apart visible) (blank visible)
      have differs := supplies.differs (by simp [direction])
      have own : (g.rehomed q.index).binding q.index = { g.binding q.index with
          engineMade := (g.binding q.index).slot, slot := .ofAddress (g.cell q.index) } :=
        binding_update_self (by rw [differs.length]; exact inside) _
      have value : (g.rehomed q.index).made q = (g.binding q.index).slot := by
        rw [Frame.made, if_pos direction, own]
      have housed' : g.Housed t.memory :=
        (housed.of_evolves (supplies.cellsStay housed (by simp [direction])).forward).congr differs.plan differs.cells
          differs.failure
      have same : (g.rehomed q.index).buffers = f.buffers :=
        (buffers_congr (length_bindings_update g _ _) fun k => buffer_update (by intro b; rfl) g q.index k).trans
          (buffers_congr differs.length supplies.buffer)
      refine ⟨L, [], ?_, ?_, by rw [same]; exact .refl _⟩
      · cases gives with
        | callback closure destroy scope handled =>
            have callback : ((g.rehomed q.index).binding q.index).callback = (g.binding q.index).callback := by rw [own]
            rw [← callback]
            exact .callback closure destroy scope handled (by rw [own]; exact built)
        | value handled L owns away =>
            have count : ((g.rehomed q.index).binding q.index).count = (g.binding q.index).count := by rw [own]
            refine .value (by simp [direction]) (by rw [own]; exact built) (by rw [count]; exact handled) L ?_ ?_
            · rw [value, count]
              -- moving the value into its cell touches the block of the cells, which is not the array
              refine owns.later (shows_of_evolves (f := g) (housed'.cell_evolves ?_ _) _ away.1)
              rw [differs.plan]
              exact within
            · rw [value]
              exact away
      · rw [List.append_nil]
        exact moves.quiet (t := []) rfl rfl rfl (Nat.le_of_eq (Memory.frontier_store _ _ _ _).symm) rfl rfl rfl

/-! ## All turns -/

theorem perm_interleave {α : Type} (a b c d : List α) : (a ++ b ++ (c ++ d)).Perm (a ++ c ++ (b ++ d)) := by
  rw [List.append_assoc, List.append_assoc]
  exact (List.perm_append_comm_assoc b c d).append_left a

theorem run_carries {p : Plan} (coherent : p.Coherent) (parameters : List Parameter) (plan : f.plan = p)
    (housed : f.Housed s.memory) (length : f.bindings.length = p.parameters.length)
    (sub : ∀ q ∈ parameters, q ∈ p.parameters) (order : parameters.Pairwise fun q r => q.index ≠ r.index)
    (shallow : ∀ q ∈ parameters, q.handling ≠ .hidden → q.direction ≠ .output → q.Shallow arguments)
    (blank : ∀ q ∈ parameters, q.handling ≠ .hidden → f.binding q.index = {})
    (run : f.run (parameters.forM (FrameM.buildParameter arguments)) s = ((.ok (), f'), s')) :
    ∃ Ls B, List.Forall₂ (f'.Carries s'.memory) parameters Ls ∧ s.Moves (Ls.flatten ++ B) [] s' ∧
      f'.buffers.Perm (B ++ f.buffers) := by
  induction parameters generalizing f s with
  | nil =>
      cases run
      exact ⟨[], [], .nil, .refl _, .refl _⟩
  | cons q rest ih =>
      rw [run_forM_cons] at run
      obtain ⟨u, f₁, s₁, first, later⟩ := run_bind_ok run
      have step := run_buildParameter first
      have hq := sub q List.mem_cons_self
      have at_q := coherent.inside hq
      obtain ⟨before, order⟩ := List.pairwise_cons.mp order
      have within : q.index < f.plan.parameters.length := by
        rw [plan]
        exact coherent.index_lt hq
      obtain ⟨L, B, carried, moves, buffers⟩ := step.carries housed (shallow q List.mem_cons_self)
        (by rw [length]; exact coherent.index_lt hq) within (coherent.links_apart hq) (blank q List.mem_cons_self)
      have differs := step.differs
      have stay := step.cellsStay housed within
      have housed' : f₁.Housed s₁.memory :=
        (housed.of_evolves stay.forward).congr differs.plan differs.cells differs.failure
      have blank' : ∀ r ∈ rest, r.handling ≠ .hidden → f₁.binding r.index = {} := fun r hr visible => by
        rw [coherent.binding_of_step step hq (sub r (List.mem_cons_of_mem q hr)) visible (Ne.symm (before r hr)),
          blank r (List.mem_cons_of_mem q hr) visible]
      obtain ⟨Ls, B', carries, moves', buffers'⟩ := ih (differs.plan.trans plan) housed' (differs.length.trans length)
        (fun r hr => sub r (List.mem_cons_of_mem q hr)) order (fun r hr => shallow r (List.mem_cons_of_mem q hr)) blank'
        later
      have differs' := run_differs rest later
      have stay' := run_cellsStay rest housed' (fun r hr => by
        rw [differs.plan, plan]
        exact coherent.index_lt (sub r (List.mem_cons_of_mem q hr))) later
      -- what the first turn gave stays, since the later ones change other bindings and cells only
      refine ⟨L :: Ls, B ++ B', .cons (carried.later (fun visible => ?_) differs'.cells differs'.failure ?_) carries, ?_, ?_⟩
      · refine differs'.binding q.index (coherent.not_mem_reach at_q visible fun r hr => ?_)
        exact ⟨sub r (List.mem_cons_of_mem q hr), Ne.symm (before r hr)⟩
      · exact fun apart _ => shows_of_evolves stay'.forward _ apart
      · exact (moves.trans_gained moves').perm (perm_interleave L B Ls.flatten B') (.refl _)
      · refine buffers'.trans ((buffers.append_left B').trans ?_)
        rw [List.append_assoc]
        exact List.perm_append_comm_assoc B' B f.buffers

/-! ## The whole build -/

section Built

variable {p : Plan} {receiver : Option Value} {f₀ f₁ : Frame} {s₀ s₁ : Engine}

theorem buffers_nil (none_there : ∀ k, (f.binding k).buffer = none) : f.buffers = [] := by
  refine List.flatMap_eq_nil_iff.mpr fun b hb => ?_
  obtain ⟨k, found⟩ := List.mem_iff_getElem?.mp hb
  have here : (f.binding k).buffer = b.buffer := by simp [binding, found]
  rw [← here, none_there k]
  rfl

theorem Begun.buffer_none (begun : Begun p receiver s f₁ s₁) (k : Nat) : (f₁.binding k).buffer = none := by
  cases found : p.parameters[k]? with
  | none =>
      have outside : f₁.bindings[k]? = none := by
        rw [List.getElem?_eq_none_iff] at found ⊢
        rw [begun.length]
        exact found
      simp [binding, outside]
  | some q =>
      by_cases hidden : q.handling = .hidden
      · rw [begun.hidden k q found hidden]
      · rw [begun.blank k q found hidden]

theorem Begun.buffers_nil (begun : Begun p receiver s f₁ s₁) : f₁.buffers = [] :=
  Frame.buffers_nil begun.buffer_none

theorem fresh?_moves (fresh : fresh? p s = (some f₀, s₀)) : s.Moves [] [] s₀ := by
  obtain ⟨-, -, forward, same, -⟩ := fresh?_some fresh
  rw [same]
  exact (Engine.Moves.refl s).quiet (t := []) rfl rfl rfl forward.frontier_le rfl rfl rfl

theorem run_start_moves (address : p.isMethod = true → p.source.descriptor.container ≠ .utf8 ∧
      ∀ element length, p.source.descriptor.container ≠ .array element length) (plan : f₀.plan = p)
    (start : f₀.run (FrameM.start receiver) s₀ = ((.ok (), f₁), s₁)) : s₀.Moves [] [] s₁ := by
  obtain ⟨g, ⟨-, -, rfl⟩ | ⟨method, value, slot, -, converted, -⟩, -⟩ := run_start_ok start
  · exact .refl s₁
  · rw [plan] at method converted
    obtain ⟨other, flat⟩ := address method
    have moves := (encode_flat_moves flat (toNative_ok converted)).1
    rwa [owned_of_not_text other] at moves

theorem carries_of_prepare (coherent : p.Coherent)
    (address : p.isMethod = true → p.source.descriptor.container ≠ .utf8 ∧
      ∀ element length, p.source.descriptor.container ≠ .array element length)
    (shallow : ∀ q ∈ p.parameters, q.handling ≠ .hidden → q.direction ≠ .output → q.Shallow arguments)
    (built : p.prepare receiver arguments s = (.ok f, s')) :
    f.plan = p ∧ f.Housed s'.memory ∧ ∃ Ls, List.Forall₂ (f.Carries s'.memory) p.parameters Ls ∧
      s.Moves (Ls.flatten ++ f.buffers) [] s' := by
  obtain ⟨-, f₀, s₀, fresh, run⟩ := Plan.prepare_ok built
  have plan : f₀.plan = p := by rw [(fresh?_some fresh).1]; rfl
  rw [run_build] at run
  obtain ⟨u, f₁, s₁, start, run⟩ := run_bind_ok run
  rw [plan] at run
  have begun := begun_of_start coherent fresh start
  obtain ⟨housed, differs, -⟩ := housed_of_run begun coherent run
  obtain ⟨Ls, B, carries, moves, buffers⟩ := run_carries coherent p.parameters begun.plan begun.housed begun.length
    (fun q hq => hq) coherent.order shallow (fun q hq => begun.blank q.index q (coherent.inside hq)) run
  rw [begun.buffers_nil, List.append_nil] at buffers
  refine ⟨differs.plan.trans begun.plan, housed, Ls, carries, ?_⟩
  exact (((fresh?_moves fresh).trans (run_start_moves address plan start)).trans moves).perm (buffers.symm.append_left _) (.refl _)

end Built

end Frame

end Ferry
