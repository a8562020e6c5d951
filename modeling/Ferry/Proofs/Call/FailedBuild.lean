import Ferry.Proofs.Call.Execution
import Ferry.Proofs.Call.Layout
import Ferry.Proofs.Call.Reclaiming

/-!
# Builds that fail

A build that fails is undone: the frame that was begun is reclaimed, and what the turns gained is given up again.
One case escapes. Reclaiming a parameter that is passed both ways looks at the copy of the value, which is only
taken when the whole turn succeeds. So an array that converts is lost sight of when its length parameter cannot
hold the element count. `Plan.Slips` names this case, and `undone_of_refused` shows that it is the only one.
-/

set_option autoImplicit false

namespace Ferry

/-- A linked array that is passed both ways converts, but its length parameter cannot hold the element count. -/
inductive Parameter.Slips (p : Plan) (arguments : List Value) (s : Engine) (q : Parameter) (gained : List Resource) :
    Prop
  | slip (l : Nat) (element : Ty) (length : ArrayLength) (items : List Value) (slot : Slot) (count : Nat)
    (after : Engine) (e : InvokeError) (linked : q.handling = .array l) (both : q.direction = .both)
    (type : q.type = .array element length) (supplied : q.argument arguments = .array items)
    (converted : encodeArray (.array items) element length q.nullable s = (.ok (slot, count), after))
    (refused : p.lengthSlot l count = .error e) (moves : s.Moves gained [] after) : Slips p arguments s q gained

namespace Frame

variable {f f' : Frame} {s s' : Engine} {arguments : List Value} {q : Parameter}

/-- What is left of a turn that failed: the frame carries what was gained and not lost again, but for what slipped. -/
structure Spoiled (arguments : List Value) (f : Frame) (s : Engine) (q : Parameter) (f' : Frame) (s' : Engine)
    (carried gained lost slipped : List Resource) : Prop where
  chunks : ∀ c ∈ s.memory.chunks, c ∈ s'.memory.chunks
  buffers : f'.buffers = f.buffers
  carries : f'.Carries s'.memory q carried
  moves : s.Moves gained lost s'
  balance : gained.Perm (lost ++ carried ++ slipped)
  unsettled : q.handling ≠ .hidden → (f'.binding q.index).built = true → q.direction ≠ .output
  slips : q.Slips f.plan arguments s slipped ∧ slipped ≠ [] ∨
    slipped = [] ∧ ∀ other, ¬q.Slips f.plan arguments s other

theorem spoiled_of_lengthRefused {e : InvokeError} {l : Nat} {element : Ty} {length : ArrayLength} {slot : Slot} {count : Nat}
    (linked : q.handling = .array l) (type : q.type = .array element length)
    (converted : encodeArray (q.argument arguments) element length q.nullable s = (.ok (slot, count), s'))
    (refused : f.plan.lengthSlot l count = .error e) (housed : f.Housed s.memory) (shallow : q.Shallow arguments)
    (input : q.direction ≠ .output) (inside : q.index < f.bindings.length) (blank : f.binding q.index = {}) :
    ∃ carried gained lost slipped, Spoiled arguments f s q
      (f.update q.index fun b => { b with slot, count := some count, built := true }) s' carried gained lost slipped := by
  obtain ⟨L, made⟩ := made_of_encodeArray (shallow.flat element length type) converted
  have own := binding_update_self inside fun b => { b with slot, count := some count, built := true }
  have kept : ∀ c ∈ s.memory.chunks, c ∈ s'.memory.chunks := fun c hc =>
    (encodeArray_evolves converted).mem_chunks hc (by simp)
  have same := buffers_congr (f := f) (length_bindings_update f q.index
    fun b => { b with slot, count := some count, built := true }) fun k => buffer_update (by intro b; rfl) f q.index k
  cases direction : q.direction with
  | output => exact absurd direction input
  | input =>
      have value : (f.update q.index fun b => { b with slot, count := some count, built := true }).made q = slot := by
        simp [Frame.made, direction, own]
      have owned := made.owns_counted
      have away := housed.apart_of_new made.new
      rw [← type] at owned away
      refine ⟨L.map .block, L.map .block, [], [], kept, same, ?_, made.moves, by simp, fun _ _ => input, Or.inr ⟨rfl, ?_⟩⟩
      · refine .value input (by rw [own]) (Or.inr ⟨l, count, linked, by rw [own]⟩) L ?_ ?_
        · rw [value, own]
          exact owned
        · rw [value]
          exact away
      · rintro _ ⟨_, _, _, _, _, _, _, _, -, both, -⟩
        rw [direction] at both
        cases both
  | both =>
      -- reclaiming looks at the copy in `engineMade`, which was never taken
      have value : (f.update q.index fun b => { b with slot, count := some count, built := true }).made q = .zero := by
        simp [Frame.made, direction, own, blank]
      refine ⟨[], L.map .block, [], L.map .block, kept, same, ?_, made.moves, by simp, fun _ _ => input, ?_⟩
      · refine .value input (by rw [own]) (Or.inr ⟨l, count, linked, by rw [own]⟩) [] ?_ ?_
        · rw [value]
          intro m' _
          simp only [type]
          exact .refl _
        · rw [value]
          exact housed.apart_of_new fun a listed => Or.inl (eq_of_mem_pointers listed)
      · rcases made.counted with ⟨items, array, counted, some_block⟩ | ⟨other, rfl⟩
        · have moves := made.moves
          rw [array] at converted
          exact Or.inl ⟨.slip l element length items slot count s' e linked direction type array converted refused moves,
            by simpa using some_block⟩
        · refine Or.inr ⟨rfl, ?_⟩
          rintro _ ⟨_, _, _, items, _, _, _, _, -, -, -, supplied, -⟩
          exact other items supplied

theorem Supplies.spoiled {e : InvokeFailure} (h : Supplies q (q.argument arguments) f s (.error e) f' s') (housed : f.Housed s.memory)
    (shallow : q.Shallow arguments) (input : q.direction ≠ .output) (inside : q.index < f.bindings.length)
    (blank : f.binding q.index = {}) :
    ∃ carried gained lost slipped, Spoiled arguments f s q f' s' carried gained lost slipped := by
  have unbuilt : ∀ m, f.Carries m q [] := fun m => .nothing (Or.inr (by rw [blank]))
  cases h with
  | valueRefused normal c s' refused =>
      obtain ⟨kept, L, moves⟩ := undone_of_toNative shallow.flat refused
      refine ⟨[], L.map .block, L.map .block, [], kept, rfl, unbuilt _, moves, by simp, fun _ _ => input, Or.inr ⟨rfl, ?_⟩⟩
      rintro _ ⟨l, element, length, items, slot, count, after, e', linked, -⟩
      rw [normal] at linked
      cases linked
  | arrayRefused l element length linked type c s' refused =>
      obtain ⟨kept, L, moves⟩ := undone_of_encodeArray (shallow.flat element length type) refused
      refine ⟨[], L.map .block, L.map .block, [], kept, rfl, unbuilt _, moves, by simp, fun _ _ => input, Or.inr ⟨rfl, ?_⟩⟩
      rintro _ ⟨l', element', length', items, slot, count, after, e', -, -, type', supplied, converted, -⟩
      rw [type] at type'
      cases type'
      rw [supplied, converted] at refused
      cases refused
  | lengthRefused l element length linked type slot count s' e converted refused =>
      exact spoiled_of_lengthRefused linked type converted refused housed shallow input inside blank
  | refused e other =>
      refine ⟨[], [], [], [], fun _ hc => hc, rfl, unbuilt _, .refl s, .refl _, fun _ _ => input, Or.inr ⟨rfl, ?_⟩⟩
      rintro _ ⟨l, element, length, _, _, _, _, _, linked, -, type, -⟩
      exact other l element length linked type

theorem BuildStep.spoiled {e : InvokeFailure} (h : BuildStep arguments q f s (.error e) f' s') (housed : f.Housed s.memory)
    (shallow : q.handling ≠ .hidden → q.Shallow arguments) (inside : q.index < f.bindings.length)
    (blank : q.handling ≠ .hidden → f.binding q.index = {}) :
    ∃ carried gained lost slipped, Spoiled arguments f s q f' s' carried gained lost slipped := by
  cases h with
  | output visible out r f' s' reserves =>
      have never : ∀ other, ¬q.Slips f.plan arguments s other := by
        rintro _ ⟨_, _, _, _, _, _, _, _, -, both, -⟩
        rw [out] at both
        cases both
      -- at most the count was settled; there is no buffer
      have unbuilt (count : Option Nat) : Spoiled arguments f s q
          (f.update q.index fun b => { b with count := count.or b.count }) s [] [] [] [] := by
        have own := binding_update_self inside fun b => { b with count := count.or b.count }
        rw [blank visible] at own
        refine ⟨fun _ hc => hc, ?_, .nothing (Or.inr ?_), .refl s, .refl _, fun _ built => ?_, Or.inr ⟨rfl, never⟩⟩
        · exact buffers_congr (length_bindings_update f _ _) fun k => buffer_update (by intro b; rfl) f q.index k
        · rw [own]
        · rw [own] at built
          cases built
      cases reserves with
      | unsized given e refused =>
          have spoiled := unbuilt none
          rw [update_count_none] at spoiled
          exact ⟨[], [], [], [], spoiled⟩
      | overflow given count sized => exact ⟨[], [], [], [], unbuilt count⟩
      | full given count size s' sized made =>
          cases EngineM.allocate_none made
          exact ⟨[], [], [], [], unbuilt count⟩
  | refused visible input e f' s' supplies =>
      exact supplies.spoiled housed (shallow visible) input inside (blank visible)

end Frame

namespace Plan

def Reaches (p : Plan) (receiver : Option Value) (arguments : List Value) (s : Engine) (k : Nat) : Prop :=
  p.inputs ≤ arguments.length ∧ ∃ f₀ s₀ f, Frame.fresh? p s = (some f₀, s₀) ∧
    f₀.run (FrameM.start receiver >>= fun _ => (p.parameters.take k).forM (FrameM.buildParameter arguments)) s₀ =
      ((.ok (), f), p.atTurn receiver arguments s k)

/-- The build gets to an array that slips. -/
inductive Slips (p : Plan) (receiver : Option Value) (arguments : List Value) (s : Engine) (gained : List Resource) :
    Prop
  | turn (k : Nat) (q : Parameter) (found : p.parameters[k]? = some q) (reached : p.Reaches receiver arguments s k)
    (slips : q.Slips p arguments (p.atTurn receiver arguments s k) gained)

/-- The type of every array refers to another parameter for its length, and its items are no arrays. -/
def Linked (p : Plan) : Prop :=
  ∀ k q element length, p.parameters[k]? = some q → q.type = .array element length →
    element.IsFlat ∧ ∃ l, length = .parameter l ∧ l < p.parameters.length ∧ l ≠ k

variable {p : Plan} {receiver : Option Value} {arguments : List Value} {s s' : Engine} {e : InvokeFailure}

theorem Linked.handled (linked : p.Linked) (coherent : p.Coherent) {q : Parameter} (hq : q ∈ p.parameters)
    (visible : q.handling ≠ .hidden) {element : Ty} {length : ArrayLength} (type : q.type = .array element length) :
    ∃ l, q.handling = .array l := by
  have handled := coherent.handled q.index q (coherent.inside hq)
  obtain ⟨-, l, same, inside, other⟩ := linked q.index q element length (coherent.inside hq) type
  cases handling : q.handling with
  | hidden => exact absurd handling visible
  | array l => exact ⟨l, rfl⟩
  | normal =>
      rw [handling] at handled
      have outside := handled element l (by rw [← same]; exact type)
      rw [coherent.length_params] at outside
      omega
  | callback closure destroy scope =>
      rw [handling] at handled
      obtain ⟨signature, callback⟩ := handled.2.1
      have clash : q.type = .callback signature := callback
      rw [type] at clash
      cases clash

theorem Linked.shallow (linked : p.Linked) (coherent : p.Coherent) {q : Parameter} (hq : q ∈ p.parameters)
    (visible : q.handling ≠ .hidden) : q.Shallow arguments where
  flat element length type := by
    exact (linked q.index q element length (coherent.inside hq) type).1
  counted normal element length items type := by
    obtain ⟨l, handled⟩ := linked.handled coherent hq visible type
    rw [normal] at handled
    cases handled

end Plan

namespace Frame

variable {p : Plan} {receiver : Option Value} {arguments : List Value} {f f₀ f₁ g : Frame} {s s₀ s₁ t : Engine}
  {q : Parameter} {k : Nat} {e : InvokeFailure} {m m' : Memory}

structure Fails (p : Plan) (receiver : Option Value) (arguments : List Value) (s : Engine) (k : Nat) (q : Parameter)
    (f₁ : Frame) (s₀ : Engine) (g : Frame) (t : Engine) (e : InvokeFailure) (f : Frame) (s₁ : Engine) : Prop where
  found : p.parameters[k]? = some q
  begun : Begun p receiver s f₁ s₀
  before : f₁.run ((p.parameters.take k).forM (FrameM.buildParameter arguments)) s₀ = ((.ok (), g), t)
  failed : g.run (FrameM.buildParameter arguments q) t = ((.error e, f), s₁)
  reached : p.Reaches receiver arguments s k
  turn : p.atTurn receiver arguments s k = t
  reaches : ∀ j, p.Reaches receiver arguments s j → ∃ f', f₁.run ((p.parameters.take j).forM
    (FrameM.buildParameter arguments)) s₀ = ((.ok (), f'), p.atTurn receiver arguments s j)

theorem exists_fails (coherent : p.Coherent) (plain : p.isMethod = false) (enough : p.inputs ≤ arguments.length)
    (fresh : fresh? p s = (some f₀, s₀))
    (run : f₀.run (FrameM.build receiver arguments) s₀ = ((.error e, f), s₁)) :
    ∃ k q f₁ g t, Fails p receiver arguments s k q f₁ s₀ g t e f s₁ := by
  have plan : f₀.plan = p := by rw [(fresh?_some fresh).1]; rfl
  have start : f₀.run (FrameM.start receiver) s₀ = ((.ok (), f₀.withHiddenCells f₀.plan.parameters), s₀) :=
    run_start_plain (by rw [plan]; exact plain) s₀
  rw [run_build, run_bind, start] at run
  simp only [plan] at run start
  obtain ⟨front, x, back, g, t, parts, before, failed⟩ := run_forM_error run
  have take : p.parameters.take front.length = front := by rw [parts, List.take_left]
  have turns : ∀ j, f₀.run (FrameM.start receiver >>= fun _ =>
      (p.parameters.take j).forM (FrameM.buildParameter arguments)) s₀ =
      (f₀.withHiddenCells p.parameters).run ((p.parameters.take j).forM (FrameM.buildParameter arguments)) s₀ := fun j => by
    rw [run_bind, start]
  have turn : p.atTurn receiver arguments s front.length = t := by
    simp only [Plan.atTurn, fresh]
    rw [turns, take, before]
  refine ⟨front.length, x, _, g, t, ?_, begun_of_start coherent fresh start, ?_, failed, ⟨enough, f₀, s₀, g, fresh, ?_⟩,
    turn, ?_⟩
  · simp [parts]
  · rw [take]
    exact before
  · rw [turns, take, before, turn]
  · rintro j ⟨-, f₀', s₀', f', fresh', run'⟩
    rw [fresh] at fresh'
    cases fresh'
    rw [turns] at run'
    exact ⟨f', run'⟩

theorem BuildStep.not_slips {f' : Frame} {s' : Engine} {gained : List Resource}
    (h : BuildStep arguments q f s (.ok ()) f' s') : ¬q.Slips f.plan arguments s gained := by
  rintro ⟨l, element, length, items, slot, count, after, e, linked, both, type, supplied, converted, refused, -⟩
  cases h with
  | hidden hidden =>
      rw [linked] at hidden
      cases hidden
  | output _ out =>
      rw [both] at out
      cases out
  | input _ input =>
      rw [both] at input
      cases input
  | both visible both f' s' supplies =>
      cases supplies with
      | value normal =>
          rw [linked] at normal
          cases normal
      | array l' element' length' linked' type' slot' count' s' r encoded converted' passed =>
          rw [linked] at linked'
          cases linked'
          rw [type] at type'
          cases type'
          rw [supplied, converted] at converted'
          cases converted'
          rw [refused] at passed
          cases passed
      | callback _ _ _ _ handled =>
          rw [linked] at handled
          cases handled
      | noCallback _ _ _ _ handled =>
          rw [linked] at handled
          cases handled

theorem Fails.slips (h : Fails p receiver arguments s k q f₁ s₀ g t e f s₁) {gained : List Resource}
    (slips : p.Slips receiver arguments s gained) : q.Slips p arguments t gained := by
  obtain ⟨j, r, found, reached, slip⟩ := slips
  obtain ⟨f', run⟩ := h.reaches j reached
  rcases Nat.lt_trichotomy j k with early | rfl | late
  · have item : (p.parameters.take k)[j]? = some r := by
      rw [List.getElem?_take, if_pos early]
      exact found
    obtain ⟨f₂, s₂, f₃, s₃, before, turn, -⟩ := run_forM_split h.before item
    rw [List.take_take, Nat.min_eq_left (Nat.le_of_lt early), run] at before
    cases before
    have plan : f'.plan = p := (run_differs _ run).plan.trans h.begun.plan
    have never : ¬r.Slips f'.plan arguments (p.atTurn receiver arguments s j) gained :=
      (run_buildParameter turn).not_slips
    rw [plan] at never
    exact absurd slip never
  · have same := h.found
    rw [found] at same
    cases same
    rw [h.turn] at slip
    exact slip
  · have item : (p.parameters.take j)[k]? = some q := by
      rw [List.getElem?_take, if_pos late]
      exact h.found
    obtain ⟨f₂, s₂, f₃, s₃, before, turn, -⟩ := run_forM_split run item
    rw [List.take_take, Nat.min_eq_left (Nat.le_of_lt late), h.before] at before
    cases before
    rw [h.failed] at turn
    cases turn

/-! ## Reclaiming what was begun -/

theorem Housed.kept (housed : f.Housed m) (kept : ∀ c ∈ m.chunks, c ∈ m'.chunks) :
    m'.load .pointer f.failure = m.load .pointer f.failure ∧
      ∀ i < f.plan.parameters.length, m'.load .u64 (f.cell i) = m.load .u64 (f.cell i) := by
  have inside : ∀ b ∈ m.chunks, ∀ o < b.capacity, ∀ t, m'.load t (b.address + UInt64.ofNat o) =
      m.load t (b.address + UInt64.ofNat o) := fun b hb o ho t => by
    rw [Memory.load_address_add hb ho, Memory.load_address_add (kept b hb) ho]
  constructor
  · obtain ⟨b, hb, address, -⟩ := housed.failure
    have first := inside b (Memory.mem_chunks_of_live hb) 0 b.capacity_pos .pointer
    rw [show b.address + UInt64.ofNat 0 = f.failure by rw [address]; simp] at first
    exact first
  · obtain ⟨b, hb, address, room⟩ := housed.room
    intro i hi
    have fits := room i hi
    rw [cell, ← address]
    exact inside b (Memory.mem_chunks_of_live hb) (8 * i) (by omega) .u64

theorem Laid.idle (h : f.Laid m arguments t q) (coherent : p.Coherent) (linked : p.Linked) (plan : f.plan = p)
    (hq : q ∈ p.parameters) (visible : q.handling ≠ .hidden)
    (out : q.direction = .output) (housed : f.Housed m) (kept : ∀ c ∈ m.chunks, c ∈ m'.chunks)
    (binding : g.binding q.index = f.binding q.index) (cells : g.cells = f.cells) : g.Idle m' q := by
  unfold Idle
  cases h with
  | input direction =>
      rw [out] at direction
      cases direction
  | both direction =>
      rw [out] at direction
      cases direction
  | cell _ own _ zeroed =>
      rw [if_neg (by simp [own])]
      refine Or.inr ?_
      rw [Frame.cell, cells]
      exact ((housed.kept kept).2 q.index (by rw [plan]; exact coherent.index_lt hq)).trans zeroed
  | buffer _ given b count size sized live room zeroed new passed settled =>
      rw [if_pos given]
      by_cases everything : q.transfer = .everything
      · refine Or.inr fun element length type => ?_
        obtain ⟨l, handled⟩ := linked.handled coherent hq visible type
        obtain ⟨n, rfl, rfl, -⟩ := Plan.bufferSize_array type sized
        refine ⟨n, by rw [binding, settled], fun pointers i before => ?_⟩
        -- the buffer is still zeroed, and has room for all the elements that releasing looks at
        have same : b = ⟨b.base, b.size, b.label, #[]⟩ := by rw [← zeroed]
        have positive : 0 < element.native.size := by
          unfold Ty.isPointerLike at pointers
          revert pointers
          cases element.native <;> decide
        have within : i * element.native.size < b.capacity := by
          have := b.size_le_capacity
          have whole : n * element.elementSize = n * element.native.size := rfl
          have less := Nat.mul_lt_mul_of_pos_right before positive
          omega
        have address : (g.binding q.index).slot.address = b.address := by
          rw [binding, passed]
          rfl
        rw [address, Memory.load_element (kept b (Memory.mem_chunks_of_live live)) element.native within, same,
          Block.element_fresh]
      · exact Or.inl everything

/-- What is known of the frame when the turn fails, and after it. -/
structure Stopped (p : Plan) (k : Nat) (q : Parameter) (g : Frame) (t : Engine) (f : Frame) : Prop where
  plan : g.plan = p
  housed : g.Housed t.memory
  length : g.bindings.length = p.parameters.length
  differs : Differs (q.index :: q.links) g f
  returned : f.returned = none
  untouched : ∀ r ∈ p.parameters, r.handling ≠ .hidden → k ≤ r.index → g.binding r.index = {}
  kept : ∀ r ∈ p.parameters, r.handling ≠ .hidden → r.index ≠ q.index → f.binding r.index = g.binding r.index

theorem Fails.stopped (h : Fails p receiver arguments s k q f₁ s₀ g t e f s₁) (coherent : p.Coherent) :
    Stopped p k q g t f := by
  have early := run_differs _ h.before
  have stay := run_cellsStay _ h.begun.housed (fun r hr => by
    rw [h.begun.plan]
    exact coherent.index_lt (List.mem_of_mem_take hr)) h.before
  have differs := (run_buildParameter h.failed).differs
  refine ⟨early.plan.trans h.begun.plan,
    (h.begun.housed.of_evolves stay.forward).congr early.plan early.cells early.failure,
    early.length.trans h.begun.length, differs, ?_, fun r hr visible behind => ?_, fun r hr visible other => ?_⟩
  · rw [differs.returned, early.returned, h.begun.returned.1]
  · have front : ∀ x ∈ p.parameters.take k, x ∈ p.parameters ∧ x.index ≠ r.index := fun x hx =>
      ⟨List.mem_of_mem_take hx, Nat.ne_of_lt (Nat.lt_of_lt_of_le (coherent.index_lt_of_mem_take hx) behind)⟩
    rw [early.binding r.index (coherent.not_mem_reach (coherent.inside hr) visible front)]
    exact h.begun.blank r.index r (coherent.inside hr) visible
  · exact coherent.binding_of_step (run_buildParameter h.failed) (List.mem_of_getElem? h.found) hr visible other

theorem Fails.loses (h : Fails p receiver arguments s k q f₁ s₀ g t e f s₁) (coherent : p.Coherent) (linked : p.Linked)
    {Ls : List (List Resource)} {carried gained lost slipped : List Resource}
    (carries : List.Forall₂ (g.Carries t.memory) (p.parameters.take k) Ls)
    (spoiled : Spoiled arguments g t q f s₁ carried gained lost slipped) :
    List.Forall₂ (f.Loses s₁.memory) p.parameters (Ls ++ carried :: (p.parameters.drop (k + 1)).map fun _ => []) := by
  obtain ⟨plan, housed, -, differs, returned, untouched, kept⟩ := h.stopped coherent
  have hq := List.mem_of_getElem? h.found
  have index := coherent.index k q h.found
  have same : f.plan = p := differs.plan.trans plan
  have loses : ∀ r ∈ p.parameters, ∀ L, f.Carries s₁.memory r L →
      (r.handling ≠ .hidden → (f.binding r.index).built = true → r.direction = .output → f.Idle s₁.memory r) →
      f.Loses s₁.memory r L := fun r hr L carried idle =>
    carried.loses (by rw [same]; exact coherent) (by rw [same]; exact hr) (Or.inl returned)
      (fun element length type => (linked r.index r element length (coherent.inside hr) type).1) idle
  have parts : p.parameters = p.parameters.take k ++ q :: p.parameters.drop (k + 1) := by
    rw [← (List.getElem?_eq_some_iff.mp h.found).2, ← List.drop_eq_getElem_cons (List.getElem?_eq_some_iff.mp h.found).1,
      List.take_append_drop]
  conv in (List.Forall₂ _ _) => rw [parts]
  refine List.rel_append ?_ (.cons ?_ ?_)
  · refine ((List.forall₂_and_left _ _).mpr ⟨fun r hr => hr, carries⟩).imp fun r L both => ?_
    obtain ⟨front, carried⟩ := both
    have hr := List.mem_of_mem_take front
    have low := coherent.index_lt_of_mem_take front
    have other : r.index ≠ q.index := by omega
    have later := carried.later (fun visible => kept r hr visible other) differs.cells differs.failure
      (fun _ _ => .of_chunks fun b hb _ => spoiled.chunks b hb)
    refine loses r hr L later fun visible _ out => ?_
    -- its own turn zeroed the cell or the buffer, and native code never ran
    obtain ⟨h₁, t₁, h₂, t₂, turn⟩ := exists_turn (k := r.index) (n := k) (q := r)
      (by rw [h.begun.plan]; exact coherent) h.begun.housed low (by rw [h.begun.plan]; exact h.before)
      (by rw [h.begun.plan]; exact coherent.inside hr)
    exact (turn.laid h.begun coherent (coherent.inside hr) visible).idle coherent linked plan hr visible out housed
      spoiled.chunks (kept r hr visible other) differs.cells
  · exact loses q hq carried spoiled.carries fun visible built out => absurd out (spoiled.unsettled visible built)
  · rw [List.forall₂_map_right_iff, List.forall₂_same]
    intro r back
    have hr := List.mem_of_mem_drop back
    have high := coherent.le_index_of_mem_drop back
    have unbuilt : r.handling ≠ .hidden → (f.binding r.index).built = false := fun visible => by
      rw [kept r hr visible (by omega), untouched r hr visible (by omega)]
    refine loses r hr [] ?_ fun visible built _ => ?_
    · by_cases hidden : r.handling = .hidden
      · exact .nothing (Or.inl hidden)
      · exact .nothing (Or.inr (unbuilt hidden))
    · rw [unbuilt visible] at built
      cases built

theorem Fails.reclaimed (h : Fails p receiver arguments s k q f₁ s₀ g t e f s₁) (coherent : p.Coherent)
    (linked : p.Linked) : ∃ gained lost slipped,
    s₀.Moves gained lost (f.reclaim s₁).2 ∧ gained.Perm (lost ++ slipped) ∧
      (q.Slips p arguments t slipped ∧ slipped ≠ [] ∨ slipped = [] ∧ ∀ other, ¬q.Slips p arguments t other) := by
  obtain ⟨plan, housed, length, differs, returned, untouched, -⟩ := h.stopped coherent
  have hq := List.mem_of_getElem? h.found
  have shallow : ∀ r ∈ p.parameters, r.handling ≠ .hidden → r.Shallow arguments := fun r hr => linked.shallow coherent hr
  -- what the turns gained: those before the one that fails, and that one
  obtain ⟨Ls, B, carries, moves, buffers⟩ := run_carries coherent (p.parameters.take k) h.begun.plan h.begun.housed
    h.begun.length (fun r hr => List.mem_of_mem_take hr) (coherent.order.sublist (List.take_sublist k _))
    (fun r hr visible _ => shallow r (List.mem_of_mem_take hr) visible)
    (fun r hr => h.begun.blank r.index r (coherent.inside (List.mem_of_mem_take hr))) h.before
  rw [h.begun.buffers_nil, List.append_nil] at buffers
  obtain ⟨carried, gained, lost, slipped, spoiled⟩ := (run_buildParameter h.failed).spoiled housed (shallow q hq)
    (by rw [length]; exact coherent.index_lt hq)
    (fun visible => untouched q hq visible (Nat.le_of_eq (coherent.index k q h.found).symm))
  -- what reclaiming gives up
  have each := h.loses coherent linked carries spoiled
  have done := reclaim_givesUp (f := f) (by rw [differs.plan, plan]; exact each)
  have result : f.reclaimedResult s₁.memory = [] := by rw [reclaimedResult, returned, Option.elim_none]
  rw [result, List.map_nil, List.append_nil] at done
  refine ⟨_, _, slipped, (moves.trans spoiled.moves).trans_lost done.moves, ?_, by rw [← plan]; exact spoiled.slips⟩
  have nothing : ((p.parameters.drop (k + 1)).map fun _ => ([] : List Resource)).flatten = [] := by simp
  rw [List.flatten_append, List.flatten_cons, nothing, List.append_nil, spoiled.buffers, List.nil_append]
  refine ((buffers.symm.append_left Ls.flatten).append spoiled.balance).trans (List.perm_iff_count.mpr fun r => ?_)
  simp only [List.count_append]
  omega

end Frame

/-- What a build that failed leaves behind: every block and every callback that was made is given up exactly once,
unless an array slips; then its blocks are the only ones that are not given up. No native code was called. -/
structure Plan.Undone (p : Plan) (receiver : Option Value) (arguments : List Value) (s s' : Engine) : Prop where
  ledger : ∃ t slipped, s'.events = t ++ s.events ∧ (gains t).Nodup ∧ (gains t).Perm (losses t ++ slipped) ∧
    (p.Slips receiver arguments s slipped ∧ slipped ≠ [] ∨ slipped = [] ∧ ∀ other, ¬p.Slips receiver arguments s other)
  calls : s'.counters.calls = s.counters.calls
  untouched : ∀ {World : Type} (host : Host World) (settings : InvokeSettings) (world : World) r M,
    p.execute host settings receiver arguments ⟨s, world⟩ = (r, M) →
      (∃ e, r = .error e) ∧ M.world = world ∧ (M.engine = s ∨ M.engine = s')

/-- A build that fails is undone, whatever parameter fails and for whatever reason, up to the arrays that slip. -/
theorem undone_of_refused {p : Plan} (obtained : p.Obtained) (plain : p.isMethod = false) (linked : p.Linked)
    {receiver : Option Value} {arguments : List Value} {s s' : Engine} {e : InvokeFailure}
    (refused : p.prepare receiver arguments s = (.error e, s')) :
    p.Undone receiver arguments s s' := by
  have coherent := obtained.coherent
  have settled : ∃ gained lost slipped, s.Moves gained lost s' ∧ gained.Perm (lost ++ slipped) ∧
      (p.Slips receiver arguments s slipped ∧ slipped ≠ [] ∨
        slipped = [] ∧ ∀ other, ¬p.Slips receiver arguments s other) := by
    rcases Plan.prepare_error refused with ⟨few, rfl⟩ | full | ⟨enough, f₀, s₀, f, s₁, fresh, run, rfl⟩
    · refine ⟨[], [], [], .refl _, .refl _, Or.inr ⟨rfl, ?_⟩⟩
      rintro _ ⟨k, q, -, ⟨enough, -⟩, -⟩
      omega
    · obtain ⟨forward, same⟩ := Frame.fresh?_none full
      refine ⟨[], [], [], ?_, .refl _, Or.inr ⟨rfl, ?_⟩⟩
      · rw [same]
        exact (Engine.Moves.refl s).quiet (t := []) rfl rfl rfl forward.frontier_le rfl rfl rfl
      · rintro _ ⟨k, q, -, ⟨-, f₀, s₀, f, fresh, -⟩, -⟩
        rw [full] at fresh
        cases fresh
    · obtain ⟨k, q, f₁, g, t, fails⟩ := Frame.exists_fails coherent plain enough fresh run
      obtain ⟨gained, lost, slipped, moves, balance, slips⟩ := fails.reclaimed coherent linked
      refine ⟨gained, lost, slipped, (Frame.fresh?_moves fresh).trans moves, balance, ?_⟩
      rcases slips with ⟨slip, some_block⟩ | ⟨nothing, never⟩
      · refine Or.inl ⟨.turn k q fails.found fails.reached ?_, some_block⟩
        rw [fails.turn]
        exact slip
      · exact Or.inr ⟨nothing, fun other slip => never other (fails.slips slip)⟩
  obtain ⟨gained, lost, slipped, moves, balance, slips⟩ := settled
  obtain ⟨t, events, gains, losses⟩ := moves.events
  refine ⟨⟨t, slipped, events, gains.nodup_iff.mpr moves.nodup, ?_, slips⟩, moves.calls, ?_⟩
  · exact gains.trans (balance.trans (losses.symm.append_right slipped))
  · intro World host settings world r M run
    rcases Plan.execute_cases run with ⟨⟨e', rfl, -⟩, rfl⟩ | ⟨e', s'', prepared, rfl, rfl⟩ | ⟨f, s₁, g, N, prepared, -⟩
    · exact ⟨⟨_, rfl⟩, rfl, Or.inl rfl⟩
    · rw [refused] at prepared
      cases prepared
      exact ⟨⟨e, rfl⟩, rfl, Or.inr rfl⟩
    · rw [refused] at prepared
      cases prepared

def rewriting : DescriptorRef where
  id := 0
  descriptor := {
    symbol := "rewrite", receiver := none, isConstructor := false, entry := .address 0x1000
    signature := {
      namespaceName := "Sample", name := "rewrite", result := .void, resultTransfer := .nothing, skipResult := false
      mayReturnNull := false, canThrow := false
      params := [
        ⟨"items", .array .uint8 (.parameter 1), .both, .nothing, false, false, none, none, .call⟩,
        ⟨"count", .uint8, .input, .nothing, false, false, none, none, .call⟩] } }

def rewritingArguments : List Value := [.array (List.replicate 256 (.int 0))]

theorem undone_of_refused_rewriting : ∃ p s₁ e s₂,
    (Plan.compile rewriting).run .initial = (.ok p, s₁) ∧
    p.prepare none rewritingArguments s₁ = (.error e, s₂) ∧ p.Undone none rewritingArguments s₁ s₂ ∧
    (gains s₂.events).length = 1 ∧ losses s₂.events = [] := by
  have builds : (((Plan.compile rewriting).run .initial).1.toOption.any fun p =>
      let s := ((Plan.compile rewriting).run .initial).2
      !p.isMethod && !(p.prepare none rewritingArguments s).1.isOk &&
        decide ((gains (p.prepare none rewritingArguments s).2.events).length = 1 ∧
          losses (p.prepare none rewritingArguments s).2.events = [])) = true := by
    decide +kernel
  obtain ⟨p, s₁, compiled⟩ := exists_ok (r := (Plan.compile rewriting).run .initial) (by decide +kernel)
  simp only [compiled, Except.toOption, Option.any_some, Bool.and_eq_true, Bool.not_eq_true', decide_eq_true_eq] at builds
  obtain ⟨⟨plain, failed⟩, made, lost⟩ := builds
  rcases prepared : p.prepare none rewritingArguments s₁ with ⟨r, s₂⟩
  rw [prepared] at failed made lost
  cases r with
  | ok f => cases failed
  | error e =>
      have obtained : p.Obtained := .compiled rewriting _ _ compiled
      have params : p.parameters.map (·.param) = rewriting.descriptor.signature.params := by
        rw [obtained.coherent.listed, Plan.signature, Plan.source_of_compile compiled]
      have length : p.parameters.length = 2 := by
        have same := congrArg List.length params
        simpa [rewriting] using same
      have param : ∀ (k : Nat) (q : Parameter), p.parameters[k]? = some q → q.callerAllocates = false ∧
          (q.type = .array .uint8 (.parameter 1) ∧ k = 0 ∨ q.type = .uint8) := by
        intro k q found
        have at_k : rewriting.descriptor.signature.params[k]? = some q.param := by simp [← params, found]
        rcases k with _ | _ | k
        · have same := Option.some.inj at_k
          simp [Parameter.callerAllocates, Parameter.type, ← same]
        · have same := Option.some.inj at_k
          simp [Parameter.callerAllocates, Parameter.type, ← same]
        · simp [rewriting] at at_k
      have linked : p.Linked := by
        intro k q element length' found type
        rcases (param k q found).2 with ⟨array, rfl⟩ | scalar
        · rw [type] at array
          cases array
          refine ⟨fun element length same => ?_, 1, rfl, by omega, by decide⟩
          cases same
        · rw [type] at scalar
          cases scalar
      exact ⟨p, s₁, e, s₂, compiled, prepared, undone_of_refused obtained plain linked prepared, made, lost⟩

end Ferry
