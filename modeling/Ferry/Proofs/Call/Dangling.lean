import Ferry.Proofs.Call.Results

/-!
# Results do not dangle

What is released when a call ends is told from what its result leads to. Native code gives each output blocks of its own
(`Frame.Provides`); whatever is left of the frame then misses copies that are made later, buffers that outputs take over,
and structures that are only lent (`Frame.Provides.misses_new`, `misses_furnished`, `misses_borrowed`). So every structure
in a result is alive when the call is over: `results_of_execute`. A plan whose transfers contradict each other is left out:
a structure has no container that could be handed over by itself.
-/

set_option autoImplicit false

namespace Ferry

namespace Plan

/-- Whatever is released of an output was copied before. A structure that native code makes is handed over or lent,
since it has no container that could be handed over by itself, and only outputs have buffers for arrays. -/
structure Consistent (p : Plan) : Prop where
  outputs : ∀ q ∈ p.parameters, q.isOutput = true → q.direction = .output → q.callerAllocates = false →
    ∀ layout, q.type = .struct layout → q.transfer ≠ .container
  result : p.signature.skipsResult = false → ∀ layout, p.signature.result = .struct layout →
    p.signature.resultTransfer ≠ .container
  buffers : ∀ q ∈ p.parameters, q.isOutput = true → q.callerAllocates = true →
    ∀ element length, q.type = .array element length → q.direction = .output

end Plan

namespace Frame

variable {f g : Frame} {s₀ s t : Engine} {m : Memory} {q : Parameter} {p : Plan} {arguments : List Value}
  {receiver : Option Value} {first : Nat} {arrays structures : Option Nat → UInt64 → Prop} {a : UInt64} {known : Option Nat}

/-- Native code gives each of its outputs blocks of its own. `s₀` is the engine before the call and `s` when its frame `f`
is built; `g` and `t` are the frame and the engine when native code has returned. The return value leads to the blocks with
the key `none`, and what a parameter holds to those with its index. -/
structure Provides (f : Frame) (s₀ s : Engine) (g : Frame) (t : Engine) (arrays structures : Option Nat → UInt64 → Prop) :
    Prop where
  places : s.memory.SamePlaces t.memory
  frontier_le : s.memory.frontier ≤ t.memory.frontier
  buffers : ∀ k x, (f.binding k).buffer = some x → t.memory.Live x
  result : ∀ slot ∈ g.returned, f.plan.signature.result.Leads t.memory (arrays none) (structures none) slot ∧
    f.plan.signature.result.Roomy t.memory slot (f.plan.resultLength.bind (g.lengthShown t.memory))
  outputs : ∀ q ∈ f.plan.parameters, q.isOutput = true → (q.callerAllocates = true → q.direction = .both) →
    q.type.Leads t.memory (arrays (some q.index)) (structures (some q.index)) (t.memory.load .u64 (f.cell q.index)) ∧
    ∀ known, g.MayCount t.memory q known → q.type.Roomy t.memory (t.memory.load .u64 (f.cell q.index)) known
  filled : ∀ q ∈ f.plan.parameters, q.isOutput = true → q.callerAllocates = true → ∀ element length,
    q.type = .array element length →
      q.type.Leads t.memory (arrays (some q.index)) (structures (some q.index)) (f.binding q.index).slot
  inputs : ∀ q ∈ f.plan.parameters, q.handling ≠ .hidden → q.direction ≠ .output → q.transfer ≠ .everything →
    q.type.Kept s.memory t.memory (arrays (some q.index)) (fun _ => True) (f.made q)
  arrays_there : ∀ k x, arrays k x → (∃ b ∈ t.memory.chunks, b.address = x) ∧ x ≠ f.failure ∧ ¬f.Furnishes x
  structures_live : ∀ k x, structures k x → t.memory.Live x
  structures_apart : ∀ k x, structures k x → ¬Between s₀.memory.frontier s.memory.frontier x ∧ ∀ j, ¬arrays j x
  structures_own : ∀ j k x, structures j x → structures k x → j = k

theorem roomy_of_given (obtained : p.Obtained)
    (built : p.prepare receiver arguments s₀ = (.ok f, s)) (follows : f.Follows g) (places : s.memory.SamePlaces m)
    (hq : q ∈ p.parameters) (visible : q.handling ≠ .hidden) (out : q.direction = .output) (given : q.callerAllocates = true)
    {element : Ty} {length : ArrayLength} (type : q.type = .array element length) (may : g.MayCount m q known) :
    q.type.Roomy m (f.binding q.index).slot known := by
  have coherent := obtained.coherent
  have laid := laidOut_of_prepare obtained built
  have plan_eq := plan_of_prepare coherent built
  cases laid.visible q.index q (coherent.inside hq) visible with
  | input direction => rw [out] at direction; cases direction
  | both direction => rw [out] at direction; cases direction
  | cell _ own => rw [given] at own; cases own
  | buffer _ _ b settled size sized live size_eq _ _ passed counted =>
      rw [plan_eq] at sized
      obtain ⟨n, rfl, rfl, -⟩ := Plan.bufferSize_array type sized
      have room : q.type.Roomy m (f.binding q.index).slot (some n) := by
        refine roomy_of_places places ?_
        rw [type, passed]
        intro _ _ k same
        cases same
        have := b.size_le_capacity
        rw [Ty.elementSize] at size_eq
        exact ⟨b, Memory.mem_chunks_of_live live, rfl, by omega⟩
      cases may with
      | known =>
          have same : g.leftCount m q = some n := by
            rw [leftCount]
            cases q.handling <;> simp [out, given, follows.count, counted]
          rw [same]
          exact room
      | shown l _ linked =>
          rcases shown_of_given obtained built follows hq visible out given linked m with none | same
          · rw [none]
            exact .unknown
          · rw [same, counted]
            exact room

theorem Separate.nodup (separate : f.Separate) : f.bufferBlocks.Nodup := by
  unfold bufferBlocks
  rw [List.nodup_iff_pairwise_ne, List.pairwise_filterMap, List.pairwise_iff_getElem]
  intro i j inside inside' before x held y held' same
  subst same
  have at_i : (f.binding i).buffer = some x := by simpa [binding, inside] using held
  have at_j : (f.binding j).buffer = some x := by simpa [binding, inside'] using held'
  exact absurd (separate.single i j x at_i at_j) (Nat.ne_of_lt before)

theorem Provides.offers (provides : f.Provides s₀ s g t arrays structures) (obtained : p.Obtained)
    (consistent : p.Consistent) (built : p.prepare receiver arguments s₀ = (.ok f, s))
    (follows : f.Follows g) : g.Offers t.memory arrays structures := by
  have plan_eq := plan_of_prepare obtained.coherent built
  refine ⟨fun slot hs => ?_, fun q hq output array => ?_, fun x hx => ?_⟩
  · rw [follows.plan]
    exact provides.result slot hs
  · rw [follows.plan] at hq
    have shown : q.handling ≠ .hidden ∧ q.direction.isOut = true := by
      simpa [Parameter.isOutput, Parameter.isHidden] using output
    cases given : q.callerAllocates with
    | false =>
        have held : g.held t.memory q = t.memory.load .u64 (f.cell q.index) := by
          rw [Frame.held, if_pos (by simp [shown.2, given]), Frame.cell, follows.cells]
          rfl
        rw [held]
        exact provides.outputs q hq output (by simp [given])
    | true =>
        obtain ⟨element, length, type⟩ := array given
        have held : g.held t.memory q = (f.binding q.index).slot := by simp [Frame.held, given, follows.slot]
        rw [held]
        refine ⟨provides.filled q hq output given element length type, fun known may => ?_⟩
        rw [plan_eq] at hq
        exact roomy_of_given obtained built follows provides.places hq shown.1
          (consistent.buffers q hq output given element length type) given type may
  · obtain ⟨k, held⟩ := exists_of_mem_bufferBlocks hx
    rw [follows.buffer] at held
    exact provides.buffers k x held

theorem Follows.furnishes (follows : f.Follows g) (furnishes : g.Furnishes a) : f.Furnishes a := by
  obtain ⟨q, hq, type, held⟩ := furnishes
  rw [follows.plan] at hq
  rw [follows.buffer] at held
  exact ⟨q, hq, type, held⟩

theorem Borrows.structure (borrows : g.Borrows structures a) : ∃ k, structures k a := by
  rcases borrows with ⟨-, -, here⟩ | ⟨q, -, -, -, here⟩
  · exact ⟨none, here⟩
  · exact ⟨some q.index, here⟩

section Misses

variable (provides : f.Provides s₀ s g t arrays structures) (behind : Behind p arguments s₀ first f s)
  (obtained : p.Obtained) (consistent : p.Consistent) (built : p.prepare receiver arguments s₀ = (.ok f, s))
  (follows : f.Follows g) (returned : g.returned ≠ none)

include provides behind obtained consistent built follows returned

theorem Provides.misses_parameter (arrays_other : ∀ k x, arrays k x → x ≠ a) (hq : q ∈ p.parameters)
    (visible : q.handling ≠ .hidden) (handed_other : q.transfer = .everything → ∀ x, structures (some q.index) x → x ≠ a)
    (made_other : (q.direction = .output → q.callerAllocates = true → ∃ element length, q.type = .array element length) →
      ∀ x, f.Own first s.memory.frontier q.index x → x ≠ a) (may : g.MayCount t.memory q known) :
    q.type.Misses t.memory a f.failure (g.left t.memory q) known := by
  have plan := behind.plan
  have hq' : q ∈ f.plan.parameters := by rwa [plan]
  have guards := behind.guarded.parameters q hq' visible
  have shown : q.direction ≠ .input → q.isOutput = true := fun other => by
    cases direction : q.direction <;> simp_all [Parameter.isOutput, Parameter.isHidden, Direction.isOut]
  have others : ∀ k x, arrays k x → x ≠ a ∧ x ≠ f.failure := fun k x hx =>
    ⟨arrays_other k x hx, (provides.arrays_there k x hx).2.1⟩
  by_cases furnished : q.direction = .output ∧ q.callerAllocates = true ∧ ∀ element length, q.type ≠ .array element length
  · -- of what is in such a buffer nothing is released
    obtain ⟨out, given, flat⟩ := furnished
    intro covered
    simp only [left, out, given, if_true] at covered
    cases type : q.type with
    | array element length => exact absurd type (flat element length)
    | _ => split at covered <;> rw [type] at covered <;> cases covered
  · have array : q.direction = .output → q.callerAllocates = true → ∃ element length, q.type = .array element length := by
      intro out given
      by_contra none
      exact furnished ⟨out, given, fun element length type => none ⟨element, length, type⟩⟩
    refine guards.misses_returned follows provides.places (made_other array) behind.guarded.lowFailure returned
      (fun input kept => (provides.inputs q hq' visible input kept).mono _ (others _) fun _ _ => trivial)
      (fun out given handed => ?_) (fun out given l linked => ?_) (fun cells => ?_) may
    · obtain ⟨element, length, type⟩ := array out given
      refine .of_leads ?_ provides.places
      exact (provides.filled q hq' (shown (by simp [out])) given element length type).later _ (fun _ hb _ => hb) (others _)
        (handed_other handed)
    · exact shown_of_given obtained built follows hq visible out given linked t.memory
    · have output : q.isOutput = true := shown (by rcases cells with ⟨out, -⟩ | ⟨both, -⟩ <;> simp [*])
      obtain ⟨leads, room⟩ := provides.outputs q hq' output fun given => by
        rcases cells with ⟨-, own⟩ | ⟨both, -⟩
        · simp [own] at given
        · exact both
      obtain ⟨word, depth⟩ : (g.left t.memory q).1 = t.memory.load .u64 (f.cell q.index) ∧
          (g.left t.memory q).2.1 = .forTransfer .output q.transfer := by
        obtain ⟨slot, returned⟩ := Option.ne_none_iff_exists'.mp returned
        have cell : g.cell q.index = f.cell q.index := by rw [Frame.cell, Frame.cell, follows.cells]
        rcases cells with ⟨out, own⟩ | ⟨both, handed⟩
        · simp [left, out, own, cell]
        · simp [left, both, handed, returned, cell, ReleaseDepth.forTransfer]
      refine Ty.Leads.misses (by rw [word]; exact leads) (by rw [word]; exact room known may) (others _)
        (fun layout type covered => handed_other ?_) fun element length type covered => handed_other ?_ <;>
        rw [depth] at covered
      · cases transfer : q.transfer with
        | everything => rfl
        | nothing => rw [transfer] at covered; cases covered
        | container =>
            rcases cells with ⟨out, own⟩ | ⟨both, handed⟩
            · exact absurd transfer (consistent.outputs q hq output out own layout type)
            · exact transfer.symm.trans handed
      · cases transfer : q.transfer with
        | everything => rfl
        | nothing | container => rw [transfer] at covered; cases covered

theorem Provides.misses (null : (t.memory.load .pointer f.failure).isNull = true)
    (arrays_other : ∀ k x, arrays k x → x ≠ a)
    (handed_other : ∀ q ∈ p.parameters, q.transfer = .everything → ∀ x, structures (some q.index) x → x ≠ a)
    (result_other : (p.signature.resultTransfer = .everything ∨ p.signature.skipsResult = true) →
      ∀ x, structures none x → x ≠ a)
    (made_other : ∀ q ∈ p.parameters,
      (q.direction = .output → q.callerAllocates = true → ∃ element length, q.type = .array element length) →
        ∀ x, f.Own first s.memory.frontier q.index x → x ≠ a)
    (tokens : ∀ k, ∀ c ∈ (f.binding k).callback, a ≠ c.token) (storage : a ≠ f.cells ∧ a ≠ f.failure) :
    g.Misses t.memory a := by
  have plan : g.plan = p := follows.plan.trans behind.plan
  refine ⟨fun q hq visible known may => ?_, fun slot hs => ?_, fun q _ _ c hc => ?_, ?_, ?_⟩
  · rw [plan] at hq
    rw [follows.failure]
    exact provides.misses_parameter behind obtained consistent built follows returned arrays_other hq visible
      (handed_other q hq) (made_other q hq) may
  · obtain ⟨leads, room⟩ := provides.result slot hs
    rw [behind.plan] at leads room
    rw [plan, follows.failure]
    refine leads.misses room (fun x hx => ⟨arrays_other none x hx, (provides.arrays_there none x hx).2.1⟩)
      (fun layout type covered => result_other ?_) fun element length type covered => result_other (Or.inl ?_)
    · cases shown : p.signature.skipsResult with
      | true => exact Or.inr rfl
      | false =>
          left
          cases transfer : p.signature.resultTransfer with
          | everything => rfl
          | nothing => rw [transfer] at covered; cases covered
          | container => exact absurd transfer (consistent.result shown layout type)
    · cases transfer : p.signature.resultTransfer with
      | everything => rfl
      | nothing | container => rw [transfer] at covered; cases covered
  · exact tokens q.index c (follows.callback q.index c hc)
  · rw [follows.cells, follows.failure]
    exact storage
  · have none_there : (t.memory.load .pointer f.failure).address = 0 := by simpa [Slot.isNull, Slot.address] using null
    rw [follows.failure, Memory.reported, if_pos none_there]
    simp

variable (null : (t.memory.load .pointer f.failure).isNull = true)

include null

theorem Provides.misses_borrowed (borrows : g.Borrows structures a) : g.Misses t.memory a := by
  have plan : g.plan = p := follows.plan.trans behind.plan
  obtain ⟨k, here, handed, shown⟩ : ∃ k, structures k a ∧
      (∀ q ∈ p.parameters, q.transfer = .everything → k ≠ some q.index) ∧
      (p.signature.resultTransfer = .everything ∨ p.signature.skipsResult = true → k ≠ none) := by
    unfold Borrows at borrows
    rw [plan] at borrows
    rcases borrows with ⟨shown, kept, here⟩ | ⟨q, hq, -, kept, here⟩
    · exact ⟨none, here, fun _ _ _ => by simp, fun other => by simp [shown, kept] at other⟩
    · refine ⟨some q.index, here, fun r hr handed same => kept ?_, fun _ => by simp⟩
      have at_r := obtained.coherent.inside hr
      rw [← Option.some.inj same, obtained.coherent.inside hq] at at_r
      cases at_r
      exact handed
  obtain ⟨foreign, no_array⟩ := provides.structures_apart k a here
  have old : ∀ {x : UInt64}, Between first s.memory.frontier x → x ≠ a := fun new same =>
    foreign (same ▸ new.mono behind.first_le (Nat.le_refl _))
  have low := behind.guarded.low
  have lowFailure := behind.guarded.lowFailure
  have first_le := behind.guarded.first_le
  refine provides.misses behind obtained consistent built follows returned null (fun j x hx same => no_array j (same ▸ hx))
    (fun q hq transfer x hx same => handed q hq transfer (provides.structures_own _ _ a here (same ▸ hx)))
    (fun hidden x hx same => shown hidden (provides.structures_own _ _ a here (same ▸ hx)))
    (fun q hq _ x own => old own.1) (fun i c hc same => ?_) ⟨fun same => foreign ?_, fun same => foreign ?_⟩
  · exact old (behind.guarded.tokens i c hc) same.symm
  · rw [same]
    exact ⟨behind.cells, by omega⟩
  · rw [same]
    exact ⟨behind.failure, by omega⟩

theorem Provides.misses_new (new : t.memory.frontier ≤ a.toNat) : g.Misses t.memory a := by
  have old : ∀ {x : UInt64}, x.toNat < t.memory.frontier → x ≠ a := by
    rintro x old rfl
    omega
  have low := behind.guarded.low
  have lowFailure := behind.guarded.lowFailure
  have first_le := behind.guarded.first_le
  have frontier_le := provides.frontier_le
  refine provides.misses behind obtained consistent built follows returned null (fun k x hx => old ?_)
    (fun q _ _ x hx => old (provides.structures_live _ x hx).toNat_lt)
    (fun _ x hx => old (provides.structures_live _ x hx).toNat_lt)
    (fun q _ _ x own => old (Nat.lt_of_lt_of_le own.1.2 frontier_le)) (fun i c hc => (old ?_).symm)
    ⟨(old (by omega)).symm, (old (by omega)).symm⟩
  · obtain ⟨⟨b, hb, rfl⟩, -⟩ := provides.arrays_there k x hx
    rw [Memory.toNat_address hb]
    exact Memory.base_lt_frontier hb
  · exact Nat.lt_of_lt_of_le (behind.guarded.tokens i c hc).2 frontier_le

theorem Provides.misses_furnished (furnishes : f.Furnishes a) : g.Misses t.memory a := by
  obtain ⟨q, hq, ⟨layout, type⟩, held⟩ := id furnishes
  have separate := behind.guarded.separate
  have mine := behind.guarded.buffers q.index a held
  have engine_made : Between s₀.memory.frontier s.memory.frontier a := mine.mono behind.first_le (Nat.le_refl _)
  have low := behind.guarded.low
  have lowFailure := behind.guarded.lowFailure
  have foreign : ∀ {k x}, structures k x → x ≠ a := fun hx same => (provides.structures_apart _ _ hx).1 (same ▸ engine_made)
  refine provides.misses behind obtained consistent built follows returned null
    (fun k x hx same => (provides.arrays_there k x hx).2.2 (same ▸ furnishes)) (fun _ _ _ _ hx => foreign hx)
    (fun _ _ hx => foreign hx) (fun r hr array x own same => ?_) (fun i c hc same => ?_) ⟨?_, ?_⟩
  · subst same
    by_cases here : r.index = q.index
    · obtain ⟨out, given⟩ := separate.outputs q.index x held q hq rfl
      have at_r := obtained.coherent.inside hr
      rw [here, obtained.coherent.inside (by rwa [← behind.plan])] at at_r
      cases at_r
      obtain ⟨element, length, other⟩ := array out given
      rw [type] at other
      cases other
    · exact own.2 q.index (Ne.symm here) held
  · exact separate.uncalled q.index i a c held hc same.symm
  · rintro rfl
    exact absurd mine.1 (Nat.not_le.mpr low)
  · rintro rfl
    exact absurd mine.1 (Nat.not_le.mpr lowFailure)

end Misses

end Frame

/-- The structures in a value are alive in the later of two states, and were not released in between. The value owns some
of them, each by itself, and borrows the others. -/
structure Value.Stands (v : Value) (own lent : UInt64 → Prop) (s s' : Engine) : Prop where
  live : ∀ a ∈ v.structures, s'.memory.Live a
  unreleased : ∀ a ∈ v.structures, ∃ t, s'.events = t ++ s.events ∧ .block a ∉ losses t
  owned : ∀ a ∈ v.owned, own a
  distinct : v.owned.Nodup
  borrowed : ∀ a ∈ v.structures, a ∈ v.owned ∨ lent a

theorem structures_composeOutputs (outputs : List Value) :
    (FrameM.composeOutputs outputs).structures = Value.structuresAll outputs := by
  match outputs with
  | [] => rfl
  | [v] => simp [FrameM.composeOutputs, Value.structuresAll]
  | v :: w :: rest => simp [FrameM.composeOutputs, Value.structures]

/-- Results do not dangle. If native code gives each of its outputs blocks of its own, then every structure that the
caller finds in the result of a call is alive when the call is over, whatever has been reclaimed: a structure that the
caller owns is a copy of its own or lies in a buffer that was made for it, and any other was neither handed over nor made
by the engine. -/
theorem results_of_execute {World : Type} {host : Host World} {p : Plan} (obtained : p.Obtained) (consistent : p.Consistent)
    {settings : InvokeSettings} {receiver : Option Value} {arguments : List Value}
    {M M' N : Machine World} {f g : Frame} {s : Engine} {arrays structures : Option Nat → UInt64 → Prop} {v : Value}
    (built : p.prepare receiver arguments M.engine = (.ok f, s))
    (entered : f.execute host ⟨s.noted settings (.callStarted p.name p.slotCount), M.world⟩ = ((.ok (), g), N))
    (provides : f.Provides M.engine s g N.engine arrays structures)
    (run : p.execute host settings receiver arguments M = (.ok v, M')) :
    v.Stands (fun a => N.engine.memory.frontier ≤ a.toNat ∨ f.Furnishes a) (g.Borrows structures) N.engine M'.engine := by
  have coherent := obtained.coherent
  have admitted : p.Admits settings arguments := by
    by_contra unadmitted
    obtain ⟨e, refused⟩ := Plan.execute_unadmitted unadmitted
    rw [refused host receiver M] at run
    cases run
  obtain ⟨-, f₀, s₀, fresh, build⟩ := Plan.prepare_ok built
  have behind := Frame.behind_of_build coherent fresh build
  obtain rfl := behind.plan
  obtain ⟨e, impossible, -⟩ | ⟨-, h, S, collected, rfl⟩ := Plan.execute_ends admitted built entered run
  · cases impossible
  obtain ⟨result, rfl⟩ := (Frame.execute_enters entered).1
  obtain ⟨-, housed, unsettled, -⟩ := Frame.produced_of_prepare coherent built
  have follows := Frame.follows_afterReturn f result
  have returned : (f.afterReturn result).returned ≠ none := by simp [Frame.afterReturn]
  have coherent' : (f.afterReturn result).plan.Coherent := coherent
  have distinct : (f.afterReturn result).bufferBlocks.Nodup := by
    rw [(Frame.entered_of_execute entered).bufferBlocks]
    exact behind.guarded.separate.nodup
  obtain ⟨placed, b, hb, there, room⟩ := housed.afterReturn provides.places result
  have offers := provides.offers obtained consistent built follows
  have noted := memory_noted N.engine settings (.callReturned (f.afterReturn result).plan.name)
  rw [← noted] at offers placed hb
  obtain ⟨null, outputs, rfl, gains⟩ := Frame.gains_collect offers placed housed.apart coherent' consistent.buffers distinct
    returned ⟨b, hb, there⟩ collected
  have gathering := Frame.collect_gathering placed housed.apart coherent' ⟨b, hb, there⟩ collected
  rw [noted] at null
  have ends : ∀ a ∈ Value.structuresAll outputs, S.memory.Live a ∧ S.Spares a (h.reclaim S).2 := by
    intro a ha
    suffices kept : (f.afterReturn result).Misses N.engine.memory a ∧ a ∉ h.bufferBlocks ∧ S.memory.Live a by
      obtain ⟨misses, kept, alive⟩ := kept
      rw [← noted] at misses
      exact ⟨alive, gathering.spares misses placed housed.apart coherent' ⟨b, hb, there, room⟩ unsettled kept⟩
    rcases gains.grounded.structures a ha with own | borrows
    · obtain ⟨kind, alive⟩ := gains.grounded.owned a own
      refine ⟨?_, gains.given a own, alive⟩
      rw [noted] at kind
      rcases kind with new | furnishes
      · exact provides.misses_new behind obtained consistent built follows returned null new
      · exact provides.misses_furnished behind obtained consistent built follows returned null (follows.furnishes furnishes)
    · obtain ⟨k, here⟩ := borrows.structure
      have alive := provides.structures_live k a here
      rw [← noted] at alive
      refine ⟨provides.misses_borrowed behind obtained consistent built follows returned null borrows, fun kept => ?_,
        gains.grows.live alive⟩
      obtain ⟨i, held⟩ := Frame.exists_of_mem_bufferBlocks (gains.gathering.frame.bufferBlocks_subset kept)
      rw [follows.buffer] at held
      exact (provides.structures_apart k a here).1
        ((behind.guarded.buffers i a held).mono behind.first_le (Nat.le_refl _))
  have value := structures_composeOutputs outputs
  have owned := Frame.owned_composeOutputs outputs
  refine ⟨fun a ha => ?_, fun a ha => ?_, fun a ha => ?_, ?_, fun a ha => ?_⟩
  · rw [value] at ha
    exact (ends a ha).2.live (ends a ha).1
  · rw [value] at ha
    obtain ⟨t, events, spared⟩ := (ends a ha).2.events
    obtain ⟨t', events', quiet⟩ := gains.grows.events
    obtain ⟨lines, logged, -, quiet'⟩ := noted_quiet N.engine settings (.callReturned (f.afterReturn result).plan.name)
    refine ⟨t ++ t' ++ lines, by rw [events, events', logged, List.append_assoc, List.append_assoc], ?_⟩
    rw [losses_append, losses_append, quiet, quiet', List.append_nil, List.append_nil]
    exact spared
  · rw [owned] at ha
    have kind := (gains.grounded.owned a ha).1
    rw [noted] at kind
    exact kind.imp_right follows.furnishes
  · rw [owned]
    exact gains.grounded.distinct
  · rw [value] at ha
    rw [owned]
    exact gains.grounded.structures a ha

/-! ## A survey -/

structure Chart where
  arrays : List (Option Nat × UInt64)
  structures : List (Option Nat × UInt64)

/-- A function that yields where one is, which stays with native code, where one comes from, which is handed over, where
one goes, for which the engine provides the memory, and two stops on the way, of which only the list is handed over. -/
def surveying : DescriptorRef where
  id := 0
  descriptor := {
    symbol := "survey", receiver := none, isConstructor := false, entry := .address 0x1000
    signature := {
      namespaceName := "Sample", name := "survey", result := .struct place, resultTransfer := .nothing, skipResult := false
      mayReturnNull := false, canThrow := false
      params := [
        ⟨"origin", .struct place, .output, .everything, false, false, none, none, .call⟩,
        ⟨"destination", .struct place, .output, .nothing, false, true, none, none, .call⟩,
        ⟨"stops", .array (.struct place) (.fixed 2), .output, .container, false, false, none, none, .call⟩] } }

def chart (origin stops : UInt64) : EngineM (UInt64 × Chart) := do
  let here ← EngineM.reserve place.size
  let start ← EngineM.reserve place.size
  let list ← EngineM.reserve 16
  let first ← EngineM.reserve place.size
  let second ← EngineM.reserve place.size
  EngineM.store .u64 list (.ofAddress first)
  EngineM.store .u64 (list + 8) (.ofAddress second)
  EngineM.store .u64 origin (.ofAddress start)
  EngineM.store .u64 stops (.ofAddress list)
  return (here, ⟨[(some 2, list)], [(none, here), (some 0, start), (some 2, first), (some 2, second)]⟩)

theorem chart_keepsPlaces (origin stops : UInt64) : (chart origin stops).KeepsPlaces := by
  refine .bind (.reserve _) fun here => .bind (.reserve _) fun start => .bind (.reserve 16) fun list => ?_
  refine .bind (.reserve _) fun first => .bind (.reserve _) fun second => ?_
  exact .bind (.store _ _ _) fun _ => .bind (.store _ _ _) fun _ => .bind (.store _ _ _) fun _ =>
    .bind (.store _ _ _) fun _ => .pure _

def guiding : Host Chart where
  enter _ arguments :=
    match arguments with
    | (_, origin) :: _ :: (_, stops) :: _ => do
      let (here, made) ← Run.engine (chart origin.address stops.address)
      modify ({ · with world := made })
      return .ofAddress here
    | _ => return .zero
  apply _ _ := return .ok .undefined

theorem guiding_keepsPlaces : guiding.KeepsPlaces := by
  intro address arguments M
  match arguments with
  | [] | [_] | [_, _] => exact .refl M.engine.memory
  | (_, origin) :: _ :: (_, stops) :: _ => exact (chart_keepsPlaces origin.address stops.address).run M

theorem results_of_execute_surveying : ∃ (p : Plan) (s₁ : Engine) (v : Value) (M' : Machine Chart),
    (Plan.compile surveying).run .initial = (.ok p, s₁) ∧
    p.execute guiding {} none [] ⟨s₁, ⟨[], []⟩⟩ = (.ok v, M') ∧ v.structures.length = 5 ∧ v.owned.length = 2 ∧
    v.owned.Nodup ∧ ∀ a ∈ v.structures, M'.engine.memory.Live a := by
  have facts : (((Plan.compile surveying).run .initial).1.toOption.any fun p =>
      let s₁ : Engine := ((Plan.compile surveying).run .initial).2
      (p.prepare none [] s₁).1.toOption.any fun f =>
        let s : Engine := (p.prepare none [] s₁).2
        let entered := f.execute guiding ⟨s.noted {} (.callStarted p.name p.slotCount), ⟨[], []⟩⟩
        let g : Frame := entered.1.2
        let m : Memory := entered.2.engine.memory
        let made : Chart := entered.2.world
        let own (k : Option Nat) (a : UInt64) : Prop := (k, a) ∈ made.arrays
        let lent (k : Option Nat) (a : UInt64) : Prop := (k, a) ∈ made.structures
        let called := p.execute guiding {} none [] ⟨s₁, ⟨[], []⟩⟩
        entered.1.1.isOk && called.1.toOption.any (fun v => v.structures.length == 5 && v.owned.length == 2) &&
          decide (s.memory.frontier ≤ m.frontier) && f.bufferBlocks.all (fun a => decide (m.Live a)) &&
          g.returned.all (fun slot => decide ((Ty.struct place).Leads m (own none) (lent none) slot)) &&
          p.parameters.all (fun q => q.callerAllocates || decide
            (q.type.Leads m (own (some q.index)) (lent (some q.index)) (m.load .u64 (f.cell q.index)))) &&
          made.arrays.all (fun a => decide
            ((∃ b ∈ m.chunks, b.address = a.2) ∧ a.2 ≠ f.failure ∧ a.2 ∉ f.bufferBlocks)) &&
          made.structures.all (fun a => decide (m.Live a.2 ∧
            ¬(s₁.memory.frontier ≤ a.2.toNat ∧ a.2.toNat < s.memory.frontier)) && made.arrays.all (·.2 != a.2)) &&
          made.structures.all (fun a => made.structures.all fun b => a.2 != b.2 || a.1 == b.1)) = true := by
    decide +kernel
  obtain ⟨p, s₁, compiled⟩ := exists_ok (r := (Plan.compile surveying).run .initial) (by decide +kernel)
  simp only [compiled, Except.toOption, Option.any_some] at facts
  rcases built : p.prepare none [] s₁ with ⟨e | f, s⟩
  · simp [built] at facts
  simp only [built, Option.any_some] at facts
  rcases entered : f.execute guiding ⟨s.noted {} (.callStarted p.name p.slotCount), ⟨[], []⟩⟩ with ⟨⟨r, g⟩, N⟩
  rcases called : p.execute guiding {} none [] ⟨s₁, ⟨[], []⟩⟩ with ⟨_ | v, M'⟩
  · simp [called] at facts
  simp only [entered, called, Option.any_some, Bool.and_eq_true, Bool.or_eq_true, List.all_eq_true, Option.all_eq_true,
    decide_eq_true_eq, beq_iff_eq, bne_iff_ne] at facts
  obtain ⟨⟨⟨⟨⟨⟨⟨⟨ran, five, two⟩, frontier_le⟩, buffers⟩, result⟩, outputs⟩, arrays⟩, structures⟩, single⟩ := facts
  obtain ⟨u, rfl⟩ : ∃ u, r = .ok u := by
    cases r with
    | ok u => exact ⟨u, rfl⟩
    | error e => cases ran
  have obtained : p.Obtained := .compiled surveying _ _ compiled
  have coherent := obtained.coherent
  have source := Plan.source_of_compile compiled
  have signature : p.signature = surveying.descriptor.signature := by rw [Plan.signature, source]
  have plan := Frame.plan_of_prepare coherent built
  have param := fun {q : Parameter} (hq : q ∈ p.parameters) => coherent.param_mem hq
  simp only [source, surveying, List.mem_cons, List.not_mem_nil, or_false] at param
  have fixed : ∀ {q : Parameter}, q ∈ p.parameters → ∀ l, q.handling ≠ .array l := fun hq l linked => by
    obtain ⟨element, type⟩ := coherent.typed hq linked
    rcases param hq with same | same | same <;> simp [Parameter.type, same] at type
  have consistent : p.Consistent := by
    refine ⟨fun q hq _ _ _ layout type => ?_, fun _ layout _ => ?_, fun q hq _ given element length type => ?_⟩
    · rcases param hq with same | same | same <;> simp [Parameter.transfer, Parameter.type, same] at type ⊢
    · rw [signature]
      decide
    · rcases param hq with same | same | same <;> simp [Parameter.callerAllocates, Parameter.type, same] at given type
  have provides : f.Provides s₁ s g N.engine (fun k a => (k, a) ∈ N.world.arrays)
      (fun k a => (k, a) ∈ N.world.structures) := by
    refine ⟨Frame.samePlaces_of_execute guiding_keepsPlaces entered, frontier_le,
      fun k a held => buffers a (Frame.mem_bufferBlocks held), fun slot hs => ?_, fun q hq _ own => ?_,
      fun q hq _ given element length type => ?_, fun q hq _ input _ => ?_, fun k a ha => ?_, fun k a ha => ?_,
      fun k a ha => ?_, fun j k a hj hk => ?_⟩
    · rw [plan, signature]
      exact ⟨result slot (by simpa using hs), trivial⟩
    · rw [plan] at hq
      have cell : q.callerAllocates = false := by
        rcases param hq with same | same | same <;> simp [Parameter.callerAllocates, Parameter.direction, same] at own ⊢
      refine ⟨(outputs q hq).resolve_left (by simp [cell]), fun known may => ?_⟩
      rw [may.none_of_unlinked (fixed hq) cell]
      exact .unknown
    · rw [plan] at hq
      rcases param hq with same | same | same <;> simp [Parameter.callerAllocates, Parameter.type, same] at given type
    · rw [plan] at hq
      rcases param hq with same | same | same <;> simp [Parameter.direction, same] at input
    · obtain ⟨there, failure, buffer⟩ := arrays (k, a) ha
      refine ⟨there, failure, fun furnishes => ?_⟩
      obtain ⟨q, -, -, held⟩ := furnishes
      exact buffer (Frame.mem_bufferBlocks held)
    · exact (structures (k, a) ha).1.1
    · obtain ⟨⟨-, foreign⟩, other⟩ := structures (k, a) ha
      exact ⟨foreign, fun j hj => other (j, a) hj rfl⟩
    · exact (single (j, a) hj (k, a) hk).resolve_left (· rfl)
  have stands := results_of_execute obtained consistent built entered provides called
  exact ⟨p, s₁, v, M', compiled, called, five, two, stands.distinct, stands.live⟩

end Ferry
