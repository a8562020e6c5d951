import Ferry.Proofs.Call.Guarding
import Ferry.Proofs.Call.Sparing
import Ferry.Proofs.Call.Balance
import Ferry.Proofs.Callback.Runs

/-!
# The structures of the caller

Structures are passed as they are, so the engine holds addresses of blocks that belong to its caller. What the engine made
for a frame lies behind everything that was there before (`Frame.Behind`), and so what is left of each parameter misses the
blocks of the caller, as long as native code puts none of them there (`Frame.Forbears`). However a call ends, such a block
is left alone: `structures_of_execute`. The only structures of the caller that are released are those inside of an argument
that is passed by reference and handed over.
-/

set_option autoImplicit false

namespace Ferry

namespace Frame

variable {f g : Frame} {s s' t : Engine} {m m' : Memory} {arguments : List Value} {plan : Plan} {q : Parameter}
  {first : Nat} {a : UInt64} {known : Option Nat}

/-- The frame `g` holds what `f` holds, though callbacks may have been handed over. -/
structure Follows (f g : Frame) : Prop where
  plan : g.plan = f.plan
  cells : g.cells = f.cells
  failure : g.failure = f.failure
  returnedCount : g.returnedCount = f.returnedCount
  slot : ∀ i, (g.binding i).slot = (f.binding i).slot
  engineMade : ∀ i, (g.binding i).engineMade = (f.binding i).engineMade
  count : ∀ i, (g.binding i).count = (f.binding i).count
  buffer : ∀ i, (g.binding i).buffer = (f.binding i).buffer
  callback : ∀ i, ∀ c ∈ (g.binding i).callback, c ∈ (f.binding i).callback

theorem Follows.refl (f : Frame) : f.Follows f :=
  ⟨rfl, rfl, rfl, rfl, fun _ => rfl, fun _ => rfl, fun _ => rfl, fun _ => rfl, fun _ _ hc => hc⟩

theorem follows_withoutDurable (f : Frame) : f.Follows f.withoutDurable := by
  refine ⟨rfl, rfl, rfl, rfl, ?_, ?_, ?_, ?_, ?_⟩ <;> intro i <;> rw [binding_withoutDurable]
  exact fun c hc => (Option.filter_eq_some_iff.mp hc).1

theorem follows_afterReturn (f : Frame) (result : Slot) : f.Follows (f.afterReturn result) :=
  have h := follows_withoutDurable f
  ⟨h.plan, h.cells, h.failure, h.returnedCount, h.slot, h.engineMade, h.count, h.buffer, h.callback⟩

section Left

variable (guards : f.Guards first arguments m q) (follows : f.Follows g) (places : m.SamePlaces m')
  (apart : ∀ x, f.Own first m.frontier q.index x → x ≠ a) (low : f.failure.toNat < first)

theorem Own.ne_old {last i : Nat} {x y : UInt64} (own : f.Own first last i x) (old : y.toNat < first) : x ≠ y := by
  rintro rfl
  exact absurd own.1.1 (Nat.not_le.mpr old)

theorem roomy_of_places {type : Ty} {slot : Slot} (places : m.SamePlaces m') (room : type.Roomy m slot known) :
    type.Roomy m' slot known :=
  room.later fun b hb _ => by
    obtain ⟨b', hb', base, size⟩ := places b hb
    exact ⟨b', hb', by simp [Block.address, base], Block.capacity_congr size⟩

include guards follows places apart low

/-- What the engine made for an input misses a block that was there before, unless somebody put it there. -/
theorem Guards.misses_made (input : q.direction ≠ .output) (left : (g.left m' q).1 = f.made q ∧ (g.left m' q).2.2 = .engine)
    (kept : q.type.Kept m m' (fun x => x ≠ a ∧ x ≠ f.failure) (fun _ => True) (f.made q)) :
    q.type.Misses m' a f.failure (g.left m' q) (g.leftCount m' q) := by
  obtain ⟨leads, room⟩ := guards.supplied input
  intro _
  rw [left.1, left.2]
  refine ⟨(leads.kept _ kept places (fun x own => ⟨apart x own, own.ne_old low⟩) fun _ _ => trivial).later _ (fun _ hb _ => hb)
    (fun _ own => own) (fun _ _ native => nomatch native), ?_⟩
  rw [leftCount]
  cases handling : q.handling with
  | array l =>
      rw [follows.count]
      exact roomy_of_places places (room l handling _)
  | _ =>
      simp only [input, decide_false, Bool.false_and, Bool.false_eq_true, if_false]
      exact .unknown

theorem Guards.misses_given (out : q.direction = .output) (given : q.callerAllocates = true)
    (kept : q.transfer = .everything →
      q.type.Kept m m' (fun x => x ≠ a ∧ x ≠ f.failure) (· ≠ a) (f.binding q.index).slot)
    (counted : known = g.leftCount m' q ∨ known = none ∨ known = (f.binding q.index).count) :
    q.type.Misses m' a f.failure (g.left m' q) known := by
  intro covered
  have here : g.left m' q = ((f.binding q.index).slot, if q.transfer = .everything then .elements else .none, .native) := by
    simp only [Frame.left, out, given, if_true, follows.slot]
  rw [here] at covered ⊢
  by_cases handed : q.transfer = .everything
  · cases type : q.type with
    | array element length =>
        obtain ⟨leads, room⟩ := guards.given out given handed element length type
        have led := leads.kept _ (kept handed) places (fun x own => ⟨apart x own, own.ne_old low⟩)
          fun _ none_there => none_there.elim
        rw [← type]
        refine ⟨led.later _ (fun _ hb _ => hb) (fun _ own => own) fun _ other _ _ => other, ?_⟩
        rcases counted with rfl | rfl | rfl
        · rw [leftCount]
          cases handling : q.handling with
          | array l =>
              rw [follows.count]
              exact roomy_of_places places (room _)
          | _ =>
              simp only [out, given, decide_true, Bool.and_self, if_true, follows.count]
              exact roomy_of_places places (by simpa using room none)
        · exact .unknown
        · exact roomy_of_places places (by simpa using room none)
    | _ =>
        rw [type, if_pos handed] at covered
        cases covered
  · rw [if_neg handed] at covered
    cases type : q.type <;> rw [type] at covered <;> cases covered

/-- A value that was handed over by reference is released as native code left it. If that is as the engine made it, no
other structures go with it than those of the argument. -/
theorem Guards.misses_handed (both : q.direction = .both) (handed : q.transfer = .everything) (returned : g.returned ≠ none)
    (cell : m'.load .u64 (f.cell q.index) = m.load .u64 (f.cell q.index)) (other : a ∉ (q.argument arguments).structures)
    (kept : q.type.Kept m m' (fun x => x ≠ a ∧ x ≠ f.failure) (· ≠ a) (f.made q)) :
    q.type.Misses m' a f.failure (g.left m' q) (g.leftCount m' q) := by
  have input : q.direction ≠ .output := by simp [both]
  obtain ⟨leads, room⟩ := guards.supplied input
  obtain ⟨slot, returned⟩ := Option.ne_none_iff_exists'.mp returned
  have here : (g.left m' q).1 = f.made q := by
    have home : f.made q = (f.binding q.index).engineMade := by simp [made, both]
    have held := guards.cell
    rw [if_pos both, ← home] at held
    simp only [left, both, returned, handed, if_true]
    rw [Frame.cell, follows.cells]
    exact cell.trans held
  intro _
  rw [here]
  have led := leads.kept _ kept places (fun x own => ⟨apart x own, own.ne_old low⟩)
    fun x lent same => other (by rwa [same] at lent)
  refine ⟨led.later _ (fun _ hb _ => hb) (fun _ own => own) fun _ lent _ _ => lent, ?_⟩
  rw [leftCount]
  cases handling : q.handling with
  | array l =>
      rw [follows.count]
      exact roomy_of_places places (room l handling _)
  | _ =>
      simp only [input, decide_false, Bool.false_and, Bool.false_eq_true, if_false]
      exact .unknown

theorem Guards.misses_unreturned (unreturned : g.returned = none) (stay : ∀ b ∈ m.chunks, b ∈ m'.chunks)
    (cell : m'.load .u64 (f.cell q.index) = m.load .u64 (f.cell q.index)) :
    q.type.Misses m' a f.failure (g.left m' q) (g.leftCount m' q) := by
  cases direction : q.direction with
  | input =>
      refine guards.misses_made follows places apart low (by simp [direction]) ?_ (.of_chunks _ stay _)
      simp [left, made, direction, unreturned, follows.slot]
  | both =>
      refine guards.misses_made follows places apart low (by simp [direction]) ?_ (.of_chunks _ stay _)
      simp [left, made, direction, unreturned, follows.engineMade]
  | output =>
      cases given : q.callerAllocates with
      | true => exact guards.misses_given follows places apart low direction given (fun _ => .of_chunks _ stay _) (Or.inl rfl)
      | false =>
          have zeroed : m'.load .u64 (g.cell q.index) = .zero := by
            rw [Frame.cell, follows.cells]
            exact cell.trans (by rw [guards.cell, direction, if_neg (by simp)])
          refine .null ?_
          simp [left, direction, given, zeroed, Slot.isNull, Slot.zero]

theorem Guards.misses_returned (returned : g.returned ≠ none)
    (arrays : q.direction ≠ .output → q.transfer ≠ .everything →
      q.type.Kept m m' (fun x => x ≠ a ∧ x ≠ f.failure) (fun _ => True) (f.made q))
    (buffers : q.direction = .output → q.callerAllocates = true → q.transfer = .everything →
      q.type.Kept m m' (fun x => x ≠ a ∧ x ≠ f.failure) (· ≠ a) (f.binding q.index).slot)
    (shows : q.direction = .output → q.callerAllocates = true → ∀ l, q.handling = .array l →
      g.lengthShown m' l = none ∨ g.lengthShown m' l = (f.binding q.index).count)
    (cells : q.direction = .output ∧ q.callerAllocates = false ∨ q.direction = .both ∧ q.transfer = .everything →
      q.type.Misses m' a f.failure (g.left m' q) known)
    (may : g.MayCount m' q known) : q.type.Misses m' a f.failure (g.left m' q) known := by
  have supplied : q.direction ≠ .output → known = g.leftCount m' q := fun input => by
    cases may with
    | known => rfl
    | shown l out => exact absurd out input
  obtain ⟨slot, returned⟩ := Option.ne_none_iff_exists'.mp returned
  cases direction : q.direction with
  | input =>
      have input : q.direction ≠ .output := by simp [direction]
      by_cases handed : q.transfer = .everything
      · intro covered
        simp only [left, direction, returned, handed, ReleaseDepth.forTransfer] at covered
        cases type : q.type <;> rw [type] at covered <;> cases covered
      · rw [supplied input]
        refine guards.misses_made follows places apart low input ?_ (arrays input handed)
        simp [left, made, direction, returned, follows.slot]
  | both =>
      have input : q.direction ≠ .output := by simp [direction]
      by_cases handed : q.transfer = .everything
      · exact cells (Or.inr ⟨direction, handed⟩)
      · rw [supplied input]
        refine guards.misses_made follows places apart low input ?_ (arrays input handed)
        simp [left, made, direction, returned, handed, follows.engineMade]
  | output =>
      cases given : q.callerAllocates with
      | false => exact cells (Or.inl ⟨direction, given⟩)
      | true =>
          refine guards.misses_given follows places apart low direction given (buffers direction given) ?_
          cases may with
          | known => exact Or.inl rfl
          | shown l out linked => exact Or.inr (shows direction given l linked)

end Left

/-! ## The whole frame -/

section Behind

variable (behind : Behind plan arguments s first f s') (follows : f.Follows g)
include behind

section Foreign

variable (foreign : ¬Between s.memory.frontier s'.memory.frontier a)
include foreign

theorem Behind.apart_own {i : Nat} {x : UInt64} (own : f.Own first s'.memory.frontier i x) : x ≠ a := by
  rintro rfl
  exact foreign ⟨Nat.le_trans behind.first_le own.1.1, own.1.2⟩

theorem Behind.apart_storage : a ≠ f.cells ∧ a ≠ f.failure := by
  have below := behind.guarded.first_le
  refine ⟨?_, ?_⟩ <;> rintro rfl
  · exact foreign ⟨behind.cells, Nat.lt_of_lt_of_le behind.guarded.low below⟩
  · exact foreign ⟨behind.failure, Nat.lt_of_lt_of_le behind.guarded.lowFailure below⟩

include follows

theorem Behind.apart_buffers : a ∉ g.bufferBlocks := by
  intro held
  obtain ⟨k, held⟩ := exists_of_mem_bufferBlocks held
  rw [follows.buffer] at held
  obtain ⟨new, made⟩ := behind.guarded.buffers k a held
  exact foreign ⟨Nat.le_trans behind.first_le new, made⟩

theorem Behind.apart_tokens (i : Nat) : ∀ c ∈ (g.binding i).callback, a ≠ c.token := by
  rintro c hc rfl
  obtain ⟨new, made⟩ := behind.guarded.tokens i c (follows.callback i c hc)
  exact foreign ⟨Nat.le_trans behind.first_le new, made⟩

end Foreign

omit behind in
theorem foreign_of_old {last : Nat} (old : a.toNat < s.memory.frontier) : ¬Between s.memory.frontier last a :=
  fun between => absurd between.1 (Nat.not_le.mpr old)

include follows

theorem Behind.sparesOld_unreturned (coherent : plan.Coherent) (unreturned : g.returned = none) (later : s.SparesOld t)
    (stay : ∀ b ∈ s'.memory.chunks, b ∈ t.memory.chunks)
    (cells : ∀ q ∈ plan.parameters, t.memory.load .u64 (f.cell q.index) = s'.memory.load .u64 (f.cell q.index))
    (report : t.memory.load .pointer f.failure = s'.memory.load .pointer f.failure) : s.SparesOld (g.reclaim t).2 := by
  have plan_eq : g.plan = plan := follows.plan.trans behind.plan
  have coherent' : g.plan.Coherent := by rwa [plan_eq]
  have places : s'.memory.SamePlaces t.memory := fun b hb => ⟨b, stay b hb, rfl, rfl⟩
  refine later.givesUp (reclaim_givesUp (loses_reclaimed coherent')) fun a old => ?_
  have foreign : ¬Between s.memory.frontier s'.memory.frontier a := foreign_of_old old
  refine reclaim_spares coherent' (fun q hq => ?_) (fun q _ _ => behind.apart_tokens follows foreign q.index)
    (behind.apart_buffers follows foreign) (by simp [reclaimedResult, unreturned])
    (by rw [follows.cells, follows.failure]; exact behind.apart_storage foreign) ?_
  · rw [plan_eq] at hq
    refine not_mem_reclaimed fun visible => ?_
    have guards := behind.guarded.parameters q (by rw [behind.plan]; exact hq) visible
    exact (guards.misses_unreturned follows places (fun _ own => behind.apart_own foreign own) behind.guarded.lowFailure
      unreturned stay (cells q hq)).not_mem fun _ hb _ => hb
  · rw [follows.failure, Memory.reported, report, behind.guarded.unreported]
    simp [Slot.zero, Slot.address]

end Behind

theorem sparesOld_of_unbuilt {receiver : Option Value} {e : InvokeFailure} (coherent : plan.Coherent)
    (unbuilt : plan.prepare receiver arguments s = (.error e, s')) : s.SparesOld s' := by
  rcases Plan.prepare_error unbuilt with ⟨-, rfl⟩ | full | ⟨-, f₀, s₀, f, t, fresh, run, rfl⟩
  · exact .refl _
  · obtain ⟨forward, same⟩ := fresh?_none full
    refine .of_spares fun a => ?_
    rw [same]
    exact .of_forward (t := []) rfl rfl forward rfl
  · have behind := behind_of_build coherent fresh run
    exact behind.sparesOld_unreturned (.refl f) coherent behind.guarded.returned.1 behind.toSparesOld (fun _ hb => hb)
      (fun _ _ => rfl) rfl

/-! ## Callbacks that are handed over -/

theorem noted_spares (a : UInt64) (s : Engine) (settings : InvokeSettings) (entry : LogEntry) :
    s.Spares a (s.noted settings entry) := by
  unfold Engine.noted
  split
  · exact EngineM.log_spares a entry s
  · exact .refl a s

theorem registerAll_spares (a : UInt64) (h : List Callback) (s : Engine) : s.Spares a (EngineM.registerAll h s).2 := by
  obtain ⟨d, registered⟩ := register_all h s
  have same : (EngineM.registerAll h s).2 = { s with durable := d } := congrArg Prod.snd registered
  rw [same]
  exact .of_memory (t := []) rfl rfl rfl rfl

theorem withdraw_spares {h : List Callback} (apart : ∀ c ∈ h, a ≠ c.token) (s : Engine) :
    s.Spares a (EngineM.withdraw h s).2 := by
  refine (registerAll_spares a h s).trans (.forM _ (fun token listed t => ?_) _)
  obtain ⟨c, hc, rfl⟩ := List.mem_map.mp listed
  exact EngineM.notifyDestroyed_spares (apart c hc) t

theorem durable_givesUp (durable : List UInt64) (s : Engine) : s.GivesUp [] { s with durable } :=
  ⟨(Engine.Moves.refl s).quiet (t := []) rfl rfl rfl (Nat.le_refl _) rfl rfl rfl, fun _ => .rfl⟩

theorem notifyDestroyed_givesUp (x : UInt64) (s : Engine) : ∃ lost, s.GivesUp lost (EngineM.notifyDestroyed x s).2 := by
  unfold EngineM.notifyDestroyed
  rw [EngineM.run_get]
  split
  · rw [EngineM.run_bind]
    have removed := durable_givesUp (s.durable.filter (· != x)) s
    cases found : s.callbacks.find? (·.token == x) with
    | none => exact ⟨_, removed⟩
    | some callback => exact ⟨_, removed.trans (EngineM.destroyCallback_givesUp callback _)⟩
  · exact ⟨[], .refl s⟩

theorem withdraw_givesUp (h : List Callback) (s : Engine) : ∃ lost, s.GivesUp lost (EngineM.withdraw h s).2 := by
  obtain ⟨d, registered⟩ := register_all h s
  have start : (EngineM.registerAll h s).2 = { s with durable := d } := congrArg Prod.snd registered
  have given : ∀ (tokens : List UInt64) (t : Engine),
      ∃ lost, t.GivesUp lost ((tokens.forM EngineM.notifyDestroyed : EngineM Unit) t).2 := by
    intro tokens
    induction tokens with
    | nil => exact fun t => ⟨[], .refl t⟩
    | cons x rest ih =>
        intro t
        obtain ⟨lost, first⟩ := notifyDestroyed_givesUp x t
        obtain ⟨lost', later⟩ := ih (EngineM.notifyDestroyed x t).2
        exact ⟨_, first.trans later⟩
  have steps : (EngineM.withdraw h s).2 =
      (((h.map Callback.token).forM EngineM.notifyDestroyed : EngineM Unit) (EngineM.registerAll h s).2).2 := rfl
  rw [steps, start]
  obtain ⟨lost, later⟩ := given (h.map Callback.token) { s with durable := d }
  exact ⟨_, (durable_givesUp d s).trans later⟩

/-! ## Refused calls -/

theorem exists_of_mem_callbacks {c : Callback} (hc : c ∈ f.callbacks) : ∃ k, (f.binding k).callback = some c := by
  obtain ⟨b, hb, held⟩ := List.mem_filterMap.mp hc
  obtain ⟨k, inside, rfl⟩ := List.mem_iff_getElem.mp hb
  exact ⟨k, by simpa [binding, inside] using held⟩

/-! ## What the length parameter of a buffer shows -/

/-- The length parameter of a buffer shows the count that the buffer was made for, or nothing. Native code does not change
that, since the parameter is passed by value. -/
theorem shown_of_given {receiver : Option Value} {l : Nat} (obtained : plan.Obtained)
    (built : plan.prepare receiver arguments s = (.ok f, s')) (follows : f.Follows g) (hq : q ∈ plan.parameters)
    (visible : q.handling ≠ .hidden) (out : q.direction = .output) (given : q.callerAllocates = true)
    (linked : q.handling = .array l) (m : Memory) :
    g.lengthShown m l = none ∨ g.lengthShown m l = (f.binding q.index).count := by
  have coherent := obtained.coherent
  have laid := laidOut_of_prepare obtained built
  have plan_eq := plan_of_prepare coherent built
  obtain ⟨element, type⟩ := coherent.typed hq linked
  cases laid.visible q.index q (coherent.inside hq) visible with
  | input direction => rw [out] at direction; cases direction
  | both direction => rw [out] at direction; cases direction
  | cell _ own => rw [given] at own; cases own
  | buffer _ _ b settled size sized _ _ _ _ _ counted =>
      rw [plan_eq] at sized
      obtain ⟨n, rfl, -, ⟨l', linked', asked⟩ | ⟨unlinked, -⟩⟩ := Plan.bufferSize_array type sized
      · rw [linked] at linked'
        cases linked'
        obtain ⟨r, found, placed, -⟩ := Plan.requested_ok asked
        have shown := obtained.visible_of_position (List.mem_of_getElem? found) placed
        have direction := coherent.input_of_sizing hq linked found fun hidden => by
          simp [Parameter.isInput, Parameter.isHidden, hidden] at shown
        have held : g.held m r = (f.binding r.index).slot := by
          simp [Frame.held, direction, Direction.isOut, follows.slot]
        rw [lengthShown, follows.plan, plan_eq, Plan.parameter?, found, Option.bind_some, held, counted, Ty.count?]
        split
        · rename_i integral
          have read := Plan.integerRead_of_requested obtained laid hq linked asked found integral.1
          rw [integerRead, direction] at read
          simp only at read
          rw [read]
          exact Or.inr (by simp)
        · exact Or.inl rfl
      · exact absurd linked (unlinked l)

/-! ## Calls -/

section Executed

variable {World : Type} {host : Host World} {settings : InvokeSettings} {world : World} {N : Machine World}

theorem Behind.sparesOld_refused (behind : Behind plan arguments s first f s') (coherent : plan.Coherent)
    {entry : LogEntry} {e : InvokeFailure}
    (refused : f.execute host ⟨s'.noted settings entry, world⟩ = ((.error e, g), N)) :
    s.SparesOld (g.reclaim N.engine).2 := by
  obtain ⟨rfl, rfl⟩ := execute_error refused
  have follows := follows_withoutDurable f
  obtain ⟨lost, withdrawn⟩ := withdraw_givesUp f.leaving (s'.noted settings entry)
  have chunks := fun b => (withdrawn.chunks b).trans (by rw [memory_noted])
  have noted : s.SparesOld (s'.noted settings entry) :=
    behind.toSparesOld.trans (.of_spares fun a => noted_spares a s' settings entry)
  have later := noted.givesUp withdrawn fun a old => withdraw_spares (fun c hc => by
    obtain ⟨k, held⟩ := exists_of_mem_callbacks (List.mem_filter.mp hc).1
    exact behind.apart_tokens (.refl f) (foreign_of_old old) k c held) _
  exact behind.sparesOld_unreturned follows coherent behind.guarded.returned.1 later (fun b hb => (chunks b).mpr hb)
    (fun _ _ => Memory.load_congr chunks _ _) (Memory.load_congr chunks _ _)

/-- Native code leaves the block at `a` to its owner: it leaves what it was passed by reference, returns no address, and
puts the block into nothing that is released. `s` is the engine when the frame `f` is built, and `g` and `s'` are the frame and the
engine when native code has returned. -/
structure Forbears (f : Frame) (s : Engine) (g : Frame) (s' : Engine) (a : UInt64) : Prop where
  places : s.memory.SamePlaces s'.memory
  live : s.memory.Live a → s'.memory.Live a
  cells : ∀ q ∈ f.plan.parameters, q.handling ≠ .hidden → q.direction.isOut = true →
    s'.memory.load .u64 (f.cell q.index) = s.memory.load .u64 (f.cell q.index)
  result : f.plan.signature.result.isPointerLike = true → ∀ slot ∈ g.returned, slot.isNull = true
  arrays : ∀ q ∈ f.plan.parameters, q.handling ≠ .hidden → q.direction ≠ .output → q.transfer ≠ .everything →
    q.type.Kept s.memory s'.memory (fun x => x ≠ a ∧ x ≠ f.failure) (fun _ => True) (f.made q)
  handed : ∀ q ∈ f.plan.parameters, q.handling ≠ .hidden → q.direction = .both → q.transfer = .everything →
    q.type.Kept s.memory s'.memory (fun x => x ≠ a ∧ x ≠ f.failure) (· ≠ a) (f.made q)
  buffers : ∀ q ∈ f.plan.parameters, q.handling ≠ .hidden → q.direction = .output → q.callerAllocates = true →
    q.transfer = .everything →
      q.type.Kept s.memory s'.memory (fun x => x ≠ a ∧ x ≠ f.failure) (· ≠ a) (f.binding q.index).slot
  report : a ∉ s'.memory.reported f.failure

theorem Forbears.misses {t : Engine} {receiver : Option Value} {result : Slot}
    (forbears : f.Forbears s' (f.afterReturn result) t a)
    (behind : Behind plan arguments s first f s') (obtained : plan.Obtained)
    (built : plan.prepare receiver arguments s = (.ok f, s')) (old : a.toNat < s.memory.frontier)
    (lent : ∀ q ∈ plan.parameters, q.handling ≠ .hidden → q.direction = .both → q.transfer = .everything →
      a ∉ (q.argument arguments).structures) : (f.afterReturn result).Misses t.memory a := by
  have follows := follows_afterReturn f result
  have returned : (f.afterReturn result).returned ≠ none := by simp [afterReturn]
  have plan_eq : (f.afterReturn result).plan = plan := follows.plan.trans behind.plan
  have foreign : ¬Between s.memory.frontier s'.memory.frontier a := foreign_of_old old
  refine ⟨fun q hq visible known may => ?_, fun slot hs => ?_, fun q _ _ => behind.apart_tokens follows foreign q.index,
    by rw [follows.cells, follows.failure]; exact behind.apart_storage foreign, by rw [follows.failure]; exact forbears.report⟩
  · rw [plan_eq] at hq
    rw [follows.failure]
    have hq' : q ∈ f.plan.parameters := by rwa [behind.plan]
    have guards := behind.guarded.parameters q hq' visible
    refine guards.misses_returned follows forbears.places (fun _ own => behind.apart_own foreign own)
      behind.guarded.lowFailure returned
      (forbears.arrays q hq' visible)
      (forbears.buffers q hq' visible) (fun out given l linked => ?_) (fun others => ?_) may
    · exact shown_of_given obtained built follows hq visible out given linked t.memory
    · rcases others with ⟨out, own⟩ | ⟨both, handed⟩
      · have zeroed : t.memory.load .u64 ((f.afterReturn result).cell q.index) = .zero := by
          have kept := forbears.cells q hq' visible (by simp [out, Direction.isOut])
          rw [guards.cell, if_neg (by simp [out])] at kept
          exact kept
        refine .null ?_
        simp [left, out, own, zeroed, Slot.isNull, Slot.zero]
      · have kept := forbears.cells q hq' visible (by simp [both, Direction.isOut])
        have misses := guards.misses_handed follows forbears.places (fun _ own => behind.apart_own foreign own)
          behind.guarded.lowFailure both handed returned kept
          (lent q hq visible both handed) (forbears.handed q hq' visible both handed)
        cases may with
        | known => exact misses
        | shown l out => rw [both] at out; cases out
  · rw [follows.plan, follows.failure]
    cases address : f.plan.signature.result.isPointerLike with
    | true => exact .null (forbears.result address slot hs)
    | false => exact .scalar address _

theorem Housed.afterReturn (housed : f.Housed m) (places : m.SamePlaces m') (result : Slot) :
    (f.afterReturn result).Placed m' ∧ ∃ b ∈ m'.chunks, b.address = (f.afterReturn result).failure ∧ 8 ≤ b.capacity := by
  obtain ⟨b, hb, address, size⟩ := housed.failure
  obtain ⟨b', hb', base, same⟩ := places b (Memory.mem_chunks_of_live hb)
  have := b'.size_le_capacity
  exact ⟨housed.placed.afterReturn places, b', hb', by rw [Block.address, base]; exact address, by omega⟩

theorem counted_spares (a : UInt64) (f : Frame) (s : Engine) : s.Spares a (f.counted s) :=
  (registerAll_spares a f.leaving s).trans (.of_memory (t := []) rfl rfl rfl rfl)

theorem collected_of_returned {receiver : Option Value} {h : Frame} {S : Engine} {r : Except InvokeFailure Value}
    (obtained : plan.Obtained) (built : plan.prepare receiver arguments s = (.ok f, s')) {entry entry' : LogEntry}
    (entered : f.execute host ⟨s'.noted settings entry, world⟩ = ((.ok (), g), N))
    (places : s'.memory.SamePlaces N.engine.memory)
    (collected : g.run FrameM.collect (N.engine.noted settings entry') = ((r, h), S)) :
    Collected g (N.engine.noted settings entry') h S ∧ g.Placed N.engine.memory ∧ g.cells ≠ g.failure ∧
      ∃ b ∈ N.engine.memory.chunks, b.address = g.failure ∧ 8 ≤ b.capacity := by
  obtain ⟨⟨result, rfl⟩, -⟩ := execute_enters entered
  obtain ⟨plan_eq, housed, -⟩ := produced_of_prepare obtained.coherent built
  obtain ⟨placed, b, hb, address, room⟩ := housed.afterReturn places result
  refine ⟨?_, placed, housed.apart, b, hb, address, room⟩
  have noted := memory_noted N.engine settings entry'
  rw [← noted] at placed hb
  refine collect_gathering placed housed.apart ?_ ⟨b, hb, address⟩ collected
  rw [(follows_afterReturn f result).plan, plan_eq]
  exact obtained.coherent

/-- A call that is entered spares what was there before, up to native code and again after it, however the collection
ends. -/
theorem Behind.spares_entered {receiver : Option Value} {h : Frame} {S : Engine} {r : Except InvokeFailure Value}
    (behind : Behind plan arguments s first f s') (obtained : plan.Obtained)
    (built : plan.prepare receiver arguments s = (.ok f, s')) (alive : s.memory.Live a)
    (lent : ∀ q ∈ plan.parameters, q.handling ≠ .hidden → q.direction = .both → q.transfer = .everything →
      a ∉ (q.argument arguments).structures) {entry entry' : LogEntry}
    (entered : f.execute host ⟨s'.noted settings entry, world⟩ = ((.ok (), g), N))
    (forbears : f.Forbears s' g N.engine a)
    (collected : g.run FrameM.collect (N.engine.noted settings entry') = ((r, h), S)) :
    (∃ slots L, N = (host.enter plan.native.address slots L).2 ∧ s.Spares a L.engine) ∧
      N.engine.memory.Live a ∧ N.engine.Spares a (h.reclaim S).2 := by
  have coherent := obtained.coherent
  have old := alive.toNat_lt
  obtain ⟨gathering, placed, apart, b, hb, there, room⟩ := collected_of_returned obtained built entered forbears.places collected
  obtain ⟨⟨result, rfl⟩, native⟩ := execute_enters entered
  rw [behind.plan] at native
  have stays : N.engine.memory.Live a := forbears.live ((behind.spares a old).live alive)
  refine ⟨⟨_, _, native, ((behind.spares a old).trans (noted_spares a s' settings entry)).trans (counted_spares a f _)⟩,
    stays, ?_⟩
  obtain ⟨-, -, unsettled, -⟩ := produced_of_prepare coherent built
  have misses := forbears.misses behind obtained built old lent
  have plan_eq : (f.afterReturn result).plan.Coherent := by
    rw [(follows_afterReturn f result).plan, behind.plan]
    exact coherent
  have noted := memory_noted N.engine settings entry'
  have early := stays.toNat_lt
  rw [← noted] at placed hb misses early
  exact (noted_spares a N.engine settings entry').trans (gathering.spares_old misses placed apart plan_eq
    ⟨b, hb, there, room⟩ unsettled early (behind.apart_buffers (follows_afterReturn f result) (foreign_of_old old)))

end Executed

end Frame

section Main

variable {World : Type} {host : Host World} {p : Plan} {settings : InvokeSettings} {receiver : Option Value}
  {arguments : List Value} {M M' : Machine World} {r : Except InvokeFailure Value} {a : UInt64}

/-- Between two machines the engine leaves the block at `a` to its owner, all the time or as long as native code is not
running. -/
inductive LeavesAlone (host : Host World) (p : Plan) (a : UInt64) (M M' : Machine World) : Prop
  | unentered (spares : M.engine.Spares a M'.engine)
  | entered (slots : List (NativeType × Slot)) (L : Machine World) (before : M.engine.Spares a L.engine)
      (after : (host.enter p.native.address slots L).2.engine.Spares a M'.engine)

theorem Plan.sparesOld_or_enters (coherent : p.Coherent) (run : p.execute host settings receiver arguments M = (r, M')) :
    M.engine.SparesOld M'.engine ∨ ∃ f g h s S N, p.Admits settings arguments ∧
      p.prepare receiver arguments M.engine = (.ok f, s) ∧ f.execute host ⟨f.started settings s, M.world⟩ = ((.ok (), g), N) ∧
      g.run FrameM.collect (N.engine.noted settings (.callReturned g.plan.name)) = ((r, h), S) ∧
      M' = ⟨(h.reclaim S).2, N.world⟩ := by
  by_cases admitted : p.Admits settings arguments
  swap
  · obtain ⟨e, refused⟩ := Plan.execute_unadmitted admitted
    rw [refused host receiver M] at run
    cases run
    exact Or.inl (.refl _)
  rcases built : p.prepare receiver arguments M.engine with ⟨e | f, s⟩
  · rw [Plan.execute_unbuilt admitted built] at run
    cases run
    exact Or.inl (Frame.sparesOld_of_unbuilt coherent built)
  obtain ⟨-, f₀, s₀, fresh, build⟩ := Plan.prepare_ok built
  rcases entered : f.execute host ⟨f.started settings s, M.world⟩ with ⟨⟨outcome, g⟩, N⟩
  obtain ⟨e, rfl, -, rfl⟩ | ⟨rfl, h, S, collected, rfl⟩ := Plan.execute_ends admitted built entered run
  · exact Or.inl ((Frame.behind_of_build coherent fresh build).sparesOld_refused coherent entered)
  · exact Or.inr ⟨f, g, h, s, S, N, admitted, rfl, entered, collected, rfl⟩

/-- The engine does not free the structures of its caller, or anything else that it did not make for the call, whatever
the plan, the receiver and the arguments, and however the call ends: the only structures that go are those inside of an
argument that is handed over by reference. So a structure is alive when the call is over, and goes with the last of its
handles, once. -/
theorem structures_of_execute (obtained : p.Obtained)
    (alive : M.engine.memory.Live a)
    (lent : ∀ q ∈ p.parameters, q.handling ≠ .hidden → q.direction = .both → q.transfer = .everything →
      a ∉ (q.argument arguments).structures)
    (native : ∀ f s g N, p.prepare receiver arguments M.engine = (.ok f, s) →
      f.execute host ⟨s.noted settings (.callStarted p.name p.slotCount), M.world⟩ = ((.ok (), g), N) →
      f.Forbears s g N.engine a)
    (run : p.execute host settings receiver arguments M = (r, M')) :
    LeavesAlone host p a M M' ∧ M'.engine.memory.Live a ∧
      ∀ n layout, M'.engine.owners.lookup a = some (n + 1) → M'.engine.GoesWithLast a layout (n + 1) := by
  have coherent := obtained.coherent
  have old := alive.toNat_lt
  suffices outcome : LeavesAlone host p a M M' ∧ M'.engine.memory.Live a from
    ⟨outcome.1, outcome.2, fun n layout owned => goesWithLast owned layout⟩
  obtain spares | ⟨f, g, h, s, S, N, admitted, built, entered, collected, rfl⟩ := Plan.sparesOld_or_enters coherent run
  · have whole := spares.spares a old
    exact ⟨.unentered whole, whole.live alive⟩
  obtain ⟨-, f₀, s₀, fresh, build⟩ := Plan.prepare_ok built
  have behind := Frame.behind_of_build coherent fresh build
  have forbears := native f s g N built (by rw [← behind.plan]; exact entered)
  obtain ⟨⟨slots, L, rfl, before⟩, stays, after⟩ := behind.spares_entered obtained built alive lent entered forbears collected
  exact ⟨.entered slots L before after, after.live stays⟩

end Main

/-! ## A journey -/

def place : Layout := ⟨"Sample", "Place", 16, 8⟩

/-- A method of a place that starts at another place, may change the destination, and goes along a route. -/
def travelling : DescriptorRef where
  id := 0
  descriptor := {
    symbol := "travel", receiver := some (.struct place), isConstructor := false, entry := .address 0x1000
    signature := {
      namespaceName := "Sample", name := "travel", result := .void, resultTransfer := .nothing, skipResult := false
      mayReturnNull := false, canThrow := false
      params := [
        ⟨"start", .struct place, .input, .everything, false, false, none, none, .call⟩,
        ⟨"destination", .struct place, .both, .nothing, false, false, none, none, .call⟩,
        ⟨"route", .array (.struct place) (.fixed 2), .input, .container, false, false, none, none, .call⟩] } }

theorem forbears_of_resting {f g : Frame} {plan : Plan} {arguments : List Value} {s s' : Engine} {first : Nat}
    {settings : InvokeSettings} {entry : LogEntry} {N : Machine Unit} (behind : Frame.Behind plan arguments s first f s')
    (entered : f.execute resting ⟨s'.noted settings entry, ()⟩ = ((.ok (), g), N)) (a : UInt64) :
    f.Forbears s' g N.engine a := by
  obtain ⟨d, result, rfl, native⟩ := Frame.execute_ok entered
  cases native
  have memory := memory_noted s' settings entry
  have same : ∀ {type : Ty} {own lent : UInt64 → Prop} {slot : Slot},
      type.Kept s'.memory (s'.noted settings entry).memory own lent slot := by
    rw [memory]
    exact .of_chunks _ (fun _ hb => hb) _
  have null : ∀ type : NativeType, (Slot.narrow type .zero).isNull = true := fun type => by cases type <;> rfl
  refine ⟨by simp [Memory.SamePlaces.refl], by simp, fun _ _ _ _ => by simp, fun _ slot hs => ?_,
    fun _ _ _ _ _ => same, fun _ _ _ _ _ => same, fun _ _ _ _ _ _ => same, ?_⟩
  · simp only [Frame.afterReturn, Option.mem_def, Option.some.injEq] at hs
    rw [← hs]
    split
    · rfl
    · exact null _
  · simp [Memory.reported, behind.guarded.unreported, Slot.zero, Slot.address]

/-- The same place as a receiver and as every argument. -/
def journey (a : UInt64) : Value × List Value :=
  let here := Value.boxed ⟨place, a, true⟩
  (here, [here, here, .array [here, here]])

theorem structures_of_execute_travelling : ∃ (p : Plan) (s₁ s₂ : Engine) (a : UInt64) (v : Value) (M' : Machine Unit),
    (Plan.compile travelling).run .initial = (.ok p, s₁) ∧ EngineM.allocate place.size s₁ = (some a, s₂) ∧
    p.execute resting {} (some (journey a).1) (journey a).2 ⟨(EngineM.own a s₂).2, ()⟩ = (.ok v, M') ∧
    M'.engine.memory.Live a ∧ M'.engine.GoesWithLast a place 1 := by
  have facts : (((Plan.compile travelling).run .initial).1.toOption.any fun p =>
      let made := EngineM.allocate place.size ((Plan.compile travelling).run .initial).2
      made.1.any fun a =>
        let s := (EngineM.own a made.2).2
        let called := p.execute resting {} (some (journey a).1) (journey a).2 ⟨s, ()⟩
        called.1.isOk && s.memory.blocks.any (·.address == a) && decide (called.2.engine.owners.lookup a = some 1)) = true := by
    decide +kernel
  obtain ⟨p, s₁, compiled⟩ := exists_ok (r := (Plan.compile travelling).run .initial) (by decide +kernel)
  simp only [compiled, Except.toOption, Option.any_some] at facts
  rcases made : EngineM.allocate place.size s₁ with ⟨_ | a, s₂⟩
  · simp [made] at facts
  simp only [made, Option.any_some, Bool.and_eq_true, decide_eq_true_eq] at facts
  obtain ⟨⟨ran, live⟩, owned⟩ := facts
  obtain ⟨v, M', called⟩ := exists_ok ran
  rw [called] at owned
  have obtained : p.Obtained := .compiled travelling _ _ compiled
  have coherent := obtained.coherent
  have source := Plan.source_of_compile compiled
  have param := fun {q : Parameter} (hq : q ∈ p.parameters) => coherent.param_mem hq
  simp only [source, travelling, List.mem_cons, List.not_mem_nil, or_false] at param
  obtain ⟨b, hb, address⟩ := List.any_eq_true.mp live
  obtain ⟨-, alive, goes⟩ := structures_of_execute obtained ⟨b, hb, by simpa using address⟩
    (fun q hq _ both handed => by
      rcases param hq with same | same | same <;> simp [Parameter.direction, Parameter.transfer, same] at both handed)
    (fun f s g N built entered => by
      obtain ⟨-, f₀, s₀, fresh, build⟩ := Plan.prepare_ok built
      exact forbears_of_resting (Frame.behind_of_build coherent fresh build) entered a)
    called
  exact ⟨p, s₁, s₂, a, v, M', compiled, made, called, alive, goes 0 place owned⟩

end Ferry
