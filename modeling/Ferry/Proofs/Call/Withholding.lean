import Ferry.Proofs.Call.Structures

/-!
# Blocks that are none of a call's

A block that was not made while a frame was built is none of its cells, buffers and callbacks, and the inputs do not lead to
it as long as native code leaves their arrays alone. So the end of the call gives such a block back only where native code has
put it into an output or into the return value (`Behind.reclaim_spares`), and what happens from the return of native code on
leaves it alone otherwise (`Behind.spares_returned`).
-/

set_option autoImplicit false

namespace Ferry

theorem Memory.not_mem_reported {m : Memory} {place a : UInt64} (null : (m.load .pointer place).isNull = true) :
    a ∉ m.reported place := by
  have address : (m.load .pointer place).address = 0 := by simpa [Slot.isNull, Slot.address] using null
  simp [Memory.reported, address]

namespace Frame

variable {f g h : Frame} {s s' t : Engine} {m m' : Memory} {arguments : List Value} {plan : Plan} {q : Parameter}
  {first : Nat} {a : UInt64} {known : Option Nat}

/-- Native code has put neither the block nor the place of the report into the arrays of the inputs. -/
def KeptFromInputs (f : Frame) (m m' : Memory) (a : UInt64) : Prop :=
  ∀ q ∈ f.plan.parameters, q.handling ≠ .hidden → q.direction = .input →
    q.type.Kept m m' (fun x => x ≠ a ∧ x ≠ f.failure) (fun _ => True) (f.made q)

/-- The block goes with no output and with no return value when the frame is reclaimed. -/
structure Unshared (g : Frame) (m : Memory) (a : UInt64) : Prop where
  outputs : ∀ q ∈ g.plan.parameters, q.direction.isOut = true → .block a ∉ g.reclaimed m q
  result : a ∉ g.reclaimedResult m

/-- Native code that has returned keeps the block to itself: it has put it into no array of the inputs and reports nothing with
it, and the block goes with no output and with no return value. Here `f` and `m` are the frame and the memory when the call is
built, `g` and `m'` when native code has returned, and `h` and `m''` when outputs have been collected. -/
structure Withholds (f : Frame) (m : Memory) (g : Frame) (m' : Memory) (h : Frame) (m'' : Memory) (a : UInt64) : Prop where
  inputs : f.KeptFromInputs m m' a
  unreported : a ∉ m'.reported g.failure
  unshared : h.Unshared m'' a

theorem Unshared.congr (unshared : g.Unshared m a) (same : ∀ b, b ∈ m.chunks ↔ b ∈ m'.chunks) : g.Unshared m' a where
  outputs q hq out := by
    rw [← reclaimed_congr same]
    exact unshared.outputs q hq out
  result := by
    rw [← reclaimedResult_congr same]
    exact unshared.result

section Behind

variable (behind : Behind plan arguments s first f s') (follows : f.Follows g) (returned : g.returned ≠ none)
  (places : s'.memory.SamePlaces m) (inputs : f.KeptFromInputs s'.memory m a)
  (foreign : ¬Between s.memory.frontier s'.memory.frontier a)
include behind follows returned places inputs foreign

theorem Behind.misses_input (hq : q ∈ plan.parameters) (visible : q.handling ≠ .hidden) (input : q.direction = .input)
    (may : g.MayCount m q known) : q.type.Misses m a f.failure (g.left m q) known := by
  have hq' : q ∈ f.plan.parameters := by rwa [behind.plan]
  have other : q.direction ≠ .output := by simp [input]
  exact (behind.guarded.parameters q hq' visible).misses_returned follows places (fun _ own => behind.apart_own foreign own)
    behind.guarded.lowFailure returned (fun _ _ => inputs q hq' visible input) (fun out => absurd out other)
    (fun out => absurd out other) (fun cells => by simp [input] at cells) may

theorem Behind.reclaim_spares (coherent : plan.Coherent) (settled : g.Settled m h) (placed : g.Placed m)
    (apart : g.cells ≠ g.failure) (remains : m.Remains [g.failure] t.memory) (unshared : h.Unshared t.memory a)
    (unreported : a ∉ t.memory.reported h.failure) : t.Spares a (h.reclaim t).2 := by
  have plan_eq : g.plan = plan := follows.plan.trans behind.plan
  have coherent' : g.plan.Coherent := by rwa [plan_eq]
  refine Frame.reclaim_spares (by rwa [settled.plan]) (fun q hq => ?_) (fun q hq visible c held => ?_) ?_ unshared.result ?_
    unreported
  · cases out : q.direction.isOut with
    | true => exact unshared.outputs q hq out
    | false =>
        have input : q.direction = .input := by cases direction : q.direction <;> simp_all [Direction.isOut]
        rw [settled.plan] at hq
        refine settled.misses_reclaimed placed remains apart coherent' hq fun visible known may => ?_
        rw [follows.failure]
        exact behind.misses_input follows returned places inputs foreign (by rwa [← plan_eq]) visible input may
  · rw [settled.callback] at held
    exact behind.apart_tokens follows foreign q.index c held
  · exact fun held => behind.apart_buffers follows foreign (settled.bufferBlocks_subset held)
  · rw [settled.cells, settled.failure, follows.cells, follows.failure]
    exact behind.apart_storage foreign

end Behind

/-! ## From the return of native code on -/

section Returned

variable {World : Type} {host : Host World} {settings : InvokeSettings} {receiver : Option Value} {entry entry' : LogEntry}
  {world : World} {N : Machine World} {S : Engine} {r : Except InvokeFailure Value}
  (obtained : plan.Obtained) (built : plan.prepare receiver arguments s = (.ok f, s'))
  (entered : f.execute host ⟨s'.noted settings entry, world⟩ = ((.ok (), g), N))
  (places : s'.memory.SamePlaces N.engine.memory)
  (collected : g.run FrameM.collect (N.engine.noted settings entry') = ((r, h), S))
include obtained built entered places collected

theorem spares_returned (withholds : f.Withholds s'.memory g N.engine.memory h S.memory a)
    (foreign : ¬Between s.memory.frontier s'.memory.frontier a) (early : a.toNat < N.engine.memory.frontier) :
    N.engine.Spares a (h.reclaim S).2 := by
  obtain ⟨inputs, unreported, unshared⟩ := withholds
  obtain ⟨gathered, placed, apart, room⟩ := collected_of_returned obtained built entered places collected
  obtain ⟨-, f₀, s₀, fresh, build⟩ := Plan.prepare_ok built
  have behind := behind_of_build obtained.coherent fresh build
  obtain ⟨⟨result, rfl⟩, -⟩ := execute_enters entered
  have follows := follows_afterReturn f result
  have noted := memory_noted N.engine settings entry'
  have quiet : a ∉ S.memory.reported h.failure := by
    rw [gathered.frame.failure]
    exact Memory.not_mem_reported (gathered.unreported (by rw [noted]; exact room))
  have collects := gathered.engine.spares a (by rw [noted]; exact early) (behind.apart_buffers follows foreign)
    (by rw [noted]; exact unreported)
  have settled := gathered.frame
  have remains := gathered.engine.remains
  rw [noted] at settled remains
  refine ((noted_spares a N.engine settings entry').trans collects).trans ?_
  exact behind.reclaim_spares follows (by simp [afterReturn]) places inputs foreign obtained.coherent settled placed apart
    remains unshared quiet

theorem later_of_returned (later : s'.memory.frontier ≤ N.engine.memory.frontier) :
    (∃ t, (h.reclaim S).2.events = t ++ N.engine.events) ∧
      N.engine.memory.frontier ≤ (h.reclaim S).2.memory.frontier ∧
      ∀ a, (h.reclaim S).2.memory.frontier ≤ a.toNat → N.engine.owners.lookup a = none →
        (h.reclaim S).2.owners.lookup a = none := by
  obtain ⟨gathered, -⟩ := collected_of_returned obtained built entered places collected
  obtain ⟨-, f₀, s₀, fresh, build⟩ := Plan.prepare_ok built
  have behind := behind_of_build obtained.coherent fresh build
  obtain ⟨⟨result, rfl⟩, -⟩ := execute_enters entered
  have follows := follows_afterReturn f result
  have plan_eq : h.plan = plan := gathered.frame.plan.trans (follows.plan.trans behind.plan)
  have reclaimed := reclaim_givesUp (f := h) (s := S) (loses_reclaimed (by rw [plan_eq]; exact obtained.coherent))
  have noted := noted_spares 0 N.engine settings entry'
  obtain ⟨t, first, -⟩ := noted.events
  obtain ⟨t', second, -⟩ := gathered.engine.events
  obtain ⟨t'', third, -⟩ := reclaimed.moves.events
  have frontier := Nat.le_trans noted.frontier_le gathered.engine.frontier_le
  refine ⟨⟨t'' ++ (t' ++ t), by rw [third, second, first, List.append_assoc, List.append_assoc]⟩,
    Nat.le_trans frontier reclaimed.moves.frontier_le, fun a beyond free => ?_⟩
  have beyond' := Nat.le_trans reclaimed.moves.frontier_le beyond
  have unmade : ¬Between s.memory.frontier s'.memory.frontier a := fun between => by
    have := between.2
    omega
  refine reclaimed.moves.unowned a (gathered.engine.unowned a beyond' (behind.apart_buffers follows unmade) ?_)
  exact (noted_spares a N.engine settings entry').owners.trans free

end Returned

end Frame

end Ferry
