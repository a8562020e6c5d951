import Ferry.Proofs.Call.Handover
import Ferry.Proofs.Marshal.Leading

/-!
# What the end of a call spares

Reclaiming a frame gives up what the frame lists and nothing else, so it spares every block that is not listed
(`reclaim_spares`). When outputs are collected first, the frame that is left lists what it listed when native code had
returned: a block that nothing led to then (`Frame.Misses`) is spared all the way (`Collected.spares`).
-/

set_option autoImplicit false

namespace Ferry

namespace Frame

variable {f g : Frame} {m m' : Memory} {s s₀ : Engine} {q : Parameter} {a : UInt64}

/-! ## Reclaiming -/

theorem reclaim_spares (coherent : f.plan.Coherent)
    (parameters : ∀ q ∈ f.plan.parameters, .block a ∉ f.reclaimed s.memory q)
    (callbacks : ∀ q ∈ f.plan.parameters, q.handling ≠ .hidden → ∀ c ∈ (f.binding q.index).callback, a ≠ c.token)
    (buffers : a ∉ f.bufferBlocks) (result : a ∉ f.reclaimedResult s.memory)
    (storage : a ≠ f.cells ∧ a ≠ f.failure) (unreported : a ∉ s.memory.reported f.failure) :
    s.Spares a (f.reclaim s).2 := by
  have told : s.Reports a (f.reclaim s).2 := by
    refine reclaim_across (R := Engine.Reports a) (.refl a) .trans (EngineM.release_reports a)
      (.of_spares (freeFailure_spares unreported)) (fun q hq visible c hc t => ?_) fun x listed t => ?_
    · exact .of_spares (EngineM.destroyCallback_spares (callbacks q hq visible c hc) t)
    · rcases List.mem_pair.mp listed with rfl | rfl
      · exact .of_spares (EngineM.unreserve_spares storage.1 t)
      · exact .of_spares (EngineM.unreserve_spares storage.2 t)
  refine told.spares (reclaim_givesUp (loses_reclaimed coherent)) fun lost => ?_
  rcases List.mem_append.mp lost with earlier | returned
  · rcases List.mem_append.mp earlier with held | buffer
    · obtain ⟨L, hL, here⟩ := List.mem_flatten.mp held
      obtain ⟨q, hq, rfl⟩ := List.mem_map.mp hL
      exact parameters q hq here
    · obtain ⟨b, hb, here⟩ := List.mem_flatMap.mp buffer
      cases provided : b.buffer with
      | none => simp [provided] at here
      | some block =>
          have same : a = block := by simpa [provided] using here
          exact buffers (List.mem_filterMap.mpr ⟨b, hb, by rw [provided, same]⟩)
  · exact result (by simpa using returned)

/-! ## Frames that miss a block -/

/-- Whatever is left of the parameters and of the return value, by whatever count it may be released, misses the block. -/
structure Misses (g : Frame) (m : Memory) (a : UInt64) : Prop where
  parameters : ∀ q ∈ g.plan.parameters, q.handling ≠ .hidden → ∀ known, g.MayCount m q known →
    q.type.Misses m a g.failure (g.left m q) known
  result : ∀ slot ∈ g.returned, g.plan.signature.result.Misses m a g.failure
    (slot, .forTransfer .output g.plan.signature.resultTransfer, .native) (g.plan.resultLength.bind (g.lengthShown m))
  callbacks : ∀ q ∈ g.plan.parameters, q.handling ≠ .hidden → ∀ c ∈ (g.binding q.index).callback, a ≠ c.token
  storage : a ≠ g.cells ∧ a ≠ g.failure
  unreported : a ∉ m.reported g.failure

theorem not_mem_reclaimed (released : q.handling ≠ .hidden →
    a ∉ q.type.released m (f.left m q).2.2 (f.left m q).2.1 (f.left m q).1 (f.leftCount m q)) :
    .block a ∉ f.reclaimed m q := by
  have listed : q.handling ≠ .hidden → .block a ∉ (q.type.released m (f.left m q).2.2 (f.left m q).2.1 (f.left m q).1
      (f.leftCount m q)).map Resource.block := by
    intro visible listed
    obtain ⟨b, hb, same⟩ := List.mem_map.mp listed
    cases same
    exact released visible hb
  unfold reclaimed
  split
  · cases handling : q.handling with
    | hidden => simp
    | callback closure destroy scope => simp
    | array l => exact listed (by simp [handling])
    | normal => exact listed (by simp [handling])
  · simp

section Settled

variable (settled : g.Settled m f) (placed : g.Placed m) (remains : m.Remains [g.failure] m')
  (apart : g.cells ≠ g.failure) (coherent : g.plan.Coherent)
include settled placed remains apart coherent

theorem Settled.misses_reclaimed (hq : q ∈ g.plan.parameters)
    (misses : q.handling ≠ .hidden → ∀ known, g.MayCount m q known → q.type.Misses m a g.failure (g.left m q) known) :
    .block a ∉ f.reclaimed m' q := by
  refine not_mem_reclaimed fun visible released => ?_
  have may := settled.leftCount_mayCount placed remains apart coherent hq
  rw [settled.left_eq placed remains apart (coherent.index_lt hq)] at released
  exact (misses visible _ may).not_mem remains released

theorem Settled.misses_reclaimedResult (misses : g.Misses m a) (unsettled : g.returnedCount = none) :
    a ∉ f.reclaimedResult m' := by
  unfold reclaimedResult
  cases returned : g.returned with
  | none => simp [settled.returned, returned]
  | some slot =>
      have shows := fun index => settled.lengthShown_eq placed remains apart coherent index
      have count : f.returnedCount.or (f.plan.resultLength.bind (f.lengthShown m')) =
          g.plan.resultLength.bind (g.lengthShown m) := by
        rw [settled.plan, funext shows]
        rcases settled.returnedCount with same | ⟨l, n, linked, shown, same⟩
        · rw [same, unsettled, Option.none_or]
        · rw [same, linked, Option.bind_some, shown, Option.some_or]
      rw [settled.returned, returned, Option.elim_some, count, settled.plan]
      exact (misses.result slot returned).not_mem remains

end Settled

theorem Collected.spares (h : Collected g s₀ f s) (misses : g.Misses s₀.memory a) (placed : g.Placed s₀.memory)
    (apart : g.cells ≠ g.failure) (coherent : g.plan.Coherent)
    (room : ∃ b ∈ s₀.memory.chunks, b.address = g.failure ∧ 8 ≤ b.capacity) (unsettled : g.returnedCount = none)
    (kept : a ∉ f.bufferBlocks) : s.Spares a (f.reclaim s).2 := by
  have plan := h.frame.plan
  have remains := h.engine.remains
  have null := h.unreported room
  have quiet : s.memory.reported f.failure = [] := by
    have none_there : (s.memory.load .pointer g.failure).address = 0 := by simpa [Slot.isNull, Slot.address] using null
    rw [h.frame.failure, Memory.reported, if_pos none_there]
  refine reclaim_spares (by rw [plan]; exact coherent) (fun q hq => ?_) (fun q hq visible c hc => ?_) kept
    (h.frame.misses_reclaimedResult placed remains apart coherent misses unsettled) ?_ (by simp [quiet])
  · rw [plan] at hq
    exact h.frame.misses_reclaimed placed remains apart coherent hq (misses.parameters q hq)
  · rw [plan] at hq
    rw [h.frame.callback] at hc
    exact misses.callbacks q hq visible c hc
  · rw [h.frame.cells, h.frame.failure]
    exact misses.storage

theorem exists_of_mem_bufferBlocks {x : UInt64} (hx : x ∈ f.bufferBlocks) : ∃ k, (f.binding k).buffer = some x := by
  obtain ⟨b, hb, held⟩ := List.mem_filterMap.mp hx
  obtain ⟨k, inside, rfl⟩ := List.mem_iff_getElem.mp hb
  exact ⟨k, by simpa [binding, inside] using held⟩

theorem Settled.bufferBlocks_subset (settled : g.Settled m f) : f.bufferBlocks ⊆ g.bufferBlocks := by
  intro x hx
  obtain ⟨k, held⟩ := exists_of_mem_bufferBlocks hx
  rcases settled.buffer k with gone | kept
  · rw [gone] at held
    cases held
  · exact mem_bufferBlocks (kept.symm.trans held)

/-- A block that is there when native code returns, that the frame misses and does not own, is spared to the end of the
call, however the collection ends. -/
theorem Collected.spares_old (h : Collected g s₀ f s) (misses : g.Misses s₀.memory a) (placed : g.Placed s₀.memory)
    (apart : g.cells ≠ g.failure) (coherent : g.plan.Coherent)
    (room : ∃ b ∈ s₀.memory.chunks, b.address = g.failure ∧ 8 ≤ b.capacity) (unsettled : g.returnedCount = none)
    (old : a.toNat < s₀.memory.frontier) (kept : a ∉ g.bufferBlocks) : s₀.Spares a (f.reclaim s).2 :=
  (h.engine.spares a old kept misses.unreported).trans
    (h.spares misses placed apart coherent room unsettled fun held => kept (h.frame.bufferBlocks_subset held))

end Frame

end Ferry
