import Ferry.Proofs.Call.Handover

/-!
# Return values that are not shown

Whether the caller is shown the return value decides what the call yields. What is released of the value is decided by its
type, by the transfer, and by its element count, if it is an array whose length parameter holds the count. The plan of a
function whose return value is not shown knows of no such parameter. The main result is `released_of_suppressed`: the same
blocks are released of the same value, each of them once, except that an array with a length parameter is released without
its elements when it is not shown.
-/

set_option autoImplicit false

namespace Ferry

variable {World : Type} {host : Host World} {v w : NativeValue} {m : Memory} {a : UInt64} {l : Nat}

/-! ## Arrays whose count nobody knows -/

theorem Ty.lengthIndex?_eq_some {type : Ty} : type.lengthIndex? = some l ↔ ∃ element, type = .array element (.parameter l) := by
  cases type with
  | array element length => cases length <;> simp [Ty.lengthIndex?, ArrayLength.parameter?]
  | _ => simp [Ty.lengthIndex?]

namespace NativeValue

theorem handedOver_congr {m' : Memory} (v : NativeValue) (same : v.blocks m' = v.blocks m) :
    v.handedOver m' = v.handedOver m := by
  unfold handedOver Ty.handedOver
  unfold blocks at same
  cases v.transfer with
  | nothing => rfl
  | everything => exact same
  | container =>
      cases type : v.type with
      | array element length => rfl
      | _ => simpa only [type] using same

/-- How the engine reads a value: as native code made it, or without the count, which a length parameter would show. -/
inductive ReadAs (v : NativeValue) : NativeValue → Prop
  | counted : v.ReadAs v
  | uncounted {l : Nat} (linked : v.type.lengthIndex? = some l) : v.ReadAs { v with count := none }

theorem uncounted_blocks (linked : v.type.lengthIndex? = some l) (m : Memory) :
    { v with count := none : NativeValue }.blocks m = if v.slot.isNull then [] else [v.slot.address] := by
  obtain ⟨element, type⟩ := Ty.lengthIndex?_eq_some.mp linked
  simp [blocks, type, Ty.released, Memory.elementParts, Memory.arrayLength?, ReleaseDepth.coversElements,
    ReleaseDepth.coversContainer]

theorem mem_blocks_of_present (linked : v.type.lengthIndex? = some l) (present : v.slot.isNull = false) (m : Memory) :
    v.slot.address ∈ v.blocks m := by
  obtain ⟨element, type⟩ := Ty.lengthIndex?_eq_some.mp linked
  exact v.address_mem_blocks type present m

theorem mem_uncounted_handedOver (linked : v.type.lengthIndex? = some l) :
    a ∈ { v with count := none : NativeValue }.handedOver m ↔ a ∈ v.handedOver m ∧ a = v.slot.address := by
  have container := uncounted_blocks linked m
  have present := fun present => mem_blocks_of_present linked present m
  obtain ⟨element, type⟩ := Ty.lengthIndex?_eq_some.mp linked
  unfold blocks at container present
  rw [type] at container present
  unfold handedOver Ty.handedOver
  rw [type]
  cases v.transfer with
  | nothing => simp
  | container =>
      cases v.slot.isNull with
      | true => simp
      | false => simp
  | everything =>
      simp only [container]
      cases null : v.slot.isNull with
      | true => simp [released_null null]
      | false =>
          simp only [Bool.false_eq_true, if_false, List.mem_singleton]
          constructor
          · rintro rfl
            exact ⟨present null, rfl⟩
          · exact And.right

namespace ReadAs

variable (read : v.ReadAs w)

include read

theorem rests (rests : v.type.Rests m v.slot v.count) : w.type.Rests m w.slot w.count := by
  cases read with
  | counted => exact rests
  | uncounted linked =>
      obtain ⟨element, type⟩ := Ty.lengthIndex?_eq_some.mp linked
      simp only [type, Ty.Rests] at rests ⊢
      intro present
      obtain ⟨b, hb, address, -⟩ := rests present
      exact ⟨b, hb, address, fun n counted => by simp [Memory.arrayLength?] at counted⟩

theorem blocks_sublist (m : Memory) : (w.blocks m).Sublist (v.blocks m) := by
  cases read with
  | counted => exact .refl _
  | uncounted linked =>
      rw [uncounted_blocks linked]
      cases null : v.slot.isNull with
      | true => exact List.nil_sublist _
      | false => exact List.singleton_sublist.mpr (mem_blocks_of_present linked null m)

theorem nodup_handedOver (distinct : (v.blocks m).Nodup) : (w.handedOver m).Nodup :=
  distinct.sublist ((w.handedOver_sublist m).trans (read.blocks_sublist m))

end ReadAs

end NativeValue

/-! ## What is released of a return value -/

/-- Native code returned the value. It consists of live blocks, none of them twice, and nothing else that the engine
releases leads to one, whatever the engine makes meanwhile. -/
structure Frame.Returns (g : Frame) (m : Memory) (v : NativeValue) : Prop where
  type : v.type = g.plan.signature.result
  transfer : v.transfer = g.plan.signature.resultTransfer
  returned : g.returned = some v.slot
  rests : v.type.Rests m v.slot v.count
  live : ∀ a ∈ v.blocks m, m.Live a
  distinct : (v.blocks m).Nodup
  apart : g.failure ∉ v.blocks m ∧ ∀ a ∈ g.bufferBlocks, a ∉ v.blocks m
  elsewhere : ∀ q ∈ g.plan.parameters, q.handling ≠ .hidden → ∀ known, g.MayCount m q known →
    ∀ m', m.Remains [g.failure] m' →
      ∀ a ∈ q.type.released m' (g.left m q).2.2 (g.left m q).2.1 (g.left m q).1 known, a ∉ v.blocks m

namespace Frame

variable {g f : Frame} {s₀ s : Engine}

theorem Returns.returnedValue_eq (returns : g.Returns m v) :
    g.returnedValue m = { v with count := g.plan.resultLength.bind (g.lengthShown m) } := by
  simp only [returnedValue, returns.type, returns.transfer, returns.returned, Option.getD_some]

theorem Collected.releases_returned (h : Collected g s₀ f s) (placed : g.Placed s₀.memory) (apart : g.cells ≠ g.failure)
    (coherent : g.plan.Coherent) (returns : g.Returns s₀.memory v) (read : v.ReadAs (g.returnedValue s₀.memory))
    (unsettled : g.returnedCount = none) :
    ∃ t, (f.reclaim s).2.events = t ++ s₀.events ∧ ∀ a ∈ v.blocks s₀.memory,
      (losses t).count (.block a) = if a ∈ (g.returnedValue s₀.memory).handedOver s₀.memory then 1 else 0 := by
  obtain ⟨t, events, counts⟩ := h.count_reclaimed coherent
  obtain ⟨settled, left⟩ := h
  have remains := left.remains
  refine ⟨t, events, fun a belongs => ?_⟩
  have parameters : (g.plan.parameters.flatMap (f.reclaimed s.memory)).count (.block a) = 0 := by
    refine List.count_eq_zero_of_not_mem fun listed => ?_
    obtain ⟨q, hq, reclaimed⟩ := List.mem_flatMap.mp listed
    refine settled.not_reclaimed placed remains apart coherent hq (fun visible known may released => ?_) reclaimed
    exact returns.elsewhere q hq visible known may s.memory remains a released belongs
  have result := settled.reclaimedResult_eq placed remains apart coherent (read.rests returns.rests)
    (fun listed => returns.apart.1 ((read.blocks_sublist _).subset listed)) returns.returned unsettled
  rw [counts a (returns.live a belongs) fun buffer => returns.apart.2 a buffer belongs, parameters, result, Nat.zero_add]
  split
  · rename_i handed
    exact List.count_eq_one_of_mem (read.nodup_handedOver returns.distinct) handed
  · rename_i kept
    exact List.count_eq_zero_of_not_mem kept

end Frame

/-- A call in which native code ran: `g` is the frame and `N` the machine when native code has returned, and `M'` is the
machine when the call is over. -/
inductive Plan.Completes (p : Plan) (host : Host World) (g : Frame) (N M' : Machine World) : Prop
  | run {settings : InvokeSettings} {receiver : Option Value} {arguments : List Value} {M : Machine World}
    {r : Except InvokeFailure Value} {f : Frame} {s : Engine} (admitted : p.Admits settings arguments)
    (built : p.prepare receiver arguments M.engine = (.ok f, s))
    (entered : f.execute host ⟨s.noted settings (.callStarted p.name p.slotCount), M.world⟩ = ((.ok (), g), N))
    (ended : p.execute host settings receiver arguments M = (r, M'))

section Completes

variable {p p' : Plan} {g g' : Frame} {N M' L K' : Machine World}

theorem Plan.Completes.plan_eq (completes : p.Completes host g N M') (obtained : p.Obtained) (places : host.KeepsPlaces) :
    g.plan = p := by
  obtain ⟨admitted, built, entered, ended⟩ := completes
  obtain ⟨-, -, plan, -⟩ := Frame.collected_of_execute obtained.coherent places admitted built entered ended
  exact plan

theorem Plan.Completes.releases_returned (completes : p.Completes host g N M') (obtained : p.Obtained) (places : host.KeepsPlaces)
    (returns : g.Returns N.engine.memory v) (read : v.ReadAs (g.returnedValue N.engine.memory)) :
    ∃ t, M'.engine.events = t ++ N.engine.events ∧ ∀ a ∈ v.blocks N.engine.memory,
      (losses t).count (.block a) = if a ∈ (g.returnedValue N.engine.memory).handedOver N.engine.memory then 1 else 0 := by
  obtain @⟨settings, receiver, arguments, M, r, f, s, admitted, built, entered, ended⟩ := completes
  have coherent := obtained.coherent
  obtain ⟨h, s', plan, placed, apart, -, unsettled, -, collected, rfl⟩ :=
    Frame.collected_of_execute coherent places admitted built entered ended
  subst plan
  have noted := memory_noted N.engine settings (.callReturned g.plan.name)
  rw [← noted] at placed returns read
  obtain ⟨t, events, counts⟩ := collected.releases_returned placed apart coherent returns read unsettled
  rw [noted] at counts
  obtain ⟨lines, logged, -, quiet⟩ := noted_quiet N.engine settings (.callReturned g.plan.name)
  refine ⟨t ++ lines, by rw [events, logged, List.append_assoc], fun a belongs => ?_⟩
  rw [losses_append, quiet, List.append_nil]
  exact counts a belongs

theorem Plan.Obtained.lengthIndex?_result (obtained : p.Obtained) (linked : p.resultLength = some l) :
    p.signature.result.lengthIndex? = some l := by
  rw [obtained.coherent.resultLength] at linked
  unfold resultLength? at linked
  split at linked
  · cases linked
  · exact (Option.filter_eq_some_iff.mp linked).1

theorem resultLength?_suppressed (s : Signature) : resultLength? { s with skipResult := true } = none := by
  simp [resultLength?, Signature.skipsResult]

/-- Of the value that native code returned, whether the caller is shown it or not, the same blocks are released, each of
them once. It is otherwise only for an array with a length parameter: where it is not shown, its elements are not
released. -/
theorem released_of_suppressed (obtained : p.Obtained) (obtained' : p'.Obtained) (places : host.KeepsPlaces)
    (suppressed : p'.signature = { p.signature with skipResult := true }) (completes : p.Completes host g N M')
    (completes' : p'.Completes host g' L K') (returns : g.Returns N.engine.memory v) (returns' : g'.Returns L.engine.memory v)
    (counted : (g.returnedValue N.engine.memory).count = v.count)
    (same : v.blocks L.engine.memory = v.blocks N.engine.memory) :
    ∃ t t', M'.engine.events = t ++ N.engine.events ∧ K'.engine.events = t' ++ L.engine.events ∧
      ∀ a ∈ v.blocks N.engine.memory,
        (losses t).count (.block a) = (if a ∈ v.handedOver N.engine.memory then 1 else 0) ∧
        (losses t').count (.block a) =
          if p.resultLength = none ∨ a = v.slot.address then (losses t).count (.block a) else 0 := by
  have plan := completes.plan_eq obtained places
  have plan' := completes'.plan_eq obtained' places
  have whole : g.returnedValue N.engine.memory = v := by
    rw [returns.returnedValue_eq] at counted ⊢
    rw [show g.plan.resultLength.bind (g.lengthShown N.engine.memory) = v.count from counted]
  have unlinked : p'.resultLength = none := by
    rw [obtained'.coherent.resultLength, suppressed]
    exact resultLength?_suppressed p.signature
  have uncounted : g'.returnedValue L.engine.memory = { v with count := none } := by
    rw [returns'.returnedValue_eq, plan', unlinked, Option.bind_none]
  have handed := v.handedOver_congr same
  obtain ⟨t, events, counts⟩ := completes.releases_returned obtained places returns (by rw [whole]; exact .counted)
  rw [whole] at counts
  cases linked : p.resultLength with
  | none =>
      have alike : { v with count := none } = v := by
        rw [returns.returnedValue_eq, plan, linked] at counted
        rw [show none = v.count from counted]
      rw [alike] at uncounted
      obtain ⟨t', events', counts'⟩ := completes'.releases_returned obtained' places returns' (by rw [uncounted]; exact .counted)
      rw [uncounted, same, handed] at counts'
      refine ⟨t, t', events, events', fun a belongs => ⟨counts a belongs, ?_⟩⟩
      rw [if_pos (Or.inl rfl), counts a belongs, counts' a belongs]
  | some l =>
      have array : v.type.lengthIndex? = some l := by
        rw [returns.type, plan]
        exact obtained.lengthIndex?_result linked
      obtain ⟨t', events', counts'⟩ := completes'.releases_returned obtained' places returns' (by
        rw [uncounted]
        exact .uncounted array)
      rw [uncounted, same] at counts'
      refine ⟨t, t', events, events', fun a belongs => ⟨counts a belongs, ?_⟩⟩
      rw [counts' a belongs, counts a belongs]
      simp only [NativeValue.mem_uncounted_handedOver array, handed, reduceCtorEq, false_or]
      by_cases container : a = v.slot.address
      · simp only [container, and_true, if_true]
      · simp only [container, and_false, if_false]

end Completes

/-! ## A list of texts that is not shown -/

/-- A function that returns a list of texts and stores the count. Everything is handed over. -/
def listing (skipResult : Bool) : DescriptorRef where
  id := 0
  descriptor := {
    symbol := "list", receiver := none, isConstructor := false, entry := .address 0x1000
    signature := {
      namespaceName := "Sample", name := "list", result := .array .utf8 (.parameter 0), resultTransfer := .everything
      skipResult, mayReturnNull := false, canThrow := false
      params := [⟨"count", .uint32, .output, .nothing, false, false, none, none, .call⟩] } }

/-- Native code that makes two texts and a list of them. -/
def listingHost : Host Unit where
  enter _ arguments :=
    match arguments with
    | (_, count) :: _ => Run.engine do
      let list ← EngineM.reserve 16
      let first ← EngineM.reserve 4
      let second ← EngineM.reserve 4
      EngineM.store .u64 list (.ofAddress first)
      EngineM.store .u64 (list + 8) (.ofAddress second)
      EngineM.store .u32 count.address ⟨2⟩
      return .ofAddress list
    | _ => return .zero
  apply _ _ := return .ok .undefined

theorem listingHost_keepsPlaces : listingHost.KeepsPlaces := by
  intro address arguments M
  match arguments with
  | [] => exact .refl M.engine.memory
  | (_, count) :: _ =>
      refine EngineM.KeepsPlaces.run ?_ M
      refine .bind (.reserve 16) fun list => .bind (.reserve 4) fun first => .bind (.reserve 4) fun second => ?_
      exact .bind (.store _ _ _) fun _ => .bind (.store _ _ _) fun _ => .bind (.store _ _ _) fun _ => .pure _

def listed : NativeValue where
  type := .array .utf8 (.parameter 0)
  transfer := .everything
  slot := ⟨0x5d0c3a800040⟩
  count := some 2

theorem completes_listing (skip : Bool) : ∃ (p : Plan) (g : Frame) (N M' : Machine Unit), ∃ s₁,
    (Plan.compile (listing skip)).run .initial = (.ok p, s₁) ∧ p.Completes listingHost g N M' ∧
    g.Returns N.engine.memory listed ∧ listed.blocks N.engine.memory = [0x5d0c3a800070, 0x5d0c3a800090, 0x5d0c3a800040] ∧
    (skip = false → (g.returnedValue N.engine.memory).count = some 2) := by
  have facts : ∀ skip : Bool, (((Plan.compile (listing skip)).run .initial).1.toOption.any fun p =>
      let s := ((Plan.compile (listing skip)).run .initial).2
      (p.prepare none [] s).1.toOption.any fun f =>
        let entered := f.execute listingHost ⟨(p.prepare none [] s).2.noted {} (.callStarted p.name p.slotCount), ()⟩
        let g : Frame := entered.1.2
        let m : Memory := entered.2.engine.memory
        let blocks : List UInt64 := listed.blocks m
        entered.1.1.isOk && (p.typeCheck []).isOk && decide (g.returned = some listed.slot) && listed.fits m &&
          decide (blocks = [0x5d0c3a800070, 0x5d0c3a800090, 0x5d0c3a800040]) && blocks.all (fun a => m.blocks.any (·.address == a)) &&
          !blocks.contains g.failure && g.bufferBlocks.isEmpty &&
          (skip || decide ((g.returnedValue m).count = some 2))) = true := by
    decide +kernel
  replace facts := facts skip
  obtain ⟨p, s₁, compiled⟩ := exists_ok (r := (Plan.compile (listing skip)).run .initial) (by
    revert skip
    decide +kernel)
  simp only [compiled, Except.toOption, Option.any_some] at facts
  rcases built : p.prepare none [] s₁ with ⟨f | f, s⟩
  · simp [built] at facts
  simp only [built, Option.any_some] at facts
  rcases entered : f.execute listingHost ⟨s.noted {} (.callStarted p.name p.slotCount), ()⟩ with ⟨⟨u, g⟩, N⟩
  simp only [entered, Bool.and_eq_true, Bool.or_eq_true, Bool.not_eq_true', decide_eq_true_eq] at facts
  obtain ⟨⟨⟨⟨⟨⟨⟨⟨ran, checked⟩, returned⟩, fits⟩, blocks⟩, live⟩, failure⟩, buffers⟩, counted⟩ := facts
  have admitted : p.Admits {} [] := Plan.admits_of_isOk checked {}
  cases u with
  | error e => cases ran
  | ok u =>
  rcases ended : p.execute listingHost {} none [] ⟨s₁, ()⟩ with ⟨r, M'⟩
  have completes : p.Completes listingHost g N M' := .run admitted built entered ended
  have obtained : p.Obtained := .compiled (listing skip) _ _ compiled
  have plan := completes.plan_eq obtained listingHost_keepsPlaces
  have source : p.source = listing skip := Plan.source_of_compile compiled
  refine ⟨p, g, N, M', s₁, compiled, completes, ?_, blocks, fun shown => ?_⟩
  · refine ⟨?_, ?_, returned, (listed.fits_of_check fits).rests, fun a ha => ?_, ?_, ⟨?_, ?_⟩, fun q hq _ known _ m' _ a => ?_⟩
    · rw [plan, Plan.signature, source]
      rfl
    · rw [plan, Plan.signature, source]
      rfl
    · obtain ⟨b, hb, address⟩ := List.any_eq_true.mp (List.all_eq_true.mp live a ha)
      exact ⟨b, hb, by simpa using address⟩
    · rw [blocks]
      decide
    · simpa using failure
    · simp [List.isEmpty_iff.mp buffers]
    · -- the count is no array, and nothing of it is released
      rw [plan] at hq
      have param := obtained.coherent.param_mem hq
      rw [source, listing, List.mem_singleton] at param
      simp [Parameter.type, param, Ty.released, Ty.parts]
  · simpa [shown] using counted

theorem released_of_suppressed_listing : ∃ (p p' : Plan) (g g' : Frame) (N M' L K' : Machine Unit) (t t' : List Event),
    ∃ s₁ s₁', (Plan.compile (listing false)).run .initial = (.ok p, s₁) ∧
    (Plan.compile (listing true)).run .initial = (.ok p', s₁') ∧
    p.Completes listingHost g N M' ∧ p'.Completes listingHost g' L K' ∧
    M'.engine.events = t ++ N.engine.events ∧ K'.engine.events = t' ++ L.engine.events ∧
    listed.blocks N.engine.memory = [0x5d0c3a800070, 0x5d0c3a800090, 0x5d0c3a800040] ∧
    ∀ a ∈ listed.blocks N.engine.memory, (losses t).count (.block a) = 1 ∧
      (losses t').count (.block a) = if a = listed.slot.address then 1 else 0 := by
  obtain ⟨p, g, N, M', s₁, compiled, completes, returns, blocks, counted⟩ := completes_listing false
  obtain ⟨p', g', L, K', s₁', compiled', completes', returns', blocks', -⟩ := completes_listing true
  have source : p.source = listing false := Plan.source_of_compile compiled
  have source' : p'.source = listing true := Plan.source_of_compile compiled'
  have obtained : p.Obtained := .compiled _ _ _ compiled
  obtain ⟨t, t', events, events', counts⟩ := released_of_suppressed obtained (.compiled _ _ _ compiled')
    listingHost_keepsPlaces (by rw [Plan.signature, Plan.signature, source, source']; rfl) completes completes' returns
    returns' (counted rfl) (blocks'.trans blocks.symm)
  have linked : p.resultLength = some 0 := by
    rw [obtained.coherent.resultLength, Plan.signature, source]
    rfl
  refine ⟨p, p', g, g', N, M', L, K', t, t', s₁, s₁', compiled, compiled', completes, completes', events, events', blocks,
    fun a belongs => ?_⟩
  obtain ⟨shown, hidden⟩ := counts a belongs
  rw [if_pos (show a ∈ listed.handedOver N.engine.memory from belongs)] at shown
  refine ⟨shown, ?_⟩
  rw [hidden, shown, linked]
  simp only [reduceCtorEq, false_or]

end Ferry
