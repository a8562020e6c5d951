import Mathlib.Data.List.Count
import Mathlib.Data.List.Nodup
import Ferry.Proofs.Call.Lending
import Ferry.Proofs.Callback.Answering

/-!
# The balance of a call

A plan lends where nothing is handed over in either direction. Every block that the engine makes for such a call is
made while the frame is built, and the frame carries it until it is reclaimed. So if native code leaves the engine's
blocks alone, each of them is released exactly once, however the call ends, unless the caller comes to own it:
`balanced_of_execute`. What callables do meanwhile is in their own balance; answering for them costs nothing.
-/

set_option autoImplicit false

namespace Ferry

variable {World : Type} {host : Host World}

namespace Plan

/-- A plan that hands nothing over. A receiver is passed as an address, the length of every array can be told, and
callables return no addresses. -/
structure Lends (p : Plan) : Prop where
  parameters : ∀ q ∈ p.parameters, q.transfer = .nothing
  result : p.signature.resultTransfer = .nothing
  receiver : p.isMethod = true →
    p.source.descriptor.container = .pointer ∨ ∃ layout, p.source.descriptor.container = .struct layout
  arrays : ∀ q ∈ p.parameters, ∀ element length, q.type = .array element length →
    element.IsFlat ∧ ∀ l, length = .parameter l → l < p.parameters.length ∧ l ≠ q.index
  callbacks : ∀ q ∈ p.parameters, ∀ s, q.type = .callback s → s.result.isPointerLike = false

/-- No argument has more items than the fixed count of its type. -/
def Holds (p : Plan) (arguments : List Value) : Prop :=
  ∀ q ∈ p.parameters, q.isInput = true → ∀ element n items, q.type = .array element (.fixed n) →
    q.argument arguments = .array items → items.length ≤ n

variable {p : Plan} {arguments : List Value} {q : Parameter}

theorem Lends.address (lends : p.Lends) (method : p.isMethod = true) :
    p.source.descriptor.container ≠ .utf8 ∧ ∀ element length, p.source.descriptor.container ≠ .array element length := by
  rcases lends.receiver method with same | ⟨layout, same⟩ <;> simp [same]

theorem Lends.flat (lends : p.Lends) (hq : q ∈ p.parameters) (element : Ty) (length : ArrayLength)
    (type : q.type = .array element length) : element.IsFlat :=
  (lends.arrays q hq element length type).1

theorem isInput_of_supplied (visible : q.handling ≠ .hidden) (supplied : q.direction ≠ .output) : q.isInput = true := by
  rw [Parameter.isInput, q.isHidden_eq_false.mpr visible]
  cases direction : q.direction with
  | output => exact absurd direction supplied
  | input | both => rfl

theorem Lends.shallow (lends : p.Lends) (coherent : p.Coherent) (holds : p.Holds arguments) (hq : q ∈ p.parameters)
    (visible : q.handling ≠ .hidden) (supplied : q.direction ≠ .output) : q.Shallow arguments where
  flat element length type := lends.flat hq element length type
  counted normal element length items type array := by
    refine Or.inr ⟨rfl, ?_⟩
    cases length with
    | zeroTerminated => exact Or.inl rfl
    | fixed n =>
        exact Or.inr ⟨n, rfl, holds q hq (isInput_of_supplied visible supplied) element n items type array⟩
    | parameter l =>
        obtain ⟨inside, other⟩ := (lends.arrays q hq element _ type).2 l rfl
        have handled := coherent.handled q.index q (coherent.inside hq)
        rw [normal] at handled
        rcases handled element l type with outside | own
        · rw [coherent.length_params] at outside
          omega
        · exact absurd own other

end Plan

namespace Frame

variable {f g h : Frame} {m m₁ m' : Memory} {q : Parameter} {L : List Resource}

/-! ## What native code is lent -/

def lent (f : Frame) : List UInt64 :=
  f.plan.parameters.flatMap fun q => q.type.pointers (f.made q)

/-- Native code frees nothing that the engine made for the call, and leaves the pointers in the arrays that it was
lent: `s` is the engine before the frame was built, `s'` when it is built, and `s''` when native code has returned. -/
structure Spared (f : Frame) (s s' s'' : Engine) : Prop where
  places : s'.memory.SamePlaces s''.memory
  events : ∃ t, s''.events = t ++ s'.events ∧ ∀ a, Resource.Between s s' (.block a) → .block a ∉ losses t
  unowned : ∀ a, Resource.Between s s' (.block a) → s''.owners.lookup a = none
  shown : s'.memory.Shows f.lent s''.memory

/-- What native code leaves of the frame: all but its durable callbacks. -/
structure Entered (f g : Frame) : Prop where
  plan : g.plan = f.plan
  cells : g.cells = f.cells
  failure : g.failure = f.failure
  bindings : g.bindings = f.withoutDurable.bindings

theorem entered_of_execute {M N : Machine World} {r : Except InvokeFailure Unit} (run : f.execute host M = ((r, g), N)) :
    Entered f g := by
  rcases execute_cases run with ⟨-, result, rfl⟩ | ⟨-, rfl⟩ <;> exact ⟨rfl, rfl, rfl, rfl⟩

theorem Entered.binding (entered : Entered f g) (i : Nat) :
    g.binding i = { f.binding i with callback := (f.binding i).callback.filter (·.scope ≠ .durable) } := by
  rw [← binding_withoutDurable, Frame.binding, entered.bindings]
  rfl

theorem Entered.bufferBlocks (entered : Entered f g) : g.bufferBlocks = f.bufferBlocks := by
  unfold Frame.bufferBlocks
  rw [entered.bindings, withoutDurable, List.filterMap_map]
  rfl

/-! ## What is reclaimed -/

theorem count_callback (callback : Option Callback) (a : UInt64) :
    (callback.toList.map fun c => Resource.callback c.serial).count (.block a) = 0 := by
  refine List.count_eq_zero_of_not_mem fun listed => ?_
  obtain ⟨c, -, impossible⟩ := List.mem_map.mp listed
  cases impossible

theorem leftCount_of_carried (entered : Entered f g) (settled : g.Settled m₁ h) (hq : q ∈ g.plan.parameters)
    (supplied : q.direction ≠ .output)
    (handled : q.handling = .normal ∧ (f.binding q.index).count = none ∨
      ∃ l n, q.handling = .array l ∧ (f.binding q.index).count = some n) :
    h.leftCount m' q = (f.binding q.index).count := by
  rcases handled with ⟨normal, none⟩ | ⟨l, n, linked, known⟩
  · simp [leftCount, normal, supplied, none]
  · have before : (g.binding q.index).count = some n := by rw [entered.binding]; exact known
    have after := settled.count q hq
    generalize found : (h.binding q.index).count = count at after
    cases after with
    | built => simp [leftCount, linked, found, before, known]
    | shown l' n' _ out open_ _ =>
        -- a count that collecting settled is one that was open before
        have both : q.direction = .both := by
          cases direction : q.direction with
          | both => rfl
          | input => simp [direction, Direction.isOut] at out
          | output => exact absurd direction supplied
        rw [open_ both] at before
        cases before

theorem Carries.count_reclaimed (carries : f.Carries m q L) (entered : Entered f g) (settled : g.Settled m₁ h)
    (hq : q ∈ g.plan.parameters) (lent : q.transfer = .nothing)
    (flat : ∀ element length, q.type = .array element length → element.IsFlat)
    (shown : f.failure ∉ q.type.pointers (f.made q) → m.Shows (q.type.pointers (f.made q)) m') (a : UInt64) :
    (h.reclaimed m' q).count (.block a) = L.count (.block a) := by
  have slot : (h.binding q.index).slot = (f.binding q.index).slot := by rw [settled.slot, entered.binding]
  have engineMade : (h.binding q.index).engineMade = (f.binding q.index).engineMade := by
    rw [settled.engineMade, entered.binding]
  have built : (h.binding q.index).built = (f.binding q.index).built := by rw [settled.built, entered.binding]
  cases carries with
  | nothing unbuilt =>
      unfold reclaimed
      rcases unbuilt with hidden | unbuilt
      · rw [hidden, ite_self]
      · rw [if_neg (by simp [built, unbuilt])]
  | output out _ =>
      have idle : h.Idle m' q := by
        unfold Idle
        split
        · exact Or.inl (by simp [lent])
        · exact Or.inl lent
      unfold reclaimed
      split
      · cases handling : q.handling with
        | hidden => rfl
        | callback closure destroy scope => exact count_callback _ a
        | array l =>
            simp only [idle.released_eq out (Or.inr ⟨l, handling⟩)]
            rfl
        | normal =>
            simp only [idle.released_eq out (Or.inl handling)]
            rfl
      · rfl
  | callback closure destroy scope handled _ =>
      unfold reclaimed
      rw [count_callback, handled]
      split
      · exact count_callback _ a
      · rfl
  | value supplied made handled L owns apart =>
      have value : h.made q = f.made q := by simp only [Frame.made, slot, engineMade]
      have visible : q.handling = .normal ∨ ∃ l, q.handling = .array l := by
        rcases handled with ⟨normal, -⟩ | ⟨l, n, linked, -⟩
        · exact Or.inl normal
        · exact Or.inr ⟨l, linked⟩
      rw [reclaimed_made supplied (built.trans made) visible (Or.inr lent) flat, value,
        leftCount_of_carried entered settled hq supplied handled]
      exact ((owns m' (shown apart.2)).map _).count_eq _

theorem count_flatten {α : Type} {F : α → List Resource} {R : α → List Resource → Prop} {items : List α}
    {Ls : List (List Resource)} (each : List.Forall₂ R items Ls) {r : Resource}
    (same : ∀ x ∈ items, ∀ L, R x L → (F x).count r = L.count r) : (items.map F).flatten.count r = Ls.flatten.count r := by
  induction each with
  | nil => rfl
  | cons first _ ih =>
      rw [List.map_cons, List.flatten_cons, List.flatten_cons, List.count_append, List.count_append,
        same _ List.mem_cons_self _ first, ih fun x hx => same x (List.mem_cons_of_mem _ hx)]

/-! ## The end of the call -/

theorem Accounts.noted {N s : Engine} {settings : InvokeSettings} {entry : LogEntry} {owned : List UInt64}
    (accounts : Accounts g (N.noted settings entry) owned h s) : Accounts g N owned h s := by
  obtain ⟨t, lost, events, gained, losses, shares⟩ := accounts
  obtain ⟨lines, logged, quiet, quiet'⟩ := noted_quiet N settings entry
  refine ⟨t ++ lines, lost, by rw [events, logged, List.append_assoc], ?_, ?_, shares⟩
  · rw [gains_append, gained, quiet, List.append_nil]
  · rw [losses_append, quiet', List.append_nil]
    exact losses

theorem exists_left {receiver : Option Value} {arguments : List Value} {settings : InvokeSettings}
    {M M' N : Machine World} {s : Engine} {r : Except InvokeFailure Value} {outcome : Except InvokeFailure Unit}
    (coherent : f.plan.Coherent) (lends : f.plan.Lends) (housed : f.Housed s.memory)
    (places : s.memory.SamePlaces N.engine.memory) (distinct : f.bufferBlocks.Nodup)
    (free : ∀ a ∈ f.bufferBlocks, N.engine.owners.lookup a = none) (admitted : f.plan.Admits settings arguments)
    (built : f.plan.prepare receiver arguments M.engine = (.ok f, s))
    (entered : f.execute host ⟨s.noted settings (.callStarted f.plan.name f.plan.slotCount), M.world⟩ = ((outcome, g), N))
    (run : f.plan.execute host settings receiver arguments M = (r, M')) :
    ∃ h S, M'.engine = (h.reclaim S).2 ∧ g.Settled N.engine.memory h ∧ N.engine.memory.Remains [f.failure] S.memory ∧
      Accounts g N.engine (ownedBy r) h S := by
  have left := entered_of_execute entered
  obtain ⟨e, -, rfl, rfl⟩ | ⟨rfl, h, S, collected, rfl⟩ := Plan.execute_ends admitted built entered run
  · exact ⟨g, N.engine, rfl, .refl g _, fun _ hb _ => hb, [], [], rfl, rfl, .refl _, .refl _⟩
  · have noted := memory_noted N.engine settings (.callReturned g.plan.name)
    have placed : g.Placed N.engine.memory := by
      rcases execute_cases entered with ⟨-, result, rfl⟩ | ⟨⟨e, impossible⟩, -⟩
      · exact housed.placed.afterReturn places
      · cases impossible
    have place : ∃ b ∈ N.engine.memory.chunks, b.address = g.failure := by
      obtain ⟨b, hb, address, -⟩ := housed.failure
      obtain ⟨b', hb', base, -⟩ := places b (Memory.mem_chunks_of_live hb)
      exact ⟨b', hb', by rw [left.failure, ← address, Block.address, base]; rfl⟩
    have apart : g.cells ≠ g.failure := by
      rw [left.cells, left.failure]
      exact housed.apart
    have gathering := collect_gathering (by rw [noted]; exact placed) apart (by rw [left.plan]; exact coherent)
      (by rw [noted]; exact place) collected
    have accounts := accounts_of_collect (by rw [left.bufferBlocks]; exact distinct)
      (fun a ha => by
        rw [owners_noted]
        exact free a (by rw [← left.bufferBlocks]; exact ha))
      (fun q hq => lends.parameters q (by rw [← left.plan]; exact hq)) (by rw [left.plan]; exact lends.result) collected
    refine ⟨h, S, rfl, ?_, ?_, accounts.noted⟩
    · rw [← noted]
      exact gathering.frame
    · rw [← noted, ← left.failure]
      exact gathering.engine.remains

theorem Settled.reclaim_lent {Ls : List (List Resource)} {S : Engine} (settled : g.Settled m₁ h) (entered : Entered f g)
    (coherent : f.plan.Coherent) (lends : f.plan.Lends) (carries : List.Forall₂ (f.Carries m) f.plan.parameters Ls)
    (shown : ∀ q ∈ f.plan.parameters, f.failure ∉ q.type.pointers (f.made q) →
      m.Shows (q.type.pointers (f.made q)) S.memory) :
    ∃ t, (h.reclaim S).2.events = t ++ S.events ∧ gains t = [] ∧
      ∀ a, (losses t).count (.block a) = Ls.flatten.count (.block a) + h.bufferBlocks.count a := by
  have plan : h.plan = f.plan := settled.plan.trans entered.plan
  have nothing : h.reclaimedResult S.memory = [] := by
    unfold reclaimedResult
    rw [plan, lends.result]
    cases h.returned with
    | none => rfl
    | some slot => exact released_none
  obtain ⟨t, ends, gained, lost⟩ := (reclaim_givesUp (loses_reclaimed (by rw [plan]; exact coherent))).moves.events
  refine ⟨t, ends, gained.eq_nil, fun a => ?_⟩
  have parameters := count_flatten carries (F := h.reclaimed S.memory) (r := .block a) fun q hq L carried =>
    carried.count_reclaimed entered settled (by rw [entered.plan]; exact hq) (lends.parameters q hq) (lends.flat hq)
      (shown q hq) a
  rw [lost.count_eq, nothing, plan, List.map_nil, List.append_nil, List.count_append, parameters, buffers_eq,
    List.count_map_of_injective _ _ fun _ _ same => by cases same; rfl]

end Frame

/-- The balance of a call. `before` is what happened until its frame was built, `during` what happened while native
code ran, and `after` what happened since; the caller owns the blocks of `owned`. -/
structure Balanced (before during after : List Event) (owned : List UInt64) : Prop where
  made : ∀ a, (gains before).count (.block a) ≤ 1 ∧ .block a ∉ losses before ∧ .block a ∉ gains after
  released : ∀ a, .block a ∈ gains before →
    (losses (after ++ during ++ before)).count (.block a) + owned.count a = 1
  others : ∀ a, .block a ∉ gains before → .block a ∉ losses (after ++ before) ∧ a ∉ owned

/-- A call that hands nothing over is balanced, whatever it yields: `f` is the frame that is built, `s` the engine then,
and `N` the machine when native code has returned. Answering the callbacks of the call makes no blocks. -/
theorem balanced_of_execute {p : Plan} (obtained : p.Obtained) (lends : p.Lends) {settings : InvokeSettings}
    {receiver : Option Value} {arguments : List Value} {M M' N : Machine World} {r : Except InvokeFailure Value}
    {outcome : Except InvokeFailure Unit} {f g : Frame} {s : Engine} (holds : p.Holds arguments)
    (admitted : p.Admits settings arguments) (built : p.prepare receiver arguments M.engine = (.ok f, s))
    (entered : f.execute host ⟨s.noted settings (.callStarted p.name p.slotCount), M.world⟩ = ((outcome, g), N))
    (spared : f.Spared M.engine s N.engine) (run : p.execute host settings receiver arguments M = (r, M')) :
    (∃ before during after, s.events = before ++ M.engine.events ∧ N.engine.events = during ++ s.events ∧
      M'.engine.events = after ++ N.engine.events ∧ Balanced before during after (Frame.ownedBy r)) ∧
    ∀ q ∈ p.parameters, ∀ c : Callback, q.type = .callback c.signature → ∀ slots L x L',
      c.trampoline host slots L = (x, L') → c.Relays host L L' := by
  refine ⟨?_, fun q hq c type slots L x L' answered => ?_⟩
  swap
  · exact Callback.relays_of_trampoline (lends.callbacks q hq _ type) answered
  have coherent := obtained.coherent
  obtain ⟨plan, housed, Ls, carries, moves⟩ := Frame.carries_of_prepare coherent lends.address
    (fun q hq => lends.shallow coherent holds hq) built
  subst plan
  have left := Frame.entered_of_execute entered
  have injective : Function.Injective Resource.block := fun _ _ same => by cases same; rfl
  have fresh : ∀ a ∈ f.bufferBlocks, Resource.Between M.engine s (.block a) := fun a ha => by
    refine moves.between _ (List.mem_append_right _ ?_)
    rw [Frame.buffers_eq]
    exact List.mem_map_of_mem ha
  have distinct : f.bufferBlocks.Nodup := by
    have all := (List.nodup_append.mp moves.nodup).2.1
    rw [Frame.buffers_eq] at all
    exact List.Nodup.of_map _ all
  obtain ⟨h, S, reclaimed, settled, remains, dropped, lost, drop_events, drop_gains, drop_losses, shares⟩ :=
    Frame.exists_left coherent lends housed spared.places distinct (fun a ha => spared.unowned a (fresh a ha)) admitted
      built entered run
  obtain ⟨t, ends, end_gains, end_losses⟩ := settled.reclaim_lent left coherent lends carries fun q hq apart b hb listed => by
    obtain ⟨b', hb', same⟩ := spared.shown b hb (List.mem_flatMap.mpr ⟨q, hq, listed⟩)
    have address : b'.address = b.address := by simp [Block.address, same.1]
    refine ⟨b', remains b' hb' ?_, same⟩
    rw [address, List.mem_singleton]
    rintro same
    exact apart (by rw [← same]; exact listed)
  obtain ⟨before, built_events, made, quiet⟩ := moves.events
  obtain ⟨during, during_events, untouched⟩ := spared.events
  have total : ∀ a, (losses (t ++ dropped)).count (.block a) + (Frame.ownedBy r).count a =
      (gains before).count (.block a) := fun a => by
    have shared := shares.count_eq a
    have gained := made.count_eq (.block a)
    simp only [List.count_append, Frame.buffers_eq, List.count_map_of_injective _ _ injective, left.bufferBlocks] at shared gained
    rw [losses_append, List.count_append, end_losses, drop_losses.count_eq,
      List.count_map_of_injective _ _ injective]
    omega
  have once := made.nodup_iff.mpr moves.nodup
  have none_made : gains (t ++ dropped) = [] := by
    rw [gains_append, end_gains, drop_gains]
    rfl
  refine ⟨before, during, t ++ dropped, built_events, during_events,
    by rw [reclaimed, ends, drop_events, List.append_assoc], fun a => ?_, fun a ha => ?_, fun a ha => ?_⟩
  · exact ⟨List.nodup_iff_count_le_one.mp once _, by simp [quiet.eq_nil], by simp [none_made]⟩
  · have spared_a := List.count_eq_zero_of_not_mem (untouched a (moves.between _ (made.mem_iff.mp ha)))
    have balance := total a
    rw [List.count_eq_one_of_mem once ha] at balance
    rw [losses_append, losses_append, List.count_append, List.count_append, quiet.eq_nil, spared_a]
    exact balance
  · have balance := total a
    rw [List.count_eq_zero_of_not_mem ha] at balance
    rw [losses_append, quiet.eq_nil, List.append_nil]
    exact ⟨List.count_eq_zero.mp (by omega), List.count_eq_zero.mp (by omega)⟩

/-! ## A function that finds a place -/

/-- A function that looks for a place by up to three names, may change the title, and fills in where the place is. -/
def locating : DescriptorRef where
  id := 0
  descriptor := {
    symbol := "locate", receiver := none, isConstructor := false, entry := .address 0x1000
    signature := {
      namespaceName := "Sample", name := "locate", result := .void, resultTransfer := .nothing, skipResult := false
      mayReturnNull := false, canThrow := true
      params := [
        ⟨"names", .array .utf8 (.fixed 3), .input, .nothing, false, false, none, none, .call⟩,
        ⟨"title", .utf8, .both, .nothing, false, false, none, none, .call⟩,
        ⟨"place", .struct ⟨"Sample", "Point", 16, 8⟩, .output, .nothing, false, true, none, none, .call⟩] } }

def locatingArguments : List Value := [.array [.string "cape", .string "bay"], .string "chart"]

def resting : Host Unit where
  enter _ _ := return .zero
  apply _ _ := return .ok .undefined

theorem argument_mem {q : Parameter} {arguments items : List Value} (found : q.argument arguments = .array items) :
    .array items ∈ arguments := by
  unfold Parameter.argument at found
  cases supplied : q.position.bind (arguments[·]?) with
  | none =>
      rw [supplied] at found
      cases found
  | some v =>
      rw [supplied] at found
      obtain ⟨k, -, at_k⟩ := Option.bind_eq_some_iff.mp supplied
      rw [Option.getD_some] at found
      rw [← found]
      exact List.mem_of_getElem? at_k

theorem param_mem_locating {p : Plan} (coherent : p.Coherent) (source : p.source = locating) {q : Parameter}
    (hq : q ∈ p.parameters) : q.param ∈ locating.descriptor.signature.params :=
  source ▸ coherent.param_mem hq

theorem lends_locating {p : Plan} (coherent : p.Coherent) (source : p.source = locating) (plain : p.isMethod = false) :
    p.Lends := by
  have param := fun q => param_mem_locating coherent source (q := q)
  constructor
  · intro q hq
    have := param q hq
    simp only [locating, List.mem_cons, List.not_mem_nil, or_false] at this
    rcases this with same | same | same <;> simp [Parameter.transfer, same]
  · rw [Plan.signature, source]
    rfl
  · intro method
    rw [plain] at method
    cases method
  · intro q hq element length type
    have := param q hq
    simp only [locating, List.mem_cons, List.not_mem_nil, or_false] at this
    rcases this with same | same | same <;> simp only [Parameter.type, same] at type <;> cases type
    refine ⟨fun element length same => ?_, by simp⟩
    cases same
  · intro q hq s type
    have := param q hq
    simp only [locating, List.mem_cons, List.not_mem_nil, or_false] at this
    rcases this with same | same | same <;> simp only [Parameter.type, same] at type <;> cases type

theorem spared_of_resting {f g : Frame} {s : Engine} {settings : InvokeSettings} {entry : LogEntry} {E : Engine}
    {N : Machine Unit} (unowned : s.owners = [])
    (entered : f.execute resting ⟨s.noted settings entry, ()⟩ = ((.ok (), g), N)) : f.Spared E s N.engine := by
  obtain ⟨d, result, -, entered⟩ := Frame.execute_ok entered
  cases entered
  obtain ⟨lines, logged, -, quiet⟩ := noted_quiet s settings entry
  have memory := memory_noted s settings entry
  refine ⟨?_, ⟨lines, logged, fun a _ => by simp [quiet]⟩, fun a _ => ?_, .of_chunks fun b hb _ => ?_⟩
  · intro b hb
    exact ⟨b, by simpa [memory] using hb, rfl, rfl⟩
  · simp [unowned]
  · simpa [memory] using hb

theorem balanced_of_execute_locating : ∃ (p : Plan) (r : Except InvokeFailure Value) (M' : Machine Unit),
    ∃ s₁ before during after,
    (Plan.compile locating).run .initial = (.ok p, s₁) ∧
    p.execute resting {} none locatingArguments ⟨s₁, ()⟩ = (r, M') ∧
    M'.engine.events = after ++ (during ++ (before ++ s₁.events)) ∧ Balanced before during after (Frame.ownedBy r) ∧
    (gains before).length = 5 ∧ (Frame.ownedBy r).length = 1 := by
  have facts : (((Plan.compile locating).run .initial).1.toOption.any fun p =>
      let s := ((Plan.compile locating).run .initial).2
      let built := p.prepare none locatingArguments s
      !p.isMethod && (p.typeCheck locatingArguments).isOk && built.2.owners.isEmpty &&
        decide ((gains built.2.events).length = 5) && (gains s.events).isEmpty &&
        decide ((Frame.ownedBy (p.execute resting {} none locatingArguments ⟨s, ()⟩).1).length = 1) &&
        built.1.toOption.any fun f =>
          (f.execute resting ⟨built.2.noted {} (.callStarted p.name p.slotCount), ()⟩).1.1.isOk) = true := by
    decide +kernel
  obtain ⟨p, s₁, compiled⟩ := exists_ok (r := (Plan.compile locating).run .initial) (by decide +kernel)
  simp only [compiled, Except.toOption, Option.any_some] at facts
  rcases built : p.prepare none locatingArguments s₁ with ⟨f | f, s⟩
  · simp [built] at facts
  simp only [built, Option.any_some, Bool.and_eq_true, Bool.not_eq_true', List.isEmpty_iff, decide_eq_true_eq] at facts
  obtain ⟨⟨⟨⟨⟨⟨plain, checked⟩, unowned⟩, five⟩, blank⟩, one⟩, ran⟩ := facts
  rcases entered : f.execute resting ⟨s.noted {} (.callStarted p.name p.slotCount), ()⟩ with ⟨⟨outcome, g⟩, N⟩
  rw [entered] at ran
  rcases run : p.execute resting {} none locatingArguments ⟨s₁, ()⟩ with ⟨r, M'⟩
  rw [run] at one
  have obtained : p.Obtained := .compiled locating _ _ compiled
  have admitted : p.Admits {} locatingArguments := Plan.admits_of_isOk checked {}
  have holds : p.Holds locatingArguments := by
    intro q hq _ element n items type array
    have listed := argument_mem array
    have two : items = [.string "cape", .string "bay"] := by simpa [locatingArguments] using listed
    have fixed : n = 3 ∧ element = .utf8 := by
      have param := param_mem_locating obtained.coherent (Plan.source_of_compile compiled) hq
      simp only [locating, List.mem_cons, List.not_mem_nil, or_false] at param
      rcases param with same | same | same <;> simp only [Parameter.type, same] at type <;> cases type
      exact ⟨rfl, rfl⟩
    obtain ⟨rfl, rfl⟩ := fixed
    simp [two]
  cases outcome with
  | error e => cases ran
  | ok u =>
      obtain ⟨⟨before, during, after, built_events, during_events, ended, balanced⟩, -⟩ := balanced_of_execute obtained
        (lends_locating obtained.coherent (Plan.source_of_compile compiled) plain) holds admitted built entered
        (spared_of_resting unowned entered) run
      refine ⟨p, r, M', s₁, before, during, after, compiled, run, by rw [ended, during_events, built_events], balanced, ?_, one⟩
      rwa [built_events, gains_append, blank, List.append_nil] at five

end Ferry
