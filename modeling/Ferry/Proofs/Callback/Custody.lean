import Ferry.Proofs.Callback.Changes

/-!
# Who has a callback

A callback that was made is in the frame of a call under way, or in the registry, or it was destroyed. A `Moment` is
the engine together with the callbacks of the frames of all calls under way, and a `Move` is what happens between two
moments; `Moment.Step` says with the engine's own actions what each move does. `Callback.next` is the whole life of
a callback: where it goes at each move. The main result is `Path.follows`: along every path a callback is where
its life says, and nowhere else.
-/

set_option autoImplicit false

namespace Ferry

/-- The engine, and the callbacks in the frame of each call that is under way, outermost first. -/
structure Moment where
  engine : Engine
  frames : List (List Callback)

inductive Move where
  | acted
  | opened (made : List Callback)
  | entered
  | withdrawn
  | notified (token : UInt64)
  | cleared
  | closed

namespace EngineM

def registerAll (h : List Callback) : EngineM Unit := h.forM registerDurable

/-- Registers callbacks and gives their tokens back. -/
def withdraw (h : List Callback) : EngineM Unit := do
  registerAll h
  (h.map Callback.token).forM notifyDestroyed

theorem registerAll_thins (h : List Callback) (s : Engine) : s.Thins (registerAll h s).2 :=
  forM_thins registerDurable_thins h s

theorem withdraw_thins (h : List Callback) (s : Engine) : s.Thins (withdraw h s).2 :=
  (registerAll_thins h s).trans (forM_thins notifyDestroyed_thins _ _)

end EngineM

namespace Moment

/-- What a move does to the engine and the frames. -/
inductive Step : Moment → Move → Moment → Prop
  | acted {s s' : Engine} {fs : List (List Callback)} (untouched : s.Untouched s') : Step ⟨s, fs⟩ .acted ⟨s', fs⟩
  | opened {s s' : Engine} {fs : List (List Callback)} {h : List Callback} (makes : s.Makes h s') :
    Step ⟨s, fs⟩ (.opened h) ⟨s', fs ++ [h]⟩
  | entered {s : Engine} {fs : List (List Callback)} {h : List Callback} :
    Step ⟨s, fs ++ [h]⟩ .entered
      ⟨(EngineM.registerAll (h.filter (·.isDurable)) s).2, fs ++ [h.filter (!·.isDurable)]⟩
  | withdrawn {s : Engine} {fs : List (List Callback)} {h : List Callback} :
    Step ⟨s, fs ++ [h]⟩ .withdrawn
      ⟨(EngineM.withdraw (h.filter (·.isDurable)) s).2, fs ++ [h.filter (!·.isDurable)]⟩
  | notified {s : Engine} {fs : List (List Callback)} (token : UInt64) :
    Step ⟨s, fs⟩ (.notified token) ⟨(EngineM.notifyDestroyed token s).2, fs⟩
  | cleared {s : Engine} {fs : List (List Callback)} : Step ⟨s, fs⟩ .cleared ⟨(EngineM.clearDurable s).2, fs⟩
  | closed {s s' : Engine} {fs : List (List Callback)} {h : List Callback} (drops : s.Drops h s') :
    Step ⟨s, fs ++ [h]⟩ .closed ⟨s', fs⟩

end Moment

/-- Where a callback is. -/
inductive Place where
  | framed (depth : Nat)
  | registered
  | destroyed
deriving DecidableEq

/-- Where a callback goes from a place when a move has left so many calls under way. -/
def Callback.next (c : Callback) (mv : Move) (live : Nat) : Place → Place
  | .framed d =>
    match mv with
    | .entered => if c.isDurable ∧ live = d + 1 then .registered else .framed d
    | .withdrawn => if c.isDurable ∧ live = d + 1 then .destroyed else .framed d
    | .closed => if live = d then .destroyed else .framed d
    | _ => .framed d
  | .registered =>
    match mv with
    | .notified token => if token = c.token then .destroyed else .registered
    | .cleared => .destroyed
    | _ => .registered
  | .destroyed => .destroyed

namespace Moment

def At (m : Moment) (c : Callback) : Place → Prop
  | .framed d => ∃ h, m.frames[d]? = some h ∧ c ∈ h
  | .registered => c ∈ m.engine.callbacks ∧ c.token ∈ m.engine.durable
  | .destroyed => c.serial ∈ m.engine.destroyed

/-- Every live callback is in one frame or in the registry, and none was destroyed twice. -/
structure Kept (m : Moment) : Prop where
  held : ∀ c, c ∈ m.frames.flatten ↔ c ∈ m.engine.callbacks ∧ c.token ∉ m.engine.durable
  apart : (m.frames.flatten.map (·.serial)).Nodup
  serials : (m.engine.callbacks.map (·.serial)).Nodup
  distinct : m.engine.Distinct
  registered : ∀ t ∈ m.engine.durable, ∃ c ∈ m.engine.callbacks, c.token = t
  registry : m.engine.durable.Nodup
  once : m.engine.destroyed.Nodup
  live : ∀ c ∈ m.engine.callbacks, c.serial < m.engine.nextCallback ∧ c.serial ∉ m.engine.destroyed
  ended : ∀ n ∈ m.engine.destroyed, n < m.engine.nextCallback

variable {m m' : Moment} {mv : Move} {c : Callback} {p q : Place} {s s' : Engine} {fs fs' : List (List Callback)}
  {h g : List Callback}

theorem kept_on (platform : Platform) : Kept ⟨.on platform, []⟩ := by
  constructor <;> simp [Engine.on, Engine.Distinct, Engine.destroyed, losses]

theorem at_innermost {d : Nat} :
    At ⟨s, fs ++ [h]⟩ c (.framed d) ↔ d < fs.length ∧ At ⟨s, fs⟩ c (.framed d) ∨ d = fs.length ∧ c ∈ h := by
  simp only [At]
  rcases Nat.lt_trichotomy d fs.length with outer | rfl | beyond
  · simp [List.getElem?_append_left outer, outer, Nat.ne_of_lt outer]
  · simp
  · have outside : (fs ++ [h])[d]? = none := List.getElem?_eq_none (by simp; omega)
    simp only [outside]
    constructor
    · rintro ⟨_, impossible, -⟩
      cases impossible
    · omega

namespace Kept

theorem eq_of_serial (kept : m.Kept) {x y : Callback} (hx : x ∈ m.engine.callbacks) (hy : y ∈ m.engine.callbacks)
    (same : x.serial = y.serial) : x = y :=
  List.inj_on_of_nodup_map kept.serials hx hy same

theorem eq_of_token (kept : m.Kept) {x y : Callback} (hx : x ∈ m.engine.callbacks) (hy : y ∈ m.engine.callbacks)
    (same : x.token = y.token) : x = y :=
  List.inj_on_of_nodup_map kept.distinct hx hy same

theorem of_framed (kept : m.Kept) {d : Nat} (there : m.At c (.framed d)) :
    c ∈ m.engine.callbacks ∧ c.token ∉ m.engine.durable := by
  obtain ⟨h, found, hc⟩ := there
  exact (kept.held c).mp (List.mem_flatten.mpr ⟨h, List.mem_of_getElem? found, hc⟩)

theorem depth_unique (kept : m.Kept) {d e : Nat} (first : m.At c (.framed d)) (second : m.At c (.framed e)) : d = e := by
  obtain ⟨h, found, hc⟩ := first
  obtain ⟨g, found', hc'⟩ := second
  obtain ⟨inside, rfl⟩ := List.getElem?_eq_some_iff.mp found
  obtain ⟨inside', rfl⟩ := List.getElem?_eq_some_iff.mp found'
  have disjoint := List.pairwise_iff_getElem.mp (List.nodup_flatten.mp (List.Nodup.of_map _ kept.apart)).2
  rcases Nat.lt_trichotomy d e with before | same | behind
  · exact absurd hc' (disjoint d e inside inside' before hc)
  · exact same
  · exact absurd hc (disjoint e d inside' inside behind hc')

theorem unique (kept : m.Kept) (first : m.At c p) (second : m.At c q) : p = q := by
  have destroyed_dead : m.At c .destroyed → c ∉ m.engine.callbacks := fun dead live => (kept.live c live).2 dead
  cases p with
  | framed d =>
      cases q with
      | framed e => rw [kept.depth_unique first second]
      | registered => exact absurd second.2 (kept.of_framed first).2
      | destroyed => exact absurd (kept.of_framed first).1 (destroyed_dead second)
  | registered =>
      cases q with
      | framed e => exact absurd first.2 (kept.of_framed second).2
      | registered => rfl
      | destroyed => exact absurd first.1 (destroyed_dead second)
  | destroyed =>
      cases q with
      | framed e => exact absurd (kept.of_framed second).1 (destroyed_dead first)
      | registered => exact absurd second.1 (destroyed_dead first)
      | destroyed => rfl

theorem at_of_live (kept : m.Kept) (live : c ∈ m.engine.callbacks) : m.At c .registered ∨ ∃ d, m.At c (.framed d) := by
  by_cases registered : c.token ∈ m.engine.durable
  · exact Or.inl ⟨live, registered⟩
  · right
    obtain ⟨h, hh, hc⟩ := List.mem_flatten.mp ((kept.held c).mpr ⟨live, registered⟩)
    obtain ⟨d, inside, rfl⟩ := List.getElem_of_mem hh
    exact ⟨d, _, List.getElem?_eq_getElem inside, hc⟩

end Kept

/-! ## Destroying callbacks -/

/-- What is left when the callbacks `g` were destroyed, and their tokens have left the registry. -/
structure Left (m : Moment) (g : List Callback) (m' : Moment) : Prop where
  drops : { m.engine with durable := m'.engine.durable }.Drops g m'.engine
  live : ∀ c ∈ g, c ∈ m.engine.callbacks
  apart : (g.map (·.serial)).Nodup
  registry : ∀ t, t ∈ m'.engine.durable ↔ t ∈ m.engine.durable ∧ ∀ c ∈ g, c.token ≠ t
  nodup : m'.engine.durable.Nodup
  frames : ∀ c, c ∈ m'.frames.flatten ↔ c ∈ m.frames.flatten ∧ c ∉ g
  within : m'.frames.flatten.Sublist m.frames.flatten

namespace Left

theorem callbacks (left : m.Left g m') (kept : m.Kept) : c ∈ m'.engine.callbacks ↔ c ∈ m.engine.callbacks ∧ c ∉ g := by
  rw [left.drops.callbacks, List.mem_filter, decide_eq_true_iff]
  refine and_congr_right fun live => not_congr ?_
  constructor
  · intro listed
    obtain ⟨x, hx, same⟩ := List.mem_map.mp listed
    rw [← kept.eq_of_serial (left.live x hx) live same]
    exact hx
  · exact fun hc => List.mem_map.mpr ⟨c, hc, rfl⟩

theorem destroyed (left : m.Left g m') {n : Nat} :
    n ∈ m'.engine.destroyed ↔ n ∈ g.map (·.serial) ∨ n ∈ m.engine.destroyed := by
  rw [left.drops.destroyed.mem_iff, List.mem_append]
  exact Iff.rfl

theorem kept (left : m.Left g m') (kept : m.Kept) : m'.Kept where
  held c := by
    rw [left.frames, kept.held, left.callbacks kept, left.registry]
    constructor
    · rintro ⟨⟨live, free⟩, out⟩
      exact ⟨⟨live, out⟩, fun registered => free registered.1⟩
    · rintro ⟨⟨live, out⟩, free⟩
      refine ⟨⟨live, fun registered => free ⟨registered, fun x hx same => out ?_⟩⟩, out⟩
      rw [← kept.eq_of_token (left.live x hx) live same]
      exact hx
  apart := List.Nodup.sublist (left.within.map _) kept.apart
  serials := List.Nodup.sublist (left.drops.thins.callbacks.map _) kept.serials
  distinct := left.drops.distinct kept.distinct
  registered t ht := by
    obtain ⟨registered, others⟩ := (left.registry t).mp ht
    obtain ⟨c, live, rfl⟩ := kept.registered t registered
    exact ⟨c, (left.callbacks kept).mpr ⟨live, fun gone => others c gone rfl⟩, rfl⟩
  registry := left.nodup
  once := by
    have split : (g.map (·.serial) ++ m.engine.destroyed).Nodup := by
      refine left.apart.append kept.once fun n gone before => ?_
      obtain ⟨c, hc, rfl⟩ := List.mem_map.mp gone
      exact (kept.live c (left.live c hc)).2 before
    exact left.drops.destroyed.nodup_iff.mpr split
  live c hc := by
    obtain ⟨live, out⟩ := (left.callbacks kept).mp hc
    rw [left.drops.nextCallback, left.destroyed]
    refine ⟨(kept.live c live).1, not_or.mpr ⟨fun gone => out ?_, (kept.live c live).2⟩⟩
    obtain ⟨x, hx, same⟩ := List.mem_map.mp gone
    rw [← kept.eq_of_serial (left.live x hx) live same]
    exact hx
  ended n hn := by
    rw [left.drops.nextCallback]
    rcases left.destroyed.mp hn with gone | before
    · obtain ⟨c, hc, rfl⟩ := List.mem_map.mp gone
      exact (kept.live c (left.live c hc)).1
    · exact kept.ended n before

theorem at_gone (left : m.Left g m') (gone : c ∈ g) : m'.At c .destroyed :=
  left.destroyed.mpr (Or.inl (List.mem_map.mpr ⟨c, gone, rfl⟩))

theorem at_destroyed (left : m.Left g m') (dead : m.At c .destroyed) : m'.At c .destroyed :=
  left.destroyed.mpr (Or.inr dead)

theorem at_registered (left : m.Left g m') (kept : m.Kept) (there : m.At c .registered) (out : c ∉ g) :
    m'.At c .registered := by
  refine ⟨(left.callbacks kept).mpr ⟨there.1, out⟩, (left.registry _).mpr ⟨there.2, fun x hx same => out ?_⟩⟩
  rw [← kept.eq_of_token (left.live x hx) there.1 same]
  exact hx

end Left

/-! ## One move -/

/-- A move keeps order, and every callback goes where its life says. -/
structure Orderly (m : Moment) (mv : Move) (m' : Moment) : Prop where
  kept : m'.Kept
  goes : ∀ c p, m.At c p → m'.At c (c.next mv m'.frames.length p)

theorem orderly_acted (kept : Kept ⟨s, fs⟩) (untouched : s.Untouched s') : Orderly ⟨s, fs⟩ .acted ⟨s', fs⟩ := by
  have left : Left ⟨s, fs⟩ [] ⟨s', fs⟩ := by
    refine ⟨?_, by simp, by simp, ?_, ?_, by simp, .refl _⟩
    · rw [untouched.durable]
      exact untouched.drops
    · simp [untouched.durable]
    · rw [untouched.durable]
      exact kept.registry
  refine ⟨left.kept kept, fun c p there => ?_⟩
  cases p with
  | framed d => exact there
  | registered => exact left.at_registered kept there (by simp)
  | destroyed => exact left.at_destroyed there

theorem Kept.older (kept : Kept ⟨s, fs⟩) (makes : s.Makes h s') {x : Callback} (live : x ∈ s.callbacks) (hc : c ∈ h) :
    x.serial ≠ c.serial :=
  Nat.ne_of_lt (Nat.lt_of_lt_of_le (kept.live x live).1 (makes.serial_between hc).1)

theorem Kept.unregistered (kept : Kept ⟨s, fs⟩) (makes : s.Makes h s') (distinct : s'.Distinct) (hc : c ∈ h) :
    c.token ∉ s.durable := by
  intro registered
  obtain ⟨x, live, same⟩ := kept.registered _ registered
  have both : x = c := List.inj_on_of_nodup_map distinct (makes.mem_callbacks.mpr (Or.inr live))
    (makes.mem_callbacks.mpr (Or.inl hc)) same
  exact kept.older makes live hc (congrArg _ both)

theorem Kept.opened (kept : Kept ⟨s, fs⟩) (makes : s.Makes h s') (distinct : s'.Distinct) : Kept ⟨s', fs ++ [h]⟩ where
  held c := by
    rw [List.flatten_append, List.mem_append, kept.held, makes.mem_callbacks, makes.durable]
    simp only [List.flatten_cons, List.flatten_nil, List.append_nil]
    constructor
    · rintro (⟨live, free⟩ | hc)
      · exact ⟨Or.inr live, free⟩
      · exact ⟨Or.inl hc, kept.unregistered makes distinct hc⟩
    · rintro ⟨hc | live, free⟩
      · exact Or.inr hc
      · exact Or.inl ⟨live, free⟩
  apart := by
    simp only [List.flatten_append, List.flatten_cons, List.flatten_nil, List.append_nil, List.map_append]
    refine kept.apart.append makes.nodup_serials fun n old new => ?_
    obtain ⟨x, hx, rfl⟩ := List.mem_map.mp old
    obtain ⟨c, hc, same⟩ := List.mem_map.mp new
    exact kept.older makes ((kept.held x).mp hx).1 hc same.symm
  serials := by
    rw [makes.callbacks, List.map_append, List.map_reverse]
    refine (List.nodup_reverse.mpr makes.nodup_serials).append kept.serials fun n new old => ?_
    obtain ⟨c, hc, rfl⟩ := List.mem_map.mp (List.mem_reverse.mp new)
    obtain ⟨x, hx, same⟩ := List.mem_map.mp old
    exact kept.older makes hx hc same
  distinct := distinct
  registered t ht := by
    rw [makes.durable] at ht
    obtain ⟨c, live, same⟩ := kept.registered t ht
    exact ⟨c, makes.mem_callbacks.mpr (Or.inr live), same⟩
  registry := by
    rw [makes.durable]
    exact kept.registry
  once := by
    rw [makes.destroyed]
    exact kept.once
  live c hc := by
    rw [makes.destroyed]
    rcases makes.mem_callbacks.mp hc with new | old
    · obtain ⟨first, last⟩ := makes.serial_between new
      exact ⟨last, fun dead => Nat.not_le_of_lt (kept.ended _ dead) first⟩
    · exact ⟨Nat.lt_of_lt_of_le (kept.live c old).1 makes.nextCallback_le, (kept.live c old).2⟩
  ended n hn := by
    rw [makes.destroyed] at hn
    exact Nat.lt_of_lt_of_le (kept.ended n hn) makes.nextCallback_le

theorem orderly_opened (kept : Kept ⟨s, fs⟩) (makes : s.Makes h s') (distinct : s'.Distinct) :
    Orderly ⟨s, fs⟩ (.opened h) ⟨s', fs ++ [h]⟩ := by
  refine ⟨kept.opened makes distinct, fun c p there => ?_⟩
  cases p with
  | framed d =>
      obtain ⟨g, found, hc⟩ := there
      exact ⟨g, by rw [List.getElem?_append_left (List.getElem?_eq_some_iff.mp found).1]; exact found, hc⟩
  | registered =>
      refine ⟨makes.mem_callbacks.mpr (Or.inr there.1), ?_⟩
      rw [makes.durable]
      exact there.2
  | destroyed =>
      simp only [At, Callback.next, makes.destroyed]
      exact there

/-! ## Handing over and giving back -/

/-- What is in the innermost frame is live, in no other frame, and not registered. -/
structure Innermost (s : Engine) (fs : List (List Callback)) (h : List Callback) : Prop where
  live : ∀ c ∈ h, c ∈ s.callbacks
  free : ∀ c ∈ h, c.token ∉ s.durable
  serials : (h.map (·.serial)).Nodup
  tokens : (h.map (·.token)).Nodup
  outer : ∀ c ∈ fs.flatten, c ∉ h

theorem Kept.innermost (kept : Kept ⟨s, fs ++ [h]⟩) : Innermost s fs h := by
  have inside : ∀ c ∈ h, c ∈ (fs ++ [h]).flatten := fun c hc => by
    rw [List.flatten_append, List.mem_append]
    exact Or.inr (by simpa using hc)
  have live : ∀ c ∈ h, c ∈ s.callbacks := fun c hc => ((kept.held c).mp (inside c hc)).1
  have apart : ((fs.flatten ++ h).map (·.serial)).Nodup := by
    have apart := kept.apart
    simpa using apart
  rw [List.map_append, List.nodup_append] at apart
  refine ⟨live, fun c hc => ((kept.held c).mp (inside c hc)).2, apart.2.1, ?_, ?_⟩
  · refine List.Nodup.map_on (fun x hx y hy same => ?_) (List.Nodup.of_map _ apart.2.1)
    exact kept.eq_of_token (live x hx) (live y hy) same
  · exact fun c out hc => apart.2.2 _ (List.mem_map.mpr ⟨c, out, rfl⟩) _ (List.mem_map.mpr ⟨c, hc, rfl⟩) rfl

theorem Innermost.filter (inner : Innermost s fs h) (test : Callback → Bool) : Innermost s fs (h.filter test) where
  live c hc := inner.live c (List.mem_filter.mp hc).1
  free c hc := inner.free c (List.mem_filter.mp hc).1
  serials := List.Nodup.sublist (List.filter_sublist.map _) inner.serials
  tokens := List.Nodup.sublist (List.filter_sublist.map _) inner.tokens
  outer c out hc := inner.outer c out (List.mem_filter.mp hc).1

theorem registerAll_innermost (inner : Innermost s fs h) :
    (EngineM.registerAll h s).2 = { s with durable := s.durable ++ h.map (·.token) } := by
  unfold EngineM.registerAll
  rw [EngineM.registerDurable_all inner.free inner.tokens]

/-- A durable callback leaves the innermost frame, and all others stay where they are. -/
theorem leaves_or_stays {d : Nat} (there : At ⟨s, fs ++ [h]⟩ c (.framed d)) :
    (c.isDurable = true ∧ fs.length + 1 = d + 1) ∧ c ∈ h ∨
    ¬(c.isDurable = true ∧ fs.length + 1 = d + 1) ∧ At ⟨s', fs ++ [h.filter (!·.isDurable)]⟩ c (.framed d) := by
  rcases at_innermost.mp there with ⟨outer, inside⟩ | ⟨rfl, hc⟩
  · exact Or.inr ⟨by omega, at_innermost.mpr (Or.inl ⟨outer, inside⟩)⟩
  · by_cases lasting : c.isDurable = true
    · exact Or.inl ⟨⟨lasting, rfl⟩, hc⟩
    · refine Or.inr ⟨fun both => lasting both.1, at_innermost.mpr (Or.inr ⟨rfl, ?_⟩)⟩
      exact List.mem_filter.mpr ⟨hc, by simpa using lasting⟩

theorem flatten_staying (fs : List (List Callback)) (h : List Callback) :
    (fs ++ [h.filter (!·.isDurable)]).flatten.Sublist (fs ++ [h]).flatten := by
  simp only [List.flatten_append, List.flatten_cons, List.flatten_nil, List.append_nil]
  exact List.filter_sublist.append_left _

theorem Kept.mem_tokens (kept : Kept ⟨s, fs ++ [h]⟩) (live : c ∈ s.callbacks) :
    c.token ∈ (h.filter (·.isDurable)).map (·.token) ↔ c ∈ h ∧ c.isDurable = true := by
  rw [← List.mem_filter]
  constructor
  · intro listed
    obtain ⟨x, hx, same⟩ := List.mem_map.mp listed
    rw [← kept.eq_of_token ((kept.innermost.filter _).live x hx) live same]
    exact hx
  · exact fun hc => List.mem_map.mpr ⟨c, hc, rfl⟩

/-- Durable callbacks leave the frame for the registry, and none is displaced there. -/
theorem Kept.entered (kept : Kept ⟨s, fs ++ [h]⟩) :
    Kept ⟨{ s with durable := s.durable ++ (h.filter (·.isDurable)).map (·.token) }, fs ++ [h.filter (!·.isDurable)]⟩ where
  held c := by
    have before := kept.held c
    simp only [List.flatten_append, List.flatten_cons, List.flatten_nil, List.append_nil, List.mem_append,
      List.mem_filter] at before ⊢
    by_cases live : c ∈ s.callbacks
    · have apart := kept.innermost.outer c
      have free := kept.innermost.free c
      rw [kept.mem_tokens live]
      by_cases own : c ∈ h <;> by_cases lasting : c.isDurable = true <;> simp_all
    · have out : c ∉ fs.flatten ∧ c ∉ h := not_or.mp fun either => live (before.mp either).1
      simp only [out.1, out.2, live, false_and, false_or]
  apart := List.Nodup.sublist ((flatten_staying fs h).map _) kept.apart
  serials := kept.serials
  distinct := kept.distinct
  registered t ht := by
    rcases List.mem_append.mp ht with old | new
    · exact kept.registered t old
    · obtain ⟨c, hc, rfl⟩ := List.mem_map.mp new
      exact ⟨c, (kept.innermost.filter _).live c hc, rfl⟩
  registry := by
    have durable := kept.innermost.filter (·.isDurable)
    refine kept.registry.append durable.tokens fun t old new => ?_
    obtain ⟨c, hc, rfl⟩ := List.mem_map.mp new
    exact durable.free c hc old
  once := kept.once
  live := kept.live
  ended := kept.ended

theorem orderly_entered (kept : Kept ⟨s, fs ++ [h]⟩) : Orderly ⟨s, fs ++ [h]⟩ .entered
    ⟨(EngineM.registerAll (h.filter (·.isDurable)) s).2, fs ++ [h.filter (!·.isDurable)]⟩ := by
  rw [registerAll_innermost (kept.innermost.filter (·.isDurable))]
  refine ⟨kept.entered, fun c p there => ?_⟩
  cases p with
  | framed d =>
      simp only [Callback.next, List.length_append, List.length_singleton]
      rcases leaves_or_stays there with ⟨leaving, hc⟩ | ⟨staying, still⟩
      · have live := kept.innermost.live c hc
        rw [if_pos leaving]
        exact ⟨live, List.mem_append_right _ ((kept.mem_tokens live).mpr ⟨hc, leaving.1⟩)⟩
      · rw [if_neg staying]
        exact still
  | registered => exact ⟨there.1, List.mem_append_left _ there.2⟩
  | destroyed => exact there

/-- What is left when the innermost frame loses some of its callbacks. -/
theorem Left.of_innermost (stay : List Callback) (kept : Kept ⟨s, fs ++ [h]⟩) (drops : s.Drops g s') (gone : ∀ c ∈ g, c ∈ h)
    (apart : (g.map (·.serial)).Nodup) (within : fs'.flatten.Sublist (fs ++ [h]).flatten)
    (frames : fs'.flatten = fs.flatten ++ stay) (rest : ∀ c, c ∈ stay ↔ c ∈ h ∧ c ∉ g) :
    Left ⟨s, fs ++ [h]⟩ g ⟨s', fs'⟩ := by
  have inner := kept.innermost
  refine ⟨?_, fun c hc => inner.live c (gone c hc), apart, ?_, ?_, ?_, within⟩
  · rw [drops.durable]
    exact drops
  · intro t
    rw [drops.durable]
    exact ⟨fun ht => ⟨ht, fun c hc same => inner.free c (gone c hc) (same ▸ ht)⟩, fun both => both.1⟩
  · rw [drops.durable]
    exact kept.registry
  · intro c
    simp only [frames, List.flatten_append, List.flatten_cons, List.flatten_nil, List.append_nil, List.mem_append, rest]
    constructor
    · rintro (outer | ⟨own, out⟩)
      · exact ⟨Or.inl outer, fun hc => inner.outer c outer (gone c hc)⟩
      · exact ⟨Or.inr own, out⟩
    · rintro ⟨outer | own, out⟩
      · exact Or.inl outer
      · exact Or.inr ⟨own, out⟩

theorem orderly_withdrawn (kept : Kept ⟨s, fs ++ [h]⟩) : Orderly ⟨s, fs ++ [h]⟩ .withdrawn
    ⟨(EngineM.withdraw (h.filter (·.isDurable)) s).2, fs ++ [h.filter (!·.isDurable)]⟩ := by
  have durable := kept.innermost.filter (·.isDurable)
  have drops : s.Drops (h.filter (·.isDurable)) (EngineM.withdraw (h.filter (·.isDurable)) s).2 := by
    have steps : (EngineM.withdraw (h.filter (·.isDurable)) s).2 =
        ((((h.filter (·.isDurable)).map Callback.token).forM EngineM.notifyDestroyed : EngineM Unit)
          (EngineM.registerAll (h.filter (·.isDurable)) s).2).2 := rfl
    rw [steps, registerAll_innermost durable]
    exact EngineM.notifyDestroyed_all (d := s.durable)
      (s := { s with durable := s.durable ++ (h.filter (·.isDurable)).map (·.token) }) rfl durable.live kept.distinct
      durable.free durable.tokens durable.serials
  have left : Left ⟨s, fs ++ [h]⟩ (h.filter (·.isDurable))
      ⟨(EngineM.withdraw (h.filter (·.isDurable)) s).2, fs ++ [h.filter (!·.isDurable)]⟩ := by
    refine .of_innermost (h.filter (!·.isDurable)) kept drops (fun c hc => (List.mem_filter.mp hc).1)
      durable.serials (flatten_staying fs h) (by simp) fun c => ?_
    simp only [List.mem_filter, Bool.not_eq_true']
    cases c.isDurable <;> simp
  refine ⟨left.kept kept, fun c p there => ?_⟩
  cases p with
  | framed d =>
      simp only [Callback.next, List.length_append, List.length_singleton]
      rcases leaves_or_stays there with ⟨leaving, hc⟩ | ⟨staying, still⟩
      · rw [if_pos leaving]
        exact left.at_gone (List.mem_filter.mpr ⟨hc, leaving.1⟩)
      · rw [if_neg staying]
        exact still
  | registered => exact left.at_registered kept there fun hc => durable.free c hc there.2
  | destroyed => exact left.at_destroyed there

theorem orderly_closed (kept : Kept ⟨s, fs ++ [h]⟩) (drops : s.Drops h s') : Orderly ⟨s, fs ++ [h]⟩ .closed ⟨s', fs⟩ := by
  have left : Left ⟨s, fs ++ [h]⟩ h ⟨s', fs⟩ := by
    refine .of_innermost [] kept drops (fun _ hc => hc) kept.innermost.serials ?_ (by simp) (by simp)
    rw [List.flatten_append]
    exact List.sublist_append_left _ _
  refine ⟨left.kept kept, fun c p there => ?_⟩
  cases p with
  | framed d =>
      simp only [Callback.next]
      rcases at_innermost.mp there with ⟨outer, inside⟩ | ⟨rfl, hc⟩
      · rw [if_neg (Nat.ne_of_gt outer)]
        exact inside
      · rw [if_pos rfl]
        exact left.at_gone hc
  | registered => exact left.at_registered kept there fun hc => kept.innermost.free c hc there.2
  | destroyed => exact left.at_destroyed there

/-! ## The registry -/

theorem Left.of_registered (kept : Kept ⟨s, fs⟩) {d : List UInt64} (drops : { s with durable := d }.Drops g s')
    (registered : ∀ c ∈ g, c ∈ s.callbacks ∧ c.token ∈ s.durable) (apart : (g.map (·.serial)).Nodup)
    (registry : ∀ t, t ∈ d ↔ t ∈ s.durable ∧ ∀ c ∈ g, c.token ≠ t) (nodup : d.Nodup) :
    Left ⟨s, fs⟩ g ⟨s', fs⟩ := by
  have same : s'.durable = d := drops.durable
  refine ⟨?_, fun c hc => (registered c hc).1, apart, ?_, ?_, fun c => ?_, .refl _⟩
  · rw [same]
    exact drops
  · rw [same]
    exact registry
  · rw [same]
    exact nodup
  · exact ⟨fun hc => ⟨hc, fun gone => ((kept.held c).mp hc).2 (registered c gone).2⟩, fun both => both.1⟩

theorem orderly_notified (kept : Kept ⟨s, fs⟩) (token : UInt64) :
    Orderly ⟨s, fs⟩ (.notified token) ⟨(EngineM.notifyDestroyed token s).2, fs⟩ := by
  by_cases known : token ∈ s.durable
  · obtain ⟨x, live, rfl⟩ := kept.registered token known
    have left : Left ⟨s, fs⟩ [x] ⟨(EngineM.notifyDestroyed x.token s).2, fs⟩ := by
      refine .of_registered kept (EngineM.notifyDestroyed_known known live kept.distinct) ?_ (by simp) (fun t => ?_)
        (kept.registry.filter _)
      · intro c hc
        rw [List.mem_singleton.mp hc]
        exact ⟨live, known⟩
      · simp only [List.mem_filter, bne_iff_ne, List.mem_singleton, forall_eq]
        exact and_congr_right fun _ => ne_comm
    refine ⟨left.kept kept, fun c p there => ?_⟩
    cases p with
    | framed d => exact there
    | registered =>
        simp only [Callback.next]
        by_cases same : x.token = c.token
        · rw [if_pos same]
          exact left.at_gone (by simp [kept.eq_of_token live there.1 same])
        · rw [if_neg same]
          refine left.at_registered kept there fun hc => same ?_
          rw [List.mem_singleton.mp hc]
    | destroyed => exact left.at_destroyed there
  · rw [EngineM.notifyDestroyed_unknown known]
    refine ⟨kept, fun c p there => ?_⟩
    cases p with
    | framed d => exact there
    | registered =>
        simp only [Callback.next]
        rw [if_neg fun same => known (by rw [same]; exact there.2)]
        exact there
    | destroyed => exact there

theorem Kept.mem_registered (kept : m.Kept) :
    c ∈ m.engine.registered ↔ c ∈ m.engine.callbacks ∧ c.token ∈ m.engine.durable := by
  simp only [Engine.registered, List.mem_flatMap, Option.mem_toList]
  constructor
  · rintro ⟨t, ht, hit⟩
    have same : c.token = t := by simpa using List.find?_some hit
    exact ⟨List.mem_of_find?_eq_some hit, same ▸ ht⟩
  · exact fun both => ⟨c.token, both.2, kept.distinct.find? both.1⟩

theorem Kept.tokens_registered (kept : m.Kept) : m.engine.registered.map (·.token) = m.engine.durable := by
  have each : ∀ d : List UInt64, (∀ t ∈ d, ∃ c ∈ m.engine.callbacks, c.token = t) →
      (d.flatMap fun t => (m.engine.callbacks.find? fun c : Callback => c.token == t).toList).map (·.token) = d := by
    intro d listed
    induction d with
    | nil => rfl
    | cons t rest ih =>
        obtain ⟨c, live, rfl⟩ := listed t List.mem_cons_self
        simp only [List.flatMap_cons, kept.distinct.find? live, Option.toList_some, List.singleton_append, List.map_cons]
        rw [ih fun t ht => listed t (List.mem_cons_of_mem _ ht)]
  exact each _ kept.registered

theorem orderly_cleared (kept : Kept ⟨s, fs⟩) : Orderly ⟨s, fs⟩ .cleared ⟨(EngineM.clearDurable s).2, fs⟩ := by
  have all : ∀ c, c ∈ s.registered ↔ c ∈ s.callbacks ∧ c.token ∈ s.durable := fun c => kept.mem_registered
  have left : Left ⟨s, fs⟩ s.registered ⟨(EngineM.clearDurable s).2, fs⟩ := by
    refine .of_registered kept (EngineM.clearDurable_drops s) (fun c hc => (all c).mp hc) ?_ (fun t => ?_) .nil
    · have nodup := kept.registry
      rw [← kept.tokens_registered] at nodup
      refine List.Nodup.map_on (fun x hx y hy same => ?_) (List.Nodup.of_map _ nodup)
      exact kept.eq_of_serial ((all x).mp hx).1 ((all y).mp hy).1 same
    · simp only [List.not_mem_nil, false_iff, not_and, not_forall, not_not]
      intro ht
      obtain ⟨c, live, rfl⟩ := kept.registered t ht
      exact ⟨c, (all c).mpr ⟨live, ht⟩, rfl⟩
  refine ⟨left.kept kept, fun c p there => ?_⟩
  cases p with
  | framed d => exact there
  | registered => exact left.at_gone ((all c).mpr there)
  | destroyed => exact left.at_destroyed there

theorem Step.orderly (step : m.Step mv m') (kept : m.Kept) (distinct : m'.engine.Distinct) : m.Orderly mv m' := by
  cases step with
  | acted untouched => exact orderly_acted kept untouched
  | opened makes => exact orderly_opened kept makes distinct
  | entered => exact orderly_entered kept
  | withdrawn => exact orderly_withdrawn kept
  | notified token => exact orderly_notified kept token
  | cleared => exact orderly_cleared kept
  | closed drops => exact orderly_closed kept drops

end Moment

end Ferry
