import Ferry.Proofs.Callback.Custody

/-!
# The life of a callback

A `Path` is a sequence of moves, each with the moment that it leads to. From one step to all of them: along a path
every callback follows its life from the moment it is made (`Path.lifeCycle`), and as long as the frames that were
there stay, so does a callback that nobody gives back (`Path.stays`). Tokens are distinct as long as the address
space has room for one more callback (`Path.distinct_of_room`).
-/

set_option autoImplicit false

namespace Ferry

/-- Moves, each with the moment that it leads to. -/
abbrev Course := List (Move × Moment)

inductive Path : Moment → Course → Moment → Prop
  | nil (m : Moment) : Path m [] m
  | cons {m m' m'' : Moment} {mv : Move} {τ : Course} (step : m.Step mv m') (rest : Path m' τ m'') :
    Path m ((mv, m') :: τ) m''

/-- From a place on, a callback is always where its life says, and nowhere else. -/
def Callback.Follows (c : Callback) : Place → Course → Prop
  | _, [] => True
  | p, (mv, m) :: rest =>
    (∀ q, m.At c q ↔ q = c.next mv m.frames.length p) ∧ c.Follows (c.next mv m.frames.length p) rest

/-- The tokens of live callbacks are distinct all the time. -/
def Course.Distinct (τ : Course) : Prop := ∀ x ∈ τ, x.2.engine.Distinct

/-- What is true of all callbacks along the way: each comes from the beginning of a call, is in the frame of that call
first and follows its life from there, and nothing is destroyed twice. -/
structure LifeCycle (τ : Course) : Prop where
  born : ∀ front x back, τ = front ++ x :: back → ∀ c ∈ x.2.engine.callbacks,
    ∃ h m, (.opened h, m) ∈ front ++ [x] ∧ c ∈ h
  follows : ∀ front h m back, τ = front ++ (.opened h, m) :: back → ∀ c ∈ h,
    (∀ q, m.At c q ↔ q = .framed (m.frames.length - 1)) ∧ c.Follows (.framed (m.frames.length - 1)) back
  once : ∀ x ∈ τ, x.2.engine.destroyed.Nodup

namespace Moment

variable {m m' : Moment} {mv : Move}

theorem Step.outcome (step : m.Step mv m') :
    (∃ h, mv = .opened h ∧ m.engine.Makes h m'.engine ∧ m'.frames = m.frames ++ [h]) ∨ m.engine.Thins m'.engine := by
  cases step with
  | acted untouched => exact Or.inr untouched.drops.thins
  | opened makes => exact Or.inl ⟨_, rfl, makes, rfl⟩
  | entered => exact Or.inr (EngineM.registerAll_thins _ _)
  | withdrawn => exact Or.inr (EngineM.withdraw_thins _ _)
  | notified token => exact Or.inr (EngineM.notifyDestroyed_thins token _)
  | cleared => exact Or.inr (EngineM.clearDurable_thins _)
  | closed drops => exact Or.inr drops.thins

theorem Step.frontier_le (step : m.Step mv m') : m.engine.memory.frontier ≤ m'.engine.memory.frontier := by
  rcases step.outcome with ⟨h, -, makes, -⟩ | thins
  · exact makes.frontier_le
  · exact thins.frontier_le

theorem Step.plans (step : m.Step mv m') (coherent : m.engine.PlansCoherent) : m'.engine.PlansCoherent := by
  rcases step.outcome with ⟨h, -, makes, -⟩ | thins
  · exact makes.plans coherent
  · exact thins.plans coherent

end Moment

/-- Every token lies apart from the others, before everything that is made later. -/
structure Engine.Spread (s : Engine) : Prop where
  apart : (s.callbacks.map (·.token.toNat)).Nodup
  behind : ∀ c ∈ s.callbacks, c.token.toNat < s.memory.frontier

namespace Engine.Spread

variable {s s' : Engine} {h : List Callback}

theorem on (platform : Platform) : (Engine.on platform).Spread := ⟨by simp [Engine.on], by simp [Engine.on]⟩

theorem distinct (spread : s.Spread) : s.Distinct := by
  have apart := spread.apart
  have tokens : s.callbacks.map (·.token.toNat) = (s.callbacks.map (·.token)).map (·.toNat) := by simp
  rw [tokens] at apart
  exact List.Nodup.of_map _ apart

theorem thins (spread : s.Spread) (thins : s.Thins s') : s'.Spread where
  apart := List.Nodup.sublist (thins.callbacks.map _) spread.apart
  behind c hc := Nat.lt_of_lt_of_le (spread.behind c (thins.callbacks.subset hc)) thins.frontier_le

theorem makes (spread : s.Spread) (makes : s.Makes h s') (room : s'.memory.frontier + 16 ≤ Memory.limit) : s'.Spread := by
  obtain ⟨ordered, places⟩ := makes.placed room
  constructor
  · rw [makes.callbacks, List.map_append, List.map_reverse]
    have apart : (h.map (·.token.toNat)).Nodup := ordered.imp fun less => Nat.ne_of_lt less
    refine (List.nodup_reverse.mpr apart).append spread.apart fun n new old => ?_
    obtain ⟨c, hc, rfl⟩ := List.mem_map.mp (List.mem_reverse.mp new)
    obtain ⟨x, hx, same⟩ := List.mem_map.mp old
    have := spread.behind x hx
    have := (places c hc).1
    omega
  · intro c hc
    rcases makes.mem_callbacks.mp hc with new | old
    · exact (places c new).2
    · exact Nat.lt_of_lt_of_le (spread.behind c old) makes.frontier_le

end Engine.Spread

namespace Path

variable {m m' m'' : Moment} {τ τ' : Course} {c : Callback} {p : Place}

theorem append (first : Path m τ m') (second : Path m' τ' m'') : Path m (τ ++ τ') m'' := by
  induction first with
  | nil => exact second
  | cons step _ ih => exact .cons step (ih second)

theorem single {mv : Move} (step : m.Step mv m') : Path m [(mv, m')] m' := .cons step (.nil m')

theorem split {front back : Course} (path : Path m (front ++ back) m'') :
    ∃ m', Path m front m' ∧ Path m' back m'' := by
  induction front generalizing m with
  | nil => exact ⟨m, .nil m, path⟩
  | cons x rest ih =>
      cases path with
      | cons step later =>
          obtain ⟨m', before, behind⟩ := ih later
          exact ⟨m', .cons step before, behind⟩

theorem reaches (path : Path m τ m') : m' = m ∨ ∃ mv, (mv, m') ∈ τ := by
  induction path with
  | nil => exact Or.inl rfl
  | cons step _ ih =>
      rcases ih with rfl | ⟨mv, hm⟩
      · exact Or.inr ⟨_, List.mem_cons_self⟩
      · exact Or.inr ⟨mv, List.mem_cons_of_mem _ hm⟩

theorem plans (path : Path m τ m') (coherent : m.engine.PlansCoherent) : m'.engine.PlansCoherent := by
  induction path with
  | nil => exact coherent
  | cons step _ ih => exact ih (step.plans coherent)

theorem frontier_le (path : Path m τ m') : m.engine.memory.frontier ≤ m'.engine.memory.frontier := by
  induction path with
  | nil => exact Nat.le_refl _
  | cons step _ ih => exact Nat.le_trans step.frontier_le ih

theorem distinct_of_room (path : Path m τ m') (spread : m.engine.Spread)
    (room : m'.engine.memory.frontier + 16 ≤ Memory.limit) : Course.Distinct τ := by
  induction path with
  | nil => exact fun x hx => absurd hx (List.not_mem_nil)
  | @cons m m₁ m₂ mv τ step rest ih =>
      have next := rest.frontier_le
      have spread' : m₁.engine.Spread := by
        rcases step.outcome with ⟨h, -, makes, -⟩ | thins
        · exact spread.makes makes (by omega)
        · exact spread.thins thins
      intro x hx
      rcases List.mem_cons.mp hx with rfl | later
      · exact spread'.distinct
      · exact ih spread' room x later

/-! ## All moves -/

theorem kept (path : Path m τ m') (kept : m.Kept) (distinct : Course.Distinct τ) : m'.Kept := by
  induction path with
  | nil => exact kept
  | cons step _ ih =>
      exact ih (step.orderly kept (distinct _ List.mem_cons_self)).kept fun x hx => distinct x (List.mem_cons_of_mem _ hx)

theorem kept_mem (path : Path m τ m') (kept : m.Kept) (distinct : Course.Distinct τ) : ∀ x ∈ τ, x.2.Kept := by
  intro x hx
  obtain ⟨front, back, rfl⟩ := List.append_of_mem hx
  obtain ⟨m₁, before, behind⟩ := path.split
  cases behind with
  | cons step _ =>
      have kept₁ := before.kept kept fun y hy => distinct y (List.mem_append_left _ hy)
      exact (step.orderly kept₁ (distinct _ (List.mem_append_right _ List.mem_cons_self))).kept

theorem follows (path : Path m τ m') (kept : m.Kept) (distinct : Course.Distinct τ) (there : m.At c p) : c.Follows p τ := by
  induction path generalizing p with
  | nil => exact trivial
  | cons step _ ih =>
      have orderly := step.orderly kept (distinct _ List.mem_cons_self)
      have next := orderly.goes c p there
      refine ⟨fun q => ⟨fun here => orderly.kept.unique here next, fun same => same ▸ next⟩, ?_⟩
      exact ih orderly.kept (fun x hx => distinct x (List.mem_cons_of_mem _ hx)) next

theorem born (path : Path m τ m') (live : c ∈ m'.engine.callbacks) :
    c ∈ m.engine.callbacks ∨ ∃ h n, (.opened h, n) ∈ τ ∧ c ∈ h := by
  induction path with
  | nil => exact Or.inl live
  | cons step _ ih =>
      rcases ih live with there | ⟨h, n, later, hc⟩
      · rcases step.outcome with ⟨h, rfl, makes, -⟩ | thins
        · rcases makes.mem_callbacks.mp there with new | old
          · exact Or.inr ⟨h, _, List.mem_cons_self, new⟩
          · exact Or.inl old
        · exact Or.inl (thins.callbacks.subset there)
      · exact Or.inr ⟨h, n, List.mem_cons_of_mem _ later, hc⟩

theorem lifeCycle (path : Path m τ m') (kept : m.Kept) (none_live : m.engine.callbacks = [])
    (distinct : Course.Distinct τ) : LifeCycle τ where
  born front x back split c live := by
    subst split
    have listed : front ++ x :: back = (front ++ [x]) ++ back := by simp
    rw [listed] at path
    obtain ⟨m₁, before, -⟩ := path.split
    have ends : m₁ = x.2 := by
      obtain ⟨m₀, -, last⟩ := before.split
      cases last with
      | cons step rest => cases rest; rfl
    rw [ends] at before
    rcases before.born live with old | made
    · rw [none_live] at old
      exact absurd old (List.not_mem_nil)
    · exact made
  follows front h n back split c hc := by
    subst split
    obtain ⟨m₁, before, behind⟩ := path.split
    have kept₁ := before.kept kept fun y hy => distinct y (List.mem_append_left _ hy)
    cases behind with
    | cons step rest =>
        have orderly := step.orderly kept₁ (distinct _ (List.mem_append_right _ List.mem_cons_self))
        have there : n.At c (.framed (n.frames.length - 1)) := by
          cases step with
          | opened makes => exact ⟨h, by simp, hc⟩
        refine ⟨fun q => ⟨fun here => orderly.kept.unique here there, fun same => same ▸ there⟩, ?_⟩
        exact rest.follows orderly.kept
          (fun y hy => distinct y (List.mem_append_right _ (List.mem_cons_of_mem _ hy))) there
  once x hx := (path.kept_mem kept distinct x hx).once

/-! ## Staying -/

/-- Only frames behind those listed come and go. -/
def Within (fs : List (List Callback)) (τ : Course) : Prop :=
  ∀ x ∈ τ, fs <+: x.2.frames ∧ (x.1 = .entered ∨ x.1 = .withdrawn → fs.length < x.2.frames.length)

theorem stays (path : Path m τ m') (kept : m.Kept) (distinct : Course.Distinct τ) {fs : List (List Callback)}
    (within : Within fs τ) (there : m.At c p) (alive : p ≠ .destroyed) (inside : ∀ d, p = .framed d → d < fs.length)
    (undisturbed : p = .registered → ∀ x ∈ τ, x.1 ≠ .notified c.token ∧ x.1 ≠ .cleared) :
    (∀ x ∈ τ, x.2.At c p) ∧ m'.At c p := by
  induction path with
  | nil => exact ⟨fun x hx => absurd hx (List.not_mem_nil), there⟩
  | @cons m₁ m₂ m₃ mv τ step rest ih =>
      have orderly := step.orderly kept (distinct _ List.mem_cons_self)
      obtain ⟨listed, deeper⟩ : fs <+: m₂.frames ∧ (mv = .entered ∨ mv = .withdrawn → fs.length < m₂.frames.length) :=
        within _ List.mem_cons_self
      have same : c.next mv m₂.frames.length p = p := by
        cases p with
        | framed d =>
            have d_lt := inside d rfl
            have le := listed.length_le
            cases mv with
            | entered =>
                have := deeper (Or.inl rfl)
                exact if_neg (by omega)
            | withdrawn =>
                have := deeper (Or.inr rfl)
                exact if_neg (by omega)
            | closed => exact if_neg (by omega)
            | _ => rfl
        | registered =>
            have quiet := undisturbed rfl _ List.mem_cons_self
            cases mv with
            | notified token => exact if_neg fun hit => quiet.1 (by rw [hit])
            | cleared => exact absurd rfl quiet.2
            | _ => rfl
        | destroyed => exact absurd rfl alive
      have next := orderly.goes c p there
      rw [same] at next
      obtain ⟨all, last⟩ := ih orderly.kept (fun y hy => distinct y (List.mem_cons_of_mem _ hy))
        (fun y hy => within y (List.mem_cons_of_mem _ hy)) next
        fun registered y hy => undisturbed registered y (List.mem_cons_of_mem _ hy)
      refine ⟨fun x hx => ?_, last⟩
      rcases List.mem_cons.mp hx with rfl | later
      · exact next
      · exact all x later

end Path

end Ferry
