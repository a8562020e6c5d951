import Ferry.Proofs.Plan.Keeping

/-!
# What the plan cache serves

The cache keeps plans under the address of their descriptor, and a freed address can be taken by another descriptor.
`Holdings` are the descriptors and plans in memory with those who hold them: a plan lives while the cache or a caller
holds it, and a descriptor while a caller or a live plan does. One step lemma for each operation gives `Sound`: what is
kept under an address belongs to the descriptor that lives there. From it follows `served_of_run`: whatever happened
before, the plan for a descriptor is that of the descriptor itself, and the same as if it were compiled afresh.
-/

set_option autoImplicit false

namespace Ferry

/-! ## Compiling again -/

/-- Two compilations agree in all but the number of the plan. -/
inductive SameOutcome : Except InvokeError Plan → Except InvokeError Plan → Prop
  | plan (p : Plan) (id : Nat) : SameOutcome (.ok p) (.ok { p with id })
  | error (e : InvokeError) : SameOutcome (.error e) (.error e)

namespace Plan

theorem assemble_renumber (id id' : Nat) (source : DescriptorRef) (address : UInt64) (isMethod : Bool) :
    assemble id' source address isMethod = (assemble id source address isMethod).map fun p => { p with id := id' } := by
  simp only [assemble, bind, Except.bind]
  cases classify source.descriptor.signature <;> rfl

/-- What a compilation does to the engine: it takes numbers, and leaves the platform, the cache and the settings. -/
structure CompilesIn (s s' : Engine) : Prop where
  platform : s'.platform = s.platform
  plans : s'.plans = s.plans
  config : s'.config = s.config
  nextIdentity_le : s.nextIdentity ≤ s'.nextIdentity

theorem entryAddress_cases (platform : Platform) (d : Descriptor) :
    (∃ e, ∀ s : Engine, s.platform = platform → d.entryAddress s = (.error e, s)) ∨
      ∃ a, ∀ s : Engine, s.platform = platform →
        ∃ s', d.entryAddress s = (.ok a, s') ∧ CompilesIn s s' ∧ s'.nextIdentity = s.nextIdentity := by
  unfold Descriptor.entryAddress
  cases d.entry with
  | address a =>
      by_cases null : a = 0
      · exact Or.inl ⟨_, fun s _ => by simp only [null, if_true]; rfl⟩
      · refine Or.inr ⟨a, fun s _ => ⟨s, ?_, ⟨rfl, rfl, rfl, Nat.le_refl _⟩, rfl⟩⟩
        simp only [null, if_false]
        rfl
  | symbol library =>
      cases resolved : platform.resolve library d.symbol with
      | ok a =>
          refine Or.inr ⟨a, fun s here => ⟨(EngineM.log (.symbolResolved library d.symbol) s).2, ?_,
            ⟨rfl, rfl, rfl, Nat.le_refl _⟩, rfl⟩⟩
          dsimp only
          rw [EngineM.failing_get, here]
          simp only [resolved]
          rfl
      | error e =>
          refine Or.inl ⟨.symbol e, fun s here => ?_⟩
          dsimp only
          rw [EngineM.failing_get, here]
          simp only [resolved]
          rfl
  | dispatched => exact Or.inl ⟨_, fun s _ => rfl⟩

theorem compileAt_cases (source : DescriptorRef) (address : UInt64) (isMethod : Bool) :
    (∃ e, ∀ s : Engine, compileAt source address isMethod s = (.error e, { s with nextIdentity := s.nextIdentity + 1 })) ∨
      ∃ (p : Plan) (entry : LogEntry), ∀ s : Engine, compileAt source address isMethod s =
        (.ok { p with id := s.nextIdentity },
          { s with nextIdentity := s.nextIdentity + 1, events := .logged entry :: s.events }) := by
  have numbered : ∀ s : Engine, EngineM.freshIdentity s =
      (s.nextIdentity, { s with nextIdentity := s.nextIdentity + 1 }) := fun s => rfl
  cases assembled : assemble 0 source address isMethod with
  | error e =>
      refine Or.inl ⟨.classification e, fun s => ?_⟩
      have refused : assemble s.nextIdentity source address isMethod = .error e := by
        rw [assemble_renumber, assembled]
        rfl
      unfold compileAt
      rw [EngineM.failing_lift, numbered]
      simp only [refused]
      rfl
  | ok p =>
      refine Or.inr ⟨p, .planCompiled source.descriptor.symbol p.inputs p.outputs p.slotCount, fun s => ?_⟩
      have made : assemble s.nextIdentity source address isMethod = .ok { p with id := s.nextIdentity } := by
        rw [assemble_renumber, assembled]
        rfl
      unfold compileAt
      rw [EngineM.failing_lift, numbered]
      simp only [made]
      rfl

theorem compile_cases (platform : Platform) (source : DescriptorRef) :
    (∃ e, ∀ s : Engine, s.platform = platform → ∃ s', compile source s = (.error e, s') ∧ CompilesIn s s') ∨
      ∃ p : Plan, ∀ s : Engine, s.platform = platform →
        ∃ s', compile source s = (.ok { p with id := s.nextIdentity }, s') ∧
          CompilesIn s s' ∧ s.nextIdentity < s'.nextIdentity := by
  rcases entryAddress_cases platform source.descriptor with ⟨e, refused⟩ | ⟨a, found⟩
  · refine Or.inl ⟨e, fun s here => ⟨s, ?_, rfl, rfl, rfl, Nat.le_refl _⟩⟩
    unfold compile
    rw [EngineM.failing_bind, refused s here]
  · have compiled : ∀ s : Engine, s.platform = platform → ∃ s₁ : Engine, CompilesIn s s₁ ∧
        s₁.nextIdentity = s.nextIdentity ∧ compile source s = compileAt source a source.descriptor.isMethod s₁ := by
      intro s here
      obtain ⟨s₁, resolved, only, identity⟩ := found s here
      refine ⟨s₁, only, identity, ?_⟩
      unfold compile
      rw [EngineM.failing_bind, resolved]
    rcases compileAt_cases source a source.descriptor.isMethod with ⟨e, refused⟩ | ⟨p, entry, made⟩
    · refine Or.inl ⟨e, fun s here => ?_⟩
      obtain ⟨s₁, only, identity, same⟩ := compiled s here
      exact ⟨_, same.trans (refused s₁), only.platform, only.plans, only.config,
        identity ▸ Nat.le_succ s₁.nextIdentity⟩
    · refine Or.inr ⟨p, fun s here => ?_⟩
      obtain ⟨s₁, only, identity, same⟩ := compiled s here
      rw [same, made s₁, identity]
      exact ⟨_, rfl, ⟨only.platform, only.plans, only.config, Nat.le_succ _⟩, Nat.lt_succ_self _⟩

theorem compilesIn {source : DescriptorRef} {s s' : Engine} {r : Except InvokeError Plan}
    (run : compile source s = (r, s')) :
    CompilesIn s s' ∧ ∀ p, r = .ok p → p.id = s.nextIdentity ∧ p.id < s'.nextIdentity := by
  rcases compile_cases s.platform source with ⟨e, refused⟩ | ⟨p, made⟩
  · obtain ⟨_, same, only⟩ := refused s rfl
    cases run.symm.trans same
    exact ⟨only, fun _ impossible => nomatch impossible⟩
  · obtain ⟨_, same, only, lt⟩ := made s rfl
    cases run.symm.trans same
    refine ⟨only, fun q ok => ?_⟩
    cases ok
    exact ⟨rfl, lt⟩

theorem sameOutcome_compile (source : DescriptorRef) {s s' : Engine} (platform : s'.platform = s.platform) :
    SameOutcome (compile source s).1 (compile source s').1 := by
  rcases compile_cases s.platform source with ⟨e, refused⟩ | ⟨p, made⟩
  · obtain ⟨_, run, -⟩ := refused s rfl
    obtain ⟨_, run', -⟩ := refused s' platform
    rw [run, run']
    exact .error e
  · obtain ⟨_, run, -⟩ := made s rfl
    obtain ⟨_, run', -⟩ := made s' platform
    rw [run, run']
    exact .plan { p with id := s.nextIdentity } s'.nextIdentity

def CompiledOn (platform : Platform) (p : Plan) : Prop :=
  ∃ s s' : Engine, s.platform = platform ∧ compile p.source s = (.ok p, s')

end Plan

theorem planFor_cases (source : DescriptorRef) (s : Engine) :
    (s.config.invoke.cachePlans = false ∧ planFor source s = Plan.compile source s) ∨
    (s.config.invoke.cachePlans = true ∧
      ((∃ p, s.plans.lookup source.id = some p ∧ planFor source s = (.ok p, s)) ∨
        s.plans.lookup source.id = none ∧
          ((∃ e s', Plan.compile source s = (.error e, s') ∧ planFor source s = (.error e, s')) ∨
            ∃ p s', Plan.compile source s = (.ok p, s') ∧
              planFor source s = (.ok p, { s' with plans := (source.id, p) :: s'.plans })))) := by
  unfold planFor
  rw [EngineM.failing_get]
  cases caching : s.config.invoke.cachePlans with
  | false => exact Or.inl ⟨rfl, rfl⟩
  | true =>
      refine Or.inr ⟨rfl, ?_⟩
      cases found : s.plans.lookup source.id with
      | some p => exact Or.inl ⟨p, rfl, rfl⟩
      | none =>
          refine Or.inr ⟨rfl, ?_⟩
          simp only [Bool.not_true, Bool.false_eq_true, if_false]
          rw [EngineM.failing_bind]
          rcases run : Plan.compile source s with ⟨r, s'⟩
          cases r with
          | error e => exact Or.inl ⟨e, s', rfl, rfl⟩
          | ok p => exact Or.inr ⟨p, s', rfl, rfl⟩

/-! ## Descriptors and plans in memory -/

/-- A descriptor in memory. Its address, `source.id`, tells it from all others that live, and its number from all that
ever lived. -/
structure Allocation where
  number : Nat
  source : DescriptorRef

/-- A plan in memory, with the number of the descriptor that it retains. -/
structure RetainedPlan where
  plan : Plan
  descriptor : Nat

/-- What lives, and who holds it besides the engine: a handle is listed by the number of what it is to. -/
structure Holdings where
  engine : Engine
  descriptors : List Allocation
  plans : List RetainedPlan
  handles : List Nat
  planHandles : List Nat
  made : Nat

namespace Holdings

def initial (engine : Engine) : Holdings := ⟨{ engine with plans := [] }, [], [], [], [], 0⟩

def holdsPlan (s : Holdings) (r : RetainedPlan) : Bool :=
  s.planHandles.contains r.plan.id || s.engine.plans.any (·.2.id == r.plan.id)

/-- Frees the plans that nobody holds any more, and then the descriptors that nobody holds or retains. -/
def sweep (s : Holdings) : Holdings :=
  let plans := s.plans.filter s.holdsPlan
  { s with
    plans
    descriptors := s.descriptors.filter fun a => s.handles.contains a.number || plans.any (·.descriptor == a.number) }

/-- A caller asks for the plan of a descriptor, and holds it if there is one. A plan that is new retains the descriptor
that it was asked for. -/
def request (s : Holdings) (a : Allocation) : Except InvokeError Plan × Holdings :=
  match planFor a.source s.engine with
  | (.error e, engine) => (.error e, { s with engine })
  | (.ok p, engine) =>
    (.ok p, { s with
      engine
      plans := if s.plans.any (·.plan.id == p.id) then s.plans else ⟨p, a.number⟩ :: s.plans
      planHandles := p.id :: s.planHandles })

def setCaching (s : Holdings) (on : Bool) : Holdings :=
  { s with engine.config.invoke.cachePlans := on }

inductive Operation where
  | create (address : Nat) (d : Descriptor)
  | share (descriptor : Nat)
  | drop (descriptor : Nat)
  | request (descriptor : Nat)
  | recover (plan : Nat)
  | dropPlan (plan : Nat)
  | clear
  | setCaching (on : Bool)

/-- What each operation does. A new descriptor may take any address where none lives. -/
inductive Step (s : Holdings) : Operation → Holdings → Prop
  | create (address : Nat) (d : Descriptor) (free : ∀ a ∈ s.descriptors, a.source.id ≠ address) :
    Step s (.create address d) { s with
      descriptors := ⟨s.made, ⟨address, d⟩⟩ :: s.descriptors, handles := s.made :: s.handles, made := s.made + 1 }
  | share (n : Nat) (held : n ∈ s.handles) : Step s (.share n) { s with handles := n :: s.handles }
  | drop (n : Nat) (held : n ∈ s.handles) : Step s (.drop n) ({ s with handles := s.handles.erase n }).sweep
  | request (a : Allocation) (lives : a ∈ s.descriptors) (held : a.number ∈ s.handles) :
    Step s (.request a.number) (s.request a).2
  | recover (r : RetainedPlan) (lives : r ∈ s.plans) (held : r.plan.id ∈ s.planHandles) :
    Step s (.recover r.plan.id) { s with handles := r.descriptor :: s.handles }
  | dropPlan (id : Nat) (held : id ∈ s.planHandles) :
    Step s (.dropPlan id) ({ s with planHandles := s.planHandles.erase id }).sweep
  | clear : Step s .clear ({ s with engine := (EngineM.clearPlans s.engine).2 }).sweep
  | setCaching (on : Bool) : Step s (.setCaching on) (s.setCaching on)

inductive Steps : Holdings → List Operation → Holdings → Prop
  | nil (s : Holdings) : Steps s [] s
  | cons {s s' s'' : Holdings} {o : Operation} {rest : List Operation} (step : Step s o s')
    (later : Steps s' rest s'') : Steps s (o :: rest) s''

/-! ## What every operation keeps -/

/-- Descriptors that live have addresses of their own, plans retain the descriptor that they were compiled from, and
the cache keeps each plan under the address of the descriptor that it retains. -/
structure Sound (s : Holdings) : Prop where
  apart : ∀ a ∈ s.descriptors, ∀ b ∈ s.descriptors, a.source.id = b.source.id → a = b
  numbered : ∀ a ∈ s.descriptors, ∀ b ∈ s.descriptors, a.number = b.number → a = b
  number_lt : ∀ a ∈ s.descriptors, a.number < s.made
  id_lt : ∀ r ∈ s.plans, r.plan.id < s.engine.nextIdentity
  single : ∀ r ∈ s.plans, ∀ q ∈ s.plans, r.plan.id = q.plan.id → r = q
  retains : ∀ r ∈ s.plans, r.plan.CompiledOn s.engine.platform ∧
    ∃ a ∈ s.descriptors, a.number = r.descriptor ∧ a.source = r.plan.source
  cached : ∀ key p, (key, p) ∈ s.engine.plans → key = p.source.id ∧ ∃ r ∈ s.plans, r.plan = p

theorem sound_initial (engine : Engine) : (initial engine).Sound where
  apart _ listed := nomatch listed
  numbered _ listed := nomatch listed
  number_lt _ listed := nomatch listed
  id_lt _ listed := nomatch listed
  single _ listed := nomatch listed
  retains _ listed := nomatch listed
  cached _ _ listed := nomatch listed

variable {s s' : Holdings} {a : Allocation} {p : Plan}

theorem mem_plans_sweep {r : RetainedPlan} : r ∈ s.sweep.plans ↔ r ∈ s.plans ∧ s.holdsPlan r = true :=
  List.mem_filter

theorem mem_descriptors_of_sweep (lives : a ∈ s.sweep.descriptors) : a ∈ s.descriptors :=
  (List.mem_filter.mp lives).1

theorem mem_descriptors_sweep {r : RetainedPlan} (lives : a ∈ s.descriptors) (retained : r ∈ s.sweep.plans)
    (number : r.descriptor = a.number) : a ∈ s.sweep.descriptors := by
  have found : s.sweep.plans.any (·.descriptor == a.number) = true :=
    List.any_eq_true.mpr ⟨r, retained, beq_iff_eq.mpr number⟩
  exact List.mem_filter.mpr ⟨lives, Bool.or_eq_true_iff.mpr (Or.inr found)⟩

theorem holdsPlan_of_cached {r : RetainedPlan} {key : Nat} (kept : (key, r.plan) ∈ s.engine.plans) :
    s.holdsPlan r = true :=
  Bool.or_eq_true_iff.mpr (Or.inr (List.any_eq_true.mpr ⟨_, kept, beq_iff_eq.mpr rfl⟩))

theorem Sound.sweep (h : s.Sound) : s.sweep.Sound where
  apart a ha b hb := h.apart a (mem_descriptors_of_sweep ha) b (mem_descriptors_of_sweep hb)
  numbered a ha b hb := h.numbered a (mem_descriptors_of_sweep ha) b (mem_descriptors_of_sweep hb)
  number_lt a ha := h.number_lt a (mem_descriptors_of_sweep ha)
  id_lt r hr := h.id_lt r (mem_plans_sweep.mp hr).1
  single r hr q hq := h.single r (mem_plans_sweep.mp hr).1 q (mem_plans_sweep.mp hq).1
  retains r hr := by
    obtain ⟨compiled, a, lives, number, source⟩ := h.retains r (mem_plans_sweep.mp hr).1
    exact ⟨compiled, a, mem_descriptors_sweep lives hr number.symm, number, source⟩
  cached key p kept := by
    obtain ⟨same, r, lives, rfl⟩ := h.cached key p kept
    exact ⟨same, r, mem_plans_sweep.mpr ⟨lives, holdsPlan_of_cached kept⟩, rfl⟩

theorem Sound.with_handles (h : s.Sound) (handles planHandles : List Nat) :
    ({ s with handles, planHandles } : Holdings).Sound :=
  ⟨h.apart, h.numbered, h.number_lt, h.id_lt, h.single, h.retains, h.cached⟩

theorem Sound.with_engine (h : s.Sound) {engine : Engine} (platform : engine.platform = s.engine.platform)
    (identity : s.engine.nextIdentity ≤ engine.nextIdentity) (plans : ∀ x ∈ engine.plans, x ∈ s.engine.plans) :
    ({ s with engine } : Holdings).Sound :=
  ⟨h.apart, h.numbered, h.number_lt, fun r hr => Nat.lt_of_lt_of_le (h.id_lt r hr) identity, h.single,
    fun r hr => by rw [platform]; exact h.retains r hr, fun key p kept => h.cached key p (plans _ kept)⟩

theorem Sound.create (h : s.Sound) {address : Nat} (d : Descriptor)
    (free : ∀ a ∈ s.descriptors, a.source.id ≠ address) :
    ({ s with
      descriptors := ⟨s.made, ⟨address, d⟩⟩ :: s.descriptors, handles := s.made :: s.handles, made := s.made + 1 } :
      Holdings).Sound where
  apart := by
    intro a ha b hb same
    rcases List.mem_cons.mp ha with rfl | ha <;> rcases List.mem_cons.mp hb with rfl | hb
    · rfl
    · exact absurd same.symm (free b hb)
    · exact absurd same (free a ha)
    · exact h.apart a ha b hb same
  numbered := by
    intro a ha b hb same
    rcases List.mem_cons.mp ha with rfl | ha <;> rcases List.mem_cons.mp hb with rfl | hb
    · rfl
    · exact absurd same.symm (Nat.ne_of_lt (h.number_lt b hb))
    · exact absurd same (Nat.ne_of_lt (h.number_lt a ha))
    · exact h.numbered a ha b hb same
  number_lt := by
    intro a ha
    rcases List.mem_cons.mp ha with rfl | ha
    · exact Nat.lt_succ_self _
    · exact Nat.lt_succ_of_lt (h.number_lt a ha)
  id_lt := h.id_lt
  single := h.single
  retains r hr := by
    obtain ⟨compiled, a, lives, rest⟩ := h.retains r hr
    exact ⟨compiled, a, List.mem_cons_of_mem _ lives, rest⟩
  cached := h.cached

/-! ## Asking for a plan -/

/-- The outcomes of a request: the descriptor is refused, its plan is found in the cache, or a new plan is made, which
the cache takes if it is in use. -/
inductive Serves (s : Holdings) (a : Allocation) : Except InvokeError Plan → Holdings → Prop
  | refused (e : InvokeError) (engine : Engine) (compiled : Plan.compile a.source s.engine = (.error e, engine)) :
    Serves s a (.error e) { s with engine }
  | found (p : Plan) (caching : s.engine.config.invoke.cachePlans = true)
    (kept : s.engine.plans.lookup a.source.id = some p) (retained : ⟨p, a.number⟩ ∈ s.plans) :
    Serves s a (.ok p) { s with planHandles := p.id :: s.planHandles }
  | made (p : Plan) (compiling engine : Engine) (compiled : Plan.compile a.source s.engine = (.ok p, compiling))
    (platform : engine.platform = compiling.platform) (identity : engine.nextIdentity = compiling.nextIdentity)
    (plans : engine.plans = s.engine.plans ∧ s.engine.config.invoke.cachePlans = false ∨
      engine.plans = (a.source.id, p) :: s.engine.plans ∧ s.engine.plans.lookup a.source.id = none) :
    Serves s a (.ok p) { s with engine, plans := ⟨p, a.number⟩ :: s.plans, planHandles := p.id :: s.planHandles }

theorem Sound.retained_of_cached (h : s.Sound) (lives : a ∈ s.descriptors) (kept : (a.source.id, p) ∈ s.engine.plans) :
    ⟨p, a.number⟩ ∈ s.plans ∧ p.source = a.source := by
  obtain ⟨key, ⟨q, number⟩, retained, rfl⟩ := h.cached _ _ kept
  obtain ⟨-, b, alive, rfl, source⟩ := h.retains _ retained
  obtain rfl := h.apart a lives b alive (by rw [key, source])
  exact ⟨retained, source.symm⟩

theorem Sound.new_of_compile (h : s.Sound) {engine : Engine}
    (compiled : Plan.compile a.source s.engine = (.ok p, engine)) : ∀ r ∈ s.plans, r.plan.id ≠ p.id := fun r hr same =>
  Nat.lt_irrefl _ (((Plan.compilesIn compiled).2 p rfl).1 ▸ same ▸ h.id_lt r hr)

theorem request_new {engine : Engine} (run : planFor a.source s.engine = (.ok p, engine))
    (new : ∀ r ∈ s.plans, r.plan.id ≠ p.id) :
    s.request a = (.ok p,
      { s with engine, plans := ⟨p, a.number⟩ :: s.plans, planHandles := p.id :: s.planHandles }) := by
  have absent : s.plans.any (·.plan.id == p.id) = false := by
    simpa only [List.any_eq_false, beq_iff_eq] using new
  simp only [request, run, absent, Bool.false_eq_true, if_false]

theorem Sound.request_found (h : s.Sound) (lives : a ∈ s.descriptors)
    (caching : s.engine.config.invoke.cachePlans = true) (kept : s.engine.plans.lookup a.source.id = some p) :
    s.request a = (.ok p, { s with planHandles := p.id :: s.planHandles }) := by
  rcases planFor_cases a.source s.engine with ⟨off, -⟩ | ⟨-, ⟨q, found, run⟩ | ⟨none, -⟩⟩
  · rw [caching] at off
    cases off
  · obtain rfl : q = p := Option.some.inj (found.symm.trans kept)
    have known : s.plans.any (·.plan.id == q.id) = true :=
      List.any_eq_true.mpr ⟨_, (h.retained_of_cached lives (mem_of_lookup kept)).1, beq_iff_eq.mpr rfl⟩
    simp only [request, run, known, if_true]
  · rw [kept] at none
    cases none

theorem Sound.serves (h : s.Sound) (lives : a ∈ s.descriptors) : s.Serves a (s.request a).1 (s.request a).2 := by
  rcases planFor_cases a.source s.engine with
    ⟨off, run⟩ | ⟨on, ⟨q, kept, -⟩ | ⟨none, ⟨e, engine, compiled, run⟩ | ⟨q, engine, compiled, run⟩⟩⟩
  · rcases compiled : Plan.compile a.source s.engine with ⟨_ | q, engine⟩
    · simp only [request, run, compiled]
      exact .refused _ engine compiled
    · rw [request_new (run.trans compiled) (h.new_of_compile compiled)]
      exact .made q engine engine compiled rfl rfl (Or.inl ⟨(Plan.compilesIn compiled).1.plans, off⟩)
  · rw [h.request_found lives on kept]
    exact .found q on kept (h.retained_of_cached lives (mem_of_lookup kept)).1
  · simp only [request, run]
    exact .refused e engine compiled
  · rw [request_new run (h.new_of_compile compiled)]
    refine .made q engine _ compiled rfl rfl (Or.inr ⟨?_, none⟩)
    rw [← (Plan.compilesIn compiled).1.plans]

theorem Sound.request (h : s.Sound) (lives : a ∈ s.descriptors) : (s.request a).2.Sound := by
  have outcome := h.serves lives
  generalize (s.request a).1 = r, (s.request a).2 = after at outcome ⊢
  cases outcome with
  | refused e engine compiled =>
      have only := (Plan.compilesIn compiled).1
      exact h.with_engine only.platform only.nextIdentity_le fun x kept => only.plans ▸ kept
  | found p => exact h.with_handles s.handles _
  | made p compiling engine compiled platform identity plans =>
      obtain ⟨only, numbered⟩ := Plan.compilesIn compiled
      obtain ⟨number, number_lt⟩ := numbered p rfl
      have source : p.source = a.source := Plan.source_of_compile compiled
      have new := h.new_of_compile compiled
      refine ⟨h.apart, h.numbered, h.number_lt, ?_, ?_, ?_, ?_⟩
      · intro r hr
        rcases List.mem_cons.mp hr with rfl | hr
        · exact identity ▸ number_lt
        · exact identity ▸ Nat.lt_of_lt_of_le (h.id_lt r hr) only.nextIdentity_le
      · intro r hr q hq same
        rcases List.mem_cons.mp hr with rfl | hr <;> rcases List.mem_cons.mp hq with rfl | hq
        · rfl
        · exact absurd same.symm (new q hq)
        · exact absurd same (new r hr)
        · exact h.single r hr q hq same
      · intro r hr
        rw [platform.trans only.platform]
        rcases List.mem_cons.mp hr with rfl | hr
        · exact ⟨⟨s.engine, compiling, rfl, source ▸ compiled⟩, a, lives, rfl, source.symm⟩
        · exact h.retains r hr
      · intro key q kept
        have old : (key, q) ∈ s.engine.plans → key = q.source.id ∧ ∃ r ∈ ⟨p, a.number⟩ :: s.plans, r.plan = q := by
          intro kept
          obtain ⟨same, r, hr, rfl⟩ := h.cached key q kept
          exact ⟨same, r, List.mem_cons_of_mem _ hr, rfl⟩
        rcases plans with ⟨unchanged, -⟩ | ⟨taken, -⟩
        · exact old (unchanged ▸ kept)
        · rcases List.mem_cons.mp (taken ▸ kept) with same | kept
          · cases same
            exact ⟨by rw [source], ⟨p, a.number⟩, List.mem_cons_self, rfl⟩
          · exact old kept

theorem Sound.step (h : s.Sound) {o : Operation} (step : Step s o s') : s'.Sound := by
  cases step with
  | create address d free => exact h.create d free
  | share n => exact h.with_handles _ s.planHandles
  | drop n => exact (h.with_handles _ s.planHandles).sweep
  | request a lives => exact h.request lives
  | recover r => exact h.with_handles _ s.planHandles
  | dropPlan id => exact (h.with_handles s.handles _).sweep
  | clear =>
      have cleared : ∀ x ∈ (EngineM.clearPlans s.engine).2.plans, x ∈ s.engine.plans := fun x kept =>
        absurd kept List.not_mem_nil
      have before : ({ s with engine := (EngineM.clearPlans s.engine).2 } : Holdings).Sound :=
        h.with_engine rfl (Nat.le_refl _) cleared
      exact before.sweep
  | setCaching on => exact h.with_engine rfl (Nat.le_refl _) fun x kept => kept

theorem Sound.steps (h : s.Sound) {operations : List Operation} (run : Steps s operations s') : s'.Sound := by
  induction run with
  | nil => exact h
  | cons step _ ih => exact ih (h.step step)

/-! ## Plans that stay -/

/-- The cache keeps the plan for the descriptor, and with it the descriptor. -/
structure Keeps (s : Holdings) (a : Allocation) (p : Plan) : Prop where
  lives : a ∈ s.descriptors
  retained : ⟨p, a.number⟩ ∈ s.plans
  kept : s.engine.plans.lookup a.source.id = some p

theorem Keeps.sweep (h : s.Keeps a p) : s.sweep.Keeps a p := by
  have retained : ⟨p, a.number⟩ ∈ s.sweep.plans :=
    mem_plans_sweep.mpr ⟨h.retained, holdsPlan_of_cached (mem_of_lookup h.kept)⟩
  exact ⟨mem_descriptors_sweep h.lives retained rfl, retained, h.kept⟩

theorem Keeps.step (h : s.Keeps a p) (sound : s.Sound) {o : Operation} (step : Step s o s') (other : o ≠ .clear) :
    s'.Keeps a p := by
  cases step with
  | create => exact ⟨List.mem_cons_of_mem _ h.lives, h.retained, h.kept⟩
  | share => exact ⟨h.lives, h.retained, h.kept⟩
  | drop n =>
      have before : ({ s with handles := s.handles.erase n } : Holdings).Keeps a p := ⟨h.lives, h.retained, h.kept⟩
      exact before.sweep
  | request b lives =>
      have outcome := sound.serves lives
      generalize (s.request b).1 = r, (s.request b).2 = after at outcome ⊢
      cases outcome with
      | refused e engine compiled =>
          exact ⟨h.lives, h.retained, (congrArg _ (Plan.compilesIn compiled).1.plans).trans h.kept⟩
      | found => exact ⟨h.lives, h.retained, h.kept⟩
      | made q compiling engine compiled platform identity plans =>
          refine ⟨h.lives, List.mem_cons_of_mem _ h.retained, ?_⟩
          rcases plans with ⟨unchanged, -⟩ | ⟨taken, absent⟩
          · exact (congrArg _ unchanged).trans h.kept
          · have apart : (a.source.id == b.source.id) = false := by
              refine beq_eq_false_iff_ne.mpr fun same => ?_
              rw [← same, h.kept] at absent
              cases absent
            exact (congrArg _ taken).trans (by rw [List.lookup_cons, apart]; exact h.kept)
  | recover => exact ⟨h.lives, h.retained, h.kept⟩
  | dropPlan id =>
      have before : ({ s with planHandles := s.planHandles.erase id } : Holdings).Keeps a p :=
        ⟨h.lives, h.retained, h.kept⟩
      exact before.sweep
  | clear => exact absurd rfl other
  | setCaching => exact ⟨h.lives, h.retained, h.kept⟩

theorem Keeps.steps (h : s.Keeps a p) (sound : s.Sound) {operations : List Operation}
    (run : Steps s operations s') (other : .clear ∉ operations) : s'.Keeps a p := by
  induction run with
  | nil => exact h
  | cons step _ ih =>
      have kept := h.step sound step fun same => other (List.mem_cons.mpr (Or.inl same.symm))
      exact ih kept (sound.step step) fun later => other (List.mem_cons_of_mem _ later)

theorem Sound.keeps_request (h : s.Sound) (lives : a ∈ s.descriptors)
    (caching : s.engine.config.invoke.cachePlans = true) (served : (s.request a).1 = .ok p) :
    (s.request a).2.Keeps a p := by
  have outcome := h.serves lives
  rw [served] at outcome
  generalize (s.request a).2 = after at outcome
  cases outcome with
  | found _ _ kept retained => exact ⟨lives, retained, kept⟩
  | made _ _ _ _ _ _ plans =>
      refine ⟨lives, List.mem_cons_self, ?_⟩
      rcases plans with ⟨-, off⟩ | ⟨taken, -⟩
      · rw [caching] at off
        cases off
      · exact (congrArg _ taken).trans (by rw [List.lookup_cons, beq_self_eq_true])

/-- The plan lives and retains this very descriptor, which is also the one that it was compiled from. -/
structure Retains (s : Holdings) (p : Plan) (a : Allocation) : Prop where
  lives : a ∈ s.descriptors
  source : p.source = a.source
  retained : ∀ r, r ∈ s.plans ∧ r.plan.id = p.id ↔ r = ⟨p, a.number⟩

theorem Sound.retains_of_mem (h : s.Sound) (retained : ⟨p, a.number⟩ ∈ s.plans) (lives : a ∈ s.descriptors) :
    s.Retains p a := by
  obtain ⟨-, b, alive, number, source⟩ := h.retains _ retained
  obtain rfl := h.numbered b alive a lives number
  refine ⟨lives, source.symm, fun r => ⟨fun ⟨hr, same⟩ => h.single r hr _ retained same, fun same => ?_⟩⟩
  subst same
  exact ⟨retained, rfl⟩

end Holdings

open Holdings in
/-- Whatever was created, dropped, asked for and cleared before, the request for a plan of a descriptor that lives has
the outcome of compiling it, and a plan that is served retains this very descriptor. A request that is refused leaves
the cache as it was. With the cache in use a second request is served the same plan, unless the cache was cleared in
between. -/
theorem served_of_run {engine : Engine} {operations : List Operation} {s : Holdings}
    (run : Steps (.initial engine) operations s) {a : Allocation} (lives : a ∈ s.descriptors) :
    SameOutcome (Plan.compile a.source s.engine).1 (s.request a).1 ∧
    (∀ p, (s.request a).1 = .ok p → (s.request a).2.Retains p a) ∧
    (∀ e, (s.request a).1 = .error e → (s.request a).2.engine.plans = s.engine.plans) ∧
    ∀ p later s', (s.request a).1 = .ok p → s.engine.config.invoke.cachePlans = true →
      Steps (s.request a).2 later s' → .clear ∉ later → s'.engine.config.invoke.cachePlans = true →
      a ∈ s'.descriptors ∧ (s'.request a).1 = .ok p := by
  have sound := (sound_initial engine).steps run
  have after := sound.request lives
  refine ⟨?_, ?_, ?_, ?_⟩
  · have outcome := sound.serves lives
    generalize (s.request a).1 = r, (s.request a).2 = s' at outcome ⊢
    cases outcome with
    | refused e engine compiled =>
        rw [compiled]
        exact .error e
    | found p caching kept retained =>
        obtain ⟨⟨before, _, platform, compiled⟩, -⟩ := sound.retains _ retained
        rw [(sound.retained_of_cached lives (mem_of_lookup kept)).2] at compiled
        have same := Plan.sameOutcome_compile a.source platform
        rwa [compiled] at same
    | made p compiling engine compiled =>
        rw [compiled]
        exact .plan p p.id
  · intro p served
    have outcome := sound.serves lives
    rw [served] at outcome
    generalize (s.request a).2 = s' at outcome after ⊢
    cases outcome with
    | found _ _ _ retained => exact after.retains_of_mem retained lives
    | made => exact after.retains_of_mem List.mem_cons_self lives
  · intro e refused
    have outcome := sound.serves lives
    rw [refused] at outcome
    generalize (s.request a).2 = s' at outcome ⊢
    cases outcome with
    | refused _ _ compiled => exact (Plan.compilesIn compiled).1.plans
  · intro p later s' served caching run' other caching'
    have kept := (sound.keeps_request lives caching served).steps after run' other
    exact ⟨kept.lives, congrArg Prod.fst ((after.steps run').request_found kept.lives caching' kept.kept)⟩

def scaling (name : String) : Descriptor where
  symbol := name
  receiver := none
  isConstructor := false
  entry := .address 0x1000
  signature := {
    namespaceName := "Sample", name, result := .int32, resultTransfer := .nothing, skipResult := false
    mayReturnNull := false, canThrow := false
    params := [⟨"number", .int32, .input, .nothing, false, false, none, none, .call⟩] }

def recycling : List Holdings.Operation :=
  [.create 7 (scaling "double"), .request 0, .drop 0, .dropPlan 0, .clear, .create 7 (scaling "halve")]

open Holdings in
theorem served_of_run_recycling : ∃ s a p, Steps (.initial .initial) recycling s ∧ a ∈ s.descriptors ∧
    a.source = ⟨7, scaling "halve"⟩ ∧ (s.request a).1 = .ok p ∧ (s.request a).2.Retains p a ∧
    ((s.request a).2.request a).1 = .ok p := by
  let first : Allocation := ⟨0, ⟨7, scaling "double"⟩⟩
  let second : Allocation := ⟨1, ⟨7, scaling "halve"⟩⟩
  obtain ⟨s, asked, lives, works, caching, still⟩ : ∃ s, Steps (.initial .initial) recycling s ∧
      second ∈ s.descriptors ∧ (s.request second).1.isOk = true ∧ s.engine.config.invoke.cachePlans = true ∧
      (s.request second).2.engine.config.invoke.cachePlans = true :=
    ⟨_, .cons (.create 7 (scaling "double") fun _ listed => nomatch listed) <|
      .cons (.request first List.mem_cons_self List.mem_cons_self) <|
      .cons (.drop 0 (by decide +kernel)) <|
      .cons (.dropPlan 0 (by decide +kernel)) <|
      .cons .clear <|
      .cons (.create 7 (scaling "halve") fun a listed => by
        have gone : a ∈ ([] : List Allocation) := listed
        exact absurd gone List.not_mem_nil) <|
      .nil _, List.mem_cons_self, by decide +kernel, rfl, rfl⟩
  obtain ⟨-, retains, -, again⟩ := served_of_run asked lives
  rcases served : (s.request second).1 with e | p
  · rw [served] at works
    cases works
  · obtain ⟨-, same⟩ := again p [] _ served caching (.nil _) List.not_mem_nil still
    exact ⟨s, second, p, asked, lives, rfl, served, retains p served, same⟩

end Ferry
