import Ferry.Proofs.Engine.Sparing
import Ferry.Proofs.Engine.Untouched

/-!
# Plans that are kept

Compiled plans are kept, by their descriptor and by the function they belong to. Only what was compiled is kept, so every
plan that a function is called with is coherent (`functionPlan_spec`), and looking for one leaves callbacks and blocks alone.
-/

set_option autoImplicit false

namespace Ferry

theorem mem_of_lookup {α β : Type} [BEq α] [LawfulBEq α] {l : List (α × β)} {k : α} {b : β} (found : l.lookup k = some b) :
    (k, b) ∈ l := by
  obtain ⟨before, behind, split, -⟩ := List.lookup_eq_some_iff.mp found
  rw [split]
  exact List.mem_append_right _ List.mem_cons_self

theorem quiet_entryAddress (d : Descriptor) : Quiet d.entryAddress := by
  unfold Descriptor.entryAddress
  split
  · split
    · exact .throw _
    · exact .ok _
  · intro s
    rw [EngineM.failing_get]
    cases s.platform.resolve _ d.symbol with
    | ok a => exact Quiet.failing_lift (EngineM.quiet_log _) (fun _ => .ok _) s
    | error e => exact Quiet.throw _ s
  · exact .throw _

theorem quiet_compile (source : DescriptorRef) : Quiet (Plan.compile source) := by
  refine .failing_bind (quiet_entryAddress _) fun address => .failing_lift EngineM.quiet_freshIdentity fun id => ?_
  split
  · exact .throw _
  · exact .failing_lift (EngineM.quiet_log _) fun _ => .ok _

theorem planFor_spec (source : DescriptorRef) (s : Engine) :
    s.Untouched (planFor source s).2 ∧ (s.PlansCoherent → ∀ p, (planFor source s).1 = .ok p → p.Coherent) := by
  have quiet := quiet_compile source s
  have compiled : ∀ p, (Plan.compile source s).1 = .ok p → p.Coherent := fun p ok =>
    Plan.Obtained.coherent (.compiled source s (Plan.compile source s).2 (Prod.ext ok rfl))
  unfold planFor
  rw [EngineM.failing_get]
  split
  · exact ⟨quiet, fun _ => compiled⟩
  · cases found : s.plans.lookup source.id with
    | some plan =>
        refine ⟨.refl s, fun coherent p same => ?_⟩
        cases same
        exact coherent.kept _ _ (mem_of_lookup found)
    | none =>
        simp only
        rw [EngineM.failing_bind]
        rcases made : Plan.compile source s with ⟨r, s'⟩
        rw [made] at quiet compiled
        cases r with
        | error e => exact ⟨quiet, fun _ _ impossible => by cases impossible⟩
        | ok plan =>
            have coherent := compiled plan rfl
            refine ⟨quiet.trans ⟨rfl, rfl, rfl, rfl, Nat.le_refl _, fun before => ⟨fun id q listed => ?_, before.bound⟩⟩, ?_⟩
            · rcases List.mem_cons.mp listed with same | old
              · cases same
                exact coherent
              · exact before.kept id q old
            · intro _ q same
              cases same
              exact coherent

theorem functionPlan_spec (function : Nat) (s : Engine) :
    s.Untouched (functionPlan function s).2 ∧ (s.PlansCoherent → ∀ p, (functionPlan function s).1 = .ok p → p.Coherent) := by
  unfold functionPlan
  rw [EngineM.failing_get]
  cases found : s.functions.lookup function with
  | none => exact ⟨.refl s, fun _ _ impossible => by cases impossible⟩
  | some f =>
      cases bound : f.plan with
      | some plan =>
          simp only [bound]
          refine ⟨.refl s, fun coherent p same => ?_⟩
          cases same
          exact coherent.bound _ f _ (mem_of_lookup found) bound
      | none =>
          simp only [bound]
          obtain ⟨quiet, compiled⟩ := planFor_spec f.source s
          rw [EngineM.failing_bind]
          rcases made : planFor f.source s with ⟨r, s'⟩
          rw [made] at quiet compiled
          cases r with
          | error e => exact ⟨quiet, fun _ _ impossible => by cases impossible⟩
          | ok plan =>
              refine ⟨⟨quiet.callbacks, quiet.durable, quiet.nextCallback, quiet.destroyed, quiet.frontier_le,
                fun before => ⟨(quiet.plans before).kept, fun id g q listed kept => ?_⟩⟩, fun before q same => ?_⟩
              · have coherent := compiled before plan rfl
                obtain ⟨⟨id', g'⟩, old, changed⟩ := List.mem_map.mp listed
                by_cases here : id' = function
                · simp only [here, if_true] at changed
                  cases changed
                  cases kept
                  exact coherent
                · simp only [here, if_false] at changed
                  cases changed
                  exact (quiet.plans before).bound _ _ q old kept
              · cases same
                exact compiled before plan rfl

/-! ## Blocks -/

section Spares

variable {a : UInt64}

theorem entryAddress_spares (d : Descriptor) (s : Engine) : s.Spares a (d.entryAddress s).2 := by
  unfold Descriptor.entryAddress
  cases d.entry with
  | address x => by_cases null : x = 0 <;> simp only [null, if_true, if_false] <;> exact .refl a s
  | symbol library =>
      simp only
      rw [EngineM.failing_get]
      cases s.platform.resolve library d.symbol with
      | ok x => exact EngineM.log_spares a _ s
      | error e => exact .refl a s
  | dispatched => exact .refl a s

theorem compileAt_spares (source : DescriptorRef) (address : UInt64) (isMethod : Bool) (s : Engine) :
    s.Spares a (Plan.compileAt source address isMethod s).2 := by
  have numbered : s.Spares a { s with nextIdentity := s.nextIdentity + 1 } := .of_memory (t := []) rfl rfl rfl rfl
  unfold Plan.compileAt
  rw [EngineM.failing_lift]
  cases assembled : Plan.assemble (EngineM.freshIdentity s).1 source address isMethod with
  | error e => exact numbered
  | ok p => exact numbered.trans (EngineM.log_spares a _ _)

theorem compile_spares (source : DescriptorRef) (s : Engine) : s.Spares a (Plan.compile source s).2 := by
  have resolved := entryAddress_spares (a := a) source.descriptor s
  unfold Plan.compile
  rw [EngineM.failing_bind]
  rcases found : source.descriptor.entryAddress s with ⟨r, t⟩
  rw [found] at resolved
  cases r with
  | error e => exact resolved
  | ok address => exact resolved.trans (compileAt_spares source address _ t)

theorem planFor_spares (source : DescriptorRef) (s : Engine) : s.Spares a (planFor source s).2 := by
  have compiles := compile_spares (a := a) source s
  unfold planFor
  rw [EngineM.failing_get]
  split
  · exact compiles
  · cases found : s.plans.lookup source.id with
    | some plan => exact .refl a s
    | none =>
        simp only
        rw [EngineM.failing_bind]
        rcases made : Plan.compile source s with ⟨r, t⟩
        rw [made] at compiles
        cases r with
        | error e => exact compiles
        | ok plan => exact compiles.trans (.of_memory (t := []) rfl rfl rfl rfl)

theorem functionPlan_spares (function : Nat) (s : Engine) : s.Spares a (functionPlan function s).2 := by
  unfold functionPlan
  rw [EngineM.failing_get]
  cases found : s.functions.lookup function with
  | none => exact .refl a s
  | some f =>
      cases bound : f.plan with
      | some plan =>
          simp only [bound]
          exact .refl a s
      | none =>
          simp only [bound]
          have looks := planFor_spares (a := a) f.source s
          rw [EngineM.failing_bind]
          rcases made : planFor f.source s with ⟨r, t⟩
          rw [made] at looks
          cases r with
          | error e => exact looks
          | ok plan => exact looks.trans (.of_memory (t := []) rfl rfl rfl rfl)

end Spares

end Ferry
