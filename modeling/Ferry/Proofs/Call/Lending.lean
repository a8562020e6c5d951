import Ferry.Proofs.Call.Gathering

/-!
# Collecting what was lent

Where nothing is handed over, collecting the outputs makes no copies: every conversion leaves the engine as it was.
Only a structure takes over the buffer that it was returned in. So the buffers that the frame owned are shared out
among the caller, the frame, and what was dropped again since a later output did not convert: `accounts_of_collect`.
-/

set_option autoImplicit false

namespace Ferry

namespace Frame

variable {g f f' : Frame} {s₀ s s' : Engine} {q : Parameter} {k : Nat}

/-! ## Buffers -/

theorem buffers_eq (f : Frame) : f.buffers = f.bufferBlocks.map .block := by
  unfold buffers bufferBlocks
  induction f.bindings with
  | nil => rfl
  | cons b rest ih =>
      rw [List.flatMap_cons, ih]
      cases held : b.buffer with
      | none =>
          rw [List.filterMap_cons_none held]
          rfl
      | some block =>
          rw [List.filterMap_cons_some held]
          rfl

theorem bufferBlocks_update {change : Binding → Binding} (kept : ∀ b, (change b).buffer = b.buffer) (f : Frame) (k : Nat) :
    (f.update k change).bufferBlocks = f.bufferBlocks := by
  have same := buffers_congr (length_bindings_update f k change) fun i => field_update kept f k i
  rw [buffers_eq, buffers_eq] at same
  exact List.map_injective_iff.mpr (fun _ _ same => by cases same; rfl) same

theorem bufferBlocks_taken {block : UInt64} (held : (f.binding k).buffer = some block) :
    f.bufferBlocks.Perm (block :: (f.update k fun b => { b with buffer := none }).bufferBlocks) := by
  have inside : k < f.bindings.length := by
    refine Nat.lt_of_not_le fun outside => ?_
    rw [binding, List.getElem?_eq_none outside] at held
    cases held
  have item : f.bindings[k] = f.binding k := by simp [binding, inside]
  have parts : f.bindings = f.bindings.take k ++ f.bindings[k] :: f.bindings.drop (k + 1) := by
    rw [← List.drop_eq_getElem_cons inside, List.take_append_drop]
  have before : f.bufferBlocks = (f.bindings.take k).filterMap (·.buffer) ++
      block :: (f.bindings.drop (k + 1)).filterMap (·.buffer) := by
    rw [bufferBlocks]
    conv_lhs => rw [parts]
    rw [List.filterMap_append, item, List.filterMap_cons_some held]
  have after : (f.update k fun b => { b with buffer := none }).bufferBlocks =
      (f.bindings.take k).filterMap (·.buffer) ++ (f.bindings.drop (k + 1)).filterMap (·.buffer) := by
    rw [bufferBlocks, update]
    simp only
    rw [List.modify_eq_take_cons_drop inside, List.filterMap_append, List.filterMap_cons_none rfl]
  rw [before, after]
  exact List.perm_middle

/-! ## Steps that read -/

/-- The engine is as it was, and the frame owns the same buffers. -/
structure Unmoved (f₁ : Frame) (s₁ : Engine) (f : Frame) (s : Engine) : Prop where
  engine : s = s₁
  plan : f.plan = f₁.plan
  buffers : f.bufferBlocks = f₁.bufferBlocks

section Reading

variable {f₁ : Frame} {s₁ : Engine} {blame : MarshalError → InvokeFailure}

theorem Unmoved.refl (f : Frame) (s : Engine) : Unmoved f s f s := ⟨rfl, rfl, rfl⟩

theorem keeps_reads {act : MarshalM Value} (h : Reads act) :
    Keeps (Unmoved f₁ s₁) (FrameM.convert blame act) Value.Idle :=
  .convert fun _ s still => ⟨⟨(h s).1.trans still.engine, still.plan, still.buffers⟩, (h s).2⟩

theorem keeps_currentLength (f : Frame) (index : Nat) :
    Keeps (Unmoved f₁ s₁) (FrameM.convert blame (f.currentLength index)) fun _ => True :=
  .convert fun _ s still =>
    ⟨⟨(currentLength_eq f index s).2.trans still.engine, still.plan, still.buffers⟩, fun _ _ => trivial⟩

theorem keeps_collectReturn (lends : f₁.plan.signature.resultTransfer = .nothing) :
    Keeps (Unmoved f₁ s₁) FrameM.collectReturn Value.Idle := by
  unfold FrameM.collectReturn
  refine .bind .get fun f still => ?_
  obtain ⟨s, still⟩ := still
  rw [← still.plan] at lends
  simp only [lends]
  split
  · refine .bind (keeps_currentLength f _) fun n _ => ?_
    exact .bind (.modify fun _ _ h => ⟨h.engine, h.plan, h.buffers⟩) fun _ _ => keeps_reads (arrayFromNative_reads _ _ _ _)
  · exact keeps_reads (fromNative_reads _ _)

theorem keeps_settledCount (l : Nat) : Keeps (Unmoved f₁ s₁) (FrameM.settledCount q l) fun _ => True := by
  unfold FrameM.settledCount
  refine .bind .get fun f _ => ?_
  split
  · exact .pure trivial
  · refine .bind (keeps_currentLength f l) fun n _ => .bind (.modify fun f s h => ?_) fun _ _ => .pure trivial
    exact ⟨h.engine, h.plan, (bufferBlocks_update (by intro b; rfl) f q.index).trans h.buffers⟩

variable (lends : q.transfer = .nothing)

include lends

theorem keeps_collectArray (l : Nat) : Keeps (Unmoved f₁ s₁) (FrameM.collectArray q l) Value.Idle := by
  unfold FrameM.collectArray
  rw [lends]
  split
  · refine .bind (keeps_settledCount l) fun n _ => .bind .get fun f _ => ?_
    simp only
    split
    · exact .bind (.pure (P := fun _ => True) trivial) fun _ _ => keeps_reads (arrayFromNative_reads _ _ _ _)
    · exact .bind (.load _ _) fun _ _ => keeps_reads (arrayFromNative_reads _ _ _ _)
  · exact .throw _

theorem run_collectBuffer_lent {r : Except InvokeFailure Value}
    (run : f.run (FrameM.collectBuffer q) s = ((r, f'), s')) :
    (Unmoved f s f' s' ∧ ∀ v, r = .ok v → v.Idle) ∨
    ∃ layout block, (f.binding q.index).buffer = some block ∧ r = .ok (.boxed ⟨layout, block, true⟩) ∧
      f' = f.update q.index (fun b => { b with buffer := none }) ∧
      s' = { s with owners := increment block 1 s.owners } := by
  unfold FrameM.collectBuffer at run
  rw [run_bind, run_get] at run
  simp only [lends] at run
  cases type : q.type with
  | struct layout =>
      simp only [type] at run
      cases held : (f.binding q.index).buffer with
      | some block =>
          rw [held] at run
          cases run
          exact Or.inr ⟨layout, block, rfl, rfl, rfl, rfl⟩
      | none =>
          rw [held] at run
          cases run
          exact Or.inl ⟨.refl f s, fun v same => by cases same; exact ⟨fun _ => rfl, rfl⟩⟩
  | array element length =>
      simp only [type] at run
      exact Or.inl (keeps_reads (arrayFromNative_reads _ _ _ _) f s r f' s' (.refl f s) run)
  | _ =>
      simp only [type] at run
      exact Or.inl (Keeps.bind (.load _ _) (fun _ _ => keeps_reads (fromNative_reads _ _)) f s r f' s' (.refl f s) run)

/-- The output of a parameter leaves the buffers to the frame, unless it is a structure that was returned in one. -/
theorem run_collectParameter_lent {r : Except InvokeFailure (Option Value)}
    (run : f.run (FrameM.collectParameter q) s = ((r, f'), s')) :
    (Unmoved f s f' s' ∧ ∀ o, r = .ok o → ∀ v ∈ o, v.Idle) ∨
    ∃ layout block, (f.binding q.index).buffer = some block ∧ r = .ok (some (.boxed ⟨layout, block, true⟩)) ∧
      f' = f.update q.index (fun b => { b with buffer := none }) ∧
      s' = { s with owners := increment block 1 s.owners } := by
  have nothing : Keeps (Unmoved f s) (pure none : FrameM (Option Value)) fun o => ∀ v ∈ o, v.Idle := .pure (by simp)
  have some_idle : ∀ v : Value, v.Idle →
      Keeps (Unmoved f s) (pure (some v) : FrameM (Option Value)) fun o => ∀ v ∈ o, v.Idle :=
    fun v idle => .pure (by simpa using idle)
  unfold FrameM.collectParameter at run
  split at run
  · exact Or.inl (nothing f s r f' s' (.refl f s) run)
  · split at run
    · exact Or.inl (nothing f s r f' s' (.refl f s) run)
    · exact Or.inl (nothing f s r f' s' (.refl f s) run)
    · rename_i l _
      exact Or.inl ((keeps_collectArray lends l).bind some_idle f s r f' s' (.refl f s) run)
    · unfold FrameM.collectValue at run
      by_cases given : q.callerAllocates = true
      · rw [if_pos given] at run
        rcases run_bind_cases run with ⟨v, f₂, s₂, found, last⟩ | ⟨e, failed, rfl⟩
        · cases last
          rcases run_collectBuffer_lent lends found with ⟨still, idle⟩ | ⟨layout, block, held, same, rfl, rfl⟩
          · refine Or.inl ⟨still, fun o same v hv => ?_⟩
            cases same
            cases hv
            exact idle v rfl
          · cases same
            exact Or.inr ⟨layout, block, held, rfl, rfl, rfl⟩
        · rcases run_collectBuffer_lent lends failed with ⟨still, -⟩ | ⟨layout, block, -, impossible, -⟩
          · exact Or.inl ⟨still, by simp⟩
          · cases impossible
      · rw [if_neg given, lends] at run
        refine Or.inl (Keeps.bind ?_ some_idle f s r f' s' (.refl f s) run)
        exact .bind .get fun f₂ _ => .bind (.load _ _) fun _ _ => keeps_reads (fromNative_reads _ _)

end Reading

/-! ## The whole collection -/

/-- The outputs that were found so far own some of the buffers, each of them alone, and the frame still owns the others. -/
structure Gathered (g : Frame) (s₀ : Engine) (found : List Value) (f : Frame) (s : Engine) : Prop where
  events : s.events = s₀.events
  plan : f.plan = g.plan
  plain : ∀ v ∈ found, v.Plain
  blocks : (Value.ownedAll found ++ f.bufferBlocks).Perm g.bufferBlocks
  owned : ∀ a ∈ Value.ownedAll found, s.owners.lookup a = some 1
  free : ∀ a ∈ f.bufferBlocks, s.owners.lookup a = none

/-- The buffers that `g` owned were given up, are owned by the caller, or are still owned by the frame. Nothing else was
made or given up. -/
def Accounts (g : Frame) (s₀ : Engine) (owned : List UInt64) (f : Frame) (s : Engine) : Prop :=
  ∃ t lost, s.events = t ++ s₀.events ∧ gains t = [] ∧ (losses t).Perm (lost.map .block) ∧
    (lost ++ owned ++ f.bufferBlocks).Perm g.bufferBlocks

namespace Gathered

variable {found : List Value}

theorem refl {g : Frame} {s₀ : Engine} (free : ∀ a ∈ g.bufferBlocks, s₀.owners.lookup a = none) :
    Gathered g s₀ [] g s₀ :=
  ⟨rfl, rfl, by simp, .refl _, by simp [Value.ownedAll], free⟩

theorem unmoved (h : Gathered g s₀ found f s) (still : Unmoved f s f' s') : Gathered g s₀ found f' s' := by
  obtain ⟨rfl, plan, buffers⟩ := still
  exact ⟨h.events, plan.trans h.plan, h.plain, by rw [buffers]; exact h.blocks, h.owned, by rw [buffers]; exact h.free⟩

theorem idle (h : Gathered g s₀ found f s) {v : Value} (idle : v.Idle) : Gathered g s₀ (v :: found) f s := by
  have same : Value.ownedAll (v :: found) = Value.ownedAll found := by rw [Value.ownedAll, idle.owned, List.nil_append]
  refine ⟨h.events, h.plan, fun w hw => ?_, by rw [same]; exact h.blocks, by rw [same]; exact h.owned, h.free⟩
  rcases List.mem_cons.mp hw with rfl | earlier
  · exact .idle _ idle
  · exact h.plain w earlier

theorem take (h : Gathered g s₀ found f s) (distinct : g.bufferBlocks.Nodup) {layout : Layout} {block : UInt64}
    (held : (f.binding k).buffer = some block) :
    Gathered g s₀ (.boxed ⟨layout, block, true⟩ :: found) (f.update k fun b => { b with buffer := none })
      { s with owners := increment block 1 s.owners } := by
  have taken := bufferBlocks_taken held
  have owns : Value.ownedAll (.boxed ⟨layout, block, true⟩ :: found) = block :: Value.ownedAll found := by
    simp [Value.ownedAll, Value.owned]
  have blocks := h.blocks
  have all := ((taken.append_left (Value.ownedAll found)).symm.trans blocks)
  have apart := all.nodup_iff.mpr distinct
  obtain ⟨-, rest, differ⟩ := List.nodup_append.mp apart
  have other : ∀ a ∈ Value.ownedAll found, a ≠ block := fun a ha => differ a ha block List.mem_cons_self
  have others : ∀ a ∈ (f.update k fun b => { b with buffer := none }).bufferBlocks, a ≠ block := by
    rintro a ha rfl
    exact (List.nodup_cons.mp rest).1 ha
  refine ⟨h.events, h.plan, fun w hw => ?_, ?_, fun a ha => ?_, fun a ha => ?_⟩
  · rcases List.mem_cons.mp hw with rfl | earlier
    · exact .owner layout block
    · exact h.plain w earlier
  · rw [owns]
    exact List.perm_middle.symm.trans all
  · rw [owns] at ha
    rcases List.mem_cons.mp ha with rfl | earlier
    · exact lookup_increment_self (h.free _ (mem_bufferBlocks held))
    · show (increment block 1 s.owners).lookup a = some 1
      rw [lookup_increment_of_ne (other a earlier)]
      exact h.owned a earlier
  · show (increment block 1 s.owners).lookup a = none
    rw [lookup_increment_of_ne (others a ha)]
    exact h.free a (taken.mem_iff.mpr (List.mem_cons_of_mem _ ha))

theorem accounts (h : Gathered g s₀ found f s) : Accounts g s₀ (Value.ownedAll found.reverse) f s :=
  ⟨[], [], h.events, rfl, .refl _, ((ownedAll_reverse_perm found).append_right _).trans h.blocks⟩

theorem dropped (h : Gathered g s₀ found f s) (distinct : g.bufferBlocks.Nodup) :
    Accounts g s₀ [] f (Value.releaseAll found.reverse s).2 := by
  have same := ownedAll_reverse_perm found
  have apart := (List.nodup_append.mp (h.blocks.nodup_iff.mpr distinct)).1
  have drops := releaseAll_givesUp (fun v hv => h.plain v (List.mem_reverse.mp hv)) s (same.nodup_iff.mpr apart)
    fun a ha => h.owned a (same.mem_iff.mp ha)
  obtain ⟨t, events, gains, losses⟩ := drops.moves.events
  refine ⟨t, _, by rw [events, h.events], gains.eq_nil, losses, ?_⟩
  rw [List.append_nil]
  exact (same.append_right _).trans h.blocks

end Gathered

theorem accounts_of_collectParameters {parameters : List Parameter} (distinct : g.bufferBlocks.Nodup)
    (lends : ∀ q ∈ parameters, q.transfer = .nothing) {found : List Value} (h : Gathered g s₀ found f s)
    {r : Except InvokeFailure (List Value)}
    (run : f.run (FrameM.collectParameters parameters found) s = ((r, f'), s')) :
    Accounts g s₀ (Value.ownedAll (r.toOption.getD [])) f' s' := by
  induction parameters generalizing found f s with
  | nil =>
      cases run
      exact h.accounts
  | cons q rest ih =>
      unfold FrameM.collectParameters at run
      have rest_lends : ∀ r ∈ rest, r.transfer = .nothing := fun r hr => lends r (List.mem_cons_of_mem q hr)
      have steps : f.run (tryCatch (FrameM.collectParameter q) fun e => do
          Value.releaseAll found.reverse
          throw e) s = _ := run_tryCatch _ _ f s
      rw [run_bind, steps] at run
      rcases first : f.run (FrameM.collectParameter q) s with ⟨⟨o, f₁⟩, s₁⟩
      rw [first] at run
      rcases run_collectParameter_lent (lends q List.mem_cons_self) first with ⟨still, idle⟩ | ⟨layout, block, held, rfl, rfl, rfl⟩
      · have h₁ := h.unmoved still
        cases o with
        | error e =>
            cases run
            exact h₁.dropped distinct
        | ok o =>
            cases o with
            | none => exact ih rest_lends h₁ run
            | some v => exact ih rest_lends (h₁.idle (idle _ rfl v rfl)) run
      · exact ih rest_lends (h.take distinct held) run

/-- The blocks that the caller owns with what a call yields. -/
def ownedBy (r : Except InvokeFailure Value) : List UInt64 :=
  match r with
  | .ok v => v.owned
  | .error _ => []

theorem owned_composeOutputs (outputs : List Value) : (FrameM.composeOutputs outputs).owned = Value.ownedAll outputs := by
  match outputs with
  | [] => rfl
  | [v] => simp [FrameM.composeOutputs, Value.ownedAll]
  | v :: w :: rest => simp [FrameM.composeOutputs, Value.owned]

/-- Taking a failure report changes nothing where there is none, and otherwise releases the report. -/
theorem takeFailure_cases {r : Except InvokeFailure (Option NativeFailure)}
    (run : g.run FrameM.takeFailure s₀ = ((r, f'), s')) :
    (r = .ok none ∧ f' = g ∧ s' = s₀) ∨ ∃ failure, r = .ok (some failure) ∧ f' = g ∧ s₀.Moves [] [] s' := by
  unfold FrameM.takeFailure at run
  rw [run_bind, run_get] at run
  simp only at run
  rw [run_bind, run_lift] at run
  simp only at run
  split at run
  · cases run
    exact Or.inl ⟨rfl, rfl, rfl⟩
  · have freed := freeFailure_givesUp (s₀.memory.load .pointer g.failure).address s₀
    cases run
    refine Or.inr ⟨_, rfl, rfl, freed.moves.quiet (t := []) rfl rfl rfl ?_ rfl rfl rfl⟩
    exact Nat.le_of_eq (Memory.frontier_store _ _ _ _).symm

theorem accounts_of_collect (distinct : g.bufferBlocks.Nodup) (free : ∀ a ∈ g.bufferBlocks, s₀.owners.lookup a = none)
    (lends : ∀ q ∈ g.plan.parameters, q.transfer = .nothing) (result : g.plan.signature.resultTransfer = .nothing)
    {r : Except InvokeFailure Value} (run : g.run FrameM.collect s₀ = ((r, f'), s')) :
    Accounts g s₀ (ownedBy r) f' s' := by
  unfold FrameM.collect at run
  rcases run_bind_cases run with ⟨failure, f, s, taken, later⟩ | ⟨e, failed, -⟩
  · rcases takeFailure_cases taken with ⟨same, rfl, rfl⟩ | ⟨report, same, rfl, moves⟩
    · cases same
      have others : ∀ {found f₁ s₁ r f' s'}, Gathered f s found f₁ s₁ → f₁.run (do
          let f ← getThe Frame
          return FrameM.composeOutputs (← FrameM.collectParameters f.plan.parameters found)) s₁ = ((r, f'), s') →
          Accounts f s (ownedBy r) f' s' := by
        intro found f₁ s₁ r f' s' gathered run
        rw [run_bind, run_get] at run
        simp only [gathered.plan] at run
        rcases run_bind_cases run with ⟨outputs, f₂, s₂, collected, last⟩ | ⟨e, failed, rfl⟩
        · cases last
          have accounts := accounts_of_collectParameters distinct lends gathered collected
          rw [ownedBy, owned_composeOutputs]
          exact accounts
        · exact accounts_of_collectParameters distinct lends gathered failed
      have start := Gathered.refl free
      simp only at later
      rw [run_bind, run_get] at later
      simp only at later
      split at later
      · exact others start later
      · rw [map_eq_pure_bind] at later
        have returned : Keeps (Unmoved f s) FrameM.collectReturn Value.Idle := keeps_collectReturn result
        have reads := returned.bind (Q := fun found => ∃ v : Value, found = [v] ∧ v.Idle)
          fun v idle => .pure (a := List.singleton v) ⟨v, rfl, idle⟩
        rcases run_bind_cases later with ⟨found, f₁, s₁, first, rest⟩ | ⟨e, failed, rfl⟩
        · obtain ⟨still, yields⟩ := reads f s _ _ _ (.refl f s) first
          obtain ⟨v, rfl, idle⟩ := yields found rfl
          exact others ((start.unmoved still).idle idle) rest
        · exact (start.unmoved (reads f s _ _ _ (.refl f s) failed).1).accounts
    · cases same
      cases later
      obtain ⟨t, events, gains, losses⟩ := moves.events
      exact ⟨t, [], events, gains.eq_nil, losses, .refl _⟩
  · rcases takeFailure_cases failed with ⟨same, -⟩ | ⟨report, same, -⟩ <;> cases same

end Frame

end Ferry
