import Ferry.Proofs.Call.Lending
import Ferry.Proofs.Call.Structures
import Ferry.Proofs.Marshal.Holding

/-!
# The structures that a call yields

Native code that has returned leaves outputs that lead to blocks (`Frame.Offers`). Decoding one of them finds a value whose
structures are copies, borrowed blocks that the output leads to, or a buffer that the frame gives up (`Frame.Finds`), and
finding one after the other keeps those that were found before apart and alive: `gains_collect`.
-/

set_option autoImplicit false

namespace Ferry

namespace Frame

variable {g f f' : Frame} {m : Memory} {s₀ s s' : Engine} {q : Parameter} {arrays structures : Option Nat → UInt64 → Prop}
  {v : Value} {found : List Value}

/-! ## What outputs lead to -/

/-- Each output leads to blocks of its own: the return value to those with the key `none`, and the output of a parameter to
those with its index. The blocks of texts and arrays are told from those of structures. -/
structure Offers (g : Frame) (m : Memory) (arrays structures : Option Nat → UInt64 → Prop) : Prop where
  result : ∀ slot ∈ g.returned, g.plan.signature.result.Leads m (arrays none) (structures none) slot ∧
    g.plan.signature.result.Roomy m slot (g.plan.resultLength.bind (g.lengthShown m))
  outputs : ∀ q ∈ g.plan.parameters, q.isOutput = true →
    (q.callerAllocates = true → ∃ element length, q.type = .array element length) →
      q.type.Leads m (arrays (some q.index)) (structures (some q.index)) (g.held m q) ∧
      ∀ known, g.MayCount m q known → q.type.Roomy m (g.held m q) known
  buffers : ∀ a ∈ g.bufferBlocks, m.Live a

/-- The structures that the caller may find in outputs without owning them. -/
def Borrows (g : Frame) (structures : Option Nat → UInt64 → Prop) (a : UInt64) : Prop :=
  (g.plan.signature.skipsResult = false ∧ g.plan.signature.resultTransfer ≠ .everything ∧ structures none a) ∨
    ∃ q ∈ g.plan.parameters, q.isOutput = true ∧ q.transfer ≠ .everything ∧ structures (some q.index) a

def Furnishes (g : Frame) (a : UInt64) : Prop :=
  ∃ q ∈ g.plan.parameters, (∃ layout, q.type = .struct layout) ∧ (g.binding q.index).buffer = some a

/-- An output is found: nothing is given up, and the output owns nothing but what is new and buffers that the frame does
not own any more. -/
structure Finds (g : Frame) (structures : Option Nat → UInt64 → Prop) (f : Frame) (s : Engine) (v : Value) (f' : Frame)
    (s' : Engine) : Prop where
  grows : s.Grows s'
  buffers : ∃ taken, f.bufferBlocks.Perm (taken ++ f'.bufferBlocks)
  grounded : Grounded (fun a => s.memory.frontier ≤ a.toNat ∨ g.Furnishes a ∧ a ∈ f.bufferBlocks ∧ a ∉ f'.bufferBlocks)
    (g.Borrows structures) s'.memory [v]

theorem Finds.of_decoded (same : f'.bufferBlocks = f.bufferBlocks)
    (decoded : s.Grows s' ∧ Grounded (s.memory.frontier ≤ ·.toNat) (g.Borrows structures) s'.memory [v]) :
    g.Finds structures f s v f' s' :=
  ⟨decoded.1, ⟨[], by rw [same, List.nil_append]⟩, decoded.2.mono (fun _ => Or.inl) fun _ lent => lent⟩

theorem Finds.plain (structures_nil : v.structures = []) (owned : v.owned = []) : g.Finds structures f s v f s :=
  .of_decoded rfl ⟨.refl s, .plain structures_nil owned⟩

/-! ## Single outputs -/

theorem MayCount.none_of_unlinked {known : Option Nat} (unlinked : ∀ l, q.handling ≠ .array l)
    (own : q.callerAllocates = false) (may : g.MayCount m q known) : known = none := by
  cases may with
  | known =>
      rw [leftCount]
      cases handling : q.handling with
      | array l => exact absurd handling (unlinked l)
      | _ => simp [own]
  | shown l _ linked => exact absurd linked (unlinked l)

theorem CountKnown.mayCount {l n : Nat} (h : g.CountKnown m q (some n)) (linked : q.handling = .array l) :
    g.MayCount m q (some n) := by
  generalize known : some n = count at h
  cases h with
  | built =>
      have same : g.leftCount m q = (g.binding q.index).count := by simp [leftCount, linked, ← known]
      rw [← same]
      exact .known
  | shown l' n' linked' out open_ shows =>
      rw [← shows]
      cases direction : q.direction with
      | output => exact .shown l' direction linked'
      | input => simp [direction, Direction.isOut] at out
      | both =>
          have same : g.leftCount m q = g.lengthShown m l' := by simp [leftCount, linked', open_ direction]
          rw [← same]
          exact .known

section Single

variable (offers : g.Offers s₀.memory arrays structures) (placed : g.Placed s₀.memory) (apart : g.cells ≠ g.failure)
  (coherent : g.plan.Coherent) (gathering : Gathering g s₀ f s) (grows : s₀.Grows s)

include offers placed apart coherent gathering grows

theorem finds_collectReturn (shown : g.plan.signature.skipsResult = false) (returned : g.returned ≠ none)
    (run : f.run FrameM.collectReturn s = ((.ok v, f'), s')) : g.Finds structures f s v f' s' := by
  obtain ⟨slot, returned⟩ := Option.ne_none_iff_exists'.mp returned
  obtain ⟨leads, room⟩ := offers.result slot returned
  have leads := leads.later _ (fun b hb _ => grows.chunks b hb) (fun _ own => own) fun _ lent => lent
  have room : ∀ {known}, g.plan.resultLength.bind (g.lengthShown s₀.memory) = known →
      g.plan.signature.result.Roomy s.memory slot known := fun same => by
    rw [← same]
    exact room.later fun b hb _ => ⟨b, grows.chunks b hb, rfl, rfl⟩
  have lends : g.plan.signature.resultTransfer ≠ .everything → ∀ a, structures none a → g.Borrows structures a :=
    fun kept a ha => Or.inl ⟨shown, kept, ha⟩
  unfold FrameM.collectReturn at run
  rw [run_bind, run_get] at run
  simp only [gathering.frame.plan, gathering.frame.returned, returned, Option.getD_some] at run
  split at run
  · rename_i element length index type linked
    obtain ⟨count, f₁, s₁, counting, later⟩ := run_bind_ok run
    have shows :=
      (gathers_currentLength placed apart coherent gathering.frame _ index f s _ f₁ s₁ gathering counting).2 count rfl
    obtain ⟨counted, rfl⟩ := run_convert_ok counting
    have same := (currentLength_eq f index s).2
    rw [counted] at same
    cases same
    obtain ⟨u, f₂, s₂, noted, last⟩ := run_bind_ok later
    cases noted
    obtain ⟨decoded, rfl⟩ := run_convert_ok last
    rw [type] at leads room
    exact .of_decoded rfl (arrayFromNative_grounded leads (room (by rw [linked, Option.bind_some, shows])) lends decoded)
  · obtain ⟨decoded, rfl⟩ := run_convert_ok run
    exact .of_decoded rfl (fromNative_grounded _ (fun _ => leads) lends decoded)

variable (hq : q ∈ g.plan.parameters) (output : q.isOutput = true)

include hq output

theorem finds_collectArray {l : Nat} (linked : q.handling = .array l)
    (run : f.run (FrameM.collectArray q l) s = ((.ok v, f'), s')) : g.Finds structures f s v f' s' := by
  have out : q.direction.isOut = true := by
    simp only [Parameter.isOutput, Bool.and_eq_true] at output
    exact output.2
  obtain ⟨element, type⟩ := coherent.typed hq linked
  obtain ⟨leads, room⟩ := offers.outputs q hq output fun _ => ⟨element, _, type⟩
  unfold FrameM.collectArray at run
  simp only [type] at run
  obtain ⟨count, f₁, s₁, settling, later⟩ := run_bind_ok run
  obtain ⟨still, -⟩ := keeps_settledCount l f s _ f₁ s₁ (.refl f s) settling
  obtain ⟨gathering₁, known⟩ := gathers_settledCount placed apart coherent hq linked out f s _ f₁ s₁ gathering settling
  have engine := still.engine
  subst engine
  rw [run_bind, run_get] at later
  simp only at later
  have decodes : ∀ slot, slot = g.held s₀.memory q →
      f₁.run (FrameM.convert (.ofResult q.name) (arrayFromNative element (.parameter l) slot (some count) q.transfer)) s₁ =
        ((.ok v, f'), s') → g.Finds structures f s₁ v f' s' := by
    rintro slot rfl run
    obtain ⟨decoded, rfl⟩ := run_convert_ok run
    have leads := leads.later _ (fun b hb _ => grows.chunks b hb) (fun _ own => own) fun _ lent => lent
    have room := (room _ ((known count rfl).mayCount linked)).later fun b hb _ => ⟨b, grows.chunks b hb, rfl, rfl⟩
    rw [type] at leads room
    exact .of_decoded still.buffers (arrayFromNative_grounded leads room
      (fun kept a ha => Or.inr ⟨q, hq, output, kept, ha⟩) decoded)
  split at later
  · rename_i given
    rw [run_bind, run_pure] at later
    exact decodes _ (by simp [held, given, gathering₁.frame.slot]) later
  · rename_i own
    rw [run_bind, run_lift] at later
    refine decodes _ ?_ later
    have inside := coherent.index_lt hq
    have word := placed.load_remains (fun b hb _ => grows.chunks b hb) apart inside
    rw [held, if_pos (by simp [out, own]), ← word, Frame.cell, ← gathering₁.frame.cells]
    rfl

omit placed apart coherent in
theorem finds_collectBuffer (normal : q.handling = .normal) (given : q.callerAllocates = true)
    (direction : ∀ element length, q.type = .array element length → q.direction = .output) (distinct : f.bufferBlocks.Nodup)
    (run : f.run (FrameM.collectBuffer q) s = ((.ok v, f'), s')) : g.Finds structures f s v f' s' := by
  unfold FrameM.collectBuffer at run
  rw [run_bind, run_get] at run
  simp only at run
  cases type : q.type with
  | struct layout =>
      simp only [type] at run
      cases provided : (f.binding q.index).buffer with
      | none =>
          rw [provided] at run
          cases run
          exact .plain rfl rfl
      | some block =>
          rw [provided] at run
          cases run
          have taken := bufferBlocks_taken provided
          have held := gathering.frame.buffer q.index
          rw [provided] at held
          have mine := mem_bufferBlocks provided
          refine ⟨⟨.refl [] _, [], rfl, rfl⟩, ⟨[block], taken⟩,
            .owner layout (Or.inr ⟨⟨q, hq, ⟨layout, type⟩, ?_⟩, mine, ?_⟩) ?_⟩
          · rcases held with impossible | same
            · cases impossible
            · exact same.symm
          · exact (List.nodup_cons.mp (taken.nodup_iff.mp distinct)).1
          · exact grows.live (offers.buffers block (gathering.frame.bufferBlocks_subset mine))
  | array element length =>
      simp only [type] at run
      obtain ⟨decoded, rfl⟩ := run_convert_ok run
      obtain ⟨leads, room⟩ := offers.outputs q hq output fun _ => ⟨element, length, type⟩
      have slot : g.held s₀.memory q = (f.binding q.index).slot := by simp [held, given, gathering.frame.slot]
      have count : g.MayCount s₀.memory q (f.binding q.index).count := by
        have known := gathering.frame.count q hq
        generalize (f.binding q.index).count = count at known
        cases known with
        | built =>
            have same : g.leftCount s₀.memory q = (g.binding q.index).count := by
              simp [leftCount, normal, direction element length type, given]
            rw [← same]
            exact .known
        | shown l n linked =>
            rw [normal] at linked
            cases linked
      have leads := leads.later _ (fun b hb _ => grows.chunks b hb) (fun _ own => own) fun _ lent => lent
      have room := (room _ count).later fun b hb _ => ⟨b, grows.chunks b hb, rfl, rfl⟩
      rw [slot, type] at leads room
      exact .of_decoded rfl (arrayFromNative_grounded leads room (fun kept a ha => Or.inr ⟨q, hq, output, kept, ha⟩) decoded)
  | _ =>
      simp only [type] at run
      rw [run_bind] at run
      obtain ⟨decoded, rfl⟩ := run_convert_ok run
      have leads : ∀ x, q.type.Leads s.memory (fun _ => True) (fun _ => False) x := fun x => by
        rw [type]
        first | trivial | exact fun _ => trivial
      rw [type] at leads
      exact .of_decoded rfl (fromNative_grounded _ (fun _ => leads _) (fun _ _ impossible => impossible.elim) decoded)

theorem finds_collectValue (normal : q.handling = .normal)
    (direction : q.callerAllocates = true → ∀ element length, q.type = .array element length → q.direction = .output)
    (distinct : f.bufferBlocks.Nodup) (run : f.run (FrameM.collectValue q) s = ((.ok v, f'), s')) :
    g.Finds structures f s v f' s' := by
  unfold FrameM.collectValue at run
  cases given : q.callerAllocates with
  | true =>
      rw [if_pos given] at run
      exact finds_collectBuffer offers gathering grows hq output normal given (direction given) distinct run
  | false =>
      rw [if_neg (by simp [given]), run_bind, run_get] at run
      simp only at run
      rw [run_bind, run_lift] at run
      obtain ⟨leads, -⟩ := offers.outputs q hq output (by simp [given])
      have leads := leads.later _ (fun b hb _ => grows.chunks b hb) (fun _ own => own) fun _ lent => lent
      have word := placed.load_remains (fun b hb _ => grows.chunks b hb) apart (coherent.index_lt hq)
      have slot : g.held s₀.memory q = (f.loadCell q.index s).1 := by
        have out : q.direction.isOut = true := by
          simp only [Parameter.isOutput, Bool.and_eq_true] at output
          exact output.2
        rw [held, if_pos (by simp [out, given]), ← word, Frame.cell, ← gathering.frame.cells]
        rfl
      rw [slot] at leads
      obtain ⟨decoded, rfl⟩ := run_convert_ok run
      exact .of_decoded rfl
        (fromNative_grounded _ (fun _ => leads) (fun kept a ha => Or.inr ⟨q, hq, output, kept, ha⟩) decoded)

omit hq output in
theorem finds_collectParameter {o : Option Value} (hq : q ∈ g.plan.parameters)
    (direction : q.isOutput = true → q.callerAllocates = true → ∀ element length, q.type = .array element length →
      q.direction = .output)
    (distinct : f.bufferBlocks.Nodup)
    (run : f.run (FrameM.collectParameter q) s = ((.ok o, f'), s')) :
    o = none ∧ f' = f ∧ s' = s ∨ ∃ v, o = some v ∧ g.Finds structures f s v f' s' := by
  unfold FrameM.collectParameter at run
  by_cases out : q.direction.isOut = true
  · rw [if_neg (by simp [out])] at run
    cases handling : q.handling with
    | hidden | callback =>
        simp only [handling] at run
        cases run
        exact Or.inl ⟨rfl, rfl, rfl⟩
    | array l =>
        have output : q.isOutput = true := by simp [Parameter.isOutput, Parameter.isHidden, handling, out]
        simp only [handling] at run
        obtain ⟨v, f₁, s₁, collected, last⟩ := run_bind_ok run
        cases last
        exact Or.inr ⟨v, rfl, finds_collectArray offers placed apart coherent gathering grows hq output handling collected⟩
    | normal =>
        have output : q.isOutput = true := by simp [Parameter.isOutput, Parameter.isHidden, handling, out]
        simp only [handling] at run
        obtain ⟨v, f₁, s₁, collected, last⟩ := run_bind_ok run
        cases last
        exact Or.inr ⟨v, rfl, finds_collectValue offers placed apart coherent gathering grows hq output handling
          (direction output) distinct collected⟩
  · rw [if_pos (by simp [out])] at run
    cases run
    exact Or.inl ⟨rfl, rfl, rfl⟩

end Single

/-! ## All outputs -/

/-- While outputs are collected nothing is given up, and none of the structures in what is found dangles. -/
structure Gains (g : Frame) (s₀ : Engine) (structures : Option Nat → UInt64 → Prop) (found : List Value) (f : Frame)
    (s : Engine) : Prop where
  gathering : Gathering g s₀ f s
  grows : s₀.Grows s
  distinct : f.bufferBlocks.Nodup
  grounded : Grounded (fun a => s₀.memory.frontier ≤ a.toNat ∨ g.Furnishes a) (g.Borrows structures) s.memory found
  given : ∀ a ∈ Value.ownedAll found, a ∉ f.bufferBlocks

theorem Gains.next (h : g.Gains s₀ structures found f s) (live : ∀ a ∈ g.bufferBlocks, s₀.memory.Live a)
    (finds : g.Finds structures f s v f' s') (gathering : Gathering g s₀ f' s') : g.Gains s₀ structures (v :: found) f' s' := by
  obtain ⟨taken, shares⟩ := finds.buffers
  have sub : f'.bufferBlocks ⊆ f.bufferBlocks := fun a ha => shares.mem_iff.mpr (List.mem_append_right taken ha)
  have frontier_le := h.grows.evolves.frontier_le
  refine ⟨gathering, h.grows.trans finds.grows, (List.nodup_append.mp (shares.nodup_iff.mp h.distinct)).2.1,
    h.grounded.cons finds.grounded (fun a => finds.grows.live) (fun a own => ?_) (fun a ha own => ?_), fun a ha held => ?_⟩
  · exact own.imp (Nat.le_trans frontier_le) (·.1)
  · rcases own with new | ⟨-, held, -⟩
    · exact h.grounded.old a ha new
    · exact h.given a ha held
  · rw [Value.ownedAll] at ha
    rcases List.mem_append.mp ha with here | earlier
    · rcases (finds.grounded.owned a (by simpa [Value.ownedAll] using here)).1 with new | ⟨-, -, given⟩
      · have old := (live a (gathering.frame.bufferBlocks_subset held)).toNat_lt
        omega
      · exact given held
    · exact h.given a earlier (sub held)

section Collection

variable (offers : g.Offers s₀.memory arrays structures) (placed : g.Placed s₀.memory) (apart : g.cells ≠ g.failure)
  (coherent : g.plan.Coherent) (direction : ∀ q ∈ g.plan.parameters, q.isOutput = true → q.callerAllocates = true →
    ∀ element length, q.type = .array element length → q.direction = .output)

include offers placed apart coherent direction

theorem gains_collectParameters {parameters : List Parameter} {out : List Value}
    (sub : ∀ q ∈ parameters, q ∈ g.plan.parameters) (h : g.Gains s₀ structures found f s)
    (run : f.run (FrameM.collectParameters parameters found) s = ((.ok out, f'), s')) :
    g.Gains s₀ structures out f' s' := by
  induction parameters generalizing f s found with
  | nil =>
      cases run
      exact { h with grounded := h.grounded.reverse, given := fun a ha => h.given a (mem_ownedAll_reverse.mp ha) }
  | cons q rest ih =>
      unfold FrameM.collectParameters at run
      obtain ⟨o, f₁, s₁, caught, later⟩ := run_bind_ok run
      have collected : f.run (FrameM.collectParameter q) s = ((.ok o, f₁), s₁) := by
        rw [run_tryCatch] at caught
        rcases first : f.run (FrameM.collectParameter q) s with ⟨⟨r, f'⟩, s'⟩
        rw [first] at caught
        cases r with
        | ok a => exact caught
        | error e => cases caught
      have hq := sub q List.mem_cons_self
      have others : ∀ r ∈ rest, r ∈ g.plan.parameters := fun r hr => sub r (List.mem_cons_of_mem q hr)
      rcases finds_collectParameter offers placed apart coherent h.gathering h.grows hq (direction q hq) h.distinct
        collected with ⟨rfl, rfl, rfl⟩ | ⟨v, rfl, finds⟩
      · exact ih others h later
      · have gathering := (gathers_collectParameter placed apart coherent hq f s _ f₁ s₁ h.gathering collected).1
        exact ih others (h.next offers.buffers finds gathering) later

theorem gains_collect (distinct : g.bufferBlocks.Nodup) (returned : g.returned ≠ none)
    (place : ∃ b ∈ s₀.memory.chunks, b.address = g.failure)
    (run : g.run FrameM.collect s₀ = ((.ok v, f'), s')) : (s₀.memory.load .pointer g.failure).isNull = true ∧
      ∃ outputs, v = FrameM.composeOutputs outputs ∧ g.Gains s₀ structures outputs f' s' := by
  unfold FrameM.collect at run
  obtain ⟨failure, f, s, taken, later⟩ := run_bind_ok run
  rcases takeFailure_collected place taken with ⟨same, rfl, rfl, null⟩ | ⟨⟨reported, same⟩, -⟩
  swap
  · cases same
    cases later
  cases same
  refine ⟨null, ?_⟩
  have begun : f.Gains s structures [] f s :=
    ⟨⟨.refl f _, .refl s _ _ _⟩, .refl s, distinct, .nil, fun a ha => by cases ha⟩
  have others : ∀ {found : List Value} {f₁ : Frame} {s₁ : Engine}, f.Gains s structures found f₁ s₁ →
      f₁.run (do
        let f ← getThe Frame
        return FrameM.composeOutputs (← FrameM.collectParameters f.plan.parameters found)) s₁ = ((.ok v, f'), s') →
      ∃ outputs, v = FrameM.composeOutputs outputs ∧ f.Gains s structures outputs f' s' := by
    intro found f₁ s₁ gains run
    rw [run_bind, run_get] at run
    simp only at run
    rw [gains.gathering.frame.plan] at run
    obtain ⟨outputs, f₂, s₂, collected, last⟩ := run_bind_ok run
    cases last
    exact ⟨outputs, rfl, gains_collectParameters offers placed apart coherent direction (fun _ hq => hq) gains collected⟩
  simp only at later
  rw [run_bind, run_get] at later
  simp only at later
  split at later
  · exact others begun later
  · rename_i shown
    rw [map_eq_pure_bind] at later
    obtain ⟨found, f₁, s₁, first, rest⟩ := run_bind_ok later
    obtain ⟨result, f₂, s₂, collected, last⟩ := run_bind_ok first
    cases last
    have finds := finds_collectReturn offers placed apart coherent begun.gathering begun.grows (by simpa using shown)
      returned collected
    have gathering := (gathers_collectReturn placed apart coherent f s _ f₁ s₁ begun.gathering collected).1
    exact others (begun.next offers.buffers finds gathering) rest

end Collection

end Frame

end Ferry
