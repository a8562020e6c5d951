import Ferry.Proofs.Plan.Obtained

/-!
# Dispatch

A virtual function is looked up in the tables of a type and its ancestors. `DispatchChain.Nearest` says without the search
which entry counts: the one of the nearest table that lists the name, whether it is null or not. `DispatchChain.SameFor`
relates chains that differ only in what must not matter. The main result is `dispatch_nearest`: the answer is the entry that
counts unless it is null, it depends on nothing else, and a virtual function is made just when there is an answer, with a
plan that is bound to it.
-/

set_option autoImplicit false

namespace Ferry

namespace DispatchTable

/-- Two chains of tables that agree on a name up to the nearest table that lists it. Other names may have any entries, and
so may everything behind that table. -/
inductive Agree (name : String) : List DispatchTable → List DispatchTable → Prop
  | nil : Agree name [] []
  | passed {t u : DispatchTable} {rest others : List DispatchTable} (missing : t.slot? name = none)
      (missing' : u.slot? name = none) (further : Agree name rest others) : Agree name (t :: rest) (u :: others)
  | listed {t u : DispatchTable} {a : UInt64} (rest others : List DispatchTable) (entry : t.slot? name = some a)
      (entry' : u.slot? name = some a) : Agree name (t :: rest) (u :: others)

theorem findSome?_congr {name : String} {tables others : List DispatchTable} (same : Agree name tables others) :
    tables.findSome? (·.slot? name) = others.findSome? (·.slot? name) := by
  induction same with
  | nil => rfl
  | passed missing missing' _ ih => rw [List.findSome?_cons, List.findSome?_cons, missing, missing', ih]
  | listed rest others entry entry' => rw [List.findSome?_cons, List.findSome?_cons, entry, entry']

end DispatchTable

namespace DispatchChain

/-- The nearest table that lists a name has this entry for it: no table before it lists the name. -/
def Nearest (c : DispatchChain) (name : String) (a : UInt64) : Prop :=
  ∃ nearer t further, c.tables = nearer ++ t :: further ∧ (∀ u ∈ nearer, u.slot? name = none) ∧ t.slot? name = some a

def SameFor (name : String) (c c' : DispatchChain) : Prop :=
  DispatchTable.Agree name c.tables c'.tables

variable {c c' : DispatchChain} {name : String} {a b : UInt64}

theorem nearest_iff : c.Nearest name a ↔ c.tables.findSome? (·.slot? name) = some a := by
  rw [List.findSome?_eq_some_iff]
  constructor
  · rintro ⟨nearer, t, further, tables, missing, entry⟩
    exact ⟨nearer, t, further, tables, entry, missing⟩
  · rintro ⟨nearer, t, further, tables, entry, missing⟩
    exact ⟨nearer, t, further, tables, missing, entry⟩

theorem Nearest.unique (first : c.Nearest name a) (second : c.Nearest name b) : a = b := by
  rw [nearest_iff] at first second
  exact Option.some_inj.mp (first.symm.trans second)

theorem resolve_eq_some_iff : c.resolve name = some a ↔ c.Nearest name a ∧ a ≠ 0 := by
  rw [nearest_iff, resolve]
  cases found : c.tables.findSome? (·.slot? name) with
  | none => simp
  | some x =>
      by_cases null : x = 0
      · simp only [null, if_true, Option.some.injEq]
        exact ⟨nofun, fun both => absurd both.1.symm both.2⟩
      · simp only [null, if_false, Option.some.injEq]
        exact ⟨fun same => ⟨same, same ▸ null⟩, fun both => both.1⟩

theorem resolve_of_nearest_null (hidden : c.Nearest name 0) : c.resolve name = none := by
  rw [Option.eq_none_iff_forall_ne_some]
  intro a found
  obtain ⟨nearest, bound⟩ := resolve_eq_some_iff.mp found
  exact bound (nearest.unique hidden)

theorem resolve_congr (same : SameFor name c c') : c.resolve name = c'.resolve name := by
  rw [resolve, resolve, DispatchTable.findSome?_congr same]

end DispatchChain

/-! ## Virtual functions -/

namespace Plan

/-- The plan for a signature as it was classified, bound to code at an address. Its first argument is the receiver, which
every frame of the plan has a slot for, and native code is never refused for a null address. -/
structure BoundTo (p : Plan) (d : DescriptorRef) (k : Classified) (a : UInt64) : Prop where
  source : p.source = d
  parameters : p.parameters = k.parameters
  counts : p.inputs = k.inputs ∧ p.outputs = k.outputs ∧ p.resultLength = k.resultLength
  address : p.native.address = a
  isMethod : p.isMethod = true
  slotCount : p.slotCount = k.parameters.length + 1 + d.descriptor.signature.canThrow.toNat
  arguments : p.native.arguments = .pointer :: (k.parameters.map Parameter.native ++
    if d.descriptor.signature.canThrow then [.pointer] else [])
  receiver : ∀ f : Frame, f.plan = p → f.slots.head? = some f.receiver
  guarded : ∀ (World : Type) (host : Host World) (slots : List Slot) (M : Machine World),
    (p.native.call host slots M).1 ≠ .error .nullAddress

variable {source : DescriptorRef} {a : UInt64} {s : Engine}

theorem call_not_nullAddress {World : Type} {native : NativeSignature} (bound : native.address ≠ 0) (host : Host World)
    (slots : List Slot) (M : Machine World) : (native.call host slots M).1 ≠ .error .nullAddress := by
  unfold NativeSignature.call
  by_cases length : slots.length ≠ native.arguments.length
  · rw [if_pos length]
    nofun
  · rw [if_neg length, if_neg bound]
    nofun

theorem compileVirtual_refused {e : ClassificationError} (refused : classify source.descriptor.signature = .error e) :
    ∃ s', (compileVirtual source a).run s = (.error (.classification e), s') := by
  refine ⟨(EngineM.freshIdentity s).2, ?_⟩
  unfold compileVirtual compileAt
  rw [ExceptT.run, EngineM.failing_lift]
  simp only [assemble, refused]
  rfl

theorem compileVirtual_ok {k : Classified} (classified : classify source.descriptor.signature = .ok k) (bound : a ≠ 0) :
    ∃ p s', (compileVirtual source a).run s = (.ok p, s') ∧ p.BoundTo source k a := by
  obtain ⟨p, assembled⟩ : ∃ p, assemble s.nextIdentity source a true = .ok p := by
    simp only [assemble, classified]
    exact ⟨_, rfl⟩
  have compiled : ∃ s', (compileVirtual source a).run s = (.ok p, s') := by
    unfold compileVirtual compileAt
    rw [ExceptT.run, EngineM.failing_lift]
    have number : (EngineM.freshIdentity s).1 = s.nextIdentity := rfl
    rw [number, assembled]
    exact ⟨_, rfl⟩
  obtain ⟨s', compiled⟩ := compiled
  refine ⟨p, s', compiled, ?_⟩
  simp only [assemble, classified] at assembled
  cases assembled
  refine ⟨rfl, rfl, ⟨rfl, rfl, rfl⟩, rfl, rfl, rfl, ?_, fun f plan => ?_, fun World host slots M => ?_⟩
  · simp
  · simp [Frame.slots, plan]
  · exact call_not_nullAddress bound host slots M

end Plan

namespace NativeFunction

variable {source : DescriptorRef} {tables : DispatchChain} {s : Engine}

theorem makeVirtual_unresolved (missing : tables.resolve source.descriptor.name = none) :
    (makeVirtual source tables).run s =
      (.error (.unresolvedVirtual source.descriptor.name tables.typeName), s) := by
  simp only [makeVirtual, missing]
  rfl

theorem makeVirtual_resolved {a : UInt64} (found : tables.resolve source.descriptor.name = some a) :
    (makeVirtual source tables).run s = (do
      let plan ← Plan.compileVirtual source a
      EngineM.log (.virtualResolved source.descriptor.name tables.typeName)
      return ⟨source, some plan, some tables.typeName⟩ : InvokeM NativeFunction) s := by
  simp only [makeVirtual, found]
  rfl

theorem makeVirtual_refused {a : UInt64} {e : ClassificationError} (found : tables.resolve source.descriptor.name = some a)
    (refused : classify source.descriptor.signature = .error e) :
    ∃ s', (makeVirtual source tables).run s = (.error (.classification e), s') := by
  obtain ⟨s', compiled⟩ := Plan.compileVirtual_refused (a := a) (s := s) refused
  refine ⟨s', ?_⟩
  rw [ExceptT.run] at compiled
  rw [makeVirtual_resolved found, EngineM.failing_bind, compiled]

theorem makeVirtual_ok {a : UInt64} {k : Classified} (found : tables.resolve source.descriptor.name = some a)
    (classified : classify source.descriptor.signature = .ok k) :
    ∃ p s', (makeVirtual source tables).run s = (.ok ⟨source, some p, some tables.typeName⟩, s') ∧
      p.BoundTo source k a := by
  have bound := (DispatchChain.resolve_eq_some_iff.mp found).2
  obtain ⟨p, s', compiled, holds⟩ := Plan.compileVirtual_ok (s := s) classified bound
  refine ⟨p, (EngineM.log (.virtualResolved source.descriptor.name tables.typeName) s').2, ?_, holds⟩
  rw [ExceptT.run] at compiled
  rw [makeVirtual_resolved found, EngineM.failing_bind, compiled]
  rfl

theorem makeVirtual_unresolved_iff :
    (∃ name implementor s', (makeVirtual source tables).run s = (.error (.unresolvedVirtual name implementor), s')) ↔
      tables.resolve source.descriptor.name = none := by
  refine ⟨?_, fun missing => ⟨_, _, _, makeVirtual_unresolved missing⟩⟩
  rintro ⟨name, implementor, s', failed⟩
  cases found : tables.resolve source.descriptor.name with
  | none => rfl
  | some a =>
      cases classified : classify source.descriptor.signature with
      | error e =>
          obtain ⟨s'', refused⟩ := makeVirtual_refused (s := s) found classified
          rw [failed] at refused
          cases refused
      | ok k =>
          obtain ⟨p, s'', made, -⟩ := makeVirtual_ok (s := s) found classified
          rw [failed] at made
          cases made

end NativeFunction

/-- The nearest table that lists a name decides, and nothing else does. A virtual function is made just when it decides for
code, and then of a plan that is bound to that code. -/
theorem dispatch_nearest (source : DescriptorRef) (tables : DispatchChain) (s : Engine) :
    (∀ name a, tables.resolve name = some a ↔ tables.Nearest name a ∧ a ≠ 0) ∧
    (∀ name, tables.Nearest name 0 → tables.resolve name = none) ∧
    (∀ name others, DispatchChain.SameFor name tables others → tables.resolve name = others.resolve name) ∧
    ((∃ name implementor s',
        (NativeFunction.makeVirtual source tables).run s = (.error (.unresolvedVirtual name implementor), s')) ↔
      tables.resolve source.descriptor.name = none) ∧
    (∀ a k, tables.resolve source.descriptor.name = some a → classify source.descriptor.signature = .ok k →
      ∃ p s', (NativeFunction.makeVirtual source tables).run s = (.ok ⟨source, some p, some tables.typeName⟩, s') ∧
        p.BoundTo source k a) :=
  ⟨fun _ _ => DispatchChain.resolve_eq_some_iff, fun _ => DispatchChain.resolve_of_nearest_null,
    fun _ _ => DispatchChain.resolve_congr, NativeFunction.makeVirtual_unresolved_iff,
    fun _ _ => NativeFunction.makeVirtual_ok⟩

def circle : DispatchChain :=
  ⟨⟨"Circle", [("area", 0x40), ("draw", 0)]⟩, [⟨"Shape", [("draw", 0x10), ("scale", 0x20)]⟩]⟩

/-- What a circle can do may change without making it drawn. -/
def filledCircle : DispatchChain :=
  ⟨⟨"Circle", [("fill", 0x70), ("draw", 0)]⟩, [⟨"Shape", [("draw", 0x30)]⟩, ⟨"Object", [("draw", 0x50)]⟩]⟩

def resizing : DescriptorRef :=
  ⟨0, ⟨⟨"Shape", "scale", [⟨"factor", .double, .input, .nothing, false, false, none, none, .call⟩], .void, .nothing, false,
    false, true⟩, "scale", some .pointer, false, .dispatched⟩⟩

theorem dispatch_nearest_inheriting : circle.resolve "scale" = some 0x20 ∧ circle.resolve "draw" = none ∧
    circle.resolve "draw" = filledCircle.resolve "draw" ∧
    ∃ k p s', classify resizing.descriptor.signature = .ok k ∧
      (NativeFunction.makeVirtual resizing circle).run .initial = (.ok ⟨resizing, some p, some "Circle"⟩, s') ∧
      p.BoundTo resizing k 0x20 := by
  obtain ⟨decides, hides, only, -, makes⟩ := dispatch_nearest resizing circle .initial
  have inherited : circle.Nearest "scale" 0x20 :=
    ⟨[circle.implementor], ⟨"Shape", [("draw", 0x10), ("scale", 0x20)]⟩, [], rfl, by decide, by decide⟩
  have hidden : circle.Nearest "draw" 0 := ⟨[], circle.implementor, circle.ancestors, rfl, by decide, by decide⟩
  have found : circle.resolve "scale" = some 0x20 := (decides _ _).mpr ⟨inherited, by decide⟩
  obtain ⟨k, classified⟩ : ∃ k, classify resizing.descriptor.signature = .ok k := ⟨_, rfl⟩
  obtain ⟨p, s', made, bound⟩ := makes _ k found classified
  exact ⟨found, hides _ hidden, only _ _ (.listed (a := 0) _ _ (by decide) (by decide)), k, p, s', classified, made, bound⟩

end Ferry
