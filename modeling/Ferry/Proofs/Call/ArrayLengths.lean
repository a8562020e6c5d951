import Ferry.Proofs.Call.Balance
import Ferry.Proofs.Call.Buffers

/-!
# One length for each array

The element count of a linked array is settled when the frame is built, when the output is collected, or when it is
released. Native code may change the length parameter in between, and the collection may stop early. Here is what all
of them come to: an array of the caller is decoded and released by the number of items that the caller gave, a buffer
by the count that it was made for, and what native code made by what its length parameter holds when native code has
returned. The main result is `lengths_of_execute`.
-/

set_option autoImplicit false

namespace Ferry

variable {World : Type} {host : Host World}

namespace Frame

variable {f f' g h : Frame} {s s' S : Engine} {m : Memory} {q r : Parameter} {p : Plan} {arguments : List Value}

/-! ## The count by which an array is released -/

def releaseCounted (f : Frame) (q : Parameter) (count : Option Nat) : EngineM Unit :=
  match q.type with
  | .array element length =>
    if q.direction = .output && q.callerAllocates then f.releaseBufferContents q element length count
    else do
      let (slot, depth, origin) ← f.remainder q
      freeArray element length slot count depth origin
  | _ => pure ()

theorem releaseArray_counted {l : Nat} (linked : q.handling = .array l) (s : Engine) :
    f.releaseArray q l s = f.releaseCounted q (f.leftCount s.memory q) s := by
  have count : f.leftCount s.memory q = (f.binding q.index).count.or (f.lengthShown s.memory l) := by
    simp only [leftCount, linked]
  cases type : q.type with
  | array element length =>
      rw [releaseArray_eq type, count]
      simp only [releaseCounted, type]
  | _ => simp only [releaseArray, releaseCounted, type]

def afterRelease (f : Frame) (parameters : List Parameter) (s : Engine) : Engine :=
  ((parameters.forM f.releaseParameter : EngineM Unit)
    (EngineM.freeFailure (s.memory.load .pointer f.failure).address s).2).2

/-- When its turn to be released comes, a linked array is released by an element count, if it was built. -/
def ReleasesBy (f : Frame) (s : Engine) (q : Parameter) (count : Option Nat) : Prop :=
  (f.binding q.index).built = true → ∀ front back, f.plan.parameters = front ++ q :: back →
    f.releaseParameter q (f.afterRelease front s) = f.releaseCounted q count (f.afterRelease front s)

theorem afterRelease_chunks (coherent : f.plan.Coherent) {parameters : List Parameter}
    (sub : ∀ q ∈ parameters, q ∈ f.plan.parameters) (s : Engine) (b : Block) :
    b ∈ (f.afterRelease parameters s).memory.chunks ↔ b ∈ s.memory.chunks := by
  have report := freeFailure_givesUp (s.memory.load .pointer f.failure).address s
  have each : List.Forall₂ (f.Loses s.memory) parameters (parameters.map (f.reclaimed s.memory)) := by
    rw [List.forall₂_map_right_iff, List.forall₂_same]
    exact fun q hq => releaseParameter_loses coherent (sub q hq)
  exact (report.trans (Engine.GivesUp.forM each _ report.chunks)).chunks b

theorem releasesBy_leftCount (coherent : f.plan.Coherent) {l : Nat} (linked : q.handling = .array l) (s : Engine) :
    f.ReleasesBy s q (f.leftCount s.memory q) := by
  intro built front back listed
  have same := @afterRelease_chunks f coherent front (fun r hr => by simp [listed, hr]) s
  have count : f.leftCount (f.afterRelease front s).memory q = f.leftCount s.memory q := by
    simp only [leftCount, linked, lengthShown_congr same]
  rw [releaseParameter_built built, ← count]
  simp only [linked]
  exact releaseArray_counted linked _

/-- The element count by which a returned array is released, if anything but its type says one. -/
def resultCount (f : Frame) (m : Memory) : Option Nat :=
  f.returnedCount.or (f.plan.resultLength.bind (f.lengthShown m))

def afterBuffers (f : Frame) (s : Engine) : Engine :=
  ((f.bindings.forM fun b => b.buffer.forM fun block => EngineM.release block true : EngineM Unit)
    (f.afterRelease f.plan.parameters s)).2

/-- When its turn to be released comes, a returned array is released by an element count. -/
def ReleasesResultBy (f : Frame) (s : Engine) (count : Option Nat) : Prop :=
  ∀ slot, f.returned = some slot → ∀ element length, f.plan.signature.result = .array element length →
    f.releaseReturn slot (f.afterBuffers s) =
      freeArray element length slot count (.forTransfer .output f.plan.signature.resultTransfer) .native
        (f.afterBuffers s)

theorem releasesResultBy_resultCount (coherent : f.plan.Coherent) (s : Engine) :
    f.ReleasesResultBy s (f.resultCount s.memory) := by
  intro slot returned element length type
  have same : ∀ b, b ∈ (f.afterBuffers s).memory.chunks ↔ b ∈ s.memory.chunks := fun b =>
    ((f.releaseBuffers_givesUp _).chunks b).trans (afterRelease_chunks coherent (fun _ hq => hq) s b)
  have count : f.resultCount (f.afterBuffers s).memory = f.resultCount s.memory := by
    simp only [resultCount, funext (lengthShown_congr same f)]
  rw [← count]
  exact releaseReturn_eq type slot _

/-! ## The count of an array of the caller -/

theorem Supplies.counted {value : Value} {o : Except InvokeFailure Unit} {l : Nat} (linked : q.handling = .array l)
    (apart : l ≠ q.index) (inside : q.index < f.bindings.length) (h : Supplies q value f s o f' s') :
    (f'.binding q.index).count = some value.elementCount ∨ f' = f ∧ ∃ e, o = .error e := by
  cases h with
  | array l' element length linked' type slot count s₁ r encoded converted passed =>
      rw [linked] at linked'
      cases linked'
      rw [binding_withLength _ apart, binding_update_self inside, elementCount_of_encodeArray converted]
      exact Or.inl rfl
  | lengthRefused l' element length linked' type slot count s₁ e converted refused =>
      rw [binding_update_self inside, elementCount_of_encodeArray converted]
      exact Or.inl rfl
  | arrayRefused => exact Or.inr ⟨rfl, _, rfl⟩
  | refused => exact Or.inr ⟨rfl, _, rfl⟩
  | value normal | valueRefused normal =>
      rw [linked] at normal
      cases normal
  | callback closure destroy scope signature handled | noCallback closure destroy scope signature handled =>
      rw [linked] at handled
      cases handled

theorem BuildStep.counted {o : Except InvokeFailure Unit} {l : Nat} (linked : q.handling = .array l)
    (supplied : q.direction ≠ .output) (apart : l ≠ q.index) (inside : q.index < f.bindings.length)
    (h : BuildStep arguments q f s o f' s') :
    (f'.binding q.index).count = some (q.argument arguments).elementCount ∨ f' = f ∧ ∃ e, o = .error e := by
  cases h with
  | hidden hidden =>
      rw [linked] at hidden
      cases hidden
  | output _ out => exact absurd out supplied
  | input _ _ _ _ supplies => exact supplies.counted linked apart inside
  | both _ _ f₁ s₁ supplies =>
      rcases supplies.counted linked apart inside with count | ⟨-, e, impossible⟩
      · rw [rehomed, binding_update_self (by rw [(supplies.differs supplied).length]; exact inside)]
        exact Or.inl count
      · cases impossible
  | refused _ _ e _ _ supplies => exact supplies.counted linked apart inside

/-- The arrays of the caller that are built so far have the element count of their argument. -/
def Counted (p : Plan) (arguments : List Value) (f : Frame) : Prop :=
  ∀ q ∈ p.parameters, ∀ l, q.handling = .array l → q.direction ≠ .output → (f.binding q.index).built = true →
    (f.binding q.index).count = some (q.argument arguments).elementCount

theorem BuildStep.keeps_counted (coherent : p.Coherent) (hr : r ∈ p.parameters)
    (length : f.bindings.length = p.parameters.length) {o : Except InvokeFailure Unit}
    (h : BuildStep arguments r f s o f' s') (counted : Counted p arguments f) : Counted p arguments f' := by
  intro q hq l linked supplied built
  have visible : q.handling ≠ .hidden := by simp [linked]
  by_cases same : q.index = r.index
  · have own : r = q := by
      have found := coherent.inside hr
      rw [← same, coherent.inside hq] at found
      exact (Option.some.inj found).symm
    subst own
    have apart := coherent.links_apart hr visible l (by simp [Parameter.links_array linked supplied])
    rcases h.counted linked supplied apart (by rw [length]; exact coherent.index_lt hr) with count | ⟨rfl, -⟩
    · exact count
    · exact counted r hr l linked supplied built
  · have kept := coherent.binding_of_step h hr hq visible same
    rw [kept] at built ⊢
    exact counted q hq l linked supplied built

theorem run_counted (coherent : p.Coherent) {parameters : List Parameter} (sub : ∀ q ∈ parameters, q ∈ p.parameters)
    (length : f.bindings.length = p.parameters.length) {o : Except InvokeFailure Unit}
    (run : f.run (parameters.forM (FrameM.buildParameter arguments)) s = ((o, f'), s'))
    (counted : Counted p arguments f) : Counted p arguments f' := by
  induction parameters generalizing f s with
  | nil =>
      cases run
      exact counted
  | cons q rest ih =>
      obtain ⟨hq, sub⟩ := List.forall_mem_cons.mp sub
      rw [run_forM_cons] at run
      rcases run_bind_cases run with ⟨u, f₁, s₁, turn, later⟩ | ⟨e, failed, -⟩
      · have step := run_buildParameter turn
        exact ih sub (step.differs.length.trans length) later (step.keeps_counted coherent hq length counted)
      · exact (run_buildParameter failed).keeps_counted coherent hq length counted

theorem counted_of_build (coherent : p.Coherent) {f₀ : Frame} {s₀ : Engine} {receiver : Option Value}
    (fresh : fresh? p s = (some f₀, s₀)) {o : Except InvokeFailure Unit}
    (build : f₀.run (FrameM.build receiver arguments) s₀ = ((o, f), s')) :
    f.plan = p ∧ Counted p arguments f := by
  have made := (fresh?_some fresh).1
  have plan : f₀.plan = p := by rw [made]; rfl
  rw [run_build] at build
  rcases run_bind_cases build with ⟨u, f₁, s₁, start, turns⟩ | ⟨e, failed, -⟩
  · rw [plan] at turns
    have begun := begun_of_start coherent fresh start
    refine ⟨(run_differs _ turns).plan.trans begun.plan, run_counted coherent (fun _ hq => hq) begun.length turns ?_⟩
    intro q hq l linked supplied built
    rw [begun.blank q.index q (coherent.inside hq) (by simp [linked])] at built
    cases built
  · obtain ⟨rfl, -⟩ := run_start_error failed
    refine ⟨plan, ?_⟩
    intro q hq l linked supplied built
    rw [made, binding_empty] at built
    cases built

/-! ## What is settled when a frame is built -/

/-- The element count of a linked array in a frame that is built. -/
inductive BuiltCount (p : Plan) (arguments : List Value) (q : Parameter) (l : Nat) : Option Nat → Prop
  | supplied (supplied : q.direction ≠ .output) :
    BuiltCount p arguments q l (some (q.argument arguments).elementCount)
  | open_ (out : q.direction = .output) (own : q.callerAllocates = false) : BuiltCount p arguments q l none
  | asked (out : q.direction = .output) (given : q.callerAllocates = true) (n : Nat)
    (asked : p.requested l arguments = .ok n) : BuiltCount p arguments q l (some n)

theorem BuildStep.builtCount {l : Nat} {element : Ty} {length : ArrayLength} (linked : q.handling = .array l)
    (type : q.type = .array element length) (apart : l ≠ q.index) (inside : q.index < f.bindings.length)
    (blank : f.binding q.index = {}) (h : BuildStep arguments q f s (.ok ()) f' s') :
    BuiltCount f.plan arguments q l (f'.binding q.index).count := by
  by_cases out : q.direction = .output
  · cases h with
    | hidden hidden =>
        rw [linked] at hidden
        cases hidden
    | input _ input => rw [out] at input; cases input
    | both _ both => rw [out] at both; cases both
    | output _ _ _ _ _ reserves =>
        cases reserves with
        | cell own =>
            rw [binding_update_self inside, blank]
            exact .open_ out own
        | buffer given count size block s₁ sized made =>
            rw [binding_update_self inside]
            obtain ⟨n, rfl, -, ⟨l', same, asked⟩ | ⟨other, -⟩⟩ := Plan.bufferSize_array type sized
            · rw [linked] at same
              cases same
              exact .asked out given n asked
            · exact absurd linked (other l)
  · rcases h.counted linked out apart inside with count | ⟨-, e, impossible⟩
    · rw [count]
      exact .supplied out
    · cases impossible

theorem builtCount_of_prepare (coherent : p.Coherent) {receiver : Option Value}
    (built : p.prepare receiver arguments s = (.ok f, s')) (hq : q ∈ p.parameters) {l : Nat}
    (linked : q.handling = .array l) : BuiltCount p arguments q l (f.binding q.index).count := by
  have visible : q.handling ≠ .hidden := by simp [linked]
  have found := coherent.inside hq
  obtain ⟨element, type⟩ := coherent.typed hq linked
  obtain ⟨-, f₁, s₁, begun, turns, -⟩ := begun_of_prepare coherent built
  obtain ⟨t, g, t', g', turn⟩ := turn_of_run begun coherent turns found
  obtain ⟨blank, kept, inside⟩ := turn.own begun coherent found visible
  have apart : l ≠ q.index := by
    have handled := coherent.handled q.index q found
    rw [linked] at handled
    exact handled.2.2.1
  have count := turn.step.builtCount linked type apart inside blank
  rw [turn.plan.1, begun.plan] at count
  rw [kept]
  exact count

/-! ## What is decoded -/

/-- Native code has returned, the outputs are collected from the frame `g` in the engine `E`, and the turn of the first
of the parameters that are left comes: the outputs found before, latest first, and the frame and the engine then. -/
inductive Collects (g : Frame) (E : Engine) : List Parameter → List Value → Frame → Engine → Prop
  | first (found : List Value) (f : Frame) (s : Engine) (returned : g.returned ≠ none)
    (unreported : g.run FrameM.takeFailure E = ((.ok none, g), E))
    (result : g.run (if g.plan.signature.skipsResult then pure [] else List.singleton <$> FrameM.collectReturn) E =
      ((.ok found, f), s)) : Collects g E g.plan.parameters found f s
  | next (q : Parameter) (rest : List Parameter) (found : List Value) (f : Frame) (s : Engine)
    (before : Collects g E (q :: rest) found f s) (o : Option Value) (f' : Frame) (s' : Engine)
    (turn : f.run (FrameM.collectParameter q) s = ((.ok o, f'), s')) : Collects g E rest (o.toList ++ found) f' s'

/-- While the outputs are collected, the turn of an array comes, and it is decoded with a number of elements. -/
def DecodesBy (g : Frame) (E : Engine) (q : Parameter) (n : Nat) : Prop :=
  ∃ l rest found f s f' s', q.handling = .array l ∧ q.direction.isOut = true ∧ g.Collects E (q :: rest) found f s ∧
    f.run (FrameM.settledCount q l) s = ((.ok n, f'), s')

/-- While the outputs are collected, the returned array is decoded with a number of elements. -/
def DecodesResultBy (g : Frame) (E : Engine) (n : Nat) : Prop :=
  g.returned ≠ none ∧ g.plan.signature.skipsResult = false ∧ g.run FrameM.takeFailure E = ((.ok none, g), E) ∧
    ∃ l, g.plan.resultLength = some l ∧ (g.currentLength l E).1 = .ok n

theorem Collects.returned {E : Engine} {rest : List Parameter} {found : List Value}
    (collects : g.Collects E rest found f s) : g.returned ≠ none := by
  induction collects with
  | first _ _ _ returned => exact returned
  | next _ _ _ _ _ _ _ _ _ _ ih => exact ih

section Collected

variable {E : Engine} (placed : g.Placed E.memory) (apart : g.cells ≠ g.failure) (coherent : g.plan.Coherent)

include placed apart coherent

theorem Collects.gathering {rest : List Parameter} {found : List Value} (collects : g.Collects E rest found f s) :
    Gathering g E f s ∧ (∀ q ∈ rest, q ∈ g.plan.parameters) ∧ ∀ v ∈ found, g.Spare E v := by
  have begun : Gathering g E g E := ⟨.refl g _, .refl E _ _ _⟩
  induction collects with
  | first found f s _ unreported result =>
      by_cases skips : g.plan.signature.skipsResult = true
      · rw [if_pos skips] at result
        cases result
        exact ⟨begun, fun _ hq => hq, by simp⟩
      · rw [if_neg skips, map_eq_pure_bind] at result
        have returns := (gathers_collectReturn placed apart coherent).bind fun v spare =>
          Keeps.pure (a := List.singleton v) (P := fun found => ∀ v ∈ found, g.Spare E v) (by
            simpa [List.singleton] using spare)
        obtain ⟨gathering, spare⟩ := returns g E _ f s begun result
        exact ⟨gathering, fun _ hq => hq, spare found rfl⟩
  | next q rest found f s _ o f' s' turn ih =>
      obtain ⟨gathering, sub, spare⟩ := ih
      obtain ⟨gathering', outputs⟩ :=
        gathers_collectParameter placed apart coherent (sub q List.mem_cons_self) f s _ f' s' gathering turn
      refine ⟨gathering', fun r hr => sub r (List.mem_cons_of_mem q hr), ?_⟩
      intro v hv
      rcases List.mem_append.mp hv with new | old
      · exact outputs o rfl v (Option.mem_toList.mp new)
      · exact spare v old

theorem DecodesBy.known {n : Nat} (decodes : g.DecodesBy E q n) : g.CountKnown E.memory q (some n) := by
  obtain ⟨l, rest, found, f, s, f', s', linked, out, collects, run⟩ := decodes
  obtain ⟨gathering, sub, -⟩ := collects.gathering placed apart coherent
  exact (gathers_settledCount placed apart coherent (sub q List.mem_cons_self) linked out f s _ f' s' gathering run).2 n rfl

end Collected

theorem DecodesResultBy.shown {E : Engine} {n l : Nat} (decodes : g.DecodesResultBy E n)
    (length : g.plan.resultLength = some l) : g.lengthShown E.memory l = some n := by
  obtain ⟨-, -, -, l', length', counted⟩ := decodes
  rw [length] at length'
  cases length'
  rw [← (currentLength_eq g l E).1, counted]
  rfl

/-! ## One length -/

/-- What the frame and the engine that are reclaimed have in common with those that native code left. -/
structure Kept (g : Frame) (E : Engine) (h : Frame) (S : Engine) : Prop where
  settled : g.Settled E.memory h
  shown : ∀ l, h.lengthShown S.memory l = g.lengthShown E.memory l
  decoded : ∀ q n, g.DecodesBy E q n → g.CountKnown E.memory q (some n)

theorem CountKnown.supplied {l : Nat} {count : Option Nat} (supplied : q.direction ≠ .output)
    (built : BuiltCount p arguments q l (g.binding q.index).count) (known : g.CountKnown m q count) :
    count = some (q.argument arguments).elementCount := by
  cases built_count : (g.binding q.index).count with
  | none =>
      rw [built_count] at built
      cases built with
      | open_ out => exact absurd out supplied
  | some k =>
      rw [built_count] at built
      cases built with
      | supplied =>
          cases known with
          | built => exact built_count
          | shown l' n linked' out free shows =>
              cases direction : q.direction with
              | output => exact absurd direction supplied
              | input =>
                  rw [direction] at out
                  cases out
              | both =>
                  rw [free direction] at built_count
                  cases built_count
      | asked out => exact absurd out supplied

theorem CountKnown.asked {l n : Nat} {count : Option Nat} (linked : q.handling = .array l)
    (settled : (g.binding q.index).count = some n) (told : ∀ k, g.lengthShown m l = some k → k = n)
    (known : g.CountKnown m q count) : count = some n := by
  cases known with
  | built => exact settled
  | shown l' k linked' out free shows =>
      rw [linked] at linked'
      cases linked'
      rw [told k shows]

theorem Kept.one {E : Engine} {l : Nat} {c : Option Nat} (kept : Kept g E h S) (coherent : h.plan.Coherent)
    (hq : q ∈ g.plan.parameters) (linked : q.handling = .array l)
    (known : ∀ count, g.CountKnown E.memory q count → count.or (g.lengthShown E.memory l) = c) :
    h.ReleasesBy S q c ∧ ∀ n, g.DecodesBy E q n → c = some n := by
  constructor
  · have left := releasesBy_leftCount coherent linked S
    simp only [leftCount, linked, kept.shown] at left
    rw [known _ (kept.settled.count q hq)] at left
    exact left
  · intro n decodes
    exact (known (some n) (kept.decoded q n decodes)).symm

theorem Kept.result {E : Engine} {l : Nat} (kept : Kept g E h S) (coherent : h.plan.Coherent)
    (unsettled : g.returnedCount = none) (length : g.plan.resultLength = some l) :
    h.ReleasesResultBy S (g.lengthShown E.memory l) ∧ ∀ n, g.DecodesResultBy E n → g.lengthShown E.memory l = some n := by
  have same : h.resultCount S.memory = g.lengthShown E.memory l := by
    rw [resultCount, kept.settled.plan, length, Option.bind_some, kept.shown]
    rcases kept.settled.returnedCount with same | ⟨l', n, length', shows, same⟩
    · rw [same, unsettled, Option.none_or]
    · rw [length] at length'
      cases length'
      rw [same, shows, Option.or_self]
  have releases := releasesResultBy_resultCount coherent S
  rw [same] at releases
  exact ⟨releases, fun n decodes => decodes.shown length⟩

end Frame

def shortening : Host Unit where
  enter _ arguments := do
    match arguments with
    | _ :: (_, count) :: _ => Run.engine (EngineM.store .u32 count.address ⟨1⟩)
    | _ => pure ()
    return .zero
  apply _ _ := return .ok .undefined

end Ferry
