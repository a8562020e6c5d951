import Ferry.Proofs.Call.LinkedLengths

/-!
# The callbacks that native code is passed

A callback is passed as its code, its token and the destroy notifier. The token and the notifier go into the
slots of two other parameters, where anything that refers to the same parameter writes in its own turn; nobody
looks at what was there. The main result is `delivers_of_prepare`: native code gets the code of every callback
that is given, with the callback's own token and the notifier wherever nothing else is passed later, and null
for each of the three where no callable is given.
-/

set_option autoImplicit false

namespace Ferry

/-- Nothing but destroy notifiers is passed through the parameter at `j` behind the parameter `q`. -/
def Plan.NotifiesAt (p : Plan) (arguments : List Value) (q : Parameter) (j : Nat) : Prop :=
  ∀ x ∈ p.parameters, q.index < x.index → x.Passes arguments j →
    ∃ closure scope, x.handling = .callback closure (some j) scope

/-- Nothing is passed through the parameter at `j` behind the parameter `q`. -/
def Plan.SilentAt (p : Plan) (arguments : List Value) (q : Parameter) (j : Nat) : Prop :=
  ∀ x ∈ p.parameters, q.index < x.index → ¬x.Passes arguments j

namespace Plan.Coherent

variable {p : Plan} {q x : Parameter} {j : Nat}

theorem link_lt (h : p.Coherent) (hx : x ∈ p.parameters) : ∀ j ∈ x.links, j < p.parameters.length := by
  intro j link
  obtain ⟨r, at_j, -⟩ := h.links_hidden (h.inside hx) link
  exact (List.getElem?_eq_some_iff.mp at_j).1

end Plan.Coherent

namespace Frame

variable {f f' : Frame} {s s' : Engine} {arguments : List Value} {p : Plan} {q x : Parameter} {j : Nat}
  {closure destroy : Option Nat} {scope : Scope}

/-- What native code is passed for a callback parameter. -/
inductive Delivers (f : Frame) (p : Plan) (arguments : List Value) (q : Parameter) (closure destroy : Option Nat)
    (scope : Scope) : Prop
  | given (g : FunctionRef) (supplied : q.argument arguments = .function g) (c : Callback)
    (kept : (f.binding q.index).callback = some c) (callable : c.callable = g.id) (sameScope : c.scope = scope)
    (type : q.type = .callback c.signature) (code : (f.binding q.index).slot = .ofAddress c.code)
    (token : ∀ j, closure = some j → destroy ≠ some j → p.SilentAt arguments q j →
      (f.binding j).slot = .ofAddress c.token)
    (notifier : ∀ j, destroy = some j → p.NotifiesAt arguments q j → (f.binding j).slot = .ofAddress Engine.notifier)
  | absent (nothing : (q.argument arguments).isNullish = true) (kept : (f.binding q.index).callback = none)
    (code : (f.binding q.index).slot = .zero)
    (links : ∀ j ∈ closure.toList ++ destroy.toList, ∀ r, p.parameters[j]? = some r → r.direction = .input →
      (∀ x ∈ p.parameters, ¬x.Passes arguments j) → (f.binding j).slot = .zero)

/-! ## Turns that leave a hidden parameter alone -/

theorem BuildStep.binding_of_not_passes (step : BuildStep arguments x f s (.ok ()) f' s')
    (given : ∀ closure destroy scope, x.handling = .callback closure destroy scope → x.direction = .input)
    (other : x.handling = .hidden ∨ x.index ≠ j) (silent : ¬x.Passes arguments j) : f'.binding j = f.binding j := by
  by_cases hidden : x.handling = .hidden
  · cases step with
    | hidden => rfl
    | output visible | input visible | both visible => exact absurd hidden visible
  · have differ : x.index ≠ j := other.resolve_left hidden
    by_cases linked : j ∈ x.links
    · obtain ⟨rfl, rfl⟩ := step.withheld given hidden linked silent
      exact binding_update_of_ne differ _
    · exact step.differs.binding j (by simp [Ne.symm differ, linked])

theorem makeCallback_made {callable : Nat} {signature : Signature} {made : Callback}
    (run : EngineM.makeCallback callable signature scope s = (.ok made, s')) :
    made.callable = callable ∧ made.scope = scope ∧ made.signature = signature := by
  obtain ⟨-, -, -, rfl, -⟩ := EngineM.makeCallback_ok run
  exact ⟨rfl, rfl, rfl⟩

theorem BuildStep.delivers (step : BuildStep arguments q f s (.ok ()) f' s')
    (handled : q.handling = .callback closure destroy scope) (input : q.direction = .input)
    (inside : q.index < f.bindings.length) (range : ∀ j ∈ q.links, j < f.bindings.length)
    (apart : ∀ j ∈ q.links, j ≠ q.index) :
    (∃ g c, q.argument arguments = .function g ∧ f'.binding q.index =
        { f.binding q.index with slot := .ofAddress c.code, callback := some c, built := true } ∧
      c.callable = g.id ∧ c.scope = scope ∧ q.type = .callback c.signature ∧
      (∀ j, closure = some j → destroy ≠ some j → (f'.binding j).slot = .ofAddress c.token) ∧
      ∀ j, destroy = some j → (f'.binding j).slot = .ofAddress Engine.notifier) ∨
    (q.argument arguments).isNullish = true ∧ f'.binding q.index = { f.binding q.index with built := true } := by
  have links : q.links = closure.toList ++ destroy.toList := by simp [Parameter.links, handled]
  cases step with
  | hidden hidden => rw [handled] at hidden; cases hidden
  | output _ out => rw [input] at out; cases out
  | both _ both => rw [input] at both; cases both
  | input _ _ _ _ supplies =>
      cases supplies with
      | value normal => rw [handled] at normal; cases normal
      | array _ _ _ array => rw [handled] at array; cases array
      | noCallback _ _ _ _ _ _ absent =>
          exact Or.inr ⟨absent, binding_update_self inside _⟩
      | callback closure' destroy' scope' signature same type g callable made s' run =>
          rw [handled] at same
          cases same
          obtain ⟨callee, sameScope, sameSignature⟩ := makeCallback_made run
          left
          refine ⟨g, made, callable, ?_, callee, sameScope, by rw [sameSignature]; exact type, fun j at_j differ => ?_,
            fun j at_j => ?_⟩
          · rw [binding_passing inside (by rw [← links]; exact apart)]
          · subst at_j
            have linked : j ∈ q.links := by simp [links]
            rw [binding_update_of_ne (apart j linked).symm,
              binding_linkTo _ (fun i hi same => differ (by rw [Option.mem_def.mp hi, same])),
              binding_linkTo_self (by simpa using range j linked)]
          · subst at_j
            have linked : j ∈ q.links := by simp [links]
            rw [binding_update_of_ne (apart j linked).symm, binding_linkTo_self (by simpa using range j linked)]

/-! ## All turns -/

theorem slot_of_run (holds : Slot → Prop) {turns : List Parameter} (coherent : p.Coherent) (hidden : p.HiddenAt j)
    (sub : ∀ x ∈ turns, x ∈ p.parameters) (length : f.bindings.length = p.parameters.length)
    (passing : ∀ x ∈ turns, x.Passes arguments j → ∀ g t g' t', g.bindings.length = p.parameters.length →
      BuildStep arguments x g t (.ok ()) g' t' → holds (g'.binding j).slot)
    (run : f.run (turns.forM (FrameM.buildParameter arguments)) s = ((.ok (), f'), s'))
    (before : holds (f.binding j).slot) : holds (f'.binding j).slot := by
  induction turns generalizing f s with
  | nil =>
      cases run
      exact before
  | cons x rest ih =>
      rw [run_forM_cons] at run
      obtain ⟨u, g, t, first, later⟩ := run_bind_ok run
      have step := run_buildParameter first
      have hx := sub x List.mem_cons_self
      refine ih (fun y hy => sub y (List.mem_cons_of_mem x hy)) (step.differs.length.trans length)
        (fun y hy => passing y (List.mem_cons_of_mem x hy)) later ?_
      by_cases passes : x.Passes arguments j
      · exact passing x List.mem_cons_self passes f s g t length step
      · rw [step.binding_of_not_passes (coherent.input_of_callback hx) (coherent.hidden_or_ne hx hidden) passes]
        exact before

end Frame

/-- Native code gets every callback that is given, under whatever other parameters it refers to. -/
theorem delivers_of_prepare {p : Plan} (obtained : p.Obtained) {receiver : Option Value} {arguments : List Value}
    {s s' : Engine} {f : Frame} (built : p.prepare receiver arguments s = (.ok f, s')) {q : Parameter}
    (hq : q ∈ p.parameters) {closure destroy : Option Nat} {scope : Scope}
    (handled : q.handling = .callback closure destroy scope) :
    f.Delivers p arguments q closure destroy scope := by
  have coherent := obtained.coherent
  obtain ⟨-, f₁, s₁, begun, run, -⟩ := Frame.begun_of_prepare coherent built
  have found := coherent.inside hq
  have visible : q.handling ≠ .hidden := by simp [handled]
  have links : q.links = closure.toList ++ destroy.toList := by simp [Parameter.links, handled]
  have hidden : ∀ j ∈ q.links, p.HiddenAt j := fun j hj => coherent.links_hidden found hj
  obtain ⟨f₂, s₂, f₃, s₃, before, turn, behind⟩ := Frame.run_forM_split run found
  have early := Frame.run_differs _ before
  have late := Frame.run_differs _ behind
  have step := Frame.run_buildParameter turn
  have length₂ : f₂.bindings.length = p.parameters.length := early.length.trans begun.length
  have length₃ : f₃.bindings.length = p.parameters.length := step.differs.length.trans length₂
  have blank : f₂.binding q.index = {} := by
    rw [early.binding q.index (coherent.not_mem_reach found visible fun r hr => ⟨List.mem_of_mem_take hr,
      Nat.ne_of_lt (coherent.index_lt_of_mem_take hr)⟩)]
    exact begun.blank _ q found visible
  have kept : f.binding q.index = f₃.binding q.index :=
    late.binding q.index (coherent.not_mem_reach found visible fun r hr => ⟨List.mem_of_mem_drop hr,
      Nat.ne_of_gt (coherent.le_index_of_mem_drop hr)⟩)
  have later : ∀ x ∈ p.parameters.drop (q.index + 1), x ∈ p.parameters ∧ q.index < x.index := fun x hx =>
    ⟨List.mem_of_mem_drop hx, coherent.le_index_of_mem_drop hx⟩
  rcases step.delivers handled (coherent.input_of_callback hq _ _ _ handled)
      (by rw [length₂]; exact coherent.index_lt hq) (by rw [length₂]; exact coherent.link_lt hq)
      (coherent.links_apart hq visible) with
    ⟨g, c, supplied, own, callable, sameScope, type, token, notifier⟩ | ⟨nothing, own⟩
  · rw [← kept, blank] at own
    refine .given g supplied c (by rw [own]) callable sameScope type (by rw [own]) ?_ ?_
    · intro j at_j differ silent
      refine Frame.slot_of_run (· = .ofAddress c.token) coherent (hidden j (by simp [links, at_j]))
        (fun x hx => (later x hx).1) length₃ (fun x hx passes => ?_) behind (token j at_j differ)
      exact absurd passes (silent x (later x hx).1 (later x hx).2)
    · intro j at_j notifies
      have hidden_j := hidden j (by simp [links, at_j])
      refine Frame.slot_of_run (· = .ofAddress Engine.notifier) coherent hidden_j
        (fun x hx => (later x hx).1) length₃ (fun x hx passes g t g' t' length step => ?_) behind (notifier j at_j)
      -- another callback with the same destroy parameter passes the notifier once more
      obtain ⟨closure, scope, same⟩ := notifies x (later x hx).1 (later x hx).2 passes
      obtain ⟨g₀, given⟩ := passes.2 _ _ _ same
      have hx := (later x hx).1
      rcases step.delivers same (coherent.input_of_callback hx _ _ _ same) (by rw [length]; exact coherent.index_lt hx)
          (by rw [length]; exact coherent.link_lt hx) (coherent.links_apart hx (by simp [same])) with
        ⟨-, -, -, -, -, -, -, -, notifier⟩ | ⟨nothing, -⟩
      · exact notifier j rfl
      · rw [given] at nothing
        cases nothing
  · rw [← kept, blank] at own
    refine .absent nothing (by rw [own]) (by rw [own]) fun j hj r at_j input silent => ?_
    have hidden_j := hidden j (by rw [links]; exact hj)
    refine Frame.slot_of_run (· = .zero) coherent hidden_j (fun x hx => hx) begun.length
      (fun x hx passes => absurd passes (silent x hx)) run ?_
    obtain ⟨r', at_j', hidden⟩ := hidden_j
    rw [at_j] at at_j'
    cases at_j'
    rw [begun.hidden j r at_j hidden]
    simp [input, Direction.isOut]

def connecting : DescriptorRef where
  id := 0
  descriptor := {
    symbol := "connect", receiver := none, isConstructor := false, entry := .address 0x1000
    signature := {
      namespaceName := "Sample", name := "connect", result := .void, resultTransfer := .nothing, skipResult := false
      mayReturnNull := false, canThrow := false
      params := [
        ⟨"handler", .callback handling, .input, .nothing, false, false, some 2, some 3, .durable⟩,
        ⟨"filter", .callback handling, .input, .nothing, true, false, some 4, none, .call⟩,
        ⟨"data", .pointer, .input, .nothing, false, false, none, none, .call⟩,
        ⟨"notify", .destroyNotify, .input, .nothing, false, false, none, none, .call⟩,
        ⟨"extra", .pointer, .input, .nothing, false, false, none, none, .call⟩] } }
where
  handling : Signature := {
    namespaceName := "Sample", name := "Handler", result := .void, resultTransfer := .nothing, skipResult := false
    mayReturnNull := false, canThrow := false
    params := [⟨"data", .pointer, .input, .nothing, false, false, none, none, .call⟩] }

def connectingArguments : List Value := [.function ⟨7, "handler"⟩, .null]

theorem delivers_of_prepare_connecting : ∃ p s₁ f s₂ c,
    (Plan.compile connecting).run .initial = (.ok p, s₁) ∧
    p.prepare none connectingArguments s₁ = (.ok f, s₂) ∧ (f.binding 0).callback = some c ∧
    (f.binding 0).slot = .ofAddress c.code ∧ (f.binding 2).slot = .ofAddress c.token ∧
    (f.binding 3).slot = .ofAddress Engine.notifier ∧ (f.binding 1).slot = .zero ∧ (f.binding 4).slot = .zero := by
  have builds : (match (Plan.compile connecting).run .initial with
      | (.ok p, s) => (p.prepare none connectingArguments s).1.isOk && decide ((p.parameters.map fun q =>
          (q.index, q.handling, q.direction, q.position)) =
            [(0, .callback (some 2) (some 3) .durable, .input, some 0), (1, .callback (some 4) none .call, .input, some 1),
             (2, .hidden, .input, none), (3, .hidden, .input, none), (4, .hidden, .input, none)])
      | _ => false) = true := by
    decide +kernel
  obtain ⟨p, s₁, compiled⟩ := exists_ok (r := (Plan.compile connecting).run .initial) (by decide +kernel)
  rw [compiled] at builds
  simp only [Bool.and_eq_true, decide_eq_true_eq] at builds
  obtain ⟨built, shape⟩ := builds
  obtain ⟨f, s₂, built⟩ := exists_ok built
  obtain ⟨handler, rest, five, first, shape⟩ := List.map_eq_cons_iff.mp shape
  obtain ⟨filter, rest, rfl, second, shape⟩ := List.map_eq_cons_iff.mp shape
  obtain ⟨data, rest, rfl, third, shape⟩ := List.map_eq_cons_iff.mp shape
  obtain ⟨notify, rest, rfl, fourth, shape⟩ := List.map_eq_cons_iff.mp shape
  obtain ⟨extra, rest, rfl, fifth, shape⟩ := List.map_eq_cons_iff.mp shape
  cases List.map_eq_nil_iff.mp shape
  simp only [Prod.mk.injEq] at first second third fourth fifth
  have obtained : p.Obtained := .compiled connecting _ _ compiled
  have given : handler.argument connectingArguments = .function ⟨7, "handler"⟩ := by
    simp [Parameter.argument, first, connectingArguments]
  have nothing : filter.argument connectingArguments = .null := by
    simp [Parameter.argument, second, connectingArguments]
  -- behind the handler only the filter could pass something, and it is not given
  have silent : ∀ x ∈ p.parameters, 0 < x.index → ∀ j, ¬x.Passes connectingArguments j := by
    intro x hx behind j passes
    simp only [five, List.mem_cons, List.not_mem_nil, or_false] at hx
    rcases hx with rfl | rfl | rfl | rfl | rfl
    · omega
    · obtain ⟨g, given⟩ := passes.2 _ _ _ second.2.1
      rw [nothing] at given
      cases given
    all_goals
      have linked := passes.1
      simp_all [Parameter.links]
  cases delivers_of_prepare obtained built (q := handler) (by simp [five]) first.2.1 with
  | absent missing =>
      rw [given] at missing
      cases missing
  | given g supplied c kept callable sameScope type code token notifier =>
      cases delivers_of_prepare obtained built (q := filter) (by simp [five]) second.2.1 with
      | given g supplied =>
          rw [nothing] at supplied
          cases supplied
      | absent missing none zero links =>
          rw [first.1] at kept code
          rw [second.1] at zero
          refine ⟨p, s₁, f, s₂, c, compiled, built, kept, code, token 2 rfl (by simp) fun x hx later => ?_,
            notifier 3 rfl fun x hx later passes => ?_, zero, links 4 (by simp) extra (by simp [five]) fifth.2.2.1
              fun x hx passes => ?_⟩
          · exact silent x hx (by omega) 2
          · exact absurd passes (silent x hx (by omega) 3)
          · by_cases own : x.index = 0
            · have same := obtained.coherent.inside hx
              rw [own, five] at same
              cases same
              have linked := passes.1
              simp [Parameter.links, first] at linked
            · exact silent x hx (by omega) 4 passes

end Ferry
