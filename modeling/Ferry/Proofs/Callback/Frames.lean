import Ferry.Proofs.Call.Execution
import Ferry.Proofs.Call.Gathering
import Ferry.Proofs.Callback.Custody
import Ferry.Proofs.Marshal.Quiet

/-!
# The callbacks of a frame

Building a frame makes its callbacks, whether it succeeds or not (`makes_of_build`); collecting leaves them there; and
reclaiming destroys just these (`reclaim_drops`). `Frame.Tidy` is what makes the last of these true: callbacks are
found where reclaiming looks for them.
-/

set_option autoImplicit false

namespace Ferry

namespace Frame

/-- The callbacks that a frame holds, in the order of the parameters. -/
def callbacks (f : Frame) : List Callback := f.bindings.filterMap (·.callback)

/-- A callback is held for a parameter that is handled as one, and it is marked as built. -/
structure Tidy (f : Frame) : Prop where
  coherent : f.plan.Coherent
  length : f.bindings.length = f.plan.parameters.length
  marked : ∀ q ∈ f.plan.parameters, (f.binding q.index).callback ≠ none →
    (f.binding q.index).built = true ∧ ∃ closure destroy scope, q.handling = .callback closure destroy scope

/-- The frames hold the same callbacks, and what is marked as built stays so. -/
structure Calm (f f' : Frame) : Prop where
  plan : f'.plan = f.plan
  length : f'.bindings.length = f.bindings.length
  callback : ∀ k, (f'.binding k).callback = (f.binding k).callback
  built : ∀ k, (f.binding k).built = true → (f'.binding k).built = true

variable {f f' f'' g : Frame} {s s' : Engine} {arguments : List Value} {q : Parameter} {c : Callback}
  {r : Except InvokeFailure Unit}

namespace Calm

theorem refl (f : Frame) : Calm f f := ⟨rfl, rfl, fun _ => rfl, fun _ => id⟩

theorem trans (first : Calm f f') (second : Calm f' f'') : Calm f f'' where
  plan := second.plan.trans first.plan
  length := second.length.trans first.length
  callback k := (second.callback k).trans (first.callback k)
  built k marked := second.built k (first.built k marked)

theorem update {change : Binding → Binding} (f : Frame) (i : Nat) (callback : ∀ b, (change b).callback = b.callback)
    (built : ∀ b, b.built = true → (change b).built = true) : Calm f (f.update i change) where
  plan := rfl
  length := length_bindings_update f i change
  callback k := field_update callback f i k
  built k marked := by
    rcases binding_update_cases f i k change with same | ⟨-, changed⟩
    · rw [same]
      exact marked
    · rw [changed]
      exact built _ marked

theorem linkTo (f : Frame) (j : Option Nat) (slot : Slot) : Calm f (f.linkTo j slot) := by
  cases j with
  | none => exact .refl f
  | some j => exact .update f j (by intro b; rfl) (by intro b; exact id)

theorem withLength (f : Frame) (l : Nat) (d : Direction) (encoded : Slot) : Calm f (f.withLength l d encoded) := by
  cases d with
  | input => exact .update f l (by intro b; rfl) (by intro b; exact id)
  | output => exact .refl f
  | both => exact .update f l (by intro b; rfl) (by intro b; exact id)

theorem callbacks (calm : Calm f f') : f'.callbacks = f.callbacks := by
  have listed : f'.bindings.map (·.callback) = f.bindings.map (·.callback) :=
    map_bindings_congr calm.length calm.callback
  have flat : ∀ g : Frame, g.callbacks = (g.bindings.map (·.callback)).filterMap id := fun g => by
    rw [List.filterMap_map]
    rfl
  rw [flat, flat, listed]

theorem tidy (calm : Calm f f') (tidy : f.Tidy) : f'.Tidy where
  coherent := by
    rw [calm.plan]
    exact tidy.coherent
  length := by
    rw [calm.length, calm.plan]
    exact tidy.length
  marked q hq held := by
    rw [calm.plan] at hq
    rw [calm.callback] at held
    obtain ⟨built, handled⟩ := tidy.marked q hq held
    exact ⟨calm.built _ built, handled⟩

end Calm

/-! ## Building -/

/-- A callback that is made for a parameter. -/
def holding (f : Frame) (i : Nat) (c : Callback) : Frame :=
  f.update i fun b => { b with callback := some c, built := true }

/-- What a turn has to do with callbacks: nothing, or it makes one. -/
inductive Turned (q : Parameter) (f : Frame) (s : Engine) (f' : Frame) (s' : Engine) : Prop
  | calm (calm : f.Calm f') (untouched : s.Untouched s')
  | made (c : Callback) (g : Frame) (handled : ∃ closure destroy scope, q.handling = .callback closure destroy scope)
    (makes : s.Makes [c] s') (before : f.Calm g) (behind : (g.holding q.index c).Calm f')

theorem Turned.trans_calm (turned : Turned q f s f' s') (calm : f'.Calm f'') {s'' : Engine} (untouched : s'.Untouched s'') :
    Turned q f s f'' s'' := by
  cases turned with
  | calm before first => exact .calm (before.trans calm) (first.trans untouched)
  | made c g handled makes before behind =>
      have both := makes.trans untouched.makes
      exact .made c g handled both before (behind.trans calm)

theorem Supplies.turned {value : Value} (h : Supplies q value f s r f' s') : Turned q f s f' s' := by
  have built : ∀ change : Binding → Binding, (∀ b, (change b).callback = b.callback) → (∀ b, (change b).built = true) →
      f.Calm (f.update q.index change) := fun change callback marks =>
    .update f q.index callback fun b _ => marks b
  cases h with
  | value normal slot s' converted =>
      have quiet := quiet_toNative value q.type q.nullable s
      rw [converted] at quiet
      exact .calm (built _ (by intro b; rfl) (by intro b; rfl)) quiet
  | valueRefused normal c s' refused =>
      have quiet := quiet_toNative value q.type q.nullable s
      rw [refused] at quiet
      exact .calm (.refl f) quiet
  | array l element length linked type slot count s₁ holder encoded converted passed =>
      have quiet := quiet_encodeArray value element length q.nullable s
      rw [converted] at quiet
      refine .calm ((built _ (by intro b; rfl) (by intro b; rfl)).trans (.withLength _ l holder.direction encoded))
        (quiet.trans ?_)
      unfold Engine.withLength
      split
      · exact EngineM.untouched_memory (Nat.le_of_eq (Memory.frontier_store _ _ _ _).symm)
      · exact .refl _
  | arrayRefused l element length linked type c s' refused =>
      have quiet := quiet_encodeArray value element length q.nullable s
      rw [refused] at quiet
      exact .calm (.refl f) quiet
  | lengthRefused l element length linked type slot count s' e converted refused =>
      have quiet := quiet_encodeArray value element length q.nullable s
      rw [converted] at quiet
      exact .calm (built _ (by intro b; rfl) (by intro b; rfl)) quiet
  | callback closure destroy scope signature handled type callable same made s' run =>
      refine .made made _ ⟨closure, destroy, scope, handled⟩ (EngineM.makeCallback_makes run) ?_ (.refl _)
      exact ((Calm.update f q.index (by intro b; rfl) (by intro b; exact id)).trans (.linkTo _ closure _)).trans
        (.linkTo _ destroy _)
  | noCallback => exact .calm (built _ (by intro b; rfl) (by intro b; rfl)) (.refl s)
  | refused => exact .calm (.refl f) (.refl s)

theorem BuildStep.turned (h : BuildStep arguments q f s r f' s') : Turned q f s f' s' := by
  cases h with
  | hidden => exact .calm (.refl f) (.refl s)
  | output visible out r f' s' reserves =>
      cases reserves with
      | cell => exact .calm (.update f _ (by intro b; rfl) (by intro b _; rfl)) (.refl s)
      | buffer given count size block s' sized made =>
          have quiet := EngineM.quiet_allocate size s
          rw [made] at quiet
          exact .calm (.update f _ (by intro b; rfl) (by intro b _; rfl)) quiet
      | unsized => exact .calm (.refl f) (.refl s)
      | overflow => exact .calm (.update f _ (by intro b; rfl) (by intro b; exact id)) (.refl s)
      | full given count size s' sized made =>
          have quiet := EngineM.quiet_allocate size s
          rw [made] at quiet
          exact .calm (.update f _ (by intro b; rfl) (by intro b; exact id)) quiet
  | input visible supplied f' s' supplies => exact supplies.turned
  | both visible supplied f₁ s₁ supplies =>
      refine supplies.turned.trans_calm (.update f₁ _ (by intro b; rfl) (by intro b; exact id)) ?_
      exact EngineM.untouched_memory (Nat.le_of_eq (Memory.frontier_store _ _ _ _).symm)
  | refused visible supplied e f' s' supplies => exact supplies.turned

/-- The callbacks are those of the parameters before an index. -/
def BlankFrom (f : Frame) (i : Nat) : Prop :=
  ∀ k, i ≤ k → (f.binding k).callback = none

theorem Calm.blankFrom {i : Nat} (calm : f.Calm f') (blank : f.BlankFrom i) : f'.BlankFrom i := fun k behind => by
  rw [calm.callback]
  exact blank k behind

/-- A callback for the next parameter stands behind all others. -/
theorem callbacks_holding {i : Nat} (inside : i < f.bindings.length) (blank : f.BlankFrom i) (c : Callback) :
    (f.holding i c).callbacks = f.callbacks ++ [c] := by
  have behind : ∀ b ∈ f.bindings.drop i, b.callback = none := by
    intro b hb
    obtain ⟨k, range, rfl⟩ := List.getElem_of_mem hb
    have at_k := blank (i + k) (Nat.le_add_right i k)
    rw [List.length_drop] at range
    simpa [binding, show i + k < f.bindings.length by omega] using at_k
  have rest : (f.bindings.drop (i + 1)).filterMap (·.callback) = [] := by
    rw [List.filterMap_eq_nil_iff]
    intro b hb
    refine behind b ?_
    rw [List.drop_eq_getElem_cons inside]
    exact List.mem_cons_of_mem _ hb
  have none_behind : (f.bindings.drop i).filterMap (·.callback) = [] := List.filterMap_eq_nil_iff.mpr behind
  have before : f.callbacks = (f.bindings.take i).filterMap (·.callback) := by
    rw [callbacks]
    conv_lhs => rw [← List.take_append_drop i f.bindings]
    rw [List.filterMap_append, none_behind, List.append_nil]
  rw [before, callbacks, holding, update]
  simp only
  rw [List.modify_eq_take_cons_drop inside, List.filterMap_append, List.filterMap_cons, rest]

theorem Turned.fills {i : Nat} (turned : Turned q f s f' s') (tidy : f.Tidy) (found : f.plan.parameters[i]? = some q)
    (blank : f.BlankFrom i) : f'.Tidy ∧ f'.BlankFrom (i + 1) ∧ ∃ h, s.Makes h s' ∧ f'.callbacks = f.callbacks ++ h := by
  have index := tidy.coherent.index i q found
  have next : f.BlankFrom (i + 1) := fun k behind => blank k (by omega)
  cases turned with
  | calm calm untouched =>
      refine ⟨calm.tidy tidy, calm.blankFrom next, [], untouched.makes, ?_⟩
      rw [calm.callbacks, List.append_nil]
  | made c g handled makes before behind =>
      have tidy' := before.tidy tidy
      have inside : i < g.bindings.length := by
        rw [tidy'.length, before.plan]
        exact (List.getElem?_eq_some_iff.mp found).1
      rw [index] at behind
      have own : (g.holding i c).binding i = { g.binding i with callback := some c, built := true } :=
        binding_update_self inside _
      have others : ∀ k, k ≠ i → (g.holding i c).binding k = g.binding k := fun k differ =>
        binding_update_of_ne differ.symm _
      have held : (g.holding i c).Tidy := by
        refine ⟨tidy'.coherent, (length_bindings_update g i _).trans tidy'.length, fun p hp some_callback => ?_⟩
        by_cases here : p.index = i
        · rw [here, own]
          refine ⟨rfl, ?_⟩
          have at_i := tidy'.coherent.inside hp
          rw [here, before.plan, found] at at_i
          cases at_i
          exact handled
        · rw [others _ here] at some_callback ⊢
          exact tidy'.marked p hp some_callback
      refine ⟨behind.tidy held, behind.blankFrom fun k later => ?_, [c], makes, ?_⟩
      · rw [others k (by omega)]
        exact before.blankFrom next k later
      · rw [behind.callbacks, callbacks_holding inside (before.blankFrom blank), before.callbacks]

theorem run_fills (rest : List Parameter) {i : Nat} (tidy : f.Tidy) (listed : f.plan.parameters.drop i = rest)
    (blank : f.BlankFrom i) (run : f.run (rest.forM (FrameM.buildParameter arguments)) s = ((r, f'), s')) :
    f'.Tidy ∧ ∃ h, s.Makes h s' ∧ f'.callbacks = f.callbacks ++ h := by
  induction rest generalizing f s i with
  | nil =>
      cases run
      exact ⟨tidy, [], (Engine.Untouched.refl _).makes, (List.append_nil _).symm⟩
  | cons q rest ih =>
      have found : f.plan.parameters[i]? = some q := by
        rw [← List.head?_drop, listed]
        rfl
      have later : f.plan.parameters.drop (i + 1) = rest := by
        rw [← List.tail_drop, listed]
        rfl
      rw [run_forM_cons] at run
      rcases run_bind_cases run with ⟨u, f₁, s₁, first, behind⟩ | ⟨e, failed, -⟩
      · have step := run_buildParameter first
        obtain ⟨tidy', blank', h, makes, callbacks⟩ := step.turned.fills tidy found blank
        have plan := step.differs.plan
        obtain ⟨done, h', makes', callbacks'⟩ := ih tidy' (by rw [plan]; exact later) blank' behind
        exact ⟨done, h ++ h', makes.trans makes', by rw [callbacks', callbacks, List.append_assoc]⟩
      · obtain ⟨tidy', -, h, makes, callbacks⟩ := (run_buildParameter failed).turned.fills tidy found blank
        exact ⟨tidy', h, makes, callbacks⟩

/-! ## Steps that leave callbacks alone -/

/-- Nothing that concerns callbacks has happened. -/
structure Unstirred (f₁ : Frame) (s₁ : Engine) (f : Frame) (s : Engine) : Prop where
  calm : f₁.Calm f
  untouched : s₁.Untouched s

section Unstirred

variable {f₁ : Frame} {s₁ : Engine} {α : Type}

theorem Unstirred.refl (f : Frame) (s : Engine) : Unstirred f s f s := ⟨.refl f, .refl s⟩

theorem unstirred_lift {act : EngineM α} (quiet : Quiet act) :
    Keeps (Unstirred f₁ s₁) (liftM act : FrameM α) fun _ => True :=
  .lift fun _ s still => ⟨⟨still.calm, still.untouched.trans (quiet s)⟩, trivial⟩

theorem unstirred_convert {ε : Type} {blame : ε → InvokeFailure} {act : ExceptT ε EngineM α} (quiet : Quiet act) :
    Keeps (Unstirred f₁ s₁) (FrameM.convert blame act) fun _ => True :=
  .convert fun _ s still => ⟨⟨still.calm, still.untouched.trans (quiet s)⟩, fun _ _ => trivial⟩

theorem unstirred_modify {change : Frame → Frame} (calm : ∀ f : Frame, f.Calm (change f)) :
    Keeps (Unstirred f₁ s₁) (modifyThe Frame change) fun _ => True :=
  .modify fun f _ still => ⟨still.calm.trans (calm f), still.untouched⟩

theorem unstirred_update {change : Binding → Binding} (i : Nat) (callback : ∀ b, (change b).callback = b.callback)
    (built : ∀ b, b.built = true → (change b).built = true) :
    Keeps (Unstirred f₁ s₁) (FrameM.update i change) fun _ => True :=
  unstirred_modify fun f => .update f i callback built

theorem unstirred_forM {β : Type} {act : β → FrameM Unit} (each : ∀ x, Keeps (Unstirred f₁ s₁) (act x) fun _ => True)
    (items : List β) : Keeps (Unstirred f₁ s₁) (items.forM act) fun _ => True := by
  induction items with
  | nil => exact .pure trivial
  | cons x rest ih => exact .bind (each x) fun _ _ => ih

theorem unstirred_buildReceiver (receiver : Option Value) :
    Keeps (Unstirred f₁ s₁) (FrameM.buildReceiver receiver) fun _ => True := by
  unfold FrameM.buildReceiver
  refine .bind .get fun f _ => ?_
  cases receiver with
  | none => exact .throw _
  | some value =>
      refine .bind (unstirred_convert (quiet_toNative _ _ _)) fun slot _ => ?_
      exact unstirred_modify fun f => ⟨rfl, rfl, fun _ => rfl, fun _ => id⟩

theorem unstirred_start (receiver : Option Value) : Keeps (Unstirred f₁ s₁) (FrameM.start receiver) fun _ => True := by
  have cells : ∀ parameters : List Parameter, Keeps (Unstirred f₁ s₁) (parameters.forM fun q =>
      if q.isHidden && q.direction.isOut then FrameM.passCell q.index else pure ()) fun _ => True := by
    refine unstirred_forM fun q => ?_
    split
    · exact .bind .get fun f _ => unstirred_update q.index (by intro b; rfl) (by intro b; exact id)
    · exact .pure trivial
  unfold FrameM.start
  refine .bind .get fun f _ => ?_
  simp only
  split
  · exact .bind (unstirred_buildReceiver receiver) fun _ _ => cells _
  · exact cells _

end Unstirred

theorem quiet_fresh? (p : Plan) : Quiet (fresh? p) := by
  refine .bind (EngineM.quiet_reserve _) fun cells => .bind (EngineM.quiet_reserve _) fun failure => ?_
  split
  · exact .bind (EngineM.quiet_unreserve _) fun _ => .bind (EngineM.quiet_unreserve _) fun _ => .pure _
  · exact .pure _

/-- Building makes the callbacks of the frame, whether it succeeds or not. -/
theorem makes_of_build {p : Plan} (coherent : p.Coherent) {f₀ : Frame} {s₀ : Engine} {receiver : Option Value}
    (fresh : fresh? p s = (some f₀, s₀)) (run : f₀.run (FrameM.build receiver arguments) s₀ = ((r, f), s')) :
    f.Tidy ∧ s.Makes f.callbacks s' := by
  have room := quiet_fresh? p s
  rw [fresh] at room
  have made := (fresh?_some fresh).1
  have plan : f₀.plan = p := by rw [made]; rfl
  have blank : f₀.BlankFrom 0 := by
    intro k _
    rw [made]
    simp only [binding, empty, List.getElem?_map]
    cases p.parameters[k]? <;> rfl
  have tidy : f₀.Tidy := by
    refine ⟨by rw [plan]; exact coherent, by rw [made]; simp [empty], fun q _ held => ?_⟩
    exact absurd (blank q.index (Nat.zero_le _)) held
  have empty_handed : f₀.callbacks = [] := by
    rw [made]
    simp [callbacks, empty]
  rw [run_build] at run
  rcases run_bind_cases run with ⟨u, f₁, s₁, first, turns⟩ | ⟨e, failed, -⟩
  · obtain ⟨still, -⟩ := unstirred_start receiver _ _ _ _ _ (.refl f₀ s₀) first
    have plan₁ := still.calm.plan
    obtain ⟨done, h, makes, callbacks⟩ := run_fills f₀.plan.parameters (i := 0) (still.calm.tidy tidy)
      (by rw [List.drop_zero, plan₁]) (still.calm.blankFrom blank) turns
    refine ⟨done, ?_⟩
    rw [callbacks, still.calm.callbacks, empty_handed, List.nil_append]
    have both := (room.trans still.untouched).makes.trans makes
    rwa [List.nil_append] at both
  · obtain ⟨still, -⟩ := unstirred_start receiver _ _ _ _ _ (.refl f₀ s₀) failed
    refine ⟨still.calm.tidy tidy, ?_⟩
    rw [still.calm.callbacks, empty_handed]
    exact (room.trans still.untouched).makes

theorem makes_of_prepare {p : Plan} (coherent : p.Coherent) {receiver : Option Value}
    (built : p.prepare receiver arguments s = (.ok f, s')) : f.Tidy ∧ s.Makes f.callbacks s' := by
  obtain ⟨-, f₀, s₀, fresh, run⟩ := Plan.prepare_ok built
  exact makes_of_build coherent fresh run

/-! ## Handing over -/

theorem durable_callbacks (f : Frame) :
    (f.bindings.filterMap fun b => b.callback.filter (·.scope = .durable)) = f.callbacks.filter (·.isDurable) := by
  rw [callbacks, List.filter_filterMap]
  rfl

theorem callbacks_withoutDurable (f : Frame) : f.withoutDurable.callbacks = f.callbacks.filter (!·.isDurable) := by
  rw [callbacks, withoutDurable, List.filterMap_map, callbacks, List.filter_filterMap]
  refine List.filterMap_congr fun b _ => ?_
  simp [Callback.isDurable]

theorem Tidy.withoutDurable (tidy : f.Tidy) : f.withoutDurable.Tidy where
  coherent := tidy.coherent
  length := by simpa [Frame.withoutDurable] using tidy.length
  marked q hq held := by
    rw [binding_withoutDurable] at held ⊢
    refine tidy.marked q hq fun none_held => held ?_
    simp [none_held]

/-- Handing over registers the durable callbacks of the frame. -/
theorem handOverDurable_eq (f : Frame) (s : Engine) :
    f.handOverDurable s = ((f.withoutDurable, (f.callbacks.filter (·.isDurable)).map (·.token)),
      (EngineM.registerAll (f.callbacks.filter (·.isDurable)) s).2) := by
  rw [← durable_callbacks]
  rfl

/-! ## Collecting -/

section Collecting

variable {f₁ : Frame} {s₁ : Engine}

theorem quiet_currentLength (f : Frame) (index : Nat) : Quiet (f.currentLength index) := fun s => by
  rw [(currentLength_eq f index s).2]
  exact .refl s

theorem quiet_freeFailure (record : UInt64) : Quiet (EngineM.freeFailure record) := by
  unfold EngineM.freeFailure
  split
  · exact .pure ()
  · exact .bind (EngineM.quiet_load _ _) fun _ => .bind (EngineM.quiet_unreserve _) fun _ => EngineM.quiet_unreserve _

theorem unstirred_takeFailure : Keeps (Unstirred f₁ s₁) FrameM.takeFailure fun _ => True := by
  unfold FrameM.takeFailure
  refine .bind .get fun f _ => .bind (.load _ _) fun report _ => ?_
  split
  · exact .pure trivial
  · refine .bind (unstirred_lift ?_) fun failure _ => .bind (unstirred_lift (EngineM.quiet_store _ _ _)) fun _ _ => .pure trivial
    unfold EngineM.takeFailure
    refine .bind (EngineM.quiet_load _ _) fun _ => .bind (EngineM.quiet_load _ _) fun _ =>
      .bind (EngineM.quiet_load _ _) fun _ => .get fun s => ?_
    exact Quiet.bind (quiet_freeFailure report.address) (fun _ => .pure _) s

theorem unstirred_collectReturn : Keeps (Unstirred f₁ s₁) FrameM.collectReturn fun _ => True := by
  unfold FrameM.collectReturn
  refine .bind .get fun f _ => ?_
  simp only
  split
  · refine .bind (unstirred_convert (quiet_currentLength f _)) fun n _ => ?_
    refine .bind (unstirred_modify fun f => ⟨rfl, rfl, fun _ => rfl, fun _ => id⟩) fun _ _ => ?_
    exact unstirred_convert (quiet_arrayFromNative _ _ _ _ _)
  · exact unstirred_convert (quiet_fromNative _ _ _)

theorem unstirred_settledCount (q : Parameter) (l : Nat) :
    Keeps (Unstirred f₁ s₁) (FrameM.settledCount q l) fun _ => True := by
  unfold FrameM.settledCount
  refine .bind .get fun f _ => ?_
  split
  · exact .pure trivial
  · refine .bind (unstirred_convert (quiet_currentLength f l)) fun n _ => ?_
    exact .bind (unstirred_update q.index (by intro b; rfl) (by intro b; exact id)) fun _ _ => .pure trivial

theorem unstirred_collectArray (q : Parameter) (l : Nat) :
    Keeps (Unstirred f₁ s₁) (FrameM.collectArray q l) fun _ => True := by
  unfold FrameM.collectArray
  split
  · refine .bind (unstirred_settledCount q l) fun n _ => .bind .get fun f _ => ?_
    simp only
    split
    · exact .bind (.pure (P := fun _ => True) trivial) fun _ _ => unstirred_convert (quiet_arrayFromNative _ _ _ _ _)
    · exact .bind (.load _ _) fun _ _ => unstirred_convert (quiet_arrayFromNative _ _ _ _ _)
  · exact .throw _

theorem unstirred_collectBuffer (q : Parameter) : Keeps (Unstirred f₁ s₁) (FrameM.collectBuffer q) fun _ => True := by
  unfold FrameM.collectBuffer
  refine .bind .get fun f _ => ?_
  simp only
  split
  · split
    · refine .bind (unstirred_update q.index (by intro b; rfl) (by intro b; exact id)) fun _ _ => ?_
      refine .bind (unstirred_lift ?_) fun _ _ => .pure trivial
      exact .bind (EngineM.quiet_own _) fun _ => .pure _
    · exact .pure trivial
  · exact unstirred_convert (quiet_arrayFromNative _ _ _ _ _)
  · exact .bind (.load _ _) fun _ _ => unstirred_convert (quiet_fromNative _ _ _)

theorem unstirred_collectValue (q : Parameter) : Keeps (Unstirred f₁ s₁) (FrameM.collectValue q) fun _ => True := by
  unfold FrameM.collectValue
  split
  · exact unstirred_collectBuffer q
  · exact .bind .get fun f _ => .bind (.load _ _) fun _ _ => unstirred_convert (quiet_fromNative _ _ _)

theorem unstirred_collectParameter (q : Parameter) :
    Keeps (Unstirred f₁ s₁) (FrameM.collectParameter q) fun _ => True := by
  unfold FrameM.collectParameter
  split
  · exact .pure trivial
  · split
    · exact .pure trivial
    · exact .pure trivial
    · exact .bind (unstirred_collectArray q _) fun _ _ => .pure trivial
    · exact .bind (unstirred_collectValue q) fun _ _ => .pure trivial

theorem unstirred_collectParameters (parameters : List Parameter) (found : List Value) :
    Keeps (Unstirred f₁ s₁) (FrameM.collectParameters parameters found) fun _ => True := by
  induction parameters generalizing found with
  | nil => exact .pure trivial
  | cons q rest ih =>
      unfold FrameM.collectParameters
      refine .bind (.tryCatch (unstirred_collectParameter q) fun e => ?_) fun output _ => ih _
      exact .bind (unstirred_lift (Value.quiet_releaseAll _)) fun _ _ => .throw e

theorem unstirred_collect : Keeps (Unstirred f₁ s₁) FrameM.collect fun _ => True := by
  unfold FrameM.collect
  refine .bind unstirred_takeFailure fun report _ => ?_
  split
  · exact .throw _
  · refine .bind .get fun f _ => ?_
    have rest : ∀ first, Keeps (Unstirred f₁ s₁) (do
        return FrameM.composeOutputs
          (← FrameM.collectParameters (← getThe Frame).plan.parameters first) : FrameM Value) fun _ => True := fun first =>
      .bind .get fun f _ => .bind (unstirred_collectParameters _ _) fun _ _ => .pure trivial
    simp only
    split
    · exact rest []
    · exact .bind (.bind unstirred_collectReturn fun v _ => .pure (P := fun _ => True) trivial) fun first _ => rest first

end Collecting

/-! ## Reclaiming -/

/-- The callbacks that releasing a parameter destroys. -/
def ending (f : Frame) (q : Parameter) : List Callback :=
  match (f.binding q.index).built, q.handling with
  | true, .callback .. => (f.binding q.index).callback.toList
  | _, _ => []

theorem releaseParameter_drops (f : Frame) (q : Parameter) (s : Engine) : s.Drops (f.ending q) (f.releaseParameter q s).2 := by
  unfold releaseParameter ending
  cases (f.binding q.index).built with
  | false => exact (Engine.Untouched.refl s).drops
  | true =>
      rw [if_pos rfl]
      cases q.handling with
      | hidden => exact (Engine.Untouched.refl s).drops
      | array l => exact (releaseArray_across .refl .trans EngineM.quiet_release f q l s).drops
      | normal => exact (releaseValue_across .refl .trans EngineM.quiet_release f q s).drops
      | callback closure destroy scope =>
          cases (f.binding q.index).callback with
          | none => exact (Engine.Untouched.refl s).drops
          | some c => exact EngineM.destroyCallback_drops c s

theorem Tidy.ending_eq (tidy : f.Tidy) : f.plan.parameters.flatMap f.ending = f.callbacks := by
  have each : ∀ q ∈ f.plan.parameters, f.ending q = (f.binding q.index).callback.toList := by
    intro q hq
    cases held : (f.binding q.index).callback with
    | none =>
        unfold ending
        rw [held]
        split <;> rfl
    | some c =>
        obtain ⟨built, closure, destroy, scope, handled⟩ := tidy.marked q hq (by simp [held])
        simp [ending, built, handled, held]
  have listed : f.plan.parameters.map (fun q => (f.binding q.index).callback) = f.bindings.map (·.callback) := by
    refine List.ext_getElem (by simp [tidy.length]) fun k here there => ?_
    simp only [List.length_map] at here there
    have index := tidy.coherent.index k _ (List.getElem?_eq_getElem here)
    simp [index, binding, there]
  have flat : ∀ l : List (Option Callback), l.flatMap Option.toList = l.filterMap id := fun l => by
    rw [List.filterMap_eq_flatMap_toList]
    rfl
  calc f.plan.parameters.flatMap f.ending
      = f.plan.parameters.flatMap fun q => (f.binding q.index).callback.toList := List.flatMap_congr each
    _ = (f.plan.parameters.map fun q => (f.binding q.index).callback).flatMap Option.toList := by rw [List.flatMap_map]
    _ = (f.bindings.map (·.callback)).flatMap Option.toList := by rw [listed]
    _ = f.callbacks := by rw [flat, List.filterMap_map]; rfl

/-- Reclaiming a frame destroys its callbacks, each once, and no others. -/
theorem Tidy.reclaim_drops (tidy : f.Tidy) (s : Engine) : s.Drops f.callbacks (f.reclaim s).2 := by
  have report := quiet_freeFailure (s.memory.load .pointer f.failure).address s
  have parameters := EngineM.forM_drops f.releaseParameter_drops f.plan.parameters
    (EngineM.freeFailure (s.memory.load .pointer f.failure).address s).2
  rw [tidy.ending_eq] at parameters
  rw [run_reclaim]
  have both := report.drops.trans parameters
  rw [List.nil_append] at both
  have buffers := both.trans_untouched (releaseBuffers_across .refl .trans EngineM.quiet_release f _)
  have result := buffers.trans_untouched (releaseResult_across .refl .trans EngineM.quiet_release f _)
  exact (result.trans_untouched (EngineM.quiet_unreserve f.cells _)).trans_untouched
    (EngineM.quiet_unreserve f.failure _)

end Frame

end Ferry
