import Mathlib.Data.List.Forall2
import Ferry.Call.Invoke
import Ferry.Proofs.Engine.Running

/-!
# Running actions on a frame

An action on a frame yields a result, the frame that it leaves and the engine that it leaves. Here is what
the combinators do with these three, and how the bindings of a frame change under an update. Two relations go
through an action by its combinators: an invariant that it keeps (`Frame.Keeps`), and a second run on an image of the
frame that does the same (`Frame.Mirrored`).
-/

set_option autoImplicit false

namespace Ferry

/-- The failure is an error, and one of the kind. -/
def Failure.any {ε : Type} (kind : ε → Bool) : Failure ε → Bool
  | .error cause => kind cause
  | .panic _ => false

namespace Frame

variable {α β : Type} {f f' f'' : Frame} {s s' s'' : Engine}

/-! ## Sequences -/

theorem run_bind (act : FrameM α) (next : α → FrameM β) (f : Frame) (s : Engine) :
    f.run (act >>= next) s =
      match f.run act s with
      | ((.ok a, f'), s') => f'.run (next a) s'
      | ((.error e, f'), s') => ((.error e, f'), s') := by
  rcases found : f.run act s with ⟨⟨r, f'⟩, s'⟩
  simp only [Frame.run, StateT.run, ExceptT.run, bind, ExceptT.bind, ExceptT.mk, StateT.bind] at found ⊢
  simp only [found, ExceptT.bindCont]
  cases r <;> rfl

/-- The two ways in which a sequence ends. -/
theorem run_bind_cases {act : FrameM α} {next : α → FrameM β} {r : Except InvokeFailure β}
    (run : f.run (act >>= next) s = ((r, f''), s'')) :
    (∃ a f' s', f.run act s = ((.ok a, f'), s') ∧ f'.run (next a) s' = ((r, f''), s'')) ∨
      ∃ e, f.run act s = ((.error e, f''), s'') ∧ r = .error e := by
  rw [run_bind] at run
  rcases found : f.run act s with ⟨⟨first, f'⟩, s'⟩
  rw [found] at run
  cases first with
  | ok a => exact Or.inl ⟨a, f', s', rfl, run⟩
  | error e =>
      cases run
      exact Or.inr ⟨e, rfl, rfl⟩

theorem run_bind_ok {act : FrameM α} {next : α → FrameM β} {b : β}
    (run : f.run (act >>= next) s = ((.ok b, f''), s'')) :
    ∃ a f' s', f.run act s = ((.ok a, f'), s') ∧ f'.run (next a) s' = ((.ok b, f''), s'') := by
  rcases run_bind_cases run with both | ⟨e, -, impossible⟩
  · exact both
  · cases impossible

theorem run_pure (a : α) (f : Frame) (s : Engine) : f.run (pure a : FrameM α) s = ((.ok a, f), s) := rfl

theorem run_get (f : Frame) (s : Engine) : f.run (getThe Frame : FrameM Frame) s = ((.ok f, f), s) := rfl

theorem run_lift (act : EngineM α) (f : Frame) (s : Engine) :
    f.run (liftM act : FrameM α) s = ((.ok (act s).1, f), (act s).2) := rfl

theorem run_lift_bind (act : EngineM α) (next : α → FrameM β) (f : Frame) (s : Engine) :
    f.run (liftM act >>= next) s = f.run (next (act s).1) (act s).2 := rfl

theorem run_convert {ε : Type} (blame : ε → InvokeFailure) (act : ExceptT ε EngineM α) (f : Frame) (s : Engine) :
    f.run (FrameM.convert blame act) s = (((act s).1.mapError blame, f), (act s).2) := by
  unfold FrameM.convert
  rw [run_lift_bind]
  rcases converted : act.run s with ⟨r, s'⟩
  have same : act s = (r, s') := converted
  rw [same]
  cases r <;> rfl

/-- A failure goes to the handler, with the frame and the engine that it left. -/
theorem run_tryCatch (act : FrameM α) (handler : InvokeFailure → FrameM α) (f : Frame) (s : Engine) :
    f.run (tryCatch act handler) s =
      match f.run act s with
      | ((.ok a, f'), s') => ((.ok a, f'), s')
      | ((.error e, f'), s') => f'.run (handler e) s' := by
  rcases found : f.run act s with ⟨⟨r, f'⟩, s'⟩
  simp only [Frame.run, StateT.run, ExceptT.run] at found
  simp only [Frame.run, StateT.run, ExceptT.run, tryCatch, tryCatchThe, MonadExceptOf.tryCatch, ExceptT.tryCatch,
    ExceptT.mk, bind, StateT.bind, found]
  cases r <;> rfl

theorem run_forM_cons {x : α} {rest : List α} {act : α → FrameM Unit} :
    f.run ((x :: rest).forM act) s = f.run (act x >>= fun _ => rest.forM act) s := rfl

theorem run_forM_append {act : α → FrameM Unit} {front back : List α} :
    f.run ((front ++ back).forM act) s = f.run (front.forM act >>= fun _ => back.forM act) s := by
  induction front generalizing f s with
  | nil =>
      rw [run_bind]
      rfl
  | cons x rest ih =>
      rw [List.cons_append, run_forM_cons, run_bind, run_bind, run_forM_cons, run_bind]
      rcases f.run (act x) s with ⟨⟨r, f'⟩, s'⟩
      cases r with
      | error e => rfl
      | ok u => exact ih.trans (run_bind _ _ _ _)

/-- A loop fails at the first item that fails, behind those that do not. -/
theorem run_forM_error {act : α → FrameM Unit} {items : List α} {e : InvokeFailure}
    (run : f.run (items.forM act) s = ((.error e, f''), s'')) :
    ∃ front x back f' s', items = front ++ x :: back ∧ f.run (front.forM act) s = ((.ok (), f'), s') ∧
      f'.run (act x) s' = ((.error e, f''), s'') := by
  induction items generalizing f s with
  | nil => cases run
  | cons x rest ih =>
      rcases run_bind_cases run with ⟨u, f₁, s₁, first, later⟩ | ⟨e', failed, same⟩
      · obtain ⟨front, y, back, f', s', rfl, before, failed⟩ := ih later
        refine ⟨x :: front, y, back, f', s', rfl, ?_, failed⟩
        rw [run_forM_cons, run_bind, first]
        exact before
      · cases same
        exact ⟨[], x, rest, f, s, rfl, rfl, failed⟩

/-- A loop that succeeds gets to every item, and goes on from there. -/
theorem run_forM_split {act : α → FrameM Unit} {items : List α} {k : Nat} {x : α}
    (run : f.run (items.forM act) s = ((.ok (), f''), s'')) (found : items[k]? = some x) :
    ∃ f₁ s₁ f₂ s₂, f.run ((items.take k).forM act) s = ((.ok (), f₁), s₁) ∧
      f₁.run (act x) s₁ = ((.ok (), f₂), s₂) ∧
      f₂.run ((items.drop (k + 1)).forM act) s₂ = ((.ok (), f''), s'') := by
  have range := (List.getElem?_eq_some_iff.mp found).1
  have item : items[k] = x := (List.getElem?_eq_some_iff.mp found).2
  rw [← List.take_append_drop k items, List.drop_eq_getElem_cons range, item, run_forM_append] at run
  obtain ⟨u, f₁, s₁, before, run⟩ := run_bind_ok run
  rw [run_forM_cons] at run
  obtain ⟨u', f₂, s₂, turn, behind⟩ := run_bind_ok run
  exact ⟨f₁, s₁, f₂, s₂, before, turn, behind⟩

/-! ## Invariants -/

/-- Whichever way the action ends, the invariant of the frame and the engine still holds, and what it yields has the
given property. -/
def Keeps (inv : Frame → Engine → Prop) (act : FrameM α) (yields : α → Prop) : Prop :=
  ∀ f s r f' s', inv f s → f.run act s = ((r, f'), s') → inv f' s' ∧ ∀ a, r = .ok a → yields a

namespace Keeps

variable {inv : Frame → Engine → Prop} {P : α → Prop} {Q : β → Prop}

theorem pure {a : α} (holds : P a) : Keeps inv (Pure.pure a) P := by
  intro f s r f' s' h run
  cases run
  refine ⟨h, fun b same => ?_⟩
  cases same
  exact holds

theorem throw (e : InvokeFailure) : Keeps inv (MonadExcept.throw e) P := by
  intro f s r f' s' h run
  cases run
  exact ⟨h, by simp⟩

theorem bind {act : FrameM α} {next : α → FrameM β} (first : Keeps inv act P)
    (later : ∀ a, P a → Keeps inv (next a) Q) : Keeps inv (act >>= next) Q := by
  intro f s r f'' s'' h run
  rcases run_bind_cases run with ⟨a, f', s', done, rest⟩ | ⟨e, failed, rfl⟩
  · obtain ⟨h', holds⟩ := first f s _ f' s' h done
    exact later a (holds a rfl) f' s' r f'' s'' h' rest
  · exact ⟨(first f s _ f'' s'' h failed).1, by simp⟩

theorem get : Keeps inv (getThe Frame) fun f => ∃ s, inv f s := by
  intro f s r f' s' h run
  cases run
  refine ⟨h, fun a same => ?_⟩
  cases same
  exact ⟨s, h⟩

theorem lift {act : EngineM α} (keeps : ∀ f s, inv f s → inv f (act s).2 ∧ P (act s).1) :
    Keeps inv (liftM act : FrameM α) P := by
  intro f s r f' s' h run
  rw [run_lift] at run
  cases run
  refine ⟨(keeps f s h).1, fun a same => ?_⟩
  cases same
  exact (keeps f s h).2

theorem load (t : NativeType) (a : UInt64) : Keeps inv (liftM (EngineM.load t a) : FrameM Slot) fun _ => True :=
  lift fun _ _ h => ⟨h, trivial⟩

theorem modify {change : Frame → Frame} (keeps : ∀ f s, inv f s → inv (change f) s) :
    Keeps inv (modifyThe Frame change) fun _ => True := by
  intro f s r f' s' h run
  cases run
  exact ⟨keeps f s h, fun _ _ => trivial⟩

theorem convert {ε : Type} {blame : ε → InvokeFailure} {act : ExceptT ε EngineM α}
    (keeps : ∀ f s, inv f s → inv f (act s).2 ∧ ∀ a, (act s).1 = .ok a → P a) :
    Keeps inv (FrameM.convert blame act) P := by
  intro f s r f' s' h run
  rw [run_convert] at run
  obtain ⟨kept, holds⟩ := keeps f s h
  cases run
  refine ⟨kept, fun a same => holds a ?_⟩
  cases result : (act s).1 with
  | error e =>
      rw [result] at same
      cases same
  | ok b =>
      rw [result] at same
      cases same
      rfl

theorem tryCatch {act : FrameM α} {handler : InvokeFailure → FrameM α} (first : Keeps inv act P)
    (later : ∀ e, Keeps inv (handler e) P) : Keeps inv (MonadExcept.tryCatch act handler) P := by
  intro f s r f'' s'' h run
  have run := (run_tryCatch act handler f s).symm.trans run
  rcases done : f.run act s with ⟨⟨result, f'⟩, s'⟩
  rw [done] at run
  cases result with
  | ok a =>
      cases run
      exact first f s _ f'' s'' h done
  | error e => exact later e f' s' r f'' s'' (first f s _ f' s' h done).1 run

end Keeps

/-! ## Two runs side by side -/

/-- What the one action does on a frame, the other does on its image: from a frame that satisfies the invariant they
yield the same, leave the same engine, and leave a frame and its image. A failure is one of those that are allowed. -/
def Mirrored (image : Frame → Frame) (inv : Frame → Prop) (allowed : InvokeFailure → Prop) (act act' : FrameM α) : Prop :=
  ∀ f s r f' s', inv f → f.run act s = ((r, f'), s') →
    inv f' ∧ (∀ e, r = .error e → allowed e) ∧ (image f).run act' s = ((r, image f'), s')

namespace Mirrored

variable {image : Frame → Frame} {inv : Frame → Prop} {allowed : InvokeFailure → Prop}

theorem pure (a : α) : Mirrored image inv allowed (Pure.pure a) (Pure.pure a) := by
  intro f s r f' s' holds run
  cases run
  exact ⟨holds, by simp, rfl⟩

theorem throw {e : InvokeFailure} (allows : allowed e) :
    Mirrored image inv allowed (MonadExcept.throw e : FrameM α) (MonadExcept.throw e) := by
  intro f s r f' s' holds run
  cases run
  refine ⟨holds, fun e' same => ?_, rfl⟩
  cases same
  exact allows

theorem bind {act act' : FrameM α} {next next' : α → FrameM β} (first : Mirrored image inv allowed act act')
    (later : ∀ a, Mirrored image inv allowed (next a) (next' a)) :
    Mirrored image inv allowed (act >>= next) (act' >>= next') := by
  intro f s r f'' s'' holds run
  rcases run_bind_cases run with ⟨a, f', s', done, rest⟩ | ⟨e, failed, rfl⟩
  · obtain ⟨holds', -, same⟩ := first f s _ f' s' holds done
    obtain ⟨holds'', allows, same'⟩ := later a f' s' r f'' s'' holds' rest
    refine ⟨holds'', allows, ?_⟩
    rw [run_bind, same]
    exact same'
  · obtain ⟨holds', allows, same⟩ := first f s _ f'' s'' holds failed
    refine ⟨holds', fun e' is => allows e' (by cases is; rfl), ?_⟩
    rw [run_bind, same]

/-- What comes next may look at the frame, of which the other action sees the image. -/
theorem get_bind {next next' : Frame → FrameM α}
    (later : ∀ f, inv f → Mirrored image inv allowed (next f) (next' (image f))) :
    Mirrored image inv allowed (getThe Frame >>= next) (getThe Frame >>= next') := by
  intro f s r f' s' holds run
  rw [run_bind, run_get] at run
  obtain ⟨holds', allows, same⟩ := later f holds f s r f' s' holds run
  refine ⟨holds', allows, ?_⟩
  rw [run_bind, run_get]
  exact same

theorem lift (act : EngineM α) : Mirrored image inv allowed (liftM act : FrameM α) (liftM act) := by
  intro f s r f' s' holds run
  rw [run_lift] at run
  cases run
  exact ⟨holds, by simp, rfl⟩

theorem convert {ε : Type} {blame : ε → InvokeFailure} {act : ExceptT ε EngineM α}
    (allows : ∀ s c s', act s = (.error c, s') → allowed (blame c)) :
    Mirrored image inv allowed (FrameM.convert blame act) (FrameM.convert blame act) := by
  intro f s r f' s' holds run
  rw [run_convert] at run ⊢
  cases run
  refine ⟨holds, fun e same => ?_, rfl⟩
  cases done : (act s).1 with
  | ok a =>
      rw [done] at same
      cases same
  | error c =>
      rw [done] at same
      cases same
      exact allows s c _ (Prod.ext done rfl)

theorem modify {change change' : Frame → Frame} (same : ∀ f, inv f → change' (image f) = image (change f))
    (kept : ∀ f, inv f → inv (change f)) :
    Mirrored image inv allowed (modifyThe Frame change) (modifyThe Frame change') := by
  intro f s r f' s' holds run
  cases run
  refine ⟨kept f holds, by simp, ?_⟩
  rw [← same f holds]
  rfl

theorem tryCatch {act act' : FrameM α} {handler handler' : InvokeFailure → FrameM α}
    (first : Mirrored image inv allowed act act')
    (later : ∀ e, allowed e → Mirrored image inv allowed (handler e) (handler' e)) :
    Mirrored image inv allowed (MonadExcept.tryCatch act handler) (MonadExcept.tryCatch act' handler') := by
  intro f s r f'' s'' holds run
  have run := (run_tryCatch act handler f s).symm.trans run
  rcases done : f.run act s with ⟨⟨result, f'⟩, s'⟩
  rw [done] at run
  obtain ⟨holds', allows, same⟩ := first f s _ f' s' holds done
  have again := run_tryCatch act' handler' (image f) s
  rw [same] at again
  cases result with
  | ok a =>
      cases run
      exact ⟨holds', allows, again⟩
  | error e =>
      obtain ⟨holds'', allows', same'⟩ := later e (allows e rfl) f' s' r f'' s'' holds' run
      exact ⟨holds'', allows', again.trans same'⟩

theorem forM {items items' : List β} {act act' : β → FrameM Unit}
    (each : List.Forall₂ (fun x x' => Mirrored image inv allowed (act x) (act' x')) items items') :
    Mirrored image inv allowed (items.forM act) (items'.forM act') := by
  induction each with
  | nil => exact pure ()
  | cons head _ ih => exact bind head fun _ => ih

end Mirrored

/-! ## Bindings -/

@[simp] theorem plan_update (f : Frame) (i : Nat) (change : Binding → Binding) :
    (f.update i change).plan = f.plan := rfl

@[simp] theorem cells_update (f : Frame) (i : Nat) (change : Binding → Binding) :
    (f.update i change).cells = f.cells := rfl

@[simp] theorem failure_update (f : Frame) (i : Nat) (change : Binding → Binding) :
    (f.update i change).failure = f.failure := rfl

@[simp] theorem receiver_update (f : Frame) (i : Nat) (change : Binding → Binding) :
    (f.update i change).receiver = f.receiver := rfl

@[simp] theorem returned_update (f : Frame) (i : Nat) (change : Binding → Binding) :
    (f.update i change).returned = f.returned := rfl

@[simp] theorem cell_update (f : Frame) (i j : Nat) (change : Binding → Binding) :
    (f.update i change).cell j = f.cell j := rfl

@[simp] theorem length_bindings_update (f : Frame) (i : Nat) (change : Binding → Binding) :
    (f.update i change).bindings.length = f.bindings.length :=
  List.length_modify _ _ _

theorem binding_update_self {i : Nat} (inside : i < f.bindings.length) (change : Binding → Binding) :
    (f.update i change).binding i = change (f.binding i) := by
  simp [binding, update, inside]

theorem binding_update_of_ne {i j : Nat} (differ : i ≠ j) (change : Binding → Binding) :
    (f.update i change).binding j = f.binding j := by
  simp [binding, update, differ]

/-- What a change keeps in every binding is as it was everywhere. -/
theorem field_update {field : Binding → α} {change : Binding → Binding} (kept : ∀ b, field (change b) = field b)
    (f : Frame) (i k : Nat) : field ((f.update i change).binding k) = field (f.binding k) := by
  simp only [binding, update, List.getElem?_modify]
  cases f.bindings[k]? with
  | none => simp
  | some b =>
      split
      · exact kept b
      · simp

/-- Frames that have a field in common everywhere list the same. -/
theorem map_bindings_congr {field : Binding → α} (length : f'.bindings.length = f.bindings.length)
    (same : ∀ k, field (f'.binding k) = field (f.binding k)) : f'.bindings.map field = f.bindings.map field := by
  refine List.ext_getElem (by simpa using length) fun k here there => ?_
  simp only [List.length_map] at here there
  have at_k := same k
  simp only [binding, List.getElem?_eq_getElem here, List.getElem?_eq_getElem there, Option.getD_some] at at_k
  simpa using at_k

/-- Only what a change does to the binding there matters. -/
theorem update_congr {i : Nat} {first second : Binding → Binding}
    (same : first (f.binding i) = second (f.binding i)) : f.update i first = f.update i second := by
  have bindings : f.bindings.modify i first = f.bindings.modify i second := by
    refine List.ext_getElem? fun j => ?_
    rw [List.getElem?_modify, List.getElem?_modify]
    by_cases here : i = j
    · subst here
      cases found : f.bindings[i]? with
      | none => rfl
      | some b =>
          have at_i : f.binding i = b := by simp [binding, found]
          rw [at_i] at same
          simp [same]
    · simp [here]
  simp only [update, bindings]

theorem update_update (f : Frame) (i : Nat) (first second : Binding → Binding) :
    (f.update i first).update i second = f.update i (second ∘ first) := by
  simp [update, List.modify_modify_eq]

end Frame

end Ferry
