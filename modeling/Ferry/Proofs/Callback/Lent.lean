import Ferry.Proofs.Call.Withholding
import Ferry.Proofs.Callback.Loans

/-!
# What native code is lent by answers

`Serves` follows native code and the host through any number of answers of callables, and through calls of native functions,
one inside of the other. Nobody gives the blocks of an answer back: the engine does not, whatever it does in between
(`Serves.extended`), and native code and the host are supposed not to. So when the callback that they were made for is gone, the
blocks for an answer have been released, once each, just when native code was given null or nothing (`lent_of_serves`).
-/

set_option autoImplicit false

namespace Ferry

variable {s s' s'' : Engine} {made : List UInt64} {a : UInt64}

/-! ## All answers -/

/-- All answers so far stand, and nobody owns what was not made yet. -/
structure Standing (floor : Nat) (answers : List Callback.Answer) (s : Engine) : Prop where
  floor_le : floor ≤ s.memory.frontier
  unowned : ∀ a, s.memory.frontier ≤ a.toNat → s.owners.lookup a = none
  stand : ∀ A ∈ answers, A.Stands floor s

/-- Between the two states none of the blocks that were made for answers is given back, and nobody comes to own what was not
made. -/
structure Engine.Honours (s : Engine) (answers : List Callback.Answer) (s' : Engine) : Prop where
  events : ∃ t, s'.events = t ++ s.events
  frontier_le : s.memory.frontier ≤ s'.memory.frontier
  unowned : ∀ a, s'.memory.frontier ≤ a.toNat → s.owners.lookup a = none → s'.owners.lookup a = none
  spares : ∀ A ∈ answers, ∀ a, .block a ∈ A.made → s.Spares a s'

namespace Engine.Honours

variable {answers : List Callback.Answer}

theorem of_spares (spares : ∀ a, s.Spares a s') : s.Honours answers s' :=
  have old := Engine.SparesOld.of_spares spares
  ⟨old.events, old.frontier_le, old.unowned, fun _ _ a _ => spares a⟩

end Engine.Honours

namespace Standing

variable {floor : Nat} {answers : List Callback.Answer} {A : Callback.Answer}

theorem honoured (standing : Standing floor answers s) (step : s.Honours answers s') : Standing floor answers s' where
  floor_le := Nat.le_trans standing.floor_le step.frontier_le
  unowned a behind := step.unowned a behind (standing.unowned a (Nat.le_trans step.frontier_le behind))
  stand A listed := (standing.stand A listed).spared step.events (step.spares A listed)

theorem old (standing : Standing floor answers s) (listed : A ∈ answers) (here : .block a ∈ A.made) :
    floor ≤ a.toNat ∧ a.toNat < s.memory.frontier := by
  obtain ⟨b, same, behind, old, -⟩ := (standing.stand A listed).blocks _ here
  cases same
  exact ⟨behind, old⟩

theorem free (standing : Standing floor answers s) (listed : A ∈ answers) (here : .block a ∈ A.made) :
    s.owners.lookup a = none := by
  obtain ⟨b, same, -, -, free, -⟩ := (standing.stand A listed).blocks _ here
  cases same
  exact free

theorem honours_of_sparesOld (standing : Standing floor answers s) (step : s.SparesOld s') : s.Honours answers s' :=
  ⟨step.events, step.frontier_le, step.unowned, fun _ listed a here => step.spares a (standing.old listed here).2⟩

theorem honours_of_sparesUnowned (standing : Standing floor answers s) (step : s.SparesUnowned s') : s.Honours answers s' where
  events := step.events.imp fun _ told => told.1
  frontier_le := step.frontier_le
  unowned a _ free := (step.spares a free).owners.trans free
  spares _ listed a here := step.spares a (standing.free listed here)

theorem converted (standing : Standing floor answers A.before) (converts : A.Converts made s) : Standing floor answers s := by
  refine standing.honoured ⟨converts.moves.events.imp fun _ told => told.1, converts.moves.frontier_le,
    fun a _ => converts.moves.unowned a, fun B listed a here => ?_⟩
  refine .of_moves converts.moves (fun lost => ?_) (converts.kept a) (standing.free listed here)
  have new : .block a ∈ made.map Resource.block := by
    split at lost
    · cases lost
    · exact lost
  have between := converts.moves.between _ new
  have behind : A.before.memory.frontier ≤ a.toNat := between.1
  have := (standing.old listed here).2
  omega

theorem answered {t : List Event} (standing : Standing floor answers A.before) (undoable : A.Undoable)
    (concluded : (Callback.conclude A.callback.signature A.outcome A.before).2 = s) (events : s.events = t ++ A.before.events)
    (told : A.made = gains t) :
    Standing floor (answers ++ [A]) s ∧ A.before.memory.frontier ≤ s.memory.frontier ∧
      ∀ a, .block a ∈ A.made → A.before.memory.frontier ≤ a.toNat := by
  obtain ⟨made, s₁, converts, rest⟩ := A.exists_converts undoable
  rw [concluded] at rest
  have early := standing.converted converts
  have others := early.honoured (early.honours_of_sparesUnowned rest)
  have stands : ∀ {low : Nat}, low ≤ A.before.memory.frontier → A.Stands low s :=
    fun below => converts.stands rest events told standing.unowned below
  refine ⟨⟨others.floor_le, others.unowned, fun B listed => ?_⟩, Nat.le_trans converts.moves.frontier_le rest.frontier_le,
    fun a here => ?_⟩
  · rcases List.mem_append.mp listed with early | last
    · exact others.stand B early
    · rw [List.mem_singleton.mp last]
      exact stands standing.floor_le
  · obtain ⟨b, same, behind, -⟩ := (stands (Nat.le_refl _)).blocks _ here
    cases same
    exact behind

end Standing

/-! ## Runs -/

variable {World : Type}

/-- What the engine does between answers apart from calls: it looks for plans, drops values and writes to the log. -/
inductive Engine.Settles (s : Engine) : Engine → Prop
  | planned (function : Nat) : s.Settles (functionPlan function s).2
  | dropped (value : Value) : s.Settles (value.release s).2
  | noted (entry : LogEntry) : s.Settles (EngineM.log entry s).2

/-- A run of native code and the host, with the answers before it and those after it. What is supposed is that native code and
the host give no block of an answer back: neither on their own, nor to the notifier, nor with what native code leaves when it
returns. -/
inductive Serves (host : Host World) : List Callback.Answer → Machine World → List Callback.Answer → Machine World → Prop
  | acted {answers : List Callback.Answer} {M M' : Machine World} (honours : M.engine.Honours answers M'.engine) :
    Serves host answers M answers M'
  | both {answers answers' answers'' : List Callback.Answer} {M N M' : Machine World} (first : Serves host answers M answers' N)
    (later : Serves host answers' N answers'' M') : Serves host answers M answers'' M'
  | settled {answers : List Callback.Answer} {M : Machine World} {E : Engine} (settles : M.engine.Settles E) :
    Serves host answers M answers ⟨E, M.world⟩
  | notified {answers : List Callback.Answer} {M : Machine World} (token : UInt64)
    (other : ∀ A ∈ answers, .block token ∉ A.made) :
    Serves host answers M answers ⟨(EngineM.notifyDestroyed token M.engine).2, M.world⟩
  | unentered {answers : List Callback.Answer} {p : Plan} {settings : InvokeSettings} {receiver : Option Value}
    {arguments : List Value} {M M' : Machine World} {r : Except InvokeFailure Value} (obtained : p.Obtained)
    (run : p.execute host settings receiver arguments M = (r, M'))
    (never : ∀ f s g N, p.prepare receiver arguments M.engine = (.ok f, s) →
      f.execute host ⟨f.started settings s, M.world⟩ ≠ ((.ok (), g), N)) : Serves host answers M answers M'
  | entered {answers answers' : List Callback.Answer} {p : Plan} {settings : InvokeSettings} {receiver : Option Value}
    {arguments : List Value} {M M' N : Machine World} {f g h : Frame} {s S : Engine} {r r' : Except InvokeFailure Value}
    (obtained : p.Obtained) (admitted : p.Admits settings arguments)
    (run : p.execute host settings receiver arguments M = (r', M'))
    (built : p.prepare receiver arguments M.engine = (.ok f, s))
    (entered : f.execute host ⟨f.started settings s, M.world⟩ = ((.ok (), g), N))
    (inside : Serves host answers ⟨f.counted (f.started settings s), M.world⟩ answers' N)
    (places : s.memory.SamePlaces N.engine.memory)
    (collected : g.run FrameM.collect (N.engine.noted settings (.callReturned g.plan.name)) = ((r, h), S))
    (withholds : ∀ A ∈ answers', ∀ a, .block a ∈ A.made → f.Withholds s.memory g N.engine.memory h S.memory a) :
    Serves host answers M answers' M'
  | refused {answers : List Callback.Answer} {c : Callback} {slots : List Slot} {place x : Slot} {e : InvokeError}
    {M M' : Machine World} (fails : (Callback.decodeArguments c.signature slots c.signature.params 0 [] M.engine).1 = .error e)
    (run : c.trampolineInto host slots place M = (x, M')) : Serves host answers M answers M'
  | answered {answers answers' : List Callback.Answer} {c : Callback} {slots : List Slot} {place x : Slot} {values : List Value}
    {outcome : Except InvokeFailure Value} {t : List Event} {M N M' : Machine World}
    (decodes : (Callback.decodeArguments c.signature slots c.signature.params 0 [] M.engine).1 = .ok values)
    (called : callCallable host c.callable values M = (outcome, N)) (inside : Serves host answers M answers' N)
    (run : c.trampolineInto host slots place M = (x, M')) (events : M'.engine.events = t ++ N.engine.events) :
    Serves host answers M (answers' ++ [⟨c, outcome, N.engine, gains t⟩]) M'

/-- From one state to the other answers were added. All of them stand, and what was made for those that were added is new. -/
structure Extends (floor : Nat) (s : Engine) (answers answers' : List Callback.Answer) (s' : Engine) : Prop where
  standing : Standing floor answers' s'
  frontier_le : s.memory.frontier ≤ s'.memory.frontier
  added : ∃ new, answers' = answers ++ new ∧ ∀ A ∈ new, ∀ a, .block a ∈ A.made → s.memory.frontier ≤ a.toNat

namespace Extends

variable {floor : Nat} {answers answers' answers'' : List Callback.Answer}

theorem of_honours (start : Standing floor answers s) (step : s.Honours answers s') : Extends floor s answers answers s' :=
  ⟨start.honoured step, step.frontier_le, [], (List.append_nil _).symm, by simp⟩

theorem trans (first : Extends floor s answers answers' s') (later : Extends floor s' answers' answers'' s'') :
    Extends floor s answers answers'' s'' := by
  obtain ⟨new, rfl, fresh⟩ := first.added
  obtain ⟨new', rfl, fresh'⟩ := later.added
  refine ⟨later.standing, Nat.le_trans first.frontier_le later.frontier_le, new ++ new', List.append_assoc _ _ _,
    fun A listed a here => ?_⟩
  rcases List.mem_append.mp listed with early | late
  · exact fresh A early a here
  · exact Nat.le_trans first.frontier_le (fresh' A late a here)

theorem old_or_new (h : Extends floor s answers answers' s') {A : Callback.Answer} (listed : A ∈ answers')
    (here : .block a ∈ A.made) : A ∈ answers ∨ s.memory.frontier ≤ a.toNat := by
  obtain ⟨new, rfl, fresh⟩ := h.added
  exact (List.mem_append.mp listed).imp_right fun late => fresh A late a here

end Extends

theorem Standing.honours_of_settles {floor : Nat} {answers : List Callback.Answer} (start : Standing floor answers s)
    (settles : s.Settles s') : s.Honours answers s' := by
  cases settles with
  | planned function => exact .of_spares fun a => functionPlan_spares function s
  | dropped value => exact start.honours_of_sparesUnowned (release_sparesUnowned value s)
  | noted entry => exact .of_spares fun a => EngineM.log_spares a entry s

section Calls

variable {host : Host World} {floor : Nat} {answers answers' : List Callback.Answer} {p : Plan} {settings : InvokeSettings}
  {receiver : Option Value} {arguments : List Value} {M M' N : Machine World} {f g h : Frame} {S : Engine}
  {r r' : Except InvokeFailure Value}

theorem Frame.sparesOld_counted (settings : InvokeSettings) (obtained : p.Obtained)
    (built : p.prepare receiver arguments s = (.ok f, s')) : s.SparesOld (f.counted (f.started settings s')) := by
  obtain ⟨-, f₀, s₀, fresh, build⟩ := Plan.prepare_ok built
  have behind := Frame.behind_of_build obtained.coherent fresh build
  refine behind.toSparesOld.trans (.of_spares fun a => ?_)
  exact (Frame.noted_spares a s' settings _).trans (Frame.counted_spares a f _)

theorem Extends.of_call (obtained : p.Obtained) (start : Standing floor answers M.engine)
    (built : p.prepare receiver arguments M.engine = (.ok f, s))
    (entered : f.execute host ⟨f.started settings s, M.world⟩ = ((.ok (), g), N))
    (inside : Standing floor answers (f.counted (f.started settings s)) →
      Extends floor (f.counted (f.started settings s)) answers answers' N.engine)
    (places : s.memory.SamePlaces N.engine.memory)
    (collected : g.run FrameM.collect (N.engine.noted settings (.callReturned g.plan.name)) = ((r, h), S))
    (withholds : ∀ A ∈ answers', ∀ a, .block a ∈ A.made → f.Withholds s.memory g N.engine.memory h S.memory a) :
    Extends floor M.engine answers answers' (h.reclaim S).2 := by
  have opened := Frame.sparesOld_counted settings obtained built
  have before := start.honours_of_sparesOld opened
  have ran := inside (start.honoured before)
  have later : s.memory.frontier ≤ (f.counted (f.started settings s)).memory.frontier :=
    ((Frame.noted_spares 0 s settings _).trans (Frame.counted_spares 0 f _)).frontier_le
  have returned := Frame.later_of_returned obtained built entered places collected (Nat.le_trans later ran.frontier_le)
  refine ((Extends.of_honours start before).trans ran).trans (.of_honours ran.standing ⟨returned.1, returned.2.1,
    returned.2.2, fun A listed a here => ?_⟩)
  -- an answer was given before the frame was built, or after that
  have foreign : ¬Between M.engine.memory.frontier s.memory.frontier a := by
    rintro ⟨late, early⟩
    obtain old | new := ran.old_or_new listed here
    · have := (start.old old here).2
      omega
    · omega
  exact Frame.spares_returned obtained built entered places collected (withholds A listed a here) foreign
    (ran.standing.old listed here).2

end Calls

namespace Serves

variable {host : Host World} {answers answers' : List Callback.Answer} {M M' : Machine World}

theorem grows (run : Serves host answers M answers' M') : ∀ A ∈ answers, A ∈ answers' := by
  induction run with
  | acted | settled | notified | unentered | refused => exact fun _ listed => listed
  | both first later early late => exact fun A listed => late A (early A listed)
  | entered _ _ _ _ _ _ _ _ _ inside => exact inside
  | answered decodes called inside run events early => exact fun A listed => List.mem_append_left _ (early A listed)

/-- The engine gives no block of an answer back, whatever it does in a run. -/
theorem extended {floor : Nat} (run : Serves host answers M answers' M') (undoable : ∀ A ∈ answers', A.Undoable)
    (start : Standing floor answers M.engine) : Extends floor M.engine answers answers' M'.engine := by
  induction run with
  | acted honours => exact .of_honours start honours
  | both first later early late =>
      have before := early (fun A listed => undoable A (later.grows A listed)) start
      exact before.trans (late undoable before.standing)
  | settled settles => exact .of_honours start (start.honours_of_settles settles)
  | @notified answers M token other =>
      have spares : ∀ A ∈ answers, ∀ a, .block a ∈ A.made → M.engine.Spares a (EngineM.notifyDestroyed token M.engine).2 := by
        intro A listed a here
        refine EngineM.notifyDestroyed_spares ?_ M.engine
        rintro rfl
        exact other A listed here
      obtain ⟨lost, given⟩ := Frame.notifyDestroyed_givesUp token M.engine
      exact .of_honours start ⟨given.moves.events.imp fun _ told => told.1, given.moves.frontier_le,
        fun a _ => given.moves.unowned a, spares⟩
  | unentered obtained run never =>
      obtain spares | ⟨f, g, h, s, S, N, -, built, entered, -⟩ := Plan.sparesOld_or_enters obtained.coherent run
      · exact .of_honours start (start.honours_of_sparesOld spares)
      · exact absurd entered (never f s g N built)
  | entered obtained admitted run built entered inside places collected withholds ih =>
      obtain ⟨e, impossible, -⟩ | ⟨-, h', S', collected', rfl⟩ := Plan.execute_ends admitted built entered run
      · cases impossible
      · cases collected.symm.trans collected'
        exact .of_call obtained start built entered (ih undoable) places collected withholds
  | @refused answers c slots place x e M M' fails run =>
      rw [Callback.trampolineInto_undecoded place fails] at run
      cases run
      exact .of_honours start (.of_spares fun a => EngineM.log_spares a _ M.engine)
  | @answered answers answers' c slots place x values outcome t M N M' decodes called inside run events ih =>
      have early := ih (fun A listed => undoable A (List.mem_append_left _ listed)) start
      rw [Callback.trampolineInto_called place decodes called] at run
      cases run
      obtain ⟨standing, frontier, new⟩ := Standing.answered (A := ⟨c, outcome, N.engine, gains t⟩) early.standing
        (undoable _ (List.mem_append_right _ (by simp))) rfl events rfl
      exact early.trans ⟨standing, frontier, [_], rfl, by simpa using new⟩

end Serves

theorem Serves.exists_answered {host : Host World} {answers answers' : List Callback.Answer} {c : Callback}
    {values : List Value} {outcome : Except InvokeFailure Value} {M N : Machine World} (slots : List Slot) (place : Slot)
    (decodes : (Callback.decodeArguments c.signature slots c.signature.params 0 [] M.engine).1 = .ok values)
    (called : callCallable host c.callable values M = (outcome, N)) (inside : Serves host answers M answers' N)
    (undoable : Callback.Answer.Undoable ⟨c, outcome, N.engine, []⟩) :
    ∃ t, (c.trampolineInto host slots place M).2.engine.events = t ++ N.engine.events ∧
      Serves host answers M (answers' ++ [⟨c, outcome, N.engine, gains t⟩]) (c.trampolineInto host slots place M).2 := by
  have run := Callback.trampolineInto_called place decodes called
  obtain ⟨made, s, converts, rest⟩ := Callback.Answer.exists_converts undoable
  obtain ⟨t, first, -⟩ := converts.moves.events
  obtain ⟨t', second, -⟩ := rest.events
  have events : (c.trampolineInto host slots place M).2.engine.events = t' ++ t ++ N.engine.events := by
    rw [run, List.append_assoc, ← first]
    exact second
  exact ⟨t' ++ t, events, .answered decodes called inside rfl events⟩

/-- What becomes of the blocks that the engine made for the answers of callables, by the time a callback is destroyed, if
native code gives none of them back: where native code was given an address, all blocks for that answer are alive and none of
them was released; otherwise each block was released once. -/
theorem lent_of_serves {host : Host World} {answers : List Callback.Answer} {c : Callback} {M M' : Machine World} {E : Engine}
    (run : Serves host [] M answers M') (undoable : ∀ A ∈ answers, A.Undoable)
    (unowned : ∀ a, M.engine.memory.frontier ≤ a.toNat → M.engine.owners.lookup a = none)
    (there : c.token.toNat < M.engine.memory.frontier) (destroyed : EngineM.destroyCallback c M'.engine = ((), E)) :
    ∀ A ∈ answers, ∃ t, E.events = t ++ A.before.events ∧
      (∀ x, A.given = some x → ∀ r ∈ A.made, (losses t).count r = 0 ∧ ∃ a, r = .block a ∧ E.memory.Live a) ∧
      (A.callback.signature.result.isMade = true →
        ((∀ r ∈ A.made, (losses t).count r = 1) ↔ ∀ x, A.given = some x → x.isNull = true)) := by
  have standing := (run.extended undoable ⟨Nat.le_refl _, unowned, by simp⟩).standing
  intro A listed
  have before := standing.stand A listed
  have spares : ∀ a, .block a ∈ A.made → M'.engine.Spares a E := by
    intro a here
    obtain ⟨b, same, behind, -⟩ := before.blocks _ here
    cases same
    have other : a ≠ c.token := by
      rintro rfl
      omega
    have step := EngineM.destroyCallback_spares other M'.engine
    rwa [destroyed] at step
  have events : ∃ t, E.events = t ++ M'.engine.events := by
    obtain ⟨t, told, -⟩ := (EngineM.destroyCallback_givesUp c M'.engine).moves.events
    rw [destroyed] at told
    exact ⟨t, told⟩
  have stands := before.spared events spares
  obtain ⟨t, told, counts⟩ := stands.history
  refine ⟨t, told, fun x given r here => ?_, fun has => ⟨fun once x given => ?_, fun null r here => ?_⟩⟩
  · obtain ⟨a, same, -, -, -, live⟩ := stands.blocks r here
    refine ⟨?_, a, same, live (by rw [given]; rfl)⟩
    rw [counts r here, given]
    rfl
  · rw [stands.null x given has, List.eq_nil_iff_forall_not_mem]
    intro r here
    have never := once r here
    rw [counts r here, given] at never
    cases never
  · rw [counts r here]
    cases given : A.given with
    | none => rfl
    | some x =>
        rw [(stands.null x given has).mp (null x given)] at here
        cases here

def dictating : Host Nat where
  enter _ _ := return .zero
  apply _ _ := modifyGet fun M => (.ok (.array [.string "a", if M.world = 0 then .int 5 else .string "b"]),
    ⟨M.engine, M.world + 1⟩)

def dictation : Callback × Engine :=
  match EngineM.makeCallback 7 signature .call { Engine.initial with callables := [⟨7, "words", 1, .host⟩] } with
  | (.ok c, s) => (c, s)
  | (.error _, s) => (⟨0, 0, 0, 7, signature, .call⟩, s)
where
  signature : Signature := {
    namespaceName := "Sample", name := "Words", params := [], result := .array .utf8 .zeroTerminated
    resultTransfer := .nothing, skipResult := false, mayReturnNull := false, canThrow := false }

def dictated : Nat → Machine Nat
  | 0 => ⟨dictation.2, 0⟩
  | calls + 1 => (dictation.1.trampolineInto dictating [] .zero (dictated calls)).2

theorem undoable_dictating (outcome : Except InvokeFailure Value) (E : Engine) (made : List Resource) :
    Callback.Answer.Undoable ⟨dictation.1, outcome, E, made⟩ := by
  have result : dictation.1.signature.result = .array .utf8 .zeroTerminated := rfl
  intro value returned given
  refine ⟨fun element length same => ?_, fun element length items same array item listed => ?_,
    fun element length items same array item listed => ?_⟩ <;>
  · cases result.symm.trans same
    simp [Ty.isUnlinked, Value.within, Value.Overflows]

theorem dictated_answered (answers : List Callback.Answer) {calls : Nat}
    (found : ((dictated calls).engine.callables.find? (·.id == 7)).map (·.body) = some .host) :
    ∃ t outcome, outcome = .ok (.array [.string "a", if (dictated calls).world = 0 then .int 5 else .string "b"]) ∧
      (dictated (calls + 1)).engine.events = t ++ (dictated calls).engine.events ∧
      Serves dictating answers (dictated calls) (answers ++ [⟨dictation.1, outcome, (dictated calls).engine, gains t⟩])
        (dictated (calls + 1)) := by
  obtain ⟨k, here, body⟩ := Option.map_eq_some_iff.mp found
  have called : callCallable dictating dictation.1.callable [] (dictated calls) =
      (.ok (.array [.string "a", if (dictated calls).world = 0 then .int 5 else .string "b"]),
        ⟨(dictated calls).engine, (dictated calls).world + 1⟩) := callCallable_host here body
  have inside : Serves dictating answers (dictated calls) answers ⟨(dictated calls).engine, (dictated calls).world + 1⟩ :=
    .acted (.of_spares fun a => .refl a _)
  obtain ⟨t, events, serves⟩ := Serves.exists_answered (c := dictation.1) [] .zero rfl called inside (undoable_dictating _ _ _)
  exact ⟨t, _, rfl, events, serves⟩

theorem lent_of_serves_dictating : ∃ M M' A B E, Serves dictating [] M [A, B] M' ∧
    EngineM.destroyCallback dictation.1 M'.engine = ((), E) ∧
    (A.made.length = 2 ∧ ∃ t, E.events = t ++ A.before.events ∧ ∀ r ∈ A.made, (losses t).count r = 1) ∧
    (B.made.length = 3 ∧ ∃ t, E.events = t ++ B.before.events ∧ ∀ r ∈ B.made, (losses t).count r = 0) := by
  have owners : (dictated 0).engine.owners = [] := by decide +kernel
  have found : ∀ calls < 2, ((dictated calls).engine.callables.find? (·.id == 7)).map (·.body) = some .host := by
    decide +kernel
  have worlds : (dictated 0).world = 0 ∧ (dictated 1).world = 1 := by decide +kernel
  have lengths : (gains (dictated 0).engine.events).length = 1 ∧ (gains (dictated 1).engine.events).length = 3 ∧
      (gains (dictated 2).engine.events).length = 6 := by decide +kernel
  have converted : (Callback.encodeReturn dictation.1.signature (.array [.string "a", .int 5])
        (dictated 0).engine).1.isOk = false ∧
      (Callback.encodeReturn dictation.1.signature (.array [.string "a", .string "b"]) (dictated 1).engine).1.isOk = true := by
    decide +kernel
  have there : dictation.1.token.toNat < (dictated 0).engine.memory.frontier := by decide +kernel
  obtain ⟨t, first, first_eq, events, serves⟩ := dictated_answered [] (found 0 (by decide))
  obtain ⟨t', second, second_eq, events', serves'⟩ := dictated_answered
    [⟨dictation.1, first, (dictated 0).engine, gains t⟩] (found 1 (by decide))
  have run := Serves.both serves serves'
  have undoable : ∀ A ∈ [⟨dictation.1, first, (dictated 0).engine, gains t⟩] ++
      [⟨dictation.1, second, (dictated 1).engine, gains t'⟩], Callback.Answer.Undoable A := by
    simp [undoable_dictating]
  rcases destroyed : EngineM.destroyCallback dictation.1 (dictated 2).engine with ⟨u, E⟩
  have all := lent_of_serves run undoable (by simp [owners]) there destroyed
  have more : ∀ {s s' : Engine} {t : List Event}, s'.events = t ++ s.events →
      (gains t).length = (gains s'.events).length - (gains s.events).length := by
    intro s s' t told
    rw [told, gains_append, List.length_append, Nat.add_sub_cancel]
  refine ⟨_, _, _, _, E, run, destroyed, ⟨?_, ?_⟩, ?_, ?_⟩
  · rw [more events, lengths.1, lengths.2.1]
  · obtain ⟨t₀, told, -, just⟩ := all _ (List.mem_append_left _ (List.mem_singleton_self _))
    refine ⟨t₀, told, (just rfl).mpr fun x given => ?_⟩
    simp only [Callback.Answer.given, first_eq, worlds.1, if_pos] at given
    cases outcome : (Callback.encodeReturn dictation.1.signature (.array [.string "a", .int 5]) (dictated 0).engine).1 with
    | ok y =>
        rw [outcome] at converted
        cases converted.1
    | error e =>
        rw [outcome] at given
        cases given
  · rw [more events', lengths.2.1, lengths.2.2]
  · obtain ⟨t₀, told, never, -⟩ := all _ (List.mem_append_right _ (List.mem_singleton_self _))
    obtain ⟨y, s₁, outcome⟩ := exists_ok converted.2
    refine ⟨t₀, told, fun r listed => (never y ?_ r listed).1⟩
    simp only [Callback.Answer.given, second_eq, worlds.2, if_neg Nat.one_ne_zero, outcome]
    rfl

end Ferry
