import Ferry.Proofs.Callback.Trampolines
import Ferry.Session.Host

/-!
# The host of a session

The scripts that a session gives to native code, and the behaviours that it gives to its callables, do only what the
outside can do: they leave callbacks alone, or reach the engine by its code addresses and by its functions. So
everything that holds whatever the host does holds of the host of a session, `outside_sessionHost`, however deep calls
nest in it.
-/

set_option autoImplicit false

namespace Ferry

namespace EngineM

theorem quiet_makeFailure (domain : UInt32) (code : Int32) (text : List UInt8) : Quiet (makeFailure domain code text) := by
  unfold makeFailure
  refine .bind (quiet_reserve _) fun message => .bind (quiet_writeBytes _ _) fun _ => .bind (quiet_reserve _) fun record => ?_
  exact .bind (quiet_store _ _ _) fun _ => .bind (quiet_store _ _ _) fun _ => .bind (quiet_store _ _ _) fun _ => .pure _

end EngineM

theorem Value.quiet_copy (v : Value) : Quiet v.copy := .bind v.quiet_retain fun _ => .pure v

theorem LibraryFunction.quiet_run (f : LibraryFunction) (arguments : List (NativeType × Slot)) :
    Quiet (f.run arguments) := by
  unfold LibraryFunction.run
  cases f with
  | strlen => exact .get fun s => .refl s
  | strdup =>
      refine .get fun s => ?_
      exact Quiet.bind (EngineM.quiet_reserve _) (fun _ => .bind (EngineM.quiet_writeBytes _ _) fun _ => .pure _) s
  | _ => exact .pure _

theorem Outside.modifyWorld (f : World → World) : Outside (SessionM.modifyWorld f) := .untouched fun M => .refl M.engine

/-! ## Scripts -/

/-- Whatever loop it runs in, the action of a script does what the outside can do. -/
def ScriptM.KeepsOut {α : Type} (act : ScriptM α) : Prop := ∀ s : ScriptState, Outside (act s)

namespace ScriptM.KeepsOut

variable {α β : Type}

theorem pure (a : α) : KeepsOut (Pure.pure a : ScriptM α) := fun s => .pure (a, s)

theorem bind {act : ScriptM α} {next : α → ScriptM β} (first : KeepsOut act) (later : ∀ a, KeepsOut (next a)) :
    KeepsOut (act >>= next) := fun s => .bind (first s) fun x => later x.1 x.2

theorem get : KeepsOut (getThe ScriptState : ScriptM ScriptState) := fun s => .pure (s, s)

theorem modify (f : ScriptState → ScriptState) : KeepsOut (modifyThe ScriptState f : ScriptM PUnit) :=
  fun _ => .untouched fun M => .refl M.engine

theorem run {act : SessionM α} (outside : Outside act) : KeepsOut (StateT.lift act) :=
  fun _ => .bind outside fun _ => .pure _

theorem run_machine {next : Machine World → ScriptM α} (s : ScriptState) (M : Machine World) :
    (ScriptM.machine >>= next) s M = next M s M := rfl

theorem machine : KeepsOut ScriptM.machine := .run .get

theorem lift {act : EngineM α} (quiet : Quiet act) : KeepsOut (ScriptM.lift act) := .run (.engine quiet)

theorem record {e : Event} (other : e.lost? = none) : KeepsOut (ScriptM.record e) := .lift (EngineM.quiet_record other)

theorem view (t : NativeType) (slot : Slot) : KeepsOut (ScriptM.view t slot) := .bind .machine fun _ => .pure _

theorem save (name : String) (slot : Slot) : KeepsOut (ScriptM.save name slot) := .run (.modifyWorld _)

theorem allocate (name : String) (size : Nat) (bytes : List UInt8) : KeepsOut (ScriptM.allocate name size bytes) := by
  intro s
  refine .untouched fun M => ?_
  unfold ScriptM.allocate
  rw [run_machine]
  rcases made : M.engine.memory.allocate? (.native name) size with _ | ⟨a, memory⟩
  · exact .refl M.engine
  · have forward := (Memory.allocate?_evolves made).frontier_le
    exact EngineM.untouched_memory (by rwa [Memory.frontier_write])

theorem iterate {act : ScriptM Unit} (body : KeepsOut act) (index count : Nat) :
    KeepsOut (ScriptM.iterate act index count) := by
  induction count generalizing index with
  | zero => exact .pure ()
  | succ count ih => exact .bind (.modify _) fun _ => .bind body fun _ => .bind (.modify _) fun _ => ih (index + 1)

end ScriptM.KeepsOut

section Scripts

variable {host : Host World}

theorem Expr.keepsOut (e : Expr) : e.eval.KeepsOut := by
  induction e with
  | literal i => exact .pure _
  | argument i =>
      refine .bind .get fun s => ?_
      split
      · exact .pure _
      · exact .pure _
  | index => exact .bind .get fun s => .pure _
  | load t address ih => exact .bind ih fun a => .bind (.lift (EngineM.quiet_load t a)) fun slot => .pure _
  | add a b first second => exact .bind first fun _ => .bind second fun _ => .pure _
  | sub a b first second => exact .bind first fun _ => .bind second fun _ => .pure _
  | mul a b first second => exact .bind first fun _ => .bind second fun _ => .pure _
  | less a b first second => exact .bind first fun _ => .bind second fun _ => .pure _
  | equal a b first second => exact .bind first fun _ => .bind second fun _ => .pure _
  | notifier => exact .pure _
  | _ => exact .bind .machine fun _ => .pure _

theorem ScriptM.keepsOut_evalArguments (arguments : List (NativeType × Expr)) :
    (ScriptM.evalArguments arguments).KeepsOut := by
  induction arguments with
  | nil => exact .pure []
  | cons x rest ih => exact .bind (Expr.keepsOut x.2) fun _ => .bind ih fun _ => .pure _

mutual

theorem Action.keepsOut (outside : host.Outside) (a : Action) : (a.run host).KeepsOut := by
  cases a with
  | readValue t address =>
      exact .bind (Expr.keepsOut address) fun a => .bind (.lift (EngineM.quiet_load t a)) fun slot =>
        .bind (.view t slot) fun _ => .record rfl
  | readText address => exact .bind (Expr.keepsOut address) fun a => .bind .machine fun _ => .record rfl
  | readBytes address count =>
      exact .bind (Expr.keepsOut address) fun a => .bind (Expr.keepsOut count) fun n =>
        .bind (.lift (EngineM.quiet_readBytes a n.toNat)) fun _ => .record rfl
  | write t address value =>
      exact .bind (Expr.keepsOut address) fun a => .bind (Expr.keepsOut value) fun v => .lift (EngineM.quiet_store t a ⟨v⟩)
  | allocate name contents =>
      cases contents with
      | bytes bytes => exact .allocate _ _ _
      | zeros size => exact .bind (Expr.keepsOut size) fun n => .allocate _ _ _
  | free address => exact .bind (Expr.keepsOut address) fun a => .lift (EngineM.quiet_unreserve a)
  | giveBack value => exact .bind (Expr.keepsOut value) fun v => .modify _
  | fail address domain code text =>
      exact .bind (Expr.keepsOut address) fun a => .bind (.lift (EngineM.quiet_makeFailure _ _ _)) fun record =>
        .lift (EngineM.quiet_store _ _ _)
  | withdraw address =>
      exact .bind (Expr.keepsOut address) fun a => .bind (.lift (EngineM.quiet_load _ a)) fun record =>
        .bind (.lift (Frame.quiet_freeFailure _)) fun _ => .lift (EngineM.quiet_store _ _ _)
  | save name value => exact .bind (Expr.keepsOut value) fun v => .save name ⟨v⟩
  | present t value => exact .bind (Expr.keepsOut value) fun v => .bind (.view t ⟨v⟩) fun _ => .record rfl
  | call code arguments result name =>
      refine .bind (Expr.keepsOut code) fun address => .bind (ScriptM.keepsOut_evalArguments arguments) fun slots => ?_
      refine .bind (.run (.callCode outside address slots)) fun slot => .bind (.view result slot) fun shown => ?_
      refine .bind (.record rfl) fun _ => ?_
      cases name with
      | none => exact .pure ()
      | some name => exact .save name _
  | loop count body => exact .bind (Expr.keepsOut count) fun n => .iterate (Script.keepsOut_runAll outside body) _ _
  | branch condition yes no =>
      refine .bind (Expr.keepsOut condition) fun c => ?_
      split
      · exact Script.keepsOut_runAll outside yes
      · exact Script.keepsOut_runAll outside no

theorem Script.keepsOut_runAll (outside : host.Outside) (actions : List Action) :
    (Script.runAll host actions).KeepsOut := by
  cases actions with
  | nil => exact .pure ()
  | cons a rest => exact .bind (Action.keepsOut outside a) fun _ => Script.keepsOut_runAll outside rest

end

theorem Script.outside_run (outside : host.Outside) (script : Script) (arguments : List (NativeType × Slot)) :
    Outside (script.run host arguments) := .bind (Script.keepsOut_runAll outside script _) fun _ => .pure _

theorem Expr.outside_evalAlone (e : Expr) : Outside e.evalAlone := .bind (e.keepsOut _) fun _ => .pure _

end Scripts

/-! ## Behaviours -/

section Behaviours

variable {host : Host World}

theorem SessionM.outside_world : Outside SessionM.world := .bind .get fun _ => .pure _

mutual

theorem Literal.outside_eval (l : Literal) : Outside l.eval := by
  cases l with
  | array items => exact .bind (Literal.outside_evalAll items) fun _ => .pure _
  | pointer e => exact .bind e.outside_evalAlone fun _ => .pure _
  | boxed name =>
      refine .bind SessionM.outside_world fun w => ?_
      split
      · exact .engine (Value.quiet_copy _)
      · exact .pure _
  | function name =>
      refine .bind SessionM.outside_world fun w => ?_
      split
      · exact .engine (Value.quiet_copy _)
      · exact .pure _
  | _ => exact .pure _

theorem Literal.outside_evalAll (items : List Literal) : Outside (Literal.evalAll items) := by
  cases items with
  | nil => exact .pure []
  | cons l rest => exact .bind l.outside_eval fun v => .bind (Literal.outside_evalAll rest) fun _ => .pure _

end

theorem Behaviour.outside_run (outside : host.Outside) (arguments : List Value) (b : Behaviour) :
    Outside (b.run host arguments) := by
  cases b with
  | give l => exact .bind l.outside_eval fun _ => .pure _
  | argument i => exact .bind (.engine (Value.quiet_copy _)) fun _ => .pure _
  | arguments => exact .bind (.engine (Value.quiet_copy _)) fun _ => .pure _
  | fail text => exact .pure _
  | panic text => exact .pure _
  | script s => exact .bind (Script.outside_run outside s []) fun _ => .pure _
  | invoke name values =>
      refine .bind SessionM.outside_world fun w => ?_
      split
      · exact .pure _
      · cases values with
        | none => exact .call outside.enter _ _ _
        | some literals =>
            refine .bind (Literal.outside_evalAll literals) fun values => .bind (.call outside.enter _ _ _) fun outcome => ?_
            exact .bind (.engine (Value.quiet_releaseAll values)) fun _ => .pure _

theorem NativeCode.outside_run (outside : host.Outside) (code : NativeCode) (arguments : List (NativeType × Slot)) :
    Outside (code.run host arguments) :=
  .bind .get fun _ => .bind (.engine (EngineM.quiet_record rfl)) fun _ => Script.outside_run outside code.script arguments

theorem HostCode.outside_run (outside : host.Outside) (callable : Nat) (code : HostCode) (arguments : List Value) :
    Outside (code.run host callable arguments) := by
  refine .bind .get fun _ => .bind (.engine (EngineM.quiet_record rfl)) fun _ => .bind (.modifyWorld _) fun _ => ?_
  split
  · exact Behaviour.outside_run outside arguments _
  · exact .pure _

end Behaviours

/-- Each level of nesting does what the outside can do if the one below does. -/
theorem outside_hostWithin (depth : Nat) : (hostWithin depth).Outside := by
  induction depth with
  | zero => exact ⟨fun _ _ => .pure _, fun _ _ => .pure _⟩
  | succ depth ih =>
      refine ⟨fun address arguments => ?_, fun callable arguments => ?_⟩
      · unfold hostWithin
        simp only
        split
        · exact .engine (LibraryFunction.quiet_run _ _)
        · refine .bind SessionM.outside_world fun w => ?_
          split
          · exact NativeCode.outside_run ih _ _
          · exact .pure _
      · refine .bind SessionM.outside_world fun w => ?_
        split
        · exact HostCode.outside_run ih _ _ _
        · exact .pure _

theorem outside_sessionHost : sessionHost.Outside := outside_hostWithin nestingLimit

end Ferry
