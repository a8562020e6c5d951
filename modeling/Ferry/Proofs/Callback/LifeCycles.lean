import Ferry.Proofs.Callback.Trampolines

/-!
# Every run keeps callbacks in order

The life cycle of callbacks holds in every run that begins with a new engine, on any platform, whatever native code and
the callables of the host do: `lifeCycle_of_run`. A run has a trace; each of its traces leads by moves of the engine to where the run
ends, with no frame left; and along it every callback goes from the frame that it was made for to its end.
-/

set_option autoImplicit false

namespace Ferry

variable {World : Type}

theorem lifeCycle_of_run {α : Type} {act : Run World α} (outside : Outside act) (platform : Platform) (w : World) :
    (∃ τ, Traces act ⟨.on platform, w⟩ [] τ) ∧
    ∀ τ, Traces act ⟨.on platform, w⟩ [] τ →
      Path ⟨.on platform, []⟩ τ ⟨(act ⟨.on platform, w⟩).2.engine, []⟩ ∧ (τ.Distinct → LifeCycle τ) := by
  refine ⟨exists_traces outside _ _ (plansCoherent_on platform), fun τ traces => ?_⟩
  have path := traces.path.1
  exact ⟨path, path.lifeCycle (Moment.kept_on platform) rfl⟩

/-- Native code calls the handler with its data, and then gives it back twice. -/
def releasing : Host Unit where
  enter _ arguments := do
    let _ ← callCode silent (handed arguments 0).address [handed arguments 1]
    let _ ← callCode silent Engine.notifier [handed arguments 1]
    callCode silent Engine.notifier [handed arguments 1]
  apply _ _ := return .ok .undefined
where
  handed (arguments : List (NativeType × Slot)) (i : Nat) : Slot := (arguments[i]?.map (·.2)).getD .zero

theorem lifeCycle_of_run_releasing : ∃ τ, Traces (subscribing releasing) ⟨.initial, ()⟩ [] τ ∧ LifeCycle τ ∧
    (subscribing releasing ⟨.initial, ()⟩).2.engine.destroyed = [0] := by
  have quiet : silent.Outside := ⟨fun _ _ => .pure _, fun _ _ => .pure _⟩
  have outside : Outside (subscribing releasing) := outside_subscribing fun _ _ =>
    .bind (.callCode quiet _ _) fun _ => .bind (.callCode quiet _ _) fun _ => .callCode quiet _ _
  obtain ⟨⟨τ, traces⟩, all⟩ := lifeCycle_of_run outside .bare ()
  obtain ⟨path, lives⟩ := all τ traces
  exact ⟨τ, traces, lives (path.distinct_of_room (.on .bare) (by decide +kernel)), by decide +kernel⟩

end Ferry
