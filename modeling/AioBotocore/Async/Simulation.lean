/-
One machine does what another does. Each step of the first is matched by steps of the second, none or several, on the
state that a map gives; conditions on the steps of the first carry over to those of the second.

- `run_simulates`: a run is matched by a run.
-/
import Mathlib.Tactic
import AioBotocore.Async.Run

namespace Async

variable {σ ο α ι : Type*} {step : σ → ο → σ} {step' : α → ι → α}

theorem along_append (Good : σ → ο → Prop) (s : σ) (a b : List ο) :
    Along step Good s (a ++ b) ↔ Along step Good s a ∧ Along step Good (run step s a) b := by
  induction a generalizing s with
  | nil => simp
  | cons o a ih => rw [List.cons_append, along_cons, along_cons, ih, run_cons, and_assoc]

/-- **Simulation rule.** If each step that meets a condition is matched by steps that meet another, so is a run. -/
theorem run_simulates {I : σ → Prop} {Good : σ → ο → Prop} {Good' : α → ι → Prop} {f : σ → α}
    (hI : ∀ s o, I s → Good s o → I (step s o))
    (hstep : ∀ s o, I s → Good s o → ∃ ops, Along step' Good' (f s) ops ∧ f (step s o) = run step' (f s) ops)
    {s : σ} (h : I s) {ops : List ο} (hgood : Along step Good s ops) :
    ∃ ops', Along step' Good' (f s) ops' ∧ f (run step s ops) = run step' (f s) ops' := by
  induction ops generalizing s with
  | nil => exact ⟨[], along_nil Good' (f s), rfl⟩
  | cons o ops ih =>
    rw [along_cons] at hgood
    obtain ⟨first, hfirst, hone⟩ := hstep s o h hgood.1
    obtain ⟨rest, hrest, hall⟩ := ih (hI s o h hgood.1) hgood.2
    refine ⟨first ++ rest, (along_append Good' (f s) first rest).2 ⟨hfirst, hone ▸ hrest⟩, ?_⟩
    calc f (run step s (o :: ops))
        = run step' (f (step s o)) rest := by rw [run_cons, hall]
      _ = run step' (f s) (first ++ rest) := by rw [hone, run_append]

end Async
