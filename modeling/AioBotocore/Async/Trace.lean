/-
Calls with results, on an object with a state. A call that fails has a result too, an error, and leaves a state.

- `trace`: the results of a list of calls, and the state they leave.
- `trace_refines`: an object whose successful calls follow a specification follows it over every list of calls that all
  succeed.
- `trace_total`: the same for an object whose calls all succeed.
-/
import Mathlib.Tactic

namespace Async

variable {σ α ι ρ ε : Type*}

def trace (call : σ → ι → ρ × σ) : σ → List ι → List ρ × σ
  | s, [] => ([], s)
  | s, i :: is =>
    let t := trace call (call s i).2 is
    ((call s i).1 :: t.1, t.2)

/-- **Refinement rule.** If related states give the specified result whenever a call succeeds, and stay related, then a
list of calls that all succeed gives the specified results and leaves related states. -/
theorem trace_refines {call : σ → ι → Except ε ρ × σ} {spec : α → ι → ρ × α} {R : α → σ → Prop}
    (hcall : ∀ a s i r, R a s → (call s i).1 = .ok r → r = (spec a i).1 ∧ R (spec a i).2 (call s i).2) {a : α} {s : σ}
    (h : R a s) {is : List ι} {rs : List ρ} (hok : (trace call s is).1 = rs.map .ok) :
    rs = (trace spec a is).1 ∧ R (trace spec a is).2 (trace call s is).2 := by
  induction is generalizing a s rs with
  | nil => exact ⟨by simpa [trace] using hok.symm, h⟩
  | cons i is ih =>
    cases rs with
    | nil => simp [trace] at hok
    | cons r rs =>
      obtain ⟨h1, h2⟩ := List.cons.inj hok
      obtain ⟨hr, hR⟩ := hcall a s i r h h1
      obtain ⟨hrs, hend⟩ := ih hR h2
      exact ⟨by rw [hr, hrs]; rfl, hend⟩

/-- **Refinement rule, total.** If related states give the specified result, and stay related, so do lists of calls. -/
theorem trace_total {call : σ → ι → Except ε ρ × σ} {spec : α → ι → ρ × α} {R : α → σ → Prop}
    (hcall : ∀ a s i, R a s → (call s i).1 = .ok (spec a i).1 ∧ R (spec a i).2 (call s i).2) {a : α} {s : σ}
    (h : R a s) (is : List ι) :
    (trace call s is).1 = (trace spec a is).1.map .ok ∧ R (trace spec a is).2 (trace call s is).2 := by
  induction is generalizing a s with
  | nil => exact ⟨rfl, h⟩
  | cons i is ih =>
    obtain ⟨hr, hR⟩ := hcall a s i h
    obtain ⟨hrs, hend⟩ := ih hR
    exact ⟨by simp [trace, hr, hrs], hend⟩

end Async
