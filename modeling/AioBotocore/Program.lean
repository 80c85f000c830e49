/-
Programs that act on a state and may raise: `EStateM`. `Ends m s q r` says how `m` ends from `s`: it returns as `q` says,
or it raises as `r` says.

- `Ends.bind`, `Ends.tryCatch`, `ends_pure`, `ends_throw`, `ends_get`, `ends_modify`: one rule for each way a program is
  put together.
- `Ends.mono`: weaker conclusions.
- `Ends.ok`: what is known of a program that has returned.
-/
import Mathlib.Tactic

namespace Program

variable {ε σ α β : Type}

def Ends (m : EStateM ε σ α) (s : σ) (q : α → σ → Prop) (r : ε → σ → Prop) : Prop :=
  match m s with
  | .ok a t => q a t
  | .error e t => r e t

variable {m : EStateM ε σ α} {s t : σ} {q q' : α → σ → Prop} {r r' : ε → σ → Prop}

theorem Ends.ok {a : α} (h : Ends m s q r) (hm : m s = .ok a t) : q a t := by
  simpa only [Ends, hm] using h

theorem Ends.mono (h : Ends m s q r) (hq : ∀ a t, q a t → q' a t) (hr : ∀ e t, r e t → r' e t) : Ends m s q' r' := by
  unfold Ends at h ⊢
  split
  · rename_i a t hm
    rw [hm] at h
    exact hq a t h
  · rename_i e t hm
    rw [hm] at h
    exact hr e t h

theorem ends_true : Ends m s (fun _ _ => True) fun _ _ => True := by
  unfold Ends
  split <;> trivial

/-! ## Rules -/

theorem ends_pure {a : α} (h : q a s) : Ends (pure a) s q r := h

theorem ends_throw {e : ε} (h : r e s) : Ends (throw e) s q r := h

theorem ends_get {q : σ → σ → Prop} {r : ε → σ → Prop} (h : q s s) : Ends get s q r := h

theorem ends_modify {f : σ → σ} {q : PUnit → σ → Prop} {r : ε → σ → Prop} (h : q ⟨⟩ (f s)) : Ends (modify f) s q r := h

theorem Ends.bind {f : α → EStateM ε σ β} {q : β → σ → Prop} (h : Ends m s (fun a t => Ends (f a) t q r) r) :
    Ends (m >>= f) s q r := by
  unfold Ends at h
  simp only [Ends, Bind.bind, EStateM.bind]
  cases hm : m s with
  | ok a t =>
    rw [hm] at h
    exact h
  | error e t =>
    rw [hm] at h
    exact h

/-- what `m` has done to the state stays when its exception is caught -/
theorem Ends.tryCatch {handle : ε → EStateM ε σ α} (h : Ends m s q fun e t => Ends (handle e) t q r) :
    Ends (tryCatch m handle) s q r := by
  unfold Ends at h
  simp only [Ends, MonadExcept.tryCatch, tryCatchThe, MonadExceptOf.tryCatch, EStateM.tryCatch]
  cases hm : m s with
  | ok a t =>
    rw [hm] at h
    exact h
  | error e t =>
    rw [hm] at h
    exact h

end Program
