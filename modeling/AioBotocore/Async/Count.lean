/-
Where tasks stand, and how many, when their program counters change one at a time. The tasks may be infinitely many.

- `update_at_iff`: who stands where a task has not moved to.
- `count_stay`, `count_join`, `count_leave`: one task moves.
- `count_alone`: at most one task stands there.
- `held_stay`, `held_take`, `held_release`: the tasks of a lock that is mutual exclusion alone, `lock` being the one
  that has it.
-/
import Mathlib.Tactic
import Mathlib.Data.Set.Card

namespace Async

open Function

variable {τ π : Type*} [DecidableEq τ]

theorem update_at_iff {f : τ → π} {k i : τ} {v q : π} (hv : v ≠ q) : update f k v i = q ↔ i ≠ k ∧ f i = q := by
  by_cases hi : i = k
  · subst hi
    simpa using hv
  · simp [hi]

/-- the number of tasks whose counter satisfies `p` -/
noncomputable def count (p : π → Prop) (pc : τ → π) : ℕ∞ := {k | p (pc k)}.encard

variable {p : π → Prop} {f : τ → π} {k : τ} {v : π}

omit [DecidableEq τ] in
theorem count_none (h : ∀ k, ¬ p (f k)) : count p f = 0 := by
  rw [count, Set.encard_eq_zero, Set.eq_empty_iff_forall_notMem]
  exact h

omit [DecidableEq τ] in
theorem count_pos (h : p (f k)) : 1 ≤ count p f := by
  rw [count, Set.one_le_encard_iff_nonempty]
  exact ⟨k, h⟩

omit [DecidableEq τ] in
theorem count_alone (h : count p f ≤ 1) {i j : τ} (hi : p (f i)) (hj : p (f j)) : i = j :=
  Set.encard_le_one_iff.1 h i j hi hj

omit [DecidableEq τ] in
theorem count_only (hk : p (f k)) (h : ∀ j, p (f j) → j = k) : count p f = 1 := by
  have hset : {i | p (f i)} = {k} := by
    ext i
    exact ⟨h i, fun hi => hi ▸ hk⟩
  rw [count, hset, Set.encard_singleton]

/-- a task moves, and stands there as before or not -/
theorem count_stay (h : p v ↔ p (f k)) : count p (update f k v) = count p f := by
  have hset : {i | p (update f k v i)} = {i | p (f i)} := by
    ext i
    by_cases hi : i = k
    · subst hi
      simpa using h
    · simp [hi]
  rw [count, hset, count]

theorem count_join (hk : ¬ p (f k)) (hv : p v) : count p (update f k v) = count p f + 1 := by
  have hset : {i | p (update f k v i)} = insert k {i | p (f i)} := by
    ext i
    by_cases hi : i = k
    · subst hi
      simpa using hv
    · simp [hi]
  have hnot : k ∉ {i | p (f i)} := hk
  rw [count, hset, Set.encard_insert_of_notMem hnot, count]

theorem count_leave (hk : p (f k)) (hv : ¬ p v) : count p (update f k v) + 1 = count p f := by
  have hjoin := count_join (f := update f k v) (k := k) (v := f k) (by simpa using hv) hk
  rw [update_idem, update_eq_self] at hjoin
  exact hjoin.symm

/-! ## A lock -/

variable {lock : Option τ}

/-- a task without the lock moves to where it has not got it either -/
theorem held_stay (h : ∀ k, p (f k) ↔ lock = some k) (hk : ¬ p (f k)) (hv : ¬ p v) (i : τ) :
    p (update f k v i) ↔ lock = some i := by
  by_cases hi : i = k
  · subst hi
    rw [update_self, ← h]
    exact iff_of_false hv hk
  · rw [update_of_ne hi, h]

/-- the free lock is taken -/
theorem held_take (h : ∀ k, p (f k) ↔ lock = some k) (hl : lock = none) (hv : p v) (i : τ) :
    p (update f k v i) ↔ some k = some i := by
  by_cases hi : i = k
  · subst hi
    simp [hv]
  · rw [update_of_ne hi, h, hl]
    simpa using fun heq => hi heq.symm

/-- the lock is released -/
theorem held_release (h : ∀ k, p (f k) ↔ lock = some k) (hk : p (f k)) (hv : ¬ p v) (i : τ) :
    p (update f k v i) ↔ (none : Option τ) = some i := by
  have hheld := (h k).1 hk
  by_cases hi : i = k
  · subst hi
    simpa using hv
  · rw [update_of_ne hi, h, hheld]
    simpa using fun heq => hi heq.symm

end Async
