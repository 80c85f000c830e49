/-
`contextlib.AsyncExitStack` with contexts entered by some tasks while others unwind it.

The stack keeps the contexts that are entered and not yet popped, the last one first. An unwinding task pops one, awaits
its `__aexit__` and goes on until the stack is empty, so contexts pushed meanwhile are popped too. An `__aexit__` that
raises does not stop it. `entered`, `closed` and `raised` are the history: what was pushed, and whose `__aexit__`
returned or raised.

`Accounted x busy` is the invariant, `busy k` being the context whose `__aexit__` task `k` awaits: an entered context is
in one place, on the stack, with one task, among the closed ones or among those that raised.

- `Accounted.push`, `Accounted.pop`, `Accounted.close`: it is kept.
- `Accounted.closed_iff`: when the stack is empty, every context is closed iff no `__aexit__` has raised and no task is
  in one.

An exit completes when it has found the stack empty. A machine says with `closing` which context the `__aexit__` that a
program counter stands in belongs to, and with `creating` which counters are on the way to a context to push. `Sealed`:
once an exit has completed every context is closed, and nobody is `creating` one from the time an exit is at work.
`Unwinding` is the same for an unwinding task between two contexts.

- `Sealed.stay`, `Sealed.create`, `Sealed.enter`, `Sealed.start`, `Sealed.close`, `Unwinding.pop`: the moves of a task.
- `Unwinding.complete`: an exit completes that nothing has disturbed (`Disturbed`).
-/
import Mathlib.Tactic
import AioBotocore.Async.Count

namespace Async

open Function

structure ExitStack (α : Type*) where
  callbacks : List α
  entered : List α
  closed : List α
  raised : List α
deriving DecidableEq, Repr

namespace ExitStack

variable {α τ π : Type*}

def empty : ExitStack α := ⟨[], [], [], []⟩

def push (x : ExitStack α) (a : α) : ExitStack α :=
  { x with callbacks := a :: x.callbacks, entered := x.entered ++ [a] }

def pop (x : ExitStack α) : ExitStack α := { x with callbacks := x.callbacks.tail }

/-- the `__aexit__` of a popped context returns, or raises -/
def close (x : ExitStack α) (a : α) (ok : Bool) : ExitStack α :=
  if ok then { x with closed := x.closed ++ [a] } else { x with raised := x.raised ++ [a] }

/-- the contexts whose `__aexit__` nobody awaits -/
def placed (x : ExitStack α) : List α := x.callbacks ++ x.closed ++ x.raised

@[simp] theorem push_callbacks (x : ExitStack α) (a : α) : (x.push a).callbacks = a :: x.callbacks := rfl

@[simp] theorem push_entered (x : ExitStack α) (a : α) : (x.push a).entered = x.entered ++ [a] := rfl

@[simp] theorem push_placed (x : ExitStack α) (a : α) : (x.push a).placed = a :: x.placed := rfl

@[simp] theorem pop_entered (x : ExitStack α) : x.pop.entered = x.entered := rfl

theorem placed_pop {x : ExitStack α} {a : α} {as : List α} (hx : x.callbacks = a :: as) :
    x.placed = a :: x.pop.placed := by
  simp [placed, pop, hx]

@[simp] theorem close_callbacks (x : ExitStack α) (a : α) (ok : Bool) : (x.close a ok).callbacks = x.callbacks := by
  unfold close
  split <;> rfl

@[simp] theorem close_entered (x : ExitStack α) (a : α) (ok : Bool) : (x.close a ok).entered = x.entered := by
  unfold close
  split <;> rfl

theorem close_raised_ne_nil (x : ExitStack α) (a : α) (ok : Bool) :
    (x.close a ok).raised ≠ [] ↔ x.raised ≠ [] ∨ ok = false := by
  cases ok <;> simp [close]

theorem close_placed (x : ExitStack α) (a : α) (ok : Bool) : (x.close a ok).placed.Perm (a :: x.placed) := by
  cases ok
  · calc (x.close a false).placed
        = x.callbacks ++ x.closed ++ x.raised ++ [a] := by simp [close, placed]
      _ |>.Perm (a :: x.placed) := List.perm_append_singleton a _
  · calc (x.close a true).placed
        = x.callbacks ++ x.closed ++ a :: x.raised := by simp [close, placed]
      _ |>.Perm (a :: x.placed) := List.perm_middle

/-! ## Where an entered context is -/

structure Accounted (x : ExitStack α) (busy : τ → Option α) : Prop where
  held : ∀ a ∈ x.entered, a ∈ x.placed ∨ ∃ k, busy k = some a
  nodup : x.placed.Nodup
  entered : ∀ a ∈ x.placed, a ∈ x.entered
  popped : ∀ k a, busy k = some a → a ∈ x.entered ∧ a ∉ x.placed
  alone : ∀ j k a, busy j = some a → busy k = some a → j = k

variable {x : ExitStack α} {busy : τ → Option α} {k : τ} {a : α}

theorem accounted_empty : Accounted empty fun _ : τ => (none : Option α) := by
  constructor <;> simp [empty, placed]

theorem Accounted.push (h : x.Accounted busy) (ha : a ∉ x.entered) : (x.push a).Accounted busy := by
  constructor
  · intro b hb
    rw [push_placed, List.mem_cons]
    rcases List.mem_append.1 hb with hb | hb
    · exact (h.held b hb).imp_left .inr
    · exact .inl (.inl (List.mem_singleton.1 hb))
  · rw [push_placed, List.nodup_cons]
    exact ⟨fun hmem => ha (h.entered a hmem), h.nodup⟩
  · intro b hb
    rw [push_entered, List.mem_append, List.mem_singleton]
    rw [push_placed, List.mem_cons] at hb
    exact hb.symm.imp_left (h.entered b)
  · intro j b hj
    obtain ⟨hb, hnot⟩ := h.popped j b hj
    rw [push_placed, List.mem_cons, not_or]
    refine ⟨List.mem_append_left _ hb, ?_, hnot⟩
    rintro rfl
    exact ha hb
  · exact h.alone

/-- when the stack is empty -/
theorem Accounted.closed_iff (h : x.Accounted busy) (hx : x.callbacks = []) :
    (∀ a ∈ x.entered, a ∈ x.closed) ↔ x.raised = [] ∧ ∀ k, busy k = none := by
  constructor
  · intro hclosed
    constructor
    · by_contra hne
      obtain ⟨a, ha⟩ := List.exists_mem_of_ne_nil _ hne
      have hmem : a ∈ x.closed := hclosed a (h.entered a (List.mem_append_right _ ha))
      exact (List.nodup_append'.1 h.nodup).2.2 (List.mem_append_right _ hmem) ha
    · intro k
      by_contra hne
      obtain ⟨a, ha⟩ := Option.ne_none_iff_exists'.1 hne
      obtain ⟨hmem, hnot⟩ := h.popped k a ha
      exact hnot (List.mem_append_left _ (List.mem_append_right _ (hclosed a hmem)))
  · rintro ⟨hraised, hbusy⟩ a ha
    rcases h.held a ha with hplaced | ⟨k, hk⟩
    · simpa [placed, hx, hraised] using hplaced
    · rw [hbusy k] at hk
      cases hk

variable [DecidableEq τ]

theorem Accounted.pop (h : x.Accounted busy) {as : List α} (hx : x.callbacks = a :: as) (hk : busy k = none) :
    x.pop.Accounted (update busy k (some a)) := by
  have hplaced := placed_pop hx
  have hnodup := h.nodup
  rw [hplaced, List.nodup_cons] at hnodup
  have ha : a ∈ x.placed := by simp [hplaced]
  have hother : ∀ j b, busy j = some b → j ≠ k := by
    rintro j b hj rfl
    rw [hk] at hj
    cases hj
  -- the task that pops, or another
  have hbusy : ∀ j b, update busy k (some a) j = some b → j = k ∧ b = a ∨ busy j = some b := by
    intro j b hj
    by_cases hjk : j = k
    · subst hjk
      rw [update_self] at hj
      exact .inl ⟨rfl, (Option.some.inj hj).symm⟩
    · rw [update_of_ne hjk] at hj
      exact .inr hj
  constructor
  · intro b hb
    rcases h.held b hb with hb | ⟨j, hj⟩
    · rw [hplaced, List.mem_cons] at hb
      rcases hb with rfl | hb
      · exact .inr ⟨k, update_self k _ _⟩
      · exact .inl hb
    · exact .inr ⟨j, by rwa [update_of_ne (hother j b hj)]⟩
  · exact hnodup.2
  · intro b hb
    exact h.entered b (by simp [hplaced, hb])
  · intro j b hj
    rcases hbusy j b hj with ⟨-, rfl⟩ | hj
    · exact ⟨h.entered b ha, hnodup.1⟩
    · obtain ⟨hb, hnot⟩ := h.popped j b hj
      exact ⟨hb, fun hmem => hnot (by simp [hplaced, hmem])⟩
  · intro i j b hi hj
    rcases hbusy i b hi with ⟨rfl, rfl⟩ | hi'
    · rcases hbusy j b hj with ⟨rfl, -⟩ | hj'
      · rfl
      · exact absurd ha (h.popped j b hj').2
    · rcases hbusy j b hj with ⟨rfl, rfl⟩ | hj'
      · exact absurd ha (h.popped i b hi').2
      · exact h.alone i j b hi' hj'

theorem Accounted.close (h : x.Accounted busy) (hk : busy k = some a) (ok : Bool) :
    (x.close a ok).Accounted (update busy k none) := by
  have hmem : ∀ b, b ∈ (x.close a ok).placed ↔ b = a ∨ b ∈ x.placed := fun b =>
    (close_placed x a ok).mem_iff.trans List.mem_cons
  have hbusy : ∀ j b, update busy k none j = some b ↔ j ≠ k ∧ busy j = some b := fun j b => update_at_iff (by simp)
  obtain ⟨ha, hnot⟩ := h.popped k a hk
  constructor
  · intro b hb
    rw [close_entered] at hb
    rw [hmem]
    rcases h.held b hb with hb | ⟨j, hj⟩
    · exact .inl (.inr hb)
    · by_cases hjk : j = k
      · subst hjk
        rw [hk] at hj
        exact .inl (.inl (Option.some.inj hj).symm)
      · exact .inr ⟨j, (hbusy j b).2 ⟨hjk, hj⟩⟩
  · rw [(close_placed x a ok).nodup_iff, List.nodup_cons]
    exact ⟨hnot, h.nodup⟩
  · intro b hb
    rw [close_entered]
    rcases (hmem b).1 hb with rfl | hb
    · exact ha
    · exact h.entered b hb
  · intro j b hj
    obtain ⟨hjk, hj⟩ := (hbusy j b).1 hj
    obtain ⟨hb, hfree⟩ := h.popped j b hj
    rw [close_entered, hmem, not_or]
    refine ⟨hb, ?_, hfree⟩
    rintro rfl
    exact hjk (h.alone j k b hj hk)
  · intro i j b hi hj
    exact h.alone i j b ((hbusy i b).1 hi).2 ((hbusy j b).1 hj).2

/-! ## Exits that have completed -/

/-- `completed` exits have completed; or one is at work -/
def Exiting (busy : τ → Option α) (completed : ℕ) : Prop := 0 < completed ∨ ∃ k, busy k ≠ none

section Sealed

variable (closing : π → Option α) (creating : π → Prop)

/-- another task than `k` unwinds the stack too, or an `__aexit__` has raised -/
def Disturbed (x : ExitStack α) (pc : τ → π) (k : τ) : Prop :=
  x.raised ≠ [] ∨ ∃ j, j ≠ k ∧ closing (pc j) ≠ none

structure Sealed (x : ExitStack α) (pc : τ → π) (completed : ℕ) : Prop where
  accounted : x.Accounted (closing ∘ pc)
  callbacks : 0 < completed → x.callbacks = []
  closed : 0 < completed → ∀ a ∈ x.entered, a ∈ x.closed
  quiet : Exiting (closing ∘ pc) completed → ∀ k, ¬ creating (pc k)

structure Unwinding (x : ExitStack α) (pc : τ → π) (k : τ) (completed : ℕ) : Prop where
  accounted : x.Accounted (update (closing ∘ pc) k none)
  callbacks : 0 < completed → x.callbacks = []
  quiet : ∀ j, ¬ creating (pc j)

variable {closing creating} {x : ExitStack α} {pc : τ → π} {k : τ} {v : π} {a : α} {completed : ℕ}

omit [DecidableEq τ] in
theorem sealed_empty {v : π} (hv : closing v = none) : Sealed closing creating empty (fun _ : τ => v) 0 := by
  have hbusy : closing ∘ (fun _ : τ => v) = fun _ => none := funext fun _ => hv
  refine ⟨?_, by simp, by simp, ?_⟩
  · rw [hbusy]
    exact accounted_empty
  · simp [Exiting, hv]

omit [DecidableEq τ] in
theorem Sealed.none_busy (h : Sealed closing creating x pc completed) (hpos : 0 < completed) (k : τ) :
    closing (pc k) = none :=
  ((h.accounted.closed_iff (h.callbacks hpos)).1 (h.closed hpos)).2 k

omit [DecidableEq τ] in
theorem Sealed.not_exiting (h : Sealed closing creating x pc completed) (hk : creating (pc k)) :
    ¬ Exiting (closing ∘ pc) completed := fun hexiting => h.quiet hexiting k hk

theorem comp_update_stay (hk : closing (pc k) = none) (hv : closing v = none) :
    closing ∘ update pc k v = closing ∘ pc := by
  rw [comp_update, hv, ← hk]
  exact update_eq_self k (closing ∘ pc)

theorem Accounted.unwind (h : x.Accounted (closing ∘ pc)) (hk : closing (pc k) = none) :
    x.Accounted (update (closing ∘ pc) k none) := by
  have hbusy : update (closing ∘ pc) k none = closing ∘ pc := by
    rw [← hk]
    exact update_eq_self k (closing ∘ pc)
  rwa [hbusy]

theorem quiet_update (h : ∀ i, ¬ creating (pc i)) (hv : ¬ creating v) : ∀ i, ¬ creating (update pc k v i) :=
  (forall_update_iff pc fun _ w => ¬ creating w).2 ⟨hv, fun i _ => h i⟩

/-- a task moves that neither closes nor creates -/
theorem Sealed.stay (h : Sealed closing creating x pc completed) (hk : closing (pc k) = none) (hv : closing v = none)
    (hnew : ¬ creating v) : Sealed closing creating x (update pc k v) completed := by
  have hbusy := comp_update_stay hk hv
  refine ⟨?_, h.callbacks, h.closed, fun hexiting => ?_⟩
  · rw [hbusy]
    exact h.accounted
  · rw [hbusy] at hexiting
    exact quiet_update (h.quiet hexiting) hnew

/-- a task may come to create a context before there is an exit -/
theorem Sealed.create (h : Sealed closing creating x pc completed) (hk : closing (pc k) = none)
    (hnot : ¬ Exiting (closing ∘ pc) completed) (hv : closing v = none) :
    Sealed closing creating x (update pc k v) completed := by
  have hbusy := comp_update_stay hk hv
  refine ⟨?_, h.callbacks, h.closed, fun hexiting => ?_⟩
  · rw [hbusy]
    exact h.accounted
  · rw [hbusy] at hexiting
    exact absurd hexiting hnot

/-- and may enter one as long as no exit has completed -/
theorem Sealed.enter (h : Sealed closing creating x pc completed) (hk : closing (pc k) = none) (hzero : completed = 0)
    (ha : a ∉ x.entered) (hv : closing v = none) (hnew : ¬ creating v) :
    Sealed closing creating (x.push a) (update pc k v) completed := by
  have hstay := h.stay hk hv hnew
  exact ⟨hstay.accounted.push ha, fun hpos => absurd hzero hpos.ne', fun hpos => absurd hzero hpos.ne', hstay.quiet⟩

/-- an exit starts while nobody creates a context -/
theorem Sealed.start (h : Sealed closing creating x pc completed) (hk : closing (pc k) = none)
    (hquiet : ∀ j, ¬ creating (pc j)) : Unwinding closing creating x pc k completed :=
  ⟨h.accounted.unwind hk, h.callbacks, hquiet⟩

theorem Sealed.close (h : Sealed closing creating x pc completed) (hk : closing (pc k) = some a) (ok : Bool) :
    Unwinding closing creating (x.close a ok) pc k completed := by
  refine ⟨h.accounted.close hk ok, fun hpos => ?_, h.quiet (.inr ⟨k, ?_⟩)⟩
  · rw [close_callbacks, h.callbacks hpos]
  · simp [hk]

theorem Unwinding.pop (h : Unwinding closing creating x pc k completed) {as : List α} (hx : x.callbacks = a :: as)
    (hv : closing v = some a) (hnew : ¬ creating v) : Sealed closing creating x.pop (update pc k v) completed := by
  have hzero : ¬ 0 < completed := fun hpos => by
    rw [h.callbacks hpos] at hx
    cases hx
  refine ⟨?_, fun hpos => absurd hpos hzero, fun hpos => absurd hpos hzero, fun _ => quiet_update h.quiet hnew⟩
  have hpop := h.accounted.pop hx (update_self (f := closing ∘ pc) k none)
  rwa [update_idem, ← hv, ← comp_update] at hpop

/-- what an exit that completes leaves behind -/
theorem closed_iff_not_disturbed (h : x.Accounted (update (closing ∘ pc) k none)) (hx : x.callbacks = []) :
    (∀ a ∈ x.entered, a ∈ x.closed) ↔ ¬ x.Disturbed closing pc k := by
  rw [h.closed_iff hx, forall_update_iff (closing ∘ pc) fun _ b => b = none, Disturbed, not_or, not_not]
  simp only [true_and, comp_apply, not_exists, not_and, not_not]

/-- the exit completes -/
theorem Unwinding.complete (h : Unwinding closing creating x pc k completed) (hx : x.callbacks = [])
    (hfree : ¬ x.Disturbed closing pc k) (hv : closing v = none) (hnew : ¬ creating v) :
    Sealed closing creating x (update pc k v) (completed + 1) := by
  refine ⟨?_, fun _ => hx, fun _ => (closed_iff_not_disturbed h.accounted hx).2 hfree,
    fun _ => quiet_update h.quiet hnew⟩
  rw [comp_update, hv]
  exact h.accounted

end Sealed

end ExitStack

end Async
