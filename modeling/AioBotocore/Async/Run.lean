/-
Runs of a machine given by a total step function. An operation that is not enabled in a state leaves it unchanged, so
a run is any list of operations: every interleaving of every number of actors is such a list.

- `run_inv`: what every step preserves, every run preserves; `run_inv_of` when only the steps meeting a condition do,
  `forall_take_iff` when it fails at once otherwise, `forall_take_iff_forall` for a condition on the operation alone.
- `log_run_forall`: every entry of a log that only grows is good iff no step of the run adds a bad one;
  `forall_split_snoc` for what an entry has to do with those before it.
- `run_potential`: a potential that each step raises by at most `gain` is bounded by the gains of the run.
- `run_frozen`: a value that no step of the run changes.
-/
import Mathlib.Tactic

namespace Async

variable {σ ο ε : Type*} (step : σ → ο → σ)

def run (s : σ) (ops : List ο) : σ := ops.foldl step s

@[simp] theorem run_nil (s : σ) : run step s [] = s := rfl

@[simp] theorem run_cons (s : σ) (o : ο) (ops : List ο) : run step s (o :: ops) = run step (step s o) ops := rfl

theorem run_append (s : σ) (a b : List ο) : run step s (a ++ b) = run step (run step s a) b := by
  simp [run, List.foldl_append]

/-! ## Invariants -/

variable {step}

theorem run_inv {I : σ → Prop} (hstep : ∀ s o, I s → I (step s o)) {s : σ} (h : I s) (ops : List ο) :
    I (run step s ops) := by
  induction ops generalizing s with
  | nil => exact h
  | cons o ops ih => exact ih (hstep s o h)

/-- the step at position `j` of a run meets `Good` (in the state the run has reached there) -/
def Along (step : σ → ο → σ) (Good : σ → ο → Prop) (s : σ) (ops : List ο) : Prop :=
  ∀ j, ∀ hj : j < ops.length, Good (run step s (ops.take j)) ops[j]

@[simp] theorem along_nil (Good : σ → ο → Prop) (s : σ) : Along step Good s [] := by
  intro j hj; simp at hj

theorem along_cons (Good : σ → ο → Prop) (s : σ) (o : ο) (ops : List ο) :
    Along step Good s (o :: ops) ↔ Good s o ∧ Along step Good (step s o) ops := by
  constructor
  · intro h
    refine ⟨h 0 (by simp), fun j hj => ?_⟩
    have hj' : j + 1 < (o :: ops).length := by simpa using hj
    simpa using h (j + 1) hj'
  · rintro ⟨h0, h⟩ j hj
    cases j with
    | zero => exact h0
    | succ j => simpa using h j (by simpa using hj)

theorem along_of_forall {Good : σ → ο → Prop} (s : σ) {ops : List ο} (h : ∀ o ∈ ops, ∀ s, Good s o) :
    Along step Good s ops := fun _ _ => h _ (List.getElem_mem _) _

instance decidableAlong (Good : σ → ο → Prop) [∀ s o, Decidable (Good s o)] :
    (s : σ) → (ops : List ο) → Decidable (Along step Good s ops)
  | s, [] => isTrue (along_nil Good s)
  | s, o :: ops =>
    have := decidableAlong Good (step s o) ops
    decidable_of_iff _ (along_cons Good s o ops).symm

theorem run_inv_of {I : σ → Prop} {Good : σ → ο → Prop} (hstep : ∀ s o, I s → Good s o → I (step s o)) {s : σ}
    (h : I s) {ops : List ο} (hg : Along step Good s ops) : I (run step s ops) := by
  induction ops generalizing s with
  | nil => exact h
  | cons o ops ih =>
    rw [along_cons] at hg
    exact ih (hstep s o h hg.1) hg.2

theorem Along.take {Good : σ → ο → Prop} {s : σ} {ops : List ο} (h : Along step Good s ops) (n : ℕ) :
    Along step Good s (ops.take n) := by
  intro j hj
  rw [List.length_take] at hj
  have hjn : j < n := by omega
  rw [List.getElem_take, List.take_take, min_eq_left hjn.le]
  exact h j (by omega)

/-- **Exactness rule.** If the steps meeting a condition preserve `I`, which implies `P`, and any other step from `I`
ends outside `P`, then a run stays in `P` iff all its steps meet the condition. -/
theorem forall_take_iff {I P : σ → Prop} {Good : σ → ο → Prop} (hstep : ∀ s o, I s → Good s o → I (step s o))
    (hP : ∀ s, I s → P s) (hbad : ∀ s o, I s → ¬ Good s o → ¬ P (step s o)) {s : σ} (h : I s) (ops : List ο) :
    (∀ n, P (run step s (ops.take n))) ↔ Along step Good s ops := by
  constructor
  · intro hall
    induction ops generalizing s with
    | nil => exact along_nil Good s
    | cons o ops ih =>
      have hgood : Good s o := by
        by_contra hnot
        exact hbad s o h hnot (hall 1)
      exact (along_cons Good s o ops).2 ⟨hgood, ih (hstep s o h hgood) fun n => hall (n + 1)⟩
  · intro hgood n
    exact hP _ (run_inv_of hstep h (hgood.take n))

/-- **Exactness rule for conditions on operations.** If the operations meeting a condition preserve `I`, which may speak of
the operations done so far and implies `P`, and any other operation from `I` ends outside `P`, then a run stays in `P` iff
all its operations meet the condition. -/
theorem forall_take_iff_forall {I P : List ο → σ → Prop} {Good : ο → Prop} {s : σ} {ops : List ο} (h : I [] s)
    (hstep : ∀ done st, ∀ o ∈ ops, I done st → Good o → I (done ++ [o]) (step st o))
    (hP : ∀ done st, I done st → P done st)
    (hbad : ∀ done st, ∀ o ∈ ops, I done st → ¬ Good o → ¬ P (done ++ [o]) (step st o)) :
    (∀ n, P (ops.take n) (run step s (ops.take n))) ↔ ∀ o ∈ ops, Good o := by
  have hsucc : ∀ n, ∀ hn : n < ops.length,
      run step s (ops.take (n + 1)) = step (run step s (ops.take n)) ops[n] := by
    intro n hn
    rw [List.take_succ_eq_append_getElem hn, run_append]
    rfl
  constructor
  · intro hall
    have hgood : ∀ n, n ≤ ops.length → I (ops.take n) (run step s (ops.take n)) ∧ ∀ o ∈ ops.take n, Good o := by
      intro n
      induction n with
      | zero => exact fun _ => ⟨h, fun o ho => by cases ho⟩
      | succ n ih =>
        intro hn
        obtain ⟨hI, hbefore⟩ := ih (by omega)
        have hmem : ops[n] ∈ ops := List.getElem_mem hn
        have hnow : Good ops[n] := by
          by_contra hnot
          have hP' := hall (n + 1)
          rw [hsucc n hn, List.take_succ_eq_append_getElem hn] at hP'
          exact hbad _ _ _ hmem hI hnot hP'
        rw [hsucc n hn, List.take_succ_eq_append_getElem hn]
        refine ⟨hstep _ _ _ hmem hI hnow, fun o ho => ?_⟩
        rcases List.mem_append.1 ho with ho | ho
        · exact hbefore o ho
        · rw [List.mem_singleton.1 ho]
          exact hnow
    intro o ho
    have hall := (hgood ops.length le_rfl).2
    rw [List.take_length] at hall
    exact hall o ho
  · intro hall n
    apply hP
    induction n with
    | zero => exact h
    | succ n ih =>
      by_cases hn : n < ops.length
      · rw [hsucc n hn, List.take_succ_eq_append_getElem hn]
        exact hstep _ _ _ (List.getElem_mem hn) ih (hall _ (List.getElem_mem hn))
      · rw [List.take_of_length_le (by omega)]
        rwa [List.take_of_length_le (by omega)] at ih

/-- along a run that stays in `I`, conditions that agree on `I` are the same -/
theorem along_congr {I : σ → Prop} {P Q : σ → ο → Prop} (hI : ∀ s o, I s → I (step s o))
    (hPQ : ∀ s o, I s → (P s o ↔ Q s o)) {s : σ} (h : I s) (ops : List ο) :
    Along step P s ops ↔ Along step Q s ops := by
  induction ops generalizing s with
  | nil => simp
  | cons o ops ih => rw [along_cons, along_cons, hPQ s o h, ih (hI s o h)]

/-- a value that every step keeps while the run stays in `I` is the same at the end -/
theorem run_frozen {α : Type*} {I : σ → Prop} (f : σ → α) (hI : ∀ s o, I s → I (step s o))
    (hf : ∀ s o, I s → f (step s o) = f s) {s : σ} (h : I s) (ops : List ο) : f (run step s ops) = f s := by
  induction ops generalizing s with
  | nil => rfl
  | cons o ops ih => rw [run_cons, ih (hI s o h), hf s o h]

/-! ## Logs -/

/-- what a step adds to a log that only grows at its end -/
def added (step : σ → ο → σ) (log : σ → List ε) (s : σ) (o : ο) : List ε := (log (step s o)).drop (log s).length

theorem mem_iff_drop {l l' : List ε} (h : l <+: l') (e : ε) : e ∈ l' ↔ e ∈ l ∨ e ∈ l'.drop l.length := by
  obtain ⟨t, rfl⟩ := h
  simp

/-- **Log rule.** Every entry of the log of a run is good iff the log began good and no step of the run adds a bad
entry. -/
theorem log_run_forall {log : σ → List ε} (hpre : ∀ s o, log s <+: log (step s o)) (P : ε → Prop) (s : σ)
    (ops : List ο) :
    (∀ e ∈ log (run step s ops), P e) ↔
      (∀ e ∈ log s, P e) ∧ Along step (fun s o => ∀ e ∈ added step log s o, P e) s ops := by
  induction ops generalizing s with
  | nil => simp
  | cons o ops ih =>
    rw [run_cons, ih, along_cons, ← and_assoc]
    refine and_congr_left' ⟨fun h => ?_, fun h e he => ?_⟩
    · exact ⟨fun e he => h e ((hpre s o).subset he), fun e he => h e (List.mem_of_mem_drop he)⟩
    · exact ((mem_iff_drop (hpre s o) e).1 he).elim (h.1 e) (h.2 e)

/-- what holds of each entry and the entries before it, when another is added -/
theorem forall_split_snoc {P : List ε → ε → Prop} {log : List ε} (h : ∀ a e b, log = a ++ e :: b → P a e) {x : ε}
    (hx : P log x) : ∀ a e b, log ++ [x] = a ++ e :: b → P a e := by
  intro a e b hab
  rcases List.eq_nil_or_concat b with rfl | ⟨b', y, rfl⟩
  · obtain ⟨rfl, hxe⟩ := List.append_inj' hab rfl
    rwa [← List.singleton_inj.1 hxe]
  · have hab' : log ++ [x] = (a ++ e :: b') ++ [y] := by simpa using hab
    obtain ⟨hlog, -⟩ := List.append_inj' hab' rfl
    exact h a e b' hlog

/-! ## Potentials -/

/-- what the steps of a run gain together -/
def total {β : Type*} [AddZeroClass β] (step : σ → ο → σ) (gain : σ → ο → β) : σ → List ο → β
  | _, [] => 0
  | s, o :: ops => gain s o + total step gain (step s o) ops

/-- **Potential rule.** If each step raises `Φ` by at most `gain`, a run raises it by at most the sum of the gains. -/
theorem run_potential {β : Type*} [AddCommMonoid β] [PartialOrder β] [IsOrderedAddMonoid β] {I : σ → Prop} {Φ : σ → β}
    {gain : σ → ο → β} (hI : ∀ s o, I s → I (step s o)) (hstep : ∀ s o, I s → Φ (step s o) ≤ Φ s + gain s o) {s : σ}
    (h : I s) (ops : List ο) : Φ (run step s ops) ≤ Φ s + total step gain s ops := by
  induction ops generalizing s with
  | nil => simp [total]
  | cons o ops ih =>
    calc Φ (run step (step s o) ops)
        ≤ Φ (step s o) + total step gain (step s o) ops := ih (hI s o h)
      _ ≤ Φ s + gain s o + total step gain (step s o) ops := by gcongr; exact hstep s o h
      _ = Φ s + total step gain s (o :: ops) := by rw [total, add_assoc]

end Async
