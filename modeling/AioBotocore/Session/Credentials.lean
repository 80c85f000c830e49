/-
The credentials of an `AioSession`: `get_credentials`, called by a user or by a client creation, and `set_credentials`.
The test of `_credentials` and its assignment are apart by the `load_credentials` awaited in between, and no lock spans
them.

A credentials object is a value of `α`. A call of `set_credentials` has a number, and a load knows how many there were
as it started.

- `step_inv`: while no load is under way as another one would start, or as credentials are set, at most one is.
- `session_credentials`: then nothing set is replaced and everybody gets the same object; and any other call can lead to
  the loss of what was set, or to two objects.
-/
import Mathlib.Tactic
import AioBotocore.Async.Run

namespace AioBotocore.Session

open Async Function

variable {α : Type*}

/-! ## Model -/

inductive Pc where
  | idle
  /-- in `load_credentials`, which started after the first `since` calls of `set_credentials` -/
  | loading (since : ℕ)
deriving DecidableEq, Repr

structure St (α : Type*) where
  credentials : Option α
  /-- the call of `set_credentials` that `credentials` come from -/
  source : Option ℕ
  sets : ℕ
  pc : ℕ → Pc
  /-- what `get_credentials` returned, and to whom -/
  rets : List (ℕ × Option α)
  /-- the calls of `set_credentials` whose credentials a load replaced, and the start of that load -/
  replaced : List (ℕ × ℕ)

inductive Op (α : Type*) where
  | setCredentials (c : α)
  | getCredentials (k : ℕ)
  /-- the `load_credentials` of task `k` returns -/
  | loaded (k : ℕ) (c : Option α)
  /-- it raises, or the task is cancelled in it -/
  | loadFails (k : ℕ)
deriving Repr

def init : St α := ⟨none, none, 0, fun _ => .idle, [], []⟩

def step (s : St α) : Op α → St α
  | .setCredentials c => { s with credentials := some c, source := some s.sets, sets := s.sets + 1 }
  | .getCredentials k =>
    match s.pc k with
    | .idle =>
      match s.credentials with
      | some c => { s with rets := s.rets ++ [(k, some c)] }
      | none => { s with pc := update s.pc k (.loading s.sets) }
    | .loading _ => s
  | .loaded k c =>
    match s.pc k with
    | .loading since =>
      { s with credentials := c, source := none, pc := update s.pc k .idle, rets := s.rets ++ [(k, c)],
               replaced := s.replaced ++ (s.source.map fun n => (n, since)).toList }
    | .idle => s
  | .loadFails k =>
    match s.pc k with
    | .loading _ => { s with pc := update s.pc k .idle }
    | .idle => s

inductive Moves (s : St α) : Op α → St α → Prop
  | none (o : Op α) : Moves s o s
  | set (c : α) : Moves s (.setCredentials c) { s with credentials := some c, source := some s.sets, sets := s.sets + 1 }
  | returns {k c} (hc : s.credentials = some c) :
      Moves s (.getCredentials k) { s with rets := s.rets ++ [(k, some c)] }
  | loads {k} (hk : s.pc k = .idle) (hc : s.credentials = .none) :
      Moves s (.getCredentials k) { s with pc := update s.pc k (.loading s.sets) }
  | loaded {k since} (c : Option α) (hk : s.pc k = .loading since) :
      Moves s (.loaded k c)
        { s with credentials := c, source := .none, pc := update s.pc k .idle, rets := s.rets ++ [(k, c)],
                 replaced := s.replaced ++ (s.source.map fun n => (n, since)).toList }
  | fails {k since} (hk : s.pc k = .loading since) : Moves s (.loadFails k) { s with pc := update s.pc k .idle }

theorem step_moves (s : St α) (o : Op α) : Moves s o (step s o) := by
  cases o with
  | setCredentials c => exact .set c
  | getCredentials k =>
    simp only [step]
    cases hk : s.pc k with
    | loading since => exact .none _
    | idle =>
      simp only
      split
      · rename_i c hc
        exact .returns hc
      · rename_i hc
        exact .loads hk hc
  | loaded k c =>
    simp only [step]
    cases hk : s.pc k with
    | idle => exact .none _
    | loading since => exact .loaded c hk
  | loadFails k =>
    simp only [step]
    cases hk : s.pc k with
    | idle => exact .none _
    | loading since => exact .fails hk

/-! ## One load at a time -/

/-- no load is under way -/
def Settled (s : St α) : Prop := ∀ k, s.pc k = .idle

/-- the operation does not meet a load under way: neither does it set credentials nor start a second load meanwhile -/
def Alone (s : St α) : Op α → Prop
  | .setCredentials _ => Settled s
  | .getCredentials _ => s.credentials = none → Settled s
  | _ => True

structure Inv (s : St α) : Prop where
  one : ∀ i j m n, s.pc i = .loading m → s.pc j = .loading n → i = j
  /-- while there is a load, there are no credentials -/
  empty : ∀ k n, s.pc k = .loading n → s.credentials = none
  source : s.credentials = none → s.source = none
  replaced : s.replaced = []

theorem inv_init : Inv (init : St α) := by
  constructor <;> simp [init]

theorem step_inv (s : St α) (o : Op α) (h : Inv s) (hg : Alone s o) : Inv (step s o) := by
  have hmoves := step_moves s o
  generalize step s o = s' at hmoves ⊢
  cases hmoves with
  | none => exact h
  | set c =>
    have hidle : ∀ k n, s.pc k ≠ .loading n := fun k n hk => by
      rw [hg k] at hk
      cases hk
    exact ⟨h.one, fun k n hk => absurd hk (hidle k n), by simp, h.replaced⟩
  | returns hc => exact ⟨h.one, h.empty, h.source, h.replaced⟩
  | @loads k hk hc =>
    have honly : ∀ i n, update s.pc k (.loading s.sets) i = .loading n → i = k := by
      intro i n hi
      by_contra hik
      rw [update_of_ne hik, hg hc i] at hi
      cases hi
    exact ⟨fun i j m n hi hj => (honly i m hi).trans (honly j n hj).symm, fun _ _ _ => hc, h.source, h.replaced⟩
  | @loaded k since c hk =>
    have hidle : ∀ i n, update s.pc k .idle i ≠ .loading n := by
      intro i n hi
      by_cases hik : i = k
      · rw [hik, update_self] at hi
        cases hi
      · rw [update_of_ne hik] at hi
        exact hik (h.one i k n since hi hk)
    have hsource := h.source (h.empty k since hk)
    exact ⟨fun i _ m _ hi => absurd hi (hidle i m), fun i n hi => absurd hi (hidle i n), fun _ => rfl, by
      simp [h.replaced, hsource]⟩
  | @fails k since hk =>
    have hstill : ∀ i n, update s.pc k .idle i = .loading n → s.pc i = .loading n := by
      intro i n hi
      by_cases hik : i = k
      · rw [hik, update_self] at hi
        cases hi
      · rwa [update_of_ne hik] at hi
    exact ⟨fun i j m n hi hj => h.one i j m n (hstill i m hi) (hstill j n hj), fun i n hi => h.empty i n (hstill i n hi),
      h.source, h.replaced⟩

/-- everybody who got credentials got the ones of the session -/
structure Shared (s : St α) : Prop where
  inv : Inv s
  same : ∀ r ∈ s.rets, r.2 = s.credentials ∧ s.credentials ≠ none

/-- the operation sets no credentials, and a load yields some -/
def Yields : Op α → Prop
  | .setCredentials _ => False
  | .loaded _ c => c ≠ none
  | _ => True

theorem step_shared (s : St α) (o : Op α) (h : Shared s) (hg : Alone s o ∧ Yields o) : Shared (step s o) := by
  refine ⟨step_inv s o h.inv hg.1, ?_⟩
  obtain ⟨-, hyields⟩ := hg
  have hmoves := step_moves s o
  generalize step s o = s' at hmoves ⊢
  cases hmoves with
  | none => exact h.same
  | set c => exact hyields.elim
  | @returns k c hc =>
    intro r hr
    rcases List.mem_append.1 hr with hr | hr
    · exact h.same r hr
    · rw [List.mem_singleton.1 hr]
      exact ⟨hc.symm, by simp [hc]⟩
  | loads hk hc => exact h.same
  | @loaded k since c hk =>
    intro r hr
    rcases List.mem_append.1 hr with hr | hr
    · exact absurd (h.inv.empty k since hk) (h.same r hr).2
    · rw [List.mem_singleton.1 hr]
      exact ⟨rfl, hyields⟩
  | fails hk => exact h.same

/-! ## Loads that overlap -/

/-- a load knows the calls of `set_credentials` before its start -/
def Dated (s : St α) : Prop := ∀ k since, s.pc k = .loading since → since ≤ s.sets

theorem step_dated (s : St α) (o : Op α) (h : Dated s) : Dated (step s o) := by
  have hidle : ∀ k i since, update s.pc k .idle i = .loading since → since ≤ s.sets := by
    intro k i since hi
    by_cases hik : i = k
    · rw [hik, update_self] at hi
      cases hi
    · exact h i since (by rwa [update_of_ne hik] at hi)
  have hmoves := step_moves s o
  generalize step s o = s' at hmoves ⊢
  cases hmoves with
  | none => exact h
  | set c => exact fun k since hk => (h k since hk).trans (Nat.le_succ _)
  | returns hc => exact h
  | @loads k hk hc =>
    intro i since hi
    by_cases hik : i = k
    · simp only [hik, update_self, Pc.loading.injEq] at hi
      exact hi.ge
    · exact h i since (by simpa [hik] using hi)
  | loaded c hk => exact hidle _
  | fails hk => exact hidle _

/-- credentials set during a load are replaced when the load ends -/
theorem set_during_load {s : St α} {k since : ℕ} (hk : s.pc k = .loading since) (c : α) (x : Option α) :
    let t := run step s [.setCredentials c, .loaded k x]
    t.credentials = x ∧ (s.sets, since) ∈ t.replaced := by
  simp [step, hk]

/-- two calls that both find no credentials return what their own loads yield -/
theorem get_during_load {s : St α} {j k since : ℕ} (hj : s.pc j = .loading since) (hk : s.pc k = .idle)
    (hc : s.credentials = none) (x y : Option α) :
    let t := run step s [.getCredentials k, .loaded j x, .loaded k y]
    (j, x) ∈ t.rets ∧ (k, y) ∈ t.rets := by
  have hne : j ≠ k := by
    rintro rfl
    rw [hj] at hk
    cases hk
  obtain ⟨c, source, sets, pc, rets, replaced⟩ := s
  simp only at hj hk hc
  subst hc
  simp [step, hk, hj, update_of_ne hne, update_of_ne hne.symm]

/-! ## Runs -/

/-- no load replaced credentials set after its start -/
def SetsKept (s : St α) : Prop := ∀ e ∈ s.replaced, e.1 < e.2

/-- all calls of `get_credentials` returned the same object -/
def OneObject (s : St α) : Prop := ∀ r ∈ s.rets, ∀ r' ∈ s.rets, r.2 = r'.2

/-- **Session credentials.** If, in a run, no call sets credentials or finds none while a load is under way, then at
every time what was set is kept, and if nothing is set and the loads yield credentials, all calls returned the same
object. Each of the two kinds of call does harm: after any run with a load under way, credentials set now are lost if
that load ends, and a second call that finds none returns its own object. -/
theorem session_credentials (ops : List (Op α)) :
    (Along step Alone init ops → ∀ n, SetsKept (run step init (ops.take n)) ∧
      ((∀ o ∈ ops, Yields o) → OneObject (run step init (ops.take n)))) ∧
    (∀ k since, (run step (init : St α) ops).pc k = .loading since → ∀ c x,
      ¬ SetsKept (run step init (ops ++ [.setCredentials c, .loaded k x]))) ∧
    (∀ j k since, (run step (init : St α) ops).pc j = .loading since → (run step (init : St α) ops).pc k = .idle →
      (run step (init : St α) ops).credentials = none → ∀ a b, a ≠ b →
        ¬ OneObject (run step init (ops ++ [.getCredentials k, .loaded j (some a), .loaded k (some b)]))) := by
  refine ⟨fun halone n => ⟨?_, fun hyields => ?_⟩, fun k since hk c x hkept => ?_, ?_⟩
  · have hinv := run_inv_of step_inv inv_init (halone.take n)
    simp [SetsKept, hinv.replaced]
  · have hboth : Along step (fun s o => Alone s o ∧ Yields o) init (ops.take n) := fun j hj =>
      ⟨halone.take n j hj, hyields _ (List.mem_of_mem_take (List.getElem_mem hj))⟩
    have hshared := run_inv_of step_shared ⟨inv_init, by simp [init]⟩ hboth
    intro r hr r' hr'
    exact (hshared.same r hr).1.trans (hshared.same r' hr').1.symm
  · have hdated : Dated (run step (init : St α) ops) := run_inv step_dated (by simp [Dated, init]) ops
    rw [run_append] at hkept
    have hlt := hkept _ (set_during_load hk c x).2
    exact absurd (hdated k since hk) (not_le.2 hlt)
  · intro j k since hj hk hc a b hab hsame
    rw [run_append] at hsame
    obtain ⟨hr, hr'⟩ := get_during_load hj hk hc (some a) (some b)
    exact hab (Option.some.inj (hsame _ hr _ hr'))

/-- one call loads the credentials, and two more get them -/
theorem session_credentials_two :
    OneObject (run step (init : St String) [.getCredentials 0, .loaded 0 (some "a"), .getCredentials 1,
      .getCredentials 2]) := by
  have halone : Along step Alone (init : St String) [.getCredentials 0, .loaded 0 (some "a"), .getCredentials 1,
      .getCredentials 2] := by
    simp only [along_cons, along_nil, and_true]
    exact ⟨fun _ _ => rfl, trivial, fun hc => by simp [step, init] at hc, fun hc => by simp [step, init] at hc⟩
  exact ((session_credentials _).1 halone 4).2 (by simp [Yields])

/-- credentials are set while a load is under way; and two client creations load at the same time -/
theorem overlapping_loads :
    ¬ SetsKept (run step (init : St String) [.getCredentials 0, .setCredentials "set", .loaded 0 (some "a")]) ∧
      ¬ OneObject (run step (init : St String) [.getCredentials 0, .getCredentials 1, .loaded 0 (some "a"),
        .loaded 1 (some "b")]) := by
  constructor
  · intro h
    exact absurd (h (0, 0) (by decide)) (by decide)
  · intro h
    exact absurd (h (0, some "a") (by decide) (1, some "b") (by decide)) (by decide)

end AioBotocore.Session
