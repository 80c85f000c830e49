/-
The calls of `get_frozen_credentials` on one object (`Credentials.Refreshable`), as the parts of a larger system need them.

- `step_moved`: an operation moves the call it is about, and none that is over.
- `run_grows`: calls that have begun, and what they came to, stay; `step_calls`: they are finitely many.
- `finish_ends`, `cancel_ends`, `resume_work`: how the lock gets on.
-/
import Mathlib.Tactic
import AioBotocore.Credentials.Refreshable

namespace AioBotocore.Credentials

open Async Function

/-! ## Calls -/

def Op.caller : Op → Option ℕ
  | .tick _ => none
  | .call k => some k
  | .resume k => some k
  | .finish k _ => some k
  | .cancel k => some k

/-- the call has returned, has raised or was cancelled -/
def Pc.Over (p : Pc) : Prop := p ≠ .idle ∧ region p = .out

/-- what an operation does to the calls: it moves one that is not over -/
inductive Moved (s s' : St) (o : Op) : Prop
  | none (hpc : s'.pc = s.pc) (hrets : s'.rets = s.rets)
  | to (k : ℕ) (p : Pc) (ho : o.caller = some k) (hk : ¬ (s.pc k).Over) (hp : p ≠ .idle) (hpc : s'.pc = update s.pc k p)
      (hrets : s.rets <+: s'.rets) (hret : ∀ v, p = .returned v → ∃ r ∈ s'.rets, r.value = v)

theorem not_over {p : Pc} (h : p = .idle ∨ region p ≠ .out) : ¬ p.Over := by
  rintro ⟨hidle, hout⟩
  rcases h with h | h
  · exact hidle h
  · exact h hout

variable {B : Base} {C : Cfg} {s t : St} {o : Op} {k : ℕ}

theorem moved_goto (ho : o.caller = some k) (hpc : t.pc = s.pc) (hrets : t.rets = s.rets) (hk : ¬ (s.pc k).Over) {p : Pc}
    (hp : p ≠ .idle) (hp' : ∀ v, p ≠ .returned v) : Moved s (goto t k p) o :=
  .to k p ho hk hp (by rw [goto_pc, hpc]) (by rw [goto_rets, hrets]) fun v hv => absurd hv (hp' v)

theorem moved_ret (ho : o.caller = some k) (hpc : t.pc = s.pc) (hrets : t.rets = s.rets) (hk : ¬ (s.pc k).Over) :
    Moved s (ret t k) o := by
  refine .to k (.returned t.attrs.frozen) ho hk (by simp) (by rw [ret_pc, hpc]) ?_ fun v hv => ?_
  · rw [ret_rets, hrets]
    exact List.prefix_append _ _
  · obtain rfl := Pc.returned.inj hv
    exact ⟨_, by rw [ret_rets]; exact List.mem_append_right _ (List.mem_singleton.2 rfl), rfl⟩

theorem not_over_of_refreshing {im : Bool} (hk : s.pc k = .refreshing im) : ¬ (s.pc k).Over :=
  not_over (.inr (by rw [hk]; simp [region]))

theorem step_moved (B : Base) (C : Cfg) (s : St) (o : Op) : Moved s (step B C s o) o := by
  rcases step_cases B C s o with hs | hm
  · exact .none (by rw [hs]) (by rw [hs])
  generalize step B C s o = s' at hm
  cases hm with
  | tick d => exact .none rfl rfl
  | fresh k hk => exact moved_ret rfl (by rfl) (by rfl) (not_over (.inl hk))
  | queueFree k hk => exact moved_goto rfl (by rfl) (by rfl) (not_over (.inl hk)) (by simp) (by simp)
  | queueHeld k hk => exact moved_goto rfl (by rfl) (by rfl) (not_over (.inl hk)) (by simp) (by simp)
  | start k hk => exact moved_goto rfl (by rfl) (by rfl) (not_over (.inl hk)) (by simp) (by simp)
  | passed k hr h =>
    refine moved_ret rfl (by rfl) (by rfl) (not_over (.inr ?_))
    rcases h with ⟨h, -⟩ | ⟨h, -⟩ <;> rw [h] <;> decide
  | restart k im hr h =>
    refine moved_goto rfl (by rfl) (by rfl) (not_over (.inr ?_)) (by simp) (by simp)
    rcases h with ⟨h, -⟩ | ⟨h, -⟩ <;> rw [h] <;> decide
  | failed k text hk => exact moved_goto rfl (by rfl) (by rfl) (not_over_of_refreshing hk) (by simp) (by simp)
  | swallowed k text hk => exact moved_ret rfl (by rfl) (by rfl) (not_over_of_refreshing hk)
  | rejected k im m a e hk => exact moved_goto rfl (by rfl) (by rfl) (not_over_of_refreshing hk) (by simp) (by simp)
  | expired k im m t hk => exact moved_goto rfl (by rfl) (by rfl) (not_over_of_refreshing hk) (by simp) (by simp)
  | refreshed k im m t hk => exact moved_ret rfl (by rfl) (by rfl) (not_over_of_refreshing hk)
  | aborted k hk => exact moved_goto rfl (by rfl) (by rfl) (not_over (.inr (by rw [hk]; simp))) (by simp) (by simp)
  | dropped k im hk => exact moved_goto rfl (by rfl) (by rfl) (not_over_of_refreshing hk) (by simp) (by simp)

theorem step_pc_of_ne {i : ℕ} (hi : o.caller ≠ some i) : (step B C s o).pc i = s.pc i := by
  rcases step_moved B C s o with ⟨hpc, -⟩ | ⟨k, p, ho, -, -, hpc, -, -⟩
  · rw [hpc]
  · have hik : i ≠ k := fun heq => hi (heq ▸ ho)
    rw [hpc, update_of_ne hik]

/-- what has returned, raised or was cancelled stays so -/
theorem step_over {i : ℕ} (hi : (s.pc i).Over) : (step B C s o).pc i = s.pc i := by
  rcases step_moved B C s o with ⟨hpc, -⟩ | ⟨k, p, -, hk, -, hpc, -, -⟩
  · rw [hpc]
  · have hik : i ≠ k := fun heq => hk (heq ▸ hi)
    rw [hpc, update_of_ne hik]

theorem step_not_idle {i : ℕ} (hi : s.pc i ≠ .idle) : (step B C s o).pc i ≠ .idle := by
  rcases step_moved B C s o with ⟨hpc, -⟩ | ⟨k, p, -, -, hp, hpc, -, -⟩
  · rwa [hpc]
  · rw [hpc]
    by_cases hik : i = k
    · rwa [hik, update_self]
    · rwa [update_of_ne hik]

theorem call_not_idle (hk : s.pc k = .idle) : (step B C s (.call k)).pc k ≠ .idle := by
  have hm : Move B C s (.call k) (step B C s (.call k)) := by
    simp only [step, hk]
    exact call_cases hk
  generalize step B C s (.call k) = s' at hm
  cases hm with
  | fresh => simp
  | queueFree => simp
  | queueHeld => simp
  | start => simp

/-- a call that has begun has begun, and one that is over stays as it is -/
theorem run_grows (s : St) (ops : List Op) (i : ℕ) :
    (s.pc i ≠ .idle → (run (step B C) s ops).pc i ≠ .idle) ∧
      ((s.pc i).Over → (run (step B C) s ops).pc i = s.pc i) := by
  induction ops generalizing s with
  | nil => exact ⟨id, fun _ => rfl⟩
  | cons o ops ih =>
    refine ⟨fun hi => (ih (step B C s o)).1 (step_not_idle hi), fun hi => ?_⟩
    have hstep : (step B C s o).pc i = s.pc i := step_over hi
    rw [run_cons, (ih (step B C s o)).2 (by rwa [hstep]), hstep]

/-- a call that returned is among the returns, and the calls are finitely many -/
structure Calls (s : St) : Prop where
  returned : ∀ k v, s.pc k = .returned v → ∃ r ∈ s.rets, r.value = v
  finite : ∃ n, ∀ k, n ≤ k → s.pc k = .idle

theorem init_calls (C : Cfg) (t0 : ℤ) : Calls (init C t0) :=
  ⟨fun k v hk => by simp [init] at hk, 0, fun k _ => rfl⟩

theorem step_calls (s : St) (o : Op) (h : Calls s) : Calls (step B C s o) := by
  obtain ⟨n, hn⟩ := h.finite
  rcases step_moved B C s o with ⟨hpc, hrets⟩ | ⟨k, p, -, -, -, hpc, hrets, hret⟩
  · exact ⟨fun i v hi => by rw [hrets]; exact h.returned i v (hpc ▸ hi), n, fun i hi => by rw [hpc, hn i hi]⟩
  · refine ⟨fun i v hi => ?_, max n (k + 1), fun i hi => ?_⟩
    · rw [hpc] at hi
      by_cases hik : i = k
      · rw [hik, update_self] at hi
        exact hret v hi
      · rw [update_of_ne hik] at hi
        obtain ⟨r, hr, hv⟩ := h.returned i v hi
        exact ⟨r, hrets.subset hr, hv⟩
    · have hik : i ≠ k := by omega
      rw [hpc, update_of_ne hik, hn i (by omega)]

/-- a dict comes from a refresher that has returned it -/
theorem step_results {m : Metadata} (hm : m ∈ (step B C s o).results) :
    m ∈ s.results ∨ ∃ k, o = .finish k (.returns m) := by
  rcases step_cases B C s o with hs | hmove
  · rw [hs] at hm
    exact .inl hm
  generalize step B C s o = s' at hm hmove
  have happend : ∀ {k m'}, m ∈ s.results ++ [m'] → m ∈ s.results ∨ ∃ i, Op.finish k (.returns m') = .finish i (.returns m) := by
    intro k m' hmem
    rcases List.mem_append.1 hmem with hmem | hmem
    · exact .inl hmem
    · obtain rfl := List.mem_singleton.1 hmem
      exact .inr ⟨k, rfl⟩
  cases hmove with
  | rejected k im m' a e hk => exact happend hm
  | expired k im m' t hk => exact happend hm
  | refreshed k im m' t hk => exact happend hm
  | _ => exact .inl hm

/-! ## The lock -/

theorem finish_cases {im : Bool} (hk : s.pc k = .refreshing im) (out : Outcome) :
    Move B C s (.finish k out) (step B C s (.finish k out)) := by
  simp only [step, hk]
  exact protectedRefresh_cases hk out

/-- the end of the refresher is the end of the call, which gives the lock back -/
theorem finish_ends {im : Bool} (hk : s.pc k = .refreshing im) (out : Outcome) :
    region ((step B C s (.finish k out)).pc k) = .out ∧ (step B C s (.finish k out)).lock = s.lock.release := by
  have hm := finish_cases (B := B) (C := C) hk out
  generalize step B C s (.finish k out) = s' at hm
  have hgoto : ∀ {t : St} {p : Pc}, region p = .out → region ((goto t k p).pc k) = .out := by
    intro t p hp
    rwa [goto_pc, update_self]
  cases hm with
  | failed => exact ⟨hgoto rfl, rfl⟩
  | swallowed => exact ⟨hgoto rfl, rfl⟩
  | rejected => exact ⟨hgoto rfl, rfl⟩
  | expired => exact ⟨hgoto rfl, rfl⟩
  | refreshed => exact ⟨hgoto rfl, rfl⟩

theorem cancel_ends {im : Bool} (hk : s.pc k = .refreshing im) :
    region ((step B C s (.cancel k)).pc k) = .out ∧ (step B C s (.cancel k)).lock = s.lock.release := by
  simp only [step, hk, goto_pc, update_self]
  exact ⟨rfl, rfl⟩

/-- what the lock has still to do -/
def work (l : Lock ℕ) : ℕ := 2 * l.waiters.length + if l.locked then 1 else 0

theorem work_release {l : Lock ℕ} (h : l.locked = true) : work l.release < work l := by
  simp [work, Lock.release, Lock.wakeUpFirst, Lock.locked] at h ⊢
  simp [h]

theorem resume_work (h : Lock.Guards region s.lock s.pc) (hr : s.lock.ready k = true) :
    work (step B C s (.resume k)).lock < work s.lock := by
  obtain ⟨hholder, ws, hws, -, -⟩ := h.ready_spec hr
  have hbefore : work s.lock = 2 * (ws.length + 1) := by simp [work, hws, Lock.locked, hholder]
  have hm : (step B C s (.resume k)).lock = s.lock.resume k ∨ (step B C s (.resume k)).lock = (s.lock.resume k).release := by
    have hqueued := h.queued_of_ready hr
    simp only [step, hr, if_true]
    cases hpc : s.pc k with
    | queuedFree =>
      simp only [lockedFree]
      split_ifs
      · exact .inr rfl
      · exact .inl rfl
    | queuedHeld =>
      simp only [lockedHeld]
      split_ifs
      · exact .inr rfl
      · exact .inl rfl
    | _ => rw [hpc] at hqueued; cases hqueued
  rcases hm with hm | hm
  · rw [hm, hbefore]
    simp [work, Lock.resume, Lock.locked, hws]
    omega
  · rw [hm, hbefore]
    simp [work, Lock.resume, Lock.release, Lock.wakeUpFirst, Lock.locked, hws]

end AioBotocore.Credentials
