/-
Expired credentials and failed refreshes (`AioRefreshableCredentials._protected_refresh`).

Whether a refresh is mandatory is decided before the await; a failure of an advisory one is swallowed after it. Nothing
looks at the expiry time again on that path (`AioDeferredRefreshableToken._protected_refresh` does, after either
outcome). And only an exception of `_refresh_using` is inside the `try`: a dict that `_set_from_data` rejects, or whose
credentials have expired, raises in an advisory refresh too.

Results:
- `never_expired_iff`: all credentials a run hands out are unexpired at the instant of the return, if and only if no
  advisory refresh of the run fails after the current credentials have expired.
- `advisory_failure_iff`: a failed refresh that began outside the mandatory window is harmless (the call returns the
  current, still valid credentials and nothing stored has changed) if and only if the refresher raised, and did so
  before the credentials expired.
Witnesses: `slow_failure_hands_out_expired`, `rejected_results_not_harmless`.
-/
import Mathlib.Tactic
import AioBotocore.Credentials.Refreshable

namespace AioBotocore.Credentials

open Async Function

variable {B : Base} {C : Cfg} {s : St}

/-! ## Expired returns -/

/-- the credentials of a return have not expired at its instant -/
def Unexpired (B : Base) (C : Cfg) (r : Ret) : Prop := ∀ e, expiryOf B C r.origin = some e → r.time ≤ e

/-- an advisory refresh fails when the current credentials have expired meanwhile -/
def slowFailure (C : Cfg) (s : St) : Op → Bool
  | .finish k (.raises _) => decide (s.pc k = .refreshing false) && isExpired C s.attrs s.now
  | _ => false

theorem not_expired_iff (a : Attrs) (now : ℤ) (t : ℕ) (h : refreshNeeded C a now t = false) :
    ∀ e, a.expiryTime = some e → now + t ≤ e := by
  intro e he
  unfold refreshNeeded at h
  split_ifs at h
  rw [he] at h
  have : ¬ (e - now < t) := by simpa using h
  omega

theorem unexpired_of_fresh (hd : Data B C s) {t : ℕ} (h : refreshNeeded C s.attrs s.now t = false) (k : ℕ) :
    Unexpired B C ⟨k, s.attrs.frozen, s.origin, s.now⟩ := by
  intro e he
  have := not_expired_iff s.attrs s.now t h e (hd.expiry.trans he)
  show s.now ≤ e
  omega

theorem expired_of_isExpired (hd : Data B C s) (h : isExpired C s.attrs s.now = true)
    (hs : C.ctor = .deferred → s.attrs.frozen ≠ none) (k : ℕ) :
    ¬ Unexpired B C ⟨k, s.attrs.frozen, s.origin, s.now⟩ := by
  intro hu
  unfold isExpired refreshNeeded at h
  split_ifs at h with hc
  · exact hs hc.1 hc.2
  · cases he : s.attrs.expiryTime with
    | none => rw [he] at h; cases h
    | some e =>
      rw [he] at h
      have h1 : e - s.now < (0 : ℕ) := by simpa using h
      have h2 : s.now ≤ e := hu e (hd.expiry.symm.trans he)
      push_cast at h1
      omega

theorem step_rets (B : Base) (C : Cfg) (s : St) (o : Op) : s.rets <+: (step B C s o).rets := by
  rcases step_cases B C s o with hs | hm
  · rw [hs]
  · generalize step B C s o = s' at hm
    cases hm <;> first
      | exact List.prefix_refl _
      | exact List.prefix_append _ _

/-- a return added by a move that is no late failure -/
theorem move_unexpired {o : Op} {s' : St} (h : Data B C s) (hm : Move B C s o s') (ho : slowFailure C s o = false) :
    ∀ r ∈ s'.rets.drop s.rets.length, Unexpired B C r := by
  have none' : ∀ r ∈ s.rets.drop s.rets.length, Unexpired B C r := by simp
  have one : ∀ r0, Unexpired B C r0 → ∀ r ∈ (s.rets ++ [r0]).drop s.rets.length, Unexpired B C r := by
    intro r0 h0 r hr
    rw [List.drop_left, List.mem_singleton] at hr
    exact hr ▸ h0
  cases hm with
  | fresh k hk hf =>
    rcases hf with hf | ⟨-, hf⟩
    · exact one _ (unexpired_of_fresh h hf k)
    · exact one _ (unexpired_of_fresh h hf k)
  | passed k hr hf =>
    rcases hf with ⟨-, hf⟩ | ⟨-, hf⟩
    · exact one _ (unexpired_of_fresh h hf k)
    · exact one _ (unexpired_of_fresh h hf k)
  | swallowed k text hk =>
    have he : isExpired C s.attrs s.now = false := by simpa [slowFailure, hk] using ho
    exact one _ (unexpired_of_fresh h he k)
  | refreshed k im m t hk hg he => exact one _ (unexpired_of_fresh (s := store s m t) (h.store hg) he k)
  | _ => exact none'

theorem step_unexpired_iff (h : Inv B C s) (o : Op) :
    (∀ r ∈ added (step B C) St.rets s o, Unexpired B C r) ↔ slowFailure C s o = false := by
  constructor
  · intro hr
    by_contra hs
    have hs : slowFailure C s o = true := by simpa using hs
    match o with
    | .finish k (.raises text) =>
      obtain ⟨hk, he⟩ : s.pc k = .refreshing false ∧ isExpired C s.attrs s.now = true := by simpa [slowFailure] using hs
      refine expired_of_isExpired h.data he (h.data.advisory k hk) k (hr _ ?_)
      simp [added, step, hk, protectedRefresh, unlock]
  · intro ho
    rcases step_cases B C s o with hs | hm
    · simp [added, hs]
    · exact move_unexpired h.data hm ho

/-- **Expired credentials are handed out by late failures only.** All returns of a run are of unexpired credentials iff
no step of the run is the failure of an advisory refresh that comes after the current credentials have expired. -/
theorem never_expired_iff (B : Base) (C : Cfg) (t0 : ℤ) (ops : List Op) :
    (∀ r ∈ (exec B C t0 ops).rets, Unexpired B C r) ↔
      Along (step B C) (fun s o => slowFailure C s o = false) (init C t0) ops := by
  rw [log_run_forall (step_rets B C) (Unexpired B C)]
  rw [along_congr (step_inv B C) (fun s o h => step_unexpired_iff h o) (inv_init B C t0) ops]
  simp [init]

/-! ### A slow failure -/

/-- `dateutil`'s parser on the strings used below, in microseconds from 2026-01-01T00:00:00Z -/
def isoTimes : Value → Option ℤ
  | some "2026-01-01T01:00:00Z" => some (seconds 3600)
  | some "2025-12-31T23:00:00Z" => some (-(seconds 3600))
  | _ => none

/-- credentials that expire `n` seconds after the start -/
def expiringIn (n : ℕ) : Ctor :=
  .refreshable (some "AKIDOLD") (some "SECRETOLD") (some "TOKENOLD") none (some (seconds n))

/-- a call begins an advisory refresh, which times out after `n` seconds -/
def timeoutAfter (n : ℕ) : List Op := [.call 0, .tick (seconds n), .finish 0 (.raises "Connect timeout")]

/-- **Expired credentials are handed out.** 700 seconds before the expiry (20 seconds, with the S3 Express timeouts)
the refresh is advisory; it fails a second after the expiry, and the call returns the expired credentials. -/
theorem slow_failure_hands_out_expired :
    (¬ ∀ r ∈ (exec (botocore isoTimes) (withDefaults (expiringIn 700)) 0 (timeoutAfter 701)).rets,
      Unexpired (botocore isoTimes) (withDefaults (expiringIn 700)) r) ∧
    ¬ ∀ r ∈ (exec (botocore isoTimes) (s3Express (expiringIn 20)) 0 (timeoutAfter 21)).rets,
      Unexpired (botocore isoTimes) (s3Express (expiringIn 20)) r := by
  constructor
  · intro h
    exact absurd (h ⟨0, (expiringIn 700).attrs.frozen, none, seconds 701⟩ (by decide) (seconds 700) rfl) (by decide)
  · intro h
    exact absurd (h ⟨0, (expiringIn 20).attrs.frozen, none, seconds 21⟩ (by decide) (seconds 20) rfl) (by decide)

/-! ## Failed advisory refreshes -/

/-- the ways a refresh fails: the refresher raises, or its dict misses a key, has a bad expiry time, or holds
credentials that have expired -/
def Fails (B : Base) (now : ℤ) : Outcome → Prop
  | .raises _ => True
  | .returns m => ∀ t, Good B m t → t < now

/-- the call of `k` that ends in `s'` returns the credentials of `s`, still valid, and nothing stored has changed -/
def Harmless (C : Cfg) (s s' : St) (k : ℕ) : Prop :=
  s'.pc k = .returned s.attrs.frozen ∧ isExpired C s.attrs s'.now = false ∧ s'.attrs = s.attrs

instance (C : Cfg) (s s' : St) (k : ℕ) : Decidable (Harmless C s s' k) :=
  inferInstanceAs (Decidable (_ ∧ _ ∧ _))

def Done : Pc → Prop
  | .returned _ | .raised _ | .cancelled => True
  | _ => False

theorem inside_iff {p : Pc} : region p = .inside ↔ ∃ im, p = .refreshing im := by
  cases p <;> simp [region]

theorem not_done_of_region {p : Pc} (h : region p ≠ .out) : ¬ Done p := by
  cases p <;> simp_all [region, Done]

/-- at most one task `j` moves, to `p`: a refresh in flight can only end, only its task changes the attributes, and a
refresh that begins is mandatory iff the state says so -/
def Moves (C : Cfg) (s s' : St) : Prop :=
  s'.pc = s.pc ∧ s'.attrs = s.attrs ∨ ∃ j p, s'.pc = update s.pc j p ∧ ¬ Done (s.pc j) ∧
    (InFlight s j → Done p) ∧ (¬ InFlight s j → s'.attrs = s.attrs) ∧
    ∀ im, p = .refreshing im → im = refreshNeeded C s.attrs s.now C.mandatory

theorem move_moves (h : Lock.Guards region s.lock s.pc) {o : Op} {s' : St} (hm : Move B C s o s') : Moves C s s' := by
  have away : ∀ j p, region (s.pc j) ≠ .inside → ¬ Done (s.pc j) → s'.pc = update s.pc j p → s'.attrs = s.attrs →
      (∀ im, p = .refreshing im → im = refreshNeeded C s.attrs s.now C.mandatory) → Moves C s s' := by
    intro j p hj hd hpc ha him
    exact Or.inr ⟨j, p, hpc, hd, fun hf => absurd (inside_iff.2 hf) hj, fun _ => ha, him⟩
  have inside : ∀ j im p, s.pc j = .refreshing im → s'.pc = update s.pc j p → Done p → Moves C s s' := by
    intro j im p hj hpc hp
    refine Or.inr ⟨j, p, hpc, by rw [hj]; exact id, fun _ => hp, fun hn => absurd ⟨im, hj⟩ hn, fun im' e => ?_⟩
    rw [e] at hp; exact hp.elim
  have idle : ∀ j, s.pc j = .idle → region (s.pc j) ≠ .inside ∧ ¬ Done (s.pc j) := by
    intro j hj; rw [hj]; exact ⟨by decide, id⟩
  have queued : ∀ j, region (s.pc j) = .queued → region (s.pc j) ≠ .inside ∧ ¬ Done (s.pc j) := by
    intro j hj; exact ⟨by rw [hj]; decide, not_done_of_region (by rw [hj]; decide)⟩
  cases hm with
  | tick d => exact Or.inl ⟨rfl, rfl⟩
  | fresh j hj => exact away j _ (idle j hj).1 (idle j hj).2 rfl rfl (by simp)
  | queueFree j hj => exact away j _ (idle j hj).1 (idle j hj).2 rfl rfl (by simp)
  | queueHeld j hj => exact away j _ (idle j hj).1 (idle j hj).2 rfl rfl (by simp)
  | start j hj => exact away j _ (idle j hj).1 (idle j hj).2 rfl rfl (by simp)
  | passed j hr =>
    obtain ⟨h1, h2⟩ := queued j (h.queued_of_ready hr)
    exact away j _ h1 h2 rfl rfl (by simp)
  | restart j im hr hc =>
    obtain ⟨h1, h2⟩ := queued j (h.queued_of_ready hr)
    refine away j _ h1 h2 rfl rfl fun im' e => ?_
    cases e
    rcases hc with ⟨-, he⟩ | ⟨-, he, hmand⟩
    · exact he
    · exact he.trans hmand.symm
  | aborted j hj => exact away j _ (queued j hj).1 (queued j hj).2 rfl rfl (by simp)
  | failed j text hj => exact inside j _ _ hj rfl trivial
  | swallowed j text hj => exact inside j _ _ hj rfl trivial
  | rejected j im m a e hj => exact inside j _ _ hj rfl trivial
  | expired j im m t hj => exact inside j _ _ hj rfl trivial
  | refreshed j im m t hj => exact inside j _ _ hj rfl trivial
  | dropped j im hj => exact inside j _ _ hj rfl trivial

theorem step_moves (B : Base) (C : Cfg) (h : Inv B C s) (o : Op) : Moves C s (step B C s o) := by
  rcases step_cases B C s o with hs | hm
  · rw [hs]; exact Or.inl ⟨rfl, rfl⟩
  · exact move_moves h.guards hm

/-- a task in the middle of a refresh stays there or ends, and no other task changes the attributes -/
theorem step_refreshing (h : Inv B C s) {k : ℕ} (hk : InFlight s k) (o : Op) :
    (step B C s o).pc k = s.pc k ∧ (step B C s o).attrs = s.attrs ∨ Done ((step B C s o).pc k) := by
  rcases step_moves B C h o with ⟨hpc, ha⟩ | ⟨j, p, hpc, -, hend, ha, -⟩
  · rw [hpc]; exact Or.inl ⟨rfl, ha⟩
  · rw [hpc]
    by_cases hkj : k = j
    · subst hkj; rw [update_self]; exact Or.inr (hend hk)
    · rw [update_of_ne hkj]
      exact Or.inl ⟨rfl, ha fun hj => hkj (in_flight_unique h hk hj)⟩

/-- a call that has ended stays ended -/
theorem step_done (h : Inv B C s) {k : ℕ} (hk : Done (s.pc k)) (o : Op) : (step B C s o).pc k = s.pc k := by
  rcases step_moves B C h o with ⟨hpc, -⟩ | ⟨j, p, hpc, hj, -⟩
  · rw [hpc]
  · have hkj : k ≠ j := fun e => hj (e ▸ hk)
    rw [hpc, update_of_ne hkj]

theorem run_done (h : Inv B C s) {k : ℕ} (hk : Done (s.pc k)) (ops : List Op) :
    (run (step B C) s ops).pc k = s.pc k := by
  induction ops generalizing s with
  | nil => rfl
  | cons o ops ih =>
    have hs := step_done h hk o
    rw [run_cons, ih (step_inv B C s o h) (by rw [hs]; exact hk), hs]

/-- while a refresh is in flight, whatever the other tasks do, the attributes stay -/
theorem run_refreshing (h : Inv B C s) {k : ℕ} {im : Bool} (hk : s.pc k = .refreshing im) (ops : List Op)
    (hend : InFlight (run (step B C) s ops) k) :
    (run (step B C) s ops).pc k = .refreshing im ∧ (run (step B C) s ops).attrs = s.attrs := by
  induction ops generalizing s with
  | nil => exact ⟨hk, rfl⟩
  | cons o ops ih =>
    have hi := step_inv B C s o h
    rw [run_cons] at hend ⊢
    rcases step_refreshing h ⟨im, hk⟩ o with ⟨hpc, hattrs⟩ | hd
    · obtain ⟨h1, h2⟩ := ih hi (hpc.trans hk) hend
      exact ⟨h1, h2.trans hattrs⟩
    · obtain ⟨im', him⟩ := hend
      rw [run_done hi hd] at him
      rw [him] at hd; exact hd.elim

/-- a refresh that begins outside the mandatory window is advisory, and beginning it changes no attribute -/
theorem starts_advisory (h : Inv B C s) {k : ℕ} {o : Op} (hk : ¬ InFlight s k)
    (hm : refreshNeeded C s.attrs s.now C.mandatory = false) (hs : InFlight (step B C s o) k) :
    (step B C s o).pc k = .refreshing false ∧ (step B C s o).attrs = s.attrs := by
  rcases step_moves B C h o with ⟨hpc, -⟩ | ⟨j, p, hpc, -, -, ha, hman⟩
  · obtain ⟨im, him⟩ := hs
    rw [hpc] at him; exact absurd ⟨im, him⟩ hk
  · obtain ⟨im, him⟩ := hs
    rw [hpc] at him ⊢
    by_cases hkj : k = j
    · subst hkj
      rw [update_self] at him ⊢
      have := hman im him
      rw [hm] at this
      exact ⟨by rw [him, this], ha hk⟩
    · rw [update_of_ne hkj] at him; exact absurd ⟨im, him⟩ hk

/-- a dict that fails makes the call raise -/
theorem failed_dict_raises {k : ℕ} {im : Bool} {m : Metadata} (hk : s.pc k = .refreshing im)
    (hf : Fails B s.now (.returns m)) : ∃ e, (step B C s (.finish k (.returns m))).pc k = .raised e := by
  simp only [step, hk, protectedRefresh]
  split
  · rename_i a e h
    exact ⟨e, by simp⟩
  · rename_i a h
    obtain ⟨t, hg, ha⟩ := good_of_stored h
    have hexp : isExpired C (m.attrs t) s.now = true := by
      have := hf t hg
      simp [isExpired, refreshNeeded, Metadata.attrs]; omega
    rw [ha]
    simp only [hexp, if_true]
    exact ⟨_, by simp; rfl⟩

/-- **Failed advisory refreshes.** Take any reachable state outside the mandatory window, an operation with which task
`k` begins a refresh there, whatever the other tasks and the clock do until the refresher ends, and any way it can
fail. The failure is harmless iff the refresher raised and the current credentials had not expired by then. -/
theorem advisory_failure_iff (B : Base) (C : Cfg) (t0 : ℤ) (ops : List Op) (k : ℕ) (o : Op) (mid : List Op)
    (out : Outcome) (hm : refreshNeeded C (exec B C t0 ops).attrs (exec B C t0 ops).now C.mandatory = false)
    (hk : ¬ InFlight (exec B C t0 ops) k) (hs : InFlight (exec B C t0 (ops ++ [o])) k)
    (hend : InFlight (exec B C t0 (ops ++ [o] ++ mid)) k) (hf : Fails B (exec B C t0 (ops ++ [o] ++ mid)).now out) :
    Harmless C (exec B C t0 ops) (exec B C t0 (ops ++ [o] ++ mid ++ [.finish k out])) k ↔
      (∃ text, out = .raises text) ∧
        isExpired C (exec B C t0 ops).attrs (exec B C t0 (ops ++ [o] ++ mid)).now = false := by
  have h0 : Inv B C (exec B C t0 ops) := run_inv B C t0 ops
  simp only [exec, run_append, run_cons, run_nil] at hs hend hf ⊢
  set s0 := run (step B C) (init C t0) ops
  obtain ⟨hpc1, hat1⟩ := starts_advisory h0 hk hm hs
  have h1 := step_inv B C s0 o h0
  set s1 := step B C s0 o
  obtain ⟨hpc2, hat2⟩ := run_refreshing h1 hpc1 mid hend
  set s2 := run (step B C) s1 mid
  have hat : s2.attrs = s0.attrs := hat2.trans hat1
  cases out with
  | raises text =>
    have h3 : step B C s2 (.finish k (.raises text)) = ret (unlock s2) k := by simp [step, hpc2, protectedRefresh]
    rw [h3]
    simp [Harmless, unlock, hat]
  | returns m =>
    obtain ⟨e, he⟩ := failed_dict_raises (C := C) hpc2 hf
    constructor
    · rintro ⟨hret, -⟩
      rw [he] at hret; cases hret
    · rintro ⟨⟨text, htext⟩, -⟩
      cases htext

/-- the result of a refresh with expiry time `t` -/
def newResult (t : String) : Metadata :=
  [("access_key", some "AKIDNEW"), ("secret_key", some "SECRETNEW"), ("token", some "TOKENNEW"),
    ("expiry_time", some t)]

theorem advisory_failure_iff_timeout :
    Harmless (withDefaults (expiringIn 700)) (exec (botocore isoTimes) (withDefaults (expiringIn 700)) 0 [])
      (exec (botocore isoTimes) (withDefaults (expiringIn 700)) 0
        ([] ++ [.call 0] ++ [.tick (seconds 3)] ++ [.finish 0 (.raises "Connect timeout")])) 0 :=
  (advisory_failure_iff (botocore isoTimes) (withDefaults (expiringIn 700)) 0 [] 0 (.call 0) [.tick (seconds 3)]
    (.raises "Connect timeout") (by decide) (by decide) (by decide) (by decide) trivial).2
    ⟨⟨_, rfl⟩, by decide⟩

/-- **Rejected results are not harmless.** 700 seconds before the expiry a refresh is advisory. If the refresher
returns `{}` (as `retrieve_iam_role_credentials` does on a failure) the call raises; so it does if the expiry time does
not parse or lies in the past, and then the stored fields have changed as well. -/
theorem rejected_results_not_harmless :
    let C := withDefaults (expiringIn 700)
    let after := fun out => exec (botocore isoTimes) C 0 [.call 0, .tick (seconds 3), .finish 0 (.returns out)]
    refreshNeeded C (init C 0).attrs (init C 0).now C.mandatory = false ∧
    ¬ Harmless C (init C 0) (after []) 0 ∧
    ¬ Harmless C (init C 0) (after (newResult "soon")) 0 ∧
    (after (newResult "soon")).attrs.accessKey = some "AKIDNEW" ∧
    ¬ Harmless C (init C 0) (after (newResult "2025-12-31T23:00:00Z")) 0 ∧
    (after (newResult "2025-12-31T23:00:00Z")).attrs.frozen = some (newResult "2025-12-31T23:00:00Z").readOnly := by
  decide

end AioBotocore.Credentials
