/-
Expired tokens and hidden failures (`AioDeferredRefreshableToken`).

A failed mandatory refresh is propagated, and a token that is still expired after an attempt is never returned
(`_protected_refresh` checks). But for `_attempt_timeout` after the start of an attempt `_should_refresh` answers
`None`, and on that answer both `_refresh` and `_protected_refresh` return without looking at the expiration: the next
callers get the old token, expired or not, and so does a waiter of the holder that failed.

`stale_iff`: all returns of a run are good (an unexpired token; for a caller that needed a mandatory refresh, one
obtained since its call) if and only if no caller evaluates `_should_refresh` inside the throttle when the token has
expired, or is still the one the caller came to have refreshed.
Witness: `throttle_hands_out_expired`.
-/
import Mathlib.Tactic
import AioBotocore.Tokens.Refreshable

namespace AioBotocore.Tokens

open Async Function

variable {C : Cfg} {s : St}

/-- a good return: the token has not expired, and a caller that needed a mandatory refresh got one: the refresher has
returned a token since its call -/
def Good (r : Ret) : Prop :=
  (∀ t, r.value = some t → r.time < t.expiration) ∧ (r.need = some .mandatory → r.since < r.epoch)

/-- a caller evaluates `_should_refresh` inside the throttle, on entry or when it is let in, and the token has expired
or is still the one it needed to have refreshed -/
def servesStale (s : St) : Op → Bool
  | .call k => decide (s.pc k = .idle) && throttled s && isExpired s
  | .resume k =>
    match s.pc k with
    | .queued need since =>
      s.lock.ready k && throttled s && (isExpired s || decide (need = .mandatory ∧ since = s.epoch))
    | _ => false
  | _ => false

theorem throttled_fresh (h : throttled s = true) : shouldRefresh C s = none := by
  unfold shouldRefresh
  cases ht : s.frozenToken with
  | none => simp [throttled, ht] at h
  | some t => simp [h]

theorem isExpired_iff {t : FrozenAuthToken} (ht : s.frozenToken = some t) :
    isExpired s = true ↔ t.expiration ≤ s.now := by
  simp [isExpired, ht]

/-- unless the throttle hides it, a caller with nothing to do has an unexpired token -/
theorem unexpired_of_fresh (h : shouldRefresh C s = none) (hs : throttled s = true → isExpired s = false) :
    ∀ t, s.frozenToken = some t → s.now < t.expiration := by
  intro t ht
  obtain ⟨t', ht', hor⟩ := fresh_token h
  rw [ht] at ht'; cases ht'
  have hpos := C.mandatory_pos
  rcases hor with hth | hm
  · have := (isExpired_iff ht).not.1 (by simp [hs hth])
    omega
  · omega

theorem checkExpired_rets (k : ℕ) (need : RefreshType) (since : ℕ) :
    (checkExpired C s k need since).rets = s.rets ∧ isExpired s = true ∨
    (checkExpired C s k need since).rets = s.rets ++ [⟨k, s.frozenToken, some need, since, s.epoch, s.now⟩] ∧
      isExpired s = false := by
  unfold checkExpired
  split_ifs with he
  · exact Or.inl ⟨rfl, he⟩
  · exact Or.inr ⟨rfl, by simpa using he⟩

theorem checkExpired_good {rets : List Ret} (k : ℕ) (need : RefreshType) (since : ℕ) (hr : s.rets = rets)
    (hneed : need = .mandatory → since < s.epoch) :
    ∀ r ∈ (checkExpired C s k need since).rets.drop rets.length, Good r := by
  intro r hm
  rcases checkExpired_rets (C := C) (s := s) k need since with ⟨he, -⟩ | ⟨he, hexp⟩
  · rw [he, hr] at hm; simp at hm
  · rw [he, hr, List.drop_left, List.mem_singleton] at hm
    subst hm
    refine ⟨fun t ht => ?_, fun hn => hneed (Option.some.inj hn)⟩
    have := (isExpired_iff ht).not.1 (by simp [hexp])
    show s.now < t.expiration
    omega

theorem step_rets (C : Cfg) (s : St) (o : Op) : s.rets <+: (step C s o).rets := by
  rcases step_cases C s o with hs | hm
  · rw [hs]
  · generalize step C s o = s' at hm
    cases hm with
    | swallowed k need since text hk =>
      rcases checkExpired_rets (C := C) (s := s) k need since with ⟨he, -⟩ | ⟨he, -⟩
      · rw [he]
      · rw [he]; exact List.prefix_append _ _
    | obtained k type need since t hk =>
      rcases checkExpired_rets (C := C) (s := store s t) k need since with ⟨he, -⟩ | ⟨he, -⟩
      · rw [he]; exact List.prefix_refl _
      · rw [he]; exact List.prefix_append _ _
    | _ => first
      | exact List.prefix_refl _
      | exact List.prefix_append _ _

/-- the returns added by a move that serves nothing stale -/
theorem move_good {o : Op} {s' : St} (h : Data C s) (hm : Move C s o s') (ho : servesStale s o = false) :
    ∀ r ∈ s'.rets.drop s.rets.length, Good r := by
  have none' : ∀ r ∈ s.rets.drop s.rets.length, Good r := by simp
  have one : ∀ r0, Good r0 → ∀ r ∈ (s.rets ++ [r0]).drop s.rets.length, Good r := by
    intro r0 h0 r hr
    rw [List.drop_left, List.mem_singleton] at hr
    exact hr ▸ h0
  cases hm with
  | fresh k hk hd =>
    refine one _ ⟨unexpired_of_fresh hd fun hth => ?_, fun hn => by cases hn⟩
    simpa [servesStale, hk, hth] using ho
  | busy k hk hd =>
    obtain ⟨t, ht, hm⟩ := advisory_token hd
    refine one _ ⟨fun t' ht' => ?_, fun hn => by cases hn⟩
    rw [ht] at ht'; cases ht'
    have := C.mandatory_pos
    show s.now < t.expiration
    omega
  | passed k need since hr hk hd =>
    have hst : throttled s = true → isExpired s = false ∧ (need = .mandatory → since ≠ s.epoch) := by
      intro hth
      simpa [servesStale, hk, hr, hth] using ho
    refine one _ ⟨unexpired_of_fresh hd fun hth => (hst hth).1, fun hn => ?_⟩
    have hn : need = .mandatory := Option.some.inj hn
    obtain ⟨hle, hurg⟩ := h.queued k need since hk
    refine lt_of_le_of_ne hle fun he => ?_
    obtain ⟨t, ht, hor⟩ := fresh_token hd
    rcases hor with hth | hm
    · exact (hst hth).2 hn he
    · have := hurg hn he t ht
      omega
  | swallowed k need since text hk =>
    exact checkExpired_good k need since rfl ((h.refreshing k _ need since hk).2 rfl).2
  | obtained k type need since t hk =>
    refine checkExpired_good k need since rfl fun _ => ?_
    have := (h.refreshing k type need since hk).1
    show since < s.epoch + 1
    omega
  | _ => exact none'

theorem step_good_iff (h : Inv C s) (o : Op) :
    (∀ r ∈ added (step C) St.rets s o, Good r) ↔ servesStale s o = false := by
  constructor
  · intro hr
    by_contra hs
    have hs : servesStale s o = true := by simpa using hs
    match o with
    | .call k =>
      obtain ⟨⟨hk, hth⟩, he⟩ : (s.pc k = .idle ∧ throttled s = true) ∧ isExpired s = true := by
        simpa [servesStale] using hs
      obtain ⟨t, ht, -⟩ := fresh_token (throttled_fresh (C := C) hth)
      have hg := (hr ⟨k, s.frozenToken, none, s.epoch, s.epoch, s.now⟩ (by
        simp [added, step, hk, getFrozenToken, throttled_fresh hth])).1 t ht
      have := (isExpired_iff ht).1 he
      simp only at hg
      omega
    | .resume k =>
      cases hk : s.pc k with
      | queued need since =>
        obtain ⟨⟨hrd, hth⟩, hbad⟩ : (s.lock.ready k = true ∧ throttled s = true) ∧
            (isExpired s = true ∨ need = .mandatory ∧ since = s.epoch) := by
          simpa [servesStale, hk] using hs
        obtain ⟨t, ht, -⟩ := fresh_token (throttled_fresh (C := C) hth)
        have hg := hr ⟨k, s.frozenToken, some need, since, s.epoch, s.now⟩ (by
          simp [added, step, hk, hrd, protectedRefresh, shouldRefresh_lock, throttled_fresh hth, unlock])
        rcases hbad with he | ⟨hn, he⟩
        · have h1 := hg.1 t ht
          have h2 := (isExpired_iff ht).1 he
          simp only at h1
          omega
        · have h1 := hg.2 (by rw [hn])
          simp only at h1
          omega
      | _ => simp [servesStale, hk] at hs
  · intro ho
    rcases step_cases C s o with hs | hm
    · simp [added, hs]
    · exact move_good h.data hm ho

/-- **Stale tokens come from the throttle only.** All returns of a run are good iff no step of the run is a caller that
evaluates `_should_refresh` inside the throttle when the token has expired or is the one it needed refreshed. -/
theorem stale_iff (C : Cfg) (t0 : ℤ) (ops : List Op) :
    (∀ r ∈ (exec C t0 ops).rets, Good r) ↔
      Along (step C) (fun s o => servesStale s o = false) (init t0) ops := by
  rw [log_run_forall (step_rets C) Good]
  rw [along_congr (step_inv C) (fun s o h => step_good_iff h o) (inv_init C t0) ops]
  simp [init]

/-! ## Inside the throttle -/

/-- a first call obtains a token that expires `n` seconds after the start -/
def obtains (n : ℕ) : List Op := [.call 0, .finish 0 (.returns ⟨"cachedtoken", seconds n⟩)]

/-- after `t` seconds a call tries to refresh and fails -/
def failsAt (t : ℕ) (k : ℕ) : List Op := [.tick (seconds t), .call k, .finish k (.raises "Connect timeout")]

/-- **An expired token is handed out.** 20 seconds before the expiry a mandatory refresh fails; 30 seconds later the
next call returns the expired token, without a refresh and without an error. -/
theorem throttle_hands_out_expired :
    (exec sso 0 (obtains 1000 ++ failsAt 980 1 ++ [.tick (seconds 30), .call 2])).rets.getLast? =
      some ⟨2, some ⟨"cachedtoken", seconds 1000⟩, none, 1, 1, seconds 1010⟩ ∧
    ¬ ∀ r ∈ (exec sso 0 (obtains 1000 ++ failsAt 980 1 ++ [.tick (seconds 30), .call 2])).rets, Good r := by
  refine ⟨by decide, fun h => ?_⟩
  have hr := h ⟨2, some ⟨"cachedtoken", seconds 1000⟩, none, 1, 1, seconds 1010⟩ (by decide)
  exact absurd (hr.1 ⟨"cachedtoken", seconds 1000⟩ rfl) (by decide)

/-- A mandatory refresh takes longer than the throttle, and two more calls that need one queue behind it. It fails and
raises; the first waiter tries again, fails and raises; the second, who waited for both, returns the old token. -/
example :
    let s := exec sso 0 (obtains 1000 ++ [.tick (seconds 500), .call 1, .tick (seconds 61), .call 2, .call 3,
      .finish 1 (.raises "Connect timeout"), .resume 2, .finish 2 (.raises "Connect timeout"), .resume 3])
    s.pc 1 = .raised (.refresher "Connect timeout") ∧ s.pc 2 = .raised (.refresher "Connect timeout") ∧
      s.pc 3 = .returned (some ⟨"cachedtoken", seconds 1000⟩) ∧
      ⟨3, some ⟨"cachedtoken", seconds 1000⟩, some .mandatory, 1, 1, seconds 561⟩ ∈ s.rets := by decide

end AioBotocore.Tokens
