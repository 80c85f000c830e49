/-
Endpoint discovery when the request for the endpoints cannot be sent. `_refresh_current_endpoints` catches
`(ConnectionError, HTTPClientError)` and then falls back on the stale entries. botocore's own module means its
`ConnectionError` there; this one does not import it.

- `transport_failure_survived_iff`: with stale entries, a failure is survived exactly if its exception is caught, which
  is so of three of the seven that `send` raises.
-/
import Mathlib.Tactic
import AioBotocore.Async.Run
import AioBotocore.Discovery.Manager

namespace AioBotocore.Discovery

open Async Function

variable {κ : Type*} [DecidableEq κ]

/-- what `send` of the HTTP session raises -/
def transport : List Exn :=
  [.endpointConnectionError, .connectTimeoutError, .proxyConnectionError, .sslError, .readTimeoutError,
    .connectionClosedError, .httpClientError]

/-- a list of endpoints that is not empty is cached for the key -/
def Known (s : St κ) (key : κ) : Prop := ∃ endpoints, s.cache key = some endpoints ∧ endpoints ≠ []

/-- the operation stores an empty list for the key, or deletes its list -/
def Drops (key : κ) (s : St κ) : Op κ → Prop
  | .described k response _ _ => response = [] ∧ ∃ n required rf, s.pc k = .refreshing n key required rf
  | .deleteEndpoints key' => key' = key
  | _ => False

/-- the failure that call `n` met at `now` is recorded for 60 seconds, and the call returns a stale address -/
def Survives (s s' : St κ) (n : ℕ) (key : κ) (now : ℚ) : Prop :=
  s'.failedAttempts key = some (now + 60) ∧
    ∃ endpoints a, s.cache key = some endpoints ∧ a ∈ endpoints.map Endpoint.address ∧ s'.rets = s.rets ++ [(n, .address a)]

/-! ## Calls that start with the list -/

/-- the list is cached, and no call from `m` on found stale entries missing as it started -/
structure Since (m : ℕ) (key : κ) (s : St κ) : Prop where
  known : Known s key
  sampled : ∀ k n required rf, s.pc k = .refreshing n key required rf → m ≤ n → rf = false

omit [DecidableEq κ] in
/-- a call that is not in flight any more -/
theorem Since.idle {m : ℕ} {key : κ} {s t : St κ} (h : Since m key s) (hknown : Known t key) {k : ℕ}
    (hpc : t.pc = update s.pc k .idle) : Since m key t := by
  refine ⟨hknown, fun i n required rf hi hn => ?_⟩
  by_cases hik : i = k
  · rw [hpc, hik, update_self] at hi
    cases hi
  · rw [hpc, update_of_ne hik] at hi
    exact h.sampled i n required rf hi hn

omit [DecidableEq κ] in
/-- with stale entries a call asks only because its key has not failed recently -/
theorem Known.not_forced {s : St κ} {key : κ} (h : Known s key) {required rf : Bool} {now now' : ℚ}
    (hasks : Call.Asks ⟨key, required, now, now', s.cache key, s.failedAttempts key⟩ rf) : rf = false := by
  obtain ⟨endpoints, hcached, hne⟩ := h
  cases rf with
  | false => rfl
  | true =>
    have hstale := (hasks.forced rfl).2
    simp [Call.Stale, hcached, hne] at hstale

theorem step_since (d : Bool) {m : ℕ} {key : κ} (s : St κ) (o : Op κ) (h : Since m key s) (hkept : ¬ Drops key s o) :
    Since m key (step d s o) := by
  have hmoves := step_moves d s o
  generalize step d s o = s' at hmoves ⊢
  cases hmoves with
  | none => exact h
  | answers hk hr => exact h.idle h.known rfl
  | @asks k key' required now now' pick marks rf hk hasks =>
    refine ⟨h.known, fun i n required' rf' hi hn => ?_⟩
    by_cases hik : i = k
    · subst hik
      obtain ⟨-, rfl, -, rfl⟩ : s.calls.length = n ∧ key' = key ∧ required = required' ∧ rf = rf' := by
        simpa [refresh, goto] using hi
      exact h.known.not_forced hasks
    · exact h.sampled i n required' rf' (by simpa [refresh, goto, hik] using hi) hn
  | @described k n key' required rf response now pick r hk hr =>
    refine h.idle ?_ rfl
    by_cases hkey : key' = key
    · subst hkey
      refine ⟨parseEndpoints response now, by simp [ret, goto], fun hempty => hkept ⟨?_, n, required, rf, hk⟩⟩
      simpa [parseEndpoints] using hempty
    · obtain ⟨endpoints, hcached, hne⟩ := h.known
      exact ⟨endpoints, by simp [ret, goto, Ne.symm hkey, hcached], hne⟩
  | caught hk he hr => exact h.idle h.known rfl
  | escapes hk he => exact h.idle h.known rfl
  | @deleted key' =>
    have hkey : key ≠ key' := fun heq => hkept heq.symm
    obtain ⟨endpoints, hcached, hne⟩ := h.known
    exact ⟨⟨endpoints, by simp [hkey, hcached], hne⟩, h.sampled⟩

theorem run_since (d : Bool) (before after : List (Op κ)) {key : κ} (hknown : Known (run (step d) init before) key)
    (hkept : Along (step d) (fun s o => ¬ Drops key s o) (run (step d) init before) after) :
    Since (run (step d) (init : St κ) before).calls.length key (run (step d) init (before ++ after)) := by
  rw [run_append]
  refine run_inv_of (step_since d) ⟨hknown, fun k n required rf hk hn => ?_⟩ hkept
  obtain ⟨c, hc, -⟩ := (run_inv' d before).inFlight k n key required rf hk
  exact absurd (List.getElem?_eq_some_iff.1 hc).1 (not_lt.2 hn)

/-! ## A request that fails -/

omit [DecidableEq κ] in
theorem failed_stale {s : St κ} {key : κ} {endpoints : List Endpoint} (hcached : s.cache key = some endpoints)
    (hne : endpoints ≠ []) (k n : ℕ) (required rf : Bool) (pick : ℕ) :
    ∃ a ∈ endpoints.map Endpoint.address, failed s k n key required rf pick = ret s k n (.address a) := by
  unfold failed
  rw [hcached, Option.getD_some]
  cases hsel : selectEndpoint endpoints pick with
  | none => exact absurd (selectEndpoint_eq_none.1 hsel) hne
  | some a => exact ⟨a, selectEndpoint_mem hsel, rfl⟩

/-- with stale entries, a request that was not forced is survived exactly if its exception is caught -/
theorem survives_iff (d : Bool) {s : St κ} {k n : ℕ} {key : κ} {required : Bool}
    (hk : s.pc k = .refreshing n key required false) (hknown : Known s key) (e : Exn) (now : ℚ) (pick : ℕ) :
    Survives s (step d s (.raises k e now pick)) n key now ↔ handled e = true := by
  obtain ⟨endpoints, hcached, hne⟩ := hknown
  constructor
  · rintro ⟨-, -, a, -, -, hrets⟩
    by_contra he
    simp only [step, hk, if_neg he, ret, goto] at hrets
    have hlast := List.append_cancel_left hrets
    simp at hlast
  · intro he
    obtain ⟨a, ha, hfailed⟩ := failed_stale
      (s := { s with failedAttempts := update s.failedAttempts key (some (now + 60)) }) hcached hne k n required false pick
    have hstep : step d s (.raises k e now pick) =
        ret { s with failedAttempts := update s.failedAttempts key (some (now + 60)) } k n (.address a) := by
      rw [← hfailed]
      simp [step, hk, he, refreshed, selectEndpoint]
    rw [hstep]
    exact ⟨by simp [ret, goto], endpoints, a, hcached, ha, rfl⟩

theorem handled_transport_iff {e : Exn} (h : e ∈ transport) :
    handled e = true ↔ e = .readTimeoutError ∨ e = .connectionClosedError ∨ e = .httpClientError := by
  revert e
  decide

/-- **Transport failures.** Once a list of endpoints that is not empty is cached for a key, and as long as no refresh
stores an empty one (nor `delete_endpoints` deletes it): a refresh that started since, and whose request fails, is
recorded for 60 seconds and answered with a stale address exactly if the exception is caught. Of those that `send`
raises these are `ReadTimeoutError`, `ConnectionClosedError` and `HTTPClientError`. -/
theorem transport_failure_survived_iff (alwaysDiscover : Bool) (before after : List (Op κ)) {key : κ}
    (hknown : Known (run (step alwaysDiscover) init before) key)
    (hkept : Along (step alwaysDiscover) (fun s o => ¬ Drops key s o) (run (step alwaysDiscover) init before) after)
    {k n : ℕ} {required rf : Bool}
    (hk : (run (step alwaysDiscover) init (before ++ after)).pc k = .refreshing n key required rf)
    (hlater : (run (step alwaysDiscover) (init : St κ) before).calls.length ≤ n) (e : Exn) (now : ℚ) (pick : ℕ) :
    let s := run (step alwaysDiscover) init (before ++ after)
    (Survives s (step alwaysDiscover s (.raises k e now pick)) n key now ↔ handled e = true) ∧
    (e ∈ transport →
      (Survives s (step alwaysDiscover s (.raises k e now pick)) n key now ↔
        e = .readTimeoutError ∨ e = .connectionClosedError ∨ e = .httpClientError)) := by
  intro s
  have hsince := run_since alwaysDiscover before after hknown hkept
  obtain rfl := hsince.sampled k n required rf hk hlater
  have hsurvives := survives_iff alwaysDiscover hk hsince.known e now pick
  exact ⟨hsurvives, fun he => hsurvives.trans (handled_transport_iff he)⟩

/-- a list cached at 0 for one minute, and a second call at 100 whose request times out -/
theorem transport_failure_survived_two :
    let s := run (step true) (init : St ℕ) ([.call 0 7 true 0 0 0, .described 0 [⟨"a", 1⟩] 0 0] ++ [.call 0 7 true 100 100 0])
    Survives s (step true s (.raises 0 .readTimeoutError 101 0)) 1 7 101 := by
  have hkept : Along (step true) (fun s o => ¬ Drops 7 s o)
      (run (step true) (init : St ℕ) [.call 0 7 true 0 0 0, .described 0 [⟨"a", 1⟩] 0 0]) [.call 0 7 true 100 100 0] := by
    simp only [along_cons, along_nil, and_true]
    exact id
  have hknown : Known (run (step true) (init : St ℕ) [.call 0 7 true 0 0 0, .described 0 [⟨"a", 1⟩] 0 0]) 7 :=
    ⟨[⟨"a", 60⟩], by decide +kernel, by decide⟩
  have hk : (run (step true) (init : St ℕ)
      ([.call 0 7 true 0 0 0, .described 0 [⟨"a", 1⟩] 0 0] ++ [.call 0 7 true 100 100 0])).pc 0 =
      .refreshing 1 7 true false := by decide +kernel
  have hiff := transport_failure_survived_iff true _ _ hknown hkept hk (by decide +kernel) .readTimeoutError 101 0
  exact (hiff.2 (by decide)).2 (.inl rfl)

/-- the same, but the endpoint of the service cannot be reached: the call raises, and nothing is recorded -/
theorem connection_failure_raises :
    let s := run (step true) (init : St ℕ)
      [.call 0 7 true 0 0 0, .described 0 [⟨"a", 1⟩] 0 0, .call 0 7 true 100 100 0, .raises 0 .endpointConnectionError 101 0]
    s.cache 7 = some [⟨"a", 60⟩] ∧ s.failedAttempts 7 = none ∧
      s.rets = [(0, .address "a"), (1, .raised .endpointConnectionError)] := by
  decide +kernel

end AioBotocore.Discovery
