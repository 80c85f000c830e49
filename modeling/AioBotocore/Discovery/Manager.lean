/-
`AioEndpointDiscoveryManager` of `discovery.py`: the endpoints a service gives for a key, kept until they expire, called
by any number of tasks. The operations are what one task does between two suspension points. A call suspends in the
DescribeEndpoints request alone, so it is one step up to the request and one step from its end.

Each reading of the clock and each random choice is an argument of the operation that makes it. A call is known by its
place in `calls`, where it leaves what it found as it started.

- `step_moves`: everything one operation does.
- `discovery_decisions`: who asks the service, what a call returns, and what a refresh stores, in every run.
-/
import Mathlib.Tactic
import AioBotocore.Async.Run

namespace AioBotocore.Discovery

open Async Function

variable {κ : Type*} [DecidableEq κ]

/-! ## Exceptions -/

/-- exception classes of Python and of botocore -/
inductive Exn where
  | exception
  | osError
  /-- the builtin `ConnectionError` -/
  | builtinConnectionError
  | botoCoreError
  /-- botocore's `ConnectionError` -/
  | connectionError
  | httpClientError
  | endpointConnectionError
  | connectTimeoutError
  | proxyConnectionError
  | sslError
  | readTimeoutError
  | connectionClosedError
  /-- any class that is not one of these nor below one -/
  | other
deriving DecidableEq, Repr

/-- the classes above an exception, itself first -/
def mro : Exn → List Exn
  | .exception => [.exception]
  | .osError => [.osError, .exception]
  | .builtinConnectionError => [.builtinConnectionError, .osError, .exception]
  | .botoCoreError => [.botoCoreError, .exception]
  | .connectionError => [.connectionError, .botoCoreError, .exception]
  | .httpClientError => [.httpClientError, .botoCoreError, .exception]
  | .endpointConnectionError => [.endpointConnectionError, .connectionError, .botoCoreError, .exception]
  | .connectTimeoutError => [.connectTimeoutError, .connectionError, .botoCoreError, .osError, .exception]
  | .proxyConnectionError => [.proxyConnectionError, .connectionError, .botoCoreError, .osError, .exception]
  | .sslError => [.sslError, .connectionError, .botoCoreError, .osError, .exception]
  | .readTimeoutError => [.readTimeoutError, .httpClientError, .botoCoreError, .osError, .exception]
  | .connectionClosedError => [.connectionClosedError, .httpClientError, .botoCoreError, .exception]
  | .other => [.other]

def isinstance (e c : Exn) : Bool := (mro e).contains c

/-- `except (ConnectionError, HTTPClientError)`: the module imports `HTTPClientError` alone, so that the other name is
the builtin -/
def handled (e : Exn) : Bool := isinstance e .builtinConnectionError || isinstance e .httpClientError

/-! ## Model -/

structure Endpoint where
  address : String
  expiration : ℚ
deriving DecidableEq, Repr

/-- an endpoint as the service describes it -/
structure Described where
  address : String
  cachePeriodInMinutes : ℤ
deriving DecidableEq, Repr

inductive Result where
  | address (a : String)
  | none
  /-- `EndpointDiscoveryRefreshFailed` -/
  | refreshFailed
  /-- an exception of the request that `_refresh_current_endpoints` does not catch -/
  | raised (e : Exn)
deriving DecidableEq, Repr

inductive Pc (κ : Type*) where
  | idle
  /-- call `n` is in `_refresh_current_endpoints` -/
  | refreshing (n : ℕ) (key : κ) (required recentlyFailed : Bool)
deriving DecidableEq, Repr

/-- a call, and what it found as it started -/
structure Call (κ : Type*) where
  key : κ
  required : Bool
  /-- the clock in `_get_current_endpoints` -/
  now : ℚ
  /-- the clock in `_recently_failed` -/
  now' : ℚ
  cached : Option (List Endpoint)
  mark : Option ℚ
deriving DecidableEq, Repr

structure St (κ : Type*) where
  cache : κ → Option (List Endpoint)
  failedAttempts : κ → Option ℚ
  pc : ℕ → Pc κ
  calls : List (Call κ)
  /-- the calls that sent a DescribeEndpoints request, once for each -/
  requests : List ℕ
  /-- the calls that ended, and how -/
  rets : List (ℕ × Result)

inductive Op (κ : Type*) where
  | call (k : ℕ) (key : κ) (required : Bool) (now now' : ℚ) (pick : ℕ)
  /-- the request of task `k` is answered -/
  | described (k : ℕ) (response : List Described) (now : ℚ) (pick : ℕ)
  /-- the request of task `k` raises -/
  | raises (k : ℕ) (e : Exn) (now : ℚ) (pick : ℕ)
  /-- `delete_endpoints`, of the handler that retries on an invalid endpoint -/
  | deleteEndpoints (key : κ)
deriving Repr

def init : St κ := ⟨fun _ => none, fun _ => none, fun _ => .idle, [], [], []⟩

def goto (s : St κ) (k : ℕ) (p : Pc κ) : St κ := { s with pc := update s.pc k p }

def ret (s : St κ) (k n : ℕ) (r : Result) : St κ := { goto s k .idle with rets := s.rets ++ [(n, r)] }

def parseEndpoints (response : List Described) (now : ℚ) : List Endpoint :=
  response.map fun e => ⟨e.address, now + e.cachePeriodInMinutes * 60⟩

def getCurrentEndpoints (cached : Option (List Endpoint)) (now : ℚ) : List Endpoint :=
  (cached.getD []).filter fun e => now < e.expiration

/-- whether the mark still stands; one that does not is deleted -/
def recentlyFailed (mark : Option ℚ) (now : ℚ) : Bool × Option ℚ :=
  match mark with
  | some until_ => if now < until_ then (true, mark) else (false, none)
  | none => (false, none)

/-- `random.choice(endpoints)['Address']`; an empty list has none, and is never asked -/
def selectEndpoint (endpoints : List Endpoint) (pick : ℕ) : Option String :=
  (endpoints[pick % endpoints.length]?).map Endpoint.address

/-- the start of `_refresh_current_endpoints` -/
def refresh (s : St κ) (k n : ℕ) (key : κ) (required recentlyFailed : Bool) : St κ :=
  { goto s k (.refreshing n key required recentlyFailed) with requests := s.requests ++ [n] }

/-- `describe_endpoint` from where discovery has failed -/
def failed (s : St κ) (k n : ℕ) (key : κ) (required recentlyFailed : Bool) (pick : ℕ) : St κ :=
  match selectEndpoint ((s.cache key).getD []) pick with
  | some a => ret s k n (.address a)
  | none =>
    if required then
      if recentlyFailed then refresh s k n key required recentlyFailed else ret s k n .refreshFailed
    else ret s k n .none

/-- `describe_endpoint` from its start -/
def describeEndpoint (alwaysDiscover : Bool) (s : St κ) (k n : ℕ) (key : κ) (required : Bool) (now now' : ℚ) (pick : ℕ) :
    St κ :=
  if !alwaysDiscover && !required then ret s k n .none
  else
    match selectEndpoint (getCurrentEndpoints (s.cache key) now) pick with
    | some a => ret s k n (.address a)
    | none =>
      let s' := { s with failedAttempts := update s.failedAttempts key (recentlyFailed (s.failedAttempts key) now').2 }
      if (recentlyFailed (s.failedAttempts key) now').1 then failed s' k n key required true pick
      else refresh s' k n key required false

/-- `describe_endpoint` from the end of `_refresh_current_endpoints`, which returned `endpoints` or `None` -/
def refreshed (s : St κ) (k n : ℕ) (key : κ) (required recentlyFailed : Bool) (endpoints : Option (List Endpoint))
    (pick : ℕ) : St κ :=
  match selectEndpoint (endpoints.getD []) pick with
  | some a => ret s k n (.address a)
  | none => if recentlyFailed then ret s k n .refreshFailed else failed s k n key required false pick

def step (alwaysDiscover : Bool) (s : St κ) : Op κ → St κ
  | .call k key required now now' pick =>
    match s.pc k with
    | .idle =>
      describeEndpoint alwaysDiscover
        { s with calls := s.calls ++ [⟨key, required, now, now', s.cache key, s.failedAttempts key⟩] } k s.calls.length key
        required now now' pick
    | _ => s
  | .described k response now pick =>
    match s.pc k with
    | .refreshing n key required recentlyFailed =>
      let endpoints := parseEndpoints response now
      refreshed { s with cache := update s.cache key (some endpoints),
                         failedAttempts := update s.failedAttempts key none } k n key required recentlyFailed
        (some endpoints) pick
    | _ => s
  | .raises k e now pick =>
    match s.pc k with
    | .refreshing n key required recentlyFailed =>
      if handled e then
        refreshed { s with failedAttempts := update s.failedAttempts key (some (now + 60)) } k n key required
          recentlyFailed none pick
      else ret s k n (.raised e)
    | _ => s
  | .deleteEndpoints key => { s with cache := update s.cache key none }

/-! ## One call -/

/-- an unexpired endpoint is cached as the call starts -/
def Call.Fresh (c : Call κ) : Prop := ∃ e ∈ c.cached.getD [], c.now < e.expiration

/-- the call starts inside the failure window of its key -/
def Call.Failing (c : Call κ) : Prop := ∃ until_, c.mark = some until_ ∧ c.now' < until_

/-- stale entries exist as the call starts -/
def Call.Stale (c : Call κ) : Prop := c.cached.getD [] ≠ []

/-- the call may send a request -/
structure Call.Asks (c : Call κ) (recentlyFailed : Bool) : Prop where
  notFresh : ¬ c.Fresh
  failing : c.Failing ↔ recentlyFailed = true
  forced : recentlyFailed = true → c.required = true ∧ ¬ c.Stale

/-- a call for a required operation gives an address or raises `EndpointDiscoveryRefreshFailed`, one for an optional
operation gives an address or `None` -/
def Allowed (required : Bool) : Result → Prop
  | .address _ => True
  | .none => required = false
  | .refreshFailed => required = true
  | .raised _ => False

theorem selectEndpoint_eq_none {endpoints : List Endpoint} {pick : ℕ} :
    selectEndpoint endpoints pick = none ↔ endpoints = [] := by
  cases endpoints with
  | nil => simp [selectEndpoint]
  | cons e es =>
    have hlt : pick % (e :: es).length < (e :: es).length := Nat.mod_lt _ (Nat.succ_pos _)
    simp only [selectEndpoint, List.getElem?_eq_getElem hlt, Option.map_some, reduceCtorEq]

theorem selectEndpoint_mem {endpoints : List Endpoint} {pick : ℕ} {a : String} (h : selectEndpoint endpoints pick = some a) :
    a ∈ endpoints.map Endpoint.address := by
  obtain ⟨e, he, rfl⟩ := Option.map_eq_some_iff.1 h
  exact List.mem_map_of_mem (List.mem_of_getElem? he)

theorem recentlyFailed_iff (mark : Option ℚ) (now : ℚ) :
    (recentlyFailed mark now).1 = true ↔ ∃ until_, mark = some until_ ∧ now < until_ := by
  cases mark with
  | none => simp [recentlyFailed]
  | some until_ =>
    by_cases h : now < until_ <;> simp [recentlyFailed, h]

omit [DecidableEq κ] in
theorem not_fresh_iff (c : Call κ) : ¬ c.Fresh ↔ getCurrentEndpoints c.cached c.now = [] := by
  simp [Call.Fresh, getCurrentEndpoints, List.filter_eq_nil_iff]

/-! ## What one operation does -/

inductive Moves (s : St κ) : Op κ → St κ → Prop
  | none (o : Op κ) : Moves s o s
  | answers {k key required now now' pick} {marks : κ → Option ℚ} {r : Result} (hk : s.pc k = .idle)
      (hr : Allowed required r) :
      Moves s (.call k key required now now' pick)
        (ret { s with calls := s.calls ++ [⟨key, required, now, now', s.cache key, s.failedAttempts key⟩],
                      failedAttempts := marks } k s.calls.length r)
  | asks {k key required now now' pick} {marks : κ → Option ℚ} {recentlyFailed : Bool} (hk : s.pc k = .idle)
      (hasks : Call.Asks ⟨key, required, now, now', s.cache key, s.failedAttempts key⟩ recentlyFailed) :
      Moves s (.call k key required now now' pick)
        (refresh { s with calls := s.calls ++ [⟨key, required, now, now', s.cache key, s.failedAttempts key⟩],
                          failedAttempts := marks } k s.calls.length key required recentlyFailed)
  | described {k n key required recentlyFailed response now pick} {r : Result}
      (hk : s.pc k = .refreshing n key required recentlyFailed)
      (hr : (recentlyFailed = true → required = true) → Allowed required r) :
      Moves s (.described k response now pick)
        (ret { s with cache := update s.cache key (some (parseEndpoints response now)),
                      failedAttempts := update s.failedAttempts key .none } k n r)
  | caught {k n key required recentlyFailed e now pick} {r : Result}
      (hk : s.pc k = .refreshing n key required recentlyFailed) (he : handled e = true)
      (hr : (recentlyFailed = true → required = true) → Allowed required r) :
      Moves s (.raises k e now pick)
        (ret { s with failedAttempts := update s.failedAttempts key (some (now + 60)) } k n r)
  | escapes {k n key required recentlyFailed e now pick} (hk : s.pc k = .refreshing n key required recentlyFailed)
      (he : handled e = false) : Moves s (.raises k e now pick) (ret s k n (.raised e))
  | deleted {key} : Moves s (.deleteEndpoints key) { s with cache := update s.cache key .none }

omit [DecidableEq κ] in
theorem failed_ends (s : St κ) (k n : ℕ) (key : κ) (required : Bool) (pick : ℕ) :
    ∃ r, failed s k n key required false pick = ret s k n r ∧ Allowed required r := by
  unfold failed
  cases hsel : selectEndpoint ((s.cache key).getD []) pick with
  | some a => exact ⟨.address a, rfl, trivial⟩
  | none =>
    cases required with
    | true => exact ⟨.refreshFailed, rfl, rfl⟩
    | false => exact ⟨.none, rfl, rfl⟩

omit [DecidableEq κ] in
theorem refreshed_ends (s : St κ) (k n : ℕ) (key : κ) (required recentlyFailed : Bool) (endpoints : Option (List Endpoint))
    (pick : ℕ) : ∃ r, refreshed s k n key required recentlyFailed endpoints pick = ret s k n r ∧
      ((recentlyFailed = true → required = true) → Allowed required r) := by
  unfold refreshed
  cases hsel : selectEndpoint (endpoints.getD []) pick with
  | some a => exact ⟨.address a, rfl, fun _ => trivial⟩
  | none =>
    cases recentlyFailed with
    | true => exact ⟨.refreshFailed, rfl, fun hreq => hreq rfl⟩
    | false =>
      obtain ⟨r, hr, hallowed⟩ := failed_ends s k n key required pick
      exact ⟨r, by simpa using hr, fun _ => hallowed⟩

theorem describeEndpoint_moves (d : Bool) {s : St κ} {k : ℕ} (hk : s.pc k = .idle) (key : κ) (required : Bool)
    (now now' : ℚ) (pick : ℕ) :
    Moves s (.call k key required now now' pick)
      (describeEndpoint d { s with calls := s.calls ++ [⟨key, required, now, now', s.cache key, s.failedAttempts key⟩] } k
        s.calls.length key required now now' pick) := by
  unfold describeEndpoint
  by_cases hskip : !d && !required
  · rw [if_pos hskip]
    have hreq : required = false := by simp_all
    exact .answers hk hreq
  · rw [if_neg hskip]
    simp only
    cases hsel : selectEndpoint (getCurrentEndpoints (s.cache key) now) pick with
    | some a => exact .answers hk trivial
    | none =>
      have hfresh : ¬ (⟨key, required, now, now', s.cache key, s.failedAttempts key⟩ : Call κ).Fresh :=
        (not_fresh_iff _).2 (selectEndpoint_eq_none.1 hsel)
      have hfailing := (recentlyFailed_iff (s.failedAttempts key) now').symm
      simp only
      by_cases hrf : (recentlyFailed (s.failedAttempts key) now').1 = true
      · rw [if_pos hrf]
        unfold failed
        simp only
        cases hstale : selectEndpoint ((s.cache key).getD []) pick with
        | some a => exact .answers (r := .address a) hk trivial
        | none =>
          cases required with
          | false => exact .answers (r := .none) hk rfl
          | true =>
            refine .asks hk ⟨hfresh, ?_, fun _ => ⟨rfl, ?_⟩⟩
            · exact hfailing.trans (iff_of_true hrf rfl)
            · simpa [Call.Stale] using selectEndpoint_eq_none.1 hstale
      · rw [if_neg hrf]
        exact .asks hk ⟨hfresh, hfailing.trans (iff_of_false hrf (by simp)), by simp⟩

theorem step_moves (d : Bool) (s : St κ) (o : Op κ) : Moves s o (step d s o) := by
  cases o with
  | call k key required now now' pick =>
    cases hk : s.pc k with
    | idle =>
      simp only [step, hk]
      exact describeEndpoint_moves d hk key required now now' pick
    | refreshing n key' required' rf =>
      simp only [step, hk]
      exact .none _
  | described k response now pick =>
    cases hk : s.pc k with
    | idle =>
      simp only [step, hk]
      exact .none _
    | refreshing n key required rf =>
      simp only [step, hk]
      obtain ⟨r, hr, hallowed⟩ := refreshed_ends
        { s with cache := update s.cache key (some (parseEndpoints response now)),
                 failedAttempts := update s.failedAttempts key none } k n key required rf
        (some (parseEndpoints response now)) pick
      rw [hr]
      exact .described hk hallowed
  | raises k e now pick =>
    cases hk : s.pc k with
    | idle =>
      simp only [step, hk]
      exact .none _
    | refreshing n key required rf =>
      simp only [step, hk]
      by_cases he : handled e = true
      · rw [if_pos he]
        obtain ⟨r, hr, hallowed⟩ := refreshed_ends
          { s with failedAttempts := update s.failedAttempts key (some (now + 60)) } k n key required rf none pick
        rw [hr]
        exact .caught hk he hallowed
      · rw [if_neg he]
        exact .escapes hk (by simpa using he)
  | deleteEndpoints key => exact .deleted

/-! ## Runs -/

/-- `P` holds of the exceptions the requests of the run raise -/
structure Inv (P : Exn → Prop) (s : St κ) : Prop where
  asked : ∀ n ∈ s.requests, ∃ c rf, s.calls[n]? = some c ∧ c.Asks rf
  once : s.requests.Nodup
  inFlight : ∀ k n key required rf, s.pc k = .refreshing n key required rf →
    ∃ c, s.calls[n]? = some c ∧ c.key = key ∧ c.required = required ∧ c.Asks rf
  ended : ∀ n r, (n, r) ∈ s.rets →
    ∃ c, s.calls[n]? = some c ∧ (Allowed c.required r ∨ ∃ e, r = .raised e ∧ handled e = false ∧ P e)

omit [DecidableEq κ] in
theorem inv_init (P : Exn → Prop) : Inv P (init : St κ) := by
  constructor <;> simp [init]

omit [DecidableEq κ] in
/-- a call stays where it is as further calls start -/
theorem getElem?_snoc {l : List (Call κ)} {n : ℕ} {c : Call κ} (h : l[n]? = some c) (c' : Call κ) :
    (l ++ [c'])[n]? = some c := by
  rw [List.getElem?_append_left (List.getElem?_eq_some_iff.1 h).1]
  exact h

omit [DecidableEq κ] in
/-- the request of a call ends, and the call with it -/
theorem Inv.ends {P : Exn → Prop} {s t : St κ} (h : Inv P s) {k n : ℕ} {key : κ} {required rf : Bool} {r : Result}
    (hk : s.pc k = .refreshing n key required rf) (hpc : t.pc = update s.pc k .idle) (hcalls : t.calls = s.calls)
    (hrequests : t.requests = s.requests) (hrets : t.rets = s.rets ++ [(n, r)])
    (hr : (rf = true → required = true) → Allowed required r ∨ ∃ e, r = .raised e ∧ handled e = false ∧ P e) :
    Inv P t := by
  refine ⟨?_, ?_, fun i n' key' required' rf' hi => ?_, fun n' r' hn => ?_⟩
  · rw [hrequests, hcalls]
    exact h.asked
  · rw [hrequests]
    exact h.once
  · rw [hcalls]
    by_cases hik : i = k
    · rw [hpc, hik, update_self] at hi
      cases hi
    · rw [hpc, update_of_ne hik] at hi
      exact h.inFlight i n' key' required' rf' hi
  · rw [hcalls]
    rw [hrets] at hn
    rcases List.mem_append.1 hn with hn | hn
    · exact h.ended n' r' hn
    · obtain ⟨rfl, rfl⟩ := Prod.mk.inj (List.mem_singleton.1 hn)
      obtain ⟨c, hc, -, rfl, hasks⟩ := h.inFlight k _ key required rf hk
      exact ⟨c, hc, hr fun hforced => (hasks.forced hforced).1⟩

theorem step_inv {P : Exn → Prop} (d : Bool) (s : St κ) (o : Op κ) (h : Inv P s)
    (hP : ∀ k e now pick, o = .raises k e now pick → P e) : Inv P (step d s o) := by
  have hmoves := step_moves d s o
  generalize step d s o = s' at hmoves ⊢
  cases hmoves with
  | none => exact h
  | @answers k key required now now' pick marks r hk hr =>
    refine ⟨fun n hn => ?_, h.once, fun i n key' required' rf hi => ?_, fun n r' hn => ?_⟩
    · obtain ⟨c, rf, hc, hasks⟩ := h.asked n hn
      exact ⟨c, rf, getElem?_snoc hc _, hasks⟩
    · by_cases hik : i = k
      · subst hik
        simp [ret, goto] at hi
      · obtain ⟨c, hc, hrest⟩ := h.inFlight i n key' required' rf (by simpa [ret, goto, hik] using hi)
        exact ⟨c, getElem?_snoc hc _, hrest⟩
    · rcases List.mem_append.1 hn with hn | hn
      · obtain ⟨c, hc, hrest⟩ := h.ended n r' hn
        exact ⟨c, getElem?_snoc hc _, hrest⟩
      · obtain ⟨rfl, rfl⟩ := Prod.mk.inj (List.mem_singleton.1 hn)
        exact ⟨⟨key, required, now, now', s.cache key, s.failedAttempts key⟩, by simp [ret, goto], .inl hr⟩
  | @asks k key required now now' pick marks rf hk hasks =>
    refine ⟨fun n hn => ?_, ?_, fun i n key' required' rf' hi => ?_, fun n r' hn => ?_⟩
    · rcases List.mem_append.1 hn with hn | hn
      · obtain ⟨c, rf, hc, hasks⟩ := h.asked n hn
        exact ⟨c, rf, getElem?_snoc hc _, hasks⟩
      · obtain rfl := List.mem_singleton.1 hn
        exact ⟨_, rf, by simp [refresh, goto], hasks⟩
    · refine List.nodup_append.2 ⟨h.once, List.nodup_singleton _, fun n hn m hm => ?_⟩
      obtain rfl := List.mem_singleton.1 hm
      obtain ⟨c, -, hc, -⟩ := h.asked n hn
      exact (List.getElem?_eq_some_iff.1 hc).1.ne
    · by_cases hik : i = k
      · subst hik
        obtain ⟨rfl, rfl, rfl, rfl⟩ : s.calls.length = n ∧ key = key' ∧ required = required' ∧ rf = rf' := by
          simpa [refresh, goto] using hi
        exact ⟨_, by simp [refresh, goto], rfl, rfl, hasks⟩
      · obtain ⟨c, hc, hrest⟩ := h.inFlight i n key' required' rf' (by simpa [refresh, goto, hik] using hi)
        exact ⟨c, getElem?_snoc hc _, hrest⟩
    · obtain ⟨c, hc, hrest⟩ := h.ended n r' hn
      exact ⟨c, getElem?_snoc hc _, hrest⟩
  | described hk hr =>
    exact h.ends hk rfl rfl rfl rfl fun hforced => .inl (hr hforced)
  | caught hk he hr =>
    exact h.ends hk rfl rfl rfl rfl fun hforced => .inl (hr hforced)
  | @escapes k n key required rf e now pick hk he =>
    exact h.ends hk rfl rfl rfl rfl fun _ => .inr ⟨e, rfl, he, hP k e now pick rfl⟩
  | deleted => exact ⟨h.asked, h.once, h.inFlight, h.ended⟩

theorem run_inv' (d : Bool) (ops : List (Op κ)) :
    Inv (fun e => ∃ k now pick, .raises k e now pick ∈ ops) (run (step d) (init : St κ) ops) := by
  have hmem : Along (step d) (fun _ o => o ∈ ops) (init : St κ) ops := along_of_forall _ fun o ho _ => ho
  refine run_inv_of (fun s o hs ho => step_inv d s o hs ?_) (inv_init _) hmem
  rintro k e now pick rfl
  exact ⟨k, now, pick, ho⟩

/-- **Decisions.** In every run:
- a call sends at most one request;
- it sends none if an unexpired endpoint is cached as it starts, and inside the failure window of its key only if its
  operation requires discovery and no stale entries exist;
- while the requests fail with caught exceptions alone, a call for a required operation gives an address or raises
  `EndpointDiscoveryRefreshFailed`, and one for an optional operation gives an address or `None`;
- the step that stores the endpoints of an answered request clears the mark of the key. -/
theorem discovery_decisions (alwaysDiscover : Bool) (ops : List (Op κ)) :
    let s := run (step alwaysDiscover) (init : St κ) ops
    (∀ n, s.requests.count n ≤ 1) ∧
    (∀ n ∈ s.requests, ∃ c, s.calls[n]? = some c ∧ ¬ c.Fresh ∧ (c.Failing → c.required = true ∧ ¬ c.Stale)) ∧
    ((∀ k e now pick, .raises k e now pick ∈ ops → handled e = true) →
      ∀ n r, (n, r) ∈ s.rets → ∃ c, s.calls[n]? = some c ∧ Allowed c.required r) ∧
    (∀ k n key required rf response now pick, s.pc k = .refreshing n key required rf →
      let s' := step alwaysDiscover s (.described k response now pick)
      s'.cache key = some (parseEndpoints response now) ∧ s'.failedAttempts key = none) := by
  intro s
  have hinv := run_inv' alwaysDiscover ops
  refine ⟨List.nodup_iff_count_le_one.1 hinv.once, fun n hn => ?_, fun hcaught n r hr => ?_, ?_⟩
  · obtain ⟨c, rf, hc, hasks⟩ := hinv.asked n hn
    exact ⟨c, hc, hasks.notFresh, fun hfailing => hasks.forced (hasks.failing.1 hfailing)⟩
  · obtain ⟨c, hc, hr⟩ := hinv.ended n r hr
    rcases hr with hr | ⟨e, -, he, k, now, pick, hop⟩
    · exact ⟨c, hc, hr⟩
    · rw [hcaught k e now pick hop] at he
      cases he
  · intro k n key required rf response now pick hk
    obtain ⟨r, hr, -⟩ := refreshed_ends
      { s with cache := update s.cache key (some (parseEndpoints response now)),
               failedAttempts := update s.failedAttempts key none } k n key required rf
      (some (parseEndpoints response now)) pick
    simp only [step, hk, hr, ret, goto, update_self, and_self]

/-- a required call whose request times out, and a second one inside the failure window -/
theorem discovery_decisions_two :
    let s := run (step true) (init : St ℕ) [.call 0 7 true 0 0 0, .raises 0 .readTimeoutError 1 0, .call 0 7 true 2 2 0,
      .described 0 [⟨"a", 1⟩] 3 0]
    s.rets = [(0, .refreshFailed), (1, .address "a")] ∧
      ∀ n r, (n, r) ∈ s.rets → ∃ c, s.calls[n]? = some c ∧ Allowed c.required r := by
  have hcaught : ∀ k e now pick, Op.raises k e now pick ∈ ([.call 0 7 true 0 0 0, .raises 0 .readTimeoutError 1 0,
      .call 0 7 true 2 2 0, .described 0 [⟨"a", 1⟩] 3 0] : List (Op ℕ)) → handled e = true := by
    intro k e now pick h
    obtain ⟨-, rfl, -⟩ : k = 0 ∧ e = .readTimeoutError ∧ now = 1 ∧ pick = 0 := by simpa using h
    decide
  exact ⟨by decide +kernel, (discovery_decisions true _).2.2.1 hcaught⟩

end AioBotocore.Discovery
