/-
Refreshable bearer tokens (`tokens.py`: `AioDeferredRefreshableToken`) on one event loop. As for the credentials, a
machine in which any number of tasks call `get_frozen_token`; an operation of `step` is what one task does between two
suspension points, and time passes only in `tick`. A call suspends at the refresh lock and in `await
self._refresh_using()`; how and when the refresher ends is up to the environment.

Inherited from botocore: `_should_refresh` (nothing while `now < _next_refresh`, otherwise by the remaining lifetime)
and `_is_expired`. A token carries an expiration, as the SSO provider's refresher always sets one.

Results:
- `step_cases`: everything one operation can do.
- `token_refresh_protocol`: one refresh at a time; once a token has been obtained, the attempts start at least
  `_attempt_timeout` apart; no waiting for an advisory refresh in flight; a return is never `None`.
-/
import Mathlib.Tactic
import AioBotocore.Async.Run
import AioBotocore.Async.Lock

namespace AioBotocore.Tokens

open Async Function

/-! ## Model -/

structure FrozenAuthToken where
  token : String
  /-- in microseconds -/
  expiration : ℤ
deriving DecidableEq, Repr

inductive RefreshType where
  | mandatory
  | advisory
deriving DecidableEq, Repr

inductive Exn where
  /-- raised by `_refresh_using` -/
  | refresher (text : String)
  | tokenRetrieval (provider errorMsg : String)
deriving DecidableEq, Repr

/-- the constructor's `method` and the class's timeouts, in microseconds -/
structure Cfg where
  method : String
  advisory : ℕ
  mandatory : ℕ
  attempt : ℕ
  mandatory_pos : 0 < mandatory

def seconds (n : ℕ) : ℕ := n * 1000000

/-- `_advisory_refresh_timeout`, `_mandatory_refresh_timeout` and `_attempt_timeout` of the class -/
def sso : Cfg := ⟨"sso", seconds 900, seconds 600, seconds 60, by decide⟩

/-- where a call of `get_frozen_token` stands; `need` is what its first `_should_refresh` said and `since` the number of
tokens the refresher had returned by then -/
inductive Pc where
  | idle
  | queued (need : RefreshType) (since : ℕ)
  /-- in `await self._refresh_using()`, holding the lock -/
  | refreshing (type need : RefreshType) (since : ℕ)
  | returned (t : Option FrozenAuthToken)
  | raised (e : Exn)
  | cancelled
deriving DecidableEq, Repr

def region : Pc → Region
  | .queued _ _ => .queued
  | .refreshing _ _ _ => .inside
  | _ => .out

/-- how the awaited `_refresh_using()` ends -/
inductive Outcome where
  | returns (t : FrozenAuthToken)
  | raises (text : String)
deriving DecidableEq, Repr

/-- a normal return: what was returned, what the caller had needed, the number of tokens obtained by its call and by its
return, and when -/
structure Ret where
  task : ℕ
  value : Option FrozenAuthToken
  need : Option RefreshType
  since : ℕ
  epoch : ℕ
  time : ℤ
deriving DecidableEq, Repr

/-- the start of a refresh attempt: when, and the number of tokens obtained before -/
structure Start where
  task : ℕ
  time : ℤ
  epoch : ℕ
deriving DecidableEq, Repr

structure St where
  now : ℤ
  frozenToken : Option FrozenAuthToken
  nextRefresh : Option ℤ
  lock : Lock ℕ
  pc : ℕ → Pc
  /-- the number of tokens the refresher has returned -/
  epoch : ℕ
  starts : List Start
  rets : List Ret

inductive Op where
  | tick (d : ℕ)
  | call (k : ℕ)
  | resume (k : ℕ)
  | finish (k : ℕ) (o : Outcome)
  | cancel (k : ℕ)
deriving DecidableEq, Repr

def init (t0 : ℤ) : St := ⟨t0, none, none, Lock.init, fun _ => .idle, 0, [], []⟩

/-- `now < self._next_refresh`, with a token at hand -/
def throttled (s : St) : Bool :=
  s.frozenToken.isSome && match s.nextRefresh with
    | none => false
    | some n => decide (s.now < n)

/-- `_should_refresh()` -/
def shouldRefresh (C : Cfg) (s : St) : Option RefreshType :=
  match s.frozenToken with
  | none => some .mandatory
  | some t =>
    if throttled s then none
    else if t.expiration - s.now < C.mandatory then some .mandatory
    else if t.expiration - s.now < C.advisory then some .advisory
    else none

/-- `_is_expired()` -/
def isExpired (s : St) : Bool :=
  match s.frozenToken with
  | none => false
  | some t => decide (t.expiration - s.now ≤ 0)

def goto (s : St) (k : ℕ) (p : Pc) : St := { s with pc := update s.pc k p }

/-- `return self._frozen_token` -/
def ret (s : St) (k : ℕ) (need : Option RefreshType) (since : ℕ) : St :=
  { goto s k (.returned s.frozenToken) with rets := s.rets ++ [⟨k, s.frozenToken, need, since, s.epoch, s.now⟩] }

def unlock (s : St) : St := { s with lock := s.lock.release }

/-- an attempt: the throttle is set, then the refresher is awaited -/
def attempt (C : Cfg) (s : St) (k : ℕ) (type need : RefreshType) (since : ℕ) : St :=
  { goto s k (.refreshing type need since) with
    nextRefresh := some (s.now + C.attempt), starts := s.starts ++ [⟨k, s.now, s.epoch⟩] }

/-- `_protected_refresh` up to its await -/
def protectedRefresh (C : Cfg) (s : St) (k : ℕ) (need : RefreshType) (since : ℕ) : St :=
  match shouldRefresh C s with
  | none => ret (unlock s) k (some need) since
  | some type => attempt C s k type need since

def expiredMsg : String := "Token has expired and refresh failed"

/-- `_protected_refresh` after the `try` -/
def checkExpired (C : Cfg) (s : St) (k : ℕ) (need : RefreshType) (since : ℕ) : St :=
  if isExpired s then goto (unlock s) k (.raised (.tokenRetrieval C.method expiredMsg))
  else ret (unlock s) k (some need) since

def store (s : St) (t : FrozenAuthToken) : St := { s with frozenToken := some t, epoch := s.epoch + 1 }

/-- `_protected_refresh` from the end of the awaited refresher -/
def finishRefresh (C : Cfg) (s : St) (k : ℕ) (type need : RefreshType) (since : ℕ) : Outcome → St
  | .returns t => checkExpired C (store s t) k need since
  | .raises text =>
    if type = .mandatory then goto (unlock s) k (.raised (.refresher text)) else checkExpired C s k need since

/-- `get_frozen_token` from the call to its first suspension or its end -/
def getFrozenToken (C : Cfg) (s : St) (k : ℕ) : St :=
  match shouldRefresh C s with
  | none => ret s k none s.epoch
  | some need =>
    if need = .mandatory ∨ s.lock.locked = false then
      if s.lock.free then protectedRefresh C { s with lock := s.lock.take k } k need s.epoch
      else goto { s with lock := s.lock.enqueue k } k (.queued need s.epoch)
    else ret s k (some need) s.epoch

def step (C : Cfg) (s : St) : Op → St
  | .tick d => { s with now := s.now + d }
  | .call k =>
    match s.pc k with
    | .idle => getFrozenToken C s k
    | _ => s
  | .resume k =>
    if s.lock.ready k then
      match s.pc k with
      | .queued need since => protectedRefresh C { s with lock := s.lock.resume k } k need since
      | _ => s
    else s
  | .finish k o =>
    match s.pc k with
    | .refreshing type need since => finishRefresh C s k type need since o
    | _ => s
  | .cancel k =>
    match s.pc k with
    | .queued _ _ => goto { s with lock := s.lock.abort k } k .cancelled
    | .refreshing _ _ _ => goto (unlock s) k .cancelled
    | _ => s

abbrev exec (C : Cfg) (t0 : ℤ) (ops : List Op) : St := run (step C) (init t0) ops

/-- a call of `_refresh_using` is in flight in task `k` -/
def InFlight (s : St) (k : ℕ) : Prop := region (s.pc k) = .inside

@[simp] theorem goto_now (s : St) (k : ℕ) (p : Pc) : (goto s k p).now = s.now := rfl
@[simp] theorem goto_pc (s : St) (k : ℕ) (p : Pc) : (goto s k p).pc = update s.pc k p := rfl
@[simp] theorem goto_rets (s : St) (k : ℕ) (p : Pc) : (goto s k p).rets = s.rets := rfl
@[simp] theorem ret_pc (s : St) (k : ℕ) (n : Option RefreshType) (e : ℕ) :
    (ret s k n e).pc = update s.pc k (.returned s.frozenToken) := rfl
@[simp] theorem ret_rets (s : St) (k : ℕ) (n : Option RefreshType) (e : ℕ) :
    (ret s k n e).rets = s.rets ++ [⟨k, s.frozenToken, n, e, s.epoch, s.now⟩] := rfl

/-! ## What one operation can do -/

inductive Move (C : Cfg) (s : St) : Op → St → Prop
  | tick (d : ℕ) : Move C s (.tick d) { s with now := s.now + d }
  | fresh (k : ℕ) (hk : s.pc k = .idle) (h : shouldRefresh C s = none) : Move C s (.call k) (ret s k none s.epoch)
  /-- an advisory refresh is needed while another task refreshes -/
  | busy (k : ℕ) (hk : s.pc k = .idle) (h : shouldRefresh C s = some .advisory) (hl : s.lock.locked = true) :
      Move C s (.call k) (ret s k (some .advisory) s.epoch)
  | queue (k : ℕ) (need : RefreshType) (hk : s.pc k = .idle) (h : shouldRefresh C s = some need)
      (hf : s.lock.free = false) :
      Move C s (.call k) (goto { s with lock := s.lock.enqueue k } k (.queued need s.epoch))
  | start (k : ℕ) (need : RefreshType) (hk : s.pc k = .idle) (h : shouldRefresh C s = some need)
      (hf : s.lock.free = true) :
      Move C s (.call k) (attempt C { s with lock := s.lock.take k } k need need s.epoch)
  /-- a waiter that is let in and has nothing to do -/
  | passed (k : ℕ) (need : RefreshType) (since : ℕ) (hr : s.lock.ready k = true) (hk : s.pc k = .queued need since)
      (h : shouldRefresh C s = none) :
      Move C s (.resume k) (ret (unlock { s with lock := s.lock.resume k }) k (some need) since)
  /-- a waiter that is let in and refreshes -/
  | restart (k : ℕ) (type need : RefreshType) (since : ℕ) (hr : s.lock.ready k = true)
      (hk : s.pc k = .queued need since) (h : shouldRefresh C s = some type) :
      Move C s (.resume k) (attempt C { s with lock := s.lock.resume k } k type need since)
  | failed (k : ℕ) (need : RefreshType) (since : ℕ) (text : String) (hk : s.pc k = .refreshing .mandatory need since) :
      Move C s (.finish k (.raises text)) (goto (unlock s) k (.raised (.refresher text)))
  | swallowed (k : ℕ) (need : RefreshType) (since : ℕ) (text : String)
      (hk : s.pc k = .refreshing .advisory need since) :
      Move C s (.finish k (.raises text)) (checkExpired C s k need since)
  | obtained (k : ℕ) (type need : RefreshType) (since : ℕ) (t : FrozenAuthToken)
      (hk : s.pc k = .refreshing type need since) :
      Move C s (.finish k (.returns t)) (checkExpired C (store s t) k need since)
  | aborted (k : ℕ) (need : RefreshType) (since : ℕ) (hk : s.pc k = .queued need since) :
      Move C s (.cancel k) (goto { s with lock := s.lock.abort k } k .cancelled)
  | dropped (k : ℕ) (hk : region (s.pc k) = .inside) : Move C s (.cancel k) (goto (unlock s) k .cancelled)

variable {C : Cfg} {s : St}

theorem shouldRefresh_lock (C : Cfg) (s : St) (l : Lock ℕ) : shouldRefresh C { s with lock := l } = shouldRefresh C s :=
  rfl

theorem call_cases {k : ℕ} (hk : s.pc k = .idle) : Move C s (.call k) (getFrozenToken C s k) := by
  unfold getFrozenToken protectedRefresh
  cases h : shouldRefresh C s with
  | none => exact .fresh k hk h
  | some need =>
    simp only [shouldRefresh_lock, h]
    split_ifs with hb hf
    · exact .start k need hk h hf
    · exact .queue k need hk h (by simpa using hf)
    · rw [not_or] at hb
      cases need with
      | mandatory => exact absurd rfl hb.1
      | advisory => exact .busy k hk h (by simpa using hb.2)

/-- **Inversion.** An operation changes nothing, or is one of the moves. -/
theorem step_cases (C : Cfg) (s : St) (o : Op) : step C s o = s ∨ Move C s o (step C s o) := by
  cases o with
  | tick d => exact Or.inr (.tick d)
  | call k =>
    simp only [step]
    split
    · rename_i hk; exact Or.inr (call_cases hk)
    · exact Or.inl rfl
  | resume k =>
    simp only [step]
    split_ifs with hr
    · split
      · rename_i need since hk
        unfold protectedRefresh
        simp only [shouldRefresh_lock]
        cases h : shouldRefresh C s with
        | none => exact Or.inr (.passed k need since hr hk h)
        | some type => exact Or.inr (.restart k type need since hr hk h)
      · exact Or.inl rfl
    · exact Or.inl rfl
  | finish k o =>
    simp only [step]
    split
    · rename_i type need since hk
      cases o with
      | returns t => exact Or.inr (.obtained k type need since t hk)
      | raises text =>
        cases type with
        | mandatory => exact Or.inr (.failed k need since text hk)
        | advisory => exact Or.inr (.swallowed k need since text hk)
    · exact Or.inl rfl
  | cancel k =>
    simp only [step]
    split
    · rename_i need since hk; exact Or.inr (.aborted k need since hk)
    · rename_i hk; exact Or.inr (.dropped k (by rw [hk]; rfl))
    · exact Or.inl rfl

/-! ## The invariant -/

/-- the token at hand, if any, is in its mandatory window -/
def Urgent (C : Cfg) (s : St) : Prop := ∀ t, s.frozenToken = some t → t.expiration - s.now < C.mandatory

/-- the start of an attempt and of a later one -/
def Spaced (C : Cfg) (a b : Start) : Prop := a.time + C.attempt ≤ b.time

def held (e : Start) : Bool := decide (0 < e.epoch)

structure Data (C : Cfg) (s : St) : Prop where
  obtained : s.frozenToken ≠ none ↔ 0 < s.epoch
  past : ∀ e ∈ s.starts, e.time ≤ s.now
  /-- the throttle covers every attempt so far -/
  next : ∀ e ∈ s.starts, ∃ n, s.nextRefresh = some n ∧ e.time + C.attempt ≤ n
  spaced : (s.starts.filter held).Pairwise (Spaced C)
  /-- a waiter that needed a mandatory refresh still does, unless a token has come since -/
  queued : ∀ k need since, s.pc k = .queued need since →
    since ≤ s.epoch ∧ (need = .mandatory → since = s.epoch → Urgent C s)
  /-- an advisory refresh has a token at hand, newer than the call if that had needed a mandatory one -/
  refreshing : ∀ k type need since, s.pc k = .refreshing type need since →
    since ≤ s.epoch ∧ (type = .advisory → s.frozenToken ≠ none ∧ (need = .mandatory → since < s.epoch))
  rets : ∀ r ∈ s.rets, r.value ≠ none

structure Inv (C : Cfg) (s : St) : Prop where
  guards : Lock.Guards region s.lock s.pc
  data : Data C s

theorem inv_init (C : Cfg) (t0 : ℤ) : Inv C (init t0) := by
  refine ⟨Lock.guards_init fun _ => rfl, ?_, ?_, ?_, ?_, ?_, ?_, ?_⟩ <;> simp [init]

theorem shouldRefresh_some {t : FrozenAuthToken} (ht : s.frozenToken = some t) (hth : throttled s = false) :
    shouldRefresh C s = if t.expiration - s.now < C.mandatory then some .mandatory
      else if t.expiration - s.now < C.advisory then some .advisory else none := by
  simp [shouldRefresh, ht, hth]

/-- what the answer of `_should_refresh` says about the token -/
theorem shouldRefresh_spec : match shouldRefresh C s with
    | none => ∃ t, s.frozenToken = some t ∧ (throttled s = true ∨ C.mandatory ≤ t.expiration - s.now)
    | some .mandatory => Urgent C s ∧ throttled s = false
    | some .advisory => ∃ t, s.frozenToken = some t ∧ throttled s = false ∧ C.mandatory ≤ t.expiration - s.now := by
  cases ht : s.frozenToken with
  | none => simp [shouldRefresh, ht, Urgent, throttled]
  | some t =>
    cases hth : throttled s with
    | true => simp [shouldRefresh, ht, hth]
    | false =>
      rw [shouldRefresh_some ht hth]
      split_ifs with hm ha
      · exact ⟨fun t' ht' => by rw [ht] at ht'; cases ht'; exact hm, rfl⟩
      · exact ⟨t, rfl, rfl, not_lt.1 hm⟩
      · exact ⟨t, rfl, Or.inr (not_lt.1 hm)⟩

theorem fresh_token (h : shouldRefresh C s = none) :
    ∃ t, s.frozenToken = some t ∧ (throttled s = true ∨ C.mandatory ≤ t.expiration - s.now) := by
  have := shouldRefresh_spec (C := C) (s := s)
  rwa [h] at this

theorem advisory_token (h : shouldRefresh C s = some .advisory) :
    ∃ t, s.frozenToken = some t ∧ C.mandatory ≤ t.expiration - s.now := by
  have := shouldRefresh_spec (C := C) (s := s)
  rw [h] at this
  obtain ⟨t, ht, -, hm⟩ := this
  exact ⟨t, ht, hm⟩

theorem urgent_of_mandatory (h : shouldRefresh C s = some .mandatory) : Urgent C s := by
  have := shouldRefresh_spec (C := C) (s := s)
  rw [h] at this
  exact this.1

theorem not_throttled {type : RefreshType} (h : shouldRefresh C s = some type) : throttled s = false := by
  have := shouldRefresh_spec (C := C) (s := s)
  rw [h] at this
  cases type with
  | mandatory => exact this.2
  | advisory => obtain ⟨t, -, hth, -⟩ := this; exact hth

/-- an attempt that begins with a token at hand begins after the throttle of every earlier one -/
theorem spaced_of_due (h : Data C s) (hth : throttled s = false) (hs : s.frozenToken ≠ none) :
    ∀ e ∈ s.starts, e.time + C.attempt ≤ s.now := by
  intro e he
  obtain ⟨n, hn, hle⟩ := h.next e he
  have : ¬ s.now < n := by
    intro hlt
    have hsome : s.frozenToken.isSome = true := Option.isSome_iff_ne_none.2 hs
    simp [throttled, hsome, hn, hlt] at hth
  omega

theorem Data.lock (h : Data C s) (l : Lock ℕ) : Data C { s with lock := l } :=
  ⟨h.obtained, h.past, h.next, h.spaced, h.queued, h.refreshing, h.rets⟩

theorem Data.goto (h : Data C s) (k : ℕ) {p : Pc}
    (hq : ∀ need since, p = .queued need since → since ≤ s.epoch ∧ (need = .mandatory → since = s.epoch → Urgent C s))
    (hr : ∀ type need since, p = .refreshing type need since →
      since ≤ s.epoch ∧ (type = .advisory → s.frozenToken ≠ none ∧ (need = .mandatory → since < s.epoch))) :
    Data C (goto s k p) := by
  refine ⟨h.obtained, h.past, h.next, h.spaced, fun i need since hi => ?_, fun i type need since hi => ?_, h.rets⟩
  · by_cases hik : i = k
    · subst hik; rw [goto_pc, update_self] at hi; exact hq need since hi
    · rw [goto_pc, update_of_ne hik] at hi; exact h.queued i need since hi
  · by_cases hik : i = k
    · subst hik; rw [goto_pc, update_self] at hi; exact hr type need since hi
    · rw [goto_pc, update_of_ne hik] at hi; exact h.refreshing i type need since hi

theorem Data.leave (h : Data C s) (k : ℕ) {p : Pc} (hp : region p = .out) : Data C (Tokens.goto s k p) :=
  h.goto k (fun _ _ e => by rw [e] at hp; cases hp) fun _ _ _ e => by rw [e] at hp; cases hp

theorem Data.ret (h : Data C s) (k : ℕ) (need : Option RefreshType) (since : ℕ) (hs : s.frozenToken ≠ none) :
    Data C (ret s k need since) := by
  have h' := h.leave k (p := .returned s.frozenToken) rfl
  refine ⟨h'.obtained, h'.past, h'.next, h'.spaced, h'.queued, h'.refreshing, fun r hr => ?_⟩
  rw [ret_rets, List.mem_append, List.mem_singleton] at hr
  rcases hr with hr | rfl
  · exact h.rets r hr
  · exact hs

theorem Data.checkExpired (h : Data C s) (k : ℕ) (need : RefreshType) (since : ℕ) (hs : s.frozenToken ≠ none) :
    Data C (checkExpired C s k need since) := by
  unfold Tokens.checkExpired
  split_ifs
  · exact (h.lock _).leave k rfl
  · exact (h.lock _).ret k _ _ hs

theorem Data.store (h : Data C s) (t : FrozenAuthToken) : Data C (store s t) := by
  refine ⟨by simp [Tokens.store], h.past, h.next, h.spaced, fun k need since hk => ?_, fun k type need since hk => ?_, h.rets⟩
  · have hle := (h.queued k need since hk).1
    simp only [Tokens.store]
    exact ⟨by omega, fun _ he => by omega⟩
  · have hle := (h.refreshing k type need since hk).1
    simp only [Tokens.store]
    exact ⟨by omega, fun _ => ⟨by simp, fun _ => by omega⟩⟩

theorem Data.attempt (h : Data C s) (k : ℕ) (type need : RefreshType) (since : ℕ)
    (hd : shouldRefresh C s = some type) (hle : since ≤ s.epoch)
    (hneed : need = .mandatory → since = s.epoch → Urgent C s) : Data C (attempt C s k type need since) := by
  have hadv : type = .advisory → s.frozenToken ≠ none ∧ (need = .mandatory → since < s.epoch) := by
    rintro rfl
    obtain ⟨t, ht, hm⟩ := advisory_token hd
    refine ⟨by simp [ht], fun hn => lt_of_le_of_ne hle fun he => ?_⟩
    have := hneed hn he t ht
    omega
  have h' := h.goto k (p := .refreshing type need since) (fun _ _ e => by cases e) (fun _ _ _ e => by
    cases e; exact ⟨hle, hadv⟩)
  refine ⟨h'.obtained, fun e he => ?_, fun e he => ⟨s.now + C.attempt, rfl, ?_⟩, ?_, h'.queued, h'.refreshing, h'.rets⟩
  · rcases List.mem_append.1 he with he | he
    · exact h.past e he
    · rw [List.mem_singleton.1 he]; exact le_rfl
  · rcases List.mem_append.1 he with he | he
    · have := h.past e he
      omega
    · rw [List.mem_singleton.1 he]
  · show (List.filter held (s.starts ++ [⟨k, s.now, s.epoch⟩])).Pairwise (Spaced C)
    rw [List.filter_append, List.pairwise_append]
    refine ⟨h.spaced, List.Pairwise.filter _ (List.pairwise_singleton _ _), fun a ha b hb => ?_⟩
    obtain ⟨hb, hheld⟩ := List.mem_filter.1 hb
    obtain rfl := List.mem_singleton.1 hb
    have hs : s.frozenToken ≠ none := h.obtained.2 (by simpa [held] using hheld)
    exact spaced_of_due h (not_throttled hd) hs a (List.mem_filter.1 ha).1

theorem Data.tick (h : Data C s) (d : ℕ) : Data C { s with now := s.now + d } := by
  refine ⟨h.obtained, fun e he => ?_, h.next, h.spaced, fun k need since hk => ?_, h.refreshing, h.rets⟩
  · have := h.past e he
    show e.time ≤ s.now + d
    omega
  · obtain ⟨hle, hurg⟩ := h.queued k need since hk
    refine ⟨hle, fun hn he t ht => ?_⟩
    have := hurg hn he t ht
    show t.expiration - (s.now + d) < C.mandatory
    omega

theorem move_data {o : Op} {s' : St} (h : Data C s) (hm : Move C s o s') : Data C s' := by
  cases hm with
  | tick d => exact h.tick d
  | fresh k hk hd =>
    obtain ⟨t, ht, -⟩ := fresh_token hd
    exact h.ret k _ _ (by simp [ht])
  | busy k hk hd =>
    obtain ⟨t, ht, -⟩ := advisory_token hd
    exact h.ret k _ _ (by simp [ht])
  | queue k need hk hd =>
    refine (h.lock _).goto k (fun need' since e => ?_) (fun _ _ _ e => by cases e)
    cases e
    exact ⟨le_rfl, fun hn _ => urgent_of_mandatory (hn ▸ hd)⟩
  | start k need hk hd =>
    exact (h.lock _).attempt k need need s.epoch hd le_rfl fun hn _ => urgent_of_mandatory (hn ▸ hd)
  | passed k need since hr hk hd =>
    obtain ⟨t, ht, -⟩ := fresh_token hd
    exact (h.lock _).ret k _ _ (by simp [ht])
  | restart k type need since hr hk hd =>
    obtain ⟨hle, hurg⟩ := h.queued k need since hk
    exact (h.lock _).attempt k type need since hd hle hurg
  | failed k need since text hk => exact (h.lock _).leave k rfl
  | swallowed k need since text hk =>
    exact h.checkExpired k need since ((h.refreshing k _ need since hk).2 rfl).1
  | obtained k type need since t hk => exact (h.store t).checkExpired k need since (by simp [store])
  | aborted k => exact (h.lock _).leave k rfl
  | dropped k => exact (h.lock _).leave k rfl

theorem checkExpired_guards {s s' : St} {k : ℕ} {need : RefreshType} {since : ℕ}
    (h : Lock.Guards region s.lock s.pc) (hk : region (s.pc k) = .inside) (hl : s'.lock = s.lock) (hp : s'.pc = s.pc) :
    Lock.Guards region (checkExpired C s' k need since).lock (checkExpired C s' k need since).pc := by
  unfold checkExpired
  split_ifs
  · show Lock.Guards region s'.lock.release (update s'.pc k _)
    rw [hl, hp]; exact h.leave hk rfl
  · show Lock.Guards region s'.lock.release (update s'.pc k _)
    rw [hl, hp]; exact h.leave hk rfl

theorem move_guards {o : Op} {s' : St} (h : Lock.Guards region s.lock s.pc) (hm : Move C s o s') :
    Lock.Guards region s'.lock s'.pc := by
  cases hm with
  | tick d => exact h
  | fresh k hk => exact h.stay (by rw [hk]; rfl)
  | busy k hk => exact h.stay (by rw [hk]; rfl)
  | queue k need hk hd hf => exact h.enqueue hf (by rw [hk]; rfl) rfl
  | start k need hk hd hf => exact h.enter hf rfl
  | passed k need since hr => exact h.pass hr rfl (w := .refreshing need need since) rfl
  | restart k type need since hr => exact h.resume hr rfl
  | failed k need since text hk => exact h.leave (by rw [hk]; rfl) rfl
  | swallowed k need since text hk => exact checkExpired_guards h (by rw [hk]; rfl) rfl rfl
  | obtained k type need since t hk => exact checkExpired_guards h (by rw [hk]; rfl) rfl rfl
  | aborted k need since hk => exact h.abort (by rw [hk]; rfl) rfl
  | dropped k hk => exact h.leave hk rfl

theorem step_inv (C : Cfg) (s : St) (o : Op) (h : Inv C s) : Inv C (step C s o) := by
  rcases step_cases C s o with hs | hm
  · rw [hs]; exact h
  · exact ⟨move_guards h.guards hm, move_data h.data hm⟩

theorem run_inv (C : Cfg) (t0 : ℤ) (ops : List Op) : Inv C (exec C t0 ops) :=
  Async.run_inv (step_inv C) (inv_init C t0) ops

/-! ## Main result -/

/-- **Refresh protocol.** In every state of every interleaving: at most one refresh is in flight; the attempts made
since a token was first obtained start at least `_attempt_timeout` apart, however they end; a call that finds a refresh
in flight and needs only an advisory one returns at once; and no return is `None`. -/
theorem token_refresh_protocol (C : Cfg) (t0 : ℤ) (ops : List Op) :
    let s := exec C t0 ops
    (∀ i j, InFlight s i → InFlight s j → i = j) ∧
    (s.starts.filter held).Pairwise (fun a b => a.time + (C.attempt : ℤ) ≤ b.time) ∧
    (∀ j k, InFlight s j → s.pc k = .idle → shouldRefresh C s = some .advisory →
      (step C s (.call k)).pc k = .returned s.frozenToken) ∧
    ∀ r ∈ s.rets, r.value ≠ none := by
  intro s
  have h : Inv C s := run_inv C t0 ops
  refine ⟨fun i j hi hj => h.guards.unique hi hj, h.data.spaced, fun j k hj hk hd => ?_, h.data.rets⟩
  have hl := h.guards.locked_of_inside hj
  simp [step, hk, getFrozenToken, hd, hl]

end AioBotocore.Tokens
