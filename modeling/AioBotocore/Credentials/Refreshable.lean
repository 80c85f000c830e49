/-
Refreshable credentials (`credentials.py`: `AioRefreshableCredentials`, `AioDeferredRefreshableCredentials`) on one
event loop. A machine: any number of tasks call `get_frozen_credentials`; each operation of `step` is what one task
does between two suspension points, so a list of operations is an interleaving, and time passes only in `tick`.

A call suspends at the refresh lock (`asyncio.Lock`) and in `await self._refresh_using()`. The refresher is the
environment: it ends whenever it likes (`finish`), with a dict (good or bad) or an exception, or is cancelled with its
task (`cancel`).

Inherited from botocore, not in this repository, and a parameter here (`Base`): `_set_from_data` and the parser of the
expiry time. `refresh_needed` compares the time left with its argument; a deferred object without credentials always
needs a refresh.

Results:
- `step_cases`: everything one operation can do.
- `run_inv`: the lock agrees with the tasks, and the frozen credentials and the expiry time always come from one and
  the same refresh result (or from the constructor).
- `credentials_refresh_protocol`: one refresh at a time; no refresh by a waiter that is let in outside the mandatory
  window; no waiting for an advisory refresh in flight; no mixed credentials, and never `None` from a deferred object.
-/
import Mathlib.Tactic
import AioBotocore.Async.Run
import AioBotocore.Async.Lock

namespace AioBotocore.Credentials

open Async Function

/-! ## Data -/

/-- a credential field: a string or `None` -/
abbrev Value := Option String

structure ReadOnlyCredentials where
  accessKey : Value
  secretKey : Value
  token : Value
  accountId : Value
deriving DecidableEq, Repr

/-- the dict a refresher returns (`None` and `{}` are the empty one) -/
abbrev Metadata := List (String × Value)

/-- `data[key]` for a key that is there, `data.get(key)` otherwise -/
def Metadata.get (m : Metadata) (key : String) : Value := (m.lookup key).join

def expectedKeys : List String := ["access_key", "secret_key", "token", "expiry_time"]

def missingKeys (m : Metadata) : List String := expectedKeys.filter fun key => (m.lookup key).isNone

inductive Exn where
  /-- raised by `_refresh_using` -/
  | refresher (text : String)
  /-- raised by `_set_from_data`: missing keys, or an expiry time that does not parse -/
  | setFromData (text : String)
  | runtimeError (msg : String)
deriving DecidableEq, Repr

/-- the attributes of the object -/
structure Attrs where
  accessKey : Value
  secretKey : Value
  token : Value
  accountId : Value
  /-- in microseconds -/
  expiryTime : Option ℤ
  frozen : Option ReadOnlyCredentials
deriving DecidableEq, Repr

/-- the credentials of one refresh result -/
def Metadata.readOnly (m : Metadata) : ReadOnlyCredentials :=
  ⟨m.get "access_key", m.get "secret_key", m.get "token", m.get "account_id"⟩

/-- What the refresh relies on from botocore. A dict with all expected keys and a good expiry time is stored; any other
raises, and then neither the expiry time nor the frozen credentials have been touched (the other fields may have). -/
structure Base where
  parse : Value → Option ℤ
  setFromData : Attrs → Metadata → Attrs × Option Exn
  stores : ∀ a m t, missingKeys m = [] → parse (m.get "expiry_time") = some t → setFromData a m =
    ({ a with accessKey := m.get "access_key", secretKey := m.get "secret_key", token := m.get "token",
              accountId := m.get "account_id", expiryTime := some t }, none)
  raises : ∀ a m, (missingKeys m ≠ [] ∨ parse (m.get "expiry_time") = none) → ∃ e, (setFromData a m).2 = some e
  keeps : ∀ a m e, (setFromData a m).2 = some e →
    (setFromData a m).1.expiryTime = a.expiryTime ∧ (setFromData a m).1.frozen = a.frozen

/-- botocore's `_set_from_data`: the keys are checked first, and the fields are assigned in order, so a bad expiry time
leaves the three fields before it changed -/
def botocore (parse : Value → Option ℤ) : Base where
  parse := parse
  setFromData a m :=
    if missingKeys m ≠ [] then
      (a, some (.setFromData ("Credential refresh failed, response did not contain: " ++
        ", ".intercalate (missingKeys m))))
    else
      let a := { a with accessKey := m.get "access_key", secretKey := m.get "secret_key", token := m.get "token" }
      match parse (m.get "expiry_time") with
      | none => (a, some (.setFromData "Unknown string format"))
      | some t => ({ a with expiryTime := some t, accountId := m.get "account_id" }, none)
  stores a m t hmiss ht := by simp [hmiss, ht]
  raises a m h := by
    by_cases hmiss : missingKeys m = []
    · have ht := h.resolve_left (not_not.2 hmiss)
      simp [hmiss, ht]
    · simp [hmiss]
  keeps a m e h := by
    split_ifs with hmiss
    · exact ⟨rfl, rfl⟩
    · rw [if_neg hmiss] at h
      split
      · exact ⟨rfl, rfl⟩
      · rename_i ht; simp [ht] at h

inductive Ctor where
  | refreshable (accessKey secretKey token accountId : Value) (expiryTime : Option ℤ)
  | deferred
deriving DecidableEq, Repr

/-- the constructor's arguments: the timeouts in microseconds -/
structure Cfg where
  ctor : Ctor
  advisory : ℕ
  mandatory : ℕ
deriving DecidableEq, Repr

def seconds (n : ℕ) : ℕ := n * 1000000

/-- `_advisory_refresh_timeout` and `_mandatory_refresh_timeout` of the class -/
def withDefaults (c : Ctor) : Cfg := ⟨c, seconds 900, seconds 600⟩

/-- the timeouts `AioIdentityCache.get_credentials` passes for S3 Express -/
def s3Express (c : Ctor) : Cfg := ⟨c, seconds 45, seconds 10⟩

def Ctor.attrs : Ctor → Attrs
  | .refreshable ak sk tk acc exp => ⟨ak, sk, tk, acc, exp, some ⟨ak, sk, tk, acc⟩⟩
  | .deferred => ⟨none, none, none, none, none, none⟩

/-- `refresh_needed(refresh_in)` -/
def refreshNeeded (C : Cfg) (a : Attrs) (now : ℤ) (refreshIn : ℕ) : Bool :=
  if C.ctor = .deferred ∧ a.frozen = none then true
  else
    match a.expiryTime with
    | none => false
    | some e => decide (e - now < refreshIn)

/-- `_is_expired()` -/
def isExpired (C : Cfg) (a : Attrs) (now : ℤ) : Bool := refreshNeeded C a now 0

/-! ## Model -/

/-- where a call of `get_frozen_credentials` stands -/
inductive Pc where
  | idle
  /-- queued for a lock that `locked()` reported free: it was promised to another waiter -/
  | queuedFree
  /-- queued for a lock that was held -/
  | queuedHeld
  /-- in `await self._refresh_using()`, holding the lock -/
  | refreshing (isMandatory : Bool)
  | returned (c : Option ReadOnlyCredentials)
  | raised (e : Exn)
  | cancelled
deriving DecidableEq, Repr

def region : Pc → Region
  | .queuedFree | .queuedHeld => .queued
  | .refreshing _ => .inside
  | _ => .out

/-- how the awaited `_refresh_using()` ends -/
inductive Outcome where
  | returns (m : Metadata)
  | raises (text : String)
deriving DecidableEq, Repr

/-- a normal return: what was returned, which refresh result it came from (`none`: the constructor), and when -/
structure Ret where
  task : ℕ
  value : Option ReadOnlyCredentials
  origin : Option Metadata
  time : ℤ
deriving DecidableEq, Repr

structure St where
  now : ℤ
  attrs : Attrs
  lock : Lock ℕ
  pc : ℕ → Pc
  /-- the refresh result the frozen credentials come from -/
  origin : Option Metadata
  /-- every dict the refresher has returned -/
  results : List Metadata
  rets : List Ret

inductive Op where
  | tick (d : ℕ)
  | call (k : ℕ)
  | resume (k : ℕ)
  | finish (k : ℕ) (o : Outcome)
  | cancel (k : ℕ)
deriving DecidableEq, Repr

def init (C : Cfg) (t0 : ℤ) : St := ⟨t0, C.ctor.attrs, Lock.init, fun _ => .idle, none, [], []⟩

def goto (s : St) (k : ℕ) (p : Pc) : St := { s with pc := update s.pc k p }

/-- `return self._frozen_credentials` -/
def ret (s : St) (k : ℕ) : St :=
  { goto s k (.returned s.attrs.frozen) with rets := s.rets ++ [⟨k, s.attrs.frozen, s.origin, s.now⟩] }

def unlock (s : St) : St := { s with lock := s.lock.release }

/-- `_refresh` inside the lock, in the branch that found it free -/
def lockedFree (C : Cfg) (s : St) (k : ℕ) : St :=
  if !refreshNeeded C s.attrs s.now C.advisory then ret (unlock s) k
  else
    let isMandatory := refreshNeeded C s.attrs s.now C.mandatory
    goto s k (.refreshing isMandatory)

/-- `_refresh` inside the lock, in the branch that found it held -/
def lockedHeld (C : Cfg) (s : St) (k : ℕ) : St :=
  if !refreshNeeded C s.attrs s.now C.mandatory then ret (unlock s) k
  else goto s k (.refreshing true)

/-- `get_frozen_credentials` from the call to its first suspension or its end -/
def getFrozenCredentials (C : Cfg) (s : St) (k : ℕ) : St :=
  if !refreshNeeded C s.attrs s.now C.advisory then ret s k
  else if !s.lock.locked then
    if s.lock.free then lockedFree C { s with lock := s.lock.take k } k
    else goto { s with lock := s.lock.enqueue k } k .queuedFree
  else if refreshNeeded C s.attrs s.now C.mandatory then
    goto { s with lock := s.lock.enqueue k } k .queuedHeld
  else ret s k

def stillExpired : String := "Credentials were refreshed, but the refreshed credentials are still expired."

/-- `_protected_refresh` from the end of the awaited refresher -/
def protectedRefresh (B : Base) (C : Cfg) (s : St) (k : ℕ) (isMandatory : Bool) : Outcome → St
  | .raises text =>
    if isMandatory then goto (unlock s) k (.raised (.refresher text)) else ret (unlock s) k
  | .returns m =>
    let s := { s with results := s.results ++ [m] }
    match B.setFromData s.attrs m with
    | (a, some e) => goto (unlock { s with attrs := a }) k (.raised e)
    | (a, none) =>
      let a := { a with frozen := some ⟨a.accessKey, a.secretKey, a.token, a.accountId⟩ }
      let s := { s with attrs := a, origin := some m }
      if isExpired C a s.now then goto (unlock s) k (.raised (.runtimeError stillExpired)) else ret (unlock s) k

def step (B : Base) (C : Cfg) (s : St) : Op → St
  | .tick d => { s with now := s.now + d }
  | .call k =>
    match s.pc k with
    | .idle => getFrozenCredentials C s k
    | _ => s
  | .resume k =>
    if s.lock.ready k then
      match s.pc k with
      | .queuedFree => lockedFree C { s with lock := s.lock.resume k } k
      | .queuedHeld => lockedHeld C { s with lock := s.lock.resume k } k
      | _ => s
    else s
  | .finish k o =>
    match s.pc k with
    | .refreshing isMandatory => protectedRefresh B C s k isMandatory o
    | _ => s
  | .cancel k =>
    match s.pc k with
    | .queuedFree | .queuedHeld => goto { s with lock := s.lock.abort k } k .cancelled
    | .refreshing _ => goto (unlock s) k .cancelled
    | _ => s

abbrev exec (B : Base) (C : Cfg) (t0 : ℤ) (ops : List Op) : St := run (step B C) (init C t0) ops

/-- a call of `_refresh_using` is in flight in task `k` -/
def InFlight (s : St) (k : ℕ) : Prop := ∃ im, s.pc k = .refreshing im

instance (s : St) (k : ℕ) : Decidable (InFlight s k) := inferInstanceAs (Decidable (∃ _ : Bool, _))

@[simp] theorem goto_now (s : St) (k : ℕ) (p : Pc) : (goto s k p).now = s.now := rfl
@[simp] theorem goto_pc (s : St) (k : ℕ) (p : Pc) : (goto s k p).pc = update s.pc k p := rfl
@[simp] theorem goto_rets (s : St) (k : ℕ) (p : Pc) : (goto s k p).rets = s.rets := rfl
@[simp] theorem ret_now (s : St) (k : ℕ) : (ret s k).now = s.now := rfl
@[simp] theorem ret_attrs (s : St) (k : ℕ) : (ret s k).attrs = s.attrs := rfl
@[simp] theorem ret_pc (s : St) (k : ℕ) : (ret s k).pc = update s.pc k (.returned s.attrs.frozen) := rfl
@[simp] theorem ret_rets (s : St) (k : ℕ) :
    (ret s k).rets = s.rets ++ [⟨k, s.attrs.frozen, s.origin, s.now⟩] := rfl

/-! ## What one operation can do -/

/-- the attributes after a good result has been stored -/
def Metadata.attrs (m : Metadata) (t : ℤ) : Attrs :=
  ⟨m.get "access_key", m.get "secret_key", m.get "token", m.get "account_id", some t, some m.readOnly⟩

/-- a dict with all expected keys whose expiry time parses to `t` -/
def Good (B : Base) (m : Metadata) (t : ℤ) : Prop := missingKeys m = [] ∧ B.parse (m.get "expiry_time") = some t

theorem good_of_stored {B : Base} {a a' : Attrs} {m : Metadata} (h : B.setFromData a m = (a', none)) :
    ∃ t, Good B m t ∧ { a' with frozen := some ⟨a'.accessKey, a'.secretKey, a'.token, a'.accountId⟩ } = m.attrs t := by
  have hno : ¬ (missingKeys m ≠ [] ∨ B.parse (m.get "expiry_time") = none) := by
    intro hbad
    obtain ⟨e, he⟩ := B.raises a m hbad
    rw [h] at he; cases he
  rw [not_or, not_not] at hno
  obtain ⟨hmiss, hparse⟩ := hno
  obtain ⟨t, ht⟩ := Option.ne_none_iff_exists'.1 hparse
  have := B.stores a m t hmiss ht
  rw [h] at this
  obtain ⟨rfl, -⟩ := Prod.mk.inj this
  exact ⟨t, ⟨hmiss, ht⟩, rfl⟩

def store (s : St) (m : Metadata) (t : ℤ) : St :=
  { s with results := s.results ++ [m], attrs := m.attrs t, origin := some m }

inductive Move (B : Base) (C : Cfg) (s : St) : Op → St → Prop
  | tick (d : ℕ) : Move B C s (.tick d) { s with now := s.now + d }
  /-- a call that needs no refresh, or only an advisory one while another task refreshes -/
  | fresh (k : ℕ) (hk : s.pc k = .idle) (h : refreshNeeded C s.attrs s.now C.advisory = false ∨
      s.lock.locked = true ∧ refreshNeeded C s.attrs s.now C.mandatory = false) : Move B C s (.call k) (ret s k)
  | queueFree (k : ℕ) (hk : s.pc k = .idle) (hf : s.lock.free = false) (hl : s.lock.locked = false) :
      Move B C s (.call k) (goto { s with lock := s.lock.enqueue k } k .queuedFree)
  | queueHeld (k : ℕ) (hk : s.pc k = .idle) (hf : s.lock.free = false) (hl : s.lock.locked = true)
      (h : refreshNeeded C s.attrs s.now C.mandatory = true) :
      Move B C s (.call k) (goto { s with lock := s.lock.enqueue k } k .queuedHeld)
  | start (k : ℕ) (hk : s.pc k = .idle) (hf : s.lock.free = true)
      (h : refreshNeeded C s.attrs s.now C.advisory = true) :
      Move B C s (.call k) (goto { s with lock := s.lock.take k } k
        (.refreshing (refreshNeeded C s.attrs s.now C.mandatory)))
  /-- a waiter that is let in and finds the refresh done -/
  | passed (k : ℕ) (hr : s.lock.ready k = true)
      (h : s.pc k = .queuedFree ∧ refreshNeeded C s.attrs s.now C.advisory = false ∨
        s.pc k = .queuedHeld ∧ refreshNeeded C s.attrs s.now C.mandatory = false) :
      Move B C s (.resume k) (ret (unlock { s with lock := s.lock.resume k }) k)
  /-- a waiter that is let in and refreshes -/
  | restart (k : ℕ) (im : Bool) (hr : s.lock.ready k = true)
      (h : s.pc k = .queuedFree ∧ im = refreshNeeded C s.attrs s.now C.mandatory ∨
        s.pc k = .queuedHeld ∧ im = true ∧ refreshNeeded C s.attrs s.now C.mandatory = true) :
      Move B C s (.resume k) (goto { s with lock := s.lock.resume k } k (.refreshing im))
  | failed (k : ℕ) (text : String) (hk : s.pc k = .refreshing true) :
      Move B C s (.finish k (.raises text)) (goto (unlock s) k (.raised (.refresher text)))
  | swallowed (k : ℕ) (text : String) (hk : s.pc k = .refreshing false) :
      Move B C s (.finish k (.raises text)) (ret (unlock s) k)
  | rejected (k : ℕ) (im : Bool) (m : Metadata) (a : Attrs) (e : Exn) (hk : s.pc k = .refreshing im)
      (h : B.setFromData s.attrs m = (a, some e)) : Move B C s (.finish k (.returns m))
        (goto (unlock { s with results := s.results ++ [m], attrs := a }) k (.raised e))
  | expired (k : ℕ) (im : Bool) (m : Metadata) (t : ℤ) (hk : s.pc k = .refreshing im) (h : Good B m t)
      (he : isExpired C (m.attrs t) s.now = true) : Move B C s (.finish k (.returns m))
        (goto (unlock (store s m t)) k (.raised (.runtimeError stillExpired)))
  | refreshed (k : ℕ) (im : Bool) (m : Metadata) (t : ℤ) (hk : s.pc k = .refreshing im) (h : Good B m t)
      (he : isExpired C (m.attrs t) s.now = false) :
      Move B C s (.finish k (.returns m)) (ret (unlock (store s m t)) k)
  | aborted (k : ℕ) (hk : region (s.pc k) = .queued) :
      Move B C s (.cancel k) (goto { s with lock := s.lock.abort k } k .cancelled)
  | dropped (k : ℕ) (im : Bool) (hk : s.pc k = .refreshing im) : Move B C s (.cancel k) (goto (unlock s) k .cancelled)

variable {B : Base} {C : Cfg} {s : St}

theorem call_cases {k : ℕ} (hk : s.pc k = .idle) : Move B C s (.call k) (getFrozenCredentials C s k) := by
  unfold getFrozenCredentials
  cases hadv : refreshNeeded C s.attrs s.now C.advisory with
  | false => exact .fresh k hk (Or.inl hadv)
  | true =>
    cases hl : s.lock.locked with
    | false =>
      cases hf : s.lock.free with
      | false => simpa using .queueFree k hk hf hl
      | true => simpa [lockedFree, hadv] using .start k hk hf hadv
    | true =>
      cases hm : refreshNeeded C s.attrs s.now C.mandatory with
      | false => simpa using .fresh k hk (Or.inr ⟨hl, hm⟩)
      | true => simpa using .queueHeld k hk (by simp [Lock.free, hl]) hl hm

theorem protectedRefresh_cases {k : ℕ} {im : Bool} (hk : s.pc k = .refreshing im) (o : Outcome) :
    Move B C s (.finish k o) (protectedRefresh B C s k im o) := by
  cases o with
  | raises text =>
    cases im with
    | false => exact .swallowed k text hk
    | true => exact .failed k text hk
  | returns m =>
    simp only [protectedRefresh]
    split
    · rename_i a e h
      exact .rejected k im m a e hk h
    · rename_i a h
      obtain ⟨t, hg, ha⟩ := good_of_stored h
      rw [ha]
      split_ifs with he
      · exact .expired k im m t hk hg he
      · exact .refreshed k im m t hk hg (by simpa using he)

/-- **Inversion.** An operation changes nothing, or is one of the moves. -/
theorem step_cases (B : Base) (C : Cfg) (s : St) (o : Op) : step B C s o = s ∨ Move B C s o (step B C s o) := by
  cases o with
  | tick d => exact Or.inr (.tick d)
  | call k =>
    simp only [step]
    split
    · rename_i hk; exact Or.inr (call_cases hk)
    · exact Or.inl rfl
  | resume k =>
    simp only [step]
    split_ifs with hr
    · split
      · rename_i hk
        unfold lockedFree
        cases hadv : refreshNeeded C s.attrs s.now C.advisory with
        | false => simpa [hadv] using Or.inr (.passed k hr (Or.inl ⟨hk, hadv⟩))
        | true => simpa [hadv] using Or.inr (.restart k _ hr (Or.inl ⟨hk, rfl⟩))
      · rename_i hk
        unfold lockedHeld
        cases hm : refreshNeeded C s.attrs s.now C.mandatory with
        | false => simpa [hm] using Or.inr (.passed k hr (Or.inr ⟨hk, hm⟩))
        | true => simpa [hm] using Or.inr (.restart k true hr (Or.inr ⟨hk, rfl, hm⟩))
      · exact Or.inl rfl
    · exact Or.inl rfl
  | finish k o =>
    simp only [step]
    split
    · rename_i im hk; exact Or.inr (protectedRefresh_cases hk o)
    · exact Or.inl rfl
  | cancel k =>
    simp only [step]
    split
    · rename_i hk; exact Or.inr (.aborted k (by rw [hk]; rfl))
    · rename_i hk; exact Or.inr (.aborted k (by rw [hk]; rfl))
    · rename_i im hk; exact Or.inr (.dropped k im hk)
    · exact Or.inl rfl

/-! ## The invariant -/

/-- the credentials of an origin: a refresh result, or the constructor's arguments -/
def valueOf (C : Cfg) : Option Metadata → Option ReadOnlyCredentials
  | none => C.ctor.attrs.frozen
  | some m => some m.readOnly

def expiryOf (B : Base) (C : Cfg) : Option Metadata → Option ℤ
  | none => C.ctor.attrs.expiryTime
  | some m => B.parse (m.get "expiry_time")

/-- what a return may hand out -/
structure Sound (C : Cfg) (results : List Metadata) (r : Ret) : Prop where
  single : r.value = valueOf C r.origin
  received : ∀ m, r.origin = some m → m ∈ results
  some : C.ctor = .deferred → r.value ≠ none

/-- frozen credentials and expiry time come from one origin -/
structure Data (B : Base) (C : Cfg) (s : St) : Prop where
  frozen : s.attrs.frozen = valueOf C s.origin
  expiry : s.attrs.expiryTime = expiryOf B C s.origin
  received : ∀ m, s.origin = some m → m ∈ s.results
  /-- an advisory refresh was decided with credentials at hand -/
  advisory : ∀ k, s.pc k = .refreshing false → C.ctor = .deferred → s.attrs.frozen ≠ none
  rets : ∀ r ∈ s.rets, Sound C s.results r

structure Inv (B : Base) (C : Cfg) (s : St) : Prop where
  guards : Lock.Guards region s.lock s.pc
  data : Data B C s

theorem inv_init (B : Base) (C : Cfg) (t0 : ℤ) : Inv B C (init C t0) := by
  refine ⟨Lock.guards_init fun _ => rfl, rfl, rfl, ?_, ?_, ?_⟩ <;> simp [init]

theorem frozen_of_fresh {a : Attrs} {now : ℤ} {t : ℕ} (h : refreshNeeded C a now t = false) :
    C.ctor = .deferred → a.frozen ≠ none := by
  intro hd hn
  simp [refreshNeeded, hd, hn] at h

theorem Data.lock (h : Data B C s) (l : Lock ℕ) : Data B C { s with lock := l } :=
  ⟨h.frozen, h.expiry, h.received, h.advisory, h.rets⟩

theorem Data.goto (h : Data B C s) (k : ℕ) {p : Pc}
    (hp : p = .refreshing false → C.ctor = .deferred → s.attrs.frozen ≠ none) : Data B C (goto s k p) := by
  refine ⟨h.frozen, h.expiry, h.received, fun i hi => ?_, h.rets⟩
  by_cases hik : i = k
  · subst hik
    rw [goto_pc, update_self] at hi
    exact hp hi
  · rw [goto_pc, update_of_ne hik] at hi
    exact h.advisory i hi

theorem Data.ret (h : Data B C s) (k : ℕ) (hs : C.ctor = .deferred → s.attrs.frozen ≠ none) : Data B C (ret s k) := by
  have h' := h.goto k (p := .returned s.attrs.frozen) (by intro hc; cases hc)
  refine ⟨h'.frozen, h'.expiry, h'.received, h'.advisory, fun r hr => ?_⟩
  rw [ret_rets, List.mem_append, List.mem_singleton] at hr
  rcases hr with hr | rfl
  · exact h.rets r hr
  · exact ⟨h.frozen, h.received, hs⟩

theorem Sound.mono {r : Ret} {l l' : List Metadata} (h : Sound C l r) (hl : l ⊆ l') : Sound C l' r :=
  ⟨h.single, fun m hm => hl (h.received m hm), h.some⟩

theorem Data.store (h : Data B C s) {m : Metadata} {t : ℤ} (hg : Good B m t) : Data B C (store s m t) := by
  refine ⟨rfl, hg.2.symm, fun m' hm' => ?_, fun _ _ _ => by simp [Credentials.store, Metadata.attrs], fun r hr => ?_⟩
  · cases hm'; exact List.mem_append_right _ (List.mem_singleton.2 rfl)
  · exact (h.rets r hr).mono (List.subset_append_left _ _)

/-- a rejected result leaves the origin and what belongs to it -/
theorem Data.reject (h : Data B C s) {m : Metadata} {a : Attrs} {e : Exn} (hset : B.setFromData s.attrs m = (a, some e)) :
    Data B C { s with results := s.results ++ [m], attrs := a } := by
  obtain ⟨hexp, hfro⟩ := B.keeps s.attrs m e (by rw [hset])
  rw [hset] at hexp hfro
  refine ⟨hfro.trans h.frozen, hexp.trans h.expiry, fun m' hm' => List.mem_append_left _ (h.received m' hm'),
    fun k hk hd => ?_, fun r hr => (h.rets r hr).mono (List.subset_append_left _ _)⟩
  rw [hfro]; exact h.advisory k hk hd

theorem move_data {o : Op} {s' : St} (h : Data B C s) (hm : Move B C s o s') : Data B C s' := by
  cases hm with
  | tick d => exact ⟨h.frozen, h.expiry, h.received, h.advisory, h.rets⟩
  | fresh k hk hf =>
    apply h.ret k
    rcases hf with hf | ⟨-, hf⟩
    · exact frozen_of_fresh hf
    · exact frozen_of_fresh hf
  | queueFree k => exact (h.lock _).goto k (by simp)
  | queueHeld k => exact (h.lock _).goto k (by simp)
  | start k hk hf hadv => exact (h.lock _).goto k fun hp => frozen_of_fresh (by simpa using hp)
  | passed k hr hf =>
    refine (h.lock _).ret k ?_
    rcases hf with ⟨-, hf⟩ | ⟨-, hf⟩
    · exact frozen_of_fresh hf
    · exact frozen_of_fresh hf
  | restart k im hr hf =>
    refine (h.lock _).goto k fun hp => ?_
    rcases hf with ⟨-, rfl⟩ | ⟨-, rfl, -⟩
    · exact frozen_of_fresh (by simpa using hp)
    · simp at hp
  | failed k text => exact (h.lock _).goto k (by simp)
  | swallowed k text hk => exact (h.lock _).ret k (h.advisory k hk)
  | rejected k im m a e hk hset => exact ((h.reject hset).lock _).goto k (by simp)
  | expired k im m t hk hg => exact ((h.store hg).lock _).goto k (by simp)
  | refreshed k im m t hk hg => exact ((h.store hg).lock _).ret k fun _ => by simp [store, Metadata.attrs]
  | aborted k => exact (h.lock _).goto k (by simp)
  | dropped k => exact (h.lock _).goto k (by simp)

theorem move_guards {o : Op} {s' : St} (h : Lock.Guards region s.lock s.pc) (hm : Move B C s o s') :
    Lock.Guards region s'.lock s'.pc := by
  cases hm with
  | tick d => exact h
  | fresh k hk => exact h.stay (by rw [hk]; rfl)
  | queueFree k hk hf => exact h.enqueue hf (by rw [hk]; rfl) rfl
  | queueHeld k hk hf => exact h.enqueue hf (by rw [hk]; rfl) rfl
  | start k hk hf => exact h.enter hf rfl
  | passed k hr => exact h.pass hr rfl (w := .refreshing true) rfl
  | restart k im hr => exact h.resume hr rfl
  | failed k text hk => exact h.leave (by rw [hk]; rfl) rfl
  | swallowed k text hk => exact h.leave (by rw [hk]; rfl) rfl
  | rejected k im m a e hk => exact h.leave (by rw [hk]; rfl) rfl
  | expired k im m t hk => exact h.leave (by rw [hk]; rfl) rfl
  | refreshed k im m t hk => exact h.leave (by rw [hk]; rfl) rfl
  | aborted k hk => exact h.abort hk rfl
  | dropped k im hk => exact h.leave (by rw [hk]; rfl) rfl

theorem step_inv (B : Base) (C : Cfg) (s : St) (o : Op) (h : Inv B C s) : Inv B C (step B C s o) := by
  rcases step_cases B C s o with hs | hm
  · rw [hs]; exact h
  · exact ⟨move_guards h.guards hm, move_data h.data hm⟩

theorem run_inv (B : Base) (C : Cfg) (t0 : ℤ) (ops : List Op) : Inv B C (exec B C t0 ops) :=
  Async.run_inv (step_inv B C) (inv_init B C t0) ops

/-! ## Main results -/

theorem in_flight_unique (h : Inv B C s) {i j : ℕ} (hi : InFlight s i) (hj : InFlight s j) : i = j := by
  obtain ⟨_, hi⟩ := hi
  obtain ⟨_, hj⟩ := hj
  exact h.guards.unique (by rw [hi]; rfl) (by rw [hj]; rfl)

theorem locked_of_in_flight (h : Inv B C s) {j : ℕ} (hj : InFlight s j) : s.lock.locked = true := by
  obtain ⟨_, hj⟩ := hj
  exact h.guards.locked_of_inside (k := j) (by rw [hj]; rfl)

/-- a waiter that found the lock held is let in outside the mandatory window -/
theorem waiter_returns (B : Base) {k : ℕ} (hk : s.pc k = .queuedHeld) (hr : s.lock.ready k = true)
    (hm : refreshNeeded C s.attrs s.now C.mandatory = false) :
    (step B C s (.resume k)).pc k = .returned s.attrs.frozen := by
  simp [step, hr, hk, lockedHeld, hm, unlock]

/-- a call that needs only an advisory refresh while another task refreshes -/
theorem busy_returns (B : Base) {k : ℕ} (hk : s.pc k = .idle) (hl : s.lock.locked = true)
    (hm : refreshNeeded C s.attrs s.now C.mandatory = false) :
    (step B C s (.call k)).pc k = .returned s.attrs.frozen := by
  simp only [step, hk, getFrozenCredentials, hl, hm]
  split <;> simp

/-- **Refresh protocol.** In every state of every interleaving: at most one refresh is in flight; a waiter that found
the lock held and is let in outside the mandatory window returns without refreshing; a call that finds a refresh in
flight and needs only an advisory one returns at once; and whatever was returned came from a single refresh result (or
from the constructor), and is not `None` for a deferred object. -/
theorem credentials_refresh_protocol (B : Base) (C : Cfg) (t0 : ℤ) (ops : List Op) :
    let s := exec B C t0 ops
    (∀ i j, InFlight s i → InFlight s j → i = j) ∧
    (∀ k, s.pc k = .queuedHeld → s.lock.ready k = true → refreshNeeded C s.attrs s.now C.mandatory = false →
      ¬ InFlight (step B C s (.resume k)) k ∧ (step B C s (.resume k)).pc k = .returned s.attrs.frozen) ∧
    (∀ j k, InFlight s j → s.pc k = .idle → refreshNeeded C s.attrs s.now C.advisory = true →
      refreshNeeded C s.attrs s.now C.mandatory = false →
      (step B C s (.call k)).pc k = .returned s.attrs.frozen) ∧
    ∀ r ∈ s.rets, (r.origin = none ∧ r.value = C.ctor.attrs.frozen ∨
        ∃ m ∈ s.results, r.origin = some m ∧ r.value = some m.readOnly) ∧
      (C.ctor = .deferred → r.value ≠ none) := by
  intro s
  have h : Inv B C s := run_inv B C t0 ops
  refine ⟨fun i j hi hj => in_flight_unique h hi hj, fun k hk hr hm => ?_, fun j k hj hk _ hm => ?_, fun r hr => ?_⟩
  · have hret := waiter_returns B hk hr hm
    refine ⟨?_, hret⟩
    rintro ⟨im, him⟩
    rw [hret] at him; cases him
  · exact busy_returns B hk (locked_of_in_flight h hj) hm
  · obtain ⟨hv, hrec, hsome⟩ := h.data.rets r hr
    refine ⟨?_, hsome⟩
    cases ho : r.origin with
    | none => exact Or.inl ⟨rfl, by rw [hv, ho]; rfl⟩
    | some m => exact Or.inr ⟨m, hrec m ho, rfl, by rw [hv, ho]; rfl⟩

end AioBotocore.Credentials
