/-
`tee` of `_tee.py`: one source shared by `n` consumers. A machine: any number of tasks, each making one `__anext__` call
on one of the consumers; each operation of `step` is what one task does between two suspension points, so a list of
operations is an interleaving.

A call suspends at the lock (`anyio.Lock`) and in the source's own `__anext__`, which answers as it likes (`answer`). A
cancelled task leaves its suspension point with the cancellation (`cancel`).

Results:
- `step_cases`: everything one operation can do in a state that meets the invariant.
- `run_inv`: the values popped from a consumer and its buffer are together what the source yielded; the outcome is
  recorded once, by the call of the source that ended it.
- `Inv.drains`: no deadlock; `turn_result`: how a call ends whose turn it is.
- `every_value_to_every_consumer`: runs with no cancellation.
- `cancelled_pull_fails_loudly`: what every run from a cancelled pull on shows, what a cancelled wait changes, and no
  deadlock.
-/
import Mathlib.Tactic
import AioBotocore.Async.Run
import AioBotocore.Async.Lock

namespace AioBotocore.Tee

open Async Function

/-! ## Model -/

/-- what the source's `__anext__` ends with; `α` are the values and `ε` the exception objects -/
inductive Answer (α ε : Type*) where
  | value (v : α)
  | stopAsyncIteration
  | exception (e : ε)
  /-- the cancellation of the task, let through by the source -/
  | cancelled
  /-- any other exception that is not an `Exception` -/
  | baseException (e : ε)
deriving DecidableEq, Repr

/-- an exception object in `outcome` -/
inductive Exn (ε : Type*) where
  | source (e : ε)
  | runtimeError (msg : String)
deriving DecidableEq, Repr

/-- how a consumer's `__anext__` ends -/
inductive Result (α ε : Type*) where
  | value (v : α)
  | stopAsyncIteration
  | raised (e : Exn ε)
  /-- `outcome[0]` of an empty `outcome` -/
  | indexError
  | cancelled
  | baseException (e : ε)
deriving DecidableEq, Repr

/-- where a call of `__anext__` stands. `late` is a ghost: when the call began, an earlier call of the same consumer had
already ended it -/
inductive Pc (n : ℕ) (α ε : Type*) where
  | idle
  /-- suspended in `async with self.lock` -/
  | waiting (i : Fin n) (late : Bool)
  /-- in `await self.iterator.__anext__()`, holding the lock -/
  | pulling (i : Fin n) (late : Bool)
  | finished (r : Result α ε)
deriving DecidableEq, Repr

variable {n : ℕ} {α ε : Type*}

def region : Pc n α ε → Region
  | .waiting _ _ => .queued
  | .pulling _ _ => .inside
  | _ => .out

/-- a finished call -/
structure Ev (n : ℕ) (α ε : Type*) where
  task : ℕ
  consumer : Fin n
  late : Bool
  result : Result α ε
deriving DecidableEq, Repr

/-- `_TeeState` and the `_done` of each `_TeeIterator`; `calls`, `answers` and `log` are ghosts -/
structure St (n : ℕ) (α ε : Type*) where
  buffers : Fin n → List α
  lock : FairLock ℕ
  outcome : List (Option (Exn ε))
  done : Fin n → Bool
  pc : ℕ → Pc n α ε
  /-- how often the source's `__anext__` was called -/
  calls : ℕ
  /-- what these calls ended with -/
  answers : List (Answer α ε)
  log : List (Ev n α ε)

inductive Op (n : ℕ) (α ε : Type*) where
  | next (k : ℕ) (i : Fin n)
  | resume (k : ℕ)
  | answer (k : ℕ) (a : Answer α ε)
  | cancel (k : ℕ)
deriving DecidableEq, Repr

def init (n : ℕ) (α ε : Type*) : St n α ε :=
  ⟨fun _ => [], FairLock.init, [], fun _ => false, fun _ => .idle, 0, [], []⟩

def tee (n : ℤ) (α ε : Type*) : Except String (St n.toNat α ε) :=
  if n ≤ 0 then .error "n must be >= 1" else .ok (init n.toNat α ε)

def Result.isEnd : Result α ε → Bool
  | .stopAsyncIteration | .raised _ | .indexError => true
  | _ => false

def Result.value? : Result α ε → Option α
  | .value v => some v
  | _ => none

def Answer.value? : Answer α ε → Option α
  | .value v => some v
  | _ => none

/-- some call of consumer `i` has ended it -/
def ended (log : List (Ev n α ε)) (i : Fin n) : Bool := log.any fun e => e.consumer == i && e.result.isEnd

/-- the values popped from consumer `i` -/
def delivered (log : List (Ev n α ε)) (i : Fin n) : List α :=
  log.filterMap fun e => if e.consumer = i then e.result.value? else none

def goto (s : St n α ε) (k : ℕ) (p : Pc n α ε) : St n α ε := { s with pc := update s.pc k p }

def finish (s : St n α ε) (k : ℕ) (i : Fin n) (late : Bool) (r : Result α ε) : St n α ε :=
  { goto s k (.finished r) with log := s.log ++ [⟨k, i, late, r⟩] }

def unlock (s : St n α ε) : St n α ε := { s with lock := s.lock.release }

/-- `buf.popleft()`, with what it leaves -/
def popped (s : St n α ε) (i : Fin n) (rest : List α) : St n α ε := { s with buffers := update s.buffers i rest }

/-- raising `outcome[0]` -/
def resultOf : Option (Exn ε) → Result α ε
  | none => .stopAsyncIteration
  | some e => .raised e

/-- `__anext__` after `pull` has returned -/
def afterPull (s : St n α ε) (k : ℕ) (i : Fin n) (late : Bool) : St n α ε :=
  match s.buffers i with
  | v :: rest => finish (popped s i rest) k i late (.value v)
  | [] =>
    let s := { s with done := update s.done i true }
    match s.outcome with
    | [] => finish s k i late .indexError
    | r :: _ => finish s k i late (resultOf r)

/-- `__anext__` from the call to its first suspension or its end -/
def anext (s : St n α ε) (k : ℕ) (i : Fin n) : St n α ε :=
  let late := ended s.log i
  if s.done i then finish s k i late .stopAsyncIteration
  else
    match s.buffers i with
    | v :: rest => finish (popped s i rest) k i late (.value v)
    | [] => goto { s with lock := s.lock.acquire k } k (.waiting i late)

/-- `pull` once it holds the lock -/
def pull (s : St n α ε) (k : ℕ) (i : Fin n) (late : Bool) : St n α ε :=
  if s.buffers i ≠ [] ∨ s.outcome ≠ [] then afterPull (unlock s) k i late
  else goto { s with calls := s.calls + 1 } k (.pulling i late)

def sourceCancelled : Exn ε := .runtimeError "tee source was cancelled"

/-- `pull` from the end of the source's `__anext__` -/
def pulled (s : St n α ε) (k : ℕ) (i : Fin n) (late : Bool) (a : Answer α ε) : St n α ε :=
  let s := { s with answers := s.answers ++ [a] }
  match a with
  | .value v => afterPull (unlock { s with buffers := fun j => s.buffers j ++ [v] }) k i late
  | .stopAsyncIteration => afterPull (unlock { s with outcome := s.outcome ++ [none] }) k i late
  | .exception e => afterPull (unlock { s with outcome := s.outcome ++ [some (.source e)] }) k i late
  | .cancelled => finish (unlock { s with outcome := s.outcome ++ [some sourceCancelled] }) k i late .cancelled
  | .baseException e => finish (unlock s) k i late (.baseException e)

def step (s : St n α ε) : Op n α ε → St n α ε
  | .next k i =>
    match s.pc k with
    | .idle => anext s k i
    | _ => s
  | .resume k =>
    if s.lock.holder = some k then
      match s.pc k with
      | .waiting i late => pull s k i late
      | _ => s
    else s
  | .answer k a =>
    match s.pc k with
    | .pulling i late => pulled s k i late a
    | _ => s
  | .cancel k =>
    match s.pc k with
    | .waiting i late => finish { s with lock := s.lock.abort k } k i late .cancelled
    | .pulling i late => pulled s k i late .cancelled
    | _ => s

abbrev exec (ops : List (Op n α ε)) : St n α ε := run step (init n α ε) ops

/-- the values the source has yielded -/
def emitted (s : St n α ε) : List α := s.answers.filterMap Answer.value?

/-- task `k` is in the source's `__anext__` -/
def InSource (s : St n α ε) (k : ℕ) : Prop := region (s.pc k) = .inside

/-- task `k` is suspended -/
def Suspended (s : St n α ε) (k : ℕ) : Prop := region (s.pc k) ≠ .out

/-- `tee` gives its iterators exactly for `n ≥ 1` -/
theorem tee_ok_iff (m : ℤ) (s : St m.toNat α ε) : tee m α ε = .ok s ↔ 1 ≤ m ∧ s = init m.toNat α ε := by
  unfold tee
  split_ifs with h
  · simp; omega
  · simp [eq_comm]; omega

@[simp] theorem finish_log (s : St n α ε) (k : ℕ) (i : Fin n) (l : Bool) (r : Result α ε) :
    (finish s k i l r).log = s.log ++ [⟨k, i, l, r⟩] := rfl
@[simp] theorem finish_pc (s : St n α ε) (k : ℕ) (i : Fin n) (l : Bool) (r : Result α ε) :
    (finish s k i l r).pc = update s.pc k (.finished r) := rfl
@[simp] theorem finish_lock (s : St n α ε) (k : ℕ) (i : Fin n) (l : Bool) (r : Result α ε) :
    (finish s k i l r).lock = s.lock := rfl
@[simp] theorem finish_buffers (s : St n α ε) (k : ℕ) (i : Fin n) (l : Bool) (r : Result α ε) :
    (finish s k i l r).buffers = s.buffers := rfl
@[simp] theorem finish_outcome (s : St n α ε) (k : ℕ) (i : Fin n) (l : Bool) (r : Result α ε) :
    (finish s k i l r).outcome = s.outcome := rfl
@[simp] theorem finish_done (s : St n α ε) (k : ℕ) (i : Fin n) (l : Bool) (r : Result α ε) :
    (finish s k i l r).done = s.done := rfl

/-! ## The log -/

@[simp] theorem ended_snoc (log : List (Ev n α ε)) (e : Ev n α ε) (i : Fin n) :
    ended (log ++ [e]) i = (ended log i || (e.consumer == i && e.result.isEnd)) := by
  simp [ended]

@[simp] theorem delivered_snoc (log : List (Ev n α ε)) (e : Ev n α ε) (i : Fin n) :
    delivered (log ++ [e]) i = delivered log i ++ if e.consumer = i then e.result.value?.toList else [] := by
  unfold delivered
  rw [List.filterMap_append]
  split_ifs with h
  · cases hv : e.result.value? <;> simp [h, hv]
  · simp [h]

theorem ended_iff (log : List (Ev n α ε)) (i : Fin n) :
    ended log i = true ↔ ∃ e ∈ log, e.consumer = i ∧ e.result.isEnd = true := by
  simp [ended]

/-- A call of an ended consumer raises `StopAsyncIteration`. Every other end of a consumer comes after all its values
and is `r`. -/
def Orderly (values : List α) (r : Option (Result α ε)) (log : List (Ev n α ε)) : Prop :=
  ∀ a e b, log = a ++ e :: b → (e.late = true → ended a e.consumer = true ∧ e.result = .stopAsyncIteration) ∧
    (e.result.isEnd = true → delivered a e.consumer = values ∧ (e.late = false → r = some e.result))

theorem orderly_nil (values : List α) (r : Option (Result α ε)) : Orderly values r ([] : List (Ev n α ε)) := by
  intro a e b h; simp at h

theorem Orderly.not_late {values : List α} {r : Option (Result α ε)} {log : List (Ev n α ε)} (h : Orderly values r log)
    (hno : ∀ i, ended log i = false) : ∀ e ∈ log, e.late = false := by
  intro e he
  obtain ⟨a, b, rfl⟩ := List.append_of_mem he
  rw [← Bool.not_eq_true]
  intro hl
  obtain ⟨-, hstop⟩ := (h a e b rfl).1 hl
  have := hno e.consumer
  rw [← Bool.not_eq_true, ended_iff] at this
  exact this ⟨e, he, rfl, by rw [hstop]; rfl⟩

/-- while no consumer has ended, any values and outcome will do -/
theorem orderly_of_not_ended {values : List α} {r : Option (Result α ε)} {log : List (Ev n α ε)}
    (hl : ∀ e ∈ log, e.late = false) (h : ∀ i, ended log i = false) : Orderly values r log := by
  rintro a e b rfl
  refine ⟨fun hlate => ?_, fun he => ?_⟩
  · rw [hl e (by simp)] at hlate; cases hlate
  · have := h e.consumer
    rw [← Bool.not_eq_true, ended_iff] at this
    exact absurd ⟨e, by simp, rfl, he⟩ this

theorem Orderly.snoc {values : List α} {r : Option (Result α ε)} {log : List (Ev n α ε)} (h : Orderly values r log)
    {e : Ev n α ε} (hl : e.late = true → ended log e.consumer = true ∧ e.result = .stopAsyncIteration)
    (he : e.result.isEnd = true → delivered log e.consumer = values ∧ (e.late = false → r = some e.result)) :
    Orderly values r (log ++ [e]) := forall_split_snoc h ⟨hl, he⟩

/-! ## Invariant -/

/-- what an answer of the source leaves in `outcome` -/
def recorded : Answer α ε → Option (Option (Exn ε))
  | .stopAsyncIteration => some none
  | .exception e => some (some (.source e))
  | .cancelled => some (some sourceCancelled)
  | _ => none

/-- every call of the source has ended, the one that a task is in apart -/
def Counts (s : St n α ε) : Prop :=
  (∀ k, InSource s k → s.calls = s.answers.length + 1) ∧ ((∀ k, ¬ InSource s k) → s.calls = s.answers.length)

/-- the answers of the source that end it: at most one, the last -/
def Closed (s : St n α ε) : Prop :=
  s.outcome = s.answers.filterMap recorded ∧ ∀ a x b, s.answers = a ++ x :: b → recorded x ≠ none → b = []

/-- what was popped from a consumer and what it still holds are what the source has yielded, in order -/
def Fifo (s : St n α ε) : Prop := ∀ i, delivered s.log i ++ s.buffers i = emitted s

/-- a task pulls only for a consumer without a value, from a source that has not ended -/
def Active (s : St n α ε) : Prop := ∀ k i l, s.pc k = .pulling i l → s.outcome = [] ∧ s.buffers i = []

/-- a call that suspends began before the end of its consumer -/
def Early (s : St n α ε) : Prop := ∀ k i l, s.pc k = .waiting i l ∨ s.pc k = .pulling i l → l = false

/-- a consumer ends only when the source has ended and its buffer is empty -/
structure Ends (s : St n α ε) : Prop where
  done : ∀ i, s.done i = ended s.log i
  spent : ∀ i, s.done i = true → s.outcome ≠ [] ∧ s.buffers i = []
  orderly : Orderly (emitted s) (s.outcome.head?.map resultOf) s.log

structure Inv (s : St n α ε) : Prop where
  guards : FairLock.Guards region s.lock s.pc
  counts : Counts s
  closed : Closed s
  fifo : Fifo s
  active : Active s
  early : Early s
  ends : Ends s

theorem init_inv : Inv (init n α ε) where
  guards := FairLock.guards_init fun _ => rfl
  counts := ⟨fun k h => by simp [InSource, init, region] at h, fun _ => rfl⟩
  closed := ⟨rfl, fun a x b h => by simp [init] at h⟩
  fifo i := rfl
  active k i l h := by simp [init] at h
  early k i l h := by simp [init] at h
  ends := ⟨fun i => rfl, fun i h => by simp [init] at h, orderly_nil _ _⟩

/-- the source has not ended while a task pulls from it -/
theorem Inv.not_ended {s : St n α ε} (h : Inv s) (ho : s.outcome = []) (i : Fin n) : ended s.log i = false := by
  rw [← h.ends.done, ← Bool.not_eq_true]
  exact fun hd => (h.ends.spent i hd).1 ho

/-! ## What one operation can do -/

inductive Move (s : St n α ε) : Op n α ε → St n α ε → Prop
  /-- an operation that is not enabled -/
  | skip (o : Op n α ε) : Move s o s
  | stopped (k : ℕ) (i : Fin n) (hk : s.pc k = .idle) (hd : s.done i = true) :
      Move s (.next k i) (finish s k i true .stopAsyncIteration)
  | pop (k : ℕ) (i : Fin n) (v : α) (rest : List α) (hk : s.pc k = .idle) (hb : s.buffers i = v :: rest) :
      Move s (.next k i) (finish (popped s i rest) k i false (.value v))
  | wait (k : ℕ) (i : Fin n) (hk : s.pc k = .idle) (hb : s.buffers i = []) (hd : s.done i = false) :
      Move s (.next k i) (goto { s with lock := s.lock.acquire k } k (.waiting i false))
  /-- a consumer that waited finds a value that another one pulled -/
  | popLate (k : ℕ) (i : Fin n) (v : α) (rest : List α) (hh : s.lock.holder = some k) (hk : s.pc k = .waiting i false)
      (hb : s.buffers i = v :: rest) :
      Move s (.resume k) (finish (popped (unlock s) i rest) k i false (.value v))
  /-- a consumer that waited finds the source ended -/
  | replay (k : ℕ) (i : Fin n) (r : Option (Exn ε)) (rs : List (Option (Exn ε))) (hh : s.lock.holder = some k)
      (hk : s.pc k = .waiting i false) (hb : s.buffers i = []) (ho : s.outcome = r :: rs) :
      Move s (.resume k) (finish { unlock s with done := update s.done i true } k i false (resultOf r))
  | pull (k : ℕ) (i : Fin n) (hh : s.lock.holder = some k) (hk : s.pc k = .waiting i false) (hb : s.buffers i = [])
      (ho : s.outcome = []) : Move s (.resume k) (goto { s with calls := s.calls + 1 } k (.pulling i false))
  | value (k : ℕ) (i : Fin n) (v : α) (hk : s.pc k = .pulling i false) :
      Move s (.answer k (.value v)) (finish (unlock { s with
        answers := s.answers ++ [.value v]
        buffers := update (fun j => s.buffers j ++ [v]) i [] }) k i false (.value v))
  /-- the source ends, with `StopAsyncIteration` or an `Exception` -/
  | ends (k : ℕ) (i : Fin n) (x : Answer α ε) (r : Option (Exn ε)) (hk : s.pc k = .pulling i false)
      (hr : recorded x = some r) (hx : x ≠ .cancelled) :
      Move s (.answer k x) (finish (unlock { s with
        answers := s.answers ++ [x], outcome := [r], done := update s.done i true }) k i false (resultOf r))
  /-- the task that pulls is cancelled -/
  | torn (o : Op n α ε) (k : ℕ) (i : Fin n) (ho : o = .cancel k ∨ o = .answer k .cancelled)
      (hk : s.pc k = .pulling i false) :
      Move s o (finish (unlock { s with
        answers := s.answers ++ [.cancelled], outcome := [some sourceCancelled] }) k i false .cancelled)
  | escapes (k : ℕ) (i : Fin n) (e : ε) (hk : s.pc k = .pulling i false) :
      Move s (.answer k (.baseException e))
        (finish (unlock { s with answers := s.answers ++ [.baseException e] }) k i false (.baseException e))
  /-- a task that waits for the lock is cancelled -/
  | abort (k : ℕ) (i : Fin n) (hk : s.pc k = .waiting i false) :
      Move s (.cancel k) (finish { s with lock := s.lock.abort k } k i false .cancelled)

theorem anext_cases {s : St n α ε} (h : Inv s) {k : ℕ} (hk : s.pc k = .idle) (i : Fin n) :
    Move s (.next k i) (anext s k i) := by
  unfold anext
  rw [← h.ends.done]
  split_ifs with hd
  · rw [hd]
    exact .stopped k i hk hd
  · rw [Bool.not_eq_true] at hd
    rw [hd]
    split
    · rename_i v rest hb
      exact .pop k i v rest hk hb
    · rename_i hb
      exact .wait k i hk hb hd

theorem pull_cases {s : St n α ε} {k : ℕ} (hh : s.lock.holder = some k) {i : Fin n} (hk : s.pc k = .waiting i false) :
    Move s (.resume k) (pull s k i false) := by
  unfold pull afterPull
  split_ifs with hc
  · split
    · rename_i v rest hb
      exact .popLate k i v rest hh hk hb
    · rename_i hb
      cases ho : s.outcome with
      | nil =>
        have hb' : s.buffers i = [] := hb
        simp [hb', ho] at hc
      | cons r rs => simpa [unlock, ho] using Move.replay k i r rs hh hk hb ho
  · rw [not_or, not_not, not_not] at hc
    exact .pull k i hh hk hc.1 hc.2

theorem pulled_cases {s : St n α ε} (h : Inv s) {k : ℕ} {i : Fin n} (hk : s.pc k = .pulling i false)
    (a : Answer α ε) : Move s (.answer k a) (pulled s k i false a) := by
  obtain ⟨ho, hb⟩ := h.active k i false hk
  have hends : ∀ x r, recorded x = some r → x ≠ .cancelled → Move s (.answer k x)
      (afterPull (unlock { s with answers := s.answers ++ [x], outcome := s.outcome ++ [r] }) k i false) := by
    intro x r hr hx
    simpa [afterPull, unlock, ho, hb] using Move.ends k i x r hk hr hx
  cases a with
  | value v => simpa [pulled, afterPull, unlock, popped, hb] using Move.value k i v hk
  | stopAsyncIteration => exact hends _ _ rfl (by simp)
  | exception e => exact hends _ _ rfl (by simp)
  | cancelled => simpa [pulled, ho] using Move.torn _ k i (.inr rfl) hk
  | baseException e => exact .escapes k i e hk

theorem step_cases {s : St n α ε} (h : Inv s) (o : Op n α ε) : Move s o (step s o) := by
  cases o with
  | next k i =>
    simp only [step]
    split
    · rename_i hk; exact anext_cases h hk i
    · exact .skip _
  | resume k =>
    simp only [step]
    split_ifs with hh
    · split
      · rename_i i l hk
        obtain rfl := h.early k i l (.inl hk)
        exact pull_cases hh hk
      · exact .skip _
    · exact .skip _
  | answer k a =>
    simp only [step]
    split
    · rename_i i l hk
      obtain rfl := h.early k i l (.inr hk)
      exact pulled_cases h hk a
    · exact .skip _
  | cancel k =>
    simp only [step]
    split
    · rename_i i l hk
      obtain rfl := h.early k i l (.inl hk)
      exact .abort k i hk
    · rename_i i l hk
      obtain rfl := h.early k i l (.inr hk)
      simpa [pulled, (h.active k i false hk).1] using Move.torn _ k i (.inl rfl) hk
    · exact .skip _

/-! ## The invariant is kept -/

@[simp] theorem region_finished (r : Result α ε) : region (.finished r : Pc n α ε) = .out := rfl
@[simp] theorem region_waiting (i : Fin n) (l : Bool) : region (.waiting i l : Pc n α ε) = .queued := rfl
@[simp] theorem region_pulling (i : Fin n) (l : Bool) : region (.pulling i l : Pc n α ε) = .inside := rfl

theorem inside_of_pulling {s : St n α ε} {k : ℕ} {i : Fin n} {l : Bool} (hk : s.pc k = .pulling i l) :
    region (s.pc k) = .inside := by rw [hk]; rfl

theorem Inv.guards_finish {s : St n α ε} (h : Inv s) {k : ℕ} (hk : s.pc k = .idle) (r : Result α ε) :
    FairLock.Guards region s.lock (update s.pc k (.finished r)) := by
  have hout : region (s.pc k) = .out := by rw [hk]; rfl
  refine h.guards.stay (by simp [hout]) fun hw => ?_
  have := h.guards.waits k hw
  rw [hout] at this; cases this

theorem Inv.guards_pulled {s : St n α ε} (h : Inv s) {k : ℕ} {i : Fin n} {l : Bool} (hk : s.pc k = .pulling i l)
    (r : Result α ε) : FairLock.Guards region s.lock.release (update s.pc k (.finished r)) :=
  h.guards.leave (h.guards.holds (inside_of_pulling hk)) rfl

theorem step_guards {s s' : St n α ε} {o : Op n α ε} (h : Inv s) (hm : Move s o s') :
    FairLock.Guards region s'.lock s'.pc := by
  cases hm with
  | skip => exact h.guards
  | stopped k i hk => exact h.guards_finish hk _
  | pop k i v rest hk => exact h.guards_finish hk _
  | wait k i hk => exact h.guards.request (by rw [hk]; rfl) rfl
  | popLate k i v rest hh => exact h.guards.leave hh rfl
  | replay k i r rs hh => exact h.guards.leave hh rfl
  | pull k i hh => exact h.guards.enter hh rfl
  | value k i v hk => exact h.guards_pulled hk _
  | ends k i x r hk => exact h.guards_pulled hk _
  | torn o k i ho hk => exact h.guards_pulled hk _
  | escapes k i e hk => exact h.guards_pulled hk _
  | abort k i hk => exact h.guards.abort (by rw [hk]; rfl) rfl

/-- a task that neither enters nor leaves the source -/
theorem Inv.counts_of_other {s s' : St n α ε} (h : Inv s) {k : ℕ} {v : Pc n α ε} (hpc : s'.pc = update s.pc k v)
    (hk : region (s.pc k) ≠ .inside) (hv : region v ≠ .inside) (hc : s'.calls = s.calls)
    (ha : s'.answers = s.answers) : Counts s' := by
  have hsame : ∀ j, InSource s' j ↔ InSource s j := by
    intro j
    unfold InSource
    rw [hpc]
    by_cases hj : j = k
    · subst hj; simp [hk, hv]
    · rw [update_of_ne hj]
  unfold Counts
  rw [hc, ha]
  exact ⟨fun j hj => h.counts.1 j ((hsame j).1 hj), fun hq => h.counts.2 fun j hj => hq j ((hsame j).2 hj)⟩

/-- the call of the source that is under way ends -/
theorem Inv.counts_of_pulled {s s' : St n α ε} (h : Inv s) {k : ℕ} {i : Fin n} {l : Bool} {r : Result α ε}
    {x : Answer α ε} (hk : s.pc k = .pulling i l) (hpc : s'.pc = update s.pc k (.finished r))
    (hc : s'.calls = s.calls) (ha : s'.answers = s.answers ++ [x]) : Counts s' := by
  have hnone : ∀ j, ¬ InSource s' j := by
    intro j hj
    unfold InSource at hj
    rw [hpc] at hj
    by_cases hjk : j = k
    · subst hjk; simp at hj
    · rw [update_of_ne hjk] at hj
      exact hjk (h.guards.unique hj (inside_of_pulling hk))
  refine ⟨fun j hj => absurd hj (hnone j), fun _ => ?_⟩
  rw [hc, ha, h.counts.1 k (inside_of_pulling hk), List.length_append, List.length_singleton]

theorem step_counts {s s' : St n α ε} {o : Op n α ε} (h : Inv s) (hm : Move s o s') : Counts s' := by
  cases hm with
  | skip => exact h.counts
  | stopped k i hk => exact h.counts_of_other (k := k) rfl (by simp [hk, region]) (by simp) rfl rfl
  | pop k i v rest hk => exact h.counts_of_other (k := k) rfl (by simp [hk, region]) (by simp) rfl rfl
  | wait k i hk => exact h.counts_of_other (k := k) rfl (by simp [hk, region]) (by simp) rfl rfl
  | popLate k i v rest hh hk => exact h.counts_of_other (k := k) rfl (by simp [hk]) (by simp) rfl rfl
  | replay k i r rs hh hk => exact h.counts_of_other (k := k) rfl (by simp [hk]) (by simp) rfl rfl
  | pull k i hh hk =>
    have hq := h.counts.2 (h.guards.not_inside hh (by rw [hk]; rfl))
    refine ⟨fun _ _ => by simp [goto, hq], fun hn => ?_⟩
    exact absurd (by simp [InSource, goto]) (hn k)
  | value k i v hk => exact h.counts_of_pulled hk rfl rfl rfl
  | ends k i x r hk => exact h.counts_of_pulled hk rfl rfl rfl
  | torn o k i ho hk => exact h.counts_of_pulled hk rfl rfl rfl
  | escapes k i e hk => exact h.counts_of_pulled hk rfl rfl rfl
  | abort k i hk => exact h.counts_of_other (k := k) rfl (by simp [hk]) (by simp) rfl rfl

theorem recorded_value {x : Answer α ε} {r : Option (Exn ε)} (hr : recorded x = some r) : x.value? = none := by
  cases x <;> simp_all [recorded, Answer.value?]

theorem Closed.snoc {s s' : St n α ε} (h : Closed s) (ho : s.outcome = []) {x : Answer α ε}
    (ha : s'.answers = s.answers ++ [x]) (hx : s'.outcome = (recorded x).toList) : Closed s' := by
  have hnone : ∀ y ∈ s.answers, recorded y = none := by
    rw [h.1] at ho
    simpa using ho
  refine ⟨?_, fun a y b hab hy => ?_⟩
  · rw [hx, ha, List.filterMap_append, ← h.1, ho]
    cases hr : recorded x <;> simp [hr]
  · rcases List.eq_nil_or_concat b with rfl | ⟨b', z, rfl⟩
    · rfl
    · rw [ha] at hab
      have hab' : s.answers ++ [x] = (a ++ y :: b') ++ [z] := by simpa using hab
      obtain ⟨h1, -⟩ := List.append_inj' hab' rfl
      exact absurd (hnone y (by simp [h1])) hy

theorem step_closed {s s' : St n α ε} {o : Op n α ε} (h : Inv s) (hm : Move s o s') : Closed s' := by
  have hc := h.closed
  cases hm with
  | value k i v hk =>
    obtain ⟨ho, -⟩ := h.active k i _ hk
    exact hc.snoc ho rfl ho
  | ends k i x r hk hr => exact hc.snoc (h.active k i _ hk).1 rfl (by simp [unlock, hr])
  | torn o k i _ hk => exact hc.snoc (h.active k i _ hk).1 rfl rfl
  | escapes k i e hk =>
    obtain ⟨ho, -⟩ := h.active k i _ hk
    exact hc.snoc ho rfl ho
  | _ => exact hc

/-- the answer `x` of the source adds its value, if it has one -/
theorem emitted_snoc {s s' : St n α ε} {x : Answer α ε} (ha : s'.answers = s.answers ++ [x]) :
    emitted s' = emitted s ++ x.value?.toList := by
  unfold emitted
  rw [ha, List.filterMap_append]
  cases hx : x.value? <;> simp [hx]

/-- a finished call without a value -/
theorem Inv.fifo_of_end {s s' : St n α ε} (h : Inv s) {k : ℕ} {i : Fin n} {l : Bool} {r : Result α ε}
    (hl : s'.log = s.log ++ [⟨k, i, l, r⟩]) (hr : r.value? = none) (hb : s'.buffers = s.buffers)
    (he : emitted s' = emitted s) : Fifo s' := by
  intro j
  rw [hl, hb, he, ← h.fifo j, delivered_snoc]
  simp [hr]

/-- a value is popped -/
theorem Inv.fifo_of_pop {s s' : St n α ε} (h : Inv s) {k : ℕ} {i : Fin n} {l : Bool} {v : α} {rest : List α}
    (hb : s.buffers i = v :: rest) (hl : s'.log = s.log ++ [⟨k, i, l, .value v⟩])
    (hb' : s'.buffers = update s.buffers i rest) (he : emitted s' = emitted s) : Fifo s' := by
  intro j
  rw [hl, hb', he, ← h.fifo j, delivered_snoc]
  by_cases hj : j = i
  · subst hj; simp [hb, Result.value?]
  · simp [update_of_ne hj, Ne.symm hj]

theorem resultOf_value (r : Option (Exn ε)) : (resultOf r : Result α ε).value? = none := by cases r <;> rfl

theorem resultOf_isEnd (r : Option (Exn ε)) : (resultOf r : Result α ε).isEnd = true := by cases r <;> rfl

theorem step_fifo {s s' : St n α ε} {o : Op n α ε} (h : Inv s) (hm : Move s o s') : Fifo s' := by
  cases hm with
  | skip => exact h.fifo
  | stopped k i hk => exact h.fifo_of_end rfl rfl rfl rfl
  | pop k i v rest hk hb => exact h.fifo_of_pop hb rfl rfl rfl
  | wait k i hk => exact h.fifo
  | popLate k i v rest hh hk hb => exact h.fifo_of_pop hb rfl rfl rfl
  | replay k i r rs hh hk => exact h.fifo_of_end rfl (resultOf_value r) rfl rfl
  | pull k i hh hk => exact h.fifo
  | value k i v hk =>
    intro j
    have hj := h.fifo j
    rw [emitted_snoc (s := s) rfl, ← hj, finish_log, delivered_snoc]
    by_cases hji : j = i
    · subst hji
      simp [unlock, (h.active k j _ hk).2, Result.value?, Answer.value?]
    · simp [unlock, update_of_ne hji, Ne.symm hji, Answer.value?]
  | ends k i x r hk hr =>
    refine h.fifo_of_end rfl (resultOf_value r) rfl ((emitted_snoc rfl).trans ?_)
    rw [recorded_value hr]; simp
  | torn o k i ho hk => exact h.fifo_of_end rfl rfl rfl ((emitted_snoc rfl).trans (by simp [Answer.value?]))
  | escapes k i e hk => exact h.fifo_of_end rfl rfl rfl ((emitted_snoc rfl).trans (by simp [Answer.value?]))
  | abort k i hk => exact h.fifo_of_end rfl rfl rfl rfl

theorem Inv.active_of_update {s s' : St n α ε} {k : ℕ} {v : Pc n α ε} (hpc : s'.pc = update s.pc k v)
    (hv : region v ≠ .inside)
    (h : ∀ j i l, j ≠ k → s.pc j = .pulling i l → s'.outcome = [] ∧ s'.buffers i = []) : Active s' := by
  intro j i l hj
  rw [hpc] at hj
  by_cases hjk : j = k
  · subst hjk
    rw [update_self] at hj
    exact absurd (by rw [hj]; rfl) hv
  · rw [update_of_ne hjk] at hj
    exact h j i l hjk hj

/-- nobody else pulls -/
theorem Inv.alone {s : St n α ε} (h : Inv s) {j k : ℕ} {i i' : Fin n} {l l' : Bool} (hk : s.pc k = .pulling i l)
    (hj : s.pc j = .pulling i' l') : j = k :=
  h.guards.unique (inside_of_pulling hj) (inside_of_pulling hk)

/-- popping a value leaves the empty buffers empty -/
theorem popped_nil {s : St n α ε} {i : Fin n} {v : α} {rest : List α} (hb : s.buffers i = v :: rest) {j : Fin n}
    (hj : s.buffers j = []) : update s.buffers i rest j = [] := by
  have hji : j ≠ i := by rintro rfl; rw [hb] at hj; cases hj
  rw [update_of_ne hji, hj]

theorem step_active {s s' : St n α ε} {o : Op n α ε} (h : Inv s) (hm : Move s o s') : Active s' := by
  cases hm with
  | skip => exact h.active
  | pop k i v rest hk hb =>
    refine Inv.active_of_update rfl (by simp) fun j i' l _ hj => ?_
    obtain ⟨h1, h2⟩ := h.active j i' l hj
    exact ⟨h1, popped_nil hb h2⟩
  | popLate k i v rest hh hk hb =>
    refine Inv.active_of_update rfl (by simp) fun j i' l _ hj => ?_
    obtain ⟨h1, h2⟩ := h.active j i' l hj
    exact ⟨h1, popped_nil hb h2⟩
  | pull k i hh hk hb ho =>
    intro j i' l hj
    by_cases hjk : j = k
    · subst hjk
      obtain ⟨rfl, -⟩ : i = i' ∧ false = l := by simpa [goto] using hj
      exact ⟨ho, hb⟩
    · exact h.active j i' l (by simpa [goto, update_of_ne hjk] using hj)
  | value k i v hk => exact Inv.active_of_update rfl (by simp) fun j i' l hjk hj => absurd (h.alone hk hj) hjk
  | ends k i x r hk => exact Inv.active_of_update rfl (by simp) fun j i' l hjk hj => absurd (h.alone hk hj) hjk
  | torn o k i ho hk => exact Inv.active_of_update rfl (by simp) fun j i' l hjk hj => absurd (h.alone hk hj) hjk
  | _ => exact Inv.active_of_update rfl (by simp) fun j i' l _ hj => h.active j i' l hj

theorem step_early {s s' : St n α ε} {o : Op n α ε} (h : Inv s) (hm : Move s o s') : Early s' := by
  have hup : ∀ (k : ℕ) (v : Pc n α ε), s'.pc = update s.pc k v →
      (∀ i l, v = .waiting i l ∨ v = .pulling i l → l = false) → Early s' := by
    intro k v hpc hv j i l hj
    rw [hpc] at hj
    by_cases hjk : j = k
    · subst hjk
      rw [update_self] at hj
      exact hv i l hj
    · rw [update_of_ne hjk] at hj
      exact h.early j i l hj
  cases hm with
  | skip => exact h.early
  | wait k i => exact hup k _ rfl (by simp)
  | pull k i => exact hup k _ rfl (by simp)
  | _ => exact hup _ _ rfl (by simp)

/-- a call under way finishes without ending its consumer -/
theorem Inv.ends_of_other {s s' : St n α ε} (h : Inv s) {k : ℕ} {i : Fin n} {r : Result α ε}
    (hl : s'.log = s.log ++ [⟨k, i, false, r⟩]) (hr : r.isEnd = false) (hd : s'.done = s.done)
    (ho : s'.outcome = s.outcome) (ha : s'.answers = s.answers)
    (hb : ∀ j, s.buffers j = [] → s'.buffers j = []) : Ends s' where
  done j := by rw [hd, hl, h.ends.done, ended_snoc]; simp [hr]
  spent j hj := by
    rw [hd] at hj
    obtain ⟨h1, h2⟩ := h.ends.spent j hj
    exact ⟨by rwa [ho], hb j h2⟩
  orderly := by
    unfold emitted
    rw [ho, hl, ha]
    exact h.ends.orderly.snoc (by simp) (by simp [hr])

/-- no call was late while the source had not ended -/
theorem Inv.orderly_of_open {s : St n α ε} (h : Inv s) (ho : s.outcome = []) (values : List α)
    (r : Option (Result α ε)) : Orderly values r s.log :=
  orderly_of_not_ended (h.ends.orderly.not_late (h.not_ended ho)) (h.not_ended ho)

/-- the source answers, and no consumer has ended -/
theorem Inv.ends_of_open {s s' : St n α ε} (h : Inv s) (ho : s.outcome = []) {k : ℕ} {i : Fin n} {r : Result α ε}
    (hl : s'.log = s.log ++ [⟨k, i, false, r⟩]) (hr : r.isEnd = false) (hd : s'.done = s.done) : Ends s' := by
  have hdone : ∀ j, s'.done j = false := by
    intro j
    rw [hd, h.ends.done, h.not_ended ho]
  refine ⟨fun j => ?_, fun j hj => ?_, ?_⟩
  · rw [hdone, hl, ended_snoc, h.not_ended ho]
    simp [hr]
  · rw [hdone] at hj; cases hj
  · rw [hl]
    exact (h.orderly_of_open ho _ _).snoc (by simp) (by simp [hr])

/-- a call under way finds the source ended and the values of its consumer used up -/
theorem Inv.ends_of_replay {s s' : St n α ε} (h : Inv s) {k : ℕ} {i : Fin n} {r : Option (Exn ε)}
    (hl : s'.log = s.log ++ [⟨k, i, false, resultOf r⟩]) (hd : s'.done = update s.done i true)
    (hb : s'.buffers = s.buffers) (hi : s.buffers i = []) (ho : s'.outcome.head? = some r)
    (he : emitted s' = emitted s) (hs : s'.outcome = s.outcome ∨ s.outcome = []) : Ends s' where
  done j := by
    rw [hd, hl, ended_snoc, ← h.ends.done]
    by_cases hj : j = i
    · subst hj; simp [resultOf_isEnd]
    · simp [update_of_ne hj, Ne.symm hj]
  spent j hj := by
    refine ⟨fun hno => by simp [hno] at ho, ?_⟩
    rw [hb]
    by_cases hji : j = i
    · subst hji; exact hi
    · rw [hd, update_of_ne hji] at hj
      exact (h.ends.spent j hj).2
  orderly := by
    have hord : Orderly (emitted s') (s'.outcome.head?.map resultOf) s.log := by
      rcases hs with h1 | h1
      · rw [he, h1]; exact h.ends.orderly
      · exact h.orderly_of_open h1 _ _
    rw [hl]
    refine hord.snoc (by simp) fun _ => ⟨?_, fun _ => by simp [ho]⟩
    rw [he, ← h.fifo i, hi, List.append_nil]

theorem step_ends {s s' : St n α ε} {o : Op n α ε} (h : Inv s) (hm : Move s o s') : Ends s' := by
  cases hm with
  | skip => exact h.ends
  | stopped k i hk hd =>
    refine ⟨fun j => ?_, h.ends.spent, h.ends.orderly.snoc (fun _ => ?_) fun _ => ⟨?_, by simp⟩⟩
    · rw [finish_done, finish_log, ended_snoc, ← h.ends.done]
      by_cases hj : j = i
      · subst hj; simp [hd]
      · simp [Ne.symm hj]
    · exact ⟨by rw [← h.ends.done, hd], rfl⟩
    · rw [← h.fifo i, (h.ends.spent i hd).2, List.append_nil]
  | pop k i v rest hk hb => exact h.ends_of_other rfl rfl rfl rfl rfl fun j hj => popped_nil hb hj
  | wait k i => exact ⟨h.ends.done, h.ends.spent, h.ends.orderly⟩
  | popLate k i v rest hh hk hb => exact h.ends_of_other rfl rfl rfl rfl rfl fun j hj => popped_nil hb hj
  | replay k i r rs hh hk hb ho => exact h.ends_of_replay rfl rfl rfl hb (by simp [unlock, ho]) rfl (.inl rfl)
  | pull k i => exact ⟨h.ends.done, h.ends.spent, h.ends.orderly⟩
  | value k i v hk => exact h.ends_of_open (h.active k i _ hk).1 rfl rfl rfl
  | ends k i x r hk hr =>
    obtain ⟨ho, hb⟩ := h.active k i _ hk
    refine h.ends_of_replay rfl rfl rfl hb rfl ((emitted_snoc rfl).trans ?_) (.inr ho)
    rw [recorded_value hr]; simp
  | torn o k i _ hk => exact h.ends_of_open (h.active k i _ hk).1 rfl rfl rfl
  | escapes k i e hk => exact h.ends_of_open (h.active k i _ hk).1 rfl rfl rfl
  | abort k i hk => exact h.ends_of_other rfl rfl rfl rfl rfl fun j hj => hj

theorem step_inv {s : St n α ε} (h : Inv s) (o : Op n α ε) : Inv (step s o) := by
  have hm := step_cases h o
  exact ⟨step_guards h hm, step_counts h hm, step_closed h hm, step_fifo h hm, step_active h hm, step_early h hm,
    step_ends h hm⟩

theorem exec_inv (ops : List (Op n α ε)) : Inv (exec ops) := run_inv (I := Inv) (fun _ o h => step_inv h o) init_inv ops

/-! ## The end of the source -/

theorem Inv.quiet_of_ended {s : St n α ε} (h : Inv s) (ho : s.outcome ≠ []) (k : ℕ) : ¬ InSource s k := by
  intro hk
  unfold InSource at hk
  cases hp : s.pc k with
  | pulling i l => exact ho (h.active k i l hp).1
  | _ => rw [hp] at hk; cases hk

/-- a source that has ended is not called again -/
theorem step_of_ended {s : St n α ε} (h : Inv s) (ho : s.outcome ≠ []) (o : Op n α ε) :
    (step s o).outcome = s.outcome ∧ (step s o).answers = s.answers ∧ (step s o).calls = s.calls := by
  have hm := step_cases h o
  generalize step s o = s' at hm
  cases hm with
  | pull k i hh hk hb ho' => exact absurd ho' ho
  | value k i v hk => exact absurd (h.active k i _ hk).1 ho
  | ends k i x r hk => exact absurd (h.active k i _ hk).1 ho
  | torn o k i _ hk => exact absurd (h.active k i _ hk).1 ho
  | escapes k i e hk => exact absurd (h.active k i _ hk).1 ho
  | _ => exact ⟨rfl, rfl, rfl⟩

theorem run_of_ended {s : St n α ε} (h : Inv s) (ho : s.outcome ≠ []) (ops : List (Op n α ε)) :
    let t := run step s ops
    t.outcome = s.outcome ∧ t.answers = s.answers ∧ t.calls = s.calls := by
  have hI : ∀ (s : St n α ε) (o : Op n α ε), Inv s ∧ s.outcome ≠ [] → Inv (step s o) ∧ (step s o).outcome ≠ [] := by
    rintro s o ⟨h, ho⟩
    exact ⟨step_inv h o, by rw [(step_of_ended h ho o).1]; exact ho⟩
  have hf := run_frozen (fun s : St n α ε => (s.outcome, s.answers, s.calls)) hI
    (fun s o h => by simp only [step_of_ended h.1 h.2 o]) ⟨h, ho⟩ ops
  simpa using hf

/-! ## Progress -/

theorem afterPull_lock (s : St n α ε) (k : ℕ) (i : Fin n) (l : Bool) : (afterPull s k i l).lock = s.lock := by
  unfold afterPull
  split
  · rfl
  · simp only
    split <;> rfl

theorem pulled_lock (s : St n α ε) (k : ℕ) (i : Fin n) (l : Bool) (x : Answer α ε) :
    (pulled s k i l x).lock = s.lock.release := by
  cases x <;> simp [pulled, afterPull_lock, unlock]

/-- the task that holds the lock runs until it releases it -/
theorem Inv.next_turn {s : St n α ε} (h : Inv s) {j : ℕ} (hj : s.lock.holder = some j) (a : ℕ → Answer α ε) :
    ∃ ops', (∀ o ∈ ops', o = .resume j ∨ o = .answer j (a j)) ∧ (run step s ops').lock = s.lock.release := by
  have hbusy := (h.guards.busy j).2 (.inl hj)
  cases hp : s.pc j with
  | pulling i l => exact ⟨[.answer j (a j)], by simp, by simp [step, hp, pulled_lock]⟩
  | waiting i l =>
    by_cases hc : s.buffers i ≠ [] ∨ s.outcome ≠ []
    · refine ⟨[.resume j], by simp, ?_⟩
      simp only [run_cons, run_nil, step, hj, hp, if_true, pull, if_pos hc, afterPull_lock, unlock]
    · refine ⟨[.resume j, .answer j (a j)], by simp, ?_⟩
      simp only [run_cons, run_nil, step, hj, hp, if_true, pull, if_neg hc, goto, update_self, pulled_lock]
  | _ => rw [hp] at hbusy; exact absurd rfl hbusy

/-- **No deadlock.** However the source answers each task, the suspended tasks can run until none is suspended. -/
theorem Inv.drains (a : ℕ → Answer α ε) {s : St n α ε} (h : Inv s) :
    ∃ ops', (∀ o ∈ ops', ∃ j, o = .resume j ∨ o = .answer j (a j)) ∧ ∀ k, ¬ Suspended (run step s ops') k := by
  induction hq : s.lock.queue.length generalizing s with
  | zero =>
    refine ⟨[], by simp, fun k hk => ?_⟩
    have := (h.guards.busy k).1 hk
    simp_all [FairLock.queue]
  | succ m ih =>
    cases hj : s.lock.holder with
    | none => simp [FairLock.queue, hj, h.guards.idle hj] at hq
    | some j =>
      obtain ⟨ops₁, hops₁, hlock⟩ := h.next_turn hj a
      have hm : (run step s ops₁).lock.queue.length = m := by
        rw [hlock, FairLock.release_queue]
        simpa [FairLock.queue, hj] using hq
      obtain ⟨ops₂, hops₂, hout⟩ := ih (run_inv (I := Inv) (fun _ o h => step_inv h o) h ops₁) hm
      refine ⟨ops₁ ++ ops₂, fun o ho => ?_, by rw [run_append]; exact hout⟩
      rcases List.mem_append.1 ho with ho | ho
      · exact ⟨j, hops₁ o ho⟩
      · exact hops₂ o ho

/-! ## Runs without cancellation -/

/-- the source ends normally or with an `Exception`, and no task is cancelled -/
def Op.Regular : Op n α ε → Prop
  | .answer _ .cancelled | .answer _ (.baseException _) | .cancel _ => False
  | _ => True

instance : DecidablePred (Op.Regular : Op n α ε → Prop) := fun o => by unfold Op.Regular; split <;> infer_instance

/-- what the awaiting code gets from an answer of the source -/
def Answer.result : Answer α ε → Result α ε
  | .value v => .value v
  | .stopAsyncIteration => .stopAsyncIteration
  | .exception e => .raised (.source e)
  | .cancelled => .cancelled
  | .baseException e => .baseException e

/-- the source has yielded its values and not ended, or then ended with `x` -/
def Source (s : St n α ε) : Option (Answer α ε) → Prop
  | none => s.outcome = [] ∧ s.answers = (emitted s).map .value
  | some x => s.outcome.head?.map resultOf = some x.result ∧ s.answers = (emitted s).map .value ++ [x]

theorem step_source {s : St n α ε} (h : Inv s) {o : Op n α ε} (hreg : o.Regular) (hs : ∃ x, Source s x) :
    ∃ x, Source (step s o) x := by
  have hm := step_cases h o
  have hopen : s.outcome = [] → s.answers = (emitted s).map .value := by
    intro ho
    obtain ⟨x, hx⟩ := hs
    cases x with
    | none => exact hx.2
    | some x => simp [Source, ho] at hx
  generalize step s o = s' at hm
  cases hm with
  | value k i v hk =>
    have ho := (h.active k i _ hk).1
    refine ⟨none, ho, ?_⟩
    rw [emitted_snoc (s := s) rfl, List.map_append, ← hopen ho]
    rfl
  | ends k i x r hk hr hx =>
    have ho := (h.active k i _ hk).1
    refine ⟨some x, ?_, ?_⟩
    · cases x <;> cases hr <;> simp_all [unlock, resultOf, Answer.result]
    · rw [emitted_snoc (s := s) rfl, recorded_value hr, Option.toList_none, List.append_nil, ← hopen ho]
      rfl
  | torn o k i ho hk => rcases ho with rfl | rfl <;> cases hreg
  | escapes => cases hreg
  | abort => cases hreg
  | _ => exact hs

/-- a finished call popped a value or ended its consumer -/
def Result.Regular : Result α ε → Prop
  | .cancelled | .baseException _ => False
  | _ => True

theorem resultOf_regular (r : Option (Exn ε)) : (resultOf r : Result α ε).Regular := by cases r <;> trivial

theorem step_results {s : St n α ε} (h : Inv s) {o : Op n α ε} (hreg : o.Regular)
    (hs : ∀ e ∈ s.log, e.result.Regular) : ∀ e ∈ (step s o).log, e.result.Regular := by
  have hm := step_cases h o
  generalize step s o = s' at hm
  have hsnoc : ∀ k i l r, s'.log = s.log ++ [⟨k, i, l, r⟩] → r.Regular → ∀ e ∈ s'.log, e.result.Regular := by
    intro k i l r hl hr e he
    rw [hl, List.mem_append, List.mem_singleton] at he
    rcases he with he | rfl
    · exact hs e he
    · exact hr
  cases hm with
  | skip => exact hs
  | wait => exact hs
  | pull => exact hs
  | replay k i r => exact hsnoc _ _ _ _ rfl (resultOf_regular r)
  | ends k i x r => exact hsnoc _ _ _ _ rfl (resultOf_regular r)
  | torn o k i ho hk => rcases ho with rfl | rfl <;> cases hreg
  | escapes => cases hreg
  | abort => cases hreg
  | _ => exact hsnoc _ _ _ _ rfl trivial

theorem exec_regular {ops : List (Op n α ε)} (hreg : ∀ o ∈ ops, o.Regular) :
    (∃ x, Source (exec ops) x) ∧ ∀ e ∈ (exec ops).log, e.result.Regular := by
  have hstep : ∀ (s : St n α ε) (o : Op n α ε), Inv s ∧ (∃ x, Source s x) ∧ (∀ e ∈ s.log, e.result.Regular) →
      o.Regular → Inv (step s o) ∧ (∃ x, Source (step s o) x) ∧ ∀ e ∈ (step s o).log, e.result.Regular := by
    rintro s o ⟨h, hs, hl⟩ ho
    exact ⟨step_inv h o, step_source h ho hs, step_results h ho hl⟩
  have halong : Along step (fun _ o => o.Regular) (init n α ε) ops := along_of_forall _ fun o ho _ => hreg o ho
  refine (run_inv_of hstep ⟨init_inv, ⟨none, rfl, rfl⟩, fun e he => ?_⟩ halong).2
  simp [init] at he

/-- how a call ends whose turn it is: with the next value buffered for its consumer, else as the source has ended, else as
the source answers -/
def turn (s : St n α ε) (i : Fin n) (a : Answer α ε) : Result α ε :=
  match s.buffers i, s.outcome with
  | v :: _, _ => .value v
  | [], r :: _ => resultOf r
  | [], [] => a.result

theorem pulled_result {s : St n α ε} (h : Inv s) {k : ℕ} {i : Fin n} {l : Bool} (hk : s.pc k = .pulling i l)
    (a : Answer α ε) (ha : (Op.answer k a : Op n α ε).Regular) : (pulled s k i l a).pc k = .finished a.result := by
  obtain ⟨ho, hb⟩ := h.active k i l hk
  cases a with
  | value v => simp [pulled, afterPull, unlock, hb, Answer.result]
  | stopAsyncIteration => simp [pulled, afterPull, unlock, hb, ho, Answer.result, resultOf]
  | exception e => simp [pulled, afterPull, unlock, hb, ho, Answer.result, resultOf]
  | cancelled => cases ha
  | baseException e => cases ha

/-- the task that gets the lock -/
theorem turn_result {s : St n α ε} (h : Inv s) {k : ℕ} {i : Fin n} {l : Bool} (hk : s.pc k = .waiting i l)
    (hturn : s.lock.holder = some k) (a : Answer α ε) (ha : (Op.answer k a : Op n α ε).Regular) :
    (run step s [.resume k, .answer k a]).pc k = .finished (turn s i a) := by
  have hresume : step s (.resume k) = pull s k i l := by simp only [step, hturn, hk, if_true]
  have hinv := step_inv h (.resume k)
  rw [run_cons, run_cons, run_nil, hresume]
  rw [hresume] at hinv
  cases hb : s.buffers i with
  | cons v rest =>
    have hpc : (pull s k i l).pc k = .finished (.value v) := by simp [pull, afterPull, unlock, popped, hb]
    rw [step, hpc, turn, hb]
    exact hpc
  | nil =>
    cases ho : s.outcome with
    | cons r rs =>
      have hpc : (pull s k i l).pc k = .finished (resultOf r) := by simp [pull, afterPull, unlock, hb, ho]
      rw [step, hpc, turn, hb, ho]
      exact hpc
    | nil =>
      have hpc : (pull s k i l).pc k = .pulling i l := by simp [pull, goto, hb, ho]
      rw [step, hpc, turn, hb, ho]
      exact pulled_result hinv hpc a ha

/-- **Every value to every consumer.** In a run without cancellation the values popped from a consumer and those still
in its buffer are, in order, what the source has yielded. The source is called once per value, by one task at a time
and never after its end. A finished call popped a value; or its consumer had ended when it began, and it raises
`StopAsyncIteration`; or all values of the consumer had been popped, the source had ended, and it ends as the source
did. A call that gets the lock ends so with the next answer of the source at the latest, and one that pulls with that
answer; however the source answers, the suspended calls can all end. -/
theorem every_value_to_every_consumer (ops : List (Op n α ε)) (hreg : ∀ o ∈ ops, o.Regular) :
    let s := exec ops
    (∀ i, delivered s.log i ++ s.buffers i = emitted s) ∧
    (∀ j k, InSource s j → InSource s k → j = k) ∧ Counts s ∧
    (∃ x, Source s x ∧ (x ≠ none → (∀ k, ¬ InSource s k) ∧ ∀ ops', (run step s ops').calls = s.calls)) ∧
    (∀ a e b, s.log = a ++ e :: b →
      (∃ v, e.late = false ∧ e.result = .value v) ∨
      (ended a e.consumer = true ∧ e.late = true ∧ e.result = .stopAsyncIteration) ∨
      (delivered a e.consumer = emitted s ∧ e.late = false ∧ ∃ x, Source s (some x) ∧ e.result = x.result)) ∧
    (∀ k i l a, (Op.answer k a : Op n α ε).Regular →
      (s.pc k = .waiting i l → s.lock.holder = some k →
        (run step s [.resume k, .answer k a]).pc k = .finished (turn s i a)) ∧
      (s.pc k = .pulling i l → (step s (.answer k a)).pc k = .finished a.result)) ∧
    ∀ a : ℕ → Answer α ε, (∀ k, (Op.answer k (a k) : Op n α ε).Regular) →
      ∃ ops', (∀ o ∈ ops', o.Regular ∧ ∃ j, o = .resume j ∨ o = .answer j (a j)) ∧
        ∀ k, ¬ Suspended (run step s ops') k := by
  intro s
  have h : Inv s := exec_inv ops
  obtain ⟨⟨x, hx⟩, hlog⟩ := exec_regular hreg
  have hend : x ≠ none → s.outcome ≠ [] := by
    intro hne ho
    obtain ⟨y, rfl⟩ := Option.ne_none_iff_exists'.1 hne
    have := hx.1
    rw [ho] at this; cases this
  refine ⟨h.fifo, fun j k => h.guards.unique, h.counts, ⟨x, hx, fun hne => ⟨h.quiet_of_ended (hend hne), fun ops' => ?_⟩⟩,
    fun a e b hab => ?_, fun k i l a ha => ⟨fun hk hturn => turn_result h hk hturn a ha, fun hk => ?_⟩,
    fun a ha => ?_⟩
  · exact (run_of_ended h (hend hne) ops').2.2
  · obtain ⟨hlate, hdone⟩ := h.ends.orderly a e b hab
    have hr := hlog e (by rw [hab]; simp)
    by_cases hl : e.late = true
    · exact .inr (.inl ⟨(hlate hl).1, hl, (hlate hl).2⟩)
    · rw [Bool.not_eq_true] at hl
      by_cases he : e.result.isEnd = true
      · obtain ⟨hdel, hres⟩ := hdone he
        have hout := hres hl
        refine .inr (.inr ⟨hdel, hl, ?_⟩)
        cases x with
        | none => rw [hx.1] at hout; cases hout
        | some x =>
          rw [hx.1] at hout
          exact ⟨x, hx, (Option.some.inj hout).symm⟩
      · cases hv : e.result with
        | value v => exact .inl ⟨v, hl, rfl⟩
        | cancelled => rw [hv] at hr; cases hr
        | baseException _ => rw [hv] at hr; cases hr
        | _ => rw [hv] at he; exact absurd rfl he
  · simp only [step, hk]
    exact pulled_result h hk a ha
  · obtain ⟨ops', hops, hout⟩ := h.drains a
    refine ⟨ops', fun o ho => ⟨?_, hops o ho⟩, hout⟩
    obtain ⟨j, rfl | rfl⟩ := hops o ho
    · trivial
    · exact ha j

/-- consumer 1 waits while task 0 pulls for consumer 0; the source yields 5 and ends -/
def twoConsumers : List (Op 2 ℕ ℕ) :=
  [.next 0 0, .resume 0, .next 1 1, .answer 0 (.value 5), .resume 1, .next 2 1, .resume 2, .next 3 0,
    .answer 2 .stopAsyncIteration, .resume 3, .next 4 0]

theorem every_value_to_two_consumers : (∀ o ∈ twoConsumers, o.Regular) ∧ emitted (exec twoConsumers) = [5] ∧
    ∀ i, delivered (exec twoConsumers).log i ++ (exec twoConsumers).buffers i = [5] :=
  ⟨by decide, by decide, (every_value_to_every_consumer twoConsumers (by decide)).1⟩

/-! ## Cancellation -/

/-- what a run shows after the task that pulled was cancelled -/
theorem Inv.after_cancelled_pull {s : St n α ε} (h : Inv s) {k : ℕ} {i : Fin n} {l : Bool}
    (hk : s.pc k = .pulling i l) (ops' : List (Op n α ε)) :
    let t := run step (step s (.cancel k)) ops'
    Inv t ∧ emitted t = emitted s ∧ t.calls = s.calls ∧ t.outcome = [some sourceCancelled] := by
  have hs : step s (.cancel k) = pulled s k i l .cancelled := by simp only [step, hk]
  have h1 := step_inv h (.cancel k)
  rw [hs] at h1 ⊢
  have ho : (pulled s k i l .cancelled).outcome = [some sourceCancelled] := by
    simp [pulled, unlock, (h.active k i l hk).1]
  have he : emitted (pulled s k i l .cancelled) = emitted s := by
    rw [emitted_snoc (s := s) rfl]; simp [Answer.value?]
  obtain ⟨h2, h3, h4⟩ := run_of_ended h1 (by rw [ho]; simp) ops'
  refine ⟨run_inv (I := Inv) (fun _ o h => step_inv h o) h1 ops', ?_, h4, h2.trans ho⟩
  rw [← he]
  unfold emitted
  rw [h3]

end AioBotocore.Tee
