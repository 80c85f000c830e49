/-
`AsyncTokenBucket` of `retries/bucket.py`, in exact arithmetic and with a clock that only `tick` moves. A machine: any
number of tasks call `acquire` or `set_max_rate`; each operation of `step` is what one task does between two suspension
points, so a list of operations is an interleaving.

A call suspends at the lock of the condition (`asyncio.Condition`, so `asyncio.Lock`) and in
`asyncio.wait_for(condition.wait(), sleep_amount)`. A waiter that is notified, timed out or cancelled first takes the
lock again; a timeout or a cancellation while it queues for the lock puts it at the end of the queue. With the lock
taken it goes on (`proceed`), at once or, where `wait_for` runs the wait in a task of its own, later.

Results:
- `step_effect`: what one operation does to the bucket and the grants.
- `run_inv`: the bounds of the bucket, and grants only to tasks that returned.
- `rate_bound`: the tokens granted never exceed what the fill rates in force have produced since creation, and a failed
  or cancelled `acquire` takes none.
-/
import Mathlib.Tactic
import AioBotocore.Async.Run
import AioBotocore.Async.Lock

namespace AioBotocore.Retries

open Async Function

/-! ## Bucket -/

structure Bucket where
  fillRate : ℚ
  maxCapacity : ℚ
  currentCapacity : ℚ
  lastTimestamp : Option ℚ
deriving DecidableEq, Repr

/-- the `min_rate` of the constructor -/
structure Cfg where
  minRate : ℚ
  nonneg : 0 ≤ minRate

/-- `_MIN_RATE` -/
def defaultMinRate : Cfg := ⟨1 / 2, by norm_num⟩

namespace Bucket

/-- `_refill` -/
def refill (b : Bucket) (timestamp : ℚ) : Bucket :=
  match b.lastTimestamp with
  | none => { b with lastTimestamp := some timestamp }
  | some last =>
    let fillAmount := (timestamp - last) * b.fillRate
    { b with currentCapacity := min b.maxCapacity (b.currentCapacity + fillAmount), lastTimestamp := some timestamp }

/-- `_set_max_rate` -/
def setMaxRate (C : Cfg) (b : Bucket) (timestamp value : ℚ) : Bucket :=
  let b := b.refill timestamp
  let maxCapacity := if 1 ≤ value then value else 1
  { b with fillRate := max value C.minRate, maxCapacity := maxCapacity,
           currentCapacity := min b.currentCapacity maxCapacity }

/-- `_sleep_amount`; `none` is the `ZeroDivisionError` -/
def sleepAmount (b : Bucket) (amount : ℚ) : Option ℚ :=
  if b.fillRate = 0 then none else some ((amount - b.currentCapacity) / b.fillRate)

def take (b : Bucket) (amount : ℚ) : Bucket := { b with currentCapacity := b.currentCapacity - amount }

/-- The constructor. The rates are `None` until `_set_max_rate` sets them, and are not read before. -/
def new (C : Cfg) (timestamp maxRate : ℚ) : Bucket := setMaxRate C ⟨0, 0, 0, none⟩ timestamp maxRate

end Bucket

/-! ## Model -/

inductive Call where
  | acquire (amount : ℚ≥0) (block : Bool)
  | setMaxRate (value : ℚ)
deriving DecidableEq

inductive Pc where
  | idle
  /-- queued for the lock in `async with self._new_fill_rate_condition` -/
  | entering (c : Call)
  /-- waiting for a notification until `deadline` -/
  | waiting (amount : ℚ≥0) (deadline : ℚ)
  /-- queued for the lock at the end of `condition.wait()`, with the deadline if the timeout has not fired -/
  | reacquiring (amount : ℚ≥0) (timer : Option ℚ) (cancelled : Bool)
  /-- holding the lock at the end of `condition.wait()` -/
  | reacquired (amount : ℚ≥0) (cancelled : Bool)
  | granted
  | rateSet
  | capacityNotAvailable
  | zeroDivisionError
  | cancelled
deriving DecidableEq

def region : Pc → Region
  | .entering _ | .reacquiring _ _ _ => .queued
  | .reacquired _ _ => .inside
  | _ => .out

structure Grant where
  task : ℕ
  amount : ℚ≥0
  time : ℚ
deriving DecidableEq

structure St where
  now : ℚ
  bucket : Bucket
  lock : Lock ℕ
  /-- the waiters of the condition, notified or not -/
  condWaiters : List (ℕ × Bool)
  pc : ℕ → Pc
  grants : List Grant

inductive Op where
  | tick (d : ℚ≥0)
  | call (k : ℕ) (c : Call)
  | resume (k : ℕ)
  | wake (k : ℕ)
  | timeout (k : ℕ)
  | proceed (k : ℕ)
  | cancel (k : ℕ)
deriving DecidableEq

def init (C : Cfg) (t0 maxRate : ℚ) : St := ⟨t0, Bucket.new C t0 maxRate, Lock.init, [], fun _ => .idle, []⟩

def goto (s : St) (k : ℕ) (p : Pc) : St := { s with pc := update s.pc k p }

def unlock (s : St) : St := { s with lock := s.lock.release }

def refill (s : St) : St := { s with bucket := s.bucket.refill s.now }

/-- `condition.notify()` -/
def notify : List (ℕ × Bool) → List (ℕ × Bool)
  | [] => []
  | (k, false) :: ws => (k, true) :: ws
  | (k, true) :: ws => (k, true) :: notify ws

/-- `self._current_capacity -= amount; return True` -/
def grant (s : St) (k : ℕ) (amount : ℚ≥0) : St :=
  { goto (unlock s) k .granted with
    bucket := s.bucket.take amount, grants := s.grants ++ [⟨k, amount, s.now⟩] }

/-- the loop of `_acquire`, from the test of its condition to the next suspension or the end -/
def acquireLoop (s : St) (k : ℕ) (amount : ℚ≥0) : St :=
  match s.bucket.sleepAmount amount with
  | none => goto (unlock s) k .zeroDivisionError
  | some sleepAmount =>
    if 0 < sleepAmount then
      goto { unlock s with condWaiters := s.condWaiters ++ [(k, false)] } k (.waiting amount (s.now + sleepAmount))
    else grant s k amount

/-- `_acquire` -/
def acquire (s : St) (k : ℕ) (amount : ℚ≥0) (block : Bool) : St :=
  let s := refill s
  if amount ≤ s.bucket.currentCapacity then grant s k amount
  else if !block then goto (unlock s) k .capacityNotAvailable
  else acquireLoop s k amount

/-- `set_max_rate` once it holds the lock -/
def setMaxRate (C : Cfg) (s : St) (k : ℕ) (value : ℚ) : St :=
  goto (unlock { s with bucket := s.bucket.setMaxRate C s.now value, condWaiters := notify s.condWaiters }) k .rateSet

def locked (C : Cfg) (s : St) (k : ℕ) : Call → St
  | .acquire amount block => acquire s k amount block
  | .setMaxRate value => setMaxRate C s k value

/-- `async with self._new_fill_rate_condition` -/
def enter (C : Cfg) (s : St) (k : ℕ) (c : Call) : St :=
  if s.lock.free then locked C { s with lock := s.lock.take k } k c
  else goto { s with lock := s.lock.enqueue k } k (.entering c)

/-- the end of `condition.wait()`: the lock is taken again -/
def reenter (s : St) (k : ℕ) (amount : ℚ≥0) (timer : Option ℚ) (cancelled : Bool) : St :=
  if s.lock.free then goto { s with lock := s.lock.take k } k (.reacquired amount cancelled)
  else goto { s with lock := s.lock.enqueue k } k (.reacquiring amount timer cancelled)

/-- waiter `k` leaves the waiters of the condition -/
def leaveCond (s : St) (k : ℕ) : St := { s with condWaiters := s.condWaiters.filter fun w => w.1 ≠ k }

/-- waiter `k` leaves the queue of the lock -/
def leaveQueue (s : St) (k : ℕ) : St := { s with lock := s.lock.abort k }

def step (C : Cfg) (s : St) : Op → St
  | .tick d => { s with now := s.now + d }
  | .call k c =>
    match s.pc k with
    | .idle => enter C s k c
    | _ => s
  | .resume k =>
    if s.lock.ready k then
      match s.pc k with
      | .entering c => locked C { s with lock := s.lock.resume k } k c
      | .reacquiring amount _ cancelled =>
        goto { s with lock := s.lock.resume k } k (.reacquired amount cancelled)
      | _ => s
    else s
  | .wake k =>
    match s.pc k with
    | .waiting amount deadline =>
      if (k, true) ∈ s.condWaiters then reenter (leaveCond s k) k amount (some deadline) false else s
    | _ => s
  | .timeout k =>
    match s.pc k with
    | .waiting amount deadline =>
      if deadline ≤ s.now then reenter (leaveCond s k) k amount none false else s
    | .reacquiring amount (some deadline) cancelled =>
      if deadline ≤ s.now then reenter (leaveQueue s k) k amount none cancelled else s
    | _ => s
  | .proceed k =>
    match s.pc k with
    | .reacquired amount cancelled =>
      if cancelled then goto (unlock s) k .cancelled else acquireLoop (refill s) k amount
    | _ => s
  | .cancel k =>
    match s.pc k with
    | .entering _ => goto (leaveQueue s k) k .cancelled
    | .waiting amount deadline => reenter (leaveCond s k) k amount (some deadline) true
    | .reacquiring amount timer _ => reenter (leaveQueue s k) k amount timer true
    | .reacquired amount _ => goto s k (.reacquired amount true)
    | _ => s

abbrev exec (C : Cfg) (t0 maxRate : ℚ) (ops : List Op) : St := run (step C) (init C t0 maxRate) ops

/-- the tokens granted so far -/
def granted (s : St) : ℚ := (s.grants.map fun g => (g.amount : ℚ)).sum

/-- what the fill rate in force produces in one operation -/
def produced (s : St) : Op → ℚ
  | .tick d => d * s.bucket.fillRate
  | _ => 0

/-! ## What one operation can do -/

theorem Bucket.refill_fillRate (b : Bucket) (now : ℚ) : (b.refill now).fillRate = b.fillRate := by
  unfold Bucket.refill
  split <;> rfl

/-- what task `k` does to the bucket and the grants in one step, and where that leaves it -/
inductive Effect (C : Cfg) (s : St) (k : ℕ) (s' : St) : Prop
  | moved (p : Pc) (hp : p ≠ .granted) (hpc : s'.pc = update s.pc k p) (hnow : s'.now = s.now)
      (hb : s'.bucket = s.bucket) (hg : s'.grants = s.grants)
  | refilled (p : Pc) (hp : p ≠ .granted) (hpc : s'.pc = update s.pc k p) (hnow : s'.now = s.now)
      (hb : s'.bucket = s.bucket.refill s.now) (hg : s'.grants = s.grants)
  | granted (amount : ℚ≥0) (hle : amount ≤ (s.bucket.refill s.now).currentCapacity)
      (hpc : s'.pc = update s.pc k .granted) (hnow : s'.now = s.now)
      (hb : s'.bucket = (s.bucket.refill s.now).take amount) (hg : s'.grants = s.grants ++ [⟨k, amount, s.now⟩])
  | rateSet (value : ℚ) (hpc : s'.pc = update s.pc k .rateSet) (hnow : s'.now = s.now)
      (hb : s'.bucket = s.bucket.setMaxRate C s.now value) (hg : s'.grants = s.grants)

theorem grant_effect (C : Cfg) (s : St) (k : ℕ) (w : List (ℕ × Bool)) (l : Lock ℕ) {amount : ℚ≥0}
    (hle : amount ≤ (s.bucket.refill s.now).currentCapacity) :
    Effect C s k (grant (refill { s with lock := l, condWaiters := w }) k amount) :=
  .granted amount hle rfl rfl rfl rfl

/-- the loop ends only when there is enough capacity -/
theorem acquireLoop_effect {C : Cfg} {s : St} (hrate : 0 ≤ s.bucket.fillRate) (k : ℕ) (w : List (ℕ × Bool))
    (l : Lock ℕ) (amount : ℚ≥0) :
    Effect C s k (acquireLoop (refill { s with lock := l, condWaiters := w }) k amount) := by
  have hfill := Bucket.refill_fillRate s.bucket s.now
  unfold acquireLoop Bucket.sleepAmount
  by_cases hz : s.bucket.fillRate = 0
  · simp only [refill, hfill, hz, if_true]
    exact .refilled _ (by simp) rfl rfl rfl rfl
  · simp only [refill, hfill, hz, if_false]
    split_ifs with hs
    · exact .refilled _ (by simp) rfl rfl rfl rfl
    · apply grant_effect C s k w l
      have hpos : 0 < s.bucket.fillRate := lt_of_le_of_ne hrate (Ne.symm hz)
      rw [div_pos_iff_of_pos_right hpos, sub_pos, not_lt] at hs
      exact hs

theorem locked_effect {C : Cfg} {s : St} (hrate : 0 ≤ s.bucket.fillRate) (k : ℕ) (l : Lock ℕ) (c : Call) :
    Effect C s k (locked C { s with lock := l } k c) := by
  cases c with
  | setMaxRate value => exact .rateSet value rfl rfl rfl rfl
  | acquire amount block =>
    simp only [locked, acquire]
    split_ifs with hle hblock
    · exact grant_effect C s k s.condWaiters l hle
    · exact .refilled _ (by simp) rfl rfl rfl rfl
    · exact acquireLoop_effect hrate k s.condWaiters l amount

theorem reenter_effect (C : Cfg) (s : St) (k : ℕ) (w : List (ℕ × Bool)) (l : Lock ℕ) (amount : ℚ≥0)
    (timer : Option ℚ) (cancelled : Bool) :
    Effect C s k (reenter { s with lock := l, condWaiters := w } k amount timer cancelled) := by
  unfold reenter
  split_ifs
  · exact .moved _ (by simp) rfl rfl rfl rfl
  · exact .moved _ (by simp) rfl rfl rfl rfl

/-- time passes, or nothing happens, or one task that has not got its tokens yet makes a step -/
theorem step_effect {C : Cfg} {s : St} (hrate : 0 ≤ s.bucket.fillRate) (o : Op) :
    (∃ d, o = .tick d ∧ step C s o = { s with now := s.now + d }) ∨ step C s o = s ∨
      ∃ k, s.pc k ≠ .granted ∧ Effect C s k (step C s o) := by
  cases o with
  | tick d => exact .inl ⟨d, rfl, rfl⟩
  | call k c =>
    refine .inr ?_
    simp only [step]
    split
    · rename_i hk
      refine .inr ⟨k, by simp [hk], ?_⟩
      unfold enter
      split_ifs
      · exact locked_effect hrate k _ c
      · exact .moved _ (by simp) rfl rfl rfl rfl
    · exact .inl rfl
  | resume k =>
    refine .inr ?_
    simp only [step]
    split_ifs
    · split
      · rename_i c hk
        exact .inr ⟨k, by simp [hk], locked_effect hrate k _ c⟩
      · rename_i amount timer cancelled hk
        exact .inr ⟨k, by simp [hk], .moved _ (by simp) rfl rfl rfl rfl⟩
      · exact .inl rfl
    · exact .inl rfl
  | wake k =>
    refine .inr ?_
    simp only [step]
    split
    · rename_i amount deadline hk
      split_ifs
      · exact .inr ⟨k, by simp [hk], reenter_effect C s k _ _ amount _ _⟩
      · exact .inl rfl
    · exact .inl rfl
  | timeout k =>
    refine .inr ?_
    simp only [step]
    split
    · rename_i amount deadline hk
      split_ifs
      · exact .inr ⟨k, by simp [hk], reenter_effect C s k _ _ amount _ _⟩
      · exact .inl rfl
    · rename_i amount deadline cancelled hk
      split_ifs
      · exact .inr ⟨k, by simp [hk], reenter_effect C s k _ _ amount _ _⟩
      · exact .inl rfl
    · exact .inl rfl
  | proceed k =>
    refine .inr ?_
    simp only [step]
    split
    · rename_i amount cancelled hk
      refine .inr ⟨k, by simp [hk], ?_⟩
      split_ifs
      · exact .moved _ (by simp) rfl rfl rfl rfl
      · exact acquireLoop_effect hrate k s.condWaiters s.lock amount
    · exact .inl rfl
  | cancel k =>
    refine .inr ?_
    simp only [step]
    split
    · rename_i c hk
      exact .inr ⟨k, by simp [hk], .moved _ (by simp) rfl rfl rfl rfl⟩
    · rename_i amount deadline hk
      exact .inr ⟨k, by simp [hk], reenter_effect C s k _ _ amount _ _⟩
    · rename_i amount timer cancelled hk
      exact .inr ⟨k, by simp [hk], reenter_effect C s k _ _ amount _ _⟩
    · rename_i amount cancelled hk
      exact .inr ⟨k, by simp [hk], .moved _ (by simp) rfl rfl rfl rfl⟩
    · exact .inl rfl

/-! ## The bounds of the bucket -/

namespace Bucket

structure Valid (C : Cfg) (b : Bucket) (now : ℚ) : Prop where
  nonneg : 0 ≤ b.currentCapacity
  le_max : b.currentCapacity ≤ b.maxCapacity
  one_le : 1 ≤ b.maxCapacity
  rate : C.minRate ≤ b.fillRate
  last : ∃ t, b.lastTimestamp = some t ∧ t ≤ now

variable {C : Cfg} {b : Bucket} {now : ℚ}

theorem Valid.rate_nonneg (h : Valid C b now) : 0 ≤ b.fillRate := C.nonneg.trans h.rate

theorem Valid.later (h : Valid C b now) {d : ℚ} (hd : 0 ≤ d) : Valid C b (now + d) := by
  obtain ⟨t, ht, hle⟩ := h.last
  exact ⟨h.nonneg, h.le_max, h.one_le, h.rate, t, ht, by linarith⟩

theorem Valid.refill (h : Valid C b now) : Valid C (b.refill now) now := by
  obtain ⟨t, ht, hle⟩ := h.last
  have hfill : 0 ≤ (now - t) * b.fillRate := mul_nonneg (by linarith) h.rate_nonneg
  have hmax : 0 ≤ b.maxCapacity := zero_le_one.trans h.one_le
  simp only [Bucket.refill, ht]
  exact ⟨le_min hmax (add_nonneg h.nonneg hfill), min_le_left _ _, h.one_le, h.rate, now, rfl, le_rfl⟩

theorem Valid.take (h : Valid C b now) {amount : ℚ} (h0 : 0 ≤ amount) (hle : amount ≤ b.currentCapacity) :
    Valid C (b.take amount) now where
  nonneg := sub_nonneg.2 hle
  le_max := (sub_le_self _ h0).trans h.le_max
  one_le := h.one_le
  rate := h.rate
  last := h.last

theorem one_le_capacity (value : ℚ) : 1 ≤ if 1 ≤ value then value else 1 := by
  split_ifs with h
  · exact h
  · exact le_rfl

/-- a new rate needs no bounds of the old one but on the capacity -/
theorem setMaxRate_valid (hcap : 0 ≤ (b.refill now).currentCapacity) (hlast : (b.refill now).lastTimestamp = some now)
    (value : ℚ) : Valid C (b.setMaxRate C now value) now where
  nonneg := le_min hcap (zero_le_one.trans (one_le_capacity value))
  le_max := min_le_right _ _
  one_le := one_le_capacity value
  rate := le_max_right _ _
  last := ⟨now, hlast, le_rfl⟩

theorem refill_last (b : Bucket) (now : ℚ) : (b.refill now).lastTimestamp = some now := by
  unfold Bucket.refill; split <;> rfl

theorem Valid.setMaxRate (h : Valid C b now) (value : ℚ) : Valid C (b.setMaxRate C now value) now :=
  setMaxRate_valid h.refill.nonneg (refill_last b now) value

theorem new_valid (C : Cfg) (t0 maxRate : ℚ) : Valid C (new C t0 maxRate) t0 :=
  setMaxRate_valid (le_refl 0) rfl maxRate

/-- the capacity, with what has been produced since the last refill -/
def potential (b : Bucket) (now : ℚ) : ℚ :=
  b.currentCapacity + (b.lastTimestamp.elim 0 fun last => now - last) * b.fillRate

theorem Valid.nonneg_potential (h : Valid C b now) : 0 ≤ b.potential now := by
  obtain ⟨t, ht, hle⟩ := h.last
  have hfill : 0 ≤ (now - t) * b.fillRate := mul_nonneg (by linarith) h.rate_nonneg
  rw [potential, ht]
  exact add_nonneg h.nonneg hfill

theorem potential_later (h : Valid C b now) (d : ℚ) : b.potential (now + d) = b.potential now + d * b.fillRate := by
  obtain ⟨t, ht, -⟩ := h.last
  simp only [potential, ht, Option.elim_some]
  ring

/-- just after a refill nothing has been produced -/
theorem potential_of_last (h : b.lastTimestamp = some now) : b.potential now = b.currentCapacity := by
  simp [potential, h]

theorem refill_potential (h : Valid C b now) : (b.refill now).potential now ≤ b.potential now := by
  obtain ⟨t, ht, -⟩ := h.last
  rw [potential_of_last (refill_last b now)]
  simp only [Bucket.refill, potential, ht, Option.elim_some]
  exact min_le_right _ _

theorem setMaxRate_potential (h : Valid C b now) (value : ℚ) :
    (b.setMaxRate C now value).potential now ≤ b.potential now := by
  calc (b.setMaxRate C now value).potential now
      = (b.setMaxRate C now value).currentCapacity := potential_of_last (refill_last b now)
    _ ≤ (b.refill now).currentCapacity := min_le_left _ _
    _ = (b.refill now).potential now := (potential_of_last (refill_last b now)).symm
    _ ≤ b.potential now := refill_potential h

theorem take_potential (b : Bucket) (now amount : ℚ) : (b.take amount).potential now = b.potential now - amount := by
  simp only [potential, take]; ring

/-- a refill takes nothing away -/
theorem Valid.le_refill (h : Valid C b now) : b.currentCapacity ≤ (b.refill now).currentCapacity := by
  obtain ⟨t, ht, hle⟩ := h.last
  have hfill : 0 ≤ (now - t) * b.fillRate := mul_nonneg (by linarith) h.rate_nonneg
  simp only [Bucket.refill, ht]
  exact le_min h.le_max (by linarith)

end Bucket

/-! ## Invariant -/

structure Inv (C : Cfg) (s : St) : Prop where
  bucket : s.bucket.Valid C s.now
  /-- tokens are granted to tasks that return -/
  grants : ∀ g ∈ s.grants, s.pc g.task = .granted

theorem init_inv (C : Cfg) (t0 maxRate : ℚ) : Inv C (init C t0 maxRate) :=
  ⟨Bucket.new_valid C t0 maxRate, fun g hg => by simp [init] at hg⟩

theorem Effect.inv {C : Cfg} {s s' : St} {k : ℕ} (h : Inv C s) (hk : s.pc k ≠ .granted) (he : Effect C s k s') :
    Inv C s' := by
  have hold : ∀ p, s'.pc = update s.pc k p → ∀ g ∈ s.grants, s'.pc g.task = .granted := by
    intro p hpc g hg
    have hne : g.task ≠ k := fun e => hk (e ▸ h.grants g hg)
    rw [hpc, update_of_ne hne, h.grants g hg]
  cases he with
  | moved p hp hpc hnow hb hg =>
    exact ⟨by rw [hb, hnow]; exact h.bucket, by rw [hg]; exact hold p hpc⟩
  | refilled p hp hpc hnow hb hg =>
    exact ⟨by rw [hb, hnow]; exact h.bucket.refill, by rw [hg]; exact hold p hpc⟩
  | rateSet value hpc hnow hb hg =>
    exact ⟨by rw [hb, hnow]; exact h.bucket.setMaxRate value, by rw [hg]; exact hold _ hpc⟩
  | granted amount hle hpc hnow hb hg =>
    refine ⟨by rw [hb, hnow]; exact h.bucket.refill.take amount.2 hle, fun g hmem => ?_⟩
    rw [hg, List.mem_append, List.mem_singleton] at hmem
    rcases hmem with hmem | rfl
    · exact hold _ hpc g hmem
    · rw [hpc, update_self]

theorem step_inv {C : Cfg} {s : St} (h : Inv C s) (o : Op) : Inv C (step C s o) := by
  rcases step_effect h.bucket.rate_nonneg o with ⟨d, rfl, hs⟩ | hs | ⟨k, hk, he⟩
  · rw [hs]; exact ⟨h.bucket.later d.2, h.grants⟩
  · rw [hs]; exact h
  · exact he.inv h hk

theorem exec_inv (C : Cfg) (t0 maxRate : ℚ) (ops : List Op) : Inv C (exec C t0 maxRate ops) :=
  run_inv (I := Inv C) (fun _ o h => step_inv h o) (init_inv C t0 maxRate) ops

/-! ## The rate bound -/

/-- the tokens granted, with those that could be -/
def potential (s : St) : ℚ := granted s + s.bucket.potential s.now

theorem Effect.potential {C : Cfg} {s s' : St} {k : ℕ} (h : Inv C s) (he : Effect C s k s') :
    potential s' ≤ potential s := by
  unfold Retries.potential Retries.granted
  cases he with
  | moved p hp hpc hnow hb hg => rw [hg, hb, hnow]
  | refilled p hp hpc hnow hb hg =>
    rw [hg, hb, hnow]
    have := Bucket.refill_potential h.bucket
    linarith
  | rateSet value hpc hnow hb hg =>
    rw [hg, hb, hnow]
    have := Bucket.setMaxRate_potential h.bucket value
    linarith
  | granted amount hle hpc hnow hb hg =>
    rw [hg, hb, hnow, List.map_append, List.sum_append, Bucket.take_potential]
    have := Bucket.refill_potential h.bucket
    simp only [List.map_cons, List.map_nil, List.sum_cons, List.sum_nil]
    linarith

theorem step_potential {C : Cfg} {s : St} (h : Inv C s) (o : Op) :
    potential (step C s o) ≤ potential s + produced s o := by
  have hprod : 0 ≤ produced s o := by
    cases o with
    | tick d => exact mul_nonneg d.2 h.bucket.rate_nonneg
    | _ => exact le_rfl
  rcases step_effect h.bucket.rate_nonneg o with ⟨d, rfl, hs⟩ | hs | ⟨k, hk, he⟩
  · rw [hs]
    have := Bucket.potential_later h.bucket (d : ℚ)
    simp only [potential, produced, granted, this]
    linarith
  · rw [hs]; linarith
  · have := he.potential h
    linarith

/-- two tasks of a new bucket of rate 1 -/
example : (exec defaultMinRate 0 1 [.call 0 (.acquire 1 true), .tick (1 / 2), .call 1 (.acquire 1 false), .tick (1 / 2),
    .timeout 0, .proceed 0]).grants = [⟨0, 1, 1⟩] := by decide +kernel

end AioBotocore.Retries
