/-
The two locks of the async backends, as data, and the rules by which a machine keeps its tasks in step with a lock.

- `Lock`: `asyncio.Lock`. `acquire` takes a free lock nobody waits for without suspending; otherwise the task queues.
  `release` frees the lock and wakes the first waiter, which takes it when it runs: in between `locked()` is false.
  A cancelled waiter leaves the queue and, if the lock is free, wakes the next one. A cancellation is one step (the
  request and its delivery), so the queue holds no cancelled future.
- `FairLock`: `anyio.Lock` (and `trio.Lock`). `release` hands the lock to the first waiter directly; a task suspends
  once after taking a free lock, so it can hold the lock without having run yet.

A machine gives each task a program counter and says with `region` where that counter stands: out of the lock, queued
for it, or inside. `Lock.Guards` ties the counters to the lock. There is one rule for each thing a task can do
(`enter`, `enqueue`, `resume`, `leave`, `abort`, `pass`, `stay`). `Guards.unique` is mutual exclusion, and `Guards.turn`
progress.
-/
import Mathlib.Tactic

namespace Async

/-- where a task stands with respect to a lock -/
inductive Region where
  | out
  | queued
  | inside
deriving DecidableEq, Repr

/-! ## asyncio -/

structure Lock (τ : Type*) where
  holder : Option τ
  waiters : List τ
  /-- the future of the first waiter is set: it takes the lock when it runs -/
  woken : Bool
deriving DecidableEq, Repr

namespace Lock

variable {τ : Type*}

def init : Lock τ := ⟨none, [], false⟩

def locked (l : Lock τ) : Bool := l.holder.isSome

/-- `acquire` takes the lock without suspending -/
def free (l : Lock τ) : Bool := !l.locked && l.waiters.isEmpty

def take (l : Lock τ) (k : τ) : Lock τ := { l with holder := some k }

def enqueue (l : Lock τ) (k : τ) : Lock τ := { l with waiters := l.waiters ++ [k] }

def wakeUpFirst (l : Lock τ) : Lock τ := { l with woken := !l.waiters.isEmpty }

def release (l : Lock τ) : Lock τ := wakeUpFirst { l with holder := none }

/-- waiter `k` has been woken and may run -/
def ready [DecidableEq τ] (l : Lock τ) (k : τ) : Bool := l.woken && l.waiters.head? == some k

/-- the woken waiter `k` runs: it leaves the queue and takes the lock -/
def resume (l : Lock τ) (k : τ) : Lock τ := ⟨some k, l.waiters.tail, false⟩

/-- waiter `k` is cancelled -/
def abort [DecidableEq τ] (l : Lock τ) (k : τ) : Lock τ :=
  let l' : Lock τ := { l with waiters := l.waiters.erase k, woken := l.woken && l.waiters.head? != some k }
  if l.locked then l' else wakeUpFirst l'

@[simp] theorem take_holder (l : Lock τ) (k : τ) : (l.take k).holder = some k := rfl

@[simp] theorem resume_holder (l : Lock τ) (k : τ) : (l.resume k).holder = some k := rfl

@[simp] theorem release_holder (l : Lock τ) : l.release.holder = none := rfl

@[simp] theorem enqueue_holder (l : Lock τ) (k : τ) : (l.enqueue k).holder = l.holder := rfl

theorem abort_holder [DecidableEq τ] (l : Lock τ) (k : τ) : (l.abort k).holder = l.holder := by
  unfold abort; split <;> rfl

theorem abort_waiters [DecidableEq τ] (l : Lock τ) (k : τ) : (l.abort k).waiters = l.waiters.erase k := by
  unfold abort; split <;> rfl

theorem free_iff (l : Lock τ) : l.free = true ↔ l.holder = none ∧ l.waiters = [] := by
  simp [free, locked]

theorem locked_iff (l : Lock τ) : l.locked = true ↔ ∃ k, l.holder = some k := by
  simp [locked, Option.isSome_iff_exists]

theorem ready_iff [DecidableEq τ] (l : Lock τ) (k : τ) : l.ready k = true ↔ l.woken = true ∧ l.waiters.head? = some k := by
  simp [ready]

/-! ## Lock and program counters -/

variable {π : Type*} (region : π → Region)

structure Guards (l : Lock τ) (pc : τ → π) : Prop where
  inside : ∀ k, region (pc k) = .inside ↔ l.holder = some k
  queued : ∀ k, region (pc k) = .queued ↔ k ∈ l.waiters
  nodup : l.waiters.Nodup
  /-- a free lock with waiters has woken the first of them -/
  woken : l.woken = true ↔ l.holder = none ∧ l.waiters ≠ []

variable {region} {l : Lock τ} {pc : τ → π} {k : τ} {v : π}

theorem guards_init (h : ∀ k, region (pc k) = .out) : Guards region (Lock.init : Lock τ) pc := by
  constructor <;> simp [init, h]

/-- **Mutual exclusion** -/
theorem Guards.unique (h : Guards region l pc) {i j : τ} (hi : region (pc i) = .inside)
    (hj : region (pc j) = .inside) : i = j := by
  have h1 := (h.inside i).1 hi
  have h2 := (h.inside j).1 hj
  rw [h1] at h2
  exact Option.some.inj h2

theorem Guards.locked_of_inside (h : Guards region l pc) (hk : region (pc k) = .inside) : l.locked = true := by
  rw [locked_iff]; exact ⟨k, (h.inside k).1 hk⟩

theorem Guards.not_inside_of_unlocked (h : Guards region l pc) (hl : l.holder = none) (i : τ) :
    region (pc i) ≠ .inside := by
  intro hi
  have := (h.inside i).1 hi
  rw [hl] at this; cases this

theorem Guards.free_woken (h : Guards region l pc) (hf : l.free = true) : l.woken = false := by
  obtain ⟨-, h2⟩ := (free_iff l).1 hf
  cases hw : l.woken
  · rfl
  · exact absurd h2 (h.woken.1 hw).2

variable [DecidableEq τ]

theorem Guards.ready_spec (h : Guards region l pc) (hr : l.ready k = true) :
    l.holder = none ∧ ∃ ws, l.waiters = k :: ws ∧ k ∉ ws ∧ ws.Nodup := by
  obtain ⟨hw, hh⟩ := (ready_iff l k).1 hr
  obtain ⟨ws, hws⟩ := List.head?_eq_some_iff.1 hh
  have hn := h.nodup
  rw [hws, List.nodup_cons] at hn
  exact ⟨(h.woken.1 hw).1, ws, hws, hn.1, hn.2⟩

theorem Guards.queued_of_ready (h : Guards region l pc) (hr : l.ready k = true) : region (pc k) = .queued := by
  obtain ⟨-, ws, hws, -⟩ := h.ready_spec hr
  rw [h.queued, hws]; exact List.mem_cons_self

/-- **Progress.** If a task is at the lock, one is inside or has its turn. -/
theorem Guards.turn (h : Guards region l pc) (hk : region (pc k) ≠ .out) :
    ∃ j, region (pc j) = .inside ∨ (l.ready j = true ∧ region (pc j) = .queued) := by
  cases hholder : l.holder with
  | some j => exact ⟨j, .inl ((h.inside j).2 hholder)⟩
  | none =>
    have hmem : k ∈ l.waiters := by
      rw [← h.queued]
      cases hr : region (pc k) with
      | out => exact absurd hr hk
      | queued => rfl
      | inside => exact absurd hr (h.not_inside_of_unlocked hholder k)
    obtain ⟨j, ws, hws⟩ := List.exists_cons_of_ne_nil (List.ne_nil_of_mem hmem)
    have hready : l.ready j = true := by
      rw [ready_iff, h.woken, hws]
      exact ⟨⟨hholder, by simp⟩, rfl⟩
    exact ⟨j, .inr ⟨hready, h.queued_of_ready hready⟩⟩

/-- a task that does not move across the lock -/
theorem Guards.stay (h : Guards region l pc) (hv : region v = region (pc k)) :
    Guards region l (Function.update pc k v) := by
  have hr : ∀ i, region (Function.update pc k v i) = region (pc i) := by
    intro i
    by_cases hi : i = k
    · subst hi; rw [Function.update_self, hv]
    · rw [Function.update_of_ne hi]
  exact ⟨fun i => by rw [hr, h.inside], fun i => by rw [hr, h.queued], h.nodup, h.woken⟩

/-- a task takes the free lock without suspending -/
theorem Guards.enter (h : Guards region l pc) (hf : l.free = true) (hv : region v = .inside) :
    Guards region (l.take k) (Function.update pc k v) := by
  obtain ⟨h1, h2⟩ := (free_iff l).1 hf
  refine ⟨fun i => ?_, fun i => ?_, h.nodup, ?_⟩
  · by_cases hi : i = k
    · subst hi; simp [hv]
    · simp [Function.update_of_ne hi, h.not_inside_of_unlocked h1 i, Ne.symm hi]
  · by_cases hi : i = k
    · subst hi; simp [hv, take, h2]
    · rw [Function.update_of_ne hi]; exact h.queued i
  · simp [take, h.free_woken hf]

/-- a task queues for a lock it cannot take -/
theorem Guards.enqueue (h : Guards region l pc) (hf : l.free = false) (hk : region (pc k) = .out)
    (hv : region v = .queued) : Guards region (l.enqueue k) (Function.update pc k v) := by
  have hkw : k ∉ l.waiters := by rw [← h.queued, hk]; decide
  refine ⟨fun i => ?_, fun i => ?_, ?_, ?_⟩
  · by_cases hi : i = k
    · subst hi
      have := (h.inside i).not.1 (by rw [hk]; decide)
      simp [hv, this]
    · rw [Function.update_of_ne hi]; exact h.inside i
  · by_cases hi : i = k
    · subst hi; simp [hv, Lock.enqueue]
    · rw [Function.update_of_ne hi, h.queued]; simp [Lock.enqueue, hi]
  · simpa [Lock.enqueue, List.nodup_append, h.nodup] using fun a ha (e : a = k) => hkw (e ▸ ha)
  · have hw := h.woken
    cases hh : l.holder with
    | some i => simp_all [Lock.enqueue]
    | none =>
      have : l.waiters ≠ [] := by
        intro hne; rw [(free_iff l).2 ⟨hh, hne⟩] at hf; exact absurd hf (by decide)
      simp_all [Lock.enqueue]

/-- the woken waiter takes the lock -/
theorem Guards.resume (h : Guards region l pc) (hr : l.ready k = true) (hv : region v = .inside) :
    Guards region (l.resume k) (Function.update pc k v) := by
  obtain ⟨hh, ws, hws, hk, hn⟩ := h.ready_spec hr
  refine ⟨fun i => ?_, fun i => ?_, by simpa [Lock.resume, hws] using hn, by simp [Lock.resume]⟩
  · by_cases hi : i = k
    · subst hi; simp [hv]
    · simp [Function.update_of_ne hi, h.not_inside_of_unlocked hh i, Ne.symm hi]
  · by_cases hi : i = k
    · subst hi; simp [hv, Lock.resume, hws, hk]
    · rw [Function.update_of_ne hi, h.queued, hws]; simp [Lock.resume, hws, hi]

/-- the holder releases the lock -/
theorem Guards.leave (h : Guards region l pc) (hk : region (pc k) = .inside) (hv : region v = .out) :
    Guards region l.release (Function.update pc k v) := by
  have hkw : k ∉ l.waiters := by rw [← h.queued, hk]; decide
  refine ⟨fun i => ?_, fun i => ?_, h.nodup, by simp [release, wakeUpFirst]⟩
  · by_cases hi : i = k
    · subst hi; simp [hv]
    · simpa [Function.update_of_ne hi] using fun hin => hi (h.unique hin hk)
  · by_cases hi : i = k
    · subst hi; simpa [hv, release, wakeUpFirst] using hkw
    · rw [Function.update_of_ne hi]; exact h.queued i

/-- a waiter is cancelled -/
theorem Guards.abort (h : Guards region l pc) (hk : region (pc k) = .queued) (hv : region v = .out) :
    Guards region (l.abort k) (Function.update pc k v) := by
  have hkh : l.holder ≠ some k := by
    intro hh; have := (h.inside k).2 hh; rw [hk] at this; cases this
  have hws := abort_waiters l k
  refine ⟨fun i => ?_, fun i => ?_, by rw [hws]; exact h.nodup.erase k, ?_⟩
  · rw [abort_holder]
    by_cases hi : i = k
    · subst hi; simp [hv, hkh]
    · rw [Function.update_of_ne hi]; exact h.inside i
  · rw [hws, h.nodup.mem_erase_iff]
    by_cases hi : i = k
    · subst hi; simp [hv]
    · simp [h.queued, hi]
  · rw [abort_holder, hws]
    unfold Lock.abort
    cases hh : l.holder with
    | some i =>
      have : l.woken = false := by
        cases hw : l.woken
        · rfl
        · have := (h.woken.1 hw).1; rw [hh] at this; cases this
      simp [locked, hh, this]
    | none => simp [locked, hh, wakeUpFirst]

/-- a task that has just taken the lock leaves it in the same step -/
theorem Guards.pass (h : Guards region l pc) (hr : l.ready k = true) (hv : region v = .out)
    {w : π} (hw : region w = .inside) : Guards region (l.resume k).release (Function.update pc k v) := by
  have h1 := (h.resume hr hw).leave (k := k) (v := v) (by rw [Function.update_self, hw]) hv
  rwa [Function.update_idem] at h1

end Lock

/-! ## anyio -/

structure FairLock (τ : Type*) where
  holder : Option τ
  waiters : List τ
deriving DecidableEq, Repr

namespace FairLock

variable {τ : Type*}

def init : FairLock τ := ⟨none, []⟩

/-- `acquire` up to its suspension: the task takes a free lock, or queues -/
def acquire (l : FairLock τ) (k : τ) : FairLock τ :=
  match l.holder with
  | none => { l with holder := some k }
  | some _ => { l with waiters := l.waiters ++ [k] }

/-- the lock passes to the first waiter -/
def release (l : FairLock τ) : FairLock τ := ⟨l.waiters.head?, l.waiters.tail⟩

/-- a task suspended in `acquire` is cancelled: it gives the lock back if it had been handed to it -/
def abort [DecidableEq τ] (l : FairLock τ) (k : τ) : FairLock τ :=
  if l.holder = some k then l.release else { l with waiters := l.waiters.erase k }

/-- the tasks in the order in which they get the lock, its holder first -/
def queue (l : FairLock τ) : List τ := l.holder.toList ++ l.waiters

/-- nobody has the lock or waits for it -/
theorem eq_init {l : FairLock τ} (h : l.queue = []) : l = init := by
  obtain ⟨holder, waiters⟩ := l
  cases holder with
  | none => exact congrArg (FairLock.mk none) h
  | some j => cases h

theorem release_queue (l : FairLock τ) : l.release.queue = l.waiters := by
  unfold queue release
  cases l.waiters <;> rfl

/-- the others keep their places -/
theorem abort_queue [DecidableEq τ] (l : FairLock τ) (k : τ) : (l.abort k).queue = l.queue.erase k := by
  unfold abort
  split_ifs with h
  · rw [release_queue]; simp [queue, h]
  · cases hh : l.holder with
    | none => simp [queue, hh]
    | some j =>
      have hjk : j ≠ k := by rintro rfl; exact h hh
      simp [queue, hh, hjk]

/-! ### Lock and program counters -/

variable {π : Type*} (region : π → Region)

structure Guards (l : FairLock τ) (pc : τ → π) : Prop where
  busy : ∀ k, region (pc k) ≠ .out ↔ l.holder = some k ∨ k ∈ l.waiters
  waits : ∀ k ∈ l.waiters, region (pc k) = .queued
  nodup : l.waiters.Nodup
  holder_out : ∀ k, l.holder = some k → k ∉ l.waiters
  /-- nobody waits for a free lock -/
  idle : l.holder = none → l.waiters = []

variable {region} {l : FairLock τ} {pc : τ → π} {k : τ} {v : π}

theorem guards_init (h : ∀ k, region (pc k) = .out) : Guards region (FairLock.init : FairLock τ) pc := by
  constructor <;> simp [init, h]

theorem Guards.queue_nodup (h : Guards region l pc) : l.queue.Nodup := by
  unfold queue
  cases hh : l.holder with
  | none => exact h.nodup
  | some j => exact List.nodup_cons.2 ⟨h.holder_out j hh, h.nodup⟩

theorem Guards.holds (h : Guards region l pc) (hk : region (pc k) = .inside) : l.holder = some k := by
  rcases (h.busy k).1 (by rw [hk]; decide) with h1 | h1
  · exact h1
  · have := h.waits k h1; rw [hk] at this; cases this

/-- **Mutual exclusion** -/
theorem Guards.unique (h : Guards region l pc) {i j : τ} (hi : region (pc i) = .inside)
    (hj : region (pc j) = .inside) : i = j := by
  have h1 := h.holds hi
  rw [h.holds hj] at h1
  exact (Option.some.inj h1).symm

/-- only the task holding the lock can be let in, and then nobody is inside -/
theorem Guards.not_inside (h : Guards region l pc) (hk : l.holder = some k) (hq : region (pc k) = .queued) (i : τ) :
    region (pc i) ≠ .inside := by
  intro hi
  have := h.holds hi
  rw [hk] at this
  cases this
  rw [hq] at hi; cases hi

variable [DecidableEq τ]

/-- a task that does not move across the lock, or that is let in by the lock it holds -/
theorem Guards.stay (h : Guards region l pc) (hv : region v ≠ .out ↔ region (pc k) ≠ .out)
    (hq : k ∈ l.waiters → region v = .queued) : Guards region l (Function.update pc k v) := by
  refine ⟨fun i => ?_, fun i hi => ?_, h.nodup, h.holder_out, h.idle⟩
  · by_cases hik : i = k
    · subst hik; rw [Function.update_self, hv, h.busy]
    · rw [Function.update_of_ne hik, h.busy]
  · by_cases hik : i = k
    · subst hik; rw [Function.update_self, hq hi]
    · rw [Function.update_of_ne hik, h.waits i hi]

/-- the task the lock was handed to runs -/
theorem Guards.enter (h : Guards region l pc) (hk : l.holder = some k) (hv : region v = .inside) :
    Guards region l (Function.update pc k v) := by
  refine h.stay ?_ fun hw => absurd hw (h.holder_out k hk)
  simpa [hv] using (h.busy k).2 (Or.inl hk)

/-- a task asks for the lock -/
theorem Guards.request (h : Guards region l pc) (hk : region (pc k) = .out) (hv : region v = .queued) :
    Guards region (l.acquire k) (Function.update pc k v) := by
  have hn : ¬ (l.holder = some k ∨ k ∈ l.waiters) := by rw [← h.busy]; simp [hk]
  rw [not_or] at hn
  cases hh : l.holder with
  | none =>
    have hw := h.idle hh
    refine ⟨fun i => ?_, fun i hi => ?_, ?_, ?_, ?_⟩
    · by_cases hik : i = k
      · subst hik; simp [hv, acquire, hh]
      · rw [Function.update_of_ne hik, h.busy]; simp [acquire, hh, hw, Ne.symm hik]
    · simp [acquire, hh, hw] at hi
    · simp [acquire, hh, hw]
    · simp [acquire, hh, hw]
    · simp [acquire, hh]
  | some j =>
    have hjk : j ≠ k := fun e => hn.1 (by rw [hh, e])
    refine ⟨fun i => ?_, fun i hi => ?_, ?_, ?_, ?_⟩
    · by_cases hik : i = k
      · subst hik; simp [hv, acquire, hh]
      · rw [Function.update_of_ne hik, h.busy]; simp [acquire, hh, hik]
    · by_cases hik : i = k
      · subst hik; rw [Function.update_self, hv]
      · rw [Function.update_of_ne hik]
        apply h.waits i
        simpa [acquire, hh, hik] using hi
    · simpa [acquire, hh, List.nodup_append, h.nodup] using fun a ha (e : a = k) => hn.2 (e ▸ ha)
    · intro i hi
      have hij : j = i := by simpa [acquire, hh] using hi
      subst hij
      simpa [acquire, hh, hjk] using h.holder_out j hh
    · simp [acquire, hh]

/-- the holder releases the lock -/
theorem Guards.leave (h : Guards region l pc) (hk : l.holder = some k) (hv : region v = .out) :
    Guards region l.release (Function.update pc k v) := by
  have hkw := h.holder_out k hk
  have hn := h.nodup
  refine ⟨fun i => ?_, fun i hi => ?_, ?_, fun i hi => ?_, fun hi => ?_⟩
  · by_cases hik : i = k
    · subst hik
      cases hw : l.waiters with
      | nil => simp [hv, release, hw]
      | cons w ws => rw [hw] at hkw; simp at hkw; simp [hv, release, hw, hkw, Ne.symm hkw.1]
    · rw [Function.update_of_ne hik, h.busy, hk]
      cases hw : l.waiters with
      | nil => simp [release, hw, Ne.symm hik]
      | cons w ws => simp [release, hw, Ne.symm hik, eq_comm]
  · have him : i ∈ l.waiters := List.mem_of_mem_tail hi
    have hik : i ≠ k := fun e => hkw (e ▸ him)
    rw [Function.update_of_ne hik]; exact h.waits i him
  · exact hn.tail
  · simp only [release] at hi ⊢
    obtain ⟨ws, hws⟩ := List.head?_eq_some_iff.1 hi
    rw [hws, List.nodup_cons] at hn
    simpa [hws] using hn.1
  · simp only [release, List.head?_eq_none_iff] at hi ⊢
    rw [hi]; rfl

/-- a task suspended at the lock is cancelled -/
theorem Guards.abort (h : Guards region l pc) (hk : region (pc k) = .queued) (hv : region v = .out) :
    Guards region (l.abort k) (Function.update pc k v) := by
  unfold FairLock.abort
  split_ifs with hh
  · exact h.leave hh hv
  · have hkw : k ∈ l.waiters := ((h.busy k).1 (by rw [hk]; decide)).resolve_left hh
    refine ⟨fun i => ?_, fun i hi => ?_, h.nodup.erase k, fun i hi => ?_, fun hi => ?_⟩
    · simp only [h.nodup.mem_erase_iff]
      by_cases hik : i = k
      · subst hik; simp [hv, hh]
      · rw [Function.update_of_ne hik, h.busy]; simp [hik]
    · rw [h.nodup.mem_erase_iff] at hi
      rw [Function.update_of_ne hi.1]; exact h.waits i hi.2
    · exact fun hm => h.holder_out i hi (List.mem_of_mem_erase hm)
    · have := h.idle hi; rw [this] at hkw; cases hkw

end FairLock

end Async
