/-
The tasks of a token bucket and its condition: who holds the lock, who waits for a notification, and what each operation
does to them.

- `step_move`: everything one operation can do.
- `run_tasks`: the lock and the waiters of the condition are those that the program counters tell, and a task is granted
  its tokens at most once.
- `step_at`, `call_at`: a task works on the call it has begun until that returns or raises.
- `step_rate`: the steps that change the fill rate.
- `exists_turn`: tasks at the lock do not wait in vain.
-/
import Mathlib.Tactic
import AioBotocore.Retries.Bucket

namespace AioBotocore.Retries

open Async Function

/-! ## What one operation can do -/

def Pc.isWaiting : Pc → Bool
  | .waiting _ _ => true
  | _ => false

def Pc.acquires : Pc → Bool
  | .entering (.acquire _ _) | .waiting _ _ | .reacquiring _ _ _ | .reacquired _ _ => true
  | _ => false

/-- task `k` begins its call `c`, or goes on with it once it has the lock -/
def Runs (s : St) (o : Op) (k : ℕ) (c : Call) : Prop :=
  (o = .call k c ∧ s.pc k = .idle) ∨ (o = .resume k ∧ s.pc k = .entering c)

/-- task `k` comes to the loop of `_acquire`, or to its first test -/
def Tries (s : St) (o : Op) (k : ℕ) (amount : ℚ≥0) : Prop :=
  (∃ block, Runs s o k (.acquire amount block)) ∨ (o = .proceed k ∧ s.pc k = .reacquired amount false)

structure Kept (s s' : St) : Prop where
  now : s'.now = s.now
  bucket : s'.bucket = s.bucket
  condWaiters : s'.condWaiters = s.condWaiters
  grants : s'.grants = s.grants

inductive Move (C : Cfg) (s : St) (o : Op) (s' : St) : Prop
  | skip (h : s' = s)
  | tick (d : ℚ≥0) (ho : o = .tick d) (h : s' = { s with now := s.now + d })
  /-- a call finds the lock taken -/
  | queues (k : ℕ) (c : Call) (ho : o = .call k c) (hk : s.pc k = .idle) (hpc : s'.pc = update s.pc k (.entering c))
      (hkept : Kept s s')
  /-- a waiter is notified, timed out or cancelled -/
  | leaves (k : ℕ) (amount : ℚ≥0) (deadline : ℚ) (cancelled : Bool) (p : Pc) (hk : s.pc k = .waiting amount deadline)
      (hp : p = .reacquired amount cancelled ∨ ∃ timer, p = .reacquiring amount timer cancelled)
      (ho : (o = .wake k ∧ (k, true) ∈ s.condWaiters ∧ cancelled = false) ∨
        (o = .timeout k ∧ deadline ≤ s.now ∧ cancelled = false) ∨ o = .cancel k)
      (hpc : s'.pc = update s.pc k p) (hnow : s'.now = s.now) (hb : s'.bucket = s.bucket)
      (hw : s'.condWaiters = s.condWaiters.filter fun w => w.1 ≠ k) (hg : s'.grants = s.grants)
  /-- a task that was a waiter queues for the lock again, or takes it -/
  | returns (k : ℕ) (amount : ℚ≥0) (timer : Option ℚ) (cancelled : Bool) (p : Pc)
      (hk : s.pc k = .reacquiring amount timer cancelled)
      (hp : p = .reacquired amount cancelled ∨ ∃ timer', p = .reacquiring amount timer' cancelled)
      (hpc : s'.pc = update s.pc k p) (hkept : Kept s s')
  | cancels (k : ℕ) (p : Pc) (hk : s.pc k ≠ .idle ∧ s.pc k ≠ .granted ∧ (s.pc k).isWaiting = false)
      (hp : p = .cancelled ∨ ((s.pc k).acquires = true ∧
        ((∃ amount, p = .reacquired amount true) ∨ ∃ amount timer, p = .reacquiring amount timer true)))
      (ho : o = .cancel k ∨ ∃ amount, s.pc k = .reacquired amount true) (hpc : s'.pc = update s.pc k p)
      (hkept : Kept s s')
  | sets (k : ℕ) (value : ℚ) (hfrom : Runs s o k (.setMaxRate value)) (hpc : s'.pc = update s.pc k .rateSet)
      (hnow : s'.now = s.now) (hb : s'.bucket = s.bucket.setMaxRate C s.now value)
      (hw : s'.condWaiters = notify s.condWaiters) (hg : s'.grants = s.grants)
  | sleeps (k : ℕ) (amount : ℚ≥0) (sleepAmount : ℚ) (hfrom : Tries s o k amount)
      (hsleep : (s.bucket.refill s.now).sleepAmount amount = some sleepAmount) (hpos : 0 < sleepAmount)
      (hpc : s'.pc = update s.pc k (.waiting amount (s.now + sleepAmount))) (hnow : s'.now = s.now)
      (hb : s'.bucket = s.bucket.refill s.now) (hw : s'.condWaiters = s.condWaiters ++ [(k, false)])
      (hg : s'.grants = s.grants)
  | grants (k : ℕ) (amount : ℚ≥0) (hfrom : Tries s o k amount) (hpc : s'.pc = update s.pc k .granted)
      (hnow : s'.now = s.now) (hb : s'.bucket = (s.bucket.refill s.now).take amount)
      (hw : s'.condWaiters = s.condWaiters) (hg : s'.grants = s.grants ++ [⟨k, amount, s.now⟩])
  /-- `CapacityNotAvailableError` of a call that does not block -/
  | refused (k : ℕ) (amount : ℚ≥0) (hfrom : Runs s o k (.acquire amount false))
      (hpc : s'.pc = update s.pc k .capacityNotAvailable) (hnow : s'.now = s.now)
      (hb : s'.bucket = s.bucket.refill s.now) (hw : s'.condWaiters = s.condWaiters) (hg : s'.grants = s.grants)
  | zeroDivision (k : ℕ) (amount : ℚ≥0) (hfrom : Tries s o k amount)
      (hsleep : (s.bucket.refill s.now).sleepAmount amount = none)
      (hpc : s'.pc = update s.pc k .zeroDivisionError) (hnow : s'.now = s.now)
      (hb : s'.bucket = s.bucket.refill s.now) (hw : s'.condWaiters = s.condWaiters) (hg : s'.grants = s.grants)

section Moves

variable {C : Cfg} {s : St} {o : Op} {k : ℕ} {amount : ℚ≥0}

theorem acquireLoop_move (hfrom : Tries s o k amount) (l : Lock ℕ) :
    Move C s o (acquireLoop (refill { s with lock := l }) k amount) := by
  unfold acquireLoop
  cases hsleep : (s.bucket.refill s.now).sleepAmount amount with
  | none =>
    simp only [refill, hsleep]
    exact .zeroDivision k amount hfrom hsleep rfl rfl rfl rfl rfl
  | some sleepAmount =>
    simp only [refill, hsleep]
    split_ifs with hpos
    · exact .sleeps k amount sleepAmount hfrom hsleep hpos rfl rfl rfl rfl rfl
    · exact .grants k amount hfrom rfl rfl rfl rfl rfl

theorem locked_move {c : Call} (hfrom : Runs s o k c) (l : Lock ℕ) : Move C s o (locked C { s with lock := l } k c) := by
  cases c with
  | setMaxRate value => exact .sets k value hfrom rfl rfl rfl rfl rfl
  | acquire amount block =>
    simp only [locked, acquire]
    split_ifs with hle hblock
    · exact .grants k amount (.inl ⟨block, hfrom⟩) rfl rfl rfl rfl rfl
    · have hfalse : block = false := by simpa using hblock
      exact .refused k amount (hfalse ▸ hfrom) rfl rfl rfl rfl rfl
    · exact acquireLoop_move (.inl ⟨block, hfrom⟩) l

/-- where `reenter` leaves a task -/
theorem reenter_pc (s : St) (k : ℕ) (amount : ℚ≥0) (timer : Option ℚ) (cancelled : Bool) :
    ∃ p l, (p = .reacquired amount cancelled ∨ ∃ timer, p = .reacquiring amount timer cancelled) ∧
      reenter s k amount timer cancelled = { s with lock := l, pc := update s.pc k p } := by
  unfold reenter
  split_ifs
  · exact ⟨_, _, .inl rfl, rfl⟩
  · exact ⟨_, _, .inr ⟨timer, rfl⟩, rfl⟩

theorem step_move (C : Cfg) (s : St) (o : Op) : Move C s o (step C s o) := by
  cases o with
  | tick d => exact .tick d rfl rfl
  | call k c =>
    simp only [step]
    split
    · rename_i hk
      unfold enter
      split_ifs
      · exact locked_move (.inl ⟨rfl, hk⟩) _
      · exact .queues k c rfl hk rfl ⟨rfl, rfl, rfl, rfl⟩
    · exact .skip rfl
  | resume k =>
    simp only [step]
    split_ifs
    · split
      · rename_i c hk
        exact locked_move (.inr ⟨rfl, hk⟩) _
      · rename_i amount timer cancelled hk
        exact .returns k amount timer cancelled _ hk (.inl rfl) rfl ⟨rfl, rfl, rfl, rfl⟩
      · exact .skip rfl
    · exact .skip rfl
  | wake k =>
    simp only [step]
    split
    · rename_i amount deadline hk
      split_ifs with hnotified
      · obtain ⟨p, l, hp, hs⟩ := reenter_pc (leaveCond s k) k amount (some deadline) false
        rw [hs]
        exact .leaves k amount deadline false p hk hp (.inl ⟨rfl, hnotified, rfl⟩) rfl rfl rfl rfl rfl
      · exact .skip rfl
    · exact .skip rfl
  | timeout k =>
    simp only [step]
    split
    · rename_i amount deadline hk
      split_ifs with hdue
      · obtain ⟨p, l, hp, hs⟩ := reenter_pc (leaveCond s k) k amount none false
        rw [hs]
        exact .leaves k amount deadline false p hk hp (.inr (.inl ⟨rfl, hdue, rfl⟩)) rfl rfl rfl rfl rfl
      · exact .skip rfl
    · rename_i amount deadline cancelled hk
      split_ifs
      · obtain ⟨p, l, hp, hs⟩ := reenter_pc (leaveQueue s k) k amount none cancelled
        rw [hs]
        exact .returns k amount _ cancelled p hk hp rfl ⟨rfl, rfl, rfl, rfl⟩
      · exact .skip rfl
    · exact .skip rfl
  | proceed k =>
    simp only [step]
    split
    · rename_i amount cancelled hk
      split_ifs with hcancelled
      · subst hcancelled
        exact .cancels k _ (by simp [hk, Pc.isWaiting]) (.inl rfl) (.inr ⟨amount, hk⟩) rfl ⟨rfl, rfl, rfl, rfl⟩
      · have hfalse : cancelled = false := by simpa using hcancelled
        subst hfalse
        exact acquireLoop_move (.inr ⟨rfl, hk⟩) s.lock
    · exact .skip rfl
  | cancel k =>
    simp only [step]
    split
    · rename_i c hk
      exact .cancels k _ (by simp [hk, Pc.isWaiting]) (.inl rfl) (.inl rfl) rfl ⟨rfl, rfl, rfl, rfl⟩
    · rename_i amount deadline hk
      obtain ⟨p, l, hp, hs⟩ := reenter_pc (leaveCond s k) k amount (some deadline) true
      rw [hs]
      exact .leaves k amount deadline true p hk hp (.inr (.inr rfl)) rfl rfl rfl rfl rfl
    · rename_i amount timer cancelled hk
      obtain ⟨p, l, hp, hs⟩ := reenter_pc (leaveQueue s k) k amount timer true
      rw [hs]
      refine .cancels k p (by simp [hk, Pc.isWaiting]) ?_ (.inl rfl) rfl ⟨rfl, rfl, rfl, rfl⟩
      rcases hp with hp | ⟨t, hp⟩
      · exact .inr ⟨by rw [hk]; rfl, .inl ⟨amount, hp⟩⟩
      · exact .inr ⟨by rw [hk]; rfl, .inr ⟨amount, t, hp⟩⟩
    · rename_i amount cancelled hk
      exact .cancels k _ (by simp [hk, Pc.isWaiting]) (.inr ⟨by rw [hk]; rfl, .inl ⟨amount, rfl⟩⟩) (.inl rfl) rfl
        ⟨rfl, rfl, rfl, rfl⟩
    · exact .skip rfl

end Moves

/-! ## The lock -/

section Guards

variable {C : Cfg} {s : St} {k : ℕ}

theorem acquireLoop_lock (s : St) (k : ℕ) (amount : ℚ≥0) :
    ∃ p, region p = .out ∧ (acquireLoop s k amount).pc = update s.pc k p ∧
      (acquireLoop s k amount).lock = s.lock.release := by
  unfold acquireLoop
  split
  · exact ⟨_, rfl, rfl, rfl⟩
  · split_ifs
    · exact ⟨_, rfl, rfl, rfl⟩
    · exact ⟨_, rfl, rfl, rfl⟩

/-- a call that has the lock gives it back in the same step -/
theorem locked_lock (C : Cfg) (s : St) (k : ℕ) (c : Call) :
    ∃ p, region p = .out ∧ (locked C s k c).pc = update s.pc k p ∧ (locked C s k c).lock = s.lock.release := by
  cases c with
  | setMaxRate value => exact ⟨_, rfl, rfl, rfl⟩
  | acquire amount block =>
    simp only [locked, acquire]
    split_ifs
    · exact ⟨_, rfl, rfl, rfl⟩
    · exact ⟨_, rfl, rfl, rfl⟩
    · exact acquireLoop_lock (refill s) k amount

/-- a task out of the lock asks for it again -/
theorem reenter_guards (h : Lock.Guards region s.lock s.pc) (hk : region (s.pc k) = .out) (amount : ℚ≥0)
    (timer : Option ℚ) (cancelled : Bool) :
    Lock.Guards region (reenter s k amount timer cancelled).lock (reenter s k amount timer cancelled).pc := by
  unfold reenter
  by_cases hfree : s.lock.free = true
  · rw [if_pos hfree]
    exact h.enter hfree rfl
  · rw [if_neg hfree]
    exact h.enqueue (by simpa using hfree) hk rfl

/-- a task in the queue leaves it and asks again -/
theorem requeue_guards (h : Lock.Guards region s.lock s.pc) (hk : region (s.pc k) = .queued) (amount : ℚ≥0)
    (timer : Option ℚ) (cancelled : Bool) :
    Lock.Guards region (reenter (leaveQueue s k) k amount timer cancelled).lock
      (reenter (leaveQueue s k) k amount timer cancelled).pc := by
  have hout : Lock.Guards region (s.lock.abort k) (update s.pc k .idle) := h.abort hk rfl
  have hagain := reenter_guards (s := { s with lock := s.lock.abort k, pc := update s.pc k .idle }) (k := k) hout
    (by simp [region]) amount timer cancelled
  unfold reenter leaveQueue
  unfold reenter at hagain
  simp only at hagain ⊢
  by_cases hfree : (s.lock.abort k).free = true
  · rw [if_pos hfree] at hagain ⊢
    simpa only [goto, update_idem] using hagain
  · rw [if_neg hfree] at hagain ⊢
    simpa only [goto, update_idem] using hagain

/-- a task leaves the waiters of the condition -/
theorem leaveCond_guards (h : Lock.Guards region s.lock s.pc) {amount : ℚ≥0} {deadline : ℚ}
    (hk : s.pc k = .waiting amount deadline) (timer : Option ℚ) (cancelled : Bool) :
    Lock.Guards region (reenter (leaveCond s k) k amount timer cancelled).lock
      (reenter (leaveCond s k) k amount timer cancelled).pc := by
  have hout : region (s.pc k) = .out := by
    rw [hk]
    rfl
  exact reenter_guards (s := leaveCond s k) h hout amount timer cancelled

theorem step_guards (C : Cfg) (h : Lock.Guards region s.lock s.pc) (o : Op) :
    Lock.Guards region (step C s o).lock (step C s o).pc := by
  cases o with
  | tick d => exact h
  | call k c =>
    simp only [step]
    split
    · rename_i hk
      unfold enter
      split_ifs with hfree
      · obtain ⟨p, hp, hpc, hlock⟩ := locked_lock C { s with lock := s.lock.take k } k c
        have hin : Lock.Guards region (s.lock.take k) (update s.pc k (.reacquired 0 false)) := h.enter hfree rfl
        have hout := hin.leave (k := k) (v := p) (by simp [region]) hp
        rw [hpc, hlock]
        simpa only [update_idem] using hout
      · exact h.enqueue (by simpa using hfree) (by rw [hk]; rfl) rfl
    · exact h
  | resume k =>
    simp only [step]
    split_ifs with hready
    · split
      · rename_i c hk
        obtain ⟨p, hp, hpc, hlock⟩ := locked_lock C { s with lock := s.lock.resume k } k c
        rw [hpc, hlock]
        exact h.pass hready hp (w := .reacquired 0 false) rfl
      · exact h.resume hready rfl
      · exact h
    · exact h
  | wake k =>
    simp only [step]
    split
    · rename_i amount deadline hk
      split_ifs
      · exact leaveCond_guards h hk _ _
      · exact h
    · exact h
  | timeout k =>
    simp only [step]
    split
    · rename_i amount deadline hk
      split_ifs
      · exact leaveCond_guards h hk _ _
      · exact h
    · rename_i amount deadline cancelled hk
      split_ifs
      · exact requeue_guards h (by rw [hk]; rfl) amount _ _
      · exact h
    · exact h
  | proceed k =>
    simp only [step]
    split
    · rename_i amount cancelled hk
      have hin : region (s.pc k) = .inside := by rw [hk]; rfl
      split_ifs
      · exact h.leave hin rfl
      · obtain ⟨p, hp, hpc, hlock⟩ := acquireLoop_lock (refill s) k amount
        rw [hpc, hlock]
        exact h.leave hin hp
    · exact h
  | cancel k =>
    simp only [step]
    split
    · rename_i c hk
      exact h.abort (by rw [hk]; rfl) rfl
    · rename_i amount deadline hk
      exact leaveCond_guards h hk _ _
    · rename_i amount timer cancelled hk
      exact requeue_guards h (by rw [hk]; rfl) amount _ _
    · rename_i amount cancelled hk
      exact h.stay (by rw [hk]; rfl)
    · exact h

end Guards

/-! ## Waiters and grants -/

/-- what task `k` was granted -/
def grantsOf (s : St) (k : ℕ) : List Grant := s.grants.filter fun g => g.task = k

structure Tasks (s : St) : Prop where
  guards : Lock.Guards region s.lock s.pc
  nodup : (s.condWaiters.map Prod.fst).Nodup
  waiting : ∀ k, k ∈ s.condWaiters.map Prod.fst ↔ (s.pc k).isWaiting = true
  none : ∀ k, s.pc k ≠ .granted → grantsOf s k = []
  one : ∀ k, s.pc k = .granted → ∃ g, grantsOf s k = [g]

theorem init_tasks (C : Cfg) (t0 maxRate : ℚ) : Tasks (init C t0 maxRate) where
  guards := Lock.guards_init fun _ => rfl
  nodup := List.nodup_nil
  waiting k := by simp [init, Pc.isWaiting]
  none k _ := rfl
  one k h := by simp [init] at h

theorem notify_tasks (ws : List (ℕ × Bool)) : (notify ws).map Prod.fst = ws.map Prod.fst := by
  induction ws with
  | nil => rfl
  | cons w ws ih =>
    obtain ⟨k, notified⟩ := w
    cases notified with
    | false => rfl
    | true => rw [notify, List.map_cons, List.map_cons, ih]

/-- a task that does not wait, before or after -/
theorem Tasks.waiting_of_other {s s' : St} (h : Tasks s) {k : ℕ} {p : Pc} (hk : (s.pc k).isWaiting = false)
    (hp : p.isWaiting = false) (hpc : s'.pc = update s.pc k p)
    (hw : s'.condWaiters.map Prod.fst = s.condWaiters.map Prod.fst) :
    ∀ j, j ∈ s'.condWaiters.map Prod.fst ↔ (s'.pc j).isWaiting = true := by
  intro j
  rw [hw, h.waiting, hpc]
  by_cases hj : j = k
  · rw [hj, update_self, hk, hp]
  · rw [update_of_ne hj]

/-- a task that is not granted anything -/
theorem Tasks.grants_of_other {s s' : St} (h : Tasks s) {k : ℕ} {p : Pc} (hk : s.pc k ≠ .granted) (hp : p ≠ .granted)
    (hpc : s'.pc = update s.pc k p) (hg : s'.grants = s.grants) :
    (∀ j, s'.pc j ≠ .granted → grantsOf s' j = []) ∧ ∀ j, s'.pc j = .granted → ∃ g, grantsOf s' j = [g] := by
  have hsame : ∀ j, grantsOf s' j = grantsOf s j := fun j => by rw [grantsOf, grantsOf, hg]
  have hiff : ∀ j, s'.pc j = .granted ↔ s.pc j = .granted := by
    intro j
    rw [hpc]
    by_cases hj : j = k
    · simp [hj, hk, hp]
    · rw [update_of_ne hj]
  exact ⟨fun j hj => by rw [hsame, h.none j fun hj' => hj ((hiff j).2 hj')],
    fun j hj => by rw [hsame]; exact h.one j ((hiff j).1 hj)⟩

theorem tries_pc {s : St} {o : Op} {k : ℕ} {amount : ℚ≥0} (h : Tries s o k amount) :
    s.pc k ≠ .granted ∧ (s.pc k).isWaiting = false := by
  rcases h with ⟨block, ⟨-, hk⟩ | ⟨-, hk⟩⟩ | ⟨-, hk⟩ <;> rw [hk] <;> exact ⟨by simp, rfl⟩

theorem runs_pc {s : St} {o : Op} {k : ℕ} {c : Call} (h : Runs s o k c) :
    s.pc k ≠ .granted ∧ (s.pc k).isWaiting = false := by
  rcases h with ⟨-, hk⟩ | ⟨-, hk⟩ <;> rw [hk] <;> exact ⟨by simp, rfl⟩

/-- a task that leaves the condition, or queues for the lock again -/
theorem back_spec {p : Pc} {amount : ℚ≥0} {cancelled : Bool}
    (hp : p = .reacquired amount cancelled ∨ ∃ timer, p = .reacquiring amount timer cancelled) :
    p ≠ .granted ∧ p ≠ .rateSet ∧ p.isWaiting = false := by
  rcases hp with rfl | ⟨timer, rfl⟩
  · exact ⟨by simp, by simp, rfl⟩
  · exact ⟨by simp, by simp, rfl⟩

/-- a task that is cancelled, at once or at the end of `condition.wait()` -/
theorem cancels_spec {p q : Pc} (hp : p = .cancelled ∨ (q.acquires = true ∧
    ((∃ amount, p = .reacquired amount true) ∨ ∃ amount timer, p = .reacquiring amount timer true))) :
    p ≠ .granted ∧ p ≠ .rateSet ∧ p.isWaiting = false := by
  rcases hp with rfl | ⟨-, ⟨amount, hp⟩ | ⟨amount, timer, hp⟩⟩
  · exact ⟨by simp, by simp, rfl⟩
  · exact back_spec (.inl hp)
  · exact back_spec (.inr ⟨timer, hp⟩)

section Steps

variable {C : Cfg} {s s' : St} {k : ℕ}

/-- a task that neither waits nor is granted anything -/
theorem Tasks.goOn (h : Tasks s) (hguards : Lock.Guards region s'.lock s'.pc) {p : Pc}
    (hk : s.pc k ≠ .granted ∧ (s.pc k).isWaiting = false) (hp : p ≠ .granted ∧ p.isWaiting = false)
    (hpc : s'.pc = update s.pc k p) (hw : s'.condWaiters.map Prod.fst = s.condWaiters.map Prod.fst)
    (hg : s'.grants = s.grants) : Tasks s' := by
  obtain ⟨hnone, hone⟩ := h.grants_of_other hk.1 hp.1 hpc hg
  exact ⟨hguards, by rw [hw]; exact h.nodup, h.waiting_of_other hk.2 hp.2 hpc hw, hnone, hone⟩

/-- a waiter leaves the condition -/
theorem Tasks.leaves (h : Tasks s) (hguards : Lock.Guards region s'.lock s'.pc) {p : Pc} (hk : s.pc k ≠ .granted)
    (hp : p ≠ .granted ∧ p.isWaiting = false) (hpc : s'.pc = update s.pc k p)
    (hw : s'.condWaiters = s.condWaiters.filter fun w => w.1 ≠ k) (hg : s'.grants = s.grants) : Tasks s' := by
  obtain ⟨hnone, hone⟩ := h.grants_of_other hk hp.1 hpc hg
  have hmap : s'.condWaiters.map Prod.fst = (s.condWaiters.map Prod.fst).filter fun j => j ≠ k := by
    rw [hw, List.filter_map]
    rfl
  refine ⟨hguards, by rw [hmap]; exact h.nodup.filter _, ?_, hnone, hone⟩
  intro j
  rw [hmap, List.mem_filter, h.waiting, hpc]
  by_cases hj : j = k
  · simp [hj, hp.2]
  · simp [hj]

/-- a task begins to wait -/
theorem Tasks.sleeps (h : Tasks s) (hguards : Lock.Guards region s'.lock s'.pc) {amount : ℚ≥0} {deadline : ℚ}
    (hk : s.pc k ≠ .granted ∧ (s.pc k).isWaiting = false) (hpc : s'.pc = update s.pc k (.waiting amount deadline))
    (hw : s'.condWaiters = s.condWaiters ++ [(k, false)]) (hg : s'.grants = s.grants) : Tasks s' := by
  obtain ⟨hnone, hone⟩ := h.grants_of_other hk.1 (by simp) hpc hg
  have hnew : k ∉ s.condWaiters.map Prod.fst := by
    rw [h.waiting, hk.2]
    simp
  have hmap : s'.condWaiters.map Prod.fst = s.condWaiters.map Prod.fst ++ [k] := by
    rw [hw, List.map_append]
    rfl
  refine ⟨hguards, ?_, ?_, hnone, hone⟩
  · rw [hmap, List.nodup_append]
    refine ⟨h.nodup, List.nodup_singleton k, fun a ha b hb heq => ?_⟩
    rw [List.mem_singleton] at hb
    exact hnew (hb ▸ heq ▸ ha)
  · intro j
    rw [hmap, List.mem_append, List.mem_singleton, h.waiting, hpc]
    by_cases hj : j = k
    · simp [hj, Pc.isWaiting]
    · simp [hj]

/-- a task is granted its tokens, and has been granted none before -/
theorem Tasks.grants (h : Tasks s) (hguards : Lock.Guards region s'.lock s'.pc) {g : Grant} (hgk : g.task = k)
    (hk : s.pc k ≠ .granted ∧ (s.pc k).isWaiting = false) (hpc : s'.pc = update s.pc k .granted)
    (hw : s'.condWaiters = s.condWaiters) (hg : s'.grants = s.grants ++ [g]) : Tasks s' := by
  have hgrants : ∀ j, grantsOf s' j = grantsOf s j ++ if j = k then [g] else [] := by
    intro j
    rw [grantsOf, hg, List.filter_append]
    by_cases hj : j = k
    · simp [grantsOf, hj, hgk]
    · simp [grantsOf, hj, hgk, Ne.symm hj]
  refine ⟨hguards, by rw [hw]; exact h.nodup, h.waiting_of_other hk.2 rfl hpc (by rw [hw]), ?_, ?_⟩
  · intro j hj
    have hne : j ≠ k := by
      intro heq
      rw [hpc, heq, update_self] at hj
      exact hj rfl
    rw [hpc, update_of_ne hne] at hj
    rw [hgrants, if_neg hne, h.none j hj]
    rfl
  · intro j hj
    by_cases hne : j = k
    · refine ⟨g, ?_⟩
      rw [hgrants, if_pos hne, hne, h.none k hk.1]
      rfl
    · rw [hpc, update_of_ne hne] at hj
      rw [hgrants, if_neg hne, List.append_nil]
      exact h.one j hj

theorem step_tasks (h : Tasks s) (o : Op) : Tasks (step C s o) := by
  have hguards := step_guards C h.guards o
  have hm := step_move C s o
  generalize step C s o = s' at hguards hm
  cases hm with
  | skip hs => rw [hs]; exact h
  | tick d ho hs => rw [hs]; exact ⟨h.guards, h.nodup, h.waiting, h.none, h.one⟩
  | queues k c ho hk hpc hkept =>
    exact h.goOn hguards ⟨by simp [hk], by rw [hk]; rfl⟩ ⟨by simp, rfl⟩ hpc (by rw [hkept.condWaiters]) hkept.grants
  | leaves k amount deadline cancelled p hk hp ho hpc hnow hb hw hg =>
    obtain ⟨hgranted, -, hwaiting⟩ := back_spec hp
    exact h.leaves hguards (by simp [hk]) ⟨hgranted, hwaiting⟩ hpc hw hg
  | returns k amount timer cancelled p hk hp hpc hkept =>
    obtain ⟨hgranted, -, hwaiting⟩ := back_spec hp
    exact h.goOn hguards ⟨by simp [hk], by rw [hk]; rfl⟩ ⟨hgranted, hwaiting⟩ hpc (by rw [hkept.condWaiters]) hkept.grants
  | cancels k p hk hp ho hpc hkept =>
    obtain ⟨hgranted, -, hwaiting⟩ := cancels_spec hp
    exact h.goOn hguards hk.2 ⟨hgranted, hwaiting⟩ hpc (by rw [hkept.condWaiters]) hkept.grants
  | sets k value hfrom hpc hnow hb hw hg =>
    exact h.goOn hguards (runs_pc hfrom) ⟨by simp, rfl⟩ hpc (by rw [hw, notify_tasks]) hg
  | sleeps k amount sleepAmount hfrom hsleep hpos hpc hnow hb hw hg =>
    exact h.sleeps hguards (tries_pc hfrom) hpc hw hg
  | grants k amount hfrom hpc hnow hb hw hg => exact h.grants hguards rfl (tries_pc hfrom) hpc hw hg
  | refused k amount hfrom hpc hnow hb hw hg =>
    exact h.goOn hguards (runs_pc hfrom) ⟨by simp, rfl⟩ hpc (by rw [hw]) hg
  | zeroDivision k amount hfrom hsleep hpc hnow hb hw hg =>
    exact h.goOn hguards (tries_pc hfrom) ⟨by simp, rfl⟩ hpc (by rw [hw]) hg

end Steps

theorem run_tasks (C : Cfg) {s : St} (h : Tasks s) (ops : List Op) : Tasks (run (step C) s ops) :=
  run_inv (I := Tasks) (fun _ o h => step_tasks h o) h ops

/-! ## One task at a time -/

/-- the task that takes the step -/
def Op.task : Op → Option ℕ
  | .tick _ => none
  | .call k _ | .resume k | .wake k | .timeout k | .proceed k | .cancel k => some k

theorem step_pc (C : Cfg) (s : St) (o : Op) {j : ℕ} (hj : o.task ≠ some j) : (step C s o).pc j = s.pc j := by
  have hupdate : ∀ {k p}, o.task = some k → update s.pc k p j = s.pc j := by
    intro k p hk
    have hne : j ≠ k := by
      rintro rfl
      exact hj hk
    rw [update_of_ne hne]
  have hlocked : ∀ k c l, o.task = some k → (locked C { s with lock := l } k c).pc j = s.pc j := by
    intro k c l hk
    obtain ⟨p, -, hpc, -⟩ := locked_lock C { s with lock := l } k c
    rw [hpc]
    exact hupdate hk
  have hreenter : ∀ k amount timer cancelled w l, o.task = some k →
      (reenter { s with condWaiters := w, lock := l } k amount timer cancelled).pc j = s.pc j := by
    intro k amount timer cancelled w l hk
    obtain ⟨p, l', -, hs⟩ := reenter_pc { s with condWaiters := w, lock := l } k amount timer cancelled
    rw [hs]
    exact hupdate hk
  cases o with
  | tick d => rfl
  | call k c =>
    simp only [step]
    split
    · unfold enter
      split_ifs
      · exact hlocked k c _ rfl
      · exact hupdate rfl
    · rfl
  | resume k =>
    simp only [step]
    split_ifs
    · split
      · exact hlocked k _ _ rfl
      · exact hupdate rfl
      · rfl
    · rfl
  | wake k =>
    simp only [step]
    split
    · split_ifs
      · exact hreenter k _ _ _ _ s.lock rfl
      · rfl
    · rfl
  | timeout k =>
    simp only [step]
    split
    · split_ifs
      · exact hreenter k _ _ _ _ s.lock rfl
      · rfl
    · split_ifs
      · exact hreenter k _ _ _ s.condWaiters _ rfl
      · rfl
    · rfl
  | proceed k =>
    simp only [step]
    split
    · split_ifs
      · exact hupdate rfl
      · rename_i amount cancelled hk hc
        obtain ⟨p, -, hpc, -⟩ := acquireLoop_lock (refill s) k amount
        rw [hpc]
        exact hupdate rfl
    · rfl
  | cancel k =>
    simp only [step]
    split
    · exact hupdate rfl
    · exact hreenter k _ _ _ _ s.lock rfl
    · exact hreenter k _ _ _ s.condWaiters _ rfl
    · exact hupdate rfl
    · rfl

/-! ## The call of a task -/

/-- suspended in call `c` -/
inductive At : Call → Pc → Prop
  | entering (c : Call) : At c (.entering c)
  | waiting (amount : ℚ≥0) (deadline : ℚ) : At (.acquire amount true) (.waiting amount deadline)
  | reacquiring (amount : ℚ≥0) (timer : Option ℚ) (cancelled : Bool) :
      At (.acquire amount true) (.reacquiring amount timer cancelled)
  | reacquired (amount : ℚ≥0) (cancelled : Bool) : At (.acquire amount true) (.reacquired amount cancelled)

/-- call `c` has returned or raised -/
inductive Ended : Call → Pc → Prop
  | granted (amount : ℚ≥0) (block : Bool) : Ended (.acquire amount block) .granted
  | rateSet (value : ℚ) : Ended (.setMaxRate value) .rateSet
  | capacityNotAvailable (amount : ℚ≥0) : Ended (.acquire amount false) .capacityNotAvailable
  | zeroDivisionError (amount : ℚ≥0) (block : Bool) : Ended (.acquire amount block) .zeroDivisionError
  | cancelled (c : Call) : Ended c .cancelled

section Calls

variable {C : Cfg} {s : St} {k : ℕ} {c : Call}

theorem goto_pc (s : St) (k : ℕ) (p : Pc) : (goto s k p).pc k = p := by simp [goto]

theorem grant_pc (s : St) (k : ℕ) (amount : ℚ≥0) : (grant s k amount).pc k = .granted := by
  simp [grant, goto]

theorem acquireLoop_at (s : St) (k : ℕ) (amount : ℚ≥0) :
    At (.acquire amount true) ((acquireLoop s k amount).pc k) ∨
      Ended (.acquire amount true) ((acquireLoop s k amount).pc k) := by
  unfold acquireLoop
  split
  · rw [goto_pc]
    exact .inr (.zeroDivisionError amount true)
  · split_ifs
    · rw [goto_pc]
      exact .inl (.waiting amount _)
    · rw [grant_pc]
      exact .inr (.granted amount true)

theorem locked_at (C : Cfg) (s : St) (k : ℕ) (c : Call) :
    At c ((locked C s k c).pc k) ∨ Ended c ((locked C s k c).pc k) := by
  cases c with
  | setMaxRate value =>
    rw [locked, setMaxRate, goto_pc]
    exact .inr (.rateSet value)
  | acquire amount block =>
    simp only [locked, acquire]
    split_ifs with hle hblock
    · rw [grant_pc]
      exact .inr (.granted amount block)
    · obtain rfl : block = false := by simpa using hblock
      rw [goto_pc]
      exact .inr (.capacityNotAvailable amount)
    · obtain rfl : block = true := by simpa using hblock
      exact acquireLoop_at (refill s) k amount

theorem reenter_at (s : St) (k : ℕ) (amount : ℚ≥0) (timer : Option ℚ) (cancelled : Bool) :
    At (.acquire amount true) ((reenter s k amount timer cancelled).pc k) := by
  unfold reenter
  split_ifs
  · rw [goto_pc]
    exact .reacquired amount cancelled
  · rw [goto_pc]
    exact .reacquiring amount timer cancelled

/-- a task that begins a call -/
theorem call_at (C : Cfg) (hk : s.pc k = .idle) (c : Call) :
    At c ((step C s (.call k c)).pc k) ∨ Ended c ((step C s (.call k c)).pc k) := by
  simp only [step, hk, enter]
  split_ifs
  · exact locked_at C _ k c
  · rw [goto_pc]
    exact .inl (.entering c)

/-- a task suspended in a call -/
theorem step_at (C : Cfg) (h : At c (s.pc k)) (o : Op) :
    At c ((step C s o).pc k) ∨ Ended c ((step C s o).pc k) := by
  by_cases ho : o.task = some k
  · generalize hpc : s.pc k = p at h
    have hsame : At c (s.pc k) ∨ Ended c (s.pc k) := .inl (hpc ▸ h)
    cases o with
    | tick d => cases ho
    | call j c' =>
      obtain rfl : j = k := Option.some.inj ho
      cases h <;> simpa only [step, hpc] using hsame
    | resume j =>
      obtain rfl : j = k := Option.some.inj ho
      simp only [step]
      split_ifs
      · cases h with
        | entering =>
          simp only [hpc]
          exact locked_at C _ j c
        | reacquiring amount timer cancelled =>
          simp only [hpc, goto_pc]
          exact .inl (.reacquired amount cancelled)
        | _ => simpa only [hpc] using hsame
      · exact hsame
    | wake j =>
      obtain rfl : j = k := Option.some.inj ho
      cases h with
      | waiting amount deadline =>
        simp only [step, hpc]
        split_ifs
        · exact .inl (reenter_at _ j amount _ _)
        · exact hsame
      | _ => simpa only [step, hpc] using hsame
    | timeout j =>
      obtain rfl : j = k := Option.some.inj ho
      cases h with
      | waiting amount deadline =>
        simp only [step, hpc]
        split_ifs
        · exact .inl (reenter_at _ j amount _ _)
        · exact hsame
      | reacquiring amount timer cancelled =>
        cases timer with
        | none => simpa only [step, hpc] using hsame
        | some deadline =>
          simp only [step, hpc]
          split_ifs
          · exact .inl (reenter_at _ j amount _ _)
          · exact hsame
      | _ => simpa only [step, hpc] using hsame
    | proceed j =>
      obtain rfl : j = k := Option.some.inj ho
      cases h with
      | reacquired amount cancelled =>
        simp only [step, hpc]
        split_ifs
        · rw [goto_pc]
          exact .inr (.cancelled _)
        · exact acquireLoop_at (refill s) j amount
      | _ => simpa only [step, hpc] using hsame
    | cancel j =>
      obtain rfl : j = k := Option.some.inj ho
      cases h with
      | entering =>
        simp only [step, hpc, goto_pc]
        exact .inr (.cancelled c)
      | waiting amount deadline =>
        simp only [step, hpc]
        exact .inl (reenter_at _ j amount _ _)
      | reacquiring amount timer cancelled =>
        simp only [step, hpc]
        exact .inl (reenter_at _ j amount _ _)
      | reacquired amount cancelled =>
        simp only [step, hpc, goto_pc]
        exact .inl (.reacquired amount true)
  · rw [step_pc C s o ho]
    exact .inl h

/-- a step that grants tokens grants those that its task has asked for -/
theorem step_grants (C : Cfg) (s : St) (o : Op) :
    (step C s o).grants = s.grants ∨ ∃ k amount block, o.task = some k ∧
      ((o = .call k (.acquire amount block) ∧ s.pc k = .idle) ∨ At (.acquire amount block) (s.pc k)) ∧
      (step C s o).grants = s.grants ++ [⟨k, amount, s.now⟩] := by
  have hm := step_move C s o
  generalize step C s o = s' at hm
  cases hm with
  | skip hs => exact .inl (by rw [hs])
  | tick d ho hs => exact .inl (by rw [hs])
  | queues k c ho hk hpc hkept => exact .inl hkept.grants
  | leaves k amount deadline cancelled p hk hp ho hpc hnow hb hw hg => exact .inl hg
  | returns k amount timer cancelled p hk hp hpc hkept => exact .inl hkept.grants
  | cancels k p hk hp ho hpc hkept => exact .inl hkept.grants
  | sets k value hfrom hpc hnow hb hw hg => exact .inl hg
  | sleeps k amount sleepAmount hfrom hsleep hpos hpc hnow hb hw hg => exact .inl hg
  | refused k amount hfrom hpc hnow hb hw hg => exact .inl hg
  | zeroDivision k amount hfrom hsleep hpc hnow hb hw hg => exact .inl hg
  | grants k amount hfrom hpc hnow hb hw hg =>
    refine .inr ⟨k, amount, ?_⟩
    rcases hfrom with ⟨block, ⟨rfl, hk⟩ | ⟨rfl, hk⟩⟩ | ⟨rfl, hk⟩
    · exact ⟨block, rfl, .inl ⟨rfl, hk⟩, hg⟩
    · exact ⟨block, rfl, .inr (hk ▸ .entering _), hg⟩
    · exact ⟨true, rfl, .inr (hk ▸ .reacquired amount false), hg⟩

theorem step_now (C : Cfg) (s : St) (o : Op) : s.now ≤ (step C s o).now := by
  have hm := step_move C s o
  generalize step C s o = s' at hm
  cases hm with
  | skip hs => rw [hs]
  | tick d ho hs =>
    rw [hs]
    exact le_add_of_nonneg_right d.2
  | queues k c ho hk hpc hkept => exact hkept.now.ge
  | leaves k amount deadline cancelled p hk hp ho hpc hnow => exact hnow.ge
  | returns k amount timer cancelled p hk hp hpc hkept => exact hkept.now.ge
  | cancels k p hk hp ho hpc hkept => exact hkept.now.ge
  | sets k value hfrom hpc hnow => exact hnow.ge
  | sleeps k amount sleepAmount hfrom hsleep hpos hpc hnow => exact hnow.ge
  | grants k amount hfrom hpc hnow => exact hnow.ge
  | refused k amount hfrom hpc hnow => exact hnow.ge
  | zeroDivision k amount hfrom hsleep hpc hnow => exact hnow.ge

end Calls

/-! ## Fill rates -/

/-- a step keeps the fill rate, or a call of `set_max_rate` ends with it -/
theorem step_rate (C : Cfg) (s : St) (o : Op) :
    ((step C s o).bucket.fillRate = s.bucket.fillRate ∧ ∀ k, (step C s o).pc k = .rateSet → s.pc k = .rateSet) ∨
      ∃ k value, Runs s o k (.setMaxRate value) ∧ (step C s o).pc k = .rateSet ∧
        (step C s o).bucket.fillRate = max value C.minRate := by
  have hm := step_move C s o
  generalize step C s o = s' at hm
  have hrefill := Bucket.refill_fillRate s.bucket s.now
  have hsame : ∀ {k p}, s'.pc = update s.pc k p → p ≠ .rateSet → ∀ j, s'.pc j = .rateSet → s.pc j = .rateSet := by
    intro k p hpc hp j hj
    rw [hpc] at hj
    by_cases hjk : j = k
    · rw [hjk, update_self] at hj
      exact absurd hj hp
    · rwa [update_of_ne hjk] at hj
  cases hm with
  | skip hs => exact .inl ⟨by rw [hs], fun k hk => by rwa [hs] at hk⟩
  | tick d ho hs => exact .inl ⟨by rw [hs], fun k hk => by rwa [hs] at hk⟩
  | queues k c ho hk hpc hkept => exact .inl ⟨by rw [hkept.bucket], hsame hpc (by simp)⟩
  | leaves k amount deadline cancelled p hk hp ho hpc hnow hb =>
    exact .inl ⟨by rw [hb], hsame hpc (back_spec hp).2.1⟩
  | returns k amount timer cancelled p hk hp hpc hkept =>
    exact .inl ⟨by rw [hkept.bucket], hsame hpc (back_spec hp).2.1⟩
  | cancels k p hk hp ho hpc hkept =>
    exact .inl ⟨by rw [hkept.bucket], hsame hpc (cancels_spec hp).2.1⟩
  | sets k value hfrom hpc hnow hb =>
    exact .inr ⟨k, value, hfrom, by rw [hpc, update_self], by rw [hb]; rfl⟩
  | sleeps k amount sleepAmount hfrom hsleep hpos hpc hnow hb =>
    exact .inl ⟨by rw [hb, hrefill], hsame hpc (by simp)⟩
  | grants k amount hfrom hpc hnow hb => exact .inl ⟨by rw [hb]; exact hrefill, hsame hpc (by simp)⟩
  | refused k amount hfrom hpc hnow hb => exact .inl ⟨by rw [hb, hrefill], hsame hpc (by simp)⟩
  | zeroDivision k amount hfrom hsleep hpc hnow hb => exact .inl ⟨by rw [hb, hrefill], hsame hpc (by simp)⟩

/-! ## Progress -/

/-- if a task is at the lock, one of them can go on -/
theorem exists_turn {C : Cfg} {s : St} (h : Tasks s) {k : ℕ} (hk : region (s.pc k) ≠ .out) :
    ∃ j, (step C s (.resume j)).pc j ≠ s.pc j ∨ (step C s (.proceed j)).pc j ≠ s.pc j := by
  obtain ⟨j, hin | ⟨hready, hqueued⟩⟩ := h.guards.turn hk
  · refine ⟨j, .inr ?_⟩
    cases hpc : s.pc j with
    | reacquired amount cancelled =>
      simp only [step, hpc]
      split_ifs
      · simp [goto]
      · obtain ⟨p, hp, hloop, -⟩ := acquireLoop_lock (refill s) j amount
        rw [hloop, update_self]
        rintro rfl
        cases hp
    | _ =>
      rw [hpc] at hin
      cases hin
  · refine ⟨j, .inl ?_⟩
    simp only [step, hready, if_true]
    cases hpc : s.pc j with
    | entering c =>
      obtain ⟨p, hp, hlocked, -⟩ := locked_lock C { s with lock := s.lock.resume j } j c
      simp only
      rw [hlocked, update_self]
      rintro rfl
      cases hp
    | reacquiring amount timer cancelled => simp [goto]
    | _ =>
      rw [hpc] at hqueued
      cases hqueued

end AioBotocore.Retries
