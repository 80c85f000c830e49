/-
A rate change and the acquirers that sleep: `set_max_rate` notifies one waiter of the condition. The others sleep on
until a deadline that was computed at the rate before.

- `Timely`: a deadline that the rate in force allows.
- `setMaxRate_timely`: a rate that does not go up keeps every deadline timely.
- `no_stale_sleep`: in runs that raise the rate only while at most one waiter is not notified, nobody sleeps too long.
- `second_waiter_sleeps_on`: two acquirers and a raised rate.
-/
import Mathlib.Tactic
import AioBotocore.Retries.Condition

namespace AioBotocore.Retries

open Async Function

/-! ## Rate changes -/

/-- the value that a step passes to `_set_max_rate` -/
def sets (s : St) : Op → Option ℚ
  | .call k (.setMaxRate value) => if s.pc k = .idle ∧ s.lock.free = true then some value else none
  | .resume k =>
    match s.pc k with
    | .entering (.setMaxRate value) => if s.lock.ready k = true then some value else none
    | _ => none
  | _ => none

/-- the waiters of the condition that are not notified -/
def unnotified (s : St) : List (ℕ × Bool) := s.condWaiters.filter fun w => !w.2

/-- the step does not raise the rate, or at most one waiter is not notified -/
def ReachesAll (C : Cfg) (s : St) (o : Op) : Prop :=
  ∀ value ∈ sets s o, s.bucket.fillRate < max value C.minRate → (unnotified s).length ≤ 1

instance (C : Cfg) (s : St) (o : Op) : Decidable (ReachesAll C s o) :=
  inferInstanceAs (Decidable (∀ value ∈ sets s o, s.bucket.fillRate < max value C.minRate → (unnotified s).length ≤ 1))

/-! ## Deadlines -/

/-- at the last refill the time left was at most what the bucket needs for the amount -/
def Timely (b : Bucket) (amount deadline : ℚ) : Prop :=
  ∃ last, b.lastTimestamp = some last ∧ (last < deadline → (deadline - last) * b.fillRate ≤ amount - b.currentCapacity)

section Deadlines

variable {C : Cfg} {b : Bucket} {now amount deadline : ℚ}

theorem Timely.refill (hv : b.Valid C now) (h : Timely b amount deadline) : Timely (b.refill now) amount deadline := by
  obtain ⟨last, hlast, htimely⟩ := h
  obtain ⟨t, ht, hle⟩ := hv.last
  obtain rfl : last = t := Option.some.inj (hlast.symm.trans ht)
  refine ⟨now, Bucket.refill_last b now, fun hlt => ?_⟩
  have hdue := htimely (hle.trans_lt hlt)
  have hcap : min b.maxCapacity (b.currentCapacity + (now - last) * b.fillRate) ≤
      b.currentCapacity + (now - last) * b.fillRate := min_le_right _ _
  simp only [Bucket.refill, hlast]
  calc (deadline - now) * b.fillRate
      = (deadline - last) * b.fillRate - (now - last) * b.fillRate := by ring
    _ ≤ amount - b.currentCapacity - (now - last) * b.fillRate := by linarith
    _ ≤ amount - min b.maxCapacity (b.currentCapacity + (now - last) * b.fillRate) := by linarith

theorem Timely.take (h : Timely b amount deadline) {taken : ℚ} (h0 : 0 ≤ taken) :
    Timely (b.take taken) amount deadline := by
  obtain ⟨last, hlast, htimely⟩ := h
  refine ⟨last, hlast, fun hlt => (htimely hlt).trans ?_⟩
  simp only [Bucket.take]
  linarith

/-- a rate that does not go up keeps every deadline timely -/
theorem setMaxRate_timely (hv : b.Valid C now) (h : Timely b amount deadline) {value : ℚ}
    (hrate : max value C.minRate ≤ b.fillRate) : Timely (b.setMaxRate C now value) amount deadline := by
  obtain ⟨last, hlast, htimely⟩ := h.refill hv
  obtain rfl : last = now := Option.some.inj (hlast.symm.trans (Bucket.refill_last b now))
  have hsame := Bucket.refill_fillRate b last
  refine ⟨last, hlast, fun hlt => ?_⟩
  have hdue := htimely hlt
  rw [hsame] at hdue
  calc (deadline - last) * max value C.minRate
      ≤ (deadline - last) * b.fillRate := mul_le_mul_of_nonneg_left hrate (sub_pos.2 hlt).le
    _ ≤ amount - (b.refill last).currentCapacity := hdue
    _ ≤ amount - min (b.refill last).currentCapacity (if 1 ≤ value then value else 1) := by
      have := min_le_left (b.refill last).currentCapacity (if 1 ≤ value then value else 1)
      linarith

theorem sleepAmount_eq {sleepAmount : ℚ} (h : b.sleepAmount amount = some sleepAmount) :
    b.fillRate ≠ 0 ∧ sleepAmount = (amount - b.currentCapacity) / b.fillRate := by
  unfold Bucket.sleepAmount at h
  split_ifs at h with hz
  exact ⟨hz, (Option.some.inj h).symm⟩

/-- the deadline that is set after a refill -/
theorem timely_of_sleep {sleepAmount : ℚ} (h : (b.refill now).sleepAmount amount = some sleepAmount) :
    Timely (b.refill now) amount (now + sleepAmount) := by
  obtain ⟨hz, rfl⟩ := sleepAmount_eq h
  refine ⟨now, Bucket.refill_last b now, fun _ => le_of_eq ?_⟩
  rw [add_sub_cancel_left, div_mul_cancel₀ _ hz]

/-- the time left is no more than `_sleep_amount` would give now -/
theorem Timely.remaining (hv : b.Valid C now) (h : Timely b amount deadline) {sleepAmount : ℚ}
    (hsleep : (b.refill now).sleepAmount amount = some sleepAmount) : deadline - now ≤ max 0 sleepAmount := by
  obtain ⟨last, hlast, htimely⟩ := h.refill hv
  obtain rfl : last = now := Option.some.inj (hlast.symm.trans (Bucket.refill_last b now))
  obtain ⟨hz, rfl⟩ := sleepAmount_eq hsleep
  have hpos : 0 < (b.refill last).fillRate := lt_of_le_of_ne hv.refill.rate_nonneg (Ne.symm hz)
  rcases le_or_gt deadline last with hle | hlt
  · exact (sub_nonpos.2 hle).trans (le_max_left _ _)
  · exact ((le_div_iff₀ hpos).2 (htimely hlt)).trans (le_max_right _ _)

end Deadlines

/-! ## Runs -/

/-- who waits and is not notified has a timely deadline -/
structure Sleepers (C : Cfg) (s : St) : Prop where
  tasks : Tasks s
  bounds : Inv C s
  timely : ∀ k amount deadline, s.pc k = .waiting amount deadline → (k, false) ∈ s.condWaiters →
    Timely s.bucket amount deadline

theorem notify_unnotified (ws : List (ℕ × Bool)) :
    ((notify ws).filter fun w => !w.2) = (ws.filter fun w => !w.2).tail := by
  induction ws with
  | nil => rfl
  | cons w ws ih =>
    obtain ⟨k, notified⟩ := w
    cases notified with
    | false => simp [notify]
    | true => simpa [notify] using ih

theorem mem_notify {ws : List (ℕ × Bool)} {k : ℕ} (h : (k, false) ∈ notify ws) : (k, false) ∈ ws := by
  have hmem : (k, false) ∈ (notify ws).filter fun w => !w.2 := List.mem_filter.2 ⟨h, rfl⟩
  rw [notify_unnotified] at hmem
  exact List.mem_of_mem_filter (List.mem_of_mem_tail hmem)

/-- the step that changes the rate is told by `sets` -/
theorem sets_of_step {C : Cfg} {s : St} {o : Op} {k : ℕ} {value : ℚ} (hfrom : Runs s o k (.setMaxRate value))
    (hpc : (step C s o).pc k = .rateSet) : sets s o = some value := by
  rcases hfrom with ⟨rfl, hk⟩ | ⟨rfl, hk⟩
  · simp only [step, hk, enter] at hpc
    split_ifs at hpc with hfree
    · rw [sets, if_pos ⟨hk, hfree⟩]
    · simp [goto] at hpc
  · simp only [step, hk] at hpc
    split_ifs at hpc with hready
    · simp only [sets, hk, if_pos hready]
    · rw [hk] at hpc
      cases hpc

section Steps

variable {C : Cfg} {s s' : St} {k : ℕ}

/-- a task moves that does not begin to wait -/
theorem Sleepers.goOn (h : Sleepers C s) (htasks : Tasks s') (hbounds : Inv C s') {p : Pc} (hp : p.isWaiting = false)
    (hpc : s'.pc = update s.pc k p) (hsub : ∀ j, (j, false) ∈ s'.condWaiters → (j, false) ∈ s.condWaiters)
    (hkeeps : ∀ amount deadline, Timely s.bucket amount deadline → Timely s'.bucket amount deadline) :
    Sleepers C s' := by
  refine ⟨htasks, hbounds, ?_⟩
  intro j amount deadline hj hmem
  apply hkeeps
  apply h.timely j amount deadline _ (hsub j hmem)
  rw [hpc] at hj
  by_cases hjk : j = k
  · rw [hjk, update_self] at hj
    rw [hj] at hp
    cases hp
  · rwa [update_of_ne hjk] at hj

theorem Sleepers.kept (h : Sleepers C s) (htasks : Tasks s') (hbounds : Inv C s') {p : Pc} (hp : p.isWaiting = false)
    (hpc : s'.pc = update s.pc k p) (hkept : Kept s s') : Sleepers C s' := by
  apply h.goOn htasks hbounds hp hpc
  · rw [hkept.condWaiters]
    exact fun _ => id
  · rw [hkept.bucket]
    exact fun _ _ => id

/-- the bucket is refilled at its rate -/
theorem Sleepers.refills (h : Sleepers C s) (htasks : Tasks s') (hbounds : Inv C s') {p : Pc} (hp : p.isWaiting = false)
    (hpc : s'.pc = update s.pc k p) (hb : s'.bucket = s.bucket.refill s.now) (hw : s'.condWaiters = s.condWaiters) :
    Sleepers C s' := by
  apply h.goOn htasks hbounds hp hpc
  · rw [hw]
    exact fun _ => id
  · intro amount deadline htimely
    rw [hb]
    exact htimely.refill h.bounds.bucket

/-- the one waiter that was not notified is notified -/
theorem Sleepers.raised (htasks : Tasks s') (hbounds : Inv C s') (hone : (unnotified s).length ≤ 1)
    (hw : s'.condWaiters = notify s.condWaiters) : Sleepers C s' := by
  refine ⟨htasks, hbounds, ?_⟩
  intro j amount deadline _ hmem
  have hnone : unnotified s' = [] := by
    rw [unnotified, hw, notify_unnotified]
    exact List.eq_nil_of_length_eq_zero (by rw [List.length_tail]; unfold unnotified at hone; omega)
  have hin : (j, false) ∈ unnotified s' := List.mem_filter.2 ⟨hmem, rfl⟩
  rw [hnone] at hin
  cases hin

/-- task `k` begins to wait -/
theorem Sleepers.sleeps (h : Sleepers C s) (htasks : Tasks s') (hbounds : Inv C s') {amount : ℚ≥0} {sleepAmount : ℚ}
    (hsleep : (s.bucket.refill s.now).sleepAmount amount = some sleepAmount)
    (hpc : s'.pc = update s.pc k (.waiting amount (s.now + sleepAmount))) (hb : s'.bucket = s.bucket.refill s.now)
    (hw : s'.condWaiters = s.condWaiters ++ [(k, false)]) : Sleepers C s' := by
  refine ⟨htasks, hbounds, ?_⟩
  intro j amount' deadline hj hmem
  rw [hb]
  by_cases hjk : j = k
  · rw [hpc, hjk, update_self] at hj
    cases hj
    exact timely_of_sleep hsleep
  · rw [hpc, update_of_ne hjk] at hj
    rw [hw, List.mem_append, List.mem_singleton] at hmem
    rcases hmem with hmem | hmem
    · exact (h.timely j amount' deadline hj hmem).refill h.bounds.bucket
    · cases hmem
      exact absurd rfl hjk

theorem step_sleepers (h : Sleepers C s) {o : Op} (hgood : ReachesAll C s o) : Sleepers C (step C s o) := by
  have htasks : Tasks (step C s o) := step_tasks h.tasks o
  have hbounds : Inv C (step C s o) := step_inv h.bounds o
  have hsets : ∀ k value, Runs s o k (.setMaxRate value) → (step C s o).pc k = .rateSet → sets s o = some value :=
    fun _ _ => sets_of_step
  have hm := step_move C s o
  generalize step C s o = s' at htasks hbounds hm hsets
  cases hm with
  | skip hs => rw [hs]; exact h
  | tick d ho hs =>
    subst hs
    exact ⟨htasks, hbounds, h.timely⟩
  | queues k c ho hk hpc hkept => exact h.kept htasks hbounds rfl hpc hkept
  | leaves k amount deadline cancelled p hk hp ho hpc hnow hb hw hg =>
    apply h.goOn htasks hbounds (back_spec hp).2.2 hpc
    · rw [hw]
      exact fun _ hj => List.mem_of_mem_filter hj
    · rw [hb]
      exact fun _ _ => id
  | returns k amount timer cancelled p hk hp hpc hkept => exact h.kept htasks hbounds (back_spec hp).2.2 hpc hkept
  | cancels k p hk hp ho hpc hkept => exact h.kept htasks hbounds (cancels_spec hp).2.2 hpc hkept
  | sets k value hfrom hpc hnow hb hw hg =>
    rcases le_or_gt (max value C.minRate) s.bucket.fillRate with hle | hlt
    · apply h.goOn htasks hbounds rfl hpc
      · exact fun j hj => mem_notify (hw ▸ hj)
      · intro amount deadline htimely
        rw [hb]
        exact setMaxRate_timely h.bounds.bucket htimely hle
    · exact Sleepers.raised htasks hbounds (hgood value (hsets k value hfrom (by rw [hpc, update_self])) hlt) hw
  | sleeps k amount sleepAmount hfrom hsleep hpos hpc hnow hb hw hg => exact h.sleeps htasks hbounds hsleep hpc hb hw
  | grants k amount hfrom hpc hnow hb hw hg =>
    apply h.goOn htasks hbounds rfl hpc
    · rw [hw]
      exact fun _ => id
    · intro amount' deadline htimely
      rw [hb]
      exact (htimely.refill h.bounds.bucket).take amount.2
  | refused k amount hfrom hpc hnow hb hw hg => exact h.refills htasks hbounds rfl hpc hb hw
  | zeroDivision k amount hfrom hsleep hpc hnow hb hw hg => exact h.refills htasks hbounds rfl hpc hb hw

end Steps

/-- once the acquirers that were woken wait again, no acquirer sleeps longer than `_sleep_amount` would tell it now -/
def InForce (s : St) : Prop :=
  (∀ w ∈ s.condWaiters, w.2 = false) → ∀ k amount deadline, s.pc k = .waiting amount deadline →
    ∀ sleepAmount, (s.bucket.refill s.now).sleepAmount amount = some sleepAmount → deadline - s.now ≤ max 0 sleepAmount

theorem Sleepers.inForce {C : Cfg} {s : St} (h : Sleepers C s) : InForce s := by
  intro hsettled k amount deadline hk sleepAmount hsleep
  have hmem : k ∈ s.condWaiters.map Prod.fst := by
    rw [h.tasks.waiting, hk]
    rfl
  obtain ⟨⟨j, notified⟩, hw, rfl⟩ := List.mem_map.1 hmem
  obtain rfl : notified = false := hsettled _ hw
  exact (h.timely j amount deadline hk hw).remaining h.bounds.bucket hsleep

/-- **Rate changes in force.** In every run that raises the rate only while at most one waiter is not notified: in every
state reached, once the woken acquirers wait again, nobody sleeps on at a rate that is no longer in force. -/
theorem no_stale_sleep (C : Cfg) (t0 maxRate : ℚ) (ops : List Op)
    (hgood : Along (step C) (ReachesAll C) (init C t0 maxRate) ops) (n : ℕ) : InForce (exec C t0 maxRate (ops.take n)) := by
  have hinit : Sleepers C (init C t0 maxRate) :=
    ⟨init_tasks C t0 maxRate, init_inv C t0 maxRate, fun k amount deadline hk => by simp [init] at hk⟩
  have hrun := run_inv_of (I := Sleepers C) (fun _ _ h hg => step_sleepers h hg) hinit (hgood.take n)
  exact hrun.inForce

/-- one acquirer, and a rate of 10 -/
def oneRaised : List Op := [.call 0 (.acquire 1 true), .call 2 (.setMaxRate 10), .wake 0, .proceed 0]

theorem no_stale_sleep_one : Along (step defaultMinRate) (ReachesAll defaultMinRate) (init defaultMinRate 0 0) oneRaised ∧
    InForce (exec defaultMinRate 0 0 (oneRaised.take 4)) :=
  ⟨by decide +kernel, no_stale_sleep defaultMinRate 0 0 oneRaised (by decide +kernel) 4⟩

/-- a second acquirer: it sleeps until 2, for 1 token at a rate of 10 -/
def twoRaised : List Op :=
  [.call 0 (.acquire 1 true), .call 1 (.acquire 1 true), .call 2 (.setMaxRate 10), .wake 0, .proceed 0]

theorem second_waiter_sleeps_on :
    let s := exec defaultMinRate 0 0 twoRaised
    s.pc 1 = .waiting 1 2 ∧ s.now = 0 ∧ (s.bucket.refill s.now).sleepAmount 1 = some (1 / 10) ∧ ¬ InForce s := by
  have hpc : (exec defaultMinRate 0 0 twoRaised).pc 1 = .waiting 1 2 := by decide +kernel
  have hsleep : ((exec defaultMinRate 0 0 twoRaised).bucket.refill 0).sleepAmount 1 = some (1 / 10) := by decide +kernel
  have hnow : (exec defaultMinRate 0 0 twoRaised).now = 0 := by decide +kernel
  refine ⟨hpc, hnow, by rw [hnow]; exact hsleep, fun h => ?_⟩
  have hle := h (by decide +kernel) 1 1 2 hpc (1 / 10) (by rw [hnow]; exact hsleep)
  rw [hnow] at hle
  exact absurd hle (by norm_num)

end AioBotocore.Retries
