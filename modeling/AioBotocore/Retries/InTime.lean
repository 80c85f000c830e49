/-
A blocking `acquire` of at most one token, with no other acquirer. A wait that nobody interrupts ends with enough
capacity, so after the last rate change the task sleeps at most once more.

- `sole_step`: what an operation does while task `k` is the only acquirer; `Lone` is the invariant.
- `quiet_step`: a wait that begins after the last rate change is the last one.
- `acquire_in_time`: the bound on the waits, and that the task can return.
-/
import Mathlib.Tactic
import AioBotocore.Retries.RateChange

namespace AioBotocore.Retries

open Async Function

/-! ## One acquirer -/

/-- no task but `k` is in `acquire` -/
def Alone (s : St) (k : ℕ) : Prop := ∀ j ≠ k, (s.pc j).acquires = false

/-- no task begins an `acquire`, and `k` is not cancelled -/
def Sole (k : ℕ) : Op → Prop
  | .call _ (.acquire _ _) => False
  | .cancel j => j ≠ k
  | _ => True

/-- in a blocking `acquire` that is not cancelled -/
inductive InAcquire (amount : ℚ≥0) : Pc → Prop
  | entering : InAcquire amount (.entering (.acquire amount true))
  | waiting (deadline : ℚ) : InAcquire amount (.waiting amount deadline)
  | reacquiring (timer : Option ℚ) : InAcquire amount (.reacquiring amount timer false)
  | reacquired : InAcquire amount (.reacquired amount false)

/-- at the deadline there is enough capacity -/
def Suffices (b : Bucket) (amount deadline : ℚ) : Prop :=
  ∃ last, b.lastTimestamp = some last ∧ amount ≤ b.currentCapacity + (deadline - last) * b.fillRate

/-- there is enough capacity now -/
def Ripe (s : St) (amount : ℚ) : Prop := amount ≤ (s.bucket.refill s.now).currentCapacity

structure Lone (C : Cfg) (k : ℕ) (amount : ℚ≥0) (s : St) : Prop where
  tasks : Tasks s
  bounds : Inv C s
  alone : Alone s k
  own : s.pc k = .granted ∨ InAcquire amount (s.pc k)
  enough : ∀ deadline, s.pc k = .waiting amount deadline → (k, false) ∈ s.condWaiters →
    Suffices s.bucket amount deadline

section Lone

variable {C : Cfg} {s : St} {k : ℕ} {amount : ℚ≥0}

theorem InAcquire.acquires {p : Pc} (h : InAcquire amount p) : p.acquires = true := by cases h <;> rfl

theorem suffices_of_sleep {b : Bucket} {now a sleepAmount : ℚ} (h : (b.refill now).sleepAmount a = some sleepAmount) :
    Suffices (b.refill now) a (now + sleepAmount) := by
  obtain ⟨hz, rfl⟩ := sleepAmount_eq h
  refine ⟨now, Bucket.refill_last b now, le_of_eq ?_⟩
  rw [add_sub_cancel_left, div_mul_cancel₀ _ hz]
  ring

theorem Suffices.ripe (hv : s.bucket.Valid C s.now) (hamount : amount ≤ 1) {deadline : ℚ}
    (h : Suffices s.bucket amount deadline) (hdue : deadline ≤ s.now) : Ripe s amount := by
  obtain ⟨last, hlast, hle⟩ := h
  have hone : (amount : ℚ) ≤ 1 := by exact_mod_cast hamount
  have hmul : (deadline - last) * s.bucket.fillRate ≤ (s.now - last) * s.bucket.fillRate :=
    mul_le_mul_of_nonneg_right (by linarith) hv.rate_nonneg
  simp only [Ripe, Bucket.refill, hlast]
  exact le_min (hone.trans hv.one_le) (by linarith)

theorem Ripe.later (hv : s.bucket.Valid C s.now) {a : ℚ} (h : Ripe s a) (d : ℚ≥0) :
    Ripe { s with now := s.now + d } a := by
  obtain ⟨last, hlast, -⟩ := hv.last
  have hd : 0 ≤ (d : ℚ) * s.bucket.fillRate := mul_nonneg d.2 hv.rate_nonneg
  simp only [Ripe, Bucket.refill, hlast] at h ⊢
  refine h.trans (min_le_min_left _ ?_)
  have heq : (s.now + d - last) * s.bucket.fillRate = (s.now - last) * s.bucket.fillRate + d * s.bucket.fillRate := by
    ring
  linarith

theorem Ripe.congr {s' : St} {a : ℚ} (h : Ripe s a) (hb : s'.bucket = s.bucket) (hnow : s'.now = s.now) : Ripe s' a := by
  unfold Ripe at h ⊢
  rw [hb, hnow]
  exact h

/-- who waits is `k` -/
theorem Lone.waiter (h : Lone C k amount s) {j : ℕ} {notified : Bool} (hj : (j, notified) ∈ s.condWaiters) : j = k := by
  by_contra hne
  have hwaits := (h.tasks.waiting j).1 (List.mem_map_of_mem hj)
  have hacquires := h.alone j hne
  cases hpc : s.pc j <;> rw [hpc] at hwaits hacquires <;> cases hwaits
  cases hacquires

theorem Lone.acquirer (h : Lone C k amount s) {j : ℕ} (hj : (s.pc j).acquires = true) : j = k := by
  by_contra hne
  rw [h.alone j hne] at hj
  cases hj

/-- the call that `k` begins, or goes on with, is its `acquire` -/
theorem Lone.runs (h : Lone C k amount s) {o : Op} {c : Call} (hfrom : Runs s o k c) : c = .acquire amount true := by
  have hown : InAcquire amount (s.pc k) := h.own.resolve_left (runs_pc hfrom).1
  rcases hfrom with ⟨-, hk⟩ | ⟨-, hk⟩
  · rw [hk] at hown
    cases hown
  · rw [hk] at hown
    cases hown
    rfl

/-- a call that comes to the loop of `_acquire` is that of `k` -/
theorem Lone.tries (h : Lone C k amount s) {o : Op} (hsole : Sole k o) {j : ℕ} {a : ℚ≥0} (htries : Tries s o j a) :
    j = k ∧ a = amount := by
  have hacquires : (s.pc j).acquires = true := by
    rcases htries with ⟨block, ⟨rfl, -⟩ | ⟨-, hj⟩⟩ | ⟨-, hj⟩
    · exact hsole.elim
    · rw [hj]; rfl
    · rw [hj]; rfl
  obtain rfl := h.acquirer hacquires
  refine ⟨rfl, ?_⟩
  have hown : InAcquire amount (s.pc j) := h.own.resolve_left (tries_pc htries).1
  rcases htries with ⟨block, hfrom⟩ | ⟨-, hj⟩
  · cases h.runs hfrom
    rfl
  · rw [hj] at hown
    cases hown
    rfl

/-- a notification that is sent reaches `k`, as nobody else waits -/
theorem Lone.notified (h : Lone C k amount s) : (k, false) ∉ notify s.condWaiters := by
  intro hmem
  have hone : (unnotified s).length ≤ 1 := by
    have hsub : ((unnotified s).map Prod.fst).Nodup := (h.tasks.nodup.sublist (List.filter_sublist.map Prod.fst))
    have hall : (unnotified s).map Prod.fst ⊆ [k] := by
      intro w hw
      obtain ⟨⟨i, b⟩, hib, rfl⟩ := List.mem_map.1 hw
      exact List.mem_singleton.2 (h.waiter (List.mem_of_mem_filter hib))
    simpa using (List.subperm_of_subset hsub hall).length_le
  have hin : (k, false) ∈ (notify s.condWaiters).filter fun w => !w.2 := List.mem_filter.2 ⟨hmem, rfl⟩
  rw [notify_unnotified] at hin
  have hlen := List.length_pos_of_mem hin
  rw [List.length_tail] at hlen
  unfold unnotified at hone
  omega

/-- what an operation does to `k`, the only acquirer -/
inductive Turn (k : ℕ) (amount : ℚ≥0) (s : St) (o : Op) (s' : St) : Prop
  | others (hk : s'.pc k = s.pc k) (d : ℚ≥0) (hnow : s'.now = s.now + d) (hb : s'.bucket = s.bucket)
      (hw : s'.condWaiters = s.condWaiters)
  | sets (value : ℚ) (hsets : sets s o = some value) (hk : s'.pc k = s.pc k) (hw : (k, false) ∉ s'.condWaiters)
  | awakes (deadline : ℚ) (hk : s.pc k = .waiting amount deadline)
      (hp : s'.pc k = .reacquired amount false ∨ ∃ timer, s'.pc k = .reacquiring amount timer false)
      (hdue : (k, true) ∈ s.condWaiters ∨ deadline ≤ s.now) (hnow : s'.now = s.now) (hb : s'.bucket = s.bucket)
  | returns (timer : Option ℚ) (hk : s.pc k = .reacquiring amount timer false)
      (hp : s'.pc k = .reacquired amount false ∨ ∃ timer, s'.pc k = .reacquiring amount timer false)
      (hnow : s'.now = s.now) (hb : s'.bucket = s.bucket)
  | sleeps (sleepAmount : ℚ) (hne : s.pc k ≠ .granted) (hk : (s.pc k).isWaiting = false)
      (hsleep : (s.bucket.refill s.now).sleepAmount amount = some sleepAmount) (hpos : 0 < sleepAmount)
      (hp : s'.pc k = .waiting amount (s.now + sleepAmount)) (hnow : s'.now = s.now) (hb : s'.bucket = s.bucket.refill s.now)
      (hw : (k, true) ∉ s'.condWaiters)
  | grants (hp : s'.pc k = .granted)

/-- a fill rate that is not 0 -/
theorem sleepAmount_isSome (hmin : 0 < C.minRate) {b : Bucket} {now : ℚ} (hv : b.Valid C now) (a : ℚ) :
    (b.refill now).sleepAmount a ≠ none := by
  intro hnone
  unfold Bucket.sleepAmount at hnone
  split_ifs at hnone with hz
  have hrate := hv.refill.rate
  rw [hz] at hrate
  exact absurd hmin (not_lt.2 hrate)

theorem turn_of_step (hmin : 0 < C.minRate) (h : Lone C k amount s) {o : Op} (hsole : Sole k o) :
    Turn k amount s o (step C s o) := by
  have hsets : ∀ k value, Runs s o k (.setMaxRate value) → (step C s o).pc k = .rateSet → sets s o = some value :=
    fun _ _ => sets_of_step
  have hm := step_move C s o
  generalize step C s o = s' at hm hsets
  -- another task moves
  have hothers : ∀ {j p}, j ≠ k → s'.pc = update s.pc j p → Kept s s' → Turn k amount s o s' := by
    intro j p hne hpc hkept
    refine .others (by rw [hpc, update_of_ne (Ne.symm hne)]) 0 ?_ hkept.bucket hkept.condWaiters
    rw [hkept.now]
    simp
  cases hm with
  | skip hs =>
    subst hs
    exact .others rfl 0 (by simp) rfl rfl
  | tick d ho hs =>
    subst hs
    exact .others rfl d rfl rfl rfl
  | queues j c ho hj hpc hkept =>
    refine hothers ?_ hpc hkept
    rintro rfl
    rcases h.own with hown | hown
    · rw [hj] at hown
      cases hown
    · rw [hj] at hown
      cases hown
  | leaves j a deadline cancelled p hj hp ho hpc hnow hb hw hg =>
    obtain rfl := h.acquirer (j := j) (by rw [hj]; rfl)
    have hown : InAcquire amount (s.pc j) := h.own.resolve_left (by rw [hj]; simp)
    rw [hj] at hown
    cases hown
    have hstep : (j, true) ∈ s.condWaiters ∧ cancelled = false ∨ deadline ≤ s.now ∧ cancelled = false := by
      rcases ho with ⟨-, hn, hc⟩ | ⟨-, hd, hc⟩ | rfl
      · exact .inl ⟨hn, hc⟩
      · exact .inr ⟨hd, hc⟩
      · exact absurd rfl hsole
    have hfalse : cancelled = false := hstep.elim And.right And.right
    subst hfalse
    refine .awakes deadline hj ?_ (hstep.imp And.left And.left) hnow hb
    rw [hpc, update_self]
    exact hp
  | returns j a timer cancelled p hj hp hpc hkept =>
    obtain rfl := h.acquirer (j := j) (by rw [hj]; rfl)
    have hown : InAcquire amount (s.pc j) := h.own.resolve_left (by rw [hj]; simp)
    rw [hj] at hown
    cases hown
    refine .returns timer hj ?_ hkept.now hkept.bucket
    rw [hpc, update_self]
    exact hp
  | cancels j p hj hp ho hpc hkept =>
    refine hothers ?_ hpc hkept
    rintro rfl
    rcases ho with rfl | ⟨a, ha⟩
    · exact absurd rfl hsole
    · have hown : InAcquire amount (s.pc j) := h.own.resolve_left hj.2.1
      rw [ha] at hown
      cases hown
  | sets j value hfrom hpc hnow hb hw hg =>
    have hne : k ≠ j := by
      rintro rfl
      cases h.runs hfrom
    refine .sets value (hsets j value hfrom (by rw [hpc, update_self])) (by rw [hpc, update_of_ne hne]) ?_
    rw [hw]
    exact h.notified
  | sleeps j a sleepAmount hfrom hsleep hpos hpc hnow hb hw hg =>
    obtain ⟨rfl, rfl⟩ := h.tries hsole hfrom
    refine .sleeps sleepAmount (tries_pc hfrom).1 (tries_pc hfrom).2 hsleep hpos (by rw [hpc, update_self]) hnow hb ?_
    rw [hw, List.mem_append, List.mem_singleton]
    rintro (hmem | hmem)
    · have hwaits := (h.tasks.waiting j).1 (List.mem_map_of_mem hmem)
      rw [(tries_pc hfrom).2] at hwaits
      cases hwaits
    · cases hmem
  | grants j a hfrom hpc =>
    obtain ⟨rfl, rfl⟩ := h.tries hsole hfrom
    exact .grants (by rw [hpc, update_self])
  | refused j a hfrom hpc =>
    obtain ⟨rfl, -⟩ := h.tries hsole (.inl ⟨false, hfrom⟩)
    cases h.runs hfrom
  | zeroDivision j a hfrom hsleep => exact absurd hsleep (sleepAmount_isSome hmin h.bounds.bucket a)

theorem step_alone (h : Lone C k amount s) {o : Op} (hsole : Sole k o) : Alone (step C s o) k := by
  have hm := step_move C s o
  generalize step C s o = s' at hm
  intro j hj
  -- who moves to a place in `acquire` was in `acquire`, or begins one
  have hmoves : ∀ {i p}, s'.pc = update s.pc i p → (i ≠ k → p.acquires = false) → (s'.pc j).acquires = false := by
    intro i p hpc hp
    rw [hpc]
    by_cases hji : j = i
    · rw [hji, update_self]
      exact hp (hji ▸ hj)
    · rw [update_of_ne hji]
      exact h.alone j hj
  cases hm with
  | skip hs =>
    subst hs
    exact h.alone j hj
  | tick d ho hs =>
    subst hs
    exact h.alone j hj
  | queues i c ho hi hpc =>
    subst ho
    cases c with
    | acquire a block => exact hsole.elim
    | setMaxRate value => exact hmoves hpc fun _ => rfl
  | leaves i a deadline cancelled p hi hp ho hpc =>
    exact hmoves hpc fun hne => absurd (h.acquirer (by rw [hi]; rfl)) hne
  | returns i a timer cancelled p hi hp hpc => exact hmoves hpc fun hne => absurd (h.acquirer (by rw [hi]; rfl)) hne
  | cancels i p hi hp ho hpc =>
    refine hmoves hpc fun hne => ?_
    rcases hp with rfl | ⟨hi, -⟩
    · rfl
    · exact absurd (h.acquirer hi) hne
  | sets i value hfrom hpc => exact hmoves hpc fun _ => rfl
  | sleeps i a sleepAmount hfrom hsleep hpos hpc => exact hmoves hpc fun hne => absurd (h.tries hsole hfrom).1 hne
  | grants i a hfrom hpc => exact hmoves hpc fun _ => rfl
  | refused i a hfrom hpc => exact hmoves hpc fun _ => rfl
  | zeroDivision i a hfrom hsleep hpc => exact hmoves hpc fun _ => rfl

theorem sole_step (hmin : 0 < C.minRate) (h : Lone C k amount s) {o : Op} (hsole : Sole k o) :
    Lone C k amount (step C s o) := by
  have hturn := turn_of_step hmin h hsole
  have hwaiting : ∀ {p}, (step C s o).pc k = p → p.isWaiting = false → ∀ deadline,
      (step C s o).pc k = .waiting amount deadline → (k, false) ∈ (step C s o).condWaiters →
        Suffices (step C s o).bucket amount deadline := by
    intro p hp hnot deadline hk
    rw [← hp, hk] at hnot
    cases hnot
  have hown : ∀ {p}, (step C s o).pc k = p → InAcquire amount p →
      (step C s o).pc k = .granted ∨ InAcquire amount ((step C s o).pc k) := by
    intro p hp hin
    rw [hp]
    exact .inr hin
  refine ⟨step_tasks h.tasks o, step_inv h.bounds o, step_alone h hsole, ?_, ?_⟩
  · cases hturn with
    | others hk => rw [hk]; exact h.own
    | sets value hsets hk => rw [hk]; exact h.own
    | awakes deadline hk hp =>
      rcases hp with hp | ⟨timer, hp⟩
      · exact hown hp .reacquired
      · exact hown hp (.reacquiring timer)
    | returns timer hk hp =>
      rcases hp with hp | ⟨timer', hp⟩
      · exact hown hp .reacquired
      · exact hown hp (.reacquiring timer')
    | sleeps sleepAmount hne hk hsleep hpos hp => exact hown hp (.waiting _)
    | grants hp => exact .inl hp
  · cases hturn with
    | others hk d hnow hb hw =>
      rw [hk, hb, hw]
      exact h.enough
    | sets value hsets hk hw => exact fun _ _ hmem => absurd hmem hw
    | awakes deadline hk hp =>
      rcases hp with hp | ⟨timer, hp⟩
      · exact hwaiting hp rfl
      · exact hwaiting hp rfl
    | returns timer hk hp =>
      rcases hp with hp | ⟨timer', hp⟩
      · exact hwaiting hp rfl
      · exact hwaiting hp rfl
    | sleeps sleepAmount hne hk hsleep hpos hp hnow hb =>
      intro deadline hdeadline _
      rw [hp] at hdeadline
      cases hdeadline
      rw [hb]
      exact suffices_of_sleep hsleep
    | grants hp => exact hwaiting hp rfl

theorem run_lone (hmin : 0 < C.minRate) (h : Lone C k amount s) {ops : List Op} (hops : ∀ o ∈ ops, Sole k o) :
    Lone C k amount (run (step C) s ops) := by
  have halong : Along (step C) (fun _ o => Sole k o) s ops := along_of_forall s fun o ho _ => hops o ho
  exact run_inv_of (I := Lone C k amount) (fun _ _ h hsole => sole_step hmin h hsole) h halong

/-! ## After the last rate change -/

/-- the wait in progress, or the one that has just ended, is the last -/
inductive Covered (k : ℕ) (amount : ℚ≥0) (s : St) : Prop
  | granted (hk : s.pc k = .granted)
  | waiting (deadline : ℚ) (hk : s.pc k = .waiting amount deadline) (hw : (k, false) ∈ s.condWaiters)
  | awake (hk : s.pc k = .reacquired amount false ∨ ∃ timer, s.pc k = .reacquiring amount timer false)
      (hripe : Ripe s amount)

/-- 1 if task `k` begins to wait -/
def waitsBegun (C : Cfg) (k : ℕ) (s : St) (o : Op) : ℕ :=
  if (s.pc k).isWaiting = false ∧ ((step C s o).pc k).isWaiting = true then 1 else 0

theorem not_begun {o : Op} (h : (s.pc k).isWaiting = true ∨ ((step C s o).pc k).isWaiting = false) :
    waitsBegun C k s o = 0 := by
  rw [waitsBegun, if_neg]
  rintro ⟨h1, h2⟩
  rcases h with h | h
  · rw [h] at h1
    cases h1
  · rw [h] at h2
    cases h2

theorem ripe_not_sleep (hv : s.bucket.Valid C s.now) (hripe : Ripe s amount) {sleepAmount : ℚ}
    (hsleep : (s.bucket.refill s.now).sleepAmount amount = some sleepAmount) : ¬ 0 < sleepAmount := by
  obtain ⟨hz, rfl⟩ := sleepAmount_eq hsleep
  have hpos : 0 < (s.bucket.refill s.now).fillRate := lt_of_le_of_ne hv.refill.rate_nonneg (Ne.symm hz)
  rw [div_pos_iff_of_pos_right hpos, sub_pos, not_lt]
  exact hripe

/-- a task that waits and is not notified -/
theorem Tasks.covered (h : Tasks s) {deadline : ℚ} (hk : s.pc k = .waiting amount deadline)
    (hw : (k, true) ∉ s.condWaiters) : Covered k amount s := by
  apply Covered.waiting deadline hk
  have hmem : k ∈ s.condWaiters.map Prod.fst := by
    rw [h.waiting, hk]
    rfl
  obtain ⟨⟨j, notified⟩, hj, rfl⟩ := List.mem_map.1 hmem
  cases notified with
  | false => exact hj
  | true => exact absurd hj hw

/-- a step without a rate change: the last wait stays the last, and another one begins only if it is the last -/
theorem quiet_step (hmin : 0 < C.minRate) (hamount : amount ≤ 1) (h : Lone C k amount s) {o : Op} (hsole : Sole k o)
    (hquiet : sets s o = none) :
    (Covered k amount s → Covered k amount (step C s o) ∧ waitsBegun C k s o = 0) ∧
      (Covered k amount (step C s o) ∨ waitsBegun C k s o = 0) ∧ waitsBegun C k s o ≤ 1 := by
  have hle : waitsBegun C k s o ≤ 1 := by
    unfold waitsBegun
    split_ifs <;> omega
  cases turn_of_step hmin h hsole with
  | others hk d hnow hb hw =>
    have hzero : waitsBegun C k s o = 0 := by
      refine not_begun ?_
      rw [hk]
      cases (s.pc k).isWaiting <;> simp
    refine ⟨fun hc => ⟨?_, hzero⟩, .inr hzero, hle⟩
    cases hc with
    | granted hp => exact .granted (hk.trans hp)
    | waiting deadline hp hmem => exact .waiting deadline (hk.trans hp) (hw ▸ hmem)
    | awake hp hripe =>
      have hlater := hripe.later h.bounds.bucket d
      exact .awake (by rw [hk]; exact hp) (hlater.congr hb hnow)
  | sets value hsets =>
    rw [hquiet] at hsets
    cases hsets
  | awakes deadline hk hp hdue hnow hb =>
    have hzero : waitsBegun C k s o = 0 := not_begun (.inl (by rw [hk]; rfl))
    refine ⟨fun hc => ⟨?_, hzero⟩, .inr hzero, hle⟩
    cases hc with
    | granted hp' =>
      rw [hk] at hp'
      cases hp'
    | waiting deadline' hk' hmem =>
      rw [hk] at hk'
      cases hk'
      -- it is not notified, so the time is up
      have hlate : deadline ≤ s.now := by
        refine hdue.resolve_left fun htrue => ?_
        have heq := List.inj_on_of_nodup_map h.tasks.nodup hmem htrue rfl
        cases heq
      have hripe := (h.enough deadline hk hmem).ripe h.bounds.bucket hamount hlate
      exact .awake hp (hripe.congr hb hnow)
    | awake hp' =>
      rcases hp' with hp' | ⟨timer, hp'⟩ <;> rw [hk] at hp' <;> cases hp'
  | returns timer hk hp hnow hb =>
    have hzero : waitsBegun C k s o = 0 := by
      refine not_begun (.inr ?_)
      rcases hp with hp | ⟨timer', hp⟩ <;> rw [hp] <;> rfl
    refine ⟨fun hc => ⟨?_, hzero⟩, .inr hzero, hle⟩
    cases hc with
    | granted hp' =>
      rw [hk] at hp'
      cases hp'
    | waiting deadline' hk' =>
      rw [hk] at hk'
      cases hk'
    | awake _ hripe => exact .awake hp (hripe.congr hb hnow)
  | sleeps sleepAmount hne hk hsleep hpos hp hnow hb hw =>
    have hcovered : Covered k amount (step C s o) := (step_tasks h.tasks o).covered hp hw
    refine ⟨fun hc => ?_, .inl hcovered, hle⟩
    cases hc with
    | granted hp' => exact absurd hp' hne
    | waiting deadline' hk' =>
      rw [hk'] at hk
      cases hk
    | awake hk' hripe => exact absurd hpos (ripe_not_sleep h.bounds.bucket hripe hsleep)
  | grants hp =>
    have hzero : waitsBegun C k s o = 0 := not_begun (.inr (by rw [hp]; rfl))
    exact ⟨fun _ => ⟨.granted hp, hzero⟩, .inr hzero, hle⟩

/-- no rate change in the run -/
def Unchanged (C : Cfg) (s : St) (ops : List Op) : Prop := Along (step C) (fun s o => sets s o = none) s ops

theorem covered_run (hmin : 0 < C.minRate) (hamount : amount ≤ 1) {ops : List Op} (hops : ∀ o ∈ ops, Sole k o)
    (h : Lone C k amount s) (hquiet : Unchanged C s ops) (hc : Covered k amount s) :
    total (step C) (waitsBegun C k) s ops = 0 := by
  induction ops generalizing s with
  | nil => rfl
  | cons o ops ih =>
    obtain ⟨ho, hquiet⟩ := (along_cons _ s o ops).1 hquiet
    have hsole := hops o List.mem_cons_self
    obtain ⟨hc', hzero⟩ := (quiet_step hmin hamount h hsole ho).1 hc
    rw [total, hzero, ih (fun o' ho' => hops o' (List.mem_cons_of_mem o ho')) (sole_step hmin h hsole) hquiet hc']

theorem quiet_run (hmin : 0 < C.minRate) (hamount : amount ≤ 1) {ops : List Op} (hops : ∀ o ∈ ops, Sole k o)
    (h : Lone C k amount s) (hquiet : Unchanged C s ops) : total (step C) (waitsBegun C k) s ops ≤ 1 := by
  induction ops generalizing s with
  | nil => exact Nat.zero_le 1
  | cons o ops ih =>
    obtain ⟨ho, hquiet⟩ := (along_cons _ s o ops).1 hquiet
    have hsole := hops o List.mem_cons_self
    have hrest : ∀ o' ∈ ops, Sole k o' := fun o' ho' => hops o' (List.mem_cons_of_mem o ho')
    obtain ⟨-, hlast, hle⟩ := quiet_step hmin hamount h hsole ho
    rw [total]
    rcases hlast with hc | hzero
    · rw [covered_run hmin hamount hrest (sole_step hmin h hsole) hquiet hc]
      exact hle
    · rw [hzero, Nat.zero_add]
      exact ih hrest (sole_step hmin h hsole) hquiet

/-! ## The task can return -/

/-- no task is about to change the rate -/
def NonePending (s : St) (k : ℕ) : Prop := ∀ j ≠ k, ∀ c, s.pc j ≠ .entering c

/-- `k` has the lock to itself -/
theorem Lone.own_lock (h : Lone C k amount s) (hpending : NonePending s k) :
    (∀ j, s.lock.holder = some j → j = k) ∧ ∀ j ∈ s.lock.waiters, j = k := by
  have hnot : ∀ j, region (s.pc j) ≠ .out → j = k := by
    intro j hj
    by_contra hne
    have hacquires := h.alone j hne
    have hentering := hpending j hne
    cases hpc : s.pc j with
    | entering c => exact hentering c hpc
    | reacquiring a timer cancelled => rw [hpc] at hacquires; cases hacquires
    | reacquired a cancelled => rw [hpc] at hacquires; cases hacquires
    | _ => exact hj (by rw [hpc]; rfl)
  constructor
  · intro j hj
    refine hnot j ?_
    rw [(h.tasks.guards.inside j).2 hj]
    decide
  · intro j hj
    refine hnot j ?_
    rw [(h.tasks.guards.queued j).2 hj]
    decide

/-- out of the lock, it finds it free -/
theorem Lone.free (h : Lone C k amount s) (hpending : NonePending s k) (hout : region (s.pc k) = .out) :
    s.lock.free = true := by
  obtain ⟨hholder, hwaiters⟩ := h.own_lock hpending
  rw [Lock.free_iff]
  constructor
  · rw [Option.eq_none_iff_forall_ne_some]
    intro j hj
    obtain rfl := hholder j hj
    rw [(h.tasks.guards.inside j).2 hj] at hout
    cases hout
  · rw [List.eq_nil_iff_forall_not_mem]
    intro j hj
    obtain rfl := hwaiters j hj
    rw [(h.tasks.guards.queued j).2 hj] at hout
    cases hout

/-- in the queue, it is its turn -/
theorem Lone.ready (h : Lone C k amount s) (hpending : NonePending s k) (hqueued : region (s.pc k) = .queued) :
    s.lock.ready k = true := by
  obtain ⟨hholder, hwaiters⟩ := h.own_lock hpending
  obtain ⟨j, hin | ⟨hready, hwaits⟩⟩ := h.tasks.guards.turn (k := k) (by rw [hqueued]; simp)
  · obtain rfl := hholder j ((h.tasks.guards.inside j).1 hin)
    rw [hin] at hqueued
    cases hqueued
  · obtain rfl := hwaiters j ((h.tasks.guards.queued j).1 hwaits)
    exact hready

/-- the steps of `k` and the clock -/
def Own (k : ℕ) (o : Op) : Prop := o = .resume k ∨ o = .wake k ∨ o = .timeout k ∨ o = .proceed k ∨ ∃ d, o = .tick d

theorem Own.sole {o : Op} (h : Own k o) : Sole k o := by
  rcases h with rfl | rfl | rfl | rfl | ⟨d, rfl⟩ <;> trivial

theorem Own.nonePending {o : Op} (h : Own k o) (hpending : NonePending s k) : NonePending (step C s o) k := by
  have hm := step_move C s o
  generalize step C s o = s' at hm
  intro j hj c
  have hmoves : ∀ {i p}, s'.pc = update s.pc i p → p ≠ .entering c → s'.pc j ≠ .entering c := by
    intro i p hpc hp
    rw [hpc]
    by_cases hji : j = i
    · rw [hji, update_self]
      exact hp
    · rw [update_of_ne hji]
      exact hpending j hj c
  cases hm with
  | skip hs =>
    subst hs
    exact hpending j hj c
  | tick d ho hs =>
    subst hs
    exact hpending j hj c
  | queues i c' ho => rcases h with rfl | rfl | rfl | rfl | ⟨d, rfl⟩ <;> cases ho
  | leaves i a deadline cancelled p hi hp ho hpc =>
    rcases hp with rfl | ⟨timer, rfl⟩
    · exact hmoves hpc (by simp)
    · exact hmoves hpc (by simp)
  | returns i a timer cancelled p hi hp hpc =>
    rcases hp with rfl | ⟨timer', rfl⟩
    · exact hmoves hpc (by simp)
    · exact hmoves hpc (by simp)
  | cancels i p hi hp ho hpc =>
    rcases hp with rfl | ⟨-, ⟨a, rfl⟩ | ⟨a, timer, rfl⟩⟩
    · exact hmoves hpc (by simp)
    · exact hmoves hpc (by simp)
    · exact hmoves hpc (by simp)
  | sets i value hfrom hpc => exact hmoves hpc (by simp)
  | sleeps i a sleepAmount hfrom hsleep hpos hpc => exact hmoves hpc (by simp)
  | grants i a hfrom hpc => exact hmoves hpc (by simp)
  | refused i a hfrom hpc => exact hmoves hpc (by simp)
  | zeroDivision i a hfrom hsleep hpc => exact hmoves hpc (by simp)

/-- a state of the only acquirer, with no rate change to come -/
structure Left (C : Cfg) (k : ℕ) (amount : ℚ≥0) (s : St) : Prop where
  lone : Lone C k amount s
  pending : NonePending s k

/-- the steps of `k` bring it to its return, without a rate change -/
def Returns (C : Cfg) (k : ℕ) (s : St) : Prop :=
  ∃ ops, (∀ o ∈ ops, Sole k o) ∧ Unchanged C s ops ∧ (run (step C) s ops).pc k = .granted

theorem Left.sets_none (h : Left C k amount s) {o : Op} (ho : Own k o) : sets s o = none := by
  rcases ho with rfl | rfl | rfl | rfl | ⟨d, rfl⟩
  · simp only [sets]
    split
    · rename_i value hk
      have hown := h.lone.own
      rw [hk] at hown
      rcases hown with hown | hown <;> cases hown
    · rfl
  · rfl
  · rfl
  · rfl
  · rfl

/-- one step of `k`, and the rest -/
theorem Left.then (hmin : 0 < C.minRate) (h : Left C k amount s) {o : Op} (ho : Own k o)
    (hrest : Left C k amount (step C s o) → Returns C k (step C s o)) : Returns C k s := by
  obtain ⟨ops, hops, hquiet, hgranted⟩ := hrest ⟨sole_step hmin h.lone ho.sole, ho.nonePending h.pending⟩
  refine ⟨o :: ops, fun o' ho' => ?_, (along_cons _ s o ops).2 ⟨h.sets_none ho, hquiet⟩, hgranted⟩
  rcases List.mem_cons.1 ho' with rfl | ho'
  · exact ho.sole
  · exact hops o' ho'

theorem returns_of_granted (hk : s.pc k = .granted) : Returns C k s := ⟨[], by simp, along_nil _ s, hk⟩

/-- the loop of `_acquire`, with a fill rate that is not 0 -/
theorem acquireLoop_ends (hmin : 0 < C.minRate) (hv : s.bucket.Valid C s.now) (l : Lock ℕ) :
    ((acquireLoop (refill { s with lock := l }) k amount).pc k = .granted) ∨
      (¬ Ripe s amount ∧ (acquireLoop (refill { s with lock := l }) k amount).condWaiters = s.condWaiters ++ [(k, false)] ∧
        ∃ deadline, (acquireLoop (refill { s with lock := l }) k amount).pc k = .waiting amount deadline) := by
  unfold acquireLoop
  cases hsleep : (s.bucket.refill s.now).sleepAmount amount with
  | none => exact absurd hsleep (sleepAmount_isSome hmin hv amount)
  | some sleepAmount =>
    simp only [refill, hsleep]
    split_ifs with hpos
    · exact .inr ⟨fun hripe => ripe_not_sleep hv hripe hsleep hpos, rfl, _, update_self _ _ _⟩
    · exact .inl (update_self _ _ _)

theorem Left.ripe_returns (hmin : 0 < C.minRate) (h : Left C k amount s) (hk : s.pc k = .reacquired amount false)
    (hripe : Ripe s amount) : Returns C k s := by
  refine h.then hmin (o := .proceed k) (by simp [Own]) fun _ => returns_of_granted ?_
  simp only [step, hk]
  exact (acquireLoop_ends hmin h.lone.bounds.bucket s.lock).resolve_right fun hnot => hnot.1 hripe

/-- a wait that is not interrupted -/
theorem Left.wait_returns (hmin : 0 < C.minRate) (hamount : amount ≤ 1) (h : Left C k amount s) {deadline : ℚ}
    (hk : s.pc k = .waiting amount deadline) (hmem : (k, false) ∈ s.condWaiters) : Returns C k s := by
  refine h.then hmin (o := .tick (Rat.toNNRat (deadline - s.now))) (by simp [Own]) fun h₁ => ?_
  have hdue : deadline ≤ s.now + Rat.toNNRat (deadline - s.now) := by
    have hle := Rat.le_coe_toNNRat (deadline - s.now)
    linarith
  have hripe : Ripe (step C s (.tick (Rat.toNNRat (deadline - s.now)))) amount :=
    (h₁.lone.enough deadline hk hmem).ripe h₁.lone.bounds.bucket hamount hdue
  have hfree : s.lock.free = true := h₁.lone.free h₁.pending (by change region (s.pc k) = _; rw [hk]; rfl)
  generalize hs₁ : step C s (.tick (Rat.toNNRat (deadline - s.now))) = s₁ at h₁ hripe ⊢
  subst hs₁
  refine h₁.then hmin (o := .timeout k) (by simp [Own]) fun h₂ => h₂.ripe_returns hmin ?_ ?_
  · simp [step, hk, hdue, leaveCond, reenter, hfree, goto]
  · unfold Ripe at hripe ⊢
    simpa [step, hk, hdue, leaveCond, reenter, hfree, goto] using hripe

theorem Left.reacquired_returns (hmin : 0 < C.minRate) (hamount : amount ≤ 1) (h : Left C k amount s)
    (hk : s.pc k = .reacquired amount false) : Returns C k s := by
  refine h.then hmin (o := .proceed k) (by simp [Own]) fun h₁ => ?_
  have hstep : step C s (.proceed k) = acquireLoop (refill { s with lock := s.lock }) k amount := by
    simp [step, hk]
  rw [hstep] at h₁ ⊢
  rcases acquireLoop_ends hmin h.lone.bounds.bucket s.lock with hgranted | ⟨-, hw, deadline, hwaits⟩
  · exact returns_of_granted hgranted
  · exact h₁.wait_returns hmin hamount hwaits (by rw [hw]; simp)

theorem Left.returns (hmin : 0 < C.minRate) (hamount : amount ≤ 1) (h : Left C k amount s) : Returns C k s := by
  rcases h.lone.own with hk | hown
  · exact returns_of_granted hk
  · generalize hpc : s.pc k = p at hown
    cases hown with
    | entering =>
      have hready := h.lone.ready h.pending (by rw [hpc]; rfl)
      have hstep : step C s (.resume k) = acquire { s with lock := s.lock.resume k } k amount true := by
        simp [step, hpc, hready, locked]
      refine h.then hmin (o := .resume k) (by simp [Own]) fun h₁ => ?_
      rw [hstep] at h₁ ⊢
      unfold acquire at h₁ ⊢
      simp only [Bool.not_true, Bool.false_eq_true, if_false] at h₁ ⊢
      split_ifs at h₁ ⊢ with hle
      · exact returns_of_granted (update_self _ _ _)
      · rcases acquireLoop_ends hmin h.lone.bounds.bucket (s.lock.resume k) with hgranted | ⟨-, hw, deadline, hwaits⟩
        · exact returns_of_granted hgranted
        · exact h₁.wait_returns hmin hamount hwaits (by rw [hw]; simp)
    | waiting deadline =>
      have hmem : k ∈ s.condWaiters.map Prod.fst := by
        rw [h.lone.tasks.waiting, hpc]
        rfl
      obtain ⟨⟨j, notified⟩, hj, rfl⟩ := List.mem_map.1 hmem
      cases notified with
      | false => exact h.wait_returns hmin hamount hpc hj
      | true =>
        have hfree := h.lone.free h.pending (by rw [hpc]; rfl)
        refine h.then hmin (o := .wake j) (by simp [Own]) fun h₁ => h₁.reacquired_returns hmin hamount ?_
        simp [step, hpc, hj, leaveCond, reenter, hfree, goto]
    | reacquiring timer =>
      have hready := h.lone.ready h.pending (by rw [hpc]; rfl)
      refine h.then hmin (o := .resume k) (by simp [Own]) fun h₁ => h₁.reacquired_returns hmin hamount ?_
      simp [step, hpc, hready, goto]
    | reacquired => exact h.reacquired_returns hmin hamount hpc

/-- the call -/
theorem lone_call (hmin : 0 < C.minRate) (htasks : Tasks s) (hbounds : Inv C s) (halone : Alone s k)
    (hidle : s.pc k = .idle) : Lone C k amount (step C s (.call k (.acquire amount true))) := by
  have hout : ∀ {p s'}, s'.pc = update s.pc k p → Alone s' k := by
    intro p s' hpc j hj
    rw [hpc, update_of_ne hj]
    exact halone j hj
  have htasks' := step_tasks (C := C) htasks (.call k (.acquire amount true))
  have hbounds' := step_inv hbounds (.call k (.acquire amount true))
  have hstep : step C s (.call k (.acquire amount true)) = enter C s k (.acquire amount true) := by simp [step, hidle]
  rw [hstep] at htasks' hbounds' ⊢
  unfold enter at htasks' hbounds' ⊢
  split_ifs at htasks' hbounds' ⊢ with hfree
  · simp only [locked, acquire, Bool.not_true, Bool.false_eq_true, if_false] at htasks' hbounds' ⊢
    split_ifs at htasks' hbounds' ⊢ with hle
    · exact ⟨htasks', hbounds', hout rfl, .inl (update_self _ _ _), fun deadline hk => by simp [grant, goto] at hk⟩
    · unfold acquireLoop at htasks' hbounds' ⊢
      cases hsleep : (s.bucket.refill s.now).sleepAmount amount with
      | none => exact absurd hsleep (sleepAmount_isSome hmin hbounds.bucket amount)
      | some sleepAmount =>
        simp only [refill, hsleep] at htasks' hbounds' ⊢
        split_ifs at htasks' hbounds' ⊢ with hpos
        · refine ⟨htasks', hbounds', hout rfl, .inr ?_, fun deadline hk _ => ?_⟩
          · simp only [goto, update_self]
            exact .waiting _
          · obtain rfl : s.now + sleepAmount = deadline := by simpa [goto] using hk
            exact suffices_of_sleep hsleep
        · exact ⟨htasks', hbounds', hout rfl, .inl (update_self _ _ _), fun deadline hk => by simp [grant, goto] at hk⟩
  · refine ⟨htasks', hbounds', hout rfl, .inr ?_, fun deadline hk => by simp [goto] at hk⟩
    simp only [goto, update_self]
    exact .entering

end Lone

/-! ## Main result -/

/-- **In time.** In every reachable state without another acquirer, task `k` calls `acquire` for at most one token; then
come any rate changes. The fill rate is not 0 and the amount fits the capacity. From then on, without another rate
change, the task begins at most one more wait, none if one is in progress that is not notified; and it can return. -/
theorem acquire_in_time (C : Cfg) (hmin : 0 < C.minRate) (t0 maxRate : ℚ) (ops₀ : List Op) (k : ℕ) {amount : ℚ≥0}
    (hamount : amount ≤ 1) (hidle : (exec C t0 maxRate ops₀).pc k = .idle) (halone : Alone (exec C t0 maxRate ops₀) k)
    (ops₁ : List Op) (hsole : ∀ o ∈ ops₁, Sole k o) :
    let s := exec C t0 maxRate (ops₀ ++ .call k (.acquire amount true) :: ops₁)
    (0 < s.bucket.fillRate ∧ amount ≤ s.bucket.maxCapacity ∧ (s.pc k = .granted ∨ InAcquire amount (s.pc k))) ∧
    (∀ ops₂, (∀ o ∈ ops₂, Sole k o) → Unchanged C s ops₂ →
      total (step C) (waitsBegun C k) s ops₂ ≤ 1 ∧
      (∀ deadline, s.pc k = .waiting amount deadline → (k, false) ∈ s.condWaiters →
        total (step C) (waitsBegun C k) s ops₂ = 0)) ∧
    (NonePending s k → Returns C k s) := by
  intro s
  have hcall : Lone C k amount (step C (exec C t0 maxRate ops₀) (.call k (.acquire amount true))) :=
    lone_call hmin (run_tasks C (init_tasks C t0 maxRate) ops₀) (exec_inv C t0 maxRate ops₀) halone hidle
  have h : Lone C k amount s := by
    simp only [s, run_append, run_cons]
    exact run_lone hmin hcall hsole
  have hone : (amount : ℚ) ≤ 1 := by exact_mod_cast hamount
  refine ⟨⟨hmin.trans_le h.bounds.bucket.rate, hone.trans h.bounds.bucket.one_le, h.own⟩, fun ops₂ hops hquiet => ?_,
    fun hpending => Left.returns hmin hamount ⟨h, hpending⟩⟩
  exact ⟨quiet_run hmin hamount hops h hquiet,
    fun deadline hk hmem => covered_run hmin hamount hops h hquiet (.waiting deadline hk hmem)⟩

theorem acquire_in_time_one :
    let s := exec defaultMinRate 0 0 ([] ++ .call 0 (.acquire 1 true) :: [.call 1 (.setMaxRate 10)])
    ∀ ops, (∀ o ∈ ops, Sole 0 o) → Unchanged defaultMinRate s ops →
      total (step defaultMinRate) (waitsBegun defaultMinRate 0) s ops ≤ 1 := by
  intro s ops hops hquiet
  have hsole : ∀ o ∈ ([.call 1 (.setMaxRate 10)] : List Op), Sole 0 o := by
    intro o ho
    rw [List.mem_singleton.1 ho]
    trivial
  exact ((acquire_in_time defaultMinRate (by norm_num [defaultMinRate]) 0 0 [] 0 le_rfl rfl (fun _ _ => rfl) _ hsole).2.1
    ops hops hquiet).1

/-- with a `min_rate` of 0 there is a rate at which no token ever comes -/
theorem zero_rate_raises : (exec ⟨0, le_rfl⟩ 0 0 [.call 0 (.acquire 1 true)]).pc 0 = .zeroDivisionError := by
  decide +kernel

end AioBotocore.Retries
