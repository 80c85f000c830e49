/-
`AsyncClientRateLimiter` of `retries/adaptive.py` over its token bucket: a machine around that of the bucket. Task `k`
is one call of `on_sending_request` or `on_receiving_response`; its part in the bucket is the bucket's task `k`. The
rate clocker, the rate adjustor and the throttling detector are not part of the machine: what they answer comes with the
operations.

`on_receiving_response` reads the measured rate and the clock before it asks for the lock of the limiter, and holds that
lock while it waits for the lock of the bucket's condition.

- `work_inv`: what a step of a task in the bucket keeps; `step_inv` for the limiter.
- `Ordered`: the responses in the queue of the lock are in the order of their timestamps, after those handled.
- `run_limited`, `Inv.token`: a send that begins when the limiter is enabled takes one token.
- `limiter_runs`: the timestamps, the tokens, the rate and the progress of every run.
-/
import Mathlib.Tactic
import AioBotocore.Retries.Condition

namespace AioBotocore.Adaptive

open Async Function Retries

/-! ## Model -/

/-- what is read before the lock -/
structure Response where
  timestamp : ℚ
  measuredRate : ℚ
deriving DecidableEq, Repr

/-- what the throttling detector and the rate adjustor answer -/
structure Verdict where
  throttling : Bool
  newRate : ℚ
deriving DecidableEq, Repr

/-- a call of the rate adjustor: `error_received(rate_to_use, timestamp)`, or `success_received(timestamp)` -/
structure Adjusted where
  timestamp : ℚ
  rateToUse : Option ℚ
deriving DecidableEq, Repr

inductive Pc where
  | idle
  /-- in `acquire` of the bucket -/
  | sending
  /-- `on_sending_request` has returned, with or without asking the bucket -/
  | sent (limited : Bool)
  /-- queued for the lock of the limiter -/
  | queued (r : Response)
  /-- in `set_max_rate(value)` of the bucket, with the lock -/
  | setting (r : Response) (value : ℚ)
  | handled
  | raised
  | cancelled
deriving DecidableEq

def region : Pc → Region
  | .queued _ => .queued
  | .setting _ _ => .inside
  | _ => .out

/-- the call of the bucket that a task is in -/
def Pc.call? : Pc → Option Call
  | .sending => some (.acquire 1 true)
  | .setting _ value => some (.setMaxRate value)
  | _ => none

structure St where
  tokenBucket : Retries.St
  lock : Lock ℕ
  enabled : Bool
  /-- the calls of the rate adjustor -/
  adjusted : List Adjusted
  /-- the response whose `set_max_rate` was the last to return -/
  lastSet : Option Response
  pc : ℕ → Pc

inductive Op where
  | tick (d : ℚ≥0)
  | send (k : ℕ)
  | receive (k : ℕ) (measuredRate : ℚ) (v : Verdict)
  /-- `k` takes the lock of the limiter -/
  | resume (k : ℕ) (v : Verdict)
  /-- a step of a task in the bucket -/
  | bucket (o : Retries.Op)
  /-- `k` is cancelled in the queue of the lock -/
  | cancel (k : ℕ)
deriving DecidableEq

/-- `_MAX_RATE_ADJUST_SCALE` -/
def maxRateAdjustScale : ℚ := 2

def init (C : Cfg) (t0 maxRate : ℚ) : St :=
  ⟨Retries.init C t0 maxRate, Lock.init, false, [], none, fun _ => .idle⟩

def St.now (s : St) : ℚ := s.tokenBucket.now

def goto (s : St) (k : ℕ) (p : Pc) : St := { s with pc := update s.pc k p }

def unlock (s : St) : St := { s with lock := s.lock.release }

/-- task `k` goes on when its call of the bucket has returned or raised -/
def settle (s : St) (k : ℕ) : St :=
  match s.pc k, s.tokenBucket.pc k with
  | .sending, .granted => goto s k (.sent true)
  | .sending, .zeroDivisionError => goto s k .raised
  | .sending, .cancelled => goto s k .cancelled
  | .setting r _, .rateSet => goto { unlock s with lastSet := some r } k .handled
  | .setting _ _, .cancelled => goto (unlock s) k .cancelled
  | _, _ => s

/-- task `k` makes a step in the bucket -/
def work (C : Cfg) (s : St) (k : ℕ) (o : Retries.Op) : St :=
  settle { s with tokenBucket := Retries.step C s.tokenBucket o } k

/-- `on_sending_request` -/
def send (C : Cfg) (s : St) (k : ℕ) : St :=
  if s.enabled then work C (goto s k .sending) k (.call k (.acquire 1 true)) else goto s k (.sent false)

/-- `on_receiving_response` from the lock on -/
def handle (C : Cfg) (s : St) (k : ℕ) (r : Response) (v : Verdict) : St :=
  let rateToUse :=
    if v.throttling then
      some (if s.enabled then min r.measuredRate s.tokenBucket.bucket.fillRate else r.measuredRate)
    else none
  let value := min v.newRate (maxRateAdjustScale * r.measuredRate)
  let s := { s with adjusted := s.adjusted ++ [⟨r.timestamp, rateToUse⟩], enabled := s.enabled || v.throttling }
  work C (goto s k (.setting r value)) k (.call k (.setMaxRate value))

/-- `on_receiving_response` -/
def receive (C : Cfg) (s : St) (k : ℕ) (measuredRate : ℚ) (v : Verdict) : St :=
  let r : Response := ⟨s.now, measuredRate⟩
  if s.lock.free then handle C { s with lock := s.lock.take k } k r v
  else goto { s with lock := s.lock.enqueue k } k (.queued r)

def step (C : Cfg) (s : St) : Op → St
  | .tick d => { s with tokenBucket := Retries.step C s.tokenBucket (.tick d) }
  | .send k => if s.pc k = .idle then send C s k else s
  | .receive k measuredRate v => if s.pc k = .idle then receive C s k measuredRate v else s
  | .resume k v =>
    if s.lock.ready k then
      match s.pc k with
      | .queued r => handle C { s with lock := s.lock.resume k } k r v
      | _ => s
    else s
  | .bucket o =>
    match o.task with
    | some k => if (s.pc k).call?.isSome then work C s k o else s
    | none => s
  | .cancel k =>
    match s.pc k with
    | .queued _ => goto { s with lock := s.lock.abort k } k .cancelled
    | _ => s

abbrev exec (C : Cfg) (t0 maxRate : ℚ) (ops : List Op) : St := run (step C) (init C t0 maxRate) ops

/-- an error has been handled -/
def Throttled (s : St) : Prop := ∃ a ∈ s.adjusted, a.rateToUse ≠ none

theorem goto_pc (s : St) (k : ℕ) (p : Pc) : (goto s k p).pc k = p := by simp [goto]

theorem goto_pc_of_ne (s : St) {j k : ℕ} (hj : j ≠ k) (p : Pc) : (goto s k p).pc j = s.pc j := by simp [goto, hj]

/-! ## Invariant -/

/-- where the bucket's task stands -/
def Fits (p : Pc) (b : Retries.Pc) : Prop :=
  match p with
  | .idle | .queued _ | .sent false => b = .idle
  | .sending => At (.acquire 1 true) b
  | .setting _ value => At (.setMaxRate value) b
  | .sent true => b = .granted
  | .handled => b = .rateSet
  | .raised => b = .zeroDivisionError
  | .cancelled => b = .cancelled ∨ b = .idle

structure Ordered (s : St) : Prop where
  adjusted : (s.adjusted.map Adjusted.timestamp).Pairwise (· ≤ ·)
  past : ∀ a ∈ s.adjusted, a.timestamp ≤ s.now
  waiters : s.lock.waiters.Pairwise fun i j =>
    ∀ r r', s.pc i = .queued r → s.pc j = .queued r' → r.timestamp ≤ r'.timestamp
  queued : ∀ k r, s.pc k = .queued r → r.timestamp ≤ s.now ∧ ∀ a ∈ s.adjusted, a.timestamp ≤ r.timestamp

structure Base (C : Cfg) (s : St) : Prop where
  tasks : Tasks s.tokenBucket
  guards : Lock.Guards region s.lock s.pc
  ordered : Ordered s
  single : ∀ g ∈ s.tokenBucket.grants, g.amount = 1
  scaled : ∀ k r value, s.pc k = .setting r value → value ≤ 2 * r.measuredRate
  rate : ∀ r ∈ s.lastSet, s.tokenBucket.bucket.fillRate ≤ max C.minRate (2 * r.measuredRate)
  handled : ∀ k, s.pc k = .handled → s.lastSet ≠ none
  enabled : s.enabled = true ↔ Throttled s

structure Inv (C : Cfg) (s : St) : Prop where
  base : Base C s
  fits : ∀ k, Fits (s.pc k) (s.tokenBucket.pc k)

theorem init_inv (C : Cfg) (t0 maxRate : ℚ) : Inv C (init C t0 maxRate) where
  base :=
    { tasks := init_tasks C t0 maxRate
      guards := Lock.guards_init fun _ => rfl
      ordered := ⟨List.Pairwise.nil, by simp [init], List.Pairwise.nil, by simp [init]⟩
      single := by simp [init, Retries.init]
      scaled := by simp [init]
      rate := by simp [init]
      handled := by simp [init]
      enabled := by simp [init, Throttled] }
  fits _ := rfl

/-! ## The order of the responses -/

section Order

variable {s s' : St} {k : ℕ} {r : Response}

/-- nothing new is queued or handled -/
theorem Ordered.mono (h : Ordered s) (hadj : s'.adjusted = s.adjusted) (hnow : s.now ≤ s'.now)
    (hw : s'.lock.waiters.Sublist s.lock.waiters) (hpc : ∀ j r, s'.pc j = .queued r → s.pc j = .queued r) :
    Ordered s' where
  adjusted := by rw [hadj]; exact h.adjusted
  past a ha := (h.past a (hadj ▸ ha)).trans hnow
  waiters := (h.waiters.sublist hw).imp fun hij r r' hr hr' => hij r r' (hpc _ r hr) (hpc _ r' hr')
  queued j r hr := ⟨(h.queued j r (hpc j r hr)).1.trans hnow, by rw [hadj]; exact (h.queued j r (hpc j r hr)).2⟩

/-- a response that is not earlier than those before it is handled -/
theorem Ordered.handle (h : Ordered s) {a : Adjusted} (hadj : s'.adjusted = s.adjusted ++ [a])
    (hlast : ∀ b ∈ s.adjusted, b.timestamp ≤ a.timestamp) (hpast : a.timestamp ≤ s.now) (hnow : s'.now = s.now)
    (hw : s'.lock.waiters.Sublist s.lock.waiters)
    (hpc : ∀ j r, s'.pc j = .queued r → s.pc j = .queued r ∧ a.timestamp ≤ r.timestamp) : Ordered s' where
  adjusted := by
    rw [hadj, List.map_append, List.pairwise_append]
    refine ⟨h.adjusted, List.pairwise_singleton _ _, fun t ht u hu => ?_⟩
    obtain ⟨b, hb, rfl⟩ := List.mem_map.1 ht
    obtain rfl : u = a.timestamp := by simpa using hu
    exact hlast b hb
  past b hb := by
    rw [hadj, List.mem_append, List.mem_singleton] at hb
    rw [hnow]
    rcases hb with hb | rfl
    · exact h.past b hb
    · exact hpast
  waiters := (h.waiters.sublist hw).imp fun hij r r' hr hr' => hij r r' (hpc _ r hr).1 (hpc _ r' hr').1
  queued j r hr := by
    obtain ⟨hold, hle⟩ := hpc j r hr
    refine ⟨by rw [hnow]; exact (h.queued j r hold).1, fun b hb => ?_⟩
    rw [hadj, List.mem_append, List.mem_singleton] at hb
    rcases hb with hb | rfl
    · exact (h.queued j r hold).2 b hb
    · exact hle

/-- a response that comes now queues behind the others -/
theorem Ordered.enqueue (h : Ordered s) (hk : k ∉ s.lock.waiters) (measuredRate : ℚ) :
    Ordered (goto { s with lock := s.lock.enqueue k } k (.queued ⟨s.now, measuredRate⟩)) where
  adjusted := h.adjusted
  past := h.past
  waiters := by
    have hne : ∀ j ∈ s.lock.waiters, j ≠ k := fun j hj hjk => hk (hjk ▸ hj)
    simp only [goto, Lock.enqueue, List.pairwise_append]
    refine ⟨h.waiters.imp_of_mem fun {i j} hi hj hij r r' hr hr' => ?_, List.pairwise_singleton _ _,
      fun i hi j hj r r' hr hr' => ?_⟩
    · rw [update_of_ne (hne i hi)] at hr
      rw [update_of_ne (hne j hj)] at hr'
      exact hij r r' hr hr'
    · obtain rfl : j = k := by simpa using hj
      rw [update_of_ne (hne i hi)] at hr
      rw [update_self] at hr'
      cases hr'
      exact (h.queued i r hr).1
  queued j r hr := by
    by_cases hj : j = k
    · rw [hj, goto_pc] at hr
      cases hr
      exact ⟨le_rfl, h.past⟩
    · rw [goto_pc_of_ne _ hj] at hr
      exact h.queued j r hr

/-- the first of the queue has the earliest timestamp -/
theorem Ordered.first (h : Ordered s) {ws : List ℕ} (hws : s.lock.waiters = k :: ws) (hr : s.pc k = .queued r) :
    ∀ j ∈ ws, ∀ r', s.pc j = .queued r' → r.timestamp ≤ r'.timestamp := by
  have hall := h.waiters
  rw [hws, List.pairwise_cons] at hall
  intro j hj r' hr'
  exact hall.1 j hj r r' hr hr'

end Order

/-! ## A step in the bucket -/

/-- the task of the limiter after a step of its task in the bucket -/
inductive Settles (s : St) (k : ℕ) : St → Prop
  | stays (c : Call) (hcall : (s.pc k).call? = some c) (hat : At c (s.tokenBucket.pc k)) : Settles s k s
  | sent (hk : s.pc k = .sending) (hb : s.tokenBucket.pc k = .granted) : Settles s k (goto s k (.sent true))
  | raised (hk : s.pc k = .sending) (hb : s.tokenBucket.pc k = .zeroDivisionError) : Settles s k (goto s k .raised)
  | cancelled (hk : s.pc k = .sending) (hb : s.tokenBucket.pc k = .cancelled) : Settles s k (goto s k .cancelled)
  | handled (r : Response) (value : ℚ) (hk : s.pc k = .setting r value) (hb : s.tokenBucket.pc k = .rateSet) :
      Settles s k (goto { unlock s with lastSet := some r } k .handled)
  | abandoned (r : Response) (value : ℚ) (hk : s.pc k = .setting r value) (hb : s.tokenBucket.pc k = .cancelled) :
      Settles s k (goto (unlock s) k .cancelled)

theorem settle_of_at {s : St} {k : ℕ} {c : Call} (hat : At c (s.tokenBucket.pc k)) : settle s k = s := by
  unfold settle
  generalize s.tokenBucket.pc k = b at hat
  cases hat <;> cases s.pc k <;> rfl

theorem settle_settles {s : St} {k : ℕ} {c : Call} (hcall : (s.pc k).call? = some c)
    (h : At c (s.tokenBucket.pc k) ∨ Ended c (s.tokenBucket.pc k)) : Settles s k (settle s k) := by
  rcases h with hat | hended
  · rw [settle_of_at hat]
    exact .stays c hcall hat
  · cases hk : s.pc k with
    | sending =>
      rw [hk] at hcall
      obtain rfl : Call.acquire 1 true = c := Option.some.inj hcall
      generalize hb : s.tokenBucket.pc k = b at hended
      cases hended with
      | granted => simpa only [settle, hk, hb] using Settles.sent hk hb
      | zeroDivisionError => simpa only [settle, hk, hb] using Settles.raised hk hb
      | cancelled => simpa only [settle, hk, hb] using Settles.cancelled hk hb
    | setting r value =>
      rw [hk] at hcall
      obtain rfl : Call.setMaxRate value = c := Option.some.inj hcall
      generalize hb : s.tokenBucket.pc k = b at hended
      cases hended with
      | rateSet => simpa only [settle, hk, hb] using Settles.handled r value hk hb
      | cancelled => simpa only [settle, hk, hb] using Settles.abandoned r value hk hb
    | _ =>
      rw [hk] at hcall
      cases hcall

section Work

variable {C : Cfg} {s s' : St} {k : ℕ} {o : Retries.Op} {c : Call}

/-- the other tasks stay, and nobody is let in -/
theorem Base.settle (h : Base C s) (htasks : Tasks s'.tokenBucket)
    (hsingle : ∀ g ∈ s'.tokenBucket.grants, g.amount = 1) (hnow : s.now ≤ s'.now)
    (hguards : Lock.Guards region s'.lock s'.pc) (hw : s'.lock.waiters.Sublist s.lock.waiters)
    (hpc : ∀ j, s'.pc j = s.pc j ∨ region (s'.pc j) = .out) (hadj : s'.adjusted = s.adjusted)
    (hen : s'.enabled = s.enabled)
    (hrate : ∀ r ∈ s'.lastSet, s'.tokenBucket.bucket.fillRate ≤ max C.minRate (2 * r.measuredRate))
    (hhandled : ∀ j, s'.pc j = .handled → s'.lastSet ≠ none) : Base C s' where
  tasks := htasks
  guards := hguards
  ordered := by
    apply h.ordered.mono hadj hnow hw
    intro j r hr
    rcases hpc j with hsame | hout
    · exact hsame ▸ hr
    · rw [hr] at hout
      cases hout
  single := hsingle
  scaled := by
    intro j r value hr
    rcases hpc j with hsame | hout
    · exact h.scaled j r value (hsame ▸ hr)
    · rw [hr] at hout
      cases hout
  rate := hrate
  handled := hhandled
  enabled := by rw [hen, h.enabled, Throttled, Throttled, hadj]

theorem out_update {p : Pc} (hp : region p = .out) (j : ℕ) :
    update s.pc k p j = s.pc j ∨ region (update s.pc k p j) = .out := by
  by_cases hj : j = k
  · exact .inr (by rw [hj, update_self, hp])
  · exact .inl (update_of_ne hj _ _)

theorem Base.handled_update (h : Base C s) {p : Pc} (hp : p ≠ .handled) (j : ℕ)
    (hj : update s.pc k p j = .handled) : s.lastSet ≠ none := by
  by_cases hjk : j = k
  · rw [hjk, update_self] at hj
    exact absurd hj hp
  · rw [update_of_ne hjk] at hj
    exact h.handled j hj

/-- the only step that changes the fill rate is that of the task which returns from `set_max_rate` -/
theorem work_rate (ho : o.task = some k) (hcall : (s.pc k).call? = some c)
    (hat : (o = .call k c ∧ s.tokenBucket.pc k = .idle) ∨ At c (s.tokenBucket.pc k)) :
    ((Retries.step C s.tokenBucket o).bucket.fillRate = s.tokenBucket.bucket.fillRate ∧
      (Retries.step C s.tokenBucket o).pc k ≠ .rateSet) ∨
    ∃ r value, s.pc k = .setting r value ∧ (Retries.step C s.tokenBucket o).pc k = .rateSet ∧
      (Retries.step C s.tokenBucket o).bucket.fillRate = max value C.minRate := by
  rcases step_rate C s.tokenBucket o with ⟨hsame, hnew⟩ | ⟨j, value, hruns, hset, hrate⟩
  · refine .inl ⟨hsame, fun hk => ?_⟩
    have hbefore := hnew k hk
    rcases hat with ⟨-, hidle⟩ | hat
    · rw [hidle] at hbefore
      cases hbefore
    · rw [hbefore] at hat
      cases hat
  · have hjk : j = k := by
      rcases hruns with ⟨rfl, -⟩ | ⟨rfl, -⟩ <;> exact Option.some.inj ho
    subst hjk
    have hc : c = .setMaxRate value := by
      rcases hruns with ⟨rfl, hidle⟩ | ⟨rfl, hentering⟩
      · rcases hat with ⟨heq, -⟩ | hat
        · cases heq
          rfl
        · rw [hidle] at hat
          cases hat
      · rcases hat with ⟨heq, -⟩ | hat
        · cases heq
        · rw [hentering] at hat
          cases hat
          rfl
    rw [hc] at hcall
    cases hpc : s.pc j with
    | setting r value' =>
      rw [hpc] at hcall
      cases hcall
      exact .inr ⟨r, value, rfl, hset, hrate⟩
    | _ =>
      rw [hpc] at hcall
      cases hcall

/-- tokens are taken one at a time -/
theorem work_single (h : Base C s) (hcall : (s.pc k).call? = some c) (ho : o.task = some k)
    (hat : (o = .call k c ∧ s.tokenBucket.pc k = .idle) ∨ At c (s.tokenBucket.pc k)) :
    ∀ g ∈ (Retries.step C s.tokenBucket o).grants, g.amount = 1 := by
  rcases step_grants C s.tokenBucket o with hsame | ⟨j, amount, block, hj, hfrom, hgrants⟩
  · rw [hsame]
    exact h.single
  · obtain rfl : k = j := Option.some.inj (ho.symm.trans hj)
    have hc : ∃ block, c = .acquire amount block := by
      rcases hfrom with ⟨rfl, hidle⟩ | hfrom
      · rcases hat with ⟨heq, -⟩ | hat
        · cases heq
          exact ⟨block, rfl⟩
        · rw [hidle] at hat
          cases hat
      · rcases hat with ⟨-, hidle⟩ | hat
        · rw [hidle] at hfrom
          cases hfrom
        · generalize s.tokenBucket.pc k = b at hfrom hat
          cases hfrom <;> cases hat <;> exact ⟨_, rfl⟩
    obtain ⟨block, rfl⟩ := hc
    have hone : amount = 1 := by
      cases hpc : s.pc k <;> rw [hpc] at hcall <;> cases hcall
      rfl
    intro g hg
    rw [hgrants, List.mem_append, List.mem_singleton] at hg
    rcases hg with hg | rfl
    · exact h.single g hg
    · exact hone

/-- a task goes on in the bucket, or begins its call there -/
theorem work_inv (h : Base C s) (hfits : ∀ j ≠ k, Fits (s.pc j) (s.tokenBucket.pc j))
    (hcall : (s.pc k).call? = some c) (ho : o.task = some k)
    (hat : (o = .call k c ∧ s.tokenBucket.pc k = .idle) ∨ At c (s.tokenBucket.pc k)) : Inv C (work C s k o) := by
  have htasks := step_tasks h.tasks (C := C) o
  have hsingle := work_single h hcall ho hat
  have hnow := step_now C s.tokenBucket o
  have hrate := work_rate (C := C) ho hcall hat
  have hother : ∀ j ≠ k, (Retries.step C s.tokenBucket o).pc j = s.tokenBucket.pc j := by
    intro j hj
    exact step_pc C s.tokenBucket o fun heq => hj (Option.some.inj (heq.symm.trans ho))
  have hgoes : At c ((Retries.step C s.tokenBucket o).pc k) ∨ Ended c ((Retries.step C s.tokenBucket o).pc k) := by
    rcases hat with ⟨rfl, hidle⟩ | hat
    · exact call_at C hidle c
    · exact step_at C hat o
  have hs := settle_settles (s := { s with tokenBucket := Retries.step C s.tokenBucket o }) hcall hgoes
  unfold work
  generalize Retries.step C s.tokenBucket o = b at htasks hsingle hnow hrate hother hgoes hs
  generalize settle { s with tokenBucket := b } k = s' at hs
  have hfits' : ∀ p, Fits p (b.pc k) → ∀ j, Fits (update s.pc k p j) (b.pc j) := by
    intro p hp j
    by_cases hj : j = k
    · rw [hj, update_self]
      exact hp
    · rw [update_of_ne hj, hother j hj]
      exact hfits j hj
  -- a task that does not return from `set_max_rate`
  have hkept : b.pc k ≠ .rateSet → ∀ r ∈ s.lastSet, b.bucket.fillRate ≤ max C.minRate (2 * r.measuredRate) := by
    intro hne r hr
    rcases hrate with ⟨hsame, -⟩ | ⟨-, -, -, hset, -⟩
    · rw [hsame]
      exact h.rate r hr
    · exact absurd hset hne
  cases hs with
  | stays c' hcall' hat' =>
    refine ⟨h.settle htasks hsingle hnow h.guards (.refl _) (fun j => .inl rfl) rfl rfl (hkept ?_) h.handled, fun j => ?_⟩
    · intro heq
      rw [heq] at hat'
      cases hat'
    · by_cases hj : j = k
      · subst hj
        change Fits (s.pc j) (b.pc j)
        change (s.pc j).call? = some c' at hcall'
        cases hpc : s.pc j <;> rw [hpc] at hcall' <;> cases hcall' <;> exact hat'
      · change Fits (s.pc j) (b.pc j)
        rw [hother j hj]
        exact hfits j hj
  | sent hk hb =>
    exact ⟨h.settle htasks hsingle hnow (h.guards.stay (by rw [hk]; rfl)) (.refl _) (out_update rfl) rfl rfl
      (hkept (by rw [hb]; simp)) (h.handled_update (by simp)), hfits' _ hb⟩
  | raised hk hb =>
    exact ⟨h.settle htasks hsingle hnow (h.guards.stay (by rw [hk]; rfl)) (.refl _) (out_update rfl) rfl rfl
      (hkept (by rw [hb]; simp)) (h.handled_update (by simp)), hfits' _ hb⟩
  | cancelled hk hb =>
    exact ⟨h.settle htasks hsingle hnow (h.guards.stay (by rw [hk]; rfl)) (.refl _) (out_update rfl) rfl rfl
      (hkept (by rw [hb]; simp)) (h.handled_update (by simp)), hfits' _ (.inl hb)⟩
  | abandoned r value hk hb =>
    exact ⟨h.settle htasks hsingle hnow (h.guards.leave (by rw [hk]; rfl) rfl) (.refl _) (out_update rfl) rfl rfl
      (hkept (by rw [hb]; simp)) (h.handled_update (by simp)), hfits' _ (.inl hb)⟩
  | handled r value hk hb =>
    refine ⟨h.settle htasks hsingle hnow (h.guards.leave (by rw [hk]; rfl) rfl) (.refl _) (out_update rfl) rfl rfl ?_
      (fun _ _ => Option.some_ne_none r), hfits' _ hb⟩
    intro r' hr'
    obtain rfl : r = r' := Option.some.inj hr'
    rcases hrate with ⟨-, hne⟩ | ⟨r', value', hk', -, hset⟩
    · exact absurd hb hne
    · obtain ⟨rfl, rfl⟩ : r = r' ∧ value = value' := by
        rw [show s.pc k = .setting r value from hk] at hk'
        cases hk'
        exact ⟨rfl, rfl⟩
      calc b.bucket.fillRate = max value C.minRate := hset
        _ ≤ max (2 * r.measuredRate) C.minRate := max_le_max_right _ (h.scaled k r value hk)
        _ = max C.minRate (2 * r.measuredRate) := max_comm _ _

end Work

/-! ## A step of the limiter -/

section Step

variable {C : Cfg} {s : St} {k : ℕ}

/-- a task of the limiter that does not take part in the bucket -/
theorem fits_update (h : Inv C s) {p : Pc} (hp : Fits p (s.tokenBucket.pc k)) (j : ℕ) :
    Fits (update s.pc k p j) (s.tokenBucket.pc j) := by
  by_cases hj : j = k
  · rw [hj, update_self]
    exact hp
  · rw [update_of_ne hj]
    exact h.fits j

theorem send_inv (h : Inv C s) (hk : s.pc k = .idle) : Inv C (send C s k) := by
  have hidle := h.fits k
  rw [hk] at hidle
  have hbase : ∀ p, region p = .out → p ≠ .handled → Base C (goto s k p) := by
    intro p hp hne
    exact h.base.settle h.base.tasks h.base.single le_rfl (h.base.guards.stay (by rw [hk, hp]; rfl)) (.refl _)
      (out_update hp) rfl rfl h.base.rate (h.base.handled_update hne)
  unfold send
  split_ifs
  · refine work_inv (hbase _ rfl (by simp)) (fun j hj => ?_) (c := .acquire 1 true) ?_ rfl (.inl ⟨rfl, hidle⟩)
    · rw [goto_pc_of_ne s hj]
      exact h.fits j
    · rw [goto_pc]
      rfl
  · exact ⟨hbase _ rfl (by simp), fits_update h hidle⟩

/-- a task that has the lock now, and whose response is the earliest of those not handled -/
theorem handle_inv (h : Inv C s) {l : Lock ℕ} {r : Response} (v : Verdict) (hidle : s.tokenBucket.pc k = .idle)
    (hguards : ∀ value, Lock.Guards region l (update s.pc k (.setting r value)))
    (hw : l.waiters.Sublist s.lock.waiters) (hlast : ∀ a ∈ s.adjusted, a.timestamp ≤ r.timestamp)
    (hpast : r.timestamp ≤ s.now) (hfirst : ∀ j ≠ k, ∀ r', s.pc j = .queued r' → r.timestamp ≤ r'.timestamp) :
    Inv C (handle C { s with lock := l } k r v) := by
  unfold handle
  simp only
  generalize hvalue : min v.newRate (maxRateAdjustScale * r.measuredRate) = value
  refine work_inv (c := .setMaxRate value) ?_ (fun j hj => ?_) (by rw [goto_pc]; rfl) rfl (.inl ⟨rfl, hidle⟩)
  · exact
      { tasks := h.base.tasks
        guards := hguards value
        ordered := by
          refine h.base.ordered.handle rfl hlast hpast rfl hw ?_
          intro j r' hr'
          by_cases hj : j = k
          · rw [hj, goto_pc] at hr'
            cases hr'
          · rw [goto_pc_of_ne _ hj] at hr'
            exact ⟨hr', hfirst j hj r' hr'⟩
        single := h.base.single
        scaled := by
          intro j r' value' hj
          by_cases hjk : j = k
          · rw [hjk, goto_pc] at hj
            cases hj
            rw [← hvalue]
            exact min_le_right _ _
          · rw [goto_pc_of_ne _ hjk] at hj
            exact h.base.scaled j r' value' hj
        rate := h.base.rate
        handled := h.base.handled_update (by simp)
        enabled := by
          simp only [goto, Throttled, Bool.or_eq_true, List.mem_append, List.mem_singleton, or_and_right, exists_or,
            exists_eq_left]
          apply or_congr h.base.enabled
          cases v.throttling <;> simp }
  · rw [goto_pc_of_ne _ hj]
    exact h.fits j

theorem receive_inv (h : Inv C s) (hk : s.pc k = .idle) (measuredRate : ℚ) (v : Verdict) :
    Inv C (receive C s k measuredRate v) := by
  have hidle := h.fits k
  have hout : region (s.pc k) = .out := by
    rw [hk]
    rfl
  rw [hk] at hidle
  unfold receive
  simp only
  split_ifs with hfree
  · obtain ⟨-, hnone⟩ := (Lock.free_iff s.lock).1 hfree
    apply handle_inv h v hidle (fun _ => h.base.guards.enter hfree rfl) (.refl _) h.base.ordered.past le_rfl
    intro j _ r' hr'
    have hmem := (h.base.guards.queued j).1 (by rw [hr']; rfl)
    rw [hnone] at hmem
    cases hmem
  · have hnot : k ∉ s.lock.waiters := by
      rw [← h.base.guards.queued, hout]
      simp
    exact ⟨{ tasks := h.base.tasks
             guards := h.base.guards.enqueue (by simpa using hfree) hout rfl
             ordered := h.base.ordered.enqueue hnot measuredRate
             single := h.base.single
             scaled := by
               intro j r value hj
               by_cases hjk : j = k
               · rw [hjk, goto_pc] at hj
                 cases hj
               · rw [goto_pc_of_ne _ hjk] at hj
                 exact h.base.scaled j r value hj
             rate := h.base.rate
             handled := h.base.handled_update (by simp)
             enabled := h.base.enabled }, fits_update h hidle⟩

theorem resume_inv (h : Inv C s) (hready : s.lock.ready k = true) {r : Response} (hk : s.pc k = .queued r)
    (v : Verdict) : Inv C (handle C { s with lock := s.lock.resume k } k r v) := by
  have hidle := h.fits k
  rw [hk] at hidle
  obtain ⟨-, ws, hws, -, -⟩ := h.base.guards.ready_spec hready
  obtain ⟨hpast, hlast⟩ := h.base.ordered.queued k r hk
  apply handle_inv h v hidle (fun _ => h.base.guards.resume hready rfl) (List.tail_sublist _) hlast hpast
  intro j hj r' hr'
  have hmem := (h.base.guards.queued j).1 (by rw [hr']; rfl)
  rw [hws, List.mem_cons] at hmem
  exact h.base.ordered.first hws hk j (hmem.resolve_left hj) r' hr'

theorem step_inv (C : Cfg) (s : St) (o : Op) (h : Inv C s) : Inv C (step C s o) := by
  cases o with
  | tick d =>
    have htasks := step_tasks h.base.tasks (C := C) (.tick d)
    exact ⟨h.base.settle htasks h.base.single (le_add_of_nonneg_right d.2) h.base.guards (.refl _) (fun _ => .inl rfl)
      rfl rfl h.base.rate h.base.handled, h.fits⟩
  | send k =>
    simp only [step]
    split_ifs with hk
    · exact send_inv h hk
    · exact h
  | receive k measuredRate v =>
    simp only [step]
    split_ifs with hk
    · exact receive_inv h hk measuredRate v
    · exact h
  | resume k v =>
    simp only [step]
    split_ifs with hready
    · cases hk : s.pc k with
      | queued r => exact resume_inv h hready hk v
      | _ => exact h
    · exact h
  | bucket o =>
    simp only [step]
    cases ho : o.task with
    | none => exact h
    | some k =>
      simp only
      split_ifs with hcall
      · obtain ⟨c, hc⟩ := Option.isSome_iff_exists.1 hcall
        have hat : At c (s.tokenBucket.pc k) := by
          have hfits := h.fits k
          cases hpc : s.pc k <;> rw [hpc] at hc hfits <;> cases hc <;> exact hfits
        exact work_inv h.base (fun j _ => h.fits j) hc ho (.inr hat)
      · exact h
  | cancel k =>
    simp only [step]
    cases hk : s.pc k with
    | queued r =>
      have hidle := h.fits k
      rw [hk] at hidle
      exact ⟨h.base.settle h.base.tasks h.base.single le_rfl (h.base.guards.abort (by rw [hk]; rfl) rfl)
        (by rw [goto, Lock.abort_waiters]; exact List.erase_sublist) (out_update rfl) rfl rfl h.base.rate
        (h.base.handled_update (by simp)), fits_update h (.inr hidle)⟩
    | _ => exact h

theorem exec_inv (C : Cfg) (t0 maxRate : ℚ) (ops : List Op) : Inv C (exec C t0 maxRate ops) :=
  run_inv (step_inv C) (init_inv C t0 maxRate) ops

end Step

/-! ## Sends -/

/-- a send that has asked the bucket, or was refused or cancelled -/
def Pc.limited : Pc → Bool
  | .sending | .sent true | .raised | .cancelled => true
  | _ => false

section Sends

variable {C : Cfg} {s : St} {j k : ℕ}

theorem goto_limited {p : Pc} (h : (s.pc j).limited = true) (hp : j = k → p.limited = true) :
    ((goto s k p).pc j).limited = true := by
  by_cases hj : j = k
  · rw [hj, goto_pc]
    exact hp hj
  · rwa [goto_pc_of_ne s hj]

theorem settle_limited (h : (s.pc j).limited = true) (k : ℕ) : ((settle s k).pc j).limited = true := by
  have hsetting : ∀ {r value}, s.pc k = .setting r value → j ≠ k := by
    intro r value hk hj
    rw [hj, hk] at h
    cases h
  unfold settle
  split
  · exact goto_limited h fun _ => rfl
  · exact goto_limited h fun _ => rfl
  · exact goto_limited h fun _ => rfl
  · rename_i hk _
    exact goto_limited h fun hj => absurd hj (hsetting hk)
  · exact goto_limited h fun _ => rfl
  · exact h

theorem work_limited (C : Cfg) (h : (s.pc j).limited = true) (k : ℕ) (o : Retries.Op) :
    ((work C s k o).pc j).limited = true :=
  settle_limited (s := { s with tokenBucket := Retries.step C s.tokenBucket o }) h k

/-- once limited, a send stays so -/
theorem step_limited (C : Cfg) (o : Op) (h : (s.pc j).limited = true) : ((step C s o).pc j).limited = true := by
  have hhandle : ∀ {k l r v}, j ≠ k → ((handle C { s with lock := l } k r v).pc j).limited = true := by
    intro k l r v hj
    refine work_limited C (goto_limited ?_ fun heq => absurd heq hj) k _
    exact h
  have hne : ∀ {k}, (s.pc k).limited = false → j ≠ k := by
    intro k hk hj
    rw [hj, hk] at h
    cases h
  cases o with
  | tick d => exact h
  | send k =>
    simp only [step]
    split_ifs with hk
    · have hj : j ≠ k := hne (by rw [hk]; rfl)
      unfold send
      split_ifs
      · exact work_limited C (goto_limited h fun heq => absurd heq hj) k _
      · exact goto_limited h fun heq => absurd heq hj
    · exact h
  | receive k measuredRate v =>
    simp only [step]
    split_ifs with hk
    · have hj : j ≠ k := hne (by rw [hk]; rfl)
      unfold receive
      simp only
      split_ifs
      · exact hhandle hj
      · exact goto_limited h fun heq => absurd heq hj
    · exact h
  | resume k v =>
    simp only [step]
    split_ifs
    · cases hk : s.pc k with
      | queued r => exact hhandle (hne (by rw [hk]; rfl))
      | _ => exact h
    · exact h
  | bucket o =>
    simp only [step]
    cases o.task with
    | none => exact h
    | some k =>
      simp only
      split_ifs
      · exact work_limited C h k o
      · exact h
  | cancel k =>
    simp only [step]
    cases hk : s.pc k with
    | queued r => exact goto_limited h fun _ => rfl
    | _ => exact h

/-- a send begins -/
theorem send_limited (hk : s.pc k = .idle) (henabled : s.enabled = true) :
    ((step C s (.send k)).pc k).limited = true := by
  simp only [step, send, hk, henabled, if_true]
  apply work_limited
  rw [goto_pc]
  rfl

theorem run_limited (h : (s.pc k).limited = true) (ops : List Op) : ((run (step C) s ops).pc k).limited = true :=
  run_inv (I := fun s : St => (s.pc k).limited = true) (fun _ o h => step_limited C o h) h ops

/-- a send that is let through after it asked the bucket has taken one token -/
theorem Inv.token (h : Inv C s) (hk : s.pc k = .sent true) : ∃ time, grantsOf s.tokenBucket k = [⟨k, 1, time⟩] := by
  have hfits := h.fits k
  rw [hk] at hfits
  obtain ⟨g, hg⟩ := h.base.tasks.one k hfits
  have hmem : g ∈ grantsOf s.tokenBucket k := by
    rw [hg]
    exact List.mem_singleton_self g
  obtain ⟨hgrants, htask⟩ := List.mem_filter.1 hmem
  have hamount := h.base.single g hgrants
  have hk' : g.task = k := by simpa using htask
  refine ⟨g.time, ?_⟩
  rw [hg, ← hk', ← hamount]

end Sends

/-! ## Progress -/

/-- in a call that has begun and not returned or raised -/
def Pc.inFlight : Pc → Bool
  | .sending | .queued _ | .setting _ _ => true
  | _ => false

/-- task `j` has a step to make, whatever the rate adjustor answers -/
def CanGoOn (C : Cfg) (s : St) (j : ℕ) : Prop :=
  (∀ v, (step C s (.resume j v)).pc j ≠ s.pc j) ∨
    ∃ o, (o = .resume j ∨ o = .proceed j) ∧ (step C s (.bucket o)).tokenBucket.pc j ≠ s.tokenBucket.pc j

section Progress

variable {C : Cfg} {s : St} {k : ℕ}

theorem settle_tokenBucket (s : St) (k : ℕ) : (settle s k).tokenBucket = s.tokenBucket := by
  unfold settle
  split <;> rfl

theorem Inv.call_of_at (h : Inv C s) {c : Call} (hat : At c (s.tokenBucket.pc k)) : (s.pc k).call?.isSome = true := by
  have hfits := h.fits k
  generalize s.tokenBucket.pc k = b at hat hfits
  cases hpc : s.pc k with
  | sending => rfl
  | setting r value => rfl
  | sent limited =>
    rw [hpc] at hfits
    cases limited <;> cases hfits <;> cases hat
  | cancelled =>
    rw [hpc] at hfits
    rcases hfits with rfl | rfl <;> cases hat
  | _ =>
    rw [hpc] at hfits
    cases hfits
    cases hat

/-- a task of the bucket that can move is suspended in a call -/
theorem at_of_turn {b : Retries.St} {o : Retries.Op} (ho : o = .resume k ∨ o = .proceed k)
    (hmoves : (Retries.step C b o).pc k ≠ b.pc k) : ∃ c, At c (b.pc k) := by
  cases hpc : b.pc k with
  | entering c => exact ⟨c, .entering c⟩
  | waiting amount deadline => exact ⟨_, .waiting amount deadline⟩
  | reacquiring amount timer cancelled => exact ⟨_, .reacquiring amount timer cancelled⟩
  | reacquired amount cancelled => exact ⟨_, .reacquired amount cancelled⟩
  | _ => rcases ho with rfl | rfl <;> exact absurd (by simp [Retries.step, hpc]) hmoves

/-- a task at the lock of the bucket's condition -/
theorem Inv.bucket_turn (h : Inv C s) (hk : Retries.region (s.tokenBucket.pc k) ≠ .out) : ∃ j, CanGoOn C s j := by
  obtain ⟨j, hj⟩ := exists_turn (C := C) h.base.tasks hk
  have hturn : ∃ o : Retries.Op, (o = .resume j ∨ o = .proceed j) ∧ o.task = some j ∧
      (Retries.step C s.tokenBucket o).pc j ≠ s.tokenBucket.pc j := by
    rcases hj with hj | hj
    · exact ⟨_, .inl rfl, rfl, hj⟩
    · exact ⟨_, .inr rfl, rfl, hj⟩
  obtain ⟨o, ho, htask, hmoves⟩ := hturn
  refine ⟨j, .inr ⟨o, ho, ?_⟩⟩
  obtain ⟨c, hat⟩ := at_of_turn ho hmoves
  simp only [step, htask, h.call_of_at hat, if_true, work, settle_tokenBucket]
  exact hmoves

/-- a task that holds the lock of the limiter waits for the lock of the condition, for which somebody can go on -/
theorem Inv.setting_turn (h : Inv C s) {r : Response} {value : ℚ} (hk : s.pc k = .setting r value) :
    ∃ j, CanGoOn C s j := by
  have hfits := h.fits k
  rw [hk] at hfits
  apply h.bucket_turn (k := k)
  generalize s.tokenBucket.pc k = b at hfits
  cases hfits
  simp [Retries.region]

theorem settle_queued (r : Response) (h : s.pc k ≠ .queued r) : (settle s k).pc k ≠ .queued r := by
  unfold settle
  split
  · simp [goto_pc]
  · simp [goto_pc]
  · simp [goto_pc]
  · simp [goto_pc]
  · simp [goto_pc]
  · exact h

/-- the first of the queue takes a free lock -/
theorem Inv.queue_turn (h : Inv C s) {r : Response} (hk : s.pc k = .queued r) : ∃ j, CanGoOn C s j := by
  obtain ⟨j, hin | ⟨hready, hqueued⟩⟩ := h.base.guards.turn (k := k) (by rw [hk]; simp [region])
  · cases hpc : s.pc j with
    | setting r' value => exact h.setting_turn hpc
    | _ =>
      rw [hpc] at hin
      cases hin
  · refine ⟨j, .inl fun v => ?_⟩
    cases hpc : s.pc j with
    | queued r' =>
      simp only [step, hready, hpc, if_true]
      apply settle_queued
      simp [goto]
    | _ =>
      rw [hpc] at hqueued
      cases hqueued

/-- a call in flight waits for a timer, or somebody can go on -/
theorem Inv.progress (h : Inv C s) (hk : (s.pc k).inFlight = true) :
    (∃ amount deadline, s.tokenBucket.pc k = .waiting amount deadline) ∨ ∃ j, CanGoOn C s j := by
  cases hpc : s.pc k with
  | sending =>
    have hfits := h.fits k
    rw [hpc] at hfits
    cases hb : s.tokenBucket.pc k with
    | waiting amount deadline => exact .inl ⟨amount, deadline, rfl⟩
    | entering c => exact .inr (h.bucket_turn (by rw [hb]; simp [Retries.region]))
    | reacquiring amount timer cancelled => exact .inr (h.bucket_turn (by rw [hb]; simp [Retries.region]))
    | reacquired amount cancelled => exact .inr (h.bucket_turn (by rw [hb]; simp [Retries.region]))
    | _ =>
      rw [hb] at hfits
      cases hfits
  | queued r => exact .inr (h.queue_turn hpc)
  | setting r value => exact .inr (h.setting_turn hpc)
  | _ =>
    rw [hpc] at hk
    cases hk

end Progress

/-! ## Runs -/

/-- **Adaptive rate limiter.** In every run, whatever the rates measured and the answers of the rate adjustor:
- the timestamps passed to the rate adjustor never decrease;
- a send that begins after an error has been handled is let through only with one token, taken since it began;
- the fill rate is at most the larger of the minimal rate and twice the measured rate of the response that last set it,
  of which there is one once a response has been handled;
- while a call is in flight it waits for a timer, or some task can go on. -/
theorem limiter_runs (C : Cfg) (t0 maxRate : ℚ) (ops : List Op) :
    let s := exec C t0 maxRate ops
    (s.adjusted.map Adjusted.timestamp).Pairwise (· ≤ ·) ∧
    (∀ k, Throttled s → s.pc k = .idle → grantsOf s.tokenBucket k = [] ∧
      ∀ more limited, let t := run (step C) s (.send k :: more)
        t.pc k = .sent limited → ∃ time, grantsOf t.tokenBucket k = [⟨k, 1, time⟩]) ∧
    ((∀ r ∈ s.lastSet, s.tokenBucket.bucket.fillRate ≤ max C.minRate (2 * r.measuredRate)) ∧
      ∀ k, s.pc k = .handled → s.lastSet ≠ none) ∧
    ∀ k, (s.pc k).inFlight = true →
      (∃ amount deadline, s.tokenBucket.pc k = .waiting amount deadline) ∨ ∃ j, CanGoOn C s j := by
  intro s
  have h : Inv C s := exec_inv C t0 maxRate ops
  refine ⟨h.base.ordered.adjusted, fun k hthrottled hk => ⟨?_, ?_⟩, ⟨h.base.rate, h.base.handled⟩,
    fun k hk => h.progress hk⟩
  · have hidle := h.fits k
    rw [hk] at hidle
    exact h.base.tasks.none k (by rw [show s.tokenBucket.pc k = .idle from hidle]; simp)
  · intro more limited t ht
    have hinv : Inv C t := run_inv (step_inv C) h (.send k :: more)
    have hlimited : (t.pc k).limited = true :=
      run_limited (send_limited hk (h.base.enabled.2 hthrottled)) more
    rw [ht] at hlimited
    cases limited with
    | false => cases hlimited
    | true => exact hinv.token ht

/-- an error handled at once, and a send that sleeps for its token -/
example :
    let s := exec defaultMinRate 0 1 [.receive 0 1 ⟨true, 1 / 2⟩, .send 1, .tick 2, .bucket (.timeout 1),
      .bucket (.proceed 1)]
    s.adjusted = [⟨0, some 1⟩] ∧ s.pc 1 = .sent true ∧ grantsOf s.tokenBucket 1 = [⟨1, 1, 2⟩] := by decide +kernel

end AioBotocore.Adaptive
