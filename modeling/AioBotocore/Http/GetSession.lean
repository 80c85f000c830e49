/-
`_get_session` of `HttpxSession` in `httpxsession.py`, in an entered session before its exit, with the `anyio.Lock` as
it is: a FIFO queue, and a release that hands the lock to the first of it. A machine of any number of sends, whose
operations are what one task does between two suspension points. To make the client, or to enter it, may fail, and a
task may be cancelled wherever it is suspended.

- `step_inv`: the lock, and the one client.
- `one_client_per_session`: at most one client is entered, every send past `_get_session` uses it, and a failed attempt
  leaves the lock to the next send, which tries again.
- `run_refines`: the machine of `HttpxSession`, whose lock is mutual exclusion alone, does all this one does.
-/
import Mathlib.Tactic
import AioBotocore.Async.Lock
import AioBotocore.Http.Httpx

namespace AioBotocore.Http.GetSession

open Async Function
open Httpx (Pc)

/-! ## Model -/

def region : Pc → Region
  | .waiting => .queued
  | .entering => .inside
  | _ => .out

/-- the clients are numbered as they are entered -/
structure St where
  session : Option ℕ
  sessionLock : FairLock ℕ
  exitStack : ExitStack ℕ
  pc : ℕ → Pc

inductive Op where
  | send (k : ℕ)
  /-- `k` runs with the lock; `_make_async_client` returns or raises -/
  | acquired (k : ℕ) (makes : Bool)
  /-- the `__aenter__` of the client returns -/
  | entered (k : ℕ)
  /-- the `__aenter__` or the request raises, or the task is cancelled -/
  | fails (k : ℕ)
deriving DecidableEq

/-- after `__aenter__` -/
def init : St := ⟨none, FairLock.init, .empty, fun _ => .idle⟩

def goto (s : St) (k : ℕ) (p : Pc) : St := { s with pc := update s.pc k p }

def unlock (s : St) : St := { s with sessionLock := s.sessionLock.release }

/-- `_get_session` from the lock on -/
def create (s : St) (k : ℕ) (makes : Bool) : St :=
  match s.session with
  | some id => goto (unlock s) k (.requesting id)
  | none => if makes then goto s k .entering else goto (unlock s) k .raised

def step (s : St) : Op → St
  | .send k =>
    if s.pc k = .idle then
      match s.session with
      | some id => goto s k (.requesting id)
      | none => goto { s with sessionLock := s.sessionLock.acquire k } k .waiting
    else s
  | .acquired k makes => if s.pc k = .waiting ∧ s.sessionLock.holder = some k then create s k makes else s
  | .entered k =>
    if s.pc k = .entering then
      let id := s.exitStack.entered.length
      goto { s with session := some id, sessionLock := s.sessionLock.release, exitStack := s.exitStack.push id } k
        (.requesting id)
    else s
  | .fails k =>
    match s.pc k with
    | .waiting => goto { s with sessionLock := s.sessionLock.abort k } k .raised
    | .entering => goto (unlock s) k .raised
    | .requesting _ => goto s k .raised
    | _ => s

theorem goto_pc (s : St) (k : ℕ) (p : Pc) : (goto s k p).pc k = p := by simp [goto]

theorem goto_pc_of_ne (s : St) {j k : ℕ} (hj : j ≠ k) (p : Pc) : (goto s k p).pc j = s.pc j := by simp [goto, hj]

/-! ## What one operation does -/

inductive Moves (s : St) : Op → St → Prop
  | none (o : Op) : Moves s o s
  | finds {k id} (hk : s.pc k = .idle) (hs : s.session = some id) : Moves s (.send k) (goto s k (.requesting id))
  | waits {k} (hk : s.pc k = .idle) (hs : s.session = .none) :
      Moves s (.send k) (goto { s with sessionLock := s.sessionLock.acquire k } k .waiting)
  | findsLate {k makes id} (hk : s.pc k = .waiting) (hl : s.sessionLock.holder = some k) (hs : s.session = some id) :
      Moves s (.acquired k makes) (goto (unlock s) k (.requesting id))
  | enters {k} (hk : s.pc k = .waiting) (hl : s.sessionLock.holder = some k) (hs : s.session = .none) :
      Moves s (.acquired k true) (goto s k .entering)
  | notMade {k} (hk : s.pc k = .waiting) (hl : s.sessionLock.holder = some k) (hs : s.session = .none) :
      Moves s (.acquired k false) (goto (unlock s) k .raised)
  | entered {k} (hk : s.pc k = .entering) :
      Moves s (.entered k)
        (goto { s with session := some s.exitStack.entered.length, sessionLock := s.sessionLock.release,
                       exitStack := s.exitStack.push s.exitStack.entered.length } k
          (.requesting s.exitStack.entered.length))
  | abandons {k} (hk : s.pc k = .waiting) :
      Moves s (.fails k) (goto { s with sessionLock := s.sessionLock.abort k } k .raised)
  | enterFails {k} (hk : s.pc k = .entering) : Moves s (.fails k) (goto (unlock s) k .raised)
  | requestFails {k id} (hk : s.pc k = .requesting id) : Moves s (.fails k) (goto s k .raised)

theorem step_moves (s : St) (o : Op) : Moves s o (step s o) := by
  cases o with
  | send k =>
    simp only [step]
    split_ifs with hk
    · split
      · exact .finds hk ‹_›
      · exact .waits hk ‹_›
    · exact .none _
  | acquired k makes =>
    simp only [step]
    split_ifs with hk
    · unfold create
      cases hs : s.session with
      | some id => exact .findsLate hk.1 hk.2 hs
      | none =>
        cases makes with
        | true => exact .enters hk.1 hk.2 hs
        | false => exact .notMade hk.1 hk.2 hs
    · exact .none _
  | entered k =>
    simp only [step]
    split_ifs with hk
    · exact .entered hk
    · exact .none _
  | fails k =>
    simp only [step]
    cases hk : s.pc k with
    | waiting => exact .abandons hk
    | entering => exact .enterFails hk
    | requesting id => exact .requestFails hk
    | _ => exact .none _

/-! ## Invariant -/

structure Inv (s : St) : Prop where
  guards : FairLock.Guards region s.sessionLock s.pc
  absent : ∀ k, s.pc k = .entering → s.session = none
  clients : s.exitStack.entered = s.session.toList
  uses : ∀ k id, s.pc k = .requesting id → s.session = some id

theorem init_inv : Inv init where
  guards := FairLock.guards_init fun _ => rfl
  absent _ _ := rfl
  clients := rfl
  uses k id h := by cases h

theorem step_guards {s : St} (h : Inv s) (o : Op) : FairLock.Guards region (step s o).sessionLock (step s o).pc := by
  have hmoves := step_moves s o
  generalize step s o = s' at hmoves
  -- a task out of the lock is not in its queue
  have hout : ∀ {k p}, region (s.pc k) = .out → region p = .out →
      FairLock.Guards region s.sessionLock (update s.pc k p) := by
    intro k p hk hp
    refine h.guards.stay (by rw [hk, hp]) fun hw => ?_
    have hqueued := h.guards.waits k hw
    rw [hk] at hqueued
    cases hqueued
  cases hmoves with
  | none => exact h.guards
  | finds hk => exact hout (by rw [hk]; rfl) rfl
  | waits hk => exact h.guards.request (by rw [hk]; rfl) rfl
  | findsLate hk hl => exact h.guards.leave hl rfl
  | enters hk hl => exact h.guards.enter hl rfl
  | notMade hk hl => exact h.guards.leave hl rfl
  | entered hk => exact h.guards.leave (h.guards.holds (by rw [hk]; rfl)) rfl
  | abandons hk => exact h.guards.abort (by rw [hk]; rfl) rfl
  | enterFails hk => exact h.guards.leave (h.guards.holds (by rw [hk]; rfl)) rfl
  | requestFails hk => exact hout (by rw [hk]; rfl) rfl

/-- a step that enters no client, of a task that has none or finds the one there is -/
theorem Inv.move {s s' : St} (h : Inv s) {k : ℕ} {p : Pc} (hguards : FairLock.Guards region s'.sessionLock s'.pc)
    (hpc : s'.pc = update s.pc k p) (hs : s'.session = s.session) (hstack : s'.exitStack = s.exitStack)
    (habsent : p = .entering → s.session = none) (huses : ∀ id, p = .requesting id → s.session = some id) :
    Inv s' where
  guards := hguards
  absent j hj := by
    rw [hs]
    rw [hpc] at hj
    by_cases hjk : j = k
    · rw [hjk, update_self] at hj
      exact habsent hj
    · rw [update_of_ne hjk] at hj
      exact h.absent j hj
  clients := by rw [hs, hstack, h.clients]
  uses j id hj := by
    rw [hs]
    rw [hpc] at hj
    by_cases hjk : j = k
    · rw [hjk, update_self] at hj
      exact huses id hj
    · rw [update_of_ne hjk] at hj
      exact h.uses j id hj

theorem step_inv (s : St) (o : Op) (h : Inv s) : Inv (step s o) := by
  have hguards := step_guards h o
  have hmoves := step_moves s o
  generalize step s o = s' at hguards hmoves
  cases hmoves with
  | none => exact h
  | @finds k id hk hs =>
    apply h.move hguards rfl rfl rfl
    · simp
    · intro id' heq
      cases heq
      exact hs
  | waits hk hs => exact h.move hguards rfl rfl rfl (by simp) (by simp)
  | @findsLate k makes id hk hl hs =>
    apply h.move hguards rfl rfl rfl
    · simp
    · intro id' heq
      cases heq
      exact hs
  | enters hk hl hs => exact h.move hguards rfl rfl rfl (fun _ => hs) (by simp)
  | notMade hk hl hs => exact h.move hguards rfl rfl rfl (by simp) (by simp)
  | abandons hk => exact h.move hguards rfl rfl rfl (by simp) (by simp)
  | enterFails hk => exact h.move hguards rfl rfl rfl (by simp) (by simp)
  | requestFails hk => exact h.move hguards rfl rfl rfl (by simp) (by simp)
  | @entered k hk =>
    have hnone := h.absent k hk
    have hempty : s.exitStack.entered = [] := by
      rw [h.clients, hnone]
      rfl
    refine ⟨hguards, fun j hj => ?_, by simp [goto, hempty], fun j id hj => ?_⟩
    · -- nobody enters a client but the task that had the lock
      by_cases hjk : j = k
      · rw [hjk, goto_pc] at hj
        cases hj
      · rw [goto_pc_of_ne _ hjk] at hj
        have hboth := h.guards.unique (i := j) (j := k) (by rw [show s.pc j = .entering from hj]; rfl) (by rw [hk]; rfl)
        exact absurd hboth hjk
    · by_cases hjk : j = k
      · rw [hjk, goto_pc] at hj
        cases hj
        rfl
      · rw [goto_pc_of_ne _ hjk] at hj
        have hsome := h.uses j id hj
        rw [hnone] at hsome
        cases hsome

/-! ## The next send -/

/-- the send that gets the lock next makes a client -/
structure TriesAgain (s : St) : Prop where
  /-- the lock has been handed to it, or it enters its client already -/
  next : ∀ j, s.sessionLock.holder = some j → s.pc j = .entering ∨ (step s (.acquired j true)).pc j = .entering
  /-- or the lock is free for a send that begins -/
  free : s.sessionLock.holder = none → ∀ j, s.pc j = .idle →
    (run step s [.send j, .acquired j true]).pc j = .entering

/-- send `k` raises, or is cancelled, on its way to a client -/
def Abandons (s : St) (o : Op) (k : ℕ) : Prop := (s.pc k).creating ∧ (step s o).pc k = .raised

theorem Inv.triesAgain {s : St} (h : Inv s) (hs : s.session = none) : TriesAgain s where
  next j hj := by
    have hbusy := (h.guards.busy j).2 (.inl hj)
    cases hpc : s.pc j with
    | entering => exact .inl rfl
    | waiting =>
      refine .inr ?_
      simp [step, create, hpc, hj, hs, goto_pc]
    | _ =>
      rw [hpc] at hbusy
      exact absurd rfl hbusy
  free hl j hj := by simp [step, create, hj, hs, hl, goto, FairLock.acquire]

/-- the client, the lock and the queue after a send was abandoned -/
theorem Inv.abandoned {s : St} (h : Inv s) {o : Op} {k : ℕ} (ha : Abandons s o k) :
    (step s o).session = s.session ∧ (step s o).exitStack = s.exitStack ∧
      (step s o).sessionLock.queue = s.sessionLock.queue.erase k := by
  obtain ⟨hcreating, hraised⟩ := ha
  have hmoves := step_moves s o
  generalize step s o = s' at hmoves hraised
  have hreleased : s.sessionLock.holder = some k → s.sessionLock.release.queue = s.sessionLock.queue.erase k := by
    intro hl
    rw [FairLock.release_queue, FairLock.queue, hl]
    simp
  -- the other tasks stay where they are
  have hsame : ∀ {j p}, p ≠ .raised → update s.pc j p k ≠ .raised := by
    intro j p hp heq
    by_cases hkj : k = j
    · rw [hkj, update_self] at heq
      exact hp heq
    · rw [update_of_ne hkj] at heq
      rw [heq] at hcreating
      exact hcreating
  have htask : ∀ {j}, update s.pc j .raised k = .raised → j = k := by
    intro j heq
    by_contra hne
    rw [update_of_ne (Ne.symm hne)] at heq
    rw [heq] at hcreating
    exact hcreating
  cases hmoves with
  | none =>
    rw [hraised] at hcreating
    exact hcreating.elim
  | finds hk hs => exact absurd hraised (hsame (by simp))
  | waits hk hs => exact absurd hraised (hsame (by simp))
  | findsLate hk hl hs => exact absurd hraised (hsame (by simp))
  | enters hk hl hs => exact absurd hraised (hsame (by simp))
  | entered hk => exact absurd hraised (hsame (by simp))
  | notMade hk hl hs =>
    obtain rfl := htask hraised
    exact ⟨rfl, rfl, hreleased hl⟩
  | abandons hk =>
    obtain rfl := htask hraised
    exact ⟨rfl, rfl, FairLock.abort_queue _ _⟩
  | enterFails hk =>
    obtain rfl := htask hraised
    exact ⟨rfl, rfl, hreleased (h.guards.holds (by rw [hk]; rfl))⟩
  | requestFails hk =>
    obtain rfl := htask hraised
    rw [hk] at hcreating
    exact hcreating.elim

/-- **One client per session.** In every run before the exit of the session, however many attempts fail or are
cancelled: at most one client is entered, and every send past `_get_session` uses that one. A send that raises or is
cancelled on its way to a client records none and is out of the lock, which is free then, or which the others keep or
get in their order; and as long as there is no client, the send that has the lock next tries to make one. -/
theorem one_client_per_session (ops : List Op) :
    let s := run step init ops
    s.exitStack.entered.length ≤ 1 ∧
    (∀ k id, s.pc k = .requesting id → s.exitStack.entered = [id] ∧ s.session = some id) ∧
    ∀ o k, Abandons s o k → let t := step s o
      t.session = s.session ∧ t.exitStack = s.exitStack ∧
      t.sessionLock.queue = s.sessionLock.queue.erase k ∧ k ∉ t.sessionLock.queue ∧
      (s.sessionLock.queue = [k] → t.sessionLock = FairLock.init) ∧ (t.session = none → TriesAgain t) := by
  intro s
  have h : Inv s := run_inv step_inv init_inv ops
  refine ⟨?_, fun k id hk => ⟨?_, h.uses k id hk⟩, fun o k ha => ?_⟩
  · rw [h.clients]
    exact Option.length_toList_le
  · rw [h.clients, h.uses k id hk]
    rfl
  · obtain ⟨hsession, hstack, hqueue⟩ := h.abandoned ha
    refine ⟨hsession, hstack, hqueue, ?_, fun hk => ?_, (step_inv s o h).triesAgain⟩
    · rw [hqueue]
      exact h.guards.queue_nodup.not_mem_erase
    · rw [hk, List.erase_cons_head] at hqueue
      exact FairLock.eq_init hqueue

/-- a first attempt fails while two sends queue; the second enters the client, which the third uses -/
example :
    let s := run step init [.send 0, .send 1, .send 2, .acquired 0 true, .fails 0, .acquired 1 true, .entered 1,
      .acquired 2 true]
    s.pc 0 = .raised ∧ s.pc 1 = .requesting 0 ∧ s.pc 2 = .requesting 0 ∧ s.sessionLock = FairLock.init := by decide

/-! ## Mutual exclusion alone -/

/-- the same session in the machine of `HttpxSession`: a task holds the lock while it enters a client -/
def toHttpx (s : St) : Httpx.St :=
  ⟨s.session, s.sessionLock.holder.filter fun k => s.pc k = .entering, s.exitStack, s.pc, 0⟩

theorem toHttpx_locks {s : St} (h : Inv s) : Httpx.Locks (toHttpx s) := by
  intro k
  simp only [toHttpx, Option.filter_eq_some_iff, decide_eq_true_eq]
  constructor
  · intro hk
    exact ⟨h.guards.holds (by rw [hk]; rfl), hk⟩
  · intro hk
    exact hk.2

/-- the program counters tell who holds the lock -/
theorem toHttpx_eq {s : St} (h : Inv s) {t : Httpx.St} (hlocks : Httpx.Locks t) (hpc : t.pc = s.pc)
    (hs : t.session = s.session) (hstack : t.exitStack = s.exitStack) (hcompleted : t.completed = 0) : toHttpx s = t := by
  have hlock : (toHttpx s).sessionLock = t.sessionLock := by
    apply Option.ext
    intro k
    rw [← toHttpx_locks h k, ← hlocks k, hpc]
    rfl
  obtain ⟨session, lock, stack, pc, completed⟩ := t
  subst hpc hs hstack hcompleted hlock
  rfl

/-- the operations that bring `HttpxSession`'s machine to the same session -/
theorem Inv.refines {s s' : St} (h : Inv s) (h' : Inv s') (ops : List Httpx.Op) (hopen : ∀ o ∈ ops, o.isExit = false)
    (hsame : let t := run Httpx.step (toHttpx s) ops
      t.pc = s'.pc ∧ t.session = s'.session ∧ t.exitStack = s'.exitStack ∧ t.completed = 0) :
    ∃ ops : List Httpx.Op, (∀ o ∈ ops, o.isExit = false) ∧ toHttpx s' = run Httpx.step (toHttpx s) ops := by
  obtain ⟨hpc, hs, hstack, hcompleted⟩ := hsame
  have hlocks := run_inv Httpx.step_locks (toHttpx_locks h) ops
  exact ⟨ops, hopen, toHttpx_eq h' hlocks hpc hs hstack hcompleted⟩

theorem step_refines {s : St} (h : Inv s) (o : Op) :
    ∃ ops : List Httpx.Op, (∀ o ∈ ops, o.isExit = false) ∧ toHttpx (step s o) = run Httpx.step (toHttpx s) ops := by
  have h' := step_inv s o h
  have hmoves := step_moves s o
  generalize step s o = s' at h' hmoves
  cases hmoves with
  | none => exact ⟨[], by simp, rfl⟩
  | @finds k id hk hs =>
    apply h.refines h' [.send k] (by simp [Httpx.Op.isExit])
    simp [Httpx.step, toHttpx, hk, hs, Httpx.goto, goto]
  | @waits k hk hs =>
    apply h.refines h' [.send k] (by simp [Httpx.Op.isExit])
    simp [Httpx.step, toHttpx, hk, hs, Httpx.goto, goto]
  -- the lock is free there for a task that has it and has not run
  | @findsLate k makes id hk hl hs =>
    apply h.refines h' [.take k] (by simp [Httpx.Op.isExit])
    simp [Httpx.step, toHttpx, hk, hl, hs, Httpx.goto, goto, unlock]
  | @enters k hk hl hs =>
    apply h.refines h' [.take k] (by simp [Httpx.Op.isExit])
    simp [Httpx.step, toHttpx, hk, hl, hs, Httpx.goto, goto]
  | @notMade k hk hl hs =>
    apply h.refines h' [.take k, .fails k] (by simp [Httpx.Op.isExit])
    simp [Httpx.step, toHttpx, hk, hl, hs, Httpx.goto, goto, unlock]
  | @entered k hk =>
    apply h.refines h' [.entered k] (by simp [Httpx.Op.isExit])
    simp [Httpx.step, toHttpx, hk, Httpx.goto, goto]
  | @abandons k hk =>
    apply h.refines h' [.fails k] (by simp [Httpx.Op.isExit])
    simp [Httpx.step, toHttpx, hk, Httpx.goto, goto]
  | @enterFails k hk =>
    apply h.refines h' [.fails k] (by simp [Httpx.Op.isExit])
    simp [Httpx.step, toHttpx, hk, Httpx.goto, goto, unlock]
  | @requestFails k id hk =>
    apply h.refines h' [.fails k] (by simp [Httpx.Op.isExit])
    simp [Httpx.step, toHttpx, hk, Httpx.goto, goto]

theorem Inv.run_refines {s : St} (h : Inv s) (ops : List Op) :
    ∃ ops' : List Httpx.Op, (∀ o ∈ ops', o.isExit = false) ∧
      toHttpx (run step s ops) = run Httpx.step (toHttpx s) ops' := by
  induction ops generalizing s with
  | nil => exact ⟨[], by simp, rfl⟩
  | cons o ops ih =>
    obtain ⟨first, hfirst, hstep⟩ := step_refines h o
    obtain ⟨rest, hrest, hrun⟩ := ih (step_inv s o h)
    refine ⟨first ++ rest, fun o' ho' => ?_, ?_⟩
    · rcases List.mem_append.1 ho' with ho' | ho'
      · exact hfirst o' ho'
      · exact hrest o' ho'
    · rw [run_cons, hrun, hstep, run_append]

/-- whatever the sends do with the fair lock, they do with a lock that is mutual exclusion alone -/
theorem run_refines (ops : List Op) :
    ∃ ops' : List Httpx.Op, (∀ o ∈ ops', o.isExit = false) ∧
      toHttpx (run step init ops) = run Httpx.step Httpx.init ops' :=
  init_inv.run_refines ops

end AioBotocore.Http.GetSession
