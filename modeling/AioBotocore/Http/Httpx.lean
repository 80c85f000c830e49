/-
`HttpxSession` of `httpxsession.py`, entered, with any number of `send` and `__aexit__` (or `close`) calls: a machine
whose operations are what one task does between two suspension points.

`_get_session` suspends at `_session_lock` whether it is free or not, and may suspend in the `__aenter__` of the client.
The lock is mutual exclusion alone: when it is free any task that waits for it may take it. An entered session is not
entered again.

- `step_moves`: everything one operation does.
- `one_client`: while the session is not exited, it has one client at most.
-/
import Mathlib.Tactic
import AioBotocore.Async.Count
import AioBotocore.Async.ExitStack
import AioBotocore.Async.Run

namespace AioBotocore.Http.Httpx

open Async Function

/-! ## Model -/

inductive Pc where
  | idle
  /-- at `_session_lock` -/
  | waiting
  /-- in the `__aenter__` of the client, with the lock -/
  | entering
  | requesting (id : ℕ)
  /-- an exit in the `__aexit__` of a client; one before has raised -/
  | closing (id : ℕ) (failed : Bool)
  | exited
  | raised
deriving DecidableEq, Repr

def Pc.closing? : Pc → Option ℕ
  | .closing id _ => some id
  | _ => none

/-- a send on its way to a client -/
def Pc.creating : Pc → Prop
  | .waiting | .entering => True
  | _ => False

/-- the clients are numbered as they are entered -/
structure St where
  session : Option ℕ
  sessionLock : Option ℕ
  exitStack : ExitStack ℕ
  pc : ℕ → Pc
  /-- how many exits have completed: returned, or raised what a client's `__aexit__` has raised -/
  completed : ℕ

inductive Op where
  | send (k : ℕ)
  /-- `k` takes the lock -/
  | take (k : ℕ)
  | entered (k : ℕ)
  /-- making or entering the client, or the request, raises, or the task is cancelled -/
  | fails (k : ℕ)
  | exit (k : ℕ)
  /-- the `__aexit__` of a client returns, or raises -/
  | closed (k : ℕ) (ok : Bool)
deriving DecidableEq

/-- after `__aenter__` -/
def init : St := ⟨none, none, .empty, fun _ => .idle, 0⟩

def goto (s : St) (k : ℕ) (p : Pc) : St := { s with pc := update s.pc k p }

/-- the loop of `AsyncExitStack.__aexit__` up to its next suspension, and the rest of `__aexit__` after it -/
def unwind (s : St) (k : ℕ) (failed : Bool) : St :=
  match s.exitStack.callbacks with
  | id :: _ => goto { s with exitStack := s.exitStack.pop } k (.closing id failed)
  | [] =>
    if failed then goto { s with session := none, completed := s.completed + 1 } k .raised
    else goto { s with session := none, completed := s.completed + 1 } k .exited

def step (s : St) : Op → St
  | .send k =>
    if s.pc k = .idle then
      match s.session with
      | some id => goto s k (.requesting id)
      | none => goto s k .waiting
    else s
  | .take k =>
    if s.pc k = .waiting ∧ s.sessionLock = none then
      match s.session with
      | some id => goto s k (.requesting id)
      | none => goto { s with sessionLock := some k } k .entering
    else s
  | .entered k =>
    if s.pc k = .entering then
      let id := s.exitStack.entered.length
      goto { s with session := some id, sessionLock := none, exitStack := s.exitStack.push id } k (.requesting id)
    else s
  | .fails k =>
    match s.pc k with
    | .waiting | .requesting _ => goto s k .raised
    | .entering => goto { s with sessionLock := none } k .raised
    | _ => s
  | .exit k => if s.pc k = .idle then unwind s k false else s
  | .closed k ok =>
    match s.pc k with
    | .closing id failed => unwind { s with exitStack := s.exitStack.close id ok } k (failed || !ok)
    | _ => s

/-! ## What one operation does -/

inductive Moves (s : St) : Op → St → Prop
  | none (o : Op) : Moves s o s
  /-- a send finds the client or raises -/
  | pass (o : Op) {k v} (hk : (s.pc k).closing? = .none) (hlock : s.pc k ≠ .entering) (hv : v.closing? = .none)
      (hnew : ¬ v.creating) : Moves s o (goto s k v)
  | wait {k} (hk : s.pc k = .idle) (hs : s.session = .none) : Moves s (.send k) (goto s k .waiting)
  | create {k} (hk : s.pc k = .waiting) (hl : s.sessionLock = .none) (hs : s.session = .none) :
      Moves s (.take k) (goto { s with session := .none, sessionLock := some k } k .entering)
  | entered {k} (hk : s.pc k = .entering) :
      Moves s (.entered k)
        (goto { s with session := some s.exitStack.entered.length, sessionLock := .none,
                       exitStack := s.exitStack.push s.exitStack.entered.length } k
          (.requesting s.exitStack.entered.length))
  | enterFails {k} (hk : s.pc k = .entering) : Moves s (.fails k) (goto { s with sessionLock := .none } k .raised)
  | exit {k} (hk : s.pc k = .idle) : Moves s (.exit k) (unwind s k false)
  | closed {k id failed ok} (hk : s.pc k = .closing id failed) :
      Moves s (.closed k ok) (unwind { s with exitStack := s.exitStack.close id ok } k (failed || !ok))

theorem step_moves (s : St) (o : Op) : Moves s o (step s o) := by
  cases o with
  | send k =>
    simp only [step]
    by_cases hk : s.pc k = .idle
    · rw [if_pos hk]
      cases hs : s.session with
      | some i => exact .pass _ (by rw [hk]; rfl) (by simp [hk]) rfl id
      | none => exact .wait hk hs
    · rw [if_neg hk]
      exact .none _
  | take k =>
    simp only [step]
    by_cases hk : s.pc k = .waiting ∧ s.sessionLock = none
    · rw [if_pos hk]
      cases hs : s.session with
      | some i => exact .pass _ (by rw [hk.1]; rfl) (by simp [hk.1]) rfl id
      | none => exact .create hk.1 hk.2 hs
    · rw [if_neg hk]
      exact .none _
  | entered k =>
    simp only [step]
    split_ifs with hk
    · exact .entered hk
    · exact .none _
  | fails k =>
    simp only [step]
    cases hk : s.pc k with
    | waiting | requesting i => exact .pass _ (by rw [hk]; rfl) (by simp [hk]) rfl id
    | entering => exact .enterFails hk
    | _ => exact .none _
  | exit k =>
    simp only [step]
    split_ifs with hk
    · exact .exit hk
    · exact .none _
  | closed k ok =>
    simp only [step]
    cases hk : s.pc k with
    | closing id failed => exact .closed hk
    | _ => exact .none _

/-! ## The lock -/

/-- a task holds the lock iff it enters a client -/
def Locks (s : St) : Prop := ∀ k, s.pc k = .entering ↔ s.sessionLock = some k

theorem Locks.stay {s : St} (h : Locks s) {k : ℕ} {v : Pc} (hk : s.pc k ≠ .entering) (hv : v ≠ .entering) :
    ∀ i, update s.pc k v i = .entering ↔ s.sessionLock = some i :=
  held_stay (p := fun w : Pc => w = .entering) h hk hv

theorem unwind_locks {s : St} (h : Locks s) {k : ℕ} (hk : s.pc k ≠ .entering) (failed : Bool) :
    Locks (unwind s k failed) := by
  unfold unwind
  split
  · exact h.stay hk (by simp)
  · split
    · exact h.stay hk (by simp)
    · exact h.stay hk (by simp)

theorem step_locks (s : St) (o : Op) (h : Locks s) : Locks (step s o) := by
  have hmoves := step_moves s o
  generalize step s o = s' at hmoves ⊢
  cases hmoves with
  | none => exact h
  | @pass o k v hk hlock hv hnew =>
    apply h.stay hlock
    rintro rfl
    exact hnew trivial
  | wait hk hs => exact h.stay (by simp [hk]) (by simp)
  | create hk hl hs => exact held_take (p := fun w : Pc => w = .entering) h hl rfl
  | entered hk | enterFails hk => exact held_release (p := fun w : Pc => w = .entering) h hk (by simp)
  | exit hk => exact unwind_locks h (by simp [hk]) false
  | @closed k id failed ok hk =>
    have hnot : s.pc k ≠ .entering := by simp [hk]
    exact unwind_locks (s := { s with exitStack := s.exitStack.close id ok }) h hnot _

/-! ## One client -/

def Op.isExit : Op → Bool
  | .exit _ => true
  | _ => false

structure Single (s : St) : Prop where
  locks : Locks s
  absent : ∀ k, s.pc k = .entering → s.session = none
  clients : s.exitStack.entered.length = if s.session = none then 0 else 1
  working : ∀ k, (s.pc k).closing? = none

theorem single_init : Single init := by
  constructor <;> simp [init, Locks, ExitStack.empty, Pc.closing?]

theorem closing_update {pc : ℕ → Pc} (h : ∀ k, (pc k).closing? = none) {v : Pc} (hv : v.closing? = none) (k : ℕ) :
    ∀ i, (update pc k v i).closing? = none :=
  (forall_update_iff pc fun _ w => w.closing? = none).2 ⟨hv, fun i _ => h i⟩

theorem step_single (s : St) (o : Op) (h : Single s) (hg : o.isExit = false) : Single (step s o) := by
  have hlocks := step_locks s o h.locks
  have hmoves := step_moves s o
  generalize step s o = s' at hmoves hlocks ⊢
  cases hmoves with
  | none => exact h
  | @pass o k v hk hlock hv hnew =>
    have hv' : v ≠ .entering := by
      rintro rfl
      exact hnew trivial
    exact ⟨hlocks, fun i hi => h.absent i ((update_at_iff hv').1 hi).2, h.clients, closing_update h.working hv k⟩
  | wait hk hs => exact ⟨hlocks, fun _ _ => hs, h.clients, closing_update h.working rfl _⟩
  | create hk hl hs =>
    exact ⟨hlocks, fun _ _ => rfl, by simpa [goto, hs] using h.clients, closing_update h.working rfl _⟩
  | @entered k hk =>
    refine ⟨hlocks, fun i hi => ?_, ?_, closing_update h.working rfl _⟩
    · cases (hlocks i).1 hi
    · have hclients := h.clients
      rw [if_pos (h.absent k hk)] at hclients
      simp [goto, hclients]
  | @enterFails k hk =>
    exact ⟨hlocks, fun i hi => h.absent i ((update_at_iff (by simp)).1 hi).2, h.clients,
      closing_update h.working rfl _⟩
  | exit hk => exact absurd hg (by simp [Op.isExit])
  | @closed k id failed ok hk =>
    have hnone := h.working k
    rw [hk] at hnone
    cases hnone

/-- the check under the lock: as long as there is no exit, one client is entered at most -/
theorem one_client (ops : List Op) (hopen : ∀ o ∈ ops, o.isExit = false) :
    (run step init ops).exitStack.entered.length ≤ 1 := by
  have halong : Along step (fun _ o => o.isExit = false) init ops := fun _ hj => hopen _ (List.getElem_mem hj)
  have hsingle : Single (run step init ops) := run_inv_of step_single single_init halong
  rw [hsingle.clients]
  split <;> omega

end AioBotocore.Http.Httpx
