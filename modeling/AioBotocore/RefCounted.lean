/-
`_RefCountedSessionMixin.acquire` of `utils.py`, shared by any number of tasks: a machine whose operations are what one
task does between two suspension points. It suspends at the lock, on entry and again on release, and in the session's
`__aenter__` and `__aexit__`.

The lock, `asyncio.Lock` or `anyio.Lock` by backend and created by the first caller before it suspends, is mutual
exclusion alone: when it is free any task that waits may take it. In which order the locks of `Async.Lock` let them in
does not matter here.

- `step_moves`: everything one operation does.
- `ref_counted_session`: as long as no release fails, the count is that of the holders, and they hold an entered
  session.
- `balanced_iff`: a release that fails leaves one too many, for ever.
-/
import Mathlib.Tactic
import AioBotocore.Async.Run
import AioBotocore.Async.Count

namespace AioBotocore.RefCounted

open Async Function

/-! ## Model -/

inductive Pc where
  | idle
  /-- waiting for the lock, on entry -/
  | waiting
  /-- in `await self.__aenter__()` -/
  | entering
  /-- in the block -/
  | holding
  /-- waiting for the lock, on release -/
  | leaving
  /-- in `await self.__aexit__()` -/
  | exiting
deriving DecidableEq, Repr

/-- has a reference to the session -/
def Pc.counted : Pc → Prop
  | .entering | .holding | .leaving | .exiting => True
  | _ => False

/-- holds the lock while suspended -/
def Pc.locked : Pc → Prop
  | .entering | .exiting => True
  | _ => False

instance : DecidablePred Pc.counted := fun p => by cases p <;> simp only [Pc.counted] <;> infer_instance

instance : DecidablePred Pc.locked := fun p => by cases p <;> simp only [Pc.locked] <;> infer_instance

/-- the session of the class that is mixed in; one whose exit failed is exited too -/
inductive Session where
  | exited
  | entering
  | entered
  | exiting
deriving DecidableEq, Repr

/-- `__aenter__` returned, or `__aexit__` was called -/
inductive Call where
  | enter
  | exit
deriving DecidableEq, Repr

structure St where
  refCount : ℕ
  /-- the task that holds the lock while suspended -/
  lock : Option ℕ
  session : Session
  pc : ℕ → Pc
  calls : List Call
  /-- how many releases have failed -/
  failed : ℕ

inductive Op where
  | acquire (k : ℕ)
  /-- `k` takes the lock, on entry -/
  | take (k : ℕ)
  | cancelAcquire (k : ℕ)
  | entered (k : ℕ)
  /-- `__aenter__` raises, or the task is cancelled in it -/
  | enterFails (k : ℕ)
  /-- the block ends, normally or not -/
  | leave (k : ℕ)
  /-- `k` takes the lock, on release -/
  | takeRelease (k : ℕ)
  /-- the task is cancelled while it waits for the lock -/
  | cancelRelease (k : ℕ)
  | exited (k : ℕ)
  /-- `__aexit__` raises, or the task is cancelled in it -/
  | exitFails (k : ℕ)
deriving DecidableEq

def init : St := ⟨0, none, .exited, fun _ => .idle, [], 0⟩

def goto (s : St) (k : ℕ) (p : Pc) : St := { s with pc := update s.pc k p }

def step (s : St) : Op → St
  | .acquire k => if s.pc k = .idle then goto s k .waiting else s
  | .take k =>
    if s.pc k = .waiting ∧ s.lock = none then
      let refCount := s.refCount + 1
      if refCount = 1 then goto { s with refCount := refCount, lock := some k, session := .entering } k .entering
      else goto { s with refCount := refCount } k .holding
    else s
  | .cancelAcquire k => if s.pc k = .waiting then goto s k .idle else s
  | .entered k =>
    if s.pc k = .entering then
      goto { s with lock := none, session := .entered, calls := s.calls ++ [.enter] } k .holding
    else s
  | .enterFails k =>
    if s.pc k = .entering then goto { s with refCount := s.refCount - 1, lock := none, session := .exited } k .idle
    else s
  | .leave k => if s.pc k = .holding then goto s k .leaving else s
  | .takeRelease k =>
    if s.pc k = .leaving ∧ s.lock = none then
      if s.refCount = 1 then goto { s with lock := some k, session := .exiting, calls := s.calls ++ [.exit] } k .exiting
      else goto { s with refCount := s.refCount - 1 } k .idle
    else s
  | .cancelRelease k => if s.pc k = .leaving then goto { s with failed := s.failed + 1 } k .idle else s
  | .exited k =>
    if s.pc k = .exiting then goto { s with refCount := s.refCount - 1, lock := none, session := .exited } k .idle
    else s
  | .exitFails k =>
    if s.pc k = .exiting then goto { s with lock := none, session := .exited, failed := s.failed + 1 } k .idle
    else s

/-- the operation is a release that fails -/
def ReleaseFails (s : St) : Op → Prop
  | .cancelRelease k => s.pc k = .leaving
  | .exitFails k => s.pc k = .exiting
  | _ => False

instance (s : St) (o : Op) : Decidable (ReleaseFails s o) := by
  cases o <;> simp only [ReleaseFails] <;> infer_instance

/-! ## What one operation does -/

inductive Moves (s : St) : Op → St → Prop
  | none (o : Op) (h : ¬ ReleaseFails s o) : Moves s o s
  | acquire {k} (hk : s.pc k = .idle) : Moves s (.acquire k) (goto s k .waiting)
  | enter {k} (hk : s.pc k = .waiting) (hl : s.lock = .none) (hc : s.refCount = 0) :
      Moves s (.take k) (goto { s with refCount := 1, lock := some k, session := .entering } k .entering)
  | join {k} (hk : s.pc k = .waiting) (hl : s.lock = .none) (hc : s.refCount ≠ 0) :
      Moves s (.take k) (goto { s with refCount := s.refCount + 1 } k .holding)
  | cancelAcquire {k} (hk : s.pc k = .waiting) : Moves s (.cancelAcquire k) (goto s k .idle)
  | entered {k} (hk : s.pc k = .entering) :
      Moves s (.entered k)
        (goto { s with lock := .none, session := .entered, calls := s.calls ++ [.enter] } k .holding)
  | enterFails {k} (hk : s.pc k = .entering) :
      Moves s (.enterFails k)
        (goto { s with refCount := s.refCount - 1, lock := .none, session := .exited } k .idle)
  | leave {k} (hk : s.pc k = .holding) : Moves s (.leave k) (goto s k .leaving)
  | exit {k} (hk : s.pc k = .leaving) (hl : s.lock = .none) (hc : s.refCount = 1) :
      Moves s (.takeRelease k)
        (goto { s with lock := some k, session := .exiting, calls := s.calls ++ [.exit] } k .exiting)
  | release {k} (hk : s.pc k = .leaving) (hl : s.lock = .none) (hc : s.refCount ≠ 1) :
      Moves s (.takeRelease k) (goto { s with refCount := s.refCount - 1 } k .idle)
  | cancelRelease {k} (hk : s.pc k = .leaving) :
      Moves s (.cancelRelease k) (goto { s with failed := s.failed + 1 } k .idle)
  | exited {k} (hk : s.pc k = .exiting) :
      Moves s (.exited k) (goto { s with refCount := s.refCount - 1, lock := .none, session := .exited } k .idle)
  | exitFails {k} (hk : s.pc k = .exiting) :
      Moves s (.exitFails k) (goto { s with lock := .none, session := .exited, failed := s.failed + 1 } k .idle)

theorem step_moves (s : St) (o : Op) : Moves s o (step s o) := by
  cases o with
  | take k =>
    simp only [step]
    split_ifs with h hc
    · have hc : s.refCount = 0 := by omega
      rw [hc]
      exact .enter h.1 h.2 hc
    · exact .join h.1 h.2 (by omega)
    · exact .none _ id
  | takeRelease k =>
    simp only [step]
    split_ifs with h hc
    · exact .exit h.1 h.2 hc
    · exact .release h.1 h.2 hc
    · exact .none _ id
  | acquire k =>
    simp only [step]
    split_ifs with h
    · exact .acquire h
    · exact .none _ id
  | cancelAcquire k =>
    simp only [step]
    split_ifs with h
    · exact .cancelAcquire h
    · exact .none _ id
  | entered k =>
    simp only [step]
    split_ifs with h
    · exact .entered h
    · exact .none _ id
  | enterFails k =>
    simp only [step]
    split_ifs with h
    · exact .enterFails h
    · exact .none _ id
  | leave k =>
    simp only [step]
    split_ifs with h
    · exact .leave h
    · exact .none _ id
  | cancelRelease k =>
    simp only [step]
    split_ifs with h
    · exact .cancelRelease h
    · exact .none _ h
  | exited k =>
    simp only [step]
    split_ifs with h
    · exact .exited h
    · exact .none _ id
  | exitFails k =>
    simp only [step]
    split_ifs with h
    · exact .exitFails h
    · exact .none _ h

/-! ## Counting -/

structure Inv (s : St) : Prop where
  /-- a reference whose release failed stays counted -/
  refs : count Pc.counted s.pc + s.failed = s.refCount
  lock : ∀ k, (s.pc k).locked ↔ s.lock = some k

theorem inv_init : Inv init :=
  ⟨by simp [init, count_none (p := Pc.counted) (f := fun _ : ℕ => Pc.idle) (fun _ => id)], by simp [init, Pc.locked]⟩

/-- a counted task has a reference to give back -/
theorem Inv.pos {s : St} (h : Inv s) {k : ℕ} (hk : (s.pc k).counted) : 1 ≤ s.refCount := by
  have hpos := count_pos (f := s.pc) hk
  have hle : (1 : ℕ∞) ≤ s.refCount := h.refs ▸ hpos.trans le_self_add
  exact_mod_cast hle

theorem Inv.leave {s : St} (h : Inv s) {k : ℕ} (hk : (s.pc k).counted) {p : Pc} (hp : ¬ p.counted) :
    count Pc.counted (update s.pc k p) + s.failed = ((s.refCount - 1 : ℕ) : ℕ∞) := by
  have hleave := count_leave (f := s.pc) hk hp
  have hsum : count Pc.counted (update s.pc k p) + s.failed + 1 = ((s.refCount - 1 : ℕ) : ℕ∞) + 1 := by
    have hcast : ((s.refCount - 1 : ℕ) : ℕ∞) + 1 = s.refCount := by
      exact_mod_cast Nat.sub_add_cancel (h.pos hk)
    rw [hcast, ← h.refs, ← hleave]
    ring
  exact (ENat.add_left_injective_of_ne_top ENat.one_ne_top) hsum

theorem Inv.fail {s : St} (h : Inv s) {k : ℕ} (hk : (s.pc k).counted) {p : Pc} (hp : ¬ p.counted) :
    count Pc.counted (update s.pc k p) + ((s.failed + 1 : ℕ) : ℕ∞) = s.refCount := by
  rw [← h.refs, ← count_leave (f := s.pc) hk hp]
  push_cast
  ring

theorem Inv.join {s : St} (h : Inv s) {k : ℕ} (hk : ¬ (s.pc k).counted) {p : Pc} (hp : p.counted) :
    count Pc.counted (update s.pc k p) + s.failed = ((s.refCount + 1 : ℕ) : ℕ∞) := by
  rw [count_join (f := s.pc) hk hp]
  push_cast
  rw [← h.refs]
  ring

theorem step_inv (s : St) (o : Op) (h : Inv s) : Inv (step s o) := by
  have hstay : ∀ {k : ℕ} {p : Pc}, (p.counted ↔ (s.pc k).counted) →
      count Pc.counted (update s.pc k p) + s.failed = s.refCount := fun hp => by rw [count_stay hp, h.refs]
  have hmoves := step_moves s o
  generalize step s o = s' at hmoves ⊢
  cases hmoves with
  | none => exact h
  | acquire hk | cancelAcquire hk | leave hk =>
    exact ⟨hstay (by simp [hk, Pc.counted]), held_stay h.lock (by simp [hk, Pc.locked]) (by simp [Pc.locked])⟩
  | @enter k hk hl hc =>
    have hjoin := h.join (k := k) (p := .entering) (by simp [hk, Pc.counted]) (by simp [Pc.counted])
    rw [hc] at hjoin
    exact ⟨hjoin, held_take h.lock hl (by simp [Pc.locked])⟩
  | join hk hl hc =>
    exact ⟨h.join (by simp [hk, Pc.counted]) (by simp [Pc.counted]),
      held_stay h.lock (by simp [hk, Pc.locked]) (by simp [Pc.locked])⟩
  | entered hk =>
    exact ⟨hstay (by simp [hk, Pc.counted]), held_release h.lock (by simp [hk, Pc.locked]) (by simp [Pc.locked])⟩
  | enterFails hk | exited hk =>
    exact ⟨h.leave (by simp [hk, Pc.counted]) (by simp [Pc.counted]),
      held_release h.lock (by simp [hk, Pc.locked]) (by simp [Pc.locked])⟩
  | exit hk hl hc => exact ⟨hstay (by simp [hk, Pc.counted]), held_take h.lock hl (by simp [Pc.locked])⟩
  | release hk hl hc =>
    exact ⟨h.leave (by simp [hk, Pc.counted]) (by simp [Pc.counted]),
      held_stay h.lock (by simp [hk, Pc.locked]) (by simp [Pc.locked])⟩
  | cancelRelease hk =>
    exact ⟨h.fail (by simp [hk, Pc.counted]) (by simp [Pc.counted]),
      held_stay h.lock (by simp [hk, Pc.locked]) (by simp [Pc.locked])⟩
  | exitFails hk =>
    exact ⟨h.fail (by simp [hk, Pc.counted]) (by simp [Pc.counted]),
      held_release h.lock (by simp [hk, Pc.locked]) (by simp [Pc.locked])⟩

theorem Inv.alone {s : St} (h : Inv s) (hc : s.refCount = 1) {i j : ℕ} (hi : (s.pc i).counted) (hj : (s.pc j).counted) :
    i = j := by
  have hle : count Pc.counted s.pc ≤ s.refCount := h.refs ▸ le_self_add
  rw [hc] at hle
  exact count_alone (by exact_mod_cast hle) hi hj

/-! ## The session, as long as no release fails -/

structure Ok (s : St) : Prop where
  exited : s.session = .exited ↔ s.refCount = 0
  free : s.lock = none → s.session = .exited ∨ s.session = .entered
  entering : ∀ k, s.pc k = .entering → s.session = .entering ∧ s.refCount = 1
  inside : ∀ k, s.pc k = .holding ∨ s.pc k = .leaving → s.session = .entered
  exiting : ∀ k, s.pc k = .exiting → s.session = .exiting ∧ s.refCount = 1
  alternate : s.calls.IsChain (· ≠ ·)
  first : s.calls.head? ≠ some .exit
  last : s.calls.getLast? = some .enter ↔ s.session = .entered

theorem ok_init : Ok init := by
  constructor <;> simp [init]

theorem Inv.lock_alone {s : St} (h : Inv s) {i j : ℕ} (hi : (s.pc i).locked) (hj : (s.pc j).locked) : i = j :=
  Option.some.inj (((h.lock i).1 hi).symm.trans ((h.lock j).1 hj))

/-- the session is neither being entered nor being exited by a task that does not hold the lock -/
theorem Inv.idle {s : St} (h : Inv s) (hl : s.lock = none) (k : ℕ) : s.pc k ≠ .entering ∧ s.pc k ≠ .exiting := by
  have hk := h.lock k
  rw [hl] at hk
  refine ⟨fun he => ?_, fun he => ?_⟩
  · rw [he] at hk
    exact absurd (hk.1 trivial) (by simp)
  · rw [he] at hk
    exact absurd (hk.1 trivial) (by simp)

theorem isChain_snoc {l : List Call} (h : l.IsChain (· ≠ ·)) {c : Call} (hc : l.getLast? ≠ some c) :
    (l ++ [c]).IsChain (· ≠ ·) := by
  rw [List.isChain_append]
  refine ⟨h, by simp, ?_⟩
  rintro a ha b hb rfl
  obtain rfl : c = a := by simpa using hb
  exact hc ha

theorem head_snoc {l : List Call} (h : l.head? ≠ some .exit) {c : Call} (hc : l = [] → c ≠ .exit) :
    (l ++ [c]).head? ≠ some .exit := by
  cases l with
  | nil => simpa using hc rfl
  | cons a l => simpa using h

/-- a reference to an entered session is taken, or given back and others are left -/
theorem Ok.counts {s : St} (h : Inv s) (hok : Ok s) (hl : s.lock = none) (hentered : s.session = .entered) (k : ℕ)
    {c : ℕ} (hc : c ≠ 0) {p : Pc} (hentering : p ≠ .entering) (hexiting : p ≠ .exiting) :
    Ok (goto { s with refCount := c } k p) := by
  refine ⟨by simp [goto, hentered, hc], fun _ => .inr hentered, ?_, fun _ _ => hentered, ?_, hok.alternate, hok.first,
    hok.last⟩
  · intro i hi
    exact absurd ((update_at_iff hentering).1 hi).2 (h.idle hl i).1
  · intro i hi
    exact absurd ((update_at_iff hexiting).1 hi).2 (h.idle hl i).2

/-- the only task with a reference gives it back, and the session is exited -/
theorem Ok.emptied {s : St} (h : Inv s) (hok : Ok s) {k : ℕ} (hk : (s.pc k).counted) (hc : s.refCount = 1)
    (hs : s.session ≠ .entered) :
    Ok (goto { s with refCount := s.refCount - 1, lock := none, session := .exited } k .idle) := by
  have hnone : ∀ {i : ℕ} {p : Pc}, p ≠ .idle → p.counted → update s.pc k .idle i ≠ p := by
    intro i p hp hcounted hi
    obtain ⟨hne, hi⟩ := (update_at_iff hp.symm).1 hi
    exact hne (h.alone hc (by rw [hi]; exact hcounted) hk)
  have hlast : s.calls.getLast? ≠ some .enter := fun he => hs (hok.last.1 he)
  refine ⟨by simp [goto, hc], fun _ => .inl rfl, ?_, ?_, ?_, hok.alternate, hok.first, by simpa [goto] using hlast⟩
  · intro i hi
    exact absurd hi (hnone (by decide) trivial)
  · rintro i (hi | hi)
    · exact absurd hi (hnone (by decide) trivial)
    · exact absurd hi (hnone (by decide) trivial)
  · intro i hi
    exact absurd hi (hnone (by decide) trivial)

/-- the first reference is taken, and the session begins to be entered -/
theorem Ok.enter {s : St} (h : Inv s) (hok : Ok s) (k : ℕ) (hc : s.refCount = 0) :
    Ok (goto { s with refCount := 1, lock := some k, session := .entering } k .entering) := by
  have hnone : ∀ i, ¬ (s.pc i).counted := fun i hi => by have := h.pos hi; omega
  have hexited := hok.exited.2 hc
  refine ⟨by simp [goto], by simp [goto], ?_, ?_, ?_, hok.alternate, hok.first, ?_⟩
  · intro i _
    exact ⟨rfl, rfl⟩
  · rintro i (hi | hi)
    · exact absurd (by rw [((update_at_iff (by decide)).1 hi).2]; trivial) (hnone i)
    · exact absurd (by rw [((update_at_iff (by decide)).1 hi).2]; trivial) (hnone i)
  · intro i hi
    exact absurd (by rw [((update_at_iff (by decide)).1 hi).2]; trivial) (hnone i)
  · have hlast := hok.last
    simp only [hexited, reduceCtorEq, iff_false] at hlast
    simpa [goto] using hlast

theorem Ok.entered {s : St} (h : Inv s) (hok : Ok s) {k : ℕ} (hk : s.pc k = .entering) :
    Ok (goto { s with lock := none, session := .entered, calls := s.calls ++ [.enter] } k .holding) := by
  obtain ⟨hsession, hc⟩ := hok.entering k hk
  have hlast : s.calls.getLast? ≠ some .enter := fun he => by have := hok.last.1 he; rw [hsession] at this; cases this
  have hlock : (s.pc k).locked := by rw [hk]; trivial
  refine ⟨by simp [goto, hc], fun _ => .inr rfl, ?_, fun _ _ => rfl, ?_, isChain_snoc hok.alternate hlast,
    head_snoc hok.first fun _ => by decide, by simp [goto]⟩
  · intro i hi
    obtain ⟨hne, hi⟩ := (update_at_iff (by decide)).1 hi
    exact absurd (h.lock_alone (by rw [hi]; trivial) hlock) hne
  · intro i hi
    obtain ⟨hne, hi⟩ := (update_at_iff (by decide)).1 hi
    exact absurd (h.lock_alone (by rw [hi]; trivial) hlock) hne

/-- the last reference is given back, and the session begins to be exited -/
theorem Ok.exit {s : St} (h : Inv s) (hok : Ok s) {k : ℕ} (hk : s.pc k = .leaving) (hl : s.lock = none)
    (hc : s.refCount = 1) :
    Ok (goto { s with lock := some k, session := .exiting, calls := s.calls ++ [.exit] } k .exiting) := by
  have hlast := hok.last.2 (hok.inside k (.inr hk))
  have hcounted : (s.pc k).counted := by rw [hk]; trivial
  have hnil : s.calls ≠ [] := by rintro hnil; simp [hnil] at hlast
  refine ⟨by simp [goto, hc], by simp [goto], ?_, ?_, fun _ _ => ⟨rfl, hc⟩, ?_,
    head_snoc hok.first fun h => absurd h hnil, by simp [goto]⟩
  · intro i hi
    exact absurd ((update_at_iff (by decide)).1 hi).2 (h.idle hl i).1
  · rintro i (hi | hi)
    · obtain ⟨hne, hi⟩ := (update_at_iff (by decide)).1 hi
      exact absurd (h.alone hc (by rw [hi]; trivial) hcounted) hne
    · obtain ⟨hne, hi⟩ := (update_at_iff (by decide)).1 hi
      exact absurd (h.alone hc (by rw [hi]; trivial) hcounted) hne
  · exact isChain_snoc hok.alternate (by rw [hlast]; decide)

theorem step_ok (s : St) (o : Op) (h : Inv s) (hok : Ok s) (hgood : ¬ ReleaseFails s o) : Ok (step s o) := by
  have hmoves := step_moves s o
  generalize step s o = s' at hmoves ⊢
  cases hmoves with
  | none => exact hok
  | cancelRelease hk => exact absurd hk hgood
  | exitFails hk => exact absurd hk hgood
  | @acquire k hk | @cancelAcquire k hk =>
    refine { hok with entering := ?_, inside := ?_, exiting := ?_ }
    · intro i hi
      exact hok.entering i ((update_at_iff (by decide)).1 hi).2
    · intro i hi
      exact hok.inside i (hi.imp (fun hi => ((update_at_iff (by decide)).1 hi).2)
        fun hi => ((update_at_iff (by decide)).1 hi).2)
    · intro i hi
      exact hok.exiting i ((update_at_iff (by decide)).1 hi).2
  | @leave k hk =>
    refine { hok with entering := ?_, inside := ?_, exiting := ?_ }
    · intro i hi
      exact hok.entering i ((update_at_iff (by decide)).1 hi).2
    · intro i _
      exact hok.inside k (.inl hk)
    · intro i hi
      exact hok.exiting i ((update_at_iff (by decide)).1 hi).2
  | enter hk hl hc => exact hok.enter h _ hc
  | @join k hk hl hc =>
    have hentered : s.session = .entered := (hok.free hl).resolve_left fun he => hc (hok.exited.1 he)
    exact hok.counts h hl hentered k (Nat.succ_ne_zero _) (by decide) (by decide)
  | entered hk => exact hok.entered h hk
  | @enterFails k hk =>
    obtain ⟨hsession, hc⟩ := hok.entering k hk
    exact hok.emptied h (by rw [hk]; trivial) hc (by rw [hsession]; decide)
  | @exited k hk =>
    obtain ⟨hsession, hc⟩ := hok.exiting k hk
    exact hok.emptied h (by rw [hk]; trivial) hc (by rw [hsession]; decide)
  | exit hk hl hc => exact hok.exit h hk hl hc
  | @release k hk hl hc =>
    have hentered := hok.inside k (.inr hk)
    have hpos := h.pos (k := k) (by rw [hk]; trivial)
    exact hok.counts h hl hentered k (by omega) (by decide) (by decide)

theorem run_inv (ops : List Op) : Inv (run step init ops) := Async.run_inv step_inv inv_init ops

theorem run_ok {ops : List Op} (h : Along step (fun s o => ¬ ReleaseFails s o) init ops) : Ok (run step init ops) :=
  (run_inv_of (I := fun s => Inv s ∧ Ok s) (fun s o hs hg => ⟨step_inv s o hs.1, step_ok s o hs.1 hs.2 hg⟩)
    ⟨inv_init, ok_init⟩ h).2

/-! ## Releases that fail -/

theorem step_failed (s : St) (o : Op) :
    (step s o).failed = s.failed + if ReleaseFails s o then 1 else 0 := by
  have hmoves := step_moves s o
  generalize step s o = s' at hmoves ⊢
  cases hmoves with
  | none _ h => simp [h]
  | cancelRelease hk | exitFails hk => simp [goto, ReleaseFails, hk]
  | _ => simp [goto, ReleaseFails]

theorem run_failed (s : St) (ops : List Op) :
    (run step s ops).failed = 0 ↔ s.failed = 0 ∧ Along step (fun s o => ¬ ReleaseFails s o) s ops := by
  induction ops generalizing s with
  | nil => simp
  | cons o ops ih =>
    rw [run_cons, ih, along_cons, step_failed, ← and_assoc]
    apply and_congr_left'
    by_cases h : ReleaseFails s o <;> simp [h]

/-! ## Main results -/

/-- what the reference count is for -/
structure Balanced (s : St) : Prop where
  count : count Pc.counted s.pc = s.refCount
  /-- in the block there is an entered session -/
  holders : ∀ k, s.pc k = .holding → s.session = .entered
  /-- with no reference left, the next caller enters the session -/
  acquires : ∀ k, s.pc k = .waiting → s.lock = none → (∀ j, ¬ (s.pc j).counted) → (step s (.take k)).pc k = .entering
  /-- the last release exits it -/
  releases : ∀ k, s.pc k = .leaving → s.lock = none → (∀ j, (s.pc j).counted → j = k) →
    (step s (.takeRelease k)).pc k = .exiting

theorem Inv.balanced {s : St} (h : Inv s) (hok : Ok s) (hf : s.failed = 0) : Balanced s := by
  have hcount : Async.count Pc.counted s.pc = s.refCount := by
    rw [← h.refs, hf]
    simp
  refine ⟨hcount, fun k hk => hok.inside k (.inl hk), fun k hk hl hnone => ?_, fun k hk hl honly => ?_⟩
  · rw [count_none hnone] at hcount
    have hzero : s.refCount = 0 := by exact_mod_cast hcount.symm
    simp [step, hk, hl, hzero, goto]
  · rw [count_only (k := k) (by rw [hk]; trivial) honly] at hcount
    have hone : s.refCount = 1 := by exact_mod_cast hcount.symm
    simp [step, hk, hl, hone, goto]

/-- In every run of any number of tasks in which no release fails: the count is that of the tasks with a reference, who
have an entered session; the session is entered only when nobody has one, and exited exactly by the last; an entry that
fails leaves count and session as they were when it began. -/
theorem ref_counted_session (ops : List Op) (h : Along step (fun s o => ¬ ReleaseFails s o) init ops) :
    let s := run step init ops
    Balanced s ∧ s.calls.IsChain (· ≠ ·) ∧ s.calls.head? ≠ some .exit ∧
    (∀ o, (step s o).session = .entering → s.session ≠ .entering → s.session = .exited ∧ s.refCount = 0) ∧
    (∀ o, (step s o).session = .exiting → s.session ≠ .exiting →
      ∃ k, o = .takeRelease k ∧ s.pc k = .leaving ∧ ∀ j, (s.pc j).counted → j = k) ∧
    (∀ k, s.pc k = .entering →
      (step s (.enterFails k)).session = .exited ∧ (step s (.enterFails k)).refCount = 0) ∧
    ∀ k, (step s (.cancelAcquire k)).session = s.session ∧ (step s (.cancelAcquire k)).refCount = s.refCount := by
  intro s
  have hinv : Inv s := run_inv ops
  have hok : Ok s := run_ok h
  have hfailed : s.failed = 0 := (run_failed init ops).2 ⟨rfl, h⟩
  refine ⟨hinv.balanced hok hfailed, hok.alternate, hok.first, fun o hs hne => ?_, fun o hs hne => ?_, fun k hk => ?_,
    fun k => ?_⟩
  · have hmoves := step_moves s o
    generalize step s o = s' at hmoves hs
    cases hmoves with
    | enter hk hl hc => exact ⟨hok.exited.2 hc, hc⟩
    | entered | enterFails | exit | exited | exitFails => simp [goto] at hs
    | _ => exact absurd hs hne
  · have hmoves := step_moves s o
    generalize step s o = s' at hmoves hs
    cases hmoves with
    | @exit k hk hl hc => exact ⟨k, rfl, hk, fun j hj => hinv.alone hc hj (by rw [hk]; trivial)⟩
    | enter | entered | enterFails | exited | exitFails => simp [goto] at hs
    | _ => exact absurd hs hne
  · have hc := (hok.entering k hk).2
    simp [step, hk, goto, hc]
  · by_cases hk : s.pc k = .waiting
    · simp [step, hk, goto]
    · simp [step, hk]

/-- two tasks share the session, and the first leaves it -/
theorem ref_counted_session_two :
    let s := run step init [.acquire 0, .take 0, .acquire 1, .entered 0, .take 1, .leave 0, .takeRelease 0]
    Balanced s ∧ s.session = .entered ∧ s.refCount = 1 :=
  ⟨(ref_counted_session [.acquire 0, .take 0, .acquire 1, .entered 0, .take 1, .leave 0, .takeRelease 0]
    (by decide)).1, by decide, by decide⟩

/-- For every run, releases that fail included: the count is balanced at its end iff none has failed. -/
theorem balanced_iff (ops : List Op) :
    Balanced (run step init ops) ↔ Along step (fun s o => ¬ ReleaseFails s o) init ops := by
  have hinv := run_inv ops
  constructor
  · intro h
    have hrefs := hinv.refs
    rw [h.count] at hrefs
    have hzero : (run step init ops).refCount + (run step init ops).failed = (run step init ops).refCount := by
      exact_mod_cast hrefs
    exact ((run_failed init ops).1 (by omega)).2
  · intro h
    exact hinv.balanced (run_ok h) ((run_failed init ops).2 ⟨rfl, h⟩)

/-- `__aexit__` raises; the next caller is handed the exited session -/
theorem exit_failure_hands_out_exited :
    let s := run step init [.acquire 0, .take 0, .entered 0, .leave 0, .takeRelease 0, .exitFails 0, .acquire 1, .take 1]
    s.pc 1 = .holding ∧ s.session = .exited ∧ s.refCount = 2 ∧ ¬ Balanced s := by
  refine ⟨by decide, by decide, by decide, fun h => ?_⟩
  exact absurd (h.holders 1 (by decide)) (by decide)

end AioBotocore.RefCounted
