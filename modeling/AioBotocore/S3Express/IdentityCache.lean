/-
`AioS3ExpressIdentityCache.get_credentials` of `utils.py`, called by any number of tasks for any buckets: a machine
whose operations are what one task does between two suspension points. A call suspends at the lock of its bucket and in
`create_session`.

A lock is a number; `refreshLocks` is the dict that gives a bucket its lock. A lock of either backend is mutual
exclusion alone: when it is free any task that waits for it may take it.

- `step_moves`: everything one operation does.
- `single_flight`: one `create_session` for a bucket at a time, in every run that does not evict a bucket while a call
  still waits at its lock.
- `refines_lru`: one call after the other, the cache is a least recently used map.
-/
import Mathlib.Tactic
import AioBotocore.Async.Run
import AioBotocore.Lru

namespace AioBotocore.S3Express

open Async Function Lru

variable {β γ : Type*} [DecidableEq β]

/-! ## Model -/

inductive Pc (β : Type*) where
  | idle
  /-- at the lock of the bucket -/
  | waiting (bucket : β) (lock : ℕ)
  /-- in `create_session`, with the lock -/
  | creating (bucket : β) (lock : ℕ)
deriving DecidableEq, Repr

/-- the bucket and the lock of a suspended call -/
def Pc.lock? : Pc β → Option (β × ℕ)
  | .idle => none
  | .waiting b l | .creating b l => some (b, l)

structure St (β γ : Type*) where
  credentials : List (β × γ)
  refreshLocks : β → Option ℕ
  /-- the locks made so far are below -/
  nextLock : ℕ
  holder : ℕ → Option ℕ
  pc : ℕ → Pc β
  /-- the calls of `create_session` -/
  creates : List β
  /-- the calls that returned: task, bucket, credentials -/
  rets : List (ℕ × β × γ)

inductive Op (β γ : Type*) where
  | call (k : ℕ) (bucket : β)
  /-- `k` takes its lock -/
  | run (k : ℕ)
  | created (k : ℕ) (credentials : γ)
  /-- `create_session` raises, or the task is cancelled in it -/
  | fails (k : ℕ)
  /-- the task is cancelled at the lock -/
  | cancel (k : ℕ)

def capacity : ℕ := 100

def init : St β γ := ⟨[], fun _ => none, 0, fun _ => none, fun _ => .idle, [], []⟩

def goto (s : St β γ) (k : ℕ) (p : Pc β) : St β γ := { s with pc := update s.pc k p }

def ret (s : St β γ) (k : ℕ) (b : β) (c : γ) : St β γ := { goto s k .idle with rets := s.rets ++ [(k, b, c)] }

/-- the bucket that has to go -/
def oldestBucket (credentials : List (β × γ)) : Option β :=
  if capacity < credentials.length then credentials.head?.map Prod.fst else none

def store (s : St β γ) (b : β) (c : γ) : St β γ :=
  let credentials := set s.credentials b c
  match oldestBucket credentials with
  | none => { s with credentials := credentials }
  | some oldest => { s with credentials := credentials.tail, refreshLocks := update s.refreshLocks oldest none }

def step (s : St β γ) : Op β γ → St β γ
  | .call k b =>
    match s.pc k with
    | .idle =>
      match get s.credentials b with
      | some c => ret { s with credentials := moveToEnd s.credentials b } k b c
      | none =>
        match s.refreshLocks b with
        | some l => goto s k (.waiting b l)
        | none =>
          goto { s with refreshLocks := update s.refreshLocks b (some s.nextLock), nextLock := s.nextLock + 1 } k
            (.waiting b s.nextLock)
    | _ => s
  | .run k =>
    match s.pc k with
    | .waiting b l =>
      if s.holder l = none then
        match get s.credentials b with
        | some c => ret { s with credentials := moveToEnd s.credentials b } k b c
        | none =>
          goto { s with holder := update s.holder l (some k), creates := s.creates ++ [b] } k (.creating b l)
      else s
    | _ => s
  | .created k c =>
    match s.pc k with
    | .creating b l => ret (store { s with holder := update s.holder l none } b c) k b c
    | _ => s
  | .fails k =>
    match s.pc k with
    | .creating _ l => goto { s with holder := update s.holder l none } k .idle
    | _ => s
  | .cancel k =>
    match s.pc k with
    | .waiting _ _ => goto s k .idle
    | _ => s

/-! ## What one operation does -/

inductive Moves (s : St β γ) : Op β γ → St β γ → Prop
  | none (o : Op β γ) : Moves s o s
  | hit {o : Op β γ} {k b c} (hk : s.pc k = .idle ∨ ∃ l, s.pc k = .waiting b l) (hc : get s.credentials b = some c) :
      Moves s o (ret { s with credentials := moveToEnd s.credentials b } k b c)
  | join {k b l} (hk : s.pc k = .idle) (hl : s.refreshLocks b = some l) :
      Moves s (.call k b) (goto s k (.waiting b l))
  | newLock {k b} (hk : s.pc k = .idle) (hl : s.refreshLocks b = .none) :
      Moves s (.call k b)
        (goto { s with refreshLocks := update s.refreshLocks b (some s.nextLock), nextLock := s.nextLock + 1 } k
          (.waiting b s.nextLock))
  | create {k b l} (hk : s.pc k = .waiting b l) (hl : s.holder l = .none) (hc : get s.credentials b = .none) :
      Moves s (.run k)
        (goto { s with holder := update s.holder l (some k), creates := s.creates ++ [b] } k (.creating b l))
  | created {k b l c} (hk : s.pc k = .creating b l) :
      Moves s (.created k c) (ret (store { s with holder := update s.holder l .none } b c) k b c)
  | fails {k b l} (hk : s.pc k = .creating b l) :
      Moves s (.fails k) (goto { s with holder := update s.holder l .none } k .idle)
  | cancel {k b l} (hk : s.pc k = .waiting b l) : Moves s (.cancel k) (goto s k .idle)

theorem step_moves (s : St β γ) (o : Op β γ) : Moves s o (step s o) := by
  cases o with
  | call k b =>
    simp only [step]
    cases hk : s.pc k with
    | idle =>
      simp only
      cases hc : get s.credentials b with
      | some c => exact .hit (.inl hk) hc
      | none =>
        simp only
        cases hl : s.refreshLocks b with
        | some l => exact .join hk hl
        | none => exact .newLock hk hl
    | waiting => exact .none _
    | creating => exact .none _
  | run k =>
    simp only [step]
    cases hk : s.pc k with
    | waiting b l =>
      simp only
      split_ifs with hl
      · cases hc : get s.credentials b with
        | some c => exact .hit (.inr ⟨l, hk⟩) hc
        | none => exact .create hk hl hc
      · exact .none _
    | idle => exact .none _
    | creating => exact .none _
  | created k c =>
    simp only [step]
    cases hk : s.pc k with
    | creating b l => exact .created hk
    | idle => exact .none _
    | waiting => exact .none _
  | fails k =>
    simp only [step]
    cases hk : s.pc k with
    | creating b l => exact .fails hk
    | idle => exact .none _
    | waiting => exact .none _
  | cancel k =>
    simp only [step]
    cases hk : s.pc k with
    | waiting b l => exact .cancel hk
    | idle => exact .none _
    | creating => exact .none _

/-! ## Invariant -/

structure Inv (s : St β γ) : Prop where
  holds : ∀ k l, s.holder l = some k ↔ ∃ b, s.pc k = .creating b l
  nodup : (keys s.credentials).Nodup
  bounded : s.credentials.length ≤ capacity

omit [DecidableEq β] in
theorem inv_init : Inv (init : St β γ) := ⟨by simp [init], by simp [init, keys], by simp [init]⟩

section Holder

variable {holder : ℕ → Option ℕ} {pc : ℕ → Pc β} {k : ℕ} {p : Pc β}

omit [DecidableEq β] in
/-- a task that is not in `create_session` moves to where it is not either -/
theorem holds_stay (h : ∀ k l, holder l = some k ↔ ∃ b, pc k = .creating b l) (hk : ∀ b l, pc k ≠ .creating b l)
    (hp : ∀ b l, p ≠ .creating b l) (i l : ℕ) : holder l = some i ↔ ∃ b, update pc k p i = .creating b l := by
  by_cases hi : i = k
  · subst hi
    rw [h, update_self]
    exact iff_of_false (fun ⟨b, hb⟩ => hk b l hb) (fun ⟨b, hb⟩ => hp b l hb)
  · rw [update_of_ne hi, h]

omit [DecidableEq β] in
theorem holds_take (h : ∀ k l, holder l = some k ↔ ∃ b, pc k = .creating b l) {l : ℕ} (hl : holder l = none)
    (hk : ∀ b l, pc k ≠ .creating b l) (b : β) (i l' : ℕ) :
    update holder l (some k) l' = some i ↔ ∃ b', update pc k (.creating b l) i = .creating b' l' := by
  by_cases hi : i = k
  · subst hi
    by_cases hl' : l' = l
    · subst hl'
      simp
    · have hnot : ¬ holder l' = some i := fun hh => by
        obtain ⟨b', hb'⟩ := (h i l').1 hh
        exact hk b' l' hb'
      simp [update_of_ne hl', hnot, Ne.symm hl']
  · by_cases hl' : l' = l
    · subst hl'
      have hnot : ¬ ∃ b', pc i = .creating b' l' := fun hb => by
        rw [← h, hl] at hb
        cases hb
      simpa [update_of_ne hi, Ne.symm hi] using hnot
    · rw [update_of_ne hl', update_of_ne hi, h]

omit [DecidableEq β] in
theorem holds_release (h : ∀ k l, holder l = some k ↔ ∃ b, pc k = .creating b l) {b : β} {l : ℕ}
    (hk : pc k = .creating b l) (hp : ∀ b l, p ≠ .creating b l) (i l' : ℕ) :
    update holder l none l' = some i ↔ ∃ b', update pc k p i = .creating b' l' := by
  have hheld := (h k l).2 ⟨b, hk⟩
  by_cases hi : i = k
  · subst hi
    rw [update_self]
    refine iff_of_false (fun hh => ?_) (fun ⟨b', hb'⟩ => hp b' l' hb')
    by_cases hl' : l' = l
    · rw [hl', update_self] at hh
      cases hh
    · rw [update_of_ne hl', h, hk] at hh
      obtain ⟨b', hb'⟩ := hh
      exact hl' (Pc.creating.inj hb').2.symm
  · rw [update_of_ne hi]
    by_cases hl' : l' = l
    · subst hl'
      rw [update_self]
      refine iff_of_false (by simp) (fun hb => ?_)
      rw [← h, hheld] at hb
      exact hi (Option.some.inj hb).symm
    · rw [update_of_ne hl', h]

end Holder

theorem store_holder (s : St β γ) (b : β) (c : γ) : (store s b c).holder = s.holder := by
  simp only [store]
  split <;> rfl

theorem store_pc (s : St β γ) (b : β) (c : γ) : (store s b c).pc = s.pc := by
  simp only [store]
  split <;> rfl

theorem store_credentials (s : St β γ) (b : β) (c : γ) :
    (store s b c).credentials =
      if capacity < (set s.credentials b c).length then (set s.credentials b c).tail else set s.credentials b c := by
  simp only [store, oldestBucket]
  by_cases h : capacity < (set s.credentials b c).length
  · obtain ⟨e, d, hd⟩ := List.exists_cons_of_length_pos (l := set s.credentials b c) (by omega)
    rw [hd] at h
    simp only [hd, h, if_true, List.head?_cons, Option.map_some]
  · simp only [h, if_false]

theorem store_valid {s : St β γ} (hn : (keys s.credentials).Nodup) (hbound : s.credentials.length ≤ capacity) (b : β)
    (c : γ) : (keys (store s b c).credentials).Nodup ∧ (store s b c).credentials.length ≤ capacity := by
  have hlen := length_set_le s.credentials b c
  have hnodup := nodup_set hn b c
  rw [store_credentials]
  split_ifs with hfull
  · refine ⟨?_, by rw [List.length_tail]; omega⟩
    rw [keys, List.map_tail]
    exact hnodup.sublist (List.tail_sublist _)
  · exact ⟨hnodup, by omega⟩

theorem step_inv (s : St β γ) (o : Op β γ) (h : Inv s) : Inv (step s o) := by
  have hmoves := step_moves s o
  generalize step s o = s' at hmoves ⊢
  cases hmoves with
  | none => exact h
  | hit hk hc =>
    refine ⟨holds_stay h.holds (fun b' l' heq => ?_) (by simp), ?_, ?_⟩
    · rcases hk with hk | ⟨l, hk⟩
      · rw [hk] at heq; cases heq
      · rw [hk] at heq; cases heq
    · simp only [ret, goto, keys_moveToEnd h.nodup hc]
      exact nodup_touch h.nodup _
    · simp only [ret, goto, length_moveToEnd]
      exact h.bounded
  | join hk | newLock hk | cancel hk =>
    exact ⟨holds_stay h.holds (by simp [hk]) (by simp), h.nodup, h.bounded⟩
  | create hk hl hc => exact ⟨holds_take h.holds hl (by simp [hk]) _, h.nodup, h.bounded⟩
  | @created k b l c hk =>
    obtain ⟨hnodup, hbound⟩ := store_valid (s := { s with holder := update s.holder l none }) h.nodup h.bounded b c
    refine ⟨?_, hnodup, hbound⟩
    simp only [ret, goto, store_holder, store_pc]
    exact holds_release h.holds hk (by simp)
  | fails hk => exact ⟨holds_release h.holds hk (by simp), h.nodup, h.bounded⟩

/-! ## Single flight -/

/-- the operation evicts a bucket while another call is suspended at its lock -/
def Strands (s : St β γ) : Op β γ → Prop
  | .created k c => ∃ b l oldest, s.pc k = .creating b l ∧ oldestBucket (set s.credentials b c) = some oldest ∧
      ∃ j l', j ≠ k ∧ (s.pc j).lock? = some (oldest, l')
  | _ => False

/-- the calls for a bucket are at the lock that a new call would find -/
def Current (s : St β γ) : Prop := ∀ k b l, (s.pc k).lock? = some (b, l) → s.refreshLocks b = some l

theorem store_refreshLocks (s : St β γ) {b b' : β} {c : γ} (h : oldestBucket (set s.credentials b c) ≠ some b') :
    (store s b c).refreshLocks b' = s.refreshLocks b' := by
  simp only [store]
  split
  · rfl
  · rename_i oldest ho
    have hne : b' ≠ oldest := by
      rintro rfl
      exact h ho
    simp [hne]

omit [DecidableEq β] in
theorem Current.update {s : St β γ} (h : Current s) {k : ℕ} {p : Pc β}
    (hp : ∀ b l, p.lock? = some (b, l) → s.refreshLocks b = some l) (i : ℕ) (b : β) (l : ℕ)
    (hi : (Function.update s.pc k p i).lock? = some (b, l)) : s.refreshLocks b = some l := by
  by_cases hik : i = k
  · subst hik
    rw [update_self] at hi
    exact hp b l hi
  · rw [update_of_ne hik] at hi
    exact h i b l hi

theorem step_current (s : St β γ) (o : Op β γ) (h : Current s) (hg : ¬ Strands s o) : Current (step s o) := by
  have hmoves := step_moves s o
  generalize step s o = s' at hmoves ⊢
  cases hmoves with
  | none => exact h
  | hit hk hc => exact h.update (by simp [Pc.lock?])
  | fails hk | cancel hk => exact h.update (by simp [Pc.lock?])
  | join hk hl =>
    refine h.update fun b' l' heq => ?_
    obtain ⟨rfl, rfl⟩ : _ = b' ∧ _ = l' := by simpa [Pc.lock?] using heq
    exact hl
  | @create k b l hk hl hc =>
    refine h.update fun b' l' heq => h k b' l' ?_
    rw [hk]
    exact heq
  | @newLock k b hk hl =>
    intro i b' l' hi
    by_cases hik : i = k
    · subst hik
      obtain ⟨rfl, rfl⟩ : b = b' ∧ s.nextLock = l' := by simpa [goto, Pc.lock?] using hi
      simp [goto]
    · have hold := h i b' l' (by simpa [goto, update_of_ne hik] using hi)
      have hne : b' ≠ b := by
        rintro rfl
        rw [hl] at hold
        cases hold
      simpa [goto, hne] using hold
  | @created k b l c hk =>
    intro i b' l' hi
    by_cases hik : i = k
    · subst hik
      simp [ret, goto, Pc.lock?] at hi
    · have hi : (s.pc i).lock? = some (b', l') := by simpa [ret, goto, store_pc, update_of_ne hik] using hi
      have hne : oldestBucket (set s.credentials b c) ≠ some b' := fun ho => hg ⟨b, l, b', hk, ho, i, l', hik, hi⟩
      simp only [ret, goto]
      rw [store_refreshLocks { s with holder := update s.holder l none } hne]
      exact h i b' l' hi

/-- **Single flight.** For any calls, any interleaving and any outcomes: if no step of the run evicts a bucket while
another call is suspended at its lock, then at any time at most one `create_session` is in flight for a bucket. -/
theorem single_flight (ops : List (Op β γ)) (h : Along step (fun s o => ¬ Strands s o) init ops) :
    let s := run step (init : St β γ) ops
    ∀ i j b l l', s.pc i = .creating b l → s.pc j = .creating b l' → i = j := by
  intro s i j b l l' hi hj
  have hinv : Inv s := run_inv step_inv inv_init ops
  have hcurrent : Current s := by
    refine run_inv_of step_current ?_ h
    simp [Current, init, Pc.lock?]
  have hli := hcurrent i b l (by rw [hi]; rfl)
  have hlj := hcurrent j b l' (by rw [hj]; rfl)
  rw [hli] at hlj
  obtain rfl := Option.some.inj hlj
  have hhi := (hinv.holds i l).2 ⟨b, hi⟩
  have hhj := (hinv.holds j l).2 ⟨b, hj⟩
  rw [hhi] at hhj
  exact Option.some.inj hhj

theorem not_strands_of_room {s : St β γ} (h : s.credentials.length < capacity) (o : Op β γ) : ¬ Strands s o := by
  cases o with
  | created k c =>
    rintro ⟨b, l, oldest, -, ho, -⟩
    have hlen := length_set_le s.credentials b c
    rw [oldestBucket, if_neg (by omega)] at ho
    cases ho
  | _ => exact id

/-- two calls for bucket 7, of which the second waits, and one for bucket 8 -/
theorem single_flight_two :
    let s := run step init [.call 0 7, .run 0, .call 1 7, .call 2 8, .created 0 "a", .run 2, .run 1]
    ∀ i j b l l', s.pc i = .creating b l → s.pc j = .creating b l' → i = j := by
  have hroom : Along step (fun s _ => s.credentials.length < capacity) (init : St ℕ String)
      [.call 0 7, .run 0, .call 1 7, .call 2 8, .created 0 "a", .run 2, .run 1] := by decide
  exact single_flight [.call 0 7, .run 0, .call 1 7, .call 2 8, .created 0 "a", .run 2, .run 1]
    fun j hj => not_strands_of_room (hroom j hj) _

/-- calls 0 and 1 for bucket 0, calls 2 to 101 for a bucket each, all of them in `create_session` but 1, which waits -/
def crowd : List (Op ℕ Unit) :=
  [.call 0 0, .run 0, .call 1 0] ++ (List.range 100).flatMap fun i => [.call (i + 2) (i + 1), .run (i + 2)]

/-- they end; bucket 0 is evicted before 1 runs; then 1 creates under the old lock, and a new call under a new one -/
def evicted : List (Op ℕ Unit) :=
  [.created 0 ()] ++ (List.range 100).map (fun i => .created (i + 2) ()) ++ [.run 1, .call 102 0, .run 102]

theorem eviction_breaks_single_flight :
    let s := run step init (crowd ++ evicted)
    (1 : ℕ) ≠ 102 ∧ s.pc 1 = .creating 0 0 ∧ s.pc 102 = .creating 0 101 := by
  decide +kernel

/-! ## The cache as a map -/

/-- a call of `get_credentials`, and how its `create_session` ends if it makes one -/
structure Call (β γ : Type*) where
  task : ℕ
  bucket : β
  outcome : Option γ

/-- the call from its start to its end, with no other call in between -/
def Call.ops (c : Call β γ) : List (Op β γ) :=
  [.call c.task c.bucket, .run c.task,
    match c.outcome with
    | some x => .created c.task x
    | none => .fails c.task]

/-- what a call does that runs by itself -/
inductive Serves (s : St β γ) (c : Call β γ) (s' : St β γ) : Prop
  | hit {x : γ} (hc : get s.credentials c.bucket = some x) (hcreates : s'.creates = s.creates)
      (hrets : s'.rets = s.rets ++ [(c.task, c.bucket, x)]) (hcache : s'.credentials = moveToEnd s.credentials c.bucket)
  | miss {x : γ} (hc : get s.credentials c.bucket = none) (hx : c.outcome = some x)
      (hcreates : s'.creates = s.creates ++ [c.bucket]) (hrets : s'.rets = s.rets ++ [(c.task, c.bucket, x)])
      (hcache : s'.credentials =
        (if s.credentials.length < capacity then s.credentials else s.credentials.tail) ++ [(c.bucket, x)])
  | fails (hc : get s.credentials c.bucket = none) (hx : c.outcome = none)
      (hcreates : s'.creates = s.creates ++ [c.bucket]) (hrets : s'.rets = s.rets)
      (hcache : s'.credentials = s.credentials)

/-- no call is suspended -/
def Quiet (s : St β γ) : Prop := ∀ k, s.pc k = .idle

omit [DecidableEq β] in
theorem Quiet.free {s : St β γ} (h : Quiet s) (hinv : Inv s) (l : ℕ) : s.holder l = none := by
  cases hl : s.holder l with
  | none => rfl
  | some k =>
    obtain ⟨b, hb⟩ := (hinv.holds k l).1 hl
    rw [h k] at hb
    cases hb

theorem call_miss {s : St β γ} (hq : Quiet s) (hinv : Inv s) {b : β} (hc : get s.credentials b = none) (k : ℕ) :
    ∃ t l, run step s [.call k b, .run k] = t ∧ t.pc = update s.pc k (.creating b l) ∧
      t.credentials = s.credentials ∧ t.creates = s.creates ++ [b] ∧ t.rets = s.rets := by
  have hk := hq k
  have hfree := hq.free hinv
  cases hl : s.refreshLocks b with
  | some l =>
    refine ⟨_, l, rfl, ?_⟩
    simp [step, hk, hc, hl, goto, hfree]
  | none =>
    refine ⟨_, s.nextLock, rfl, ?_⟩
    simp [step, hk, hc, hl, goto, hfree]

theorem call_hit {s : St β γ} (hq : Quiet s) {c : Call β γ} {x : γ} (hc : get s.credentials c.bucket = some x) :
    run step s c.ops = ret { s with credentials := moveToEnd s.credentials c.bucket } c.task c.bucket x := by
  have hk := hq c.task
  cases ho : c.outcome <;> simp [Call.ops, ho, step, hk, hc, ret, goto]

theorem store_creates (s : St β γ) (b : β) (c : γ) :
    (store s b c).creates = s.creates ∧ (store s b c).rets = s.rets := by
  simp only [store]
  split <;> exact ⟨rfl, rfl⟩

theorem store_new {s : St β γ} {b : β} (hb : b ∉ keys s.credentials) (x : γ) :
    (store s b x).credentials =
      (if s.credentials.length < capacity then s.credentials else s.credentials.tail) ++ [(b, x)] := by
  rw [store_credentials, set_of_notMem hb, List.length_append, List.length_singleton]
  by_cases h : s.credentials.length < capacity
  · rw [if_pos h, if_neg (by omega)]
  · have hne : s.credentials ≠ [] := List.ne_nil_of_length_pos (by unfold capacity at h; omega)
    rw [if_neg h, if_pos (by omega), List.tail_append_of_ne_nil hne]

theorem call_serves {s : St β γ} (hq : Quiet s) (hinv : Inv s) (c : Call β γ) :
    Quiet (run step s c.ops) ∧ Serves s c (run step s c.ops) := by
  have hidle : ∀ p : Pc β, Quiet { s with pc := update (update s.pc c.task p) c.task .idle } := by
    intro p i
    by_cases hi : i = c.task
    · simp [hi]
    · simpa [hi] using hq i
  cases hc : get s.credentials c.bucket with
  | some x =>
    rw [call_hit hq hc]
    refine ⟨?_, .hit hc rfl rfl rfl⟩
    have hidle := hidle .idle
    rwa [update_idem] at hidle
  | none =>
    obtain ⟨t, l, ht, hpc, hcred, hcreates, hrets⟩ := call_miss hq hinv hc c.task
    have hk : t.pc c.task = .creating c.bucket l := by rw [hpc, update_self]
    cases hx : c.outcome with
    | some x =>
      obtain ⟨u, hrun, hupc, hucred, hucreates, hurets⟩ : ∃ u : St β γ,
          run step s c.ops = ret (store u c.bucket x) c.task c.bucket x ∧ u.pc = t.pc ∧
            u.credentials = s.credentials ∧ u.creates = s.creates ++ [c.bucket] ∧ u.rets = s.rets := by
        refine ⟨{ t with holder := update t.holder l none }, ?_, rfl, hcred, hcreates, hrets⟩
        rw [show c.ops = [.call c.task c.bucket, .run c.task] ++ [.created c.task x] by simp [Call.ops, hx], run_append,
          ht]
        simp [step, hk]
      obtain ⟨hsc, hsr⟩ := store_creates u c.bucket x
      have hnot : c.bucket ∉ keys u.credentials := by rwa [hucred, ← get_eq_none_iff]
      rw [hrun]
      refine ⟨?_, .miss hc hx (hsc.trans hucreates) ?_ ?_⟩
      · have hquiet := hidle (.creating c.bucket l)
        simp only [ret, goto, Quiet, store_pc, hupc, hpc]
        exact hquiet
      · simp only [ret, goto, hsr, hurets]
      · simp only [ret, goto]
        rw [store_new hnot, hucred]
    | none =>
      have hrun : run step s c.ops = goto { t with holder := update t.holder l none } c.task .idle := by
        rw [show c.ops = [.call c.task c.bucket, .run c.task] ++ [.fails c.task] by simp [Call.ops, hx], run_append, ht]
        simp [step, hk]
      rw [hrun]
      refine ⟨?_, .fails hc hx hcreates hrets hcred⟩
      have hquiet := hidle (.creating c.bucket l)
      simp only [goto, Quiet, hpc]
      exact hquiet

/-- the buckets of the calls that returned -/
def uses (s : St β γ) : List β := s.rets.map fun r => r.2.1

/-- **One call is one step of the policy**, unless its `create_session` fails. -/
theorem Serves.lru {s s' : St β γ} {c : Call β γ} (h : Serves s c s') (hinv : Inv s)
    (hs : keys s.credentials = recent capacity (uses s)) : keys s'.credentials = recent capacity (uses s') := by
  have hpos : 0 < capacity := by decide
  have hlen : (keys s.credentials).length = s.credentials.length := List.length_map _
  cases h with
  | @hit x hc hcreates hrets hcache =>
    rw [uses, hrets, List.map_append, List.map_singleton, ← uses, ← lruStep_recent hpos, ← hs, hcache,
      keys_moveToEnd hinv.nodup hc, lruStep, if_pos (mem_keys_of_get hc)]
  | @miss x hc hx hcreates hrets hcache =>
    rw [uses, hrets, List.map_append, List.map_singleton, ← uses, ← lruStep_recent hpos, ← hs, hcache, lruStep,
      if_neg (get_eq_none_iff.1 hc), hlen]
    split_ifs with hroom
    · rw [keys, List.map_append]
      rfl
    · rw [keys, List.map_append, List.map_tail]
      rfl
  | fails hc hx hcreates hrets hcache => rw [hcache, uses, hrets, ← uses, hs]

theorem sequence_lru (calls : List (Call β γ)) :
    let s := run step (init : St β γ) (calls.flatMap Call.ops)
    Quiet s ∧ Inv s ∧ keys s.credentials = recent capacity (uses s) := by
  induction calls using List.reverseRecOn with
  | nil => exact ⟨fun _ => rfl, inv_init, rfl⟩
  | append_singleton calls c ih =>
    obtain ⟨hq, hinv, hs⟩ := ih
    obtain ⟨hq', hserves⟩ := call_serves hq hinv c
    simp only [List.flatMap_append, List.flatMap_singleton, run_append]
    exact ⟨hq', run_inv step_inv hinv _, hserves.lru hinv hs⟩

/-- After calls one after the other the cache holds the last 100 buckets used, each at its last use, where the uses are
the calls that returned; a further call serves a hit without `create_session`, and a miss by evicting the least recently
used bucket if there are 100. Whatever calls run at the same time, there are never more than 100. -/
theorem refines_lru (calls : List (Call β γ)) (c : Call β γ) (ops : List (Op β γ)) :
    let s := run step (init : St β γ) (calls.flatMap Call.ops)
    keys s.credentials = recent capacity (uses s) ∧ Serves s c (run step s c.ops) ∧
    (run step (init : St β γ) ops).credentials.length ≤ capacity := by
  intro s
  obtain ⟨hq, hinv, hs⟩ := sequence_lru calls
  exact ⟨hs, (call_serves hq hinv c).2, (run_inv step_inv inv_init ops).bounded⟩

end AioBotocore.S3Express
