/-
The lock table of `AioS3ExpressIdentityCache`. `get_credentials` puts a lock into `_refresh_locks` on the way in and
takes it out only with the bucket it evicts from the cache, so a call that leaves without credentials can leave its lock
behind.

- `refresh_locks_bounded`: the locks belong to buckets that are cached or asked for in exactly the runs in which no call
  abandons its bucket; at rest they are then at most as many as the cache holds.
- `refresh_locks_unbounded`: when every creation fails, the table holds a lock for every bucket ever asked for.
-/
import Mathlib.Tactic
import Mathlib.Data.Set.Card
import AioBotocore.Async.Run
import AioBotocore.Lru
import AioBotocore.S3Express.IdentityCache

namespace AioBotocore.S3Express

open Async Function Lru

variable {β γ : Type*} [DecidableEq β]

/-- call `k` is suspended for the bucket -/
def Asks (s : St β γ) (k : ℕ) (b : β) : Prop := ∃ l, (s.pc k).lock? = some (b, l)

/-- a bucket that has a lock is cached, or a call for it is in progress -/
def LocksCached (s : St β γ) : Prop := ∀ b, s.refreshLocks b ≠ none → b ∈ keys s.credentials ∨ ∃ k, Asks s k b

/-- call `k` is the only one for a bucket that has a lock and is not cached -/
def Last (s : St β γ) (k : ℕ) : Prop :=
  ∃ b, Asks s k b ∧ s.refreshLocks b ≠ none ∧ b ∉ keys s.credentials ∧ ∀ j ≠ k, ¬ Asks s j b

/-- the operation ends, by an error or a cancellation, the only call for a bucket that has a lock and is not cached -/
def Abandons (s : St β γ) : Op β γ → Prop
  | .fails k => (∃ b l, s.pc k = .creating b l) ∧ Last s k
  | .cancel k => (∃ b l, s.pc k = .waiting b l) ∧ Last s k
  | _ => False

omit [DecidableEq β] in
theorem asks_self {s : St β γ} {k l : ℕ} {b : β} (hk : (s.pc k).lock? = some (b, l)) {b' : β} (h : Asks s k b') :
    b' = b := by
  obtain ⟨l', hl'⟩ := h
  rw [hk] at hl'
  exact (Prod.mk.inj (Option.some.inj hl')).1.symm

omit [DecidableEq β] in
/-- what a call asks for is known by its counter alone -/
theorem asks_of_pc {s t : St β γ} {i : ℕ} (h : t.pc i = s.pc i) (b : β) : Asks t i b ↔ Asks s i b := by
  rw [Asks, Asks, h]

/-! ## One operation -/

omit [DecidableEq β] in
/-- a call moves on, still for the same bucket, or after its bucket was cached -/
theorem LocksCached.moves {s t : St β γ} (h : LocksCached s) {k : ℕ} (hpc : ∀ i ≠ k, t.pc i = s.pc i)
    (hlocks : ∀ b, t.refreshLocks b ≠ none → s.refreshLocks b ≠ none)
    (hcache : ∀ b ∈ keys s.credentials, t.refreshLocks b ≠ none → b ∈ keys t.credentials)
    (hk : ∀ b, Asks s k b → t.refreshLocks b ≠ none → b ∈ keys t.credentials ∨ ∃ i, Asks t i b) : LocksCached t := by
  intro b hb
  rcases h b (hlocks b hb) with hin | ⟨i, hi⟩
  · exact .inl (hcache b hin hb)
  · by_cases hik : i = k
    · subst hik
      exact hk b hi hb
    · exact .inr ⟨i, (asks_of_pc (hpc i hik) b).2 hi⟩

omit [DecidableEq β] in
/-- a call ends without credentials, and is not the last one for its bucket -/
theorem LocksCached.leaves {s t : St β γ} (h : LocksCached s) {k l : ℕ} {b : β} (hk : (s.pc k).lock? = some (b, l))
    (hpc : ∀ i ≠ k, t.pc i = s.pc i) (hlocks : t.refreshLocks = s.refreshLocks) (hcache : t.credentials = s.credentials)
    (hlast : ¬ Last s k) : LocksCached t := by
  refine h.moves hpc (by rw [hlocks]; exact fun _ => id) (by rw [hcache]; exact fun _ hb _ => hb) fun b' hb' hlock => ?_
  obtain rfl := asks_self hk hb'
  rw [hlocks] at hlock
  by_contra hno
  rw [not_or, hcache] at hno
  refine hlast ⟨b', hb', hlock, hno.1, fun j hj hasks => hno.2 ⟨j, ?_⟩⟩
  rwa [asks_of_pc (hpc j hj)]

/-- after a store, a bucket with a lock that was cached, or is the one stored, is cached -/
theorem store_keeps (s : St β γ) (b : β) (c : γ) {b' : β} (h : b' ∈ keys s.credentials ∨ b' = b)
    (hlock : (store s b c).refreshLocks b' ≠ none) :
    s.refreshLocks b' ≠ none ∧ b' ∈ keys (store s b c).credentials := by
  have hin := mem_keys_set s.credentials b c h
  by_cases ho : oldestBucket (set s.credentials b c) = some b'
  · simp only [store, ho, update_self] at hlock
    exact absurd rfl hlock
  · rw [store_refreshLocks s ho] at hlock
    refine ⟨hlock, ?_⟩
    rw [store_credentials]
    split_ifs with hfull
    · obtain ⟨e, m, hm⟩ := List.exists_cons_of_length_pos (l := set s.credentials b c) (by omega)
      have hne : e.1 ≠ b' := by
        rintro rfl
        apply ho
        rw [oldestBucket, if_pos hfull, hm]
        rfl
      rw [hm] at hin ⊢
      simpa [keys, Ne.symm hne] using hin
    · exact hin

theorem store_refreshLocks_sub (s : St β γ) (b : β) (c : γ) {b' : β} (h : (store s b c).refreshLocks b' ≠ none) :
    s.refreshLocks b' ≠ none := by
  by_cases ho : oldestBucket (set s.credentials b c) = some b'
  · simp only [store, ho, update_self] at h
    exact absurd rfl h
  · rwa [store_refreshLocks s ho] at h

theorem step_locksCached (s : St β γ) (o : Op β γ) (h : LocksCached s) (hg : ¬ Abandons s o) :
    LocksCached (step s o) := by
  have hmoves := step_moves s o
  generalize step s o = s' at hmoves ⊢
  cases hmoves with
  | none => exact h
  | @hit _ k b c hk hc =>
    apply h.moves (k := k)
    · exact fun i hi => by simp [ret, goto, hi]
    · exact fun _ hlock => hlock
    · exact fun b' hb' _ => mem_keys_moveToEnd _ _ hb'
    · intro b' hb' _
      left
      apply mem_keys_moveToEnd
      rcases hk with hk | ⟨l, hk⟩
      · obtain ⟨l, hl⟩ := hb'
        rw [hk] at hl
        cases hl
      · rw [asks_self (by rw [hk]; rfl) hb']
        exact mem_keys_of_get hc
  | @join k b l hk hl =>
    apply h.moves (k := k)
    · exact fun i hi => by simp [goto, hi]
    · exact fun _ hlock => hlock
    · exact fun b' hb' _ => hb'
    · rintro b' ⟨l', hl'⟩
      rw [hk] at hl'
      cases hl'
  | @newLock k b hk hl =>
    intro b' hlock
    by_cases hb : b' = b
    · exact .inr ⟨k, s.nextLock, by simp [goto, hb, Pc.lock?]⟩
    · rcases h b' (by simpa [goto, hb] using hlock) with hin | ⟨i, l', hi⟩
      · exact .inl hin
      · have hik : i ≠ k := by
          rintro rfl
          rw [hk] at hi
          cases hi
        exact .inr ⟨i, l', by simpa [goto, hik] using hi⟩
  | @create k b l hk hl hc =>
    apply h.moves (k := k)
    · exact fun i hi => by simp [goto, hi]
    · exact fun _ hlock => hlock
    · exact fun b' hb' _ => hb'
    · intro b' hb' _
      rw [asks_self (by rw [hk]; rfl) hb']
      exact .inr ⟨k, l, by simp [goto, Pc.lock?]⟩
  | @created k b l c hk =>
    apply h.moves (k := k)
    · exact fun i hi => by simp [ret, goto, store_pc, hi]
    · exact fun b' hlock => store_refreshLocks_sub { s with holder := update s.holder l .none } b c hlock
    · exact fun b' hb' hlock => (store_keeps { s with holder := update s.holder l .none } b c (.inl hb') hlock).2
    · intro b' hb' hlock
      rw [asks_self (by rw [hk]; rfl) hb'] at hlock ⊢
      exact .inl (store_keeps { s with holder := update s.holder l .none } b c (.inr rfl) hlock).2
  | @fails k b l hk =>
    refine h.leaves (k := k) (l := l) (b := b) (by rw [hk]; rfl) (fun i hi => ?_) rfl rfl fun hlast =>
      hg ⟨⟨b, l, hk⟩, hlast⟩
    simp [goto, hi]
  | @cancel k b l hk =>
    refine h.leaves (k := k) (l := l) (b := b) (by rw [hk]; rfl) (fun i hi => ?_) rfl rfl fun hlast =>
      hg ⟨⟨b, l, hk⟩, hlast⟩
    simp [goto, hi]

/-- a call that abandons its bucket leaves the lock of the bucket behind -/
theorem abandons_breaks (s : St β γ) (o : Op β γ) (hbad : Abandons s o) : ¬ LocksCached (step s o) := by
  have hleft : ∀ t : St β γ, ∀ k, Last s k → t.pc = update s.pc k .idle → t.refreshLocks = s.refreshLocks →
      t.credentials = s.credentials → ¬ LocksCached t := by
    rintro t k ⟨b, -, hlock, hnot, honly⟩ hpc hlocks hcache h
    rcases h b (by rwa [hlocks]) with hin | ⟨i, l, hi⟩
    · rw [hcache] at hin
      exact hnot hin
    · rw [hpc] at hi
      by_cases hik : i = k
      · subst hik
        simp [Pc.lock?] at hi
      · rw [update_of_ne hik] at hi
        exact honly i hik ⟨l, hi⟩
  cases o with
  | fails k =>
    obtain ⟨⟨b, l, hk⟩, hlast⟩ := hbad
    have hstep : step s (.fails k) = goto { s with holder := update s.holder l none } k .idle := by simp [step, hk]
    rw [hstep]
    exact hleft _ k hlast rfl rfl rfl
  | cancel k =>
    obtain ⟨⟨b, l, hk⟩, hlast⟩ := hbad
    have hstep : step s (.cancel k) = goto s k .idle := by simp [step, hk]
    rw [hstep]
    exact hleft _ k hlast rfl rfl rfl
  | _ => exact hbad.elim

/-! ## Runs -/

/-- the buckets that have a lock -/
def locked (s : St β γ) : Set β := {b | s.refreshLocks b ≠ none}

omit [DecidableEq β] in
theorem LocksCached.locked_subset {s : St β γ} (h : LocksCached s) (hq : Quiet s) :
    locked s ⊆ {b | b ∈ keys s.credentials} := by
  intro b hb
  rcases h b hb with hin | ⟨k, l, hk⟩
  · exact hin
  · rw [hq k] at hk
    cases hk

theorem encard_keys_le {s : St β γ} (h : Inv s) : {b | b ∈ keys s.credentials}.encard ≤ capacity := by
  have hset : {b | b ∈ keys s.credentials} = ((keys s.credentials).toFinset : Set β) := by
    ext b
    simp
  have hcard : (keys s.credentials).toFinset.card ≤ capacity := by
    calc (keys s.credentials).toFinset.card
        ≤ (keys s.credentials).length := List.toFinset_card_le _
      _ = s.credentials.length := List.length_map _
      _ ≤ capacity := h.bounded
  rw [hset, Set.encard_coe_eq_coe_finsetCard]
  exact_mod_cast hcard

/-- **The lock table.** In a run, a bucket that has a lock is always cached or asked for by a call in progress exactly
if no call is the last one for such a bucket and ends by an error or a cancellation. In such a run, whenever no call is
in progress, the buckets with a lock are cached, and there are at most 100 of them. -/
theorem refresh_locks_bounded (ops : List (Op β γ)) :
    ((∀ n, LocksCached (run step (init : St β γ) (ops.take n))) ↔ Along step (fun s o => ¬ Abandons s o) init ops) ∧
    (Along step (fun s o => ¬ Abandons s o) init ops → ∀ n, Quiet (run step (init : St β γ) (ops.take n)) →
      locked (run step (init : St β γ) (ops.take n)) ⊆ {b | b ∈ keys (run step (init : St β γ) (ops.take n)).credentials} ∧
      (locked (run step (init : St β γ) (ops.take n))).encard ≤ capacity) := by
  have hinit : LocksCached (init : St β γ) := fun b hb => absurd rfl hb
  have hexact := forall_take_iff (I := LocksCached) (P := LocksCached) step_locksCached (fun _ h => h)
    (fun s o _ hbad => abandons_breaks s o (not_not.1 hbad)) hinit ops
  refine ⟨hexact, fun hgood n hq => ?_⟩
  have hsub := (hexact.2 hgood n).locked_subset hq
  exact ⟨hsub, (Set.encard_le_encard hsub).trans (encard_keys_le (run_inv step_inv inv_init _))⟩

/-- two calls for bucket 7: the first fails while the second waits at the lock, which then creates the credentials -/
theorem refresh_locks_bounded_two :
    let s := run step (init : St ℕ String) [.call 0 7, .run 0, .call 1 7, .fails 0, .run 1, .created 1 "a"]
    locked s ⊆ {b | b ∈ keys s.credentials} ∧ (locked s).encard ≤ capacity := by
  have hgood : Along step (fun s o => ¬ Abandons s o) (init : St ℕ String)
      [.call 0 7, .run 0, .call 1 7, .fails 0, .run 1, .created 1 "a"] := by
    simp only [along_cons, along_nil, and_true]
    refine ⟨id, id, id, ?_, id, id⟩
    rintro ⟨-, b, hb, -, -, honly⟩
    have hb : b = 7 := asks_self (l := 0) (by decide) hb
    exact honly 1 (by decide) ⟨0, by rw [hb]; decide⟩
  refine (refresh_locks_bounded (γ := String) _).2 hgood 6 fun k => ?_
  rcases k with _ | _ | k <;> rfl

/-- one call, whose `create_session` fails -/
theorem failed_creation_leaves_lock :
    let s := run step (init : St ℕ String) [.call 0 7, .run 0, .fails 0]
    Quiet s ∧ s.refreshLocks 7 = some 0 ∧ 7 ∉ keys s.credentials := by
  refine ⟨fun k => ?_, by decide, by decide⟩
  rcases k with _ | k <;> rfl

/-! ## Creations that fail -/

/-- calls for the buckets below `n`, one after the other, each of which fails -/
def failures (n : ℕ) : List (Op ℕ γ) := (List.range n).flatMap fun b => [.call 0 b, .run 0, .fails 0]

/-- a call that runs by itself, for a bucket that is new, and fails -/
theorem call_fails {s : St β γ} (hq : Quiet s) (hinv : Inv s) {b : β} (hc : Lru.get s.credentials b = none)
    (hl : s.refreshLocks b = none) (k : ℕ) :
    run step s [.call k b, .run k, .fails k] =
      { s with refreshLocks := update s.refreshLocks b (some s.nextLock), nextLock := s.nextLock + 1,
               creates := s.creates ++ [b] } := by
  have hk := hq k
  have hfree := hq.free hinv s.nextLock
  have hpc : update s.pc k .idle = s.pc := by rw [← hk, update_eq_self]
  have hholder : update s.holder s.nextLock none = s.holder := by rw [← hfree, update_eq_self]
  simp [step, hk, hc, hl, goto, hfree, hpc, hholder]

theorem run_failures (n : ℕ) :
    run step (init : St ℕ γ) (failures n) =
      { (init : St ℕ γ) with
        refreshLocks := fun b => if b < n then some b else none, nextLock := n, creates := List.range n } := by
  induction n with
  | zero => simp [failures, init]
  | succ n ih =>
    have hsnoc : (failures (n + 1) : List (Op ℕ γ)) = failures n ++ [.call 0 n, .run 0, .fails 0] := by
      simp [failures, List.range_succ]
    have hinv := run_inv step_inv (inv_init (β := ℕ) (γ := γ)) (failures n)
    rw [ih] at hinv
    have hlocks : update (fun b => if b < n then some b else none) n (some n) =
        fun b => if b < n + 1 then some b else none := by
      funext b
      by_cases hb : b = n
      · simp [hb]
      · have hlt : b < n ↔ b < n + 1 := by omega
        simp [hb, hlt]
    rw [hsnoc, run_append, ih, call_fails (fun k => rfl) hinv rfl (by simp)]
    simp only [hlocks, List.range_succ]

/-- **No bound.** After `n` calls that failed, for buckets that are all different, nothing is cached and the table holds
`n` locks. -/
theorem refresh_locks_unbounded (n : ℕ) :
    let s := run step (init : St ℕ γ) (failures n)
    Quiet s ∧ s.credentials = [] ∧ (locked s).encard = n := by
  have hset : {b : ℕ | (if b < n then some b else none) ≠ none} = (Finset.range n : Set ℕ) := by
    ext b
    simp
  rw [run_failures]
  refine ⟨fun k => rfl, rfl, ?_⟩
  rw [locked]
  simp only
  rw [hset, Set.encard_coe_eq_coe_finsetCard, Finset.card_range]

end AioBotocore.S3Express
