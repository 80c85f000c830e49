/-
Least recently used, over any keys: oldest first.

- `lruStep_recent`: keeping a list by `lruStep` is keeping the last `n` of the keys used, each at its last use.
- Ordered dicts (Python's `OrderedDict`) as lists of entries: `get`, `moveToEnd`, `set`, with what they do to the
  keys.
-/
import Mathlib.Tactic
import Mathlib.Data.List.DropRight
import Mathlib.Data.List.Dedup

namespace Lru

variable {β γ : Type*} [DecidableEq β]

/-! ## Recency -/

/-- `b` is used again -/
def touch (l : List β) (b : β) : List β := l.filter (· ≠ b) ++ [b]

/-- the last `n` of the keys used, each at its last use -/
def recent (n : ℕ) (uses : List β) : List β := uses.dedup.rtake n

def lruStep (n : ℕ) (l : List β) (b : β) : List β :=
  if b ∈ l then touch l b else if l.length < n then l ++ [b] else l.tail ++ [b]

theorem dedup_snoc (l : List β) (b : β) : (l ++ [b]).dedup = touch l.dedup b := by
  induction l with
  | nil => simp [touch]
  | cons a l ih =>
    by_cases hab : a = b
    · subst hab
      rw [List.cons_append, List.dedup_cons_of_mem (by simp), ih]
      by_cases ha : a ∈ l
      · rw [List.dedup_cons_of_mem ha]
      · rw [List.dedup_cons_of_notMem ha, touch, touch, List.filter_cons_of_neg (by simp)]
    · by_cases ha : a ∈ l
      · rw [List.cons_append, List.dedup_cons_of_mem (by simp [ha]), ih, List.dedup_cons_of_mem ha]
      · rw [List.cons_append, List.dedup_cons_of_notMem (by simp [ha, hab]), ih, List.dedup_cons_of_notMem ha, touch,
          touch, List.filter_cons_of_pos (by simpa using hab)]
        rfl

theorem filter_ne_of_notMem {l : List β} {b : β} (h : b ∉ l) : l.filter (· ≠ b) = l := by
  rw [List.filter_eq_self]
  intro a ha
  simpa using fun hab : a = b => h (hab ▸ ha)

theorem rtake_append {α : Type*} {pre suf : List α} {m : ℕ} (h : suf.length = m) : (pre ++ suf).rtake m = suf := by
  rw [List.rtake, List.length_append, h, Nat.add_sub_cancel, List.drop_left]

theorem rtake_of_length_le {α : Type*} {l : List α} {m : ℕ} (h : l.length ≤ m) : l.rtake m = l := by
  rw [List.rtake, Nat.sub_eq_zero_of_le h, List.drop_zero]

/-- what was dropped, and what `rtake` kept; nothing is dropped before it is full -/
theorem exists_rtake {α : Type*} (l : List α) (n : ℕ) :
    ∃ pre, l = pre ++ l.rtake n ∧ ((l.rtake n).length = n ∨ pre = [] ∧ (l.rtake n).length < n) := by
  refine ⟨l.take (l.length - n), (List.take_append_drop _ _).symm, ?_⟩
  have hlen : (l.rtake n).length = l.length - (l.length - n) := List.length_drop
  by_cases h : n ≤ l.length
  · exact .inl (by omega)
  · refine .inr ⟨?_, by omega⟩
    rw [Nat.sub_eq_zero_of_le (by omega), List.take_zero]

theorem touch_rtake {n : ℕ} {l : List β} (hl : l.Nodup) (b : β) :
    (touch l b).rtake (n + 1) = lruStep (n + 1) (l.rtake (n + 1)) b := by
  obtain ⟨pre, hsplit, hlen⟩ := exists_rtake l (n + 1)
  generalize l.rtake (n + 1) = suf at hsplit hlen ⊢
  subst hsplit
  obtain ⟨-, hsuf, hdisjoint⟩ := List.nodup_append.1 hl
  rw [touch, List.rtake_concat_succ, List.filter_append]
  unfold lruStep
  by_cases hb : b ∈ suf
  · rw [if_pos hb, touch]
    have hpre : b ∉ pre := fun h => hdisjoint b h b hb rfl
    have hone : (suf.filter (· ≠ b)).length + 1 = suf.length := by
      have herase := List.length_erase_add_one hb
      rw [hsuf.erase_eq_filter] at herase
      rw [← herase]
      congr 2
      exact List.filter_congr fun a _ => by by_cases hab : a = b <;> simp [hab]
    rw [filter_ne_of_notMem hpre]
    rcases hlen with hfull | ⟨rfl, hlt⟩
    · rw [rtake_append (by omega)]
    · rw [List.nil_append, rtake_of_length_le (by omega)]
  · rw [if_neg hb, filter_ne_of_notMem hb]
    rcases hlen with hfull | ⟨rfl, hlt⟩
    · rw [if_neg (by omega)]
      obtain ⟨a, rest, rfl⟩ := List.exists_cons_of_length_pos (l := suf) (by omega)
      have hmove : pre.filter (· ≠ b) ++ a :: rest = pre.filter (· ≠ b) ++ [a] ++ rest := List.append_cons _ _ _
      rw [List.tail_cons, hmove, rtake_append (by simpa using hfull)]
    · rw [if_pos hlt, List.filter_nil, List.nil_append, rtake_of_length_le (by omega)]

/-- **Least recently used.** One step of the policy is one more use. -/
theorem lruStep_recent {n : ℕ} (hn : 0 < n) (uses : List β) (b : β) :
    lruStep n (recent n uses) b = recent n (uses ++ [b]) := by
  obtain ⟨m, rfl⟩ : ∃ m, n = m + 1 := ⟨n - 1, by omega⟩
  rw [recent, recent, dedup_snoc, touch_rtake uses.nodup_dedup]

/-! ## Ordered dicts -/

def keys (d : List (β × γ)) : List β := d.map Prod.fst

def get (d : List (β × γ)) (b : β) : Option γ := (d.find? fun e => e.1 = b).map Prod.snd

def moveToEnd (d : List (β × γ)) (b : β) : List (β × γ) := d.filter (·.1 ≠ b) ++ d.filter (·.1 = b)

/-- an entry keeps its place when its value is set again -/
def set (d : List (β × γ)) (b : β) (c : γ) : List (β × γ) :=
  if b ∈ keys d then d.map fun e => if e.1 = b then (b, c) else e else d ++ [(b, c)]

theorem get_eq_none_iff {d : List (β × γ)} {b : β} : get d b = none ↔ b ∉ keys d := by
  rw [get, Option.map_eq_none_iff, List.find?_eq_none, keys, List.mem_map]
  constructor
  · rintro h ⟨e, he, heb⟩
    exact h e he (by simpa using heb)
  · intro h e he heb
    exact h ⟨e, he, by simpa using heb⟩

theorem mem_keys_of_get {d : List (β × γ)} {b : β} {c : γ} (h : get d b = some c) : b ∈ keys d := by
  by_contra hb
  rw [get_eq_none_iff.2 hb] at h
  cases h

theorem mem_of_get {d : List (β × γ)} {b : β} {c : γ} (h : get d b = some c) : (b, c) ∈ d := by
  obtain ⟨e, he, rfl⟩ := Option.map_eq_some_iff.1 h
  have heb : e.1 = b := by simpa using List.find?_some he
  rw [← heb]
  exact List.mem_of_find?_eq_some he

theorem filter_key_of_get {d : List (β × γ)} (hd : (keys d).Nodup) {b : β} {c : γ} (h : get d b = some c) :
    d.filter (·.1 = b) = [(b, c)] := by
  induction d with
  | nil => cases h
  | cons e d ih =>
    obtain ⟨he, hd⟩ := List.nodup_cons.1 hd
    by_cases heb : e.1 = b
    · have hnot : d.filter (·.1 = b) = [] := by
        rw [List.filter_eq_nil_iff]
        intro e' he'
        simpa using fun hb : e'.1 = b => he (by rw [heb, ← hb]; exact List.mem_map_of_mem he')
      have hc : e.2 = c := by simpa [get, heb] using h
      rw [List.filter_cons_of_pos (by simpa using heb), hnot, ← heb, ← hc]
    · rw [List.filter_cons_of_neg (by simpa using heb)]
      exact ih hd (by simpa [get, heb] using h)

/-- an entry that is there moves to the end -/
theorem moveToEnd_of_get {d : List (β × γ)} (hd : (keys d).Nodup) {b : β} {c : γ} (h : get d b = some c) :
    moveToEnd d b = d.filter (·.1 ≠ b) ++ [(b, c)] := by
  rw [moveToEnd, filter_key_of_get hd h]

theorem keys_moveToEnd {d : List (β × γ)} (hd : (keys d).Nodup) {b : β} {c : γ} (h : get d b = some c) :
    keys (moveToEnd d b) = touch (keys d) b := by
  rw [moveToEnd_of_get hd h, keys, List.map_append, touch, keys, List.filter_map]
  rfl

theorem length_moveToEnd (d : List (β × γ)) (b : β) : (moveToEnd d b).length = d.length := by
  have hsum := List.length_eq_length_filter_add (l := d) fun e => decide (e.1 ≠ b)
  have hnot : (d.filter fun e => !decide (e.1 ≠ b)) = d.filter (·.1 = b) := by
    congr 1
    funext e
    simp
  rw [hnot] at hsum
  rw [moveToEnd, List.length_append]
  exact hsum.symm

theorem mem_keys_moveToEnd (d : List (β × γ)) (b : β) {b' : β} (h : b' ∈ keys d) : b' ∈ keys (moveToEnd d b) := by
  obtain ⟨e, he, rfl⟩ := List.mem_map.1 h
  refine List.mem_map.2 ⟨e, ?_, rfl⟩
  by_cases heb : e.1 = b
  · exact List.mem_append_right _ (List.mem_filter.2 ⟨he, by simpa using heb⟩)
  · exact List.mem_append_left _ (List.mem_filter.2 ⟨he, by simpa using heb⟩)

theorem mem_of_mem_moveToEnd {d : List (β × γ)} {b : β} {e : β × γ} (h : e ∈ moveToEnd d b) : e ∈ d := by
  rcases List.mem_append.1 h with h | h
  · exact (List.mem_filter.1 h).1
  · exact (List.mem_filter.1 h).1

theorem mem_of_mem_set {d : List (β × γ)} {b : β} {c : γ} {e : β × γ} (h : e ∈ set d b c) : e ∈ d ∨ e = (b, c) := by
  unfold set at h
  split_ifs at h
  · obtain ⟨e', he', rfl⟩ := List.mem_map.1 h
    split_ifs
    · exact .inr rfl
    · exact .inl he'
  · simpa using h

theorem set_of_notMem {d : List (β × γ)} {b : β} (h : b ∉ keys d) (c : γ) : set d b c = d ++ [(b, c)] := if_neg h

theorem keys_set_of_mem {d : List (β × γ)} {b : β} (h : b ∈ keys d) (c : γ) : keys (set d b c) = keys d := by
  rw [set, if_pos h, keys, List.map_map, keys]
  refine List.map_congr_left fun e _ => ?_
  by_cases he : e.1 = b <;> simp [he]

theorem keys_set_of_notMem {d : List (β × γ)} {b : β} (h : b ∉ keys d) (c : γ) : keys (set d b c) = keys d ++ [b] := by
  rw [set_of_notMem h, keys, List.map_append]
  rfl

theorem mem_keys_set (d : List (β × γ)) (b : β) (c : γ) {b' : β} (h : b' ∈ keys d ∨ b' = b) :
    b' ∈ keys (set d b c) := by
  by_cases hb : b ∈ keys d
  · rw [keys_set_of_mem hb]
    rcases h with h | rfl
    · exact h
    · exact hb
  · rw [keys_set_of_notMem hb]
    rcases h with h | rfl
    · exact List.mem_append_left _ h
    · exact List.mem_append_right _ (List.mem_singleton_self b')

theorem nodup_set {d : List (β × γ)} (h : (keys d).Nodup) (b : β) (c : γ) : (keys (set d b c)).Nodup := by
  by_cases hb : b ∈ keys d
  · rwa [keys_set_of_mem hb]
  · rw [keys_set_of_notMem hb]
    exact List.nodup_append.2 ⟨h, by simp, by simpa using fun a ha (hab : a = b) => hb (hab ▸ ha)⟩

theorem nodup_touch {l : List β} (h : l.Nodup) (b : β) : (touch l b).Nodup :=
  List.nodup_append.2 ⟨h.filter _, by simp, by simp⟩

theorem length_set_le (d : List (β × γ)) (b : β) (c : γ) : (set d b c).length ≤ d.length + 1 := by
  unfold set
  split_ifs <;> simp

end Lru
