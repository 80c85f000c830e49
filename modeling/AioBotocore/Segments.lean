/-
Reading a list in segments under limits. With the items of a segment goes something else, its aside. A visit delivers
segments until its limit is reached, inside a segment or at the end of one; what it leaves is for the next visit, with
the first aside blanked.

- `visit_seen_items`, `visit_rest_items`: a visit delivers the next items and leaves the others.
- `kept_visit`: the asides that all visits deliver. One is lost where a visit ends just before its segment.
- `kept_perm_iff`: none is lost that matters.
-/
import Mathlib.Tactic

namespace Segments

structure Seg (α β : Type*) where
  items : List α
  aside : β

structure Visit (α β : Type*) where
  seen : List (Seg α β)
  rest : List (Seg α β)

variable {α β γ : Type*}

def items (l : List (Seg α β)) : List α := l.flatMap Seg.items

@[simp] theorem items_nil : items ([] : List (Seg α β)) = [] := rfl

@[simp] theorem items_cons (p : Seg α β) (l : List (Seg α β)) : items (p :: l) = p.items ++ items l := rfl

/-! ## One visit -/

def visit (blank : β → β) : List (Seg α β) → ℕ → Visit α β
  | [], _ => ⟨[], []⟩
  | [p], m =>
    if m < p.items.length then ⟨[⟨p.items.take m, p.aside⟩], [⟨p.items.drop m, blank p.aside⟩]⟩ else ⟨[p], []⟩
  | p :: q :: ps, m =>
    if m < p.items.length then ⟨[⟨p.items.take m, p.aside⟩], ⟨p.items.drop m, blank p.aside⟩ :: q :: ps⟩
    else if p.items.length = m then ⟨[p], ⟨q.items, blank q.aside⟩ :: ps⟩
    else
      let v := visit blank (q :: ps) (m - p.items.length)
      ⟨p :: v.seen, v.rest⟩

variable (blank : β → β)

theorem visit_inside {p : Seg α β} {m : ℕ} (h : m < p.items.length) (ps : List (Seg α β)) :
    visit blank (p :: ps) m = ⟨[⟨p.items.take m, p.aside⟩], ⟨p.items.drop m, blank p.aside⟩ :: ps⟩ := by
  cases ps <;> rw [visit, if_pos h]

theorem visit_last {p : Seg α β} {m : ℕ} (h : p.items.length ≤ m) : visit blank [p] m = ⟨[p], []⟩ := by
  rw [visit, if_neg (not_lt.2 h)]

theorem visit_end {p : Seg α β} {m : ℕ} (h : p.items.length = m) (q : Seg α β) (ps : List (Seg α β)) :
    visit blank (p :: q :: ps) m = ⟨[p], ⟨q.items, blank q.aside⟩ :: ps⟩ := by
  rw [visit, if_neg (by omega), if_pos h]

theorem visit_past {p : Seg α β} {m : ℕ} (h : p.items.length < m) (q : Seg α β) (ps : List (Seg α β)) :
    visit blank (p :: q :: ps) m =
      ⟨p :: (visit blank (q :: ps) (m - p.items.length)).seen, (visit blank (q :: ps) (m - p.items.length)).rest⟩ := by
  rw [visit, if_neg (by omega), if_neg (by omega)]

theorem visit_seen_items (l : List (Seg α β)) (m : ℕ) : items (visit blank l m).seen = (items l).take m := by
  induction l, m using visit.induct blank with
  | case1 => simp [visit]
  | case2 p m h => simp [visit_inside, h]
  | case3 p m h =>
    have hm : p.items.length ≤ m := not_lt.1 h
    simp [visit, h, List.take_of_length_le hm]
  | case4 p q ps m h => simp [visit, h, List.take_append_of_le_length h.le]
  | case5 p q ps h => simp [visit]
  | case6 p q ps m h hne ih =>
    simp only [visit, h, hne, if_false]
    rw [items_cons, ih, items_cons p, List.take_append, List.take_of_length_le (not_lt.1 h)]

theorem visit_rest_items (l : List (Seg α β)) (m : ℕ) : items (visit blank l m).rest = (items l).drop m := by
  induction l, m using visit.induct blank with
  | case1 => simp [visit]
  | case2 p m h => simp [visit, h]
  | case3 p m h => simp [visit, h, List.drop_of_length_le (not_lt.1 h)]
  | case4 p q ps m h => simp [visit, h, List.drop_append_of_le_length h.le]
  | case5 p q ps h => simp [visit]
  | case6 p q ps m h hne ih =>
    simp only [visit, h, hne, if_false]
    rw [ih, items_cons p, List.drop_append, List.drop_of_length_le (not_lt.1 h), List.nil_append]

/-- a visit that leaves something has delivered as much as it may -/
theorem visit_full {l : List (Seg α β)} {m : ℕ} (h : (visit blank l m).rest ≠ []) : m ≤ (items l).length := by
  induction l, m using visit.induct blank with
  | case1 => simp [visit] at h
  | case2 p m hm => simpa using hm.le
  | case3 p m hm => simp [visit, hm] at h
  | case4 p q ps m hm => simp only [items_cons, List.length_append]; omega
  | case5 p q ps hm => simp
  | case6 p q ps m hm hne ih =>
    have hrest := ih (by simpa [visit, hm, hne] using h)
    simp only [items_cons, List.length_append] at hrest ⊢
    omega

/-! ## The asides of all visits -/

/-- `x` is where one of the visits with the limits `ms` may end -/
def Ends (ms : List ℕ) (x : ℕ) : Prop := ∃ i, (ms.take i).sum = x

theorem ends_cons_add {m : ℕ} (hm : 0 < m) (ms : List ℕ) (x : ℕ) : Ends (m :: ms) (m + x) ↔ Ends ms x := by
  constructor
  · rintro ⟨i, hi⟩
    cases i with
    | zero => simp at hi; omega
    | succ i => exact ⟨i, by simpa using hi⟩
  · rintro ⟨i, rfl⟩
    exact ⟨i + 1, by simp⟩

theorem ends_cons_sub {n m : ℕ} (h : n < m) (ms : List ℕ) {x : ℕ} (hx : 0 < x) :
    Ends (m :: ms) (n + x) ↔ Ends ((m - n) :: ms) x := by
  have hsum : ∀ i, (((m - n) :: ms).take i).sum = x ↔ ((m :: ms).take i).sum = n + x := by
    intro i
    cases i with
    | zero => simp; omega
    | succ i => simp; omega
  exact exists_congr fun i => (hsum i).symm

section Kept

variable (g : β → List γ)

open Classical in
/-- the asides that are not lost: one is lost if a visit ends just before it, with the segment of `n` items before it -/
noncomputable def kept (T : ℕ → Prop) (n : ℕ) : List (Seg α β) → List γ
  | [] => []
  | q :: qs => (if 0 < n ∧ T n then [] else g q.aside) ++ kept (fun x => T (n + x)) q.items.length qs

variable {g}

theorem kept_lost {T : ℕ → Prop} {n : ℕ} (h : 0 < n ∧ T n) (q : Seg α β) (qs : List (Seg α β)) :
    kept g T n (q :: qs) = kept g (fun x => T (n + x)) q.items.length qs := by
  rw [kept, if_pos h, List.nil_append]

theorem kept_cons {T : ℕ → Prop} {n : ℕ} (h : ¬ (0 < n ∧ T n)) (q : Seg α β) (qs : List (Seg α β)) :
    kept g T n (q :: qs) = g q.aside ++ kept g (fun x => T (n + x)) q.items.length qs := by
  rw [kept, if_neg h]

theorem kept_first (T : ℕ → Prop) (p : Seg α β) (ps : List (Seg α β)) :
    kept g T 0 (p :: ps) = g p.aside ++ kept g T p.items.length ps := by
  rw [kept_cons (by simp)]
  simp

theorem kept_congr {T T' : ℕ → Prop} (h : ∀ x, 0 < x → (T x ↔ T' x)) (n : ℕ) (l : List (Seg α β)) :
    kept g T n l = kept g T' n l := by
  induction l generalizing T T' n with
  | nil => rfl
  | cons q qs ih =>
    have htail := ih (fun x hx => h (n + x) (by omega)) q.items.length
    by_cases hn : 0 < n ∧ T n
    · rw [kept_lost hn, kept_lost ((and_congr_right (h n)).1 hn), htail]
    · rw [kept_cons hn, kept_cons (mt (and_congr_right (h n)).2 hn), htail]

/-- a visit that ends `n` items before the end of a segment: what is lost after the segment does not change -/
theorem kept_inside {m : ℕ} (hm : 0 < m) (ms : List ℕ) {n : ℕ} (hn : 0 < n) (l : List (Seg α β)) :
    kept g (Ends (m :: ms)) (m + n) l = kept g (Ends ms) n l := by
  cases l with
  | nil => rfl
  | cons q qs =>
    have hends := ends_cons_add hm ms n
    have htail : (fun x => Ends (m :: ms) (m + n + x)) = fun x => Ends ms (n + x) := by
      funext x
      rw [add_assoc, ends_cons_add hm]
    by_cases hlost : Ends ms n
    · rw [kept_lost ⟨by omega, hends.2 hlost⟩, kept_lost ⟨hn, hlost⟩, htail]
    · rw [kept_cons (fun h => hlost (hends.1 h.2)), kept_cons (fun h => hlost h.2), htail]

/-- **Asides, one visit.** What all visits keep is what the first delivers and what the others keep of the rest. -/
theorem kept_visit (hblank : ∀ b, g (blank b) = []) {l : List (Seg α β)} {m : ℕ} (hm : 0 < m) (ms : List ℕ) :
    kept g (Ends (m :: ms)) 0 l =
      ((visit blank l m).seen.flatMap fun p => g p.aside) ++ kept g (Ends ms) 0 (visit blank l m).rest := by
  induction l, m using visit.induct blank with
  | case1 => simp [visit, kept]
  | case2 p m h => simp [visit, h, kept, hblank]
  | case3 p m h => simp [visit, h, kept]
  | case4 p q ps m h =>
    have hlen : p.items.length = m + (p.items.length - m) := by omega
    simp only [visit, h, if_true, List.flatMap_singleton]
    rw [kept_first, kept_first, hblank, List.nil_append, List.length_drop, hlen, kept_inside hm ms (by omega),
      Nat.add_sub_cancel_left]
  | case5 p q ps h =>
    have hends : Ends (p.items.length :: ms) p.items.length := ⟨1, by simp⟩
    have hshift : (fun x => Ends (p.items.length :: ms) (p.items.length + x)) = Ends ms := by
      funext x
      rw [ends_cons_add hm]
    simp only [visit, lt_irrefl, if_false, if_true, List.flatMap_singleton]
    rw [kept_first, kept_first, hblank, List.nil_append, kept_lost ⟨hm, hends⟩, hshift]
  | case6 p q ps m h hne ih =>
    have hlt : p.items.length < m := lt_of_le_of_ne (not_lt.1 h) hne
    have hends : ¬ (0 < p.items.length ∧ Ends (m :: ms) p.items.length) := by
      rintro ⟨hpos, i, hi⟩
      cases i with
      | zero => simp at hi; omega
      | succ i => simp at hi; omega
    simp only [visit, h, hne, if_false, List.flatMap_cons, List.append_assoc]
    rw [← ih (by omega), kept_first, kept_first, kept_cons hends]
    congr 2
    exact kept_congr (fun x hx => ends_cons_sub hlt ms hx) _ _

/-- where a visit ends with a segment, nothing goes with the next one -/
def Clean (g : β → List γ) (T : ℕ → Prop) (l : List (Seg α β)) : Prop :=
  ∀ pre p q post, l = pre ++ p :: q :: post → p.items ≠ [] → T (items (pre ++ [p])).length → g q.aside = []

theorem clean_cons (T : ℕ → Prop) (p q : Seg α β) (qs : List (Seg α β)) :
    Clean g T (p :: q :: qs) ↔
      (0 < p.items.length ∧ T p.items.length → g q.aside = []) ∧ Clean g (fun x => T (p.items.length + x)) (q :: qs) := by
  constructor
  · intro h
    refine ⟨fun ⟨hpos, ht⟩ => h [] p q qs rfl (List.ne_nil_of_length_pos hpos) (by simpa using ht), ?_⟩
    intro pre p' q' post hl hne ht
    apply h (p :: pre) p' q' post (by rw [hl]; rfl) hne
    simpa using ht
  · rintro ⟨h0, h⟩ pre p' q' post hl hne ht
    cases pre with
    | nil =>
      obtain ⟨rfl, hq⟩ := List.cons.inj hl
      obtain ⟨rfl, -⟩ := List.cons.inj hq
      exact h0 ⟨List.length_pos_of_ne_nil hne, by simpa using ht⟩
    | cons p'' pre =>
      obtain ⟨rfl, hl'⟩ := List.cons.inj hl
      exact h pre p' q' post hl' hne (by simpa using ht)

theorem kept_sublist (T : ℕ → Prop) (n : ℕ) (l : List (Seg α β)) : (kept g T n l).Sublist (l.flatMap fun p => g p.aside) := by
  induction l generalizing T n with
  | nil => exact .slnil
  | cons q qs ih =>
    rw [kept, List.flatMap_cons]
    refine List.Sublist.append ?_ (ih _ _)
    split_ifs
    · exact List.nil_sublist _
    · exact List.Sublist.refl _

theorem kept_length_iff (T : ℕ → Prop) (p : Seg α β) (ps : List (Seg α β)) :
    (kept g T p.items.length ps).length = (ps.flatMap fun q => g q.aside).length ↔ Clean g T (p :: ps) := by
  induction ps generalizing T p with
  | nil =>
    refine ⟨fun _ pre p' q' post hl => ?_, fun _ => rfl⟩
    have hlen := congrArg List.length hl
    simp at hlen
    omega
  | cons q qs ih =>
    have hsub : (kept g (fun x => T (p.items.length + x)) q.items.length qs).length ≤ _ := (kept_sublist _ _ qs).length_le
    rw [clean_cons, ← ih, List.flatMap_cons, List.length_append, ← List.length_eq_zero_iff]
    by_cases h : 0 < p.items.length ∧ T p.items.length
    · rw [kept_lost h]
      constructor
      · intro heq
        exact ⟨fun _ => by omega, by omega⟩
      · rintro ⟨hnil, heq⟩
        have := hnil h
        omega
    · rw [kept_cons h, List.length_append]
      exact ⟨fun heq => ⟨fun h' => absurd h' h, by omega⟩, fun heq => by omega⟩

/-- **Asides, all visits.** They are all delivered, each once, iff no visit ends with a segment before one that has
any. -/
theorem kept_perm_iff (T : ℕ → Prop) (l : List (Seg α β)) :
    (kept g T 0 l).Perm (l.flatMap fun p => g p.aside) ↔ Clean g T l := by
  cases l with
  | nil => exact ⟨fun _ pre p q post h => by simp at h, fun _ => .nil⟩
  | cons p ps =>
    rw [← kept_length_iff, kept_first, List.flatMap_cons, List.perm_append_left_iff]
    constructor
    · exact List.Perm.length_eq
    · intro h
      rw [(kept_sublist T p.items.length ps).eq_of_length h]

end Kept

end Segments
