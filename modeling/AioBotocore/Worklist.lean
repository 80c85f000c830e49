/-
Search with a worklist and a set of what was seen, in a graph that may have cycles.

The worklist holds items; an item may name a node or be empty, and a node links to a list of items. The search takes the
first item, passes over it when it is empty or its node was seen, stops at a goal, and otherwise puts the items of the
node in front of the rest.

- `search_isSome`: the search ends where the nodes it can come to are finitely many, with an explicit bound on its length.
- `search_mono`: a search that has ended is not changed by more fuel.
- `search_sound`: what is found is a goal, and there is a path to it.
- `search_complete`: a search that ends with nothing had no path to a goal.
-/
import Mathlib.Tactic
import Mathlib.Logic.Relation
import Mathlib.Algebra.BigOperators.Group.Finset.Basic

namespace Worklist

variable {α ι : Type*} (node : ι → Option α) (goal : α → Bool) (links : α → List ι)

/-- `none` when the fuel runs out, `some none` when the worklist does -/
def search [DecidableEq α] : ℕ → Finset α → List ι → Option (Option α)
  | 0, _, _ => none
  | _ + 1, _, [] => some none
  | fuel + 1, seen, i :: todo =>
    match node i with
    | none => search fuel seen todo
    | some a =>
      if a ∈ seen then search fuel seen todo
      else if goal a then some (some a)
      else search fuel (insert a seen) (links a ++ todo)

/-- one link leads from the first node to the second -/
def Linked (a b : α) : Prop := ∃ i ∈ links a, node i = some b

abbrev Reachable : α → α → Prop := Relation.ReflTransGen (Linked node links)

/-- the node was seen, or waits in the worklist -/
def Pending (seen : Finset α) (todo : List ι) (b : α) : Prop := b ∈ seen ∨ ∃ i ∈ todo, node i = some b

/-- the item has nothing new -/
def Stale (seen : Finset α) (i : ι) : Prop := ∀ a, node i = some a → a ∈ seen

variable {node goal links} {seen : Finset α} {todo : List ι} {i : ι} {a b : α} {fuel : ℕ}

/-! ## One item -/

theorem stale_of_none (h : node i = none) : Stale node seen i := by
  intro a ha
  rw [h] at ha
  cases ha

theorem stale_of_mem (h : node i = some a) (ha : a ∈ seen) : Stale node seen i := by
  intro b hb
  rw [h] at hb
  exact Option.some.inj hb ▸ ha

theorem Pending.skip (hi : Stale node seen i) (h : Pending node seen (i :: todo) b) : Pending node seen todo b := by
  rcases h with hb | ⟨j, hj, hb⟩
  · exact .inl hb
  · rcases List.mem_cons.1 hj with rfl | hj
    · exact .inl (hi b hb)
    · exact .inr ⟨j, hj, hb⟩

section Steps

variable [DecidableEq α]

theorem search_skip (hi : Stale node seen i) : search node goal links (fuel + 1) seen (i :: todo) =
    search node goal links fuel seen todo := by
  rw [search]
  split
  · rfl
  · rename_i a ha
    exact if_pos (hi a ha)

theorem search_visit (hi : node i = some a) (ha : a ∉ seen) : search node goal links (fuel + 1) seen (i :: todo) =
    if goal a then some (some a) else search node goal links fuel (insert a seen) (links a ++ todo) := by
  rw [search, hi]
  exact if_neg ha

/-- an item has nothing new, or a node that was not seen -/
theorem stale_or_new (node : ι → Option α) (seen : Finset α) (i : ι) :
    Stale node seen i ∨ ∃ a, node i = some a ∧ a ∉ seen := by
  cases h : node i with
  | none => exact .inl (stale_of_none h)
  | some a =>
    by_cases ha : a ∈ seen
    · exact .inl (stale_of_mem h ha)
    · exact .inr ⟨a, rfl, ha⟩

theorem Pending.visit (hi : node i = some a) (h : Pending node seen (i :: todo) b) :
    Pending node (insert a seen) (links a ++ todo) b := by
  rcases h with hb | ⟨j, hj, hb⟩
  · exact .inl (Finset.mem_insert_of_mem hb)
  · rcases List.mem_cons.1 hj with rfl | hj
    · rw [hi] at hb
      exact .inl (Finset.mem_insert.2 (.inl (Option.some.inj hb).symm))
    · exact .inr ⟨j, List.mem_append_right _ hj, hb⟩

theorem search_mono {r : Option α} (h : search node goal links fuel seen todo = some r) {fuel' : ℕ}
    (hle : fuel ≤ fuel') : search node goal links fuel' seen todo = some r := by
  induction fuel generalizing seen todo fuel' with
  | zero => cases h
  | succ fuel ih =>
    obtain ⟨n, rfl⟩ : ∃ n, fuel' = n + 1 := ⟨fuel' - 1, by omega⟩
    have hn : fuel ≤ n := Nat.le_of_succ_le_succ hle
    cases todo with
    | nil => exact h
    | cons i todo =>
      rcases stale_or_new node seen i with hi | ⟨a, hi, ha⟩
      · rw [search_skip hi] at h ⊢
        exact ih h hn
      · rw [search_visit hi ha] at h ⊢
        split_ifs at h ⊢ with hgoal
        · exact h
        · exact ih h hn

end Steps

/-! ## Termination -/

section Bound

variable [DecidableEq α]

/-- the items that the nodes of `S` not seen yet may still add -/
def unseen (links : α → List ι) (S seen : Finset α) : ℕ := ∑ a ∈ S \ seen, (links a).length

theorem unseen_insert {S : Finset α} (ha : a ∈ S) (hnew : a ∉ seen) :
    unseen links S seen = (links a).length + unseen links S (insert a seen) := by
  have hmem : a ∈ S \ seen := Finset.mem_sdiff.2 ⟨ha, hnew⟩
  calc unseen links S seen
      = (links a).length + ∑ b ∈ (S \ seen).erase a, (links b).length := (Finset.add_sum_erase _ _ hmem).symm
    _ = (links a).length + unseen links S (insert a seen) := by rw [unseen, Finset.sdiff_insert]

theorem search_isSome {S : Finset α} (hS : ∀ a ∈ S, ∀ b, Linked node links a b → b ∈ S)
    (htodo : ∀ i ∈ todo, ∀ a, node i = some a → a ∈ S) (hfuel : unseen links S seen + todo.length < fuel) :
    (search node goal links fuel seen todo).isSome := by
  induction fuel generalizing seen todo with
  | zero => exact absurd hfuel (Nat.not_lt_zero _)
  | succ fuel ih =>
    cases todo with
    | nil => rfl
    | cons i todo =>
      rw [List.length_cons] at hfuel
      have hrest : ∀ j ∈ todo, ∀ b, node j = some b → b ∈ S := fun j hj => htodo j (List.mem_cons_of_mem _ hj)
      rcases stale_or_new node seen i with hi | ⟨a, hi, hnew⟩
      · rw [search_skip hi]
        exact ih hrest (by omega)
      · have ha : a ∈ S := htodo i List.mem_cons_self a hi
        have hcount : unseen links S seen = (links a).length + unseen links S (insert a seen) := unseen_insert ha hnew
        rw [search_visit hi hnew]
        split_ifs
        · rfl
        · apply ih
          · intro j hj b hb
            rcases List.mem_append.1 hj with hj | hj
            · exact hS a ha b ⟨j, hj, hb⟩
            · exact hrest j hj b hb
          · rw [List.length_append]
            omega

end Bound

/-! ## What is found -/

theorem search_sound [DecidableEq α] (h : search node goal links fuel seen todo = some (some b)) :
    goal b ∧ ∃ i ∈ todo, ∃ a, node i = some a ∧ Reachable node links a b := by
  induction fuel generalizing seen todo with
  | zero => cases h
  | succ fuel ih =>
    cases todo with
    | nil => cases h
    | cons i todo =>
      rcases stale_or_new node seen i with hi | ⟨a, hi, hnew⟩
      · rw [search_skip hi] at h
        obtain ⟨hb, j, hj, hpath⟩ := ih h
        exact ⟨hb, j, List.mem_cons_of_mem _ hj, hpath⟩
      · rw [search_visit hi hnew] at h
        split_ifs at h with hgoal
        · obtain rfl : a = b := by simpa using h
          exact ⟨hgoal, i, List.mem_cons_self, a, hi, .refl⟩
        · obtain ⟨hb, j, hj, c, hc, hpath⟩ := ih h
          refine ⟨hb, ?_⟩
          rcases List.mem_append.1 hj with hj | hj
          · -- the path goes on through the node that was visited
            exact ⟨i, List.mem_cons_self, a, hi, .head ⟨j, hj, hc⟩ hpath⟩
          · exact ⟨j, List.mem_cons_of_mem _ hj, c, hc, hpath⟩

/-- no goal was seen, and what a seen node links to was seen or waits -/
structure Explored (node : ι → Option α) (goal : α → Bool) (links : α → List ι) (seen : Finset α) (todo : List ι) :
    Prop where
  closed : ∀ a ∈ seen, ∀ b, Linked node links a b → Pending node seen todo b
  clear : ∀ a ∈ seen, goal a = false

theorem explored_empty (todo : List ι) : Explored node goal links ∅ todo :=
  ⟨fun _ h => absurd h (Finset.notMem_empty _), fun _ h => absurd h (Finset.notMem_empty _)⟩

theorem Explored.skip (h : Explored node goal links seen (i :: todo)) (hi : Stale node seen i) :
    Explored node goal links seen todo :=
  ⟨fun a ha b hb => (h.closed a ha b hb).skip hi, h.clear⟩

theorem Explored.visit [DecidableEq α] (h : Explored node goal links seen (i :: todo)) (hi : node i = some a)
    (ha : goal a = false) : Explored node goal links (insert a seen) (links a ++ todo) := by
  constructor
  · intro c hc b hb
    rcases Finset.mem_insert.1 hc with rfl | hc
    · obtain ⟨j, hj, hb⟩ := hb
      exact .inr ⟨j, List.mem_append_left _ hj, hb⟩
    · exact (h.closed c hc b hb).visit hi
  · intro c hc
    rcases Finset.mem_insert.1 hc with rfl | hc
    · exact ha
    · exact h.clear c hc

/-- when nothing waits, what was seen is all that can be reached from it -/
theorem Explored.mem_of_reachable (h : Explored node goal links seen []) (ha : a ∈ seen)
    (hpath : Reachable node links a b) : b ∈ seen := by
  induction hpath with
  | refl => exact ha
  | tail _ hlink ih =>
    rcases h.closed _ ih _ hlink with hb | ⟨j, hj, -⟩
    · exact hb
    · exact absurd hj List.not_mem_nil

theorem search_complete [DecidableEq α] (h : search node goal links fuel seen todo = some none)
    (hinv : Explored node goal links seen todo) (ha : Pending node seen todo a) (hpath : Reachable node links a b) :
    goal b = false := by
  induction fuel generalizing seen todo with
  | zero => cases h
  | succ fuel ih =>
    cases todo with
    | nil =>
      rcases ha with ha | ⟨j, hj, -⟩
      · exact hinv.clear b (hinv.mem_of_reachable ha hpath)
      · exact absurd hj List.not_mem_nil
    | cons i todo =>
      rcases stale_or_new node seen i with hi | ⟨c, hi, hnew⟩
      · rw [search_skip hi] at h
        exact ih h (hinv.skip hi) (ha.skip hi)
      · rw [search_visit hi hnew] at h
        split_ifs at h with hgoal
        · exact absurd h (by simp)
        · have hclear : goal c = false := by simpa using hgoal
          exact ih h (hinv.visit hi hclear) (ha.visit hi)

end Worklist
