/-
Parsed responses as nested dicts, and `build_full_result` over them: `set_value_from_jmespath` and `merge_dicts` of
botocore on simple dotted paths. A list is an object: `ρ` are their references and a heap holds their items, so that
`existing_value.extend(result_value)` writes to the list of the page it came from.

- `setValue_self`, `setValue_other`, `merge_left`, `merge_right`: what is found at a path afterwards.
-/
import Mathlib.Tactic

namespace AioBotocore.Paginate

open Function

/-- a JSON value; `other` are the values the code does not look into -/
inductive Json (ρ V : Type) where
  | null
  | list (r : ρ)
  | str (s : String)
  | num (n : ℤ)
  | other (v : V)
  | dict (items : String → Option (Json ρ V))

namespace Json

variable {ρ V : Type}

def empty : Json ρ V := .dict fun _ => none

/-- the value at a path, if the keys are there -/
def get? : List String → Json ρ V → Option (Json ρ V)
  | [], j => some j
  | k :: ks, .dict items => (items k).bind (get? ks)
  | _ :: _, _ => none

/-- a simple JMESPath expression; `None` where a key is missing -/
def search (path : List String) (j : Json ρ V) : Json ρ V := (j.get? path).getD .null

/-- `set_value_from_jmespath`; `none` if it raises -/
def setValue : List String → Json ρ V → Json ρ V → Option (Json ρ V)
  | [], _, _ => none
  | [k], value, .dict items => some (.dict (update items k (some value)))
  | k :: k' :: ks, value, .dict items =>
    (setValue (k' :: ks) value ((items k).getD empty)).map fun j => .dict (update items k (some j))
  | _ :: _, _, _ => none

mutual

/-- `merge_dicts`: what the first dict becomes -/
def merge : Json ρ V → Json ρ V → Json ρ V
  | .dict items, .dict items' => .dict fun k => mergeItem (items k) (items' k)
  | _, j => j

def mergeItem : Option (Json ρ V) → Option (Json ρ V) → Option (Json ρ V)
  | x, none => x
  | none, some j => some j
  | some i, some j => some (merge i j)

end

/-! ## Paths that do not overlap -/

/-- neither path leads through the other -/
def Avoids (p q : List String) : Prop := ¬ p <+: q ∧ ¬ q <+: p

theorem Avoids.symm {p q : List String} (h : Avoids p q) : Avoids q p := ⟨h.2, h.1⟩

theorem avoids_cons {k : String} {p q : List String} : Avoids (k :: p) (k :: q) ↔ Avoids p q := by
  simp [Avoids, List.cons_prefix_cons]

theorem not_avoids_nil {p : List String} : ¬ Avoids [] p := fun h => h.1 (List.nil_prefix)

/-- a value can be set at the path: whatever is on the way to it is a dict -/
def Open : List String → Json ρ V → Prop
  | [], _ => False
  | [_], j => ∃ items, j = .dict items
  | k :: k' :: ks, j => ∃ items, j = .dict items ∧ ∀ i, items k = some i → Open (k' :: ks) i

/-- the path ends at a dict without the key -/
def Absent : List String → Json ρ V → Prop
  | [], _ => False
  | k :: ks, j => ∃ items, j = .dict items ∧ ∀ i, items k = some i → Absent ks i

theorem Absent.opens {p : List String} {j : Json ρ V} (h : Absent p j) : Open p j := by
  induction p generalizing j with
  | nil => exact h
  | cons k ks ih =>
    obtain ⟨items, rfl, hk⟩ := h
    cases ks with
    | nil => exact ⟨items, rfl⟩
    | cons k' ks => exact ⟨items, rfl, fun i hi => ih (hk i hi)⟩

theorem Absent.get {p : List String} {j : Json ρ V} (h : Absent p j) : j.get? p = none := by
  induction p generalizing j with
  | nil => exact h.elim
  | cons k ks ih =>
    obtain ⟨items, rfl, hk⟩ := h
    cases hi : items k with
    | none => simp [get?, hi]
    | some i => simp [get?, hi, ih (hk i hi)]

theorem absent_empty {p : List String} (hp : p ≠ []) : Absent p (empty : Json ρ V) := by
  cases p with
  | nil => exact absurd rfl hp
  | cons k ks => exact ⟨_, rfl, by simp⟩

/-! ## Setting a value -/

theorem setValue_self {p : List String} {j : Json ρ V} (value : Json ρ V) (h : Open p j) :
    ∃ j', setValue p value j = some j' ∧ j'.get? p = some value ∧ Open p j' := by
  induction p generalizing j with
  | nil => exact h.elim
  | cons k ks ih =>
    cases ks with
    | nil =>
      obtain ⟨items, rfl⟩ := h
      exact ⟨_, rfl, by simp [get?], ⟨_, rfl⟩⟩
    | cons k' ks =>
      obtain ⟨items, rfl, hk⟩ := h
      have hopen : Open (k' :: ks) ((items k).getD empty) := by
        cases hi : items k with
        | none => exact (absent_empty (by simp)).opens
        | some i => exact hk i hi
      obtain ⟨i, hset, hget, hopen'⟩ := ih hopen
      refine ⟨.dict (update items k (some i)), by simp [setValue, hset], by simp [get?, hget], _, rfl, fun i' hi' => ?_⟩
      obtain rfl : i = i' := by simpa using hi'
      exact hopen'

/-- what a path without overlap finds, and whether a value can be set at it, is as before -/
theorem setValue_other {p q : List String} {value j j' : Json ρ V} (hset : setValue p value j = some j')
    (hpq : Avoids p q) : j'.get? q = j.get? q ∧ (Open q j → Open q j') ∧ (Absent q j → Absent q j') := by
  induction p generalizing q j j' with
  | nil => exact absurd hpq not_avoids_nil
  | cons k ks ih =>
    cases q with
    | nil => exact absurd hpq.symm not_avoids_nil
    | cons l ls =>
      -- in both cases the value at `k` of a dict is replaced
      obtain ⟨items, i, rfl, rfl, hi⟩ : ∃ items i, j = .dict items ∧ j' = .dict (update items k (some i)) ∧
          (l = k → Avoids ks ls ∧ setValue ks value ((items k).getD empty) = some i) := by
        cases j with
        | dict items =>
          cases ks with
          | nil =>
            obtain rfl := Option.some.inj hset
            refine ⟨items, value, rfl, rfl, ?_⟩
            rintro rfl
            exact absurd (avoids_cons.1 hpq) not_avoids_nil
          | cons k' ks =>
            obtain ⟨i, hi, rfl⟩ := Option.map_eq_some_iff.1 hset
            refine ⟨items, i, rfl, rfl, ?_⟩
            rintro rfl
            exact ⟨avoids_cons.1 hpq, hi⟩
        | _ => cases ks <;> cases hset
      by_cases hl : l = k
      · subst hl
        obtain ⟨havoids, hset'⟩ := hi rfl
        obtain ⟨hget, hopen, habsent⟩ := ih hset' havoids
        have hls : ls ≠ [] := fun h => not_avoids_nil (h ▸ havoids).symm
        obtain ⟨l', ls, rfl⟩ := List.exists_cons_of_ne_nil hls
        refine ⟨?_, ?_, ?_⟩
        · cases hitem : items l with
          | none =>
            rw [hitem, Option.getD_none, (absent_empty hls).get] at hget
            simp [get?, hitem, hget]
          | some i' =>
            rw [hitem, Option.getD_some] at hget
            simp [get?, hitem, hget]
        · rintro ⟨_, hj, hk⟩
          cases hj
          refine ⟨_, rfl, fun i' hi' => ?_⟩
          obtain rfl : i = i' := by simpa using hi'
          refine hopen ?_
          cases hitem : items l with
          | none => exact (absent_empty hls).opens
          | some x => exact hk x hitem
        · rintro ⟨_, hj, hk⟩
          cases hj
          refine ⟨_, rfl, fun i' hi' => ?_⟩
          obtain rfl : i = i' := by simpa using hi'
          refine habsent ?_
          cases hitem : items l with
          | none => exact absent_empty hls
          | some x => exact hk x hitem
      · refine ⟨by simp [get?, hl], ?_, ?_⟩
        · cases ls with
          | nil => exact fun _ => ⟨_, rfl⟩
          | cons l' ls =>
            rintro ⟨_, hj, hk⟩
            cases hj
            exact ⟨_, rfl, fun i' hi' => hk i' (by simpa [hl] using hi')⟩
        · rintro ⟨_, hj, hk⟩
          cases hj
          exact ⟨_, rfl, fun i' hi' => hk i' (by simpa [hl] using hi')⟩

/-! ## Merging -/

theorem merge_left {p : List String} {i j : Json ρ V} (h : Absent p j) : (merge i j).get? p = i.get? p := by
  induction p generalizing i j with
  | nil => exact h.elim
  | cons k ks ih =>
    obtain ⟨items', rfl, hk⟩ := h
    cases i with
    | dict items =>
      rw [merge, get?, get?]
      cases hj : items' k with
      | none => rw [mergeItem]
      | some j =>
        cases hi : items k with
        | none => simpa [mergeItem] using (hk j hj).get
        | some i => simpa [mergeItem] using ih (i := i) (hk j hj)
    | _ =>
      have hnone : Absent (k :: ks) (.dict items' : Json ρ V) := ⟨items', rfl, hk⟩
      rw [merge]
      · exact hnone.get
      · simp

theorem merge_absent {p : List String} {i j : Json ρ V} (hi : Absent p i) (hj : Absent p j) : Absent p (merge i j) := by
  induction p generalizing i j with
  | nil => exact hi.elim
  | cons k ks ih =>
    obtain ⟨items, rfl, hk⟩ := hi
    obtain ⟨items', rfl, hk'⟩ := hj
    refine ⟨_, by rw [merge], fun x hx => ?_⟩
    cases hitem : items k with
    | none =>
      cases hitem' : items' k with
      | none => simp [mergeItem, hitem, hitem'] at hx
      | some j =>
        obtain rfl : j = x := by simpa [mergeItem, hitem, hitem'] using hx
        exact hk' j hitem'
    | some i =>
      cases hitem' : items' k with
      | none =>
        obtain rfl : i = x := by simpa [mergeItem, hitem, hitem'] using hx
        exact hk i hitem
      | some j =>
        obtain rfl : merge i j = x := by simpa [mergeItem, hitem, hitem'] using hx
        exact ih (hk i hitem) (hk' j hitem')

theorem merge_right {p : List String} {i j value : Json ρ V} (h : j.get? p = some value) (hi : Absent p i) :
    (merge i j).get? p = some value := by
  induction p generalizing i j with
  | nil => exact hi.elim
  | cons k ks ih =>
    obtain ⟨items, rfl, hk⟩ := hi
    cases j with
    | dict items' =>
      obtain ⟨j, hj, hget⟩ := Option.bind_eq_some_iff.1 h
      rw [merge, get?, hj]
      cases hitem : items k with
      | none => simpa [mergeItem] using hget
      | some i => simpa [mergeItem] using ih hget (hk i hitem)
    | _ => cases h

end Json

end AioBotocore.Paginate
