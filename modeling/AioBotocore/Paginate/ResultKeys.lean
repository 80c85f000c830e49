/-
`result_key_iters` and `build_full_result` over one iteration agree.

- `has_of_shows`: what the full result has of a result key, from the values of the pages.
- `result_keys_agree`: iterators, full result and pages have the same values of each list key.
-/
import Mathlib.Tactic
import AioBotocore.Paginate.Secondary
import AioBotocore.Paginate.Reiterate
import AioBotocore.Paginate.ResultKeyIterator

namespace AioBotocore.Paginate

open Async

variable {V K κ : Type} {kind : κ → Kind}

/-! ## What the values of a key add up to -/

/-- the number of a numeric key, 0 if it is absent -/
def Kind.number {V : Type} : (k : Kind) → Option (k.Val V) → ℤ
  | .num, some (n : ℤ) => n
  | _, _ => 0

/-- the text of a string key, empty if it is absent -/
def Kind.text {V : Type} : (k : Kind) → Option (k.Val V) → String
  | .str, some (s : String) => s
  | _, _ => ""

def Page.number (c : Option κ) (p : Page V K kind) : ℤ := (kindOf kind c).number (p.val c)

def Page.text (c : Option κ) (p : Page V K kind) : String := (kindOf kind c).text (p.val c)

theorem number_add (k : Kind) (a b : Option (k.Val V)) : k.number (k.add a b) = k.number a + k.number b := by
  cases k <;> cases a <;> cases b <;> simp [Kind.add, Kind.number]

theorem text_add (k : Kind) (a b : Option (k.Val V)) : k.text (k.add a b) = k.text a ++ k.text b := by
  cases k <;> cases a <;> cases b <;> simp [Kind.add, Kind.text]

theorem add_isSome (k : Kind) (a b : Option (k.Val V)) : (k.add a b).isSome = (a.isSome || b.isSome) := by
  cases k <;> cases a <;> cases b <;> rfl

/-- the values of one key, page by page -/
def total (k : Kind) (vals : List (Option (k.Val V))) : Option (k.Val V) := vals.foldl k.add none

theorem total_measure {M : Type*} {k : Kind} {f : Option (k.Val V) → M} (add : M → M → M)
    (hf : ∀ a b, f (k.add a b) = add (f a) (f b)) (vals : List (Option (k.Val V))) (acc : Option (k.Val V)) :
    f (vals.foldl k.add acc) = (vals.map f).foldl add (f acc) := by
  induction vals generalizing acc with
  | nil => rfl
  | cons v vals ih => rw [List.foldl_cons, ih, hf, List.map_cons, List.foldl_cons]

theorem total_values (k : Kind) (vals : List (Option (k.Val V))) : k.values (total k vals) = vals.flatMap k.values := by
  rw [total, total_measure (· ++ ·) (values_add k), values_none, List.flatMap_eq_foldl, List.foldl_map]

theorem total_number (k : Kind) (vals : List (Option (k.Val V))) :
    k.number (total k vals) = (vals.map k.number).sum := by
  have hnone : k.number (none : Option (k.Val V)) = 0 := by cases k <;> rfl
  rw [total, total_measure (· + ·) (number_add k), hnone, List.sum_eq_foldl]

theorem total_text (k : Kind) (vals : List (Option (k.Val V))) :
    k.text (total k vals) = String.join (vals.map k.text) := by
  have hnone : k.text (none : Option (k.Val V)) = "" := by cases k <;> rfl
  rw [total, total_measure (· ++ ·) (text_add k), hnone]
  rfl

theorem total_none_iff (k : Kind) (vals : List (Option (k.Val V))) : total k vals = none ↔ ∀ v ∈ vals, v = none := by
  have hor : ∀ (l : List Bool) (b : Bool), l.foldl (· || ·) b = false ↔ b = false ∧ ∀ x ∈ l, x = false := by
    intro l
    induction l with
    | nil => simp
    | cons x l ih =>
      intro b
      rw [List.foldl_cons, ih]
      simp [and_assoc]
  rw [← Option.not_isSome_iff_eq_none, Bool.not_eq_true, total, total_measure (· || ·) (add_isSome k), hor]
  simp

/-! ## What the full result shows -/

variable {ρ : Type}

/-- the items of a list object -/
def Json.items (heap : ρ → List V) : Json ρ V → List V
  | .list r => heap r
  | _ => []

section Shows

variable {heap : ρ → List V} {k : Kind} {v : Option (k.Val V)} {j : Json ρ V}

theorem shows_null_iff (h : Shows heap k v j) : j = .null ↔ v = none := by
  constructor
  · intro hj
    cases v with
    | none => rfl
    | some v => exact absurd hj (shows_some_ne_null h)
  · rintro rfl
    exact h

theorem shows_items (hk : k = .list) (h : Shows heap k v j) : j.items heap = k.values v := by
  subst hk
  cases v with
  | none =>
    have hj : j = .null := h
    rw [hj]
    rfl
  | some v =>
    obtain ⟨r, rfl, hr⟩ := h
    exact hr

theorem shows_num (hk : k = .num) (h : Shows heap k v j) (hj : j ≠ .null) : j = .num (k.number v) := by
  subst hk
  cases v with
  | none => exact absurd h hj
  | some v => exact h

theorem shows_str (hk : k = .str) (h : Shows heap k v j) (hj : j ≠ .null) : j = .str (k.text v) := by
  subst hk
  cases v with
  | none => exact absurd h hj
  | some v => exact h

end Shows

/-- the full result has of a result key what the pages have together -/
structure Has (L : Layout κ) (ps : List (Page V K kind)) (s : Full ρ V) (c : Option κ) : Prop where
  absent : s.result.search (L.path c) = .null ↔ ∀ p ∈ ps, p.val c = none
  list : kindOf kind c = .list → (s.result.search (L.path c)).items s.heap = ps.flatMap (Page.list c)
  num : kindOf kind c = .num → s.result.search (L.path c) ≠ .null →
    s.result.search (L.path c) = .num (ps.map (Page.number c)).sum
  str : kindOf kind c = .str → s.result.search (L.path c) ≠ .null →
    s.result.search (L.path c) = .str (String.join (ps.map (Page.text c)))

theorem has_of_shows {L : Layout κ} {ps : List (Page V K kind)} {s : Full ρ V} {c : Option κ}
    (h : Shows s.heap (kindOf kind c) ((ps.foldl FullResult.addPage ⟨none, fun _ => none, none, none⟩).val c)
      (s.result.search (L.path c))) : Has L ps s c := by
  have htotal : (ps.foldl FullResult.addPage ⟨none, fun _ => none, none, none⟩).val c =
      total (kindOf kind c) (ps.map fun p => p.val c) := by
    rw [addPages_val, total, List.foldl_map]
    cases c <;> rfl
  rw [htotal] at h
  refine ⟨?_, fun hk => ?_, fun hk hne => ?_, fun hk hne => ?_⟩
  · rw [shows_null_iff h, total_none_iff]
    simp
  · rw [shows_items hk h, total_values, List.flatMap_map]
    rfl
  · rw [shows_num hk h hne, total_number, List.map_map]
    rfl
  · rw [shows_str hk h hne, total_text, List.map_map]
    rfl

/-- `build_full_result` over an iteration; `none` if it raises -/
def Layout.fullResult [DecidableEq ρ] (L : Layout κ) (o : Iteration V K kind) (encode : Resume V K → Json ρ V)
    (heap : ρ → List V) (pages : List (Json ρ V)) : Option (Full ρ V) :=
  match o.ending, pages with
  | .finished, first :: _ =>
    (L.recordNonAggregateKeyValues first).bind fun part =>
      L.buildFullResult part (o.resumeToken.map encode) heap pages
  | _, _ => none

/-! ## Main result -/

section Agree

variable [DecidableEq ρ] [Fintype K] [DecidableEq V]

/-- the iterators, after the steps `ops` -/
def keyIters (L : Layout κ) (o : Iteration V K kind) (ops : List (ResultKeys.Op L.resultKeys.length)) :
    ResultKeys.St L.resultKeys.length V K kind :=
  run (ResultKeys.step o L.resultKeys.get) (ResultKeys.init L.resultKeys.length V K kind) ops

theorem iterate_pages_ne_nil (it : AioPageIterator V K kind) {fuel : ℕ} (h : (it.iterate fuel).ending = .finished) :
    (it.iterate fuel).pages ≠ [] := by
  cases fuel with
  | zero => cases h
  | succ fuel =>
    obtain ⟨-, hpages, -⟩ := anext_round it it.start fuel
    rw [AioPageIterator.iterate, hpages]
    simp

/-- **Iterators and full result agree.** For every service: if the result keys are lists, then in every interleaving each
iterator has yielded items of its key in the order of the pages, and when it ends all of them; over an iteration that
ends it can always be run to its end. The full result has what the pages have together of each result key, the first
page's non-aggregate keys, and `NextToken` exactly with a resume token; there is one just if the iteration finishes. -/
theorem result_keys_agree (it : AioPageIterator V K kind) (fuel : ℕ) (L : Layout κ)
    (heap : ρ → List V) {pages : List (Json ρ V)} (hfresh : Fresh L pages)
    (hdicts : List.Forall₂ (Dict L heap) pages (it.iterate fuel).pages) (encode : Resume V K → Json ρ V) :
    let o := it.iterate fuel
    ((∀ c, kindOf kind c = .list) → ∀ ops i,
      let all := o.pages.flatMap (Page.list (L.resultKeys.get i))
      (keyIters L o ops).yielded i <+: all ∧
      (∀ r, (keyIters L o ops).ended i = some r →
        (keyIters L o ops).yielded i = all ∧ r = Tee.resultOf o.ending.outcome) ∧
      (o.ending ≠ .running → ∃ ops', (keyIters L o (ops ++ ops')).ended i ≠ none)) ∧
    (o.ending ≠ .finished → L.fullResult o encode heap pages = none) ∧
    (o.ending = .finished → ∃ first s, pages.head? = some first ∧ L.fullResult o encode heap pages = some s ∧
      (∀ c, Has L o.pages s c) ∧ (∀ q ∈ L.nonAggregateKeys, s.result.search q = first.search q) ∧
      s.result.get? ["NextToken"] = o.resumeToken.map encode) := by
  intro o
  refine ⟨fun _ ops i => ?_, fun hne => ?_, fun hfin => ?_⟩
  · intro all
    have hreached : ResultKeys.Reached o L.resultKeys.get (keyIters L o ops) :=
      ResultKeys.run_reached (ResultKeys.init_reached o _) ops
    refine ⟨?_, fun r hr => hreached.1.yielded_of_ended hr, ?_⟩
    · calc (keyIters L o ops).yielded i
        _ <+: (keyIters L o ops).yielded i ++ (keyIters L o ops).results i := List.prefix_append _ _
        _ = (Tee.delivered (keyIters L o ops).tee.log i).flatMap (Page.list (L.resultKeys.get i)) := hreached.1.yields i
        _ <+: all := (hreached.1.popped i).flatMap _
    · intro hending
      obtain ⟨ops', hended⟩ := ResultKeys.iterator_ends hreached hending i
      exact ⟨ops', by rw [keyIters, run_append]; exact hended⟩
  · unfold Layout.fullResult
    cases hend : o.ending with
    | finished => exact absurd hend hne
    | _ => rfl
  · have hpages : o.pages ≠ [] := iterate_pages_ne_nil it hfin
    cases pages with
    | nil => exact absurd (List.forall₂_nil_left_iff.1 hdicts) hpages
    | cons first rest =>
      obtain ⟨part, s, hpart, hs, hshows, hnonAggregate, htoken⟩ :=
        build_full_result_refines L heap hfresh hdicts first (o.resumeToken.map encode)
      refine ⟨first, s, rfl, ?_, fun c => has_of_shows (hshows c), hnonAggregate, htoken⟩
      simp only [Layout.fullResult, hfin, hpart]
      exact hs

end Agree

/-! ## A listing -/

instance (p q : List String) : Decidable (Json.Avoids p q) := inferInstanceAs (Decidable (_ ∧ _))

def listObjects : Layout Unit where
  path
    | none => ["Contents"]
    | some _ => ["CommonPrefixes"]
  resultKeys := [none, some ()]
  nonAggregateKeys := [["Name"]]
  nodup := by decide
  complete := by decide
  path_ne_nil := by decide
  path_avoids := by decide
  nonAggregate_ne_nil := by decide
  nonAggregate_avoids := by decide
  avoids := by decide
  path_token := by decide
  nonAggregate_token := by decide

/-- a page with the lists `contents` and `prefixes` -/
def listing (contents prefixes : ℕ) : Json ℕ ℕ :=
  .dict fun k =>
    if k = "Contents" then some (.list contents)
    else if k = "CommonPrefixes" then some (.list prefixes)
    else if k = "Name" then some (.other 0)
    else none

theorem listing_search (contents prefixes : ℕ) (c : Option Unit) :
    (listing contents prefixes).search (listObjects.path c) = .list (if c = none then contents else prefixes) := by
  cases c <;> simp [listing, listObjects, Json.search, Json.get?]

theorem listing_fresh : Fresh listObjects [listing 0 1, listing 2 3] := by
  constructor
  · intro c c' hne page hpage page' hpage' r hr hr'
    simp only [List.mem_cons, List.not_mem_nil, or_false] at hpage hpage'
    rcases hpage with rfl | rfl <;> rcases hpage' with rfl | rfl <;>
      rw [listing_search] at hr hr' <;> cases hr <;> cases c <;> cases c' <;> simp_all
  · refine List.pairwise_pair.2 fun c r hr hr' => ?_
    rw [listing_search] at hr hr'
    cases hr
    cases c <;> simp at hr'

/-- the lists of the pages of `twoPages` -/
def listingHeap : ℕ → List ℕ
  | 0 => [1, 2]
  | 1 => [11]
  | 2 => [3]
  | 3 => [12]
  | _ => []

def listingIterator : AioPageIterator ℕ Unit fun _ : Unit => Kind.list := ⟨numbers, twoPages, none, none⟩

theorem listing_dicts : List.Forall₂ (Dict listObjects listingHeap)
    [listing 0 1, listing 2 3] (listingIterator.iterate 2).pages := by
  refine .cons (fun c => ?_) (.cons (fun c => ?_) .nil) <;> rw [listing_search] <;> cases c
  · exact ⟨0, rfl, rfl⟩
  · exact ⟨1, rfl, rfl⟩
  · exact ⟨2, rfl, rfl⟩
  · exact ⟨3, rfl, rfl⟩

theorem result_keys_agree_two :
    ∃ first s, [listing 0 1, listing 2 3].head? = some first ∧
      listObjects.fullResult (listingIterator.iterate 2) (fun _ => .null) listingHeap [listing 0 1, listing 2 3] = some s ∧
      (∀ c, Has listObjects (listingIterator.iterate 2).pages s c) ∧
      (∀ q ∈ listObjects.nonAggregateKeys, s.result.search q = first.search q) ∧
      s.result.get? ["NextToken"] = (listingIterator.iterate 2).resumeToken.map fun _ => .null :=
  (result_keys_agree listingIterator 2 listObjects listingHeap listing_fresh listing_dicts _).2.2 (by decide)

end AioBotocore.Paginate
