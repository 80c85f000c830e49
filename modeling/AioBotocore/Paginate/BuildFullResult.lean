/-
`build_full_result` over the dicts of the pages refines the fold of `FullResult.addPage`. The lists it extends are those
of the pages that came first; the pages of one iteration have lists of their own, one for each page and key.

- `addKey_spec`, `addKey_other`: one result key on one page, and what it leaves to the other keys.
- `addPage_spec`: one page; its own lists are as they came when the iteration goes on.
- `build_full_result_refines`: the result at each result key, at the non-aggregate keys and at `NextToken`.
-/
import Mathlib.Tactic
import AioBotocore.Paginate.Dicts
import AioBotocore.Paginate.PageIterator

namespace AioBotocore.Paginate

open Function Json

variable {ρ V K κ : Type} {kind : κ → Kind} [DecidableEq ρ]

/-! ## The values of a key -/

/-- the kind of the primary key (`none`) or of a secondary one -/
@[reducible] def kindOf (kind : κ → Kind) : Option κ → Kind
  | none => .list
  | some k => kind k

def Page.val (p : Page V K kind) : (c : Option κ) → Option ((kindOf kind c).Val V)
  | none => p.primary
  | some k => p.secondary k

def FullResult.val (r : FullResult V K kind) : (c : Option κ) → Option ((kindOf kind c).Val V)
  | none => r.primary
  | some k => r.secondary k

theorem addPage_val (r : FullResult V K kind) (p : Page V K kind) (c : Option κ) :
    (r.addPage p).val c = (kindOf kind c).add (r.val c) (p.val c) := by
  cases c <;> rfl

/-- the JSON value is that value of a key; `None` if there is none -/
def Shows (heap : ρ → List V) : (k : Kind) → Option (k.Val V) → Json ρ V → Prop
  | _, none, j => j = .null
  | .list, some (l : List V), j => ∃ r, j = .list r ∧ heap r = l
  | .str, some (s : String), j => j = .str s
  | .num, some (n : ℤ), j => j = .num n
  | .other, some v, j => j = .other v

/-! ## Model -/

/-- the result keys and the non-aggregate keys of a paginator: simple paths that do not overlap -/
structure Layout (κ : Type) where
  path : Option κ → List String
  resultKeys : List (Option κ)
  nonAggregateKeys : List (List String)
  nodup : resultKeys.Nodup
  complete : ∀ c, c ∈ resultKeys
  path_ne_nil : ∀ c, path c ≠ []
  path_avoids : ∀ c c', c ≠ c' → Avoids (path c) (path c')
  nonAggregate_ne_nil : ∀ q ∈ nonAggregateKeys, q ≠ []
  nonAggregate_avoids : nonAggregateKeys.Pairwise Avoids
  avoids : ∀ c, ∀ q ∈ nonAggregateKeys, Avoids (path c) q
  path_token : ∀ c, Avoids (path c) ["NextToken"]
  nonAggregate_token : ∀ q ∈ nonAggregateKeys, Avoids q ["NextToken"]

/-- `complete_result`, and the items of the list objects -/
structure Full (ρ V : Type) where
  result : Json ρ V
  heap : ρ → List V

/-- the body of the loop over the result keys; `none` if it raises -/
def addKey (path : List String) (page : Json ρ V) (s : Full ρ V) : Option (Full ρ V) :=
  match page.search path, s.result.search path with
  | .null, _ => some s
  | value, .null => (setValue path value s.result).map fun result => { s with result := result }
  | .list r, .list existing => some { s with heap := update s.heap existing (s.heap existing ++ s.heap r) }
  | .num n, .num existing => (setValue path (.num (existing + n)) s.result).map fun result => { s with result := result }
  | .str t, .str existing => (setValue path (.str (existing ++ t)) s.result).map fun result => { s with result := result }
  -- `extend` of what is not a list, or `+` of what does not add
  | .list _, _ | .num _, _ | .str _, _ => none
  | _, _ => some s

namespace Layout

variable (L : Layout κ)

def addPage (s : Full ρ V) (page : Json ρ V) : Option (Full ρ V) :=
  L.resultKeys.foldlM (fun s c => addKey (L.path c) page s) s

/-- `_record_non_aggregate_key_values` -/
def recordNonAggregateKeyValues (page : Json ρ V) : Option (Json ρ V) :=
  L.nonAggregateKeys.foldlM (fun part q => setValue q (page.search q) part) .empty

def buildFullResult (nonAggregatePart : Json ρ V) (resumeToken : Option (Json ρ V)) (heap : ρ → List V)
    (pages : List (Json ρ V)) : Option (Full ρ V) := do
  let s ← pages.foldlM L.addPage ⟨.empty, heap⟩
  let result := merge s.result nonAggregatePart
  match resumeToken with
  | none => some ⟨result, s.heap⟩
  | some token => (setValue ["NextToken"] token result).map fun result => ⟨result, s.heap⟩

end Layout

/-! ## One result key -/

/-- what the loop has of one result key: `acc` at its path, and lists that are not written to before they are read.
`later` are the pages it has not had the key of, `unread` those whose lists are as they came -/
structure Holds (path : List String) (k : Kind) (heap : ρ → List V) (pages later unread : List (Json ρ V))
    (acc : Option (k.Val V)) (s : Full ρ V) : Prop where
  shows : Shows s.heap k acc (s.result.search path)
  opens : Open path s.result
  own : ∀ r, s.result.search path = .list r →
    (∃ page ∈ pages, page.search path = .list r) ∧ ∀ page ∈ later, page.search path ≠ .list r
  unread : ∀ page ∈ unread, ∀ r, page.search path = .list r → s.heap r = heap r

omit [DecidableEq ρ] in
theorem search_of_get {path : List String} {j value : Json ρ V} (h : j.get? path = some value) :
    j.search path = value := by
  rw [search, h, Option.getD_some]

omit [DecidableEq ρ] in
theorem shows_some_ne_null {heap : ρ → List V} {k : Kind} {v : k.Val V} {j : Json ρ V} (h : Shows heap k (some v) j) :
    j ≠ .null := by
  intro hnull
  subst hnull
  cases k with
  | list =>
    obtain ⟨r, hr, -⟩ := h
    cases hr
  | _ => cases h

omit [DecidableEq ρ] in
/-- a value that is set at the path -/
theorem Holds.set {path : List String} {k : Kind} {heap : ρ → List V} {pages later unread : List (Json ρ V)}
    {acc : Option (k.Val V)} {s : Full ρ V} (h : Holds path k heap pages later unread acc s) (acc' : Option (k.Val V))
    (value : Json ρ V) (hshows : Shows s.heap k acc' value)
    (hown : ∀ r, value = .list r →
      (∃ page ∈ pages, page.search path = .list r) ∧ ∀ page ∈ later, page.search path ≠ .list r) :
    ∃ s', (setValue path value s.result).map (fun result => { s with result := result }) = some s' ∧
      Holds path k heap pages later unread acc' s' := by
  obtain ⟨result, hset, hget, hopen⟩ := setValue_self value h.opens
  have hsearch := search_of_get hget
  refine ⟨{ s with result := result }, by rw [hset]; rfl, ?_, hopen, ?_, h.unread⟩
  · rw [hsearch]
    exact hshows
  · intro r hr
    rw [hsearch] at hr
    exact hown r hr

/-- one key of one page: no list of the page is written to -/
theorem addKey_spec {path : List String} {k : Kind} {heap : ρ → List V} {pages later : List (Json ρ V)}
    {page : Json ρ V} {acc v : Option (k.Val V)} {s : Full ρ V}
    (h : Holds path k heap pages (page :: later) (page :: later) acc s) (hmem : page ∈ pages)
    (hv : Shows heap k v (page.search path))
    (hfresh : ∀ r, page.search path = .list r → ∀ page' ∈ later, page'.search path ≠ .list r) :
    ∃ s', addKey path page s = some s' ∧ Holds path k heap pages later (page :: later) (k.add acc v) s' := by
  have hlater : Holds path k heap pages later (page :: later) acc s :=
    ⟨h.shows, h.opens, fun r hr => ⟨(h.own r hr).1, fun page' hp => (h.own r hr).2 page' (List.mem_cons_of_mem _ hp)⟩,
      h.unread⟩
  -- the value of the page, read from the heap as it is now
  have hnow : Shows s.heap k v (page.search path) := by
    rcases v with _ | v
    · exact hv
    · cases k with
      | list =>
        obtain ⟨r, hr, hl⟩ := hv
        exact ⟨r, hr, (h.unread page List.mem_cons_self r hr).trans hl⟩
      | _ => exact hv
  rcases v with _ | v
  · have hnull : page.search path = .null := hv
    have hadd : k.add acc none = acc := by cases k <;> rfl
    rw [hadd]
    exact ⟨s, by simp only [addKey, hnull], hlater⟩
  rcases acc with _ | a
  · -- the first value: it is the page's own
    have hnull : s.result.search path = .null := h.shows
    have hadd : k.add none (some v) = some v := by cases k <;> rfl
    have hne := shows_some_ne_null hv
    obtain ⟨s', hs', hholds⟩ := hlater.set (some v) (page.search path) hnow fun r hr => ⟨⟨page, hmem, hr⟩, hfresh r hr⟩
    refine ⟨s', ?_, by rw [hadd]; exact hholds⟩
    cases hpage : page.search path with
    | null => exact absurd hpage hne
    | _ =>
      rw [hpage] at hs'
      simpa only [addKey, hpage, hnull] using hs'
  · cases k with
    | list =>
      obtain ⟨r, hr, hl⟩ := hnow
      obtain ⟨existing, hexisting, ha⟩ := h.shows
      refine ⟨{ s with heap := update s.heap existing (s.heap existing ++ s.heap r) }, by simp only [addKey, hr, hexisting],
        ⟨existing, hexisting, ?_⟩, h.opens, hlater.own, ?_⟩
      · simp [ha, hl]
      · intro page' hpage' r' hr'
        have hne : r' ≠ existing := by
          rintro rfl
          exact (h.own r' hexisting).2 page' hpage' hr'
        change update s.heap existing (s.heap existing ++ s.heap r) r' = heap r'
        rw [update_of_ne hne]
        exact h.unread page' hpage' r' hr'
    | str =>
      have hpage : page.search path = .str v := hv
      have hexisting : s.result.search path = .str a := h.shows
      obtain ⟨s', hs', hholds⟩ := hlater.set (some (a ++ v : String)) (.str (a ++ v)) rfl fun r hr => by cases hr
      exact ⟨s', by simpa only [addKey, hpage, hexisting] using hs', hholds⟩
    | num =>
      have hpage : page.search path = .num v := hv
      have hexisting : s.result.search path = .num a := h.shows
      obtain ⟨s', hs', hholds⟩ := hlater.set (some (a + v : ℤ)) (.num (a + v)) rfl fun r hr => by cases hr
      exact ⟨s', by simpa only [addKey, hpage, hexisting] using hs', hholds⟩
    | other =>
      have hpage : page.search path = .other v := hv
      have hexisting : s.result.search path = .other a := h.shows
      exact ⟨s, by simp only [addKey, hpage, hexisting], hlater⟩

/-- another key: its path is kept, and a list that is extended is one of its own -/
theorem addKey_other {path path' : List String} {k k' : Kind} {heap : ρ → List V}
    {pages later unread later' unread' : List (Json ρ V)} {page : Json ρ V} {acc : Option (k.Val V)}
    {acc' : Option (k'.Val V)} {s s' : Full ρ V} (h : Holds path k heap pages later unread acc s)
    (h' : Holds path' k' heap pages later' unread' acc' s) (hadd : addKey path' page s = some s')
    (havoids : Avoids path' path) (hunread : ∀ page ∈ unread, page ∈ pages)
    (hkeys : ∀ page ∈ pages, ∀ page' ∈ pages, ∀ r, page.search path = .list r → page'.search path' ≠ .list r) :
    Holds path k heap pages later unread acc s' := by
  -- setting a value at the other path
  have hset : ∀ value, (setValue path' value s.result).map (fun result => { s with result := result }) = some s' →
      Holds path k heap pages later unread acc s' := by
    intro value hvalue
    obtain ⟨result, hresult, rfl⟩ := Option.map_eq_some_iff.1 hvalue
    obtain ⟨hget, hopen, -⟩ := setValue_other hresult havoids
    have hsearch : result.search path = s.result.search path := by rw [search, search, hget]
    exact ⟨by simpa only [hsearch] using h.shows, hopen h.opens, by simpa only [hsearch] using h.own, h.unread⟩
  -- extending a list that the other path leads to
  have hextend : ∀ existing l, s.result.search path' = .list existing →
      s' = { s with heap := update s.heap existing l } → Holds path k heap pages later unread acc s' := by
    intro existing l hexisting hs'
    subst hs'
    obtain ⟨⟨page', hpage', hfrom⟩, -⟩ := h'.own existing hexisting
    have hother : ∀ r, (∃ page ∈ pages, page.search path = .list r) → r ≠ existing := by
      rintro r ⟨page, hpage, hr⟩ rfl
      exact hkeys page hpage page' hpage' r hr hfrom
    refine ⟨?_, h.opens, h.own, ?_⟩
    · have hshows := h.shows
      cases acc with
      | none => exact hshows
      | some a =>
        cases k with
        | list =>
          obtain ⟨r, hr, ha⟩ := hshows
          refine ⟨r, hr, ?_⟩
          change update s.heap existing l r = a
          rw [update_of_ne (hother r (h.own r hr).1), ha]
        | _ => exact hshows
    · intro page hpage r hr
      change update s.heap existing l r = heap r
      rw [update_of_ne (hother r ⟨page, hunread page hpage, hr⟩)]
      exact h.unread page hpage r hr
  unfold addKey at hadd
  split at hadd
  · obtain rfl := Option.some.inj hadd
    exact h
  · exact hset _ hadd
  · rename_i r existing hpage hexisting
    exact hextend existing _ hexisting (Option.some.inj hadd).symm
  · exact hset _ hadd
  · exact hset _ hadd
  · cases hadd
  · cases hadd
  · cases hadd
  · obtain rfl := Option.some.inj hadd
    exact h

/-! ## One page -/

/-- the lists of the pages: no two keys and no two pages have the same one -/
structure Fresh (L : Layout κ) (pages : List (Json ρ V)) : Prop where
  keys : ∀ c c', c ≠ c' → ∀ page ∈ pages, ∀ page' ∈ pages, ∀ r, page.search (L.path c) = .list r →
    page'.search (L.path c') ≠ .list r
  pages : pages.Pairwise fun page page' => ∀ c r, page.search (L.path c) = .list r →
    page'.search (L.path c) ≠ .list r

/-- the loop has `acc` of every result key -/
def HoldsAll (kind : κ → Kind) (L : Layout κ) (heap : ρ → List V) (pages later unread : List (Json ρ V))
    (acc : (c : Option κ) → Option ((kindOf kind c).Val V)) (s : Full ρ V) : Prop :=
  ∀ c, Holds (L.path c) (kindOf kind c) heap pages later unread (acc c) s

/-- the keys `todo` of a page, by induction on them; the other keys have its values already -/
theorem addKeys_spec {L : Layout κ} {heap : ρ → List V} {pages later : List (Json ρ V)} {page : Json ρ V}
    {acc val : (c : Option κ) → Option ((kindOf kind c).Val V)} {todo : List (Option κ)} (hnodup : todo.Nodup)
    {s : Full ρ V} (hfresh : Fresh L pages) (hsub : ∀ p ∈ page :: later, p ∈ pages)
    (hval : ∀ c, Shows heap (kindOf kind c) (val c) (page.search (L.path c)))
    (hpage : ∀ c r, page.search (L.path c) = .list r → ∀ page' ∈ later, page'.search (L.path c) ≠ .list r)
    (htodo : ∀ c ∈ todo, Holds (L.path c) (kindOf kind c) heap pages (page :: later) (page :: later) (acc c) s)
    (hdone : ∀ c ∉ todo, Holds (L.path c) (kindOf kind c) heap pages later (page :: later)
      ((kindOf kind c).add (acc c) (val c)) s) :
    ∃ s', todo.foldlM (fun s c => addKey (L.path c) page s) s = some s' ∧
      HoldsAll kind L heap pages later (page :: later) (fun c => (kindOf kind c).add (acc c) (val c)) s' := by
  induction todo generalizing s with
  | nil => exact ⟨s, rfl, fun c => hdone c List.not_mem_nil⟩
  | cons c todo ih =>
    obtain ⟨hc, hnodup⟩ := List.nodup_cons.1 hnodup
    have hholds := htodo c List.mem_cons_self
    obtain ⟨s', hadd, hholds'⟩ := addKey_spec hholds (hsub page List.mem_cons_self) (hval c) (hpage c)
    have hother : ∀ c' ≠ c, ∀ {later' acc'}, Holds (L.path c') (kindOf kind c') heap pages later' (page :: later) acc' s →
        Holds (L.path c') (kindOf kind c') heap pages later' (page :: later) acc' s' := fun c' hne _ _ h =>
      addKey_other h hholds hadd (L.path_avoids c c' (Ne.symm hne)) hsub (hfresh.keys c' c hne)
    rw [List.foldlM_cons, hadd]
    refine ih hnodup (fun c' hc' => ?_) fun c' hc' => ?_
    · have hne : c' ≠ c := by
        intro heq
        exact hc (heq ▸ hc')
      exact hother c' hne (htodo c' (List.mem_cons_of_mem _ hc'))
    · by_cases hne : c' = c
      · rw [hne]
        exact hholds'
      · exact hother c' hne (hdone c' fun hmem => (List.mem_cons.1 hmem).elim hne hc')

/-- **One page.** Its values are added to those of the pages before; its lists, which the iterator may read again before
it requests the next page, are as they came. -/
theorem addPage_spec {L : Layout κ} {heap : ρ → List V} {pages later : List (Json ρ V)} {page : Json ρ V}
    {acc val : (c : Option κ) → Option ((kindOf kind c).Val V)} {s : Full ρ V} (hfresh : Fresh L pages)
    (hsub : ∀ p ∈ page :: later, p ∈ pages)
    (hval : ∀ c, Shows heap (kindOf kind c) (val c) (page.search (L.path c)))
    (hpage : ∀ c r, page.search (L.path c) = .list r → ∀ page' ∈ later, page'.search (L.path c) ≠ .list r)
    (h : HoldsAll kind L heap pages (page :: later) (page :: later) acc s) :
    ∃ s', L.addPage s page = some s' ∧
      HoldsAll kind L heap pages later (page :: later) (fun c => (kindOf kind c).add (acc c) (val c)) s' :=
  addKeys_spec L.nodup hfresh hsub hval hpage (fun c _ => h c) fun c hc => absurd (L.complete c) hc

/-! ## All pages -/

theorem addPages_val (ps : List (Page V K kind)) (r : FullResult V K kind) (c : Option κ) :
    (ps.foldl FullResult.addPage r).val c = ps.foldl (fun acc p => (kindOf kind c).add acc (p.val c)) (r.val c) := by
  induction ps generalizing r with
  | nil => rfl
  | cons p ps ih => rw [List.foldl_cons, List.foldl_cons, ih, addPage_val]

/-- the dict of a page has its values -/
def Dict (L : Layout κ) (heap : ρ → List V) (page : Json ρ V) (p : Page V K kind) : Prop :=
  ∀ c, Shows heap (kindOf kind c) (p.val c) (page.search (L.path c))

theorem addPages_spec {L : Layout κ} {heap : ρ → List V} {pages later : List (Json ρ V)} {ps : List (Page V K kind)}
    {acc : (c : Option κ) → Option ((kindOf kind c).Val V)} {s : Full ρ V} (hfresh : Fresh L pages)
    (hsuffix : later <:+ pages) (hdicts : List.Forall₂ (Dict L heap) later ps)
    (h : HoldsAll kind L heap pages later later acc s) :
    ∃ s', later.foldlM L.addPage s = some s' ∧
      HoldsAll kind L heap pages [] [] (fun c => ps.foldl (fun a p => (kindOf kind c).add a (p.val c)) (acc c)) s' := by
  induction hdicts generalizing acc s with
  | nil => exact ⟨s, rfl, h⟩
  | @cons page p later ps hpage _ ih =>
    have hsub : ∀ x ∈ page :: later, x ∈ pages := fun x hx => hsuffix.subset hx
    obtain ⟨hlists, -⟩ := List.pairwise_cons.1 (hfresh.pages.sublist hsuffix.sublist)
    obtain ⟨s', hadd, h'⟩ := addPage_spec hfresh hsub hpage (fun c r hr x hx => hlists x hx c r hr) h
    rw [List.foldlM_cons, hadd]
    refine ih ((List.suffix_cons page later).trans hsuffix) fun c => ?_
    exact ⟨(h' c).shows, (h' c).opens, (h' c).own, fun x hx => (h' c).unread x (List.mem_cons_of_mem _ hx)⟩

omit [DecidableEq ρ] in
theorem init_holds (L : Layout κ) (heap : ρ → List V) (pages : List (Json ρ V)) :
    HoldsAll kind L heap pages pages pages (fun _ => none) ⟨.empty, heap⟩ := by
  intro c
  have habsent : Absent (L.path c) (empty : Json ρ V) := absent_empty (L.path_ne_nil c)
  have hnull : (empty : Json ρ V).search (L.path c) = .null := by rw [search, habsent.get, Option.getD_none]
  refine ⟨hnull, habsent.opens, fun r hr => ?_, fun _ _ _ _ => rfl⟩
  rw [hnull] at hr
  cases hr

/-! ## Keys that the loop does not set -/

omit [DecidableEq ρ] in
theorem foldlM_inv {α σ : Type*} {I : σ → Prop} {f : σ → α → Option σ} {l : List α}
    (hf : ∀ s, ∀ x ∈ l, ∀ s', f s x = some s' → I s → I s') {s t : σ} (h : l.foldlM f s = some t) (hs : I s) : I t := by
  induction l generalizing s with
  | nil =>
    obtain rfl := Option.some.inj h
    exact hs
  | cons x l ih =>
    rw [List.foldlM_cons] at h
    obtain ⟨s', hs', h⟩ := Option.bind_eq_some_iff.1 h
    exact ih (fun s y hy => hf s y (List.mem_cons_of_mem _ hy)) h (hf s x List.mem_cons_self s' hs' hs)

theorem addKey_absent {path q : List String} {page : Json ρ V} {s s' : Full ρ V} (hadd : addKey path page s = some s')
    (havoids : Avoids path q) (h : Absent q s.result) : Absent q s'.result := by
  have hset : ∀ value, (setValue path value s.result).map (fun result => { s with result := result }) = some s' →
      Absent q s'.result := by
    intro value hvalue
    obtain ⟨result, hresult, rfl⟩ := Option.map_eq_some_iff.1 hvalue
    exact (setValue_other hresult havoids).2.2 h
  unfold addKey at hadd
  split at hadd
  · exact Option.some.inj hadd ▸ h
  · exact hset _ hadd
  · exact Option.some.inj hadd ▸ h
  · exact hset _ hadd
  · exact hset _ hadd
  · cases hadd
  · cases hadd
  · cases hadd
  · exact Option.some.inj hadd ▸ h

theorem addPages_absent {L : Layout κ} {q : List String} {pages : List (Json ρ V)} {s s' : Full ρ V}
    (h : pages.foldlM L.addPage s = some s') (havoids : ∀ c, Avoids (L.path c) q) (hs : Absent q s.result) :
    Absent q s'.result :=
  foldlM_inv (I := fun s => Absent q s.result) (fun _ _ _ _ hpage hs =>
    foldlM_inv (I := fun s => Absent q s.result) (fun _ c _ _ hkey hs => addKey_absent hkey (havoids c) hs) hpage hs) h hs

omit [DecidableEq ρ] in
/-- the paths `qs` are set one after the other -/
theorem record_spec {qs : List (List String)} {part : Json ρ V} (page : Json ρ V) (hpairwise : qs.Pairwise Avoids)
    (habsent : ∀ q ∈ qs, Absent q part) :
    ∃ part', qs.foldlM (fun part q => setValue q (page.search q) part) part = some part' ∧
      (∀ q ∈ qs, part'.get? q = some (page.search q)) ∧
      ∀ p, (∀ q ∈ qs, Avoids q p) → part'.get? p = part.get? p ∧ (Absent p part → Absent p part') := by
  induction qs generalizing part with
  | nil => exact ⟨part, rfl, by simp, fun p _ => ⟨rfl, id⟩⟩
  | cons q qs ih =>
    obtain ⟨hq, hpairwise⟩ := List.pairwise_cons.1 hpairwise
    obtain ⟨x, hset, hget, -⟩ := setValue_self (page.search q) (habsent q List.mem_cons_self).opens
    obtain ⟨part', hfold, hall, hothers⟩ := ih hpairwise fun q' hq' =>
      (setValue_other hset (hq q' hq')).2.2 (habsent q' (List.mem_cons_of_mem _ hq'))
    refine ⟨part', by rw [List.foldlM_cons, hset]; exact hfold, ?_, ?_⟩
    · intro q' hq'
      rcases List.mem_cons.1 hq' with rfl | hq'
      · rw [(hothers q' fun q'' hq'' => (hq q'' hq'').symm).1, hget]
      · exact hall q' hq'
    · intro p hp
      obtain ⟨hsame, -, hstays⟩ := setValue_other hset (hp q List.mem_cons_self)
      obtain ⟨hsame', hstays'⟩ := hothers p fun q' hq' => hp q' (List.mem_cons_of_mem _ hq')
      exact ⟨hsame'.trans hsame, fun h => hstays' (hstays h)⟩

/-! ## The full result -/

/-- **The dicts have the full result.** For pages with lists of their own, the result has at each result key what the
values of the pages add up to, at each non-aggregate key what `first` has, and `NextToken` exactly with a resume
token. -/
theorem build_full_result_refines (L : Layout κ) (heap : ρ → List V) {pages : List (Json ρ V)}
    {ps : List (Page V K kind)} (hfresh : Fresh L pages) (hdicts : List.Forall₂ (Dict L heap) pages ps)
    (first : Json ρ V) (resumeToken : Option (Json ρ V)) :
    ∃ part s, L.recordNonAggregateKeyValues first = some part ∧
      L.buildFullResult part resumeToken heap pages = some s ∧
      (∀ c, Shows s.heap (kindOf kind c) ((ps.foldl FullResult.addPage ⟨none, fun _ => none, none, none⟩).val c)
        (s.result.search (L.path c))) ∧
      (∀ q ∈ L.nonAggregateKeys, s.result.search q = first.search q) ∧ s.result.get? ["NextToken"] = resumeToken := by
  obtain ⟨s, hpages, hholds⟩ := addPages_spec hfresh List.suffix_rfl hdicts (init_holds L heap pages)
  have habsent : ∀ q, q ≠ [] → (∀ c, Avoids (L.path c) q) → Absent q s.result := fun q hq havoids =>
    addPages_absent hpages havoids (absent_empty hq)
  obtain ⟨part, hpart, hrecorded, hothers⟩ := record_spec first L.nonAggregate_avoids fun q hq =>
    absent_empty (L.nonAggregate_ne_nil q hq)
  -- before the token is set
  have hkey : ∀ c, (merge s.result part).get? (L.path c) = s.result.get? (L.path c) := fun c =>
    merge_left ((hothers (L.path c) fun q hq => (L.avoids c q hq).symm).2 (absent_empty (L.path_ne_nil c)))
  have hnonAggregate : ∀ q ∈ L.nonAggregateKeys, (merge s.result part).get? q = some (first.search q) := fun q hq =>
    merge_right (hrecorded q hq) (habsent q (L.nonAggregate_ne_nil q hq) fun c => L.avoids c q hq)
  have hshows : ∀ c, Shows s.heap (kindOf kind c)
      ((ps.foldl FullResult.addPage ⟨none, fun _ => none, none, none⟩).val c) (s.result.search (L.path c)) := by
    intro c
    have hacc := (hholds c).shows
    rw [addPages_val]
    cases c <;> exact hacc
  have htoken : Absent ["NextToken"] (merge s.result part) :=
    merge_absent (habsent _ (by simp) L.path_token)
      ((hothers _ L.nonAggregate_token).2 (absent_empty (by simp)))
  cases resumeToken with
  | none =>
    refine ⟨part, ⟨merge s.result part, s.heap⟩, hpart, ?_, fun c => ?_, fun q hq => ?_, htoken.get⟩
    · rw [Layout.buildFullResult, hpages]
      rfl
    · rw [search, hkey c]
      exact hshows c
    · exact search_of_get (hnonAggregate q hq)
  | some token =>
    obtain ⟨result, hset, hget, -⟩ := setValue_self token htoken.opens
    refine ⟨part, ⟨result, s.heap⟩, hpart, ?_, fun c => ?_, fun q hq => ?_, hget⟩
    · rw [Layout.buildFullResult, hpages]
      simp [hset]
    · rw [search, (setValue_other hset (L.path_token c).symm).1, hkey c]
      exact hshows c
    · rw [search, (setValue_other hset (L.nonAggregate_token q hq).symm).1]
      exact search_of_get (hnonAggregate q hq)

end AioBotocore.Paginate
