/-
Runs resumed one after the other read the pages of the service as visits read segments.

- `Chain`: the requests of a full iteration, each with the token of its predecessor.
- `left`: what is left for a resumed run. `Stops`: how a run ends, and what is then left.
- `iterate_spec`: one run is one visit.
- `resumed_runs_cover`: no item is lost or delivered twice.
-/
import Mathlib.Tactic
import AioBotocore.Segments
import AioBotocore.Paginate.PageIterator

namespace AioBotocore.Paginate

open Segments

section Service

variable {V K κ : Type} {kind : κ → Kind} [Fintype K] (cfg : Cfg V) (method : Request V K → Page V K kind)

/-! ## The chain of requests -/

/-- the requests from `q` on, when the pages have no end of their own -/
inductive Chain : Request V K → List (Request V K) → Prop
  | last {q} (h : (method q).following cfg = none) : Chain q [q]
  | more {q t rs} (h : (method q).following cfg = some t) (hc : Chain (injectTokenIntoKwargs cfg t) rs) :
      Chain q (q :: rs)

/-- the page of `q` has the token of `q'` -/
def Follows (q q' : Request V K) : Prop :=
  ∃ t, (method q).following cfg = some t ∧ q' = injectTokenIntoKwargs cfg t

variable {cfg method} {q : Request V K} {cs : List (Request V K)}

theorem Chain.eq_cons (h : Chain cfg method q cs) : ∃ rs, cs = q :: rs := by
  cases h with
  | last => exact ⟨[], rfl⟩
  | more _ _ => exact ⟨_, rfl⟩

theorem Chain.unique (h : Chain cfg method q cs) {cs' : List (Request V K)} (h' : Chain cfg method q cs') : cs = cs' := by
  induction h generalizing cs' with
  | last hn =>
    cases h' with
    | last => rfl
    | more hs => rw [hn] at hs; cases hs
  | more hs _ ih =>
    cases h' with
    | last hn => rw [hn] at hs; cases hs
    | more hs' hc' =>
      obtain rfl := Option.some.inj (hs.symm.trans hs')
      rw [ih hc']

/-- from any of its requests on, it is the chain of that request -/
theorem Chain.drop (h : Chain cfg method q cs) {pre post : List (Request V K)} {q' : Request V K}
    (hcs : cs = pre ++ q' :: post) : Chain cfg method q' (q' :: post) := by
  induction h generalizing pre with
  | last hn =>
    cases pre with
    | nil =>
      obtain ⟨rfl, rfl⟩ := List.cons.inj hcs
      exact .last hn
    | cons _ pre => simp at hcs
  | more hs hc ih =>
    cases pre with
    | nil =>
      obtain ⟨rfl, rfl⟩ := List.cons.inj hcs
      exact .more hs hc
    | cons _ pre => exact ih (List.cons.inj hcs).2

theorem Chain.nodup (h : Chain cfg method q cs) : cs.Nodup := by
  induction h with
  | last => simp
  | @more q t rs hs hc ih =>
    refine List.nodup_cons.2 ⟨fun hmem => ?_, ih⟩
    -- the same request again would have the same pages after it, without end
    obtain ⟨pre, post, rfl⟩ := List.append_of_mem hmem
    have hagain := congrArg List.length ((Chain.more hs hc).unique (hc.drop rfl))
    simp at hagain
    omega

theorem Chain.follows (h : Chain cfg method q cs) : cs.IsChain (Follows cfg method) := by
  induction h with
  | last => simp
  | more hs hc ih =>
    obtain ⟨rs', rfl⟩ := hc.eq_cons
    exact List.isChain_cons_cons.2 ⟨⟨_, hs, rfl⟩, ih⟩

/-- the next token is not the one that gave this request -/
theorem Chain.following_ne (h : Chain cfg method q cs) {t t' : Tokens V K} (ht : (method q).following cfg = some t)
    (ht' : injectTokenIntoKwargs cfg t' = q) : t' ≠ t := by
  rintro rfl
  have hnodup := h.nodup
  cases h with
  | last hn => rw [hn] at ht; cases ht
  | more hs hc =>
    obtain rfl := Option.some.inj (hs.symm.trans ht)
    obtain ⟨rs', rfl⟩ := hc.eq_cons
    rw [ht', List.nodup_cons] at hnodup
    exact hnodup.1 List.mem_cons_self

/-! ## What is left for the next run -/

def blank (s : (k : κ) → Option ((kind k).Val V)) : (k : κ) → Option ((kind k).Val V) :=
  fun k => (kind k).emptyValue (s k)

theorem emptyValue_emptyValue (k : Kind) (v : Option (k.Val V)) : k.emptyValue (k.emptyValue v) = k.emptyValue v := by
  cases k <;> cases v <;> rfl

theorem blank_blank (s : (k : κ) → Option ((kind k).Val V)) : blank (blank s) = blank s := by
  funext k
  exact emptyValue_emptyValue (kind k) (s k)

def Page.seg (p : Page V K kind) : Seg V ((k : κ) → Option ((kind k).Val V)) := ⟨p.items, p.secondary⟩

omit [Fintype K] in
@[simp] theorem parseStartingToken_tokens (r : Resume V K) : (parseStartingToken r).1 = r.tokens := rfl

omit [Fintype K] in
@[simp] theorem seg_items (p : Page V K kind) : p.seg.items = p.items := rfl

omit [Fintype K] in
@[simp] theorem seg_aside (p : Page V K kind) : p.seg.aside = p.secondary := rfl

omit [Fintype K] in
/-- the first page of a resumed run is sliced, and the secondary values in it are blanked -/
theorem handleFirstRequest_seg (p : Page V K kind) (r : Resume V K) :
    (p.handleFirstRequest r).1.seg = ⟨p.items.drop (parseStartingToken r).2, blank p.secondary⟩ := by
  have hitems : (p.primary.map fun allData => allData.drop (parseStartingToken r).2).getD [] =
      p.items.drop (parseStartingToken r).2 := by
    unfold Page.items
    cases p.primary <;> simp
  rw [Page.seg, Page.items, Page.handleFirstRequest, hitems]
  rfl

variable (method) in
def segs (cs : List (Request V K)) : List (Seg V ((k : κ) → Option ((kind k).Val V))) := cs.map fun q => (method q).seg

variable (method) in
/-- what is left for a run started from `r`, when `cs` are the requests from its first on -/
def left (r : Resume V K) : List (Request V K) → List (Seg V ((k : κ) → Option ((kind k).Val V)))
  | [] => []
  | q :: cs => ⟨(method q).items.drop (parseStartingToken r).2, blank (method q).secondary⟩ :: segs method cs

variable (cfg method) in
/-- how a run over the requests `cs` ends: with all pages; inside a page, which the next run requests again; or with a
page, so that the next run begins with the one after it -/
inductive Stops (cs : List (Request V K)) (o : Iteration V K kind) :
    List (Seg V ((k : κ) → Option ((kind k).Val V))) → Prop
  | finished (hq : o.requests = cs) (hr : o.resumeToken = none) : Stops cs o []
  | inside {pre post q r} (hcs : cs = pre ++ q :: post) (hq : o.requests = pre ++ [q]) (hr : o.resumeToken = some r)
      (hk : injectTokenIntoKwargs cfg r.tokens = q) (hne : items (left method r [q]) ≠ []) :
      Stops cs o (left method r (q :: post))
  | boundary {post q r} (hcs : cs = o.requests ++ q :: post) (hr : o.resumeToken = some r)
      (hk : injectTokenIntoKwargs cfg r.tokens = q) : Stops cs o (left method r (q :: post))

omit [Fintype K] in
theorem Stops.after {rs : List (Request V K)} {o : Iteration V K kind} {l} (h : Stops cfg method rs o l)
    (q : Request V K) (p : Page V K kind) (v : Option V) : Stops cfg method (q :: rs) (o.after q p v) l := by
  cases h with
  | finished hq hr => exact .finished (by simp [Iteration.after, hq]) hr
  | @inside pre post q' r hcs hq hr hk hne =>
    exact
      .inside (show q :: rs = (q :: pre) ++ q' :: post by rw [hcs]; rfl) (by simp [Iteration.after, hq]) hr hk hne
  | boundary hcs hr hk => exact .boundary (by simp [Iteration.after, ← hcs]) hr hk

end Service

/-! ## One run -/

section Run

variable {V K κ : Type} {kind : κ → Kind} [Fintype K] {it : AioPageIterator V K kind} {q : Request V K}
  {cs : List (Request V K)}

theorem makeRequest_spec (it : AioPageIterator V K kind) (s : Loop V K) :
    (it.makeRequest s).1.following it.cfg = (it.method s.currentKwargs).following it.cfg ∧
    (it.makeRequest s).1.items = (it.method s.currentKwargs).items.drop (it.makeRequest s).2 ∧
    blank (it.makeRequest s).1.secondary = blank (it.method s.currentKwargs).secondary := by
  unfold AioPageIterator.makeRequest
  split
  · rename_i r hfirst hr
    have hseg := handleFirstRequest_seg (it.method s.currentKwargs) r
    exact ⟨rfl, congrArg Seg.items hseg, blank_blank _⟩
  · exact ⟨rfl, by simp, rfl⟩

/-- what is left when the first `n` items of a response have been delivered -/
theorem left_response (it : AioPageIterator V K kind) (s : Loop V K) (n : ℕ) (rs : List (Request V K)) :
    left it.method ⟨s.nextToken, some (n + (it.makeRequest s).2)⟩ (s.currentKwargs :: rs) =
      ⟨(it.makeRequest s).1.items.drop n, blank (it.makeRequest s).1.secondary⟩ :: segs it.method rs := by
  obtain ⟨-, hitems, hblank⟩ := makeRequest_spec it s
  rw [left, hitems, hblank, List.drop_drop, add_comm]
  rfl

variable [DecidableEq V]

/-- a run from the loop variables `s` on is a visit of the segments `l` -/
def Visits (it : AioPageIterator V K kind) (cs : List (Request V K)) (l : List (Seg V ((k : κ) → Option ((kind k).Val V))))
    (m : ℕ) (o : Iteration V K kind) : Prop :=
  o.ending = .finished ∧ o.pages.map Page.seg = (visit blank l m).seen ∧
    Stops it.cfg it.method cs o (visit blank l m).rest

/-- the limit is inside the page -/
theorem anext_inside {m : ℕ} (hm : it.maxItems = some m) {s : Loop V K} (htotal : s.totalItems < m)
    (hk : injectTokenIntoKwargs it.cfg s.nextToken = s.currentKwargs)
    (hlt : m - s.totalItems < (it.makeRequest s).1.items.length) (fuel : ℕ) (rs : List (Request V K)) :
    Visits it (s.currentKwargs :: rs) ((it.makeRequest s).1.seg :: segs it.method rs) (m - s.totalItems)
      (it.anext (fuel + 1) s) := by
  have hleft := left_response it s (m - s.totalItems)
  generalize hp : it.makeRequest s = response at *
  have htruncate : 0 < s.totalItems + response.1.items.length - m := by omega
  have hkeep : response.1.items.length - (s.totalItems + response.1.items.length - m) = m - s.totalItems := by omega
  unfold Visits
  rw [visit_inside blank (p := response.1.seg) hlt]
  simp only [AioPageIterator.anext, hp, hm, htruncate, if_true, Page.truncateResponse, hkeep]
  refine ⟨trivial, rfl, ?_⟩
  rw [seg_aside, seg_items, ← hleft rs]
  refine .inside (show s.currentKwargs :: rs = [] ++ s.currentKwargs :: rs from rfl) rfl rfl hk ?_
  rw [hleft []]
  simpa [segs] using hlt

/-- the whole page is within the limit -/
theorem anext_page {m : ℕ} (hm : it.maxItems = some m) {s : Loop V K}
    (hle : s.totalItems + (it.makeRequest s).1.items.length ≤ m) (fuel : ℕ) :
    let nonAggregatePart := if s.firstRequest then some (it.makeRequest s).1.nonAggregate else none
    let totalItems := s.totalItems + (it.makeRequest s).1.items.length
    it.anext (fuel + 1) s =
      match (it.makeRequest s).1.following it.cfg with
      | none => ⟨[s.currentKwargs], [(it.makeRequest s).1], none, nonAggregatePart, .finished⟩
      | some t =>
        if m = totalItems then
          ⟨[s.currentKwargs], [(it.makeRequest s).1], some ⟨t, none⟩, nonAggregatePart, .finished⟩
        else if s.previousNextToken = some t then
          ⟨[s.currentKwargs], [(it.makeRequest s).1], none, nonAggregatePart, .paginationError⟩
        else
          (it.anext fuel ⟨injectTokenIntoKwargs it.cfg t, some t, t, totalItems, false⟩).after s.currentKwargs
            (it.makeRequest s).1 nonAggregatePart := by
  have htruncate : ¬ 0 < s.totalItems + (it.makeRequest s).1.items.length - m := by omega
  cases hfollow : (it.makeRequest s).1.following it.cfg with
  | none => simp only [AioPageIterator.anext, hm, htruncate, if_false, hfollow]
  | some t => simp only [AioPageIterator.anext, hm, htruncate, if_false, hfollow, Option.some.injEq]

/-- **One run of the loop** -/
theorem anext_spec {m : ℕ} (hm : it.maxItems = some m) (hc : Chain it.cfg it.method q cs) {s : Loop V K} {fuel : ℕ}
    (hq : s.currentKwargs = q) (hk : injectTokenIntoKwargs it.cfg s.nextToken = q) (htotal : s.totalItems < m)
    (hprev : ∀ t, s.previousNextToken = some t → injectTokenIntoKwargs it.cfg t = q) (hfuel : cs.length ≤ fuel) :
    Visits it cs ((it.makeRequest s).1.seg :: segs it.method cs.tail) (m - s.totalItems) (it.anext fuel s) := by
  induction hc generalizing s fuel with
  | @last q hn =>
    obtain ⟨fuel, rfl⟩ : ∃ n, fuel = n + 1 := ⟨fuel - 1, by simp at hfuel; omega⟩
    subst hq
    by_cases hlt : m - s.totalItems < (it.makeRequest s).1.items.length
    · exact anext_inside hm htotal hk hlt fuel []
    · have hfollow := (makeRequest_spec it s).1.trans hn
      rw [anext_page hm (by omega), hfollow]
      unfold Visits
      rw [List.tail_cons, segs, List.map_nil, visit_last blank (by rw [seg_items]; omega)]
      exact ⟨rfl, rfl, .finished rfl rfl⟩
  | @more q t rs hs hc ih =>
    obtain ⟨fuel, rfl⟩ : ∃ n, fuel = n + 1 := ⟨fuel - 1, by simp at hfuel; omega⟩
    subst hq
    by_cases hlt : m - s.totalItems < (it.makeRequest s).1.items.length
    · exact anext_inside hm htotal hk hlt fuel rs
    · have hfollow := (makeRequest_spec it s).1.trans hs
      have hnew : s.previousNextToken ≠ some t := fun h => (Chain.more hs hc).following_ne hs (hprev t h) rfl
      obtain ⟨rs', rfl⟩ := hc.eq_cons
      rw [anext_page hm (by omega), hfollow]
      unfold Visits
      rw [List.tail_cons, segs, List.map_cons]
      by_cases hend : m = s.totalItems + (it.makeRequest s).1.items.length
      · -- the limit is reached with the page
        rw [visit_end blank (by rw [seg_items]; omega)]
        simp only [← hend, if_true]
        exact ⟨trivial, rfl, .boundary (r := ⟨t, none⟩) rfl rfl rfl⟩
      · rw [visit_past blank (by rw [seg_items]; omega)]
        simp only [if_neg hend, if_neg hnew]
        obtain ⟨hending, hpages, hstops⟩ :=
          ih (s := ⟨injectTokenIntoKwargs it.cfg t, some t, t, s.totalItems + (it.makeRequest s).1.items.length, false⟩)
            rfl rfl (by simp only; omega) (fun t' ht' => by rw [← Option.some.inj ht'])
            (by simpa using hfuel)
        rw [Nat.sub_add_eq] at hpages hstops
        exact ⟨hending, congrArg _ hpages, hstops.after _ _ _⟩

/-! ## Resumed runs -/

/-- the first request of a run -/
def firstRequest (cfg : Cfg V) : Option (Resume V K) → Request V K
  | none => fun _ => none
  | some r => injectTokenIntoKwargs cfg r.tokens

/-- what there is to deliver for a run -/
def toDeliver (method : Request V K → Page V K kind) (startingToken : Option (Resume V K)) (cs : List (Request V K)) :
    List (Seg V ((k : κ) → Option ((kind k).Val V))) :=
  match startingToken with
  | none => segs method cs
  | some r => left method r cs

/-- **One run is one visit.** -/
theorem iterate_spec (it : AioPageIterator V K kind) {m : ℕ} (hm : it.maxItems = some m) (hpos : 0 < m)
    (hc : Chain it.cfg it.method (firstRequest it.cfg it.startingToken) cs) {fuel : ℕ} (hfuel : cs.length ≤ fuel) :
    Visits it cs (toDeliver it.method it.startingToken cs) m (it.iterate fuel) := by
  obtain ⟨rs, rfl⟩ := hc.eq_cons
  unfold AioPageIterator.iterate AioPageIterator.start
  cases hr : it.startingToken with
  | none =>
    rw [hr] at hc hfuel
    have hrun := anext_spec hm hc (s := ⟨fun _ => none, none, fun _ => none, 0, true⟩) rfl rfl hpos
      (fun t ht => by cases ht) hfuel
    simpa [AioPageIterator.makeRequest, hr, toDeliver, segs, firstRequest] using hrun
  | some r =>
    rw [hr] at hc hfuel
    have hrun := anext_spec hm hc (s := ⟨injectTokenIntoKwargs it.cfg r.tokens, none, r.tokens, 0, true⟩) rfl
      rfl hpos (fun t ht => by cases ht) hfuel
    simpa [AioPageIterator.makeRequest, hr, toDeliver, left, handleFirstRequest_seg, firstRequest] using hrun

variable {cfg : Cfg V} {method : Request V K → Page V K kind} {o : Iteration V K kind}
  {l : List (Seg V ((k : κ) → Option ((kind k).Val V)))}

omit [Fintype K] [DecidableEq V] in
theorem Stops.requests_infix (h : Stops cfg method cs o l) : o.requests <:+: cs := by
  cases h with
  | finished hq hr => rw [hq]
  | @inside pre post q r hcs hq hr hk hne => exact ⟨[], post, by rw [hcs, hq]; simp⟩
  | @boundary post q r hcs hr hk => exact ⟨[], q :: post, by rw [hcs]; simp⟩

omit [DecidableEq V] in
/-- the next run has the rest of the chain before it, and what is left to deliver -/
theorem Stops.next (h : Stops cfg method cs o l) (hc : Chain cfg method q cs) {r : Resume V K}
    (hr : o.resumeToken = some r) :
    ∃ cs', l = toDeliver method (some r) cs' ∧ Chain cfg method (firstRequest cfg (some r)) cs' ∧ cs' <:+ cs := by
  cases h with
  | finished hq hr' => rw [hr] at hr'; cases hr'
  | @inside pre post q' r' hcs hq hr' hk hne =>
    obtain rfl := Option.some.inj (hr.symm.trans hr')
    exact ⟨q' :: post, rfl, by rw [firstRequest, hk]; exact hc.drop hcs, ⟨pre, hcs.symm⟩⟩
  | @boundary post q' r' hcs hr' hk =>
    obtain rfl := Option.some.inj (hr.symm.trans hr')
    exact ⟨q' :: post, rfl, by rw [firstRequest, hk]; exact hc.drop hcs, ⟨o.requests, hcs.symm⟩⟩

omit [DecidableEq V] in
/-- no resume token is left iff the last page was received and nothing of it is left -/
theorem Stops.resume_none_iff (h : Stops cfg method cs o l) (hc : Chain cfg method q cs) :
    o.resumeToken = none ↔ o.requests.getLast? = cs.getLast? ∧ items l = [] := by
  cases h with
  | finished hq hr => simp [hq, hr]
  | @inside pre post q' r hcs hq hr hk hne =>
    have hsplit : items (left method r (q' :: post)) = items (left method r [q']) ++ items (segs method post) := by
      simp [left, segs]
    simp [hr, hsplit, hne]
  | @boundary post q' r hcs hr hk =>
    have hlast : o.requests.getLast? ≠ cs.getLast? := by
      intro heq
      have hnodup := hc.nodup
      rw [hcs, List.nodup_append] at hnodup
      have hin : cs.getLast? = some ((q' :: post).getLast (by simp)) := by
        rw [hcs, List.getLast?_append_of_ne_nil _ (by simp), List.getLast?_eq_some_getLast]
      exact hnodup.2.2 _ (List.mem_of_getLast? (heq.trans hin)) _ (List.getLast_mem (by simp)) rfl
    simp [hr, hlast]

omit [Fintype K] [DecidableEq V] in
theorem Stops.resume_none (h : Stops cfg method cs o l) (hr : o.resumeToken = none) : l = [] := by
  cases h with
  | finished hq hr => rfl
  | inside hcs hq hr' hk hne => rw [hr] at hr'; cases hr'
  | boundary hcs hr' hk => rw [hr] at hr'; cases hr'

/-- the items of the primary result key -/
def Iteration.items (o : Iteration V K kind) : List V := o.pages.flatMap Page.items

omit [Fintype K] [DecidableEq V] in
theorem items_segs (ps : List (Page V K kind)) : Segments.items (ps.map Page.seg) = ps.flatMap Page.items := by
  simp [Segments.items, List.flatMap_map]

theorem runs_cons (cfg : Cfg V) (method : Request V K → Page V K kind) (fuel : ℕ) (startingToken : Option (Resume V K))
    (m : ℕ+) (ms : List ℕ+) :
    ∃ o os, runs cfg method fuel startingToken (m :: ms) = o :: os ∧
      o = AioPageIterator.iterate ⟨cfg, method, some m, startingToken⟩ fuel ∧
      (o.resumeToken = none ∧ os = [] ∨ ∃ r, o.resumeToken = some r ∧ os = runs cfg method fuel (some r) ms) := by
  rw [runs]
  refine ⟨_, _, rfl, rfl, ?_⟩
  split
  · rename_i hr
    exact .inl ⟨hr, rfl⟩
  · rename_i r hr
    exact .inr ⟨r, hr, rfl⟩

/-- the limits -/
def limits (ms : List ℕ+) : List ℕ := ms.map fun m => (m : ℕ)

@[simp] theorem limits_cons (m : ℕ+) (ms : List ℕ+) : limits (m :: ms) = (m : ℕ) :: limits ms := rfl

/-- what runs do that have `cs` before them and `all` to deliver -/
structure Covers (cfg : Cfg V) (method : Request V K → Page V K kind) (cs : List (Request V K)) (all : List V)
    (ms : List ℕ+) (os : List (Iteration V K kind)) : Prop where
  /-- each request has the token of the page before it -/
  requests : ∀ o ∈ os, o.ending = .finished ∧ o.requests <:+: cs ∧ o.requests.IsChain (Follows cfg method)
  /-- run `i` delivers the next `ms[i]` items, or all remaining ones -/
  each : ∀ i o (m : ℕ+), os[i]? = some o → ms[i]? = some m → o.items = (all.drop ((limits ms).take i).sum).take m
  together : os.flatMap Iteration.items = all.take (limits ms).sum
  resume : ∀ i o, os[i]? = some o → (o.resumeToken = none ↔
    o.requests.getLast? = cs.getLast? ∧ (os.take (i + 1)).flatMap Iteration.items = all)
  ends : all.length < (limits ms).sum → ∃ o ∈ os, o.resumeToken = none

section Covers

variable {all : List V} {ms : List ℕ+} {m : ℕ+} {o : Iteration V K kind} {os : List (Iteration V K kind)}
  (hfirst : o.ending = .finished ∧ o.requests <:+: cs ∧ o.requests.IsChain (Follows cfg method))
  (hitems : o.items = all.take m)
  (hresume : o.resumeToken = none ↔ o.requests.getLast? = cs.getLast? ∧ o.items = all)
include hfirst hitems hresume
omit [DecidableEq V]

/-- a run without a resume token is the last one -/
theorem Covers.last (hnone : o.resumeToken = none) : Covers cfg method cs all (m :: ms) [o] := by
  have hall : o.items = all := (hresume.1 hnone).2
  have hlen : all.length ≤ m := by rwa [hitems, List.take_eq_self_iff] at hall
  refine ⟨by simpa using hfirst, ?_, ?_, ?_, fun _ => ⟨o, by simp, hnone⟩⟩
  · rintro (_ | i) o' m' ho' hm'
    · obtain rfl := Option.some.inj ho'
      obtain rfl := Option.some.inj hm'
      simpa using hitems
    · simp at ho'
  · rw [List.flatMap_singleton, hall, List.take_of_length_le]
    simp only [limits_cons, List.sum_cons]
    omega
  · rintro (_ | i) o' ho'
    · obtain rfl := Option.some.inj ho'
      simpa using hresume
    · simp at ho'

/-- a run that has filled its limit, before runs that go on where it has stopped -/
theorem Covers.cons {cs' : List (Request V K)} (hcov : Covers cfg method cs' (all.drop m) ms os) (hsuffix : cs' <:+ cs)
    (hlast : cs.getLast? = cs'.getLast?) (hfull : m ≤ all.length) : Covers cfg method cs all (m :: ms) (o :: os) := by
  have hsplit : o.items ++ all.drop m = all := by rw [hitems, List.take_append_drop]
  refine ⟨?_, ?_, ?_, ?_, ?_⟩
  · intro o' ho'
    rcases List.mem_cons.1 ho' with rfl | ho'
    · exact hfirst
    · obtain ⟨h1, h2, h3⟩ := hcov.requests o' ho'
      exact ⟨h1, h2.trans hsuffix.isInfix, h3⟩
  · rintro (_ | i) o' m' ho' hm'
    · obtain rfl := Option.some.inj ho'
      obtain rfl := Option.some.inj hm'
      simpa using hitems
    · rw [hcov.each i o' m' (by simpa using ho') (by simpa using hm')]
      simp [List.drop_drop]
  · rw [List.flatMap_cons, hcov.together, hitems, limits_cons, List.sum_cons, List.take_add]
  · rintro (_ | i) o' ho'
    · obtain rfl := Option.some.inj ho'
      simpa using hresume
    · rw [hcov.resume i o' (by simpa using ho'), hlast, List.take_succ_cons, List.flatMap_cons]
      refine and_congr_right fun _ => ?_
      conv_rhs => rw [← hsplit]
      rw [List.append_right_inj]
  · intro hlt
    have hrest : (all.drop m).length < (limits ms).sum := by
      rw [List.length_drop]
      simp only [limits_cons, List.sum_cons] at hlt
      omega
    obtain ⟨o', ho', hr'⟩ := hcov.ends hrest
    exact ⟨o', List.mem_cons_of_mem _ ho', hr'⟩

end Covers

/-- **Run lemma** -/
theorem runs_covers {fuel : ℕ} {startingToken : Option (Resume V K)} (hc : Chain cfg method (firstRequest cfg startingToken) cs)
    (hfuel : cs.length ≤ fuel) (ms : List ℕ+) :
    Covers cfg method cs (Segments.items (toDeliver method startingToken cs)) ms
      (runs cfg method fuel startingToken ms) := by
  induction ms generalizing startingToken cs with
  | nil => exact ⟨by simp [runs], by simp [runs], by simp [runs, limits], by simp [runs], by simp [limits]⟩
  | cons m ms ih =>
    obtain ⟨o, os, hruns, ho, hos⟩ := runs_cons cfg method fuel startingToken m ms
    obtain ⟨hending, hpages, hstops⟩ :=
      iterate_spec ⟨cfg, method, some m, startingToken⟩ rfl m.pos hc hfuel
    rw [← ho] at hending hpages hstops
    simp only at hstops hpages
    generalize htodo : toDeliver method startingToken cs = todo at hpages hstops ⊢
    rw [hruns]
    have hitems : o.items = (Segments.items todo).take m := by
      rw [Iteration.items, ← items_segs, hpages, visit_seen_items]
    have hrest := visit_rest_items blank todo m
    have hfirst : o.ending = .finished ∧ o.requests <:+: cs ∧ o.requests.IsChain (Follows cfg method) :=
      ⟨hending, hstops.requests_infix, hc.follows.infix hstops.requests_infix⟩
    have hnone := hstops.resume_none_iff hc
    have hnil : Segments.items (visit blank todo m).rest = [] ↔ o.items = Segments.items todo := by
      rw [hrest, hitems, List.drop_eq_nil_iff, List.take_eq_self_iff]
    rw [hnil] at hnone
    rcases hos with ⟨hr, rfl⟩ | ⟨r, hr, rfl⟩
    · exact .last hfirst hitems hnone hr
    · obtain ⟨cs', hleft, hc', hsuffix⟩ := hstops.next hc hr
      have hcov := ih hc' (hsuffix.length_le.trans hfuel)
      rw [← hleft, hrest] at hcov
      obtain ⟨rs', rfl⟩ := hc'.eq_cons
      have hfull : m ≤ (Segments.items todo).length := visit_full blank (by rw [hleft]; exact List.cons_ne_nil _ _)
      have hlast : cs.getLast? = (firstRequest cfg (some r) :: rs').getLast? := by
        obtain ⟨pre, rfl⟩ := hsuffix
        rw [List.getLast?_append_of_ne_nil _ (by simp)]
      exact hcov.cons hfirst hitems hnone hsuffix hlast hfull

/-- For every service whose pages end, and all limits: the runs deliver the items of the primary result key in order,
each once; `ms` long enough, one of them leaves no resume token. -/
theorem resumed_runs_cover (hc : Chain cfg method (fun _ => none) cs) {fuel : ℕ} (hfuel : cs.length ≤ fuel)
    (ms : List ℕ+) :
    Covers cfg method cs (cs.flatMap fun q => (method q).items) ms (runs cfg method fuel none ms) := by
  have hall : Segments.items (toDeliver method none cs) = cs.flatMap fun q => (method q).items := by
    simp [toDeliver, segs, Segments.items, List.flatMap_map]
  rw [← hall]
  exact runs_covers hc hfuel ms

end Run

/-! ## A service -/

/-- truthy are the numbers but 0, and none of them is the text `'None'` -/
def numbers : Cfg ℕ := ⟨fun v => v != 0, fun _ => false, false⟩

/-- two pages: items 1 and 2 with prefix 11, then item 3 with prefix 12 -/
def twoPages (q : Request ℕ Unit) : Page ℕ Unit fun _ : Unit => Kind.list :=
  match q () with
  | none => ⟨some [1, 2], fun _ => some [11], 0, fun _ => some 7, none⟩
  | some _ => ⟨some [3], fun _ => some [12], 0, fun _ => none, none⟩

def twoRequests : List (Request ℕ Unit) := [fun _ => none, fun _ => some 7]

theorem twoPages_chain : Chain numbers twoPages (fun _ => none) twoRequests :=
  .more (t := fun _ => some 7) rfl (.last rfl)

theorem resumed_runs_cover_two :
    Covers numbers twoPages twoRequests [1, 2, 3] [1, 1, 4] (runs numbers twoPages 2 none [1, 1, 4]) :=
  resumed_runs_cover twoPages_chain (by decide) [1, 1, 4]

end AioBotocore.Paginate
