/-
The secondary result keys over resumed runs. A resumed run blanks them on its first page, as the run before it has
delivered them: but not where that run stopped with the page before.

- `runs_values`: what the runs deliver of a secondary list key, by `Segments.kept`.
- `buildFullResult_values`: full results hold the same.
- `secondary_once_iff`: every value is delivered once iff no limit falls on the end of a page before one that has any.
-/
import Mathlib.Tactic
import AioBotocore.Paginate.Resume

namespace AioBotocore.Paginate

open Segments

variable {V K κ : Type} {kind : κ → Kind}

/-! ## The values of a list key -/

def Page.values (k : κ) (p : Page V K kind) : List V := (kind k).values (p.secondary k)

def Iteration.values (k : κ) (o : Iteration V K kind) : List V := o.pages.flatMap (Page.values k)

def FullResult.values (k : κ) (r : FullResult V K kind) : List V := (kind k).values (r.secondary k)

theorem values_none (k : Kind) : k.values (none : Option (k.Val V)) = [] := by
  cases k <;> rfl

theorem values_emptyValue (k : Kind) (v : Option (k.Val V)) : k.values (k.emptyValue v) = [] := by
  cases k <;> cases v <;> rfl

theorem values_add (k : Kind) (a b : Option (k.Val V)) : k.values (k.add a b) = k.values a ++ k.values b := by
  cases k <;> cases a <;> cases b <;> simp [Kind.add, Kind.values]

theorem addPages_values (k : κ) (pages : List (Page V K kind)) (r : FullResult V K kind) :
    (pages.foldl FullResult.addPage r).values k = r.values k ++ pages.flatMap (Page.values k) := by
  induction pages generalizing r with
  | nil => simp
  | cons p pages ih =>
    have hadd : (r.addPage p).values k = r.values k ++ p.values k := values_add (kind k) _ _
    rw [List.foldl_cons, ih, hadd, List.append_assoc, List.flatMap_cons]

theorem buildFullResult_values (k : κ) {o : Iteration V K kind} (h : o.ending = .finished) :
    (buildFullResult o).elim [] (FullResult.values k) = o.values k := by
  have hnone : FullResult.values k (⟨none, fun _ => none, none, none⟩ : FullResult V K kind) = [] :=
    values_none (kind k)
  have hpages := addPages_values k o.pages ⟨none, fun _ => none, none, none⟩
  rw [hnone, List.nil_append] at hpages
  unfold buildFullResult
  rw [h]
  exact hpages

/-! ## Over all runs -/

variable [Fintype K] [DecidableEq V] {cfg : Cfg V} {method : Request V K → Page V K kind} {cs : List (Request V K)}

theorem runs_values (k : κ) {fuel : ℕ} {startingToken : Option (Resume V K)}
    (hc : Chain cfg method (firstRequest cfg startingToken) cs) (hfuel : cs.length ≤ fuel) {ms : List ℕ+}
    (hdone : ∃ o ∈ runs cfg method fuel startingToken ms, o.resumeToken = none) :
    (runs cfg method fuel startingToken ms).flatMap (Iteration.values k) =
      kept (fun s => (kind k).values (s k)) (Ends (limits ms)) 0 (toDeliver method startingToken cs) := by
  induction ms generalizing startingToken cs with
  | nil => simp [runs] at hdone
  | cons m ms ih =>
    obtain ⟨o, os, hruns, ho, hos⟩ := runs_cons cfg method fuel startingToken m ms
    obtain ⟨-, hpages, hstops⟩ := iterate_spec ⟨cfg, method, some m, startingToken⟩ rfl m.pos hc hfuel
    rw [← ho] at hpages hstops
    have hvalues : o.values k = (o.pages.map Page.seg).flatMap fun p => (kind k).values (p.aside k) := by
      rw [List.flatMap_map]
      rfl
    rw [hruns] at hdone ⊢
    rw [limits_cons, kept_visit blank (fun s => values_emptyValue (kind k) (s k)) m.pos, ← hpages, ← hvalues,
      List.flatMap_cons]
    congr 1
    rcases hos with ⟨hr, rfl⟩ | ⟨r, hr, rfl⟩
    · rw [hstops.resume_none hr]
      rfl
    · obtain ⟨cs', hleft, hc', hsuffix⟩ := hstops.next hc hr
      obtain ⟨o', ho', hr'⟩ := hdone
      have hlater : o' ∈ runs cfg method fuel (some r) ms := by
        rcases List.mem_cons.1 ho' with rfl | ho'
        · rw [hr] at hr'; cases hr'
        · exact ho'
      rw [ih hc' (hsuffix.length_le.trans hfuel) ⟨o', hlater, hr'⟩, ← hleft]

/-! ## Main result -/

/-- every value that the pages of the service have of a secondary list key is delivered once -/
def DeliversSecondary (method : Request V K → Page V K kind) (cs : List (Request V K)) (delivered : κ → List V) : Prop :=
  ∀ k, (delivered k).Perm (cs.flatMap fun q => (method q).values k)

/-- where the limits so far end with the last item of a page that has any, the next page has no secondary value -/
def CutsClean (method : Request V K → Page V K kind) (cs : List (Request V K)) (ms : List ℕ+) : Prop :=
  ∀ pre q q' post, cs = pre ++ q :: q' :: post → (method q).items ≠ [] →
    (∃ i, ((limits ms).take i).sum = ((pre ++ [q]).flatMap fun q => (method q).items).length) →
      ∀ k, (method q').values k = []

omit [Fintype K] [DecidableEq V] in
theorem clean_segs_iff (method : Request V K → Page V K kind) (cs : List (Request V K)) (ms : List ℕ+) :
    (∀ k, Clean (fun s => (kind k).values (s k)) (Ends (limits ms)) (segs method cs)) ↔ CutsClean method cs ms := by
  have hitems : ∀ cs, Segments.items (segs method cs) = cs.flatMap fun q => (method q).items := fun cs => by
    simp [segs, Segments.items, List.flatMap_map]
  constructor
  · rintro h pre q q' post rfl hne hends k
    refine h k (segs method pre) (method q).seg (method q').seg (segs method post) (by simp [segs]) hne ?_
    rw [show segs method pre ++ [(method q).seg] = segs method (pre ++ [q]) by simp [segs], hitems]
    exact hends
  · intro h k pre p q post hl hne hends
    obtain ⟨pre', rest, rfl, rfl, hrest⟩ := List.map_eq_append_iff.1 hl
    obtain ⟨a, rest', rfl, rfl, hrest'⟩ := List.map_eq_cons_iff.1 hrest
    obtain ⟨b, post', rfl, rfl, rfl⟩ := List.map_eq_cons_iff.1 hrest'
    refine h pre' a b post' rfl hne ?_ k
    rw [← hitems]
    simpa [segs, Ends] using hends

/-- For every service whose pages end, and all limits that bring the runs to its end: pages and full results alike
deliver every secondary value once iff no run is resumed at the start of a page that has one. -/
theorem secondary_once_iff (hc : Chain cfg method (fun _ => none) cs) {fuel : ℕ} (hfuel : cs.length ≤ fuel)
    {ms : List ℕ+} (hdone : ∃ o ∈ runs cfg method fuel none ms, o.resumeToken = none) :
    let os := runs cfg method fuel none ms
    (DeliversSecondary method cs (fun k => os.flatMap (Iteration.values k)) ↔ CutsClean method cs ms) ∧
    (DeliversSecondary method cs (fun k => os.flatMap fun o => (buildFullResult o).elim [] (FullResult.values k)) ↔
      CutsClean method cs ms) := by
  intro os
  have hpages : DeliversSecondary method cs (fun k => os.flatMap (Iteration.values k)) ↔ CutsClean method cs ms := by
    rw [← clean_segs_iff]
    refine forall_congr' fun k => ?_
    rw [← kept_perm_iff]
    change ((runs cfg method fuel none ms).flatMap (Iteration.values k)).Perm _ ↔ _
    rw [runs_values k hc hfuel hdone, toDeliver, segs, List.flatMap_map]
    rfl
  have hfull : ∀ k, (os.flatMap fun o => (buildFullResult o).elim [] (FullResult.values k)) =
      os.flatMap (Iteration.values k) := by
    intro k
    refine List.flatMap_congr fun o ho => buildFullResult_values k ?_
    exact ((runs_covers hc hfuel ms).requests o ho).1
  simp only [hfull]
  exact ⟨hpages, hpages⟩

theorem secondary_once_iff_two :
    let os := runs numbers twoPages 2 none [1, 4]
    (DeliversSecondary twoPages twoRequests (fun k => os.flatMap (Iteration.values k)) ↔
      CutsClean twoPages twoRequests [1, 4]) ∧
    (DeliversSecondary twoPages twoRequests
        (fun k => os.flatMap fun o => (buildFullResult o).elim [] (FullResult.values k)) ↔
      CutsClean twoPages twoRequests [1, 4]) :=
  secondary_once_iff twoPages_chain (by decide) (by decide)

/-- the first limit is the length of the first page: prefix 12 of the second one is not delivered -/
theorem boundary_loses_prefix :
    let os := runs numbers twoPages 2 none [2, 4]
    Chain numbers twoPages (fun _ => none) twoRequests ∧ (∃ o ∈ os, o.resumeToken = none) ∧
    os.flatMap Iteration.items = [1, 2, 3] ∧ os.flatMap (Iteration.values ()) = [11] ∧
    ¬ DeliversSecondary twoPages twoRequests (fun k => os.flatMap (Iteration.values k)) ∧
    ¬ DeliversSecondary twoPages twoRequests
      (fun k => os.flatMap fun o => (buildFullResult o).elim [] (FullResult.values k)) := by
  refine ⟨twoPages_chain, by decide, by decide, by decide, fun h => ?_, fun h => ?_⟩
  · exact absurd (h ()) (by decide)
  · exact absurd (h ()) (by decide)

end AioBotocore.Paginate
