/-
Model of `AioHierarchicalEmitter` (`hooks.py`): registering replaces botocore's handlers by the async ones of
`_HANDLER_MAPPING`, emitting goes through the lookup cache. Unregistering is botocore's and replaces nothing.

`Botocore` is botocore's `HierarchicalEmitter`: what it stores (a prefix trie and the unique ids) is known by its
`Content`, the handlers of each event name in three sections and what each unique id stands for.

- `flat_append`, `flat_removeFirst`: what registering and unregistering do to the handlers of one event name.
- `unregister_register_iff`: after any history, a registration that is undone with the same arguments leaves the handlers
  that it found iff a handler given without unique id is none that gets replaced, and a unique id in use is counted or
  stands for a handler of other events; they are called in the same order iff, also, no other handler stands behind an
  earlier registration of the same handler in the sections up to the new one.
- `unregister_register_fails`: a botocore handler registered without unique id stays.
-/
import AioBotocore.Async.Run

namespace AioBotocore.Hooks

open Async

/-! ## What is registered -/

/-- the functions of botocore that have an async replacement -/
inductive Replaced where
  | injectPresignedUrlEc2
  | injectPresignedUrlRds
  | addGeneratePresignedUrl
  | addGeneratePresignedPost
  | addGenerateDbAuthToken
  | parseGetBucketLocation
  | addDsqlGenerateDbAuthTokenMethods
deriving DecidableEq, Repr

inductive Handler (χ : Type) where
  | botocore (f : Replaced)
  | aiobotocore (f : Replaced)
  | other (x : χ)
deriving DecidableEq, Repr

/-- `_HANDLER_MAPPING` -/
def handlerMapping {χ : Type} : Handler χ → Option (Handler χ)
  | .botocore f => some (.aiobotocore f)
  | _ => none

/-- `_HANDLER_MAPPING.get(handler, handler)` -/
def mapped {χ : Type} (h : Handler χ) : Handler χ := (handlerMapping h).getD h

theorem mapped_eq_iff {χ : Type} (h : Handler χ) : mapped h = h ↔ handlerMapping h = none := by
  cases h <;> simp [mapped, handlerMapping]

/-- `register_first`, `register`, `register_last` -/
inductive Section where
  | first
  | middle
  | last
deriving DecidableEq, Repr

section Sections

variable {η : Type} [DecidableEq η] (f : Section → List η) (k : Section) (h : η)

/-- the handlers of one event name in the order in which they are called -/
def flat : List η := f .first ++ f .middle ++ f .last

/-- the sections up to and including `k` -/
def upTo : List η :=
  match k with
  | .first => f .first
  | .middle => f .first ++ f .middle
  | .last => flat f

def behind : List η :=
  match k with
  | .first => f .middle ++ f .last
  | .middle => f .last
  | .last => []

def append : Section → List η := Function.update f k (f k ++ [h])

/-- the first instance is removed -/
def removeFirst : Section → List η :=
  if h ∈ f .first then Function.update f .first ((f .first).erase h)
  else if h ∈ f .middle then Function.update f .middle ((f .middle).erase h)
  else Function.update f .last ((f .last).erase h)

omit [DecidableEq η] in
theorem upTo_behind : upTo f k ++ behind f k = flat f := by
  cases k <;> simp [upTo, behind, flat]

omit [DecidableEq η] in
theorem flat_append : flat (append f k h) = upTo f k ++ h :: behind f k := by
  cases k <;> simp [flat, append, upTo, behind, Function.update]

theorem flat_removeFirst : flat (removeFirst f h) = (flat f).erase h := by
  unfold removeFirst
  split
  · rename_i hfirst
    simp [flat, Function.update, List.erase_append_left _ hfirst]
  · rename_i hfirst
    split
    · rename_i hmiddle
      simp [flat, Function.update, List.erase_append_right _ hfirst, List.erase_append_left _ hmiddle]
    · rename_i hmiddle
      simp [flat, Function.update, List.erase_append_right _ hfirst, List.erase_append_right _ hmiddle]

end Sections

section Lists

variable {η : Type} [DecidableEq η]

theorem perm_erase_insert_iff (a b : List η) (m h : η) : ((a ++ m :: b).erase h).Perm (a ++ b) ↔ m = h := by
  have hmid : (a ++ m :: b).Perm (m :: (a ++ b)) := List.perm_middle
  constructor
  · intro hperm
    by_cases hmem : h ∈ a ++ m :: b
    · have hcons : (h :: (a ++ b)).Perm (m :: (a ++ b)) :=
        ((hperm.symm.cons h).trans (List.perm_cons_erase hmem).symm).trans hmid
      have hcount := hcons.count_eq h
      by_contra hne
      rw [List.count_cons_self, List.count_cons_of_ne hne] at hcount
      omega
    · rw [List.erase_of_not_mem hmem] at hperm
      have hlen := hperm.length_eq
      simp only [List.length_append, List.length_cons] at hlen
      omega
  · intro hmh
    have herase := hmid.erase h
    rw [hmh, List.erase_cons_head] at herase
    rw [hmh]
    exact herase

theorem erase_insert_eq_iff (a b : List η) (h : η) :
    (a ++ h :: b).erase h = a ++ b ↔ ∀ x ∈ a.dropWhile (· ≠ h), x = h := by
  induction a with
  | nil => simp
  | cons y a ih =>
    by_cases hy : y = h
    · rw [hy, List.cons_append, List.erase_cons_head, List.dropWhile_cons_of_neg (by simp)]
      clear ih hy
      induction a with
      | nil => simp
      | cons z a iha =>
        by_cases hz : z = h
        · rw [hz]
          simpa using iha
        · simp [hz]
    · rw [List.cons_append, List.erase_cons_tail (by simpa using hy), List.dropWhile_cons_of_pos (by simpa using hy),
        List.cons_append, List.cons_inj_right]
      exact ih

end Lists

/-! ## botocore's store -/

variable {κ ι χ ς : Type} [DecidableEq κ] [DecidableEq ι] [DecidableEq χ]

/-- what a store holds: the handlers of each event name, and for each unique id in use its handler and, if it is counted,
how often it has been registered -/
structure Content (κ ι χ : Type) where
  lists : κ → Section → List (Handler χ)
  ids : ι → Option (Handler χ × Option ℕ)

def Content.appendItem (c : Content κ ι χ) (k : Section) (ev : κ) (h : Handler χ) : κ → Section → List (Handler χ) :=
  Function.update c.lists ev (append (c.lists ev) k h)

def Content.removeItem (c : Content κ ι χ) (ev : κ) (h : Handler χ) : κ → Section → List (Handler χ) :=
  Function.update c.lists ev (removeFirst (c.lists ev) h)

/-- A unique id in use registers nothing. It has to be counted by all its registrations or by none: `none` is the
`ValueError`. -/
def Content.register (c : Content κ ι χ) (k : Section) (ev : κ) (h : Handler χ) (uid : Option ι) (usesCount : Bool) :
    Option (Content κ ι χ) :=
  match uid with
  | none => some ⟨c.appendItem k ev h, c.ids⟩
  | some u =>
    match c.ids u with
    | none =>
      some ⟨c.appendItem k ev h, Function.update c.ids u (some (h, if usesCount then some 1 else none))⟩
    | some (h₁, count) =>
      if usesCount = count.isSome then some ⟨c.lists, Function.update c.ids u (some (h₁, count.map (· + 1)))⟩
      else none

/-- A unique id is given up with its last registration and then stands for the handler it was registered with. The
`ValueError` of a wrong `unique_id_uses_count` changes nothing. -/
def Content.unregister (c : Content κ ι χ) (ev : κ) (h : Handler χ) (uid : Option ι) (usesCount : Bool) :
    Content κ ι χ :=
  match uid with
  | none => ⟨c.removeItem ev h, c.ids⟩
  | some u =>
    match c.ids u with
    | none => c
    | some (h₁, none) => if usesCount then c else ⟨c.removeItem ev h₁, Function.update c.ids u none⟩
    | some (h₁, some n) =>
      if usesCount then
        if n = 1 then ⟨c.removeItem ev h₁, Function.update c.ids u none⟩
        else ⟨c.lists, Function.update c.ids u (some (h₁, some (n - 1)))⟩
      else c

/-- The store as a parameter. Both changes say whether they clear the lookup cache; `verify` is `_verify_is_callable` and
`_verify_accept_kwargs`, `matching` the registered names that an event name is matched by, in the order of
`prefix_search`. -/
structure Botocore (ς κ ι χ : Type) [DecidableEq κ] [DecidableEq ι] [DecidableEq χ] where
  empty : ς
  verify : Handler χ → Bool
  registerSection : ς → Section → κ → Handler χ → Option ι → Bool → Option (ς × Bool)
  unregister : ς → κ → Handler χ → Option ι → Bool → ς × Bool
  prefixSearch : ς → κ → List (Handler χ)
  content : ς → Content κ ι χ
  matching : κ → List κ
  content_empty : content empty = ⟨fun _ _ => [], fun _ => none⟩
  content_register : ∀ s k ev h uid uses,
    (registerSection s k ev h uid uses).map (fun r => content r.1) = (content s).register k ev h uid uses
  content_unregister : ∀ s ev h uid uses, content (unregister s ev h uid uses).1 = (content s).unregister ev h uid uses
  register_cleared : ∀ {s k ev h uid uses s'},
    registerSection s k ev h uid uses = some (s', false) → (content s').lists = (content s).lists
  unregister_cleared : ∀ {s ev h uid uses s'},
    unregister s ev h uid uses = (s', false) → (content s').lists = (content s).lists
  prefixSearch_eq : ∀ s name, prefixSearch s name = (matching name).flatMap fun ev => flat ((content s).lists ev)
  matched : ∀ ev, ∃ name, ev ∈ matching name ∧ (matching name).Nodup

/-! ## Model -/

structure St (ς κ χ : Type) where
  handlers : ς
  lookupCache : κ → Option (List (Handler χ))

variable (B : Botocore ς κ ι χ)

def init : St ς κ χ := ⟨B.empty, fun _ => none⟩

/-- `_verify_and_register`; `none` is an exception -/
def verifyAndRegister (s : St ς κ χ) (k : Section) (ev : κ) (handler : Handler χ) (uid : Option ι) (usesCount : Bool) :
    Option (St ς κ χ) :=
  if B.verify (mapped handler) then
    (B.registerSection s.handlers k ev (mapped handler) uid usesCount).map fun r =>
      ⟨r.1, if r.2 then fun _ => none else s.lookupCache⟩
  else none

/-- `unregister`, inherited -/
def unregister (s : St ς κ χ) (ev : κ) (handler : Handler χ) (uid : Option ι) (usesCount : Bool) : St ς κ χ :=
  let r := B.unregister s.handlers ev handler uid usesCount
  ⟨r.1, if r.2 then fun _ => none else s.lookupCache⟩

/-- the lookup of `_emit` -/
def handlersToCall (s : St ς κ χ) (name : κ) : List (Handler χ) × St ς κ χ :=
  match s.lookupCache name with
  | none =>
    let hs := B.prefixSearch s.handlers name
    (hs, { s with lookupCache := Function.update s.lookupCache name (some hs) })
  | some hs => (hs, s)

/-- the loop of `_emit`, `respond` being what the handlers return -/
def callAll {ρ : Type} (respond : Handler χ → Option ρ) (stopOnResponse : Bool) :
    List (Handler χ) → List (Handler χ × Option ρ)
  | [] => []
  | h :: hs =>
    let response := respond h
    if stopOnResponse ∧ response.isSome then [(h, response)]
    else (h, response) :: callAll respond stopOnResponse hs

/-- `_emit` -/
def emit {ρ : Type} (s : St ς κ χ) (name : κ) (respond : Handler χ → Option ρ) (stopOnResponse : Bool) :
    List (Handler χ × Option ρ) × St ς κ χ :=
  let (hs, s') := handlersToCall B s name
  (callAll respond stopOnResponse hs, s')

inductive Op (κ ι χ : Type) where
  | register (k : Section) (ev : κ) (h : Handler χ) (uid : Option ι) (usesCount : Bool)
  | unregister (ev : κ) (h : Handler χ) (uid : Option ι) (usesCount : Bool)
  | emit (name : κ)
deriving DecidableEq, Repr

def step (s : St ς κ χ) : Op κ ι χ → St ς κ χ
  | .register k ev h uid uses => (verifyAndRegister B s k ev h uid uses).getD s
  | .unregister ev h uid uses => unregister B s ev h uid uses
  | .emit name => (handlersToCall B s name).2

/-! ## Every history -/

/-- no unique id in use has been counted down to zero -/
def Positive (ids : ι → Option (Handler χ × Option ℕ)) : Prop := ∀ u h n, ids u = some (h, some n) → 1 ≤ n

/-- besides, the cache repeats what the store says -/
structure Inv (s : St ς κ χ) : Prop where
  cache : ∀ name hs, s.lookupCache name = some hs → hs = B.prefixSearch s.handlers name
  counts : Positive (B.content s.handlers).ids

theorem init_inv : Inv B (init B) := by
  constructor
  · intro name hs h
    cases h
  · intro u h n hid
    rw [init, B.content_empty] at hid
    cases hid

theorem prefixSearch_congr {s s' : ς} (h : (B.content s').lists = (B.content s).lists) (name : κ) :
    B.prefixSearch s' name = B.prefixSearch s name := by
  rw [B.prefixSearch_eq, B.prefixSearch_eq, h]

/-- a change either clears the cache or leaves what it repeats -/
theorem cache_kept {s : St ς κ χ} (h : Inv B s) (s' : ς) (cleared : Bool)
    (hlists : cleared = false → (B.content s').lists = (B.content s.handlers).lists) (name : κ) (hs : List (Handler χ))
    (hcache : (if cleared then fun _ => none else s.lookupCache) name = some hs) : hs = B.prefixSearch s' name := by
  cases cleared with
  | true => cases hcache
  | false =>
    rw [prefixSearch_congr B (hlists rfl)]
    exact h.cache name hs hcache

omit [DecidableEq χ] in
theorem Positive.update {ids : ι → Option (Handler χ × Option ℕ)} (hids : Positive ids) (u : ι)
    {v : Option (Handler χ × Option ℕ)} (hv : ∀ h n, v = some (h, some n) → 1 ≤ n) :
    Positive (Function.update ids u v) := by
  intro u' h n hid
  by_cases hu : u' = u
  · rw [hu, Function.update_self] at hid
    exact hv h n hid
  · rw [Function.update_of_ne hu] at hid
    exact hids u' h n hid

omit [DecidableEq χ] in
theorem Content.register_positive {c c' : Content κ ι χ} {k : Section} {ev : κ} {h : Handler χ} {uid : Option ι}
    {uses : Bool} (hc : Positive c.ids) (hreg : c.register k ev h uid uses = some c') : Positive c'.ids := by
  unfold Content.register at hreg
  split at hreg
  · cases hreg
    exact hc
  · split at hreg
    · cases hreg
      apply hc.update
      intro h' n hv
      cases uses <;> simp_all
    · split at hreg
      · cases hreg
        apply hc.update
        intro h' n hv
        simp only [Option.some.injEq, Prod.mk.injEq, Option.map_eq_some_iff] at hv
        obtain ⟨-, m, -, hm⟩ := hv
        omega
      · cases hreg

theorem Content.unregister_positive {c : Content κ ι χ} (ev : κ) (h : Handler χ) (uid : Option ι) (uses : Bool)
    (hc : Positive c.ids) : Positive (c.unregister ev h uid uses).ids := by
  have hnone : ∀ u, Positive (Function.update c.ids u none) := by
    intro u
    apply hc.update
    intro h' n hv
    cases hv
  unfold Content.unregister
  split
  · exact hc
  · split
    · exact hc
    · split
      · exact hc
      · exact hnone _
    · rename_i h₁ n hcount
      have hn := hc _ h₁ n hcount
      split
      · split
        · exact hnone _
        · apply hc.update
          intro h' n' hv
          simp only [Option.some.injEq, Prod.mk.injEq] at hv
          omega
      · exact hc

/-- what a registration does to the store -/
theorem register_content {s s' : St ς κ χ} {k : Section} {ev : κ} {h : Handler χ} {uid : Option ι} {uses : Bool}
    (hreg : verifyAndRegister B s k ev h uid uses = some s') :
    (B.content s.handlers).register k ev (mapped h) uid uses = some (B.content s'.handlers) := by
  unfold verifyAndRegister at hreg
  split at hreg
  · obtain ⟨r, hr, rfl⟩ := Option.map_eq_some_iff.1 hreg
    rw [← B.content_register, hr]
    rfl
  · cases hreg

theorem register_inv {s s' : St ς κ χ} (hs : Inv B s) {k : Section} {ev : κ} {h : Handler χ} {uid : Option ι}
    {uses : Bool} (hreg : verifyAndRegister B s k ev h uid uses = some s') : Inv B s' := by
  refine ⟨?_, Content.register_positive hs.counts (register_content B hreg)⟩
  unfold verifyAndRegister at hreg
  split at hreg
  · obtain ⟨r, hr, rfl⟩ := Option.map_eq_some_iff.1 hreg
    apply cache_kept B hs
    intro hcleared
    exact B.register_cleared (hr.trans (by rw [← hcleared]))
  · cases hreg

theorem unregister_inv {s : St ς κ χ} (hs : Inv B s) (ev : κ) (h : Handler χ) (uid : Option ι) (uses : Bool) :
    Inv B (unregister B s ev h uid uses) := by
  constructor
  · apply cache_kept B hs
    intro hcleared
    exact B.unregister_cleared (Prod.ext rfl hcleared)
  · rw [unregister, B.content_unregister]
    exact Content.unregister_positive ev h uid uses hs.counts

theorem lookup_inv {s : St ς κ χ} (hs : Inv B s) (name : κ) : Inv B (handlersToCall B s name).2 := by
  unfold handlersToCall
  split
  · refine ⟨?_, hs.counts⟩
    intro name' hs' hcache
    change Function.update s.lookupCache name (some (B.prefixSearch s.handlers name)) name' = some hs' at hcache
    by_cases hname : name' = name
    · rw [hname] at hcache ⊢
      rw [Function.update_self] at hcache
      exact (Option.some.inj hcache).symm
    · rw [Function.update_of_ne hname] at hcache
      exact hs.cache name' hs' hcache
  · exact hs

theorem step_inv (s : St ς κ χ) (o : Op κ ι χ) (hs : Inv B s) : Inv B (step B s o) := by
  cases o with
  | register k ev h uid uses =>
    rw [step]
    cases hreg : verifyAndRegister B s k ev h uid uses with
    | none => exact hs
    | some s' => exact register_inv B hs hreg
  | unregister ev h uid uses => exact unregister_inv B hs ev h uid uses
  | emit name => exact lookup_inv B hs name

theorem lookup_eq {s : St ς κ χ} (hs : Inv B s) (name : κ) :
    (handlersToCall B s name).1 = (B.matching name).flatMap fun ev => flat ((B.content s.handlers).lists ev) := by
  rw [← B.prefixSearch_eq]
  unfold handlersToCall
  split
  · rfl
  · rename_i hs' hcache
    exact hs.cache name hs' hcache

theorem emit_run_handlers (s : St ς κ χ) (names : List κ) :
    (run (step B) s (names.map .emit)).handlers = s.handlers := by
  induction names generalizing s with
  | nil => rfl
  | cons name names ih =>
    rw [List.map_cons, run_cons, ih, step]
    unfold handlersToCall
    split <;> rfl

/-! ## A registration undone -/

/-- the handlers of the event after `register` and `unregister` with the same arguments -/
def leftover (c : Content κ ι χ) (k : Section) (ev : κ) (h : Handler χ) (uid : Option ι) : List (Handler χ) :=
  let registered := upTo (c.lists ev) k ++ mapped h :: behind (c.lists ev) k
  match uid with
  | none => registered.erase h
  | some u =>
    match c.ids u with
    | none => registered.erase (mapped h)
    | some (h₁, none) => (flat (c.lists ev)).erase h₁
    | some (_, some _) => flat (c.lists ev)

/-- `unregister` finds what `register` did: nothing was put in the place of a handler without unique id; a unique id was
not in use, is counted, or stands for a handler of other events -/
def Undone (c : Content κ ι χ) (ev : κ) (h : Handler χ) (uid : Option ι) : Prop :=
  match uid with
  | none => handlerMapping h = none
  | some u =>
    match c.ids u with
    | none => True
    | some (h₁, none) => h₁ ∉ flat (c.lists ev)
    | some (_, some _) => True

/-- if the handler has been registered before in the sections up to this one, only its own registrations follow -/
def InOrder (c : Content κ ι χ) (k : Section) (ev : κ) (h : Handler χ) (uid : Option ι) : Prop :=
  uid.bind c.ids = none → ∀ x ∈ (upTo (c.lists ev) k).dropWhile (· ≠ mapped h), x = mapped h

theorem erase_perm_self_iff {η : Type} [DecidableEq η] (l : List η) (x : η) : (l.erase x).Perm l ↔ x ∉ l := by
  constructor
  · intro hperm hmem
    have hlen := hperm.length_eq
    have hpos := List.length_pos_of_mem hmem
    rw [List.length_erase_of_mem hmem] at hlen
    omega
  · intro hmem
    rw [List.erase_of_not_mem hmem]

omit [DecidableEq κ] [DecidableEq ι] in
theorem leftover_perm_iff (c : Content κ ι χ) (k : Section) (ev : κ) (h : Handler χ) (uid : Option ι) :
    (leftover c k ev h uid).Perm (flat (c.lists ev)) ↔ Undone c ev h uid := by
  unfold leftover Undone
  rw [← upTo_behind (c.lists ev) k]
  split
  · rw [perm_erase_insert_iff, mapped_eq_iff]
  · split
    · simp only [perm_erase_insert_iff]
    · exact erase_perm_self_iff _ _
    · simp

omit [DecidableEq κ] [DecidableEq ι] in
theorem leftover_eq_iff (c : Content κ ι χ) (k : Section) (ev : κ) (h : Handler χ) (uid : Option ι) :
    leftover c k ev h uid = flat (c.lists ev) ↔ Undone c ev h uid ∧ InOrder c k ev h uid := by
  constructor
  · intro heq
    have hundone := (leftover_perm_iff c k ev h uid).1 (List.Perm.of_eq heq)
    refine ⟨hundone, fun hfresh => ?_⟩
    rw [← upTo_behind (c.lists ev) k] at heq
    unfold leftover at heq
    unfold Undone at hundone
    split at heq
    · have hsame : mapped h = h := (mapped_eq_iff h).2 hundone
      rw [hsame] at heq ⊢
      exact (erase_insert_eq_iff _ _ _).1 heq
    · rw [Option.bind_some] at hfresh
      rw [hfresh] at heq
      exact (erase_insert_eq_iff _ _ _).1 heq
  · intro hboth
    obtain ⟨hundone, horder⟩ := hboth
    rw [← upTo_behind (c.lists ev) k]
    unfold leftover
    unfold Undone at hundone
    unfold InOrder at horder
    split at hundone
    · have hsame : mapped h = h := (mapped_eq_iff h).2 hundone
      rw [hsame] at horder ⊢
      exact (erase_insert_eq_iff _ _ _).2 (horder rfl)
    · rename_i u
      rw [Option.bind_some] at horder
      simp only
      split at hundone
      · rename_i hid
        exact (erase_insert_eq_iff _ _ _).2 (horder hid)
      · rw [upTo_behind]
        exact List.erase_of_not_mem hundone
      · rw [upTo_behind]

theorem roundtrip_lists {c c' : Content κ ι χ} (hc : Positive c.ids) {k : Section} {ev : κ} {h : Handler χ}
    {uid : Option ι} {uses : Bool} (hreg : c.register k ev (mapped h) uid uses = some c') :
    (∀ ev', ev' ≠ ev → (c'.unregister ev h uid uses).lists ev' = c.lists ev') ∧
      flat ((c'.unregister ev h uid uses).lists ev) = leftover c k ev h uid := by
  unfold Content.register at hreg
  unfold leftover
  split at hreg
  · cases hreg
    refine ⟨fun ev' hne => by simp [Content.unregister, Content.removeItem, Content.appendItem, hne], ?_⟩
    simp [Content.unregister, Content.removeItem, Content.appendItem, flat_removeFirst, flat_append]
  · rename_i u
    split at hreg
    · rename_i hid
      cases hreg
      refine ⟨fun ev' hne => ?_, ?_⟩
      · cases uses <;> simp [Content.unregister, Content.removeItem, Content.appendItem, hne]
      · cases uses <;>
          simp [Content.unregister, Content.removeItem, Content.appendItem, flat_removeFirst, flat_append, hid]
    · rename_i h₁ count hid
      split at hreg
      · rename_i huses
        cases hreg
        cases count with
        | none =>
          refine ⟨fun ev' hne => by simp [Content.unregister, Content.removeItem, huses, hne], ?_⟩
          simp [Content.unregister, Content.removeItem, flat_removeFirst, huses, hid]
        | some n =>
          have hn := hc u h₁ n hid
          have hne : ¬ n = 0 := by omega
          refine ⟨fun ev' hne' => by simp [Content.unregister, huses, hne], ?_⟩
          simp [Content.unregister, huses, hne, hid]
      · cases hreg

/-! ## The handlers called -/

section FlatMap

variable {η : Type} {g g' : κ → List η} {ev : κ}

omit [DecidableEq κ] in
theorem flatMap_split {l : List κ} (hmem : ev ∈ l) (hnodup : l.Nodup) (hoff : ∀ ev', ev' ≠ ev → g' ev' = g ev') :
    ∃ x y, l.flatMap g = x ++ g ev ++ y ∧ l.flatMap g' = x ++ g' ev ++ y := by
  obtain ⟨a, b, rfl⟩ := List.append_of_mem hmem
  rw [List.nodup_append, List.nodup_cons] at hnodup
  obtain ⟨-, ⟨hb, -⟩, hab⟩ := hnodup
  have ha : a.flatMap g' = a.flatMap g :=
    List.flatMap_congr fun x hx => hoff x fun hxe => hab x hx ev List.mem_cons_self hxe
  have hb' : b.flatMap g' = b.flatMap g := List.flatMap_congr fun x hx => hoff x fun hxe => hb (hxe ▸ hx)
  refine ⟨a.flatMap g, b.flatMap g, ?_, ?_⟩
  · simp
  · simp [ha, hb']

omit [DecidableEq ι] [DecidableEq χ] in
theorem perm_calls_iff {matching : κ → List κ} (hmatched : ∃ name, ev ∈ matching name ∧ (matching name).Nodup)
    (hoff : ∀ ev', ev' ≠ ev → g' ev' = g ev') :
    (∀ name, ((matching name).flatMap g').Perm ((matching name).flatMap g)) ↔ (g' ev).Perm (g ev) := by
  constructor
  · intro hall
    obtain ⟨name, hmem, hnodup⟩ := hmatched
    obtain ⟨x, y, hx, hy⟩ := flatMap_split hmem hnodup hoff
    have hname := hall name
    rw [hx, hy, List.perm_append_right_iff, List.perm_append_left_iff] at hname
    exact hname
  · intro hperm name
    apply List.Perm.flatMap_left
    intro ev' _
    by_cases hev : ev' = ev
    · rw [hev]
      exact hperm
    · rw [hoff ev' hev]

omit [DecidableEq ι] [DecidableEq χ] in
theorem eq_calls_iff {matching : κ → List κ} (hmatched : ∃ name, ev ∈ matching name ∧ (matching name).Nodup)
    (hoff : ∀ ev', ev' ≠ ev → g' ev' = g ev') :
    (∀ name, (matching name).flatMap g' = (matching name).flatMap g) ↔ g' ev = g ev := by
  constructor
  · intro hall
    obtain ⟨name, hmem, hnodup⟩ := hmatched
    obtain ⟨x, y, hx, hy⟩ := flatMap_split hmem hnodup hoff
    have hname := hall name
    rw [hx, hy] at hname
    exact List.append_cancel_left (List.append_cancel_right hname)
  · intro heq name
    apply List.flatMap_congr
    intro ev' _
    by_cases hev : ev' = ev
    · rw [hev]
      exact heq
    · exact hoff ev' hev

end FlatMap

/-- the handlers that an emit of `name` calls -/
def called (s : St ς κ χ) (name : κ) : List (Handler χ) :=
  (emit B s name (fun _ => (none : Option Unit)) false).1.map Prod.fst

omit [DecidableEq χ] in
theorem callAll_fst (hs : List (Handler χ)) :
    (callAll (fun _ => (none : Option Unit)) false hs).map Prod.fst = hs := by
  induction hs with
  | nil => rfl
  | cons h hs ih => simp [callAll, ih]

theorem called_eq {s : St ς κ χ} (hs : Inv B s) (name : κ) :
    called B s name = (B.matching name).flatMap fun ev => flat ((B.content s.handlers).lists ev) := by
  rw [called, emit, callAll_fst, lookup_eq B hs]

/-- what is called decides what every kind of emit does -/
theorem emit_congr {s s' : St ς κ χ} (h : ∀ name, called B s' name = called B s name) {ρ : Type} (name : κ)
    (respond : Handler χ → Option ρ) (stop : Bool) : (emit B s' name respond stop).1 = (emit B s name respond stop).1 := by
  have hname := h name
  simp only [called, emit, callAll_fst] at hname
  exact congrArg (callAll respond stop) hname

/-- **When `unregister` undoes `register`.** After every history, with any emits between the two calls: the handlers
called are those called before the registration iff it is `Undone`, and every emit calls them in the same order with the
same responses iff it is also `InOrder`. -/
theorem unregister_register_iff (history : List (Op κ ι χ)) (k : Section) (ev : κ) (h : Handler χ) (uid : Option ι)
    (uses : Bool) (s₁ : St ς κ χ)
    (hreg : verifyAndRegister B (run (step B) (init B) history) k ev h uid uses = some s₁) (names : List κ) :
    let s := run (step B) (init B) history
    let s₂ := unregister B (run (step B) s₁ (names.map .emit)) ev h uid uses
    ((∀ name, (called B s₂ name).Perm (called B s name)) ↔ Undone (B.content s.handlers) ev h uid) ∧
      ((∀ (ρ : Type) name (respond : Handler χ → Option ρ) stop,
          (emit B s₂ name respond stop).1 = (emit B s name respond stop).1) ↔
        Undone (B.content s.handlers) ev h uid ∧ InOrder (B.content s.handlers) k ev h uid) := by
  intro s s₂
  have hs : Inv B s := run_inv (step_inv B) (init_inv B) history
  have hs₂ : Inv B s₂ :=
    unregister_inv B (run_inv (step_inv B) (register_inv B hs hreg) _) ev h uid uses
  obtain ⟨hoff, hev⟩ := roundtrip_lists hs.counts (register_content B hreg)
  have hcontent : B.content s₂.handlers = (B.content s₁.handlers).unregister ev h uid uses := by
    rw [← B.content_unregister, ← emit_run_handlers B s₁ names]
    rfl
  rw [← hcontent] at hoff hev
  have hflat : ∀ ev', ev' ≠ ev →
      flat ((B.content s₂.handlers).lists ev') = flat ((B.content s.handlers).lists ev') := by
    intro ev' hne
    rw [hoff ev' hne]
  constructor
  · rw [← leftover_perm_iff (B.content s.handlers) k ev h uid, ← hev, ← perm_calls_iff (B.matched ev) hflat]
    simp only [called_eq B hs, called_eq B hs₂]
  · rw [← leftover_eq_iff (B.content s.handlers) k ev h uid, ← hev, ← eq_calls_iff (B.matched ev) hflat]
    simp only [← called_eq B hs, ← called_eq B hs₂]
    constructor
    · intro hemit name
      exact congrArg (List.map Prod.fst) (hemit Unit name (fun _ => none) false)
    · intro hcalled ρ name respond stop
      exact emit_congr B hcalled name respond stop

/-! ## An instance -/

/-- a store that is its content, for event names of one part -/
def plain : Botocore (Content String ℕ ℕ) String ℕ ℕ where
  empty := ⟨fun _ _ => [], fun _ => none⟩
  verify _ := true
  registerSection c k ev h uid uses := (c.register k ev h uid uses).map (·, true)
  unregister c ev h uid uses := (c.unregister ev h uid uses, true)
  prefixSearch c name := flat (c.lists name)
  content := id
  matching name := [name]
  content_empty := rfl
  content_register := by
    intro s k ev h uid uses
    simp [Option.map_map, Function.comp_def]
  content_unregister := fun _ _ _ _ _ => rfl
  register_cleared := by
    intro s k ev h uid uses s' hreg
    simp at hreg
  unregister_cleared := by
    intro s ev h uid uses s' hun
    simp at hun
  prefixSearch_eq := by simp
  matched ev := ⟨ev, by simp, by simp⟩

theorem unregister_register_user :
    ∃ s₁, verifyAndRegister plain (init plain) .middle "before-sign" (.other 0) none false = some s₁ ∧
      ∀ name, (called plain (unregister plain s₁ "before-sign" (.other 0) none false) name).Perm
        (called plain (init plain) name) := by
  refine ⟨_, rfl, ?_⟩
  exact (unregister_register_iff plain [] .middle "before-sign" (.other 0) none false _ rfl []).1.2 rfl

/-- **A replaced handler stays.** botocore's function is registered as its async replacement, which `unregister` does not
look for. -/
theorem unregister_register_fails :
    ¬ ∀ (history : List (Op String ℕ ℕ)) (k : Section) (ev : String) (h : Handler ℕ) (uid : Option ℕ) (uses : Bool)
        (s₁ : St (Content String ℕ ℕ) String ℕ),
        verifyAndRegister plain (run (step plain) (init plain) history) k ev h uid uses = some s₁ →
          ∀ name, (called plain (unregister plain s₁ ev h uid uses) name).Perm
            (called plain (run (step plain) (init plain) history) name) := by
  intro hall
  have hperm := hall [] .middle "creating-client-class" (.botocore .addGeneratePresignedUrl) none false _ rfl
    "creating-client-class"
  have hlen := hperm.length_eq
  revert hlen
  decide

end AioBotocore.Hooks
