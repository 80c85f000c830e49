/-
Several iterations of one page iterator. Each `__aiter__` gives a generator with variables of its own; they share
`_op_kwargs`, which every request of every generator is made from, and which a token is injected into before it.

An operation of the machine runs one generator up to its next request, gives it the response, or closes it; any number
of generators take turns. `resume_token` and the non-aggregate part are written by the generators and read by none.

- `anext_round`: one round of the loop of `AioPageIterator.anext`, cut at its request and its `yield`.
- `reiterate_iff`: every iteration makes the requests of the first and yields its pages, exactly if each begins with a
  starting token or on the input tokens that `paginate` was given.
- `second_iteration_differs`: an iteration after a complete one.
-/
import Mathlib.Tactic
import AioBotocore.Async.Run
import AioBotocore.Paginate.PageIterator

namespace AioBotocore.Paginate

open Async Function

/-! ## One generator -/

namespace AioPageIterator

variable {V K κ : Type} {kind : κ → Kind} (it : AioPageIterator V K kind)

/-- from the response to the `yield`: the page, and whether it was truncated -/
def respond (s : Loop V K) : Page V K kind × Bool :=
  let response := it.makeRequest s
  let parsed := response.1
  let truncateAmount :=
    match it.maxItems with
    | none => 0
    | some maxItems => s.totalItems + parsed.items.length - maxItems
  if 0 < truncateAmount then ((parsed.truncateResponse truncateAmount response.2 s.nextToken).1, true)
  else (parsed, false)

/-- from the `yield` to the next request, or to the end -/
def resume [Fintype K] [DecidableEq V] (s : Loop V K) (page : Page V K kind) (truncated : Bool) : Ending ⊕ Loop V K :=
  if truncated then .inl .finished
  else
    let totalItems := s.totalItems + page.items.length
    match page.following it.cfg with
    | none => .inl .finished
    | some nextToken =>
      if it.maxItems = some totalItems then .inl .finished
      else if s.previousNextToken = some nextToken then .inl .paginationError
      else .inr ⟨injectTokenIntoKwargs it.cfg nextToken, some nextToken, nextToken, totalItems, false⟩

end AioPageIterator

/-! ## The shared arguments -/

/-- `_op_kwargs`: the input tokens and the limit key -/
structure OpKwargs (V K : Type) where
  inputTokens : Request V K
  limit : Option V

/-- the object that `paginate` makes; the service is deterministic -/
structure Paginated (V K : Type) {κ : Type} (kind : κ → Kind) where
  cfg : Cfg V
  method : OpKwargs V K → Page V K kind
  opKwargs : OpKwargs V K
  pageSize : Option V
  maxItems : Option ℕ
  startingToken : Option (Resume V K)

inductive Frame (V K : Type) {κ : Type} (kind : κ → Kind) where
  | created
  /-- the arguments were expanded into a request -/
  | requested (limit : Option V) (s : Loop V K)
  | yielded (s : Loop V K) (page : Page V K kind) (truncated : Bool)
  | ended (e : Ending)
  /-- broken off -/
  | closed

structure St (V K : Type) {κ : Type} (kind : κ → Kind) where
  opKwargs : OpKwargs V K
  frames : ℕ → Frame V K kind
  requests : ℕ → List (OpKwargs V K)
  pages : ℕ → List (Page V K kind)

inductive Op where
  /-- `__anext__` of a generator -/
  | next (id : ℕ)
  | respond (id : ℕ)
  | close (id : ℕ)
deriving DecidableEq, Repr

namespace Paginated

variable {V K κ : Type} {kind : κ → Kind} (p : Paginated V K kind)

def injectStartingParams (kwargs : OpKwargs V K) : OpKwargs V K where
  inputTokens :=
    match p.startingToken with
    | none => kwargs.inputTokens
    | some r => injectTokenIntoKwargs p.cfg (parseStartingToken r).1
  limit := p.pageSize.or kwargs.limit

/-- the iterator with its limit key -/
def iterator (limit : Option V) : AioPageIterator V K kind :=
  ⟨p.cfg, fun q => p.method ⟨q, limit⟩, p.maxItems, p.startingToken⟩

/-- the variables of a new generator at its first request -/
def begin (kwargs : OpKwargs V K) : Loop V K :=
  { (p.iterator kwargs.limit).start with currentKwargs := kwargs.inputTokens }

def init : St V K kind := ⟨p.opKwargs, fun _ => .created, fun _ => [], fun _ => []⟩

/-- the arguments, with the token injected, are expanded into a request -/
def request (st : St V K kind) (id : ℕ) (kwargs : OpKwargs V K) (s : Loop V K) : St V K kind :=
  { st with opKwargs := kwargs, frames := update st.frames id (.requested kwargs.limit s),
            requests := update st.requests id (st.requests id ++ [kwargs]) }

variable [Fintype K] [DecidableEq V]

def step (st : St V K kind) : Op → St V K kind
  | .next id =>
    match st.frames id with
    | .created =>
      let kwargs := p.injectStartingParams st.opKwargs
      request st id kwargs (p.begin kwargs)
    | .yielded s page truncated =>
      match (p.iterator st.opKwargs.limit).resume s page truncated with
      | .inl e => { st with frames := update st.frames id (.ended e) }
      | .inr s' => request st id { st.opKwargs with inputTokens := s'.currentKwargs } s'
    | _ => st
  | .respond id =>
    match st.frames id with
    | .requested limit s =>
      let response := (p.iterator limit).respond s
      { st with frames := update st.frames id (.yielded s response.1 response.2),
                pages := update st.pages id (st.pages id ++ [response.1]) }
    | _ => st
  | .close id => { st with frames := update st.frames id .closed }

end Paginated

/-! ## One round of the loop -/

/-- what an iteration does after `requests` and `pages` -/
structure Extends {V K κ : Type} {kind : κ → Kind} (o : Iteration V K kind) (requests : List (Request V K))
    (pages : List (Page V K kind)) (o' : Iteration V K kind) : Prop where
  requests : o.requests = requests ++ o'.requests
  pages : o.pages = pages ++ o'.pages
  ending : o.ending = o'.ending

section Generator

variable {V K κ : Type} {kind : κ → Kind}

def stopped (e : Ending) : Iteration V K kind := ⟨[], [], none, none, e⟩

theorem Extends.trans {o o' o'' : Iteration V K kind} {qs qs' : List (Request V K)} {ps ps' : List (Page V K kind)}
    (h : Extends o qs ps o') (h' : Extends o' qs' ps' o'') : Extends o (qs ++ qs') (ps ++ ps') o'' where
  requests := by rw [h.requests, h'.requests, List.append_assoc]
  pages := by rw [h.pages, h'.pages, List.append_assoc]
  ending := h.ending.trans h'.ending

variable [Fintype K] [DecidableEq V] (it : AioPageIterator V K kind)

/-- the rest of the loop after a `yield` -/
def AioPageIterator.goOn (s : Loop V K) (page : Page V K kind) (truncated : Bool) (fuel : ℕ) : Iteration V K kind :=
  match it.resume s page truncated with
  | .inl e => stopped e
  | .inr s' => it.anext fuel s'

theorem anext_round (s : Loop V K) (fuel : ℕ) :
    Extends (it.anext (fuel + 1) s) [s.currentKwargs] [(it.respond s).1]
      (it.goOn s (it.respond s).1 (it.respond s).2 fuel) := by
  rw [AioPageIterator.anext, AioPageIterator.respond]
  generalize it.makeRequest s = response
  cases hmax : it.maxItems with
  | none =>
    simp only [Nat.lt_irrefl, if_false, AioPageIterator.goOn, AioPageIterator.resume, hmax]
    cases response.1.following it.cfg with
    | none => exact ⟨rfl, rfl, rfl⟩
    | some nextToken =>
      by_cases hsame : s.previousNextToken = some nextToken
      · simp only [if_pos hsame]
        exact ⟨rfl, rfl, rfl⟩
      · simp only [if_neg hsame]
        exact ⟨rfl, rfl, rfl⟩
  | some maxItems =>
    by_cases htruncate : 0 < s.totalItems + response.1.items.length - maxItems
    · simp only [if_pos htruncate, AioPageIterator.goOn, AioPageIterator.resume]
      exact ⟨rfl, rfl, rfl⟩
    · simp only [if_neg htruncate, AioPageIterator.goOn, AioPageIterator.resume, hmax]
      cases response.1.following it.cfg with
      | none => exact ⟨rfl, rfl, rfl⟩
      | some nextToken =>
        by_cases hlimit : some maxItems = some (s.totalItems + response.1.items.length)
        · simp only [if_pos hlimit]
          exact ⟨rfl, rfl, rfl⟩
        · by_cases hsame : s.previousNextToken = some nextToken
          · simp only [if_neg hlimit, if_pos hsame]
            exact ⟨rfl, rfl, rfl⟩
          · simp only [if_neg hlimit, if_neg hsame]
            exact ⟨rfl, rfl, rfl⟩

theorem goOn_zero (s : Loop V K) (page : Page V K kind) (truncated : Bool) :
    (it.goOn s page truncated 0).requests = [] ∧ (it.goOn s page truncated 0).pages = [] := by
  unfold AioPageIterator.goOn
  split <;> exact ⟨rfl, rfl⟩

/-! ## A generator goes through the loop -/

/-- the generator is where the loop from `s₀` is after the requests `qs` and the pages `ps` -/
inductive Tracks (it : AioPageIterator V K kind) (s₀ : Loop V K) (limit : Option V) :
    Frame V K kind → List (Request V K) → List (Page V K kind) → Prop
  | created : Tracks it s₀ limit .created [] []
  | requested {s qs ps} (hlength : qs.length = ps.length)
      (h : ∀ fuel, Extends (it.anext (ps.length + fuel) s₀) qs ps (it.anext fuel s)) :
      Tracks it s₀ limit (.requested limit s) (qs ++ [s.currentKwargs]) ps
  | yielded {s page truncated qs ps} (hlength : qs.length = ps.length)
      (h : ∀ fuel, Extends (it.anext (ps.length + fuel) s₀) qs ps (it.goOn s page truncated fuel)) :
      Tracks it s₀ limit (.yielded s page truncated) qs ps
  | ended {e qs ps} (hlength : qs.length = ps.length)
      (h : Extends (it.anext ps.length s₀) qs ps (stopped e)) : Tracks it s₀ limit (.ended e) qs ps
  | closed {qs ps} (hrequests : qs = (it.anext qs.length s₀).requests) (hpages : ps <+: (it.anext qs.length s₀).pages) :
      Tracks it s₀ limit .closed qs ps

variable {it} {s₀ s : Loop V K} {limit : Option V} {frame : Frame V K kind} {qs : List (Request V K)}
  {ps : List (Page V K kind)} {page : Page V K kind} {truncated : Bool}

theorem Tracks.same (h : Tracks it s₀ limit frame qs ps) :
    qs = (it.anext qs.length s₀).requests ∧ ps <+: (it.anext qs.length s₀).pages ∧
      ∀ e, frame = .ended e → ps = (it.anext qs.length s₀).pages ∧ (it.anext qs.length s₀).ending = e := by
  cases h with
  | created => exact ⟨rfl, List.prefix_rfl, by simp⟩
  | @requested s qs ps hlength h =>
    have hround := (h 1).trans (anext_round it s 0)
    obtain ⟨hrequests, hpages⟩ := goOn_zero it s (it.respond s).1 (it.respond s).2
    rw [List.length_append, List.length_singleton, hlength]
    refine ⟨?_, ?_, by simp⟩
    · rw [hround.requests, hrequests, List.append_nil]
    · rw [hround.pages, List.append_assoc]
      exact List.prefix_append _ _
  | @yielded s page truncated qs ps hlength h =>
    obtain ⟨hrequests, hpages⟩ := goOn_zero it s page truncated
    have hzero := h 0
    rw [Nat.add_zero] at hzero
    rw [hlength, hzero.requests, hzero.pages, hrequests, hpages, List.append_nil, List.append_nil]
    exact ⟨rfl, List.prefix_rfl, by simp⟩
  | ended hlength h =>
    rw [hlength, h.requests, h.pages, h.ending]
    simp [stopped]
  | closed hrequests hpages => exact ⟨hrequests, hpages, by simp⟩

theorem Tracks.close (h : Tracks it s₀ limit frame qs ps) : Tracks it s₀ limit .closed qs ps := by
  obtain ⟨hrequests, hpages, -⟩ := h.same
  exact .closed hrequests hpages

theorem Tracks.begin (s₀ : Loop V K) : Tracks it s₀ limit (.requested limit s₀) [s₀.currentKwargs] [] :=
  show Tracks it s₀ limit (.requested limit s₀) ([] ++ [s₀.currentKwargs]) [] from
    .requested rfl fun fuel => ⟨by simp, by simp, by simp⟩

theorem Tracks.respond (h : Tracks it s₀ limit (.requested limit s) qs ps) :
    Tracks it s₀ limit (.yielded s (it.respond s).1 (it.respond s).2) qs (ps ++ [(it.respond s).1]) := by
  cases h with
  | requested hlength h =>
    refine .yielded (by simp [hlength]) fun fuel => ?_
    rw [List.length_append, List.length_singleton, Nat.add_assoc, Nat.add_comm 1]
    exact (h (fuel + 1)).trans (anext_round it s fuel)

theorem Tracks.resume_ended (h : Tracks it s₀ limit (.yielded s page truncated) qs ps) {e : Ending}
    (he : it.resume s page truncated = .inl e) : Tracks it s₀ limit (.ended e) qs ps := by
  cases h with
  | yielded hlength h =>
    refine .ended hlength ?_
    have hzero := h 0
    rwa [AioPageIterator.goOn, he] at hzero

theorem Tracks.resume_request (h : Tracks it s₀ limit (.yielded s page truncated) qs ps) {s' : Loop V K}
    (hs' : it.resume s page truncated = .inr s') :
    Tracks it s₀ limit (.requested limit s') (qs ++ [s'.currentKwargs]) ps := by
  cases h with
  | yielded hlength h =>
    refine .requested hlength fun fuel => ?_
    have hfuel := h fuel
    rwa [AioPageIterator.goOn, hs'] at hfuel

end Generator

/-! ## Any number of iterations -/

namespace Paginated

variable {V K κ : Type} {kind : κ → Kind} [Fintype K] [DecidableEq V] {p : Paginated V K kind} {st : St V K kind}

variable (p) in
/-- the limit key of every request -/
def limit : Option V := (p.injectStartingParams p.opKwargs).limit

variable (p) in
/-- the variables of the first iteration at its first request -/
def firstLoop : Loop V K := p.begin (p.injectStartingParams p.opKwargs)

variable (p) in
/-- the first iteration, for `n` requests -/
def first (n : ℕ) : Iteration V K kind := (p.iterator p.limit).anext n p.firstLoop

/-- an iteration does what the first one does: so far, and at its end if it has come to it -/
structure Same (p : Paginated V K kind) (st : St V K kind) (id : ℕ) : Prop where
  requests : st.requests id = (p.first (st.requests id).length).requests.map fun q => ⟨q, p.limit⟩
  pages : st.pages id <+: (p.first (st.requests id).length).pages
  ending : ∀ e, st.frames id = .ended e →
    st.pages id = (p.first (st.requests id).length).pages ∧ (p.first (st.requests id).length).ending = e

/-- an iteration begins with a starting token, or on the input tokens of `paginate` -/
def BeginsAlike (p : Paginated V K kind) (st : St V K kind) (o : Op) : Prop :=
  ∀ id, o = .next id → st.frames id = .created →
    p.startingToken.isSome ∨ st.opKwargs.inputTokens = p.opKwargs.inputTokens

structure Inv (p : Paginated V K kind) (st : St V K kind) : Prop where
  tracks : ∀ id, ∃ qs, st.requests id = qs.map (⟨·, p.limit⟩) ∧
    Tracks (p.iterator p.limit) p.firstLoop p.limit (st.frames id) qs (st.pages id)
  limit : p.pageSize.or st.opKwargs.limit = p.limit
  /-- the limit key was injected -/
  running : ∀ id, st.frames id ≠ .created → (∀ e, st.frames id ≠ .ended e) → st.frames id ≠ .closed →
    st.opKwargs.limit = p.limit

theorem init_inv (p : Paginated V K kind) : Inv p p.init where
  tracks _ := ⟨[], rfl, .created⟩
  limit := rfl
  running _ h := absurd rfl h

theorem Inv.same (h : Inv p st) (id : ℕ) : Same p st id := by
  obtain ⟨qs, hqs, htracks⟩ := h.tracks id
  obtain ⟨hrequests, hpages, hending⟩ := htracks.same
  have hlength : (st.requests id).length = qs.length := by rw [hqs, List.length_map]
  refine ⟨?_, by rw [hlength]; exact hpages, by rw [hlength]; exact hending⟩
  rw [hlength, first, ← hrequests]
  exact hqs

/-- the limit key of a new iteration is the one of the first -/
theorem Inv.begin_limit (h : Inv p st) : (p.injectStartingParams st.opKwargs).limit = p.limit := h.limit

omit [Fintype K] [DecidableEq V] in
theorem Inv.begin_tokens {id : ℕ} (hcreated : st.frames id = .created) (hgood : BeginsAlike p st (.next id)) :
    (p.injectStartingParams st.opKwargs).inputTokens = (p.injectStartingParams p.opKwargs).inputTokens := by
  unfold injectStartingParams
  rcases hgood id rfl hcreated with hstart | hsame
  · obtain ⟨r, hr⟩ := Option.isSome_iff_exists.1 hstart
    simp only [hr]
  · cases p.startingToken with
    | none => exact hsame
    | some r => rfl

theorem Inv.request (h : Inv p st) {id : ℕ} {kwargs : OpKwargs V K} {s : Loop V K} (hlimit : kwargs.limit = p.limit)
    (htokens : kwargs.inputTokens = s.currentKwargs)
    (htracks : ∀ qs, st.requests id = qs.map (⟨·, p.limit⟩) →
      Tracks (p.iterator p.limit) p.firstLoop p.limit (st.frames id) qs (st.pages id) →
      Tracks (p.iterator p.limit) p.firstLoop p.limit (.requested p.limit s) (qs ++ [s.currentKwargs]) (st.pages id)) :
    Inv p (Paginated.request st id kwargs s) where
  tracks id' := by
    obtain ⟨qs, hqs, hid'⟩ := h.tracks id'
    by_cases hid : id' = id
    · subst hid
      refine ⟨qs ++ [s.currentKwargs], ?_, ?_⟩
      · simp [Paginated.request, hqs, ← hlimit, ← htokens]
      · simpa [Paginated.request, hlimit] using htracks qs hqs hid'
    · exact ⟨qs, by simpa [Paginated.request, hid] using hqs, by simpa [Paginated.request, hid] using hid'⟩
  limit := by
    change p.pageSize.or kwargs.limit = p.limit
    rw [hlimit, Paginated.limit, injectStartingParams]
    cases p.pageSize <;> rfl
  running _ _ _ _ := hlimit

theorem Inv.frame (h : Inv p st) (id : ℕ) (frame : Frame V K kind) (ps : List (Page V K kind))
    (htracks : ∀ qs, Tracks (p.iterator p.limit) p.firstLoop p.limit (st.frames id) qs (st.pages id) →
      Tracks (p.iterator p.limit) p.firstLoop p.limit frame qs ps)
    (hrunning : frame ≠ .created → (∀ e, frame ≠ .ended e) → frame ≠ .closed → st.opKwargs.limit = p.limit) :
    Inv p { st with frames := update st.frames id frame, pages := update st.pages id ps } where
  tracks id' := by
    obtain ⟨qs, hqs, hid'⟩ := h.tracks id'
    by_cases hid : id' = id
    · subst hid
      exact ⟨qs, hqs, by simpa using htracks qs hid'⟩
    · exact ⟨qs, hqs, by simpa [hid] using hid'⟩
  limit := h.limit
  running id' := by
    by_cases hid : id' = id
    · subst hid
      simpa using hrunning
    · simpa [hid] using h.running id'

theorem step_inv (h : Inv p st) (o : Op) (hgood : BeginsAlike p st o) : Inv p (p.step st o) := by
  cases o with
  | next id =>
    rw [step]
    cases hframe : st.frames id with
    | created =>
      refine h.request h.begin_limit rfl fun qs _ hid => ?_
      rw [hframe] at hid
      generalize st.pages id = ps at *
      cases hid
      have hfirst : p.begin (p.injectStartingParams st.opKwargs) = p.firstLoop := by
        rw [firstLoop, begin, begin, Inv.begin_tokens hframe hgood]
        rfl
      rw [hfirst]
      exact Tracks.begin _
    | yielded s page truncated =>
      have hlimit := h.running id (by simp [hframe]) (by simp [hframe]) (by simp [hframe])
      simp only
      rw [hlimit]
      cases hresume : (p.iterator p.limit).resume s page truncated with
      | inl e =>
        have hended := h.frame id (.ended e) (st.pages id)
          (fun qs hid => Tracks.resume_ended (hframe ▸ hid) hresume) fun _ hne _ => absurd rfl (hne e)
        rwa [update_eq_self] at hended
      | inr s' =>
        exact h.request rfl rfl fun qs _ hid => Tracks.resume_request (hframe ▸ hid) hresume
    | requested limit s => exact h
    | ended e => exact h
    | closed => exact h
  | respond id =>
    rw [step]
    cases hframe : st.frames id with
    | requested limit s =>
      have hlimit : limit = p.limit := by
        obtain ⟨qs, -, hid⟩ := h.tracks id
        rw [hframe] at hid
        cases hid
        rfl
      subst hlimit
      exact h.frame id _ _ (fun qs hid => Tracks.respond (hframe ▸ hid)) fun _ _ _ =>
        h.running id (by simp [hframe]) (by simp [hframe]) (by simp [hframe])
    | created => exact h
    | yielded s page truncated => exact h
    | ended e => exact h
    | closed => exact h
  | close id =>
    have hclosed := h.frame id .closed (st.pages id) (fun qs hid => hid.close)
      fun _ _ hne => absurd rfl hne
    rwa [update_eq_self] at hclosed

/-- an iteration that begins on other tokens makes another first request -/
theorem step_differs (h : Inv p st) (o : Op) (hbad : ¬ BeginsAlike p st o) : ¬ ∀ id, Same p (p.step st o) id := by
  intro hall
  apply hbad
  rintro id rfl hcreated
  by_contra hnot
  obtain ⟨hstart, htokens⟩ := not_or.1 hnot
  have hnone : p.startingToken = none := by simpa using hstart
  obtain ⟨qs, hqs, hid⟩ := h.tracks id
  rw [hcreated] at hid
  have hrequests : st.requests id = [] := by
    rw [hqs]
    generalize st.pages id = ps at hid
    cases hid
    rfl
  have hsame := (hall id).requests
  have hstep : (p.step st (.next id)).requests id = [p.injectStartingParams st.opKwargs] := by
    simp [step, hcreated, Paginated.request, hrequests]
  obtain ⟨hround, -, -⟩ := anext_round (p.iterator p.limit) p.firstLoop 0
  obtain ⟨hzero, -⟩ := goOn_zero (p.iterator p.limit) p.firstLoop
    ((p.iterator p.limit).respond p.firstLoop).1 ((p.iterator p.limit).respond p.firstLoop).2
  rw [hstep, List.length_singleton, first, hround, hzero] at hsame
  have hkwargs := congrArg OpKwargs.inputTokens (List.singleton_injective hsame)
  apply htokens
  simpa [injectStartingParams, hnone, firstLoop, begin] using hkwargs

/-- **Iterating again.** In every run of any number of iterations, complete, broken off or taking turns, each makes the
requests of the first and yields its pages, if and only if each begins with a starting token or on the input tokens that
`paginate` was given. -/
theorem reiterate_iff (p : Paginated V K kind) (ops : List Op) :
    (∀ n id, Same p (run p.step p.init (ops.take n)) id) ↔ Along p.step (BeginsAlike p) p.init ops :=
  forall_take_iff (P := fun st => ∀ id, Same p st id) (fun _ o h hgood => step_inv h o hgood) (fun _ h => h.same)
    (fun _ o h hbad => step_differs h o hbad) (init_inv p) ops

end Paginated

/-- two pages; the first has a token, and there is no starting token -/
def shortList : Paginated ℕ Unit (κ := Unit) fun _ => .list where
  cfg := ⟨fun _ => true, fun _ => false, false⟩
  method kwargs := ⟨some [(kwargs.inputTokens ()).getD 0], fun _ => none, 0,
    fun _ => if kwargs.inputTokens () = none then some 1 else none, none⟩
  opKwargs := ⟨fun _ => none, none⟩
  pageSize := none
  maxItems := none
  startingToken := none

/-- a complete iteration, and the first page of another -/
def twice : List Op := [.next 0, .respond 0, .next 0, .respond 0, .next 0, .next 1, .respond 1]

/-- **The second iteration begins at the last page.** The token of the first iteration is still in the arguments. -/
theorem second_iteration_differs :
    (run shortList.step shortList.init twice).frames 0 = .ended .finished ∧
      ((run shortList.step shortList.init twice).pages 0).map Page.primary = [some [0], some [1]] ∧
      ((run shortList.step shortList.init twice).pages 1).map Page.primary = [some [1]] ∧
      ¬ shortList.Same (run shortList.step shortList.init twice) 1 := by
  refine ⟨rfl, rfl, rfl, fun h => ?_⟩
  have htokens := congrArg (List.map fun kwargs => kwargs.inputTokens ()) h.requests
  exact absurd htokens (by decide)

end AioBotocore.Paginate
