/-
Rotating tickets. A service redeems each ticket once and may give a new one for it. Any number of tasks share a cache of
one entry with a ticket in it: a task loads the entry, calls the service with its ticket and saves a new entry with the
ticket that it gets. The calls overlap as they like, and a task may leave at any point; it loses the answer when it leaves
after the service has redeemed its ticket.

- `step_inv`: what holds of tasks, tickets and cache in any interleaving.
- `Inv.replaces`: a task that saves replaces the entry it has loaded, so that no save undoes another.
- `Inv.redeemable`: while no answer is on its way and none was lost, the cached ticket can be redeemed.
- `step_lost`, `run_stuck`: once an answer was lost none is on its way, and the cache does not change any more.
- `alone_unspent`: tasks one after the other call the service with tickets that can be redeemed.
-/
import Mathlib.Tactic
import AioBotocore.Async.Run
import AioBotocore.Async.Count

namespace Rotation

open Async Function

variable {κ ε τ : Type*}

/-! ## Model -/

inductive Phase (ε τ : Type*) where
  | idle
  | calling (entry : ε) (ticket : τ)
  /-- the service has redeemed `ticket` and given `next` for it -/
  | answered (entry : ε) (ticket : τ) (next : Option τ)
deriving DecidableEq, Repr

def Phase.isAnswered : Phase ε τ → Bool
  | .answered .. => true
  | _ => false

structure St (κ ε τ : Type*) where
  cached : Option ε
  /-- the tickets that were redeemed -/
  spent : List τ
  /-- the tickets that were ever given out -/
  known : List τ
  phase : κ → Phase ε τ
  /-- a task has left with an answer it had not saved -/
  lost : Bool

inductive Op (κ ε τ : Type*) where
  | load (k : κ)
  | redeem (k : κ) (next : Option τ)
  | leave (k : κ)
  | save (k : κ) (entry : ε)

/-- the service can redeem `ticket` for `next` -/
def Honours (spent known : List τ) (ticket : τ) (next : Option τ) : Prop := ticket ∉ spent ∧ ∀ n ∈ next, n ∉ known

instance [DecidableEq τ] (spent known : List τ) (ticket : τ) (next : Option τ) :
    Decidable (Honours spent known ticket next) := by
  unfold Honours; infer_instance

variable (ticketOf : ε → Option τ)

def init (cached : Option ε) : St κ ε τ := ⟨cached, [], (cached.bind ticketOf).toList, fun _ => .idle, false⟩

section Steps

variable [DecidableEq κ] [DecidableEq τ]

def step (s : St κ ε τ) : Op κ ε τ → St κ ε τ
  | .load k =>
    match s.phase k, s.cached with
    | .idle, some entry =>
      match ticketOf entry with
      | some ticket => { s with phase := update s.phase k (.calling entry ticket) }
      | none => s
    | _, _ => s
  | .redeem k next =>
    match s.phase k with
    | .calling entry ticket =>
      if Honours s.spent s.known ticket next then
        { s with spent := ticket :: s.spent, known := next.toList ++ s.known,
                 phase := update s.phase k (.answered entry ticket next) }
      else s
    | _ => s
  | .leave k => { s with phase := update s.phase k .idle, lost := s.lost || (s.phase k).isAnswered }
  | .save k entry =>
    match s.phase k with
    | .answered _ _ next =>
      if ticketOf entry = next then { s with cached := some entry, phase := update s.phase k .idle } else s
    | _ => s

/-! ## Steps -/

/-- everything one operation can do -/
inductive Moves (s : St κ ε τ) : Op κ ε τ → St κ ε τ → Prop
  | none (o : Op κ ε τ) : Moves s o s
  | load {k : κ} {entry : ε} {ticket : τ} (hk : s.phase k = .idle) (hcached : s.cached = some entry)
      (hticket : ticketOf entry = some ticket) :
      Moves s (.load k) { s with phase := update s.phase k (.calling entry ticket) }
  | redeem {k : κ} {entry : ε} {ticket : τ} {next : Option τ} (hk : s.phase k = .calling entry ticket)
      (hspent : ticket ∉ s.spent) (hnew : ∀ n ∈ next, n ∉ s.known) :
      Moves s (.redeem k next) { s with spent := ticket :: s.spent, known := next.toList ++ s.known,
                                        phase := update s.phase k (.answered entry ticket next) }
  | leave (k : κ) :
      Moves s (.leave k) { s with phase := update s.phase k .idle, lost := s.lost || (s.phase k).isAnswered }
  | save {k : κ} {old entry : ε} {ticket : τ} (hk : s.phase k = .answered old ticket (ticketOf entry)) :
      Moves s (.save k entry) { s with cached := some entry, phase := update s.phase k .idle }

theorem step_moves (s : St κ ε τ) (o : Op κ ε τ) : Moves ticketOf s o (step ticketOf s o) := by
  cases o with
  | load k =>
    simp only [step]
    split
    · rename_i entry hk hcached
      split
      · rename_i ticket hticket
        exact .load hk hcached hticket
      · exact .none _
    · exact .none _
  | redeem k next =>
    simp only [step]
    split
    · rename_i entry ticket hk
      split_ifs with h
      · exact .redeem hk h.1 h.2
      · exact .none _
    · exact .none _
  | leave k => exact .leave k
  | save k entry =>
    simp only [step]
    split
    · rename_i old ticket next hk
      split_ifs with h
      · exact .save (h ▸ hk)
      · exact .none _
    · exact .none _

end Steps

/-! ## The invariant -/

structure Inv (s : St κ ε τ) : Prop where
  spent_known : ∀ t ∈ s.spent, t ∈ s.known
  cached_known : ∀ e ∈ s.cached, ∀ t ∈ ticketOf e, t ∈ s.known
  calling_known : ∀ k e t, s.phase k = .calling e t → t ∈ s.known
  calling_ticket : ∀ k e t, s.phase k = .calling e t → ticketOf e = some t
  /-- a ticket that can still be redeemed is in the cache -/
  calling : ∀ k e t, s.phase k = .calling e t → t ∉ s.spent → s.cached = some e
  /-- an answer on its way is for the ticket in the cache -/
  answered : ∀ k e t n, s.phase k = .answered e t n → s.cached = some e ∧ ticketOf e = some t ∧ t ∈ s.spent
  /-- nobody else has the ticket given in an answer -/
  fresh : ∀ k e t n, s.phase k = .answered e t (some n) → n ∉ s.spent ∧ n ∈ s.known ∧ ∀ j u, s.phase j ≠ .calling u n
  unique : ∀ j k e f t u n m, s.phase j = .answered e t n → s.phase k = .answered f u m → j = k
  live : ∀ e ∈ s.cached, ∀ t ∈ ticketOf e, t ∈ s.spent → (∃ k n, s.phase k = .answered e t n) ∨ s.lost = true

theorem init_inv (cached : Option ε) : Inv ticketOf (init ticketOf cached : St κ ε τ) where
  spent_known t ht := by simp [init] at ht
  cached_known e he t ht := by
    have hcached : cached = some e := he
    simpa [init, hcached] using ht
  calling_known k e t hk := by simp [init] at hk
  calling_ticket k e t hk := by simp [init] at hk
  calling k e t hk := by simp [init] at hk
  answered k e t n hk := by simp [init] at hk
  fresh k e t n hk := by simp [init] at hk
  unique j k e f t u n m hj := by simp [init] at hj
  live e he t ht hspent := by simp [init] at hspent

variable {ticketOf}
variable {s : St κ ε τ}

theorem Inv.load [DecidableEq κ] (h : Inv ticketOf s) {k : κ} {entry : ε} {ticket : τ} (hk : s.phase k = .idle)
    (hcached : s.cached = some entry) (hticket : ticketOf entry = some ticket) :
    Inv ticketOf { s with phase := update s.phase k (.calling entry ticket) } where
  spent_known := h.spent_known
  cached_known := h.cached_known
  calling_known j e t hj := by
    by_cases hjk : j = k
    · subst hjk
      obtain ⟨rfl, rfl⟩ : entry = e ∧ ticket = t := by simpa using hj
      exact h.cached_known _ hcached _ hticket
    · exact h.calling_known j e t (by simpa [hjk] using hj)
  calling_ticket j e t hj := by
    by_cases hjk : j = k
    · subst hjk
      obtain ⟨rfl, rfl⟩ : entry = e ∧ ticket = t := by simpa using hj
      exact hticket
    · exact h.calling_ticket j e t (by simpa [hjk] using hj)
  calling j e t hj hspent := by
    by_cases hjk : j = k
    · subst hjk
      obtain ⟨rfl, rfl⟩ : entry = e ∧ ticket = t := by simpa using hj
      exact hcached
    · exact h.calling j e t (by simpa [hjk] using hj) hspent
  answered j e t n hj := h.answered j e t n ((update_at_iff (by simp)).1 hj).2
  fresh j e t n hj := by
    have hj' := ((update_at_iff (by simp)).1 hj).2
    obtain ⟨hspent, hknown, hcalling⟩ := h.fresh j e t n hj'
    refine ⟨hspent, hknown, fun i u hi => ?_⟩
    by_cases hik : i = k
    · subst hik
      -- the loaded ticket is spent, and the new one is not
      obtain ⟨rfl, rfl⟩ : entry = u ∧ ticket = n := by simpa using hi
      obtain ⟨hcached', hticket', hspent'⟩ := h.answered j e t _ hj'
      rw [hcached] at hcached'
      cases hcached'
      rw [hticket] at hticket'
      cases hticket'
      exact hspent hspent'
    · exact hcalling i u (by simpa [hik] using hi)
  unique i j e f t u n m hi hj :=
    h.unique i j e f t u n m ((update_at_iff (by simp)).1 hi).2 ((update_at_iff (by simp)).1 hj).2
  live e he t ht hspent := by
    rcases h.live e he t ht hspent with ⟨j, n, hj⟩ | hlost
    · refine .inl ⟨j, n, ?_⟩
      have hjk : j ≠ k := by rintro rfl; rw [hk] at hj; cases hj
      simpa [hjk] using hj
    · exact .inr hlost

theorem Inv.redeem [DecidableEq κ] (h : Inv ticketOf s) {k : κ} {entry : ε} {ticket : τ} {next : Option τ}
    (hk : s.phase k = .calling entry ticket) (hspent : ticket ∉ s.spent) (hnew : ∀ n ∈ next, n ∉ s.known) :
    Inv ticketOf { s with spent := ticket :: s.spent, known := next.toList ++ s.known,
                          phase := update s.phase k (.answered entry ticket next) } := by
  have hcached := h.calling k entry ticket hk hspent
  have hticket := h.calling_ticket k entry ticket hk
  -- an answer on its way would be for the same ticket
  have halone : ∀ j e t n, update s.phase k (.answered entry ticket next) j = .answered e t n → j = k := by
    intro j e t n hj
    by_contra hjk
    rw [update_of_ne hjk] at hj
    obtain ⟨hcached', hticket', hspent'⟩ := h.answered j e t n hj
    rw [hcached] at hcached'
    cases hcached'
    rw [hticket] at hticket'
    cases hticket'
    exact hspent hspent'
  have hat : ∀ j e t n, update s.phase k (.answered entry ticket next) j = .answered e t n →
      e = entry ∧ t = ticket ∧ n = next := by
    intro j e t n hj
    obtain rfl := halone j e t n hj
    rw [update_self] at hj
    cases hj
    exact ⟨rfl, rfl, rfl⟩
  have hcalling : ∀ j e t, update s.phase k (.answered entry ticket next) j = .calling e t → s.phase j = .calling e t :=
    fun j e t hj => ((update_at_iff (by simp)).1 hj).2
  refine ⟨?_, ?_, ?_, ?_, ?_, ?_, ?_, ?_, ?_⟩
  · intro t ht
    rcases List.mem_cons.1 ht with rfl | ht
    · exact List.mem_append_right _ (h.calling_known k entry t hk)
    · exact List.mem_append_right _ (h.spent_known t ht)
  · exact fun e he t ht => List.mem_append_right _ (h.cached_known e he t ht)
  · exact fun j e t hj => List.mem_append_right _ (h.calling_known j e t (hcalling j e t hj))
  · exact fun j e t hj => h.calling_ticket j e t (hcalling j e t hj)
  · exact fun j e t hj hnot => h.calling j e t (hcalling j e t hj) fun hmem => hnot (List.mem_cons_of_mem _ hmem)
  · intro j e t n hj
    obtain ⟨rfl, rfl, rfl⟩ := hat j e t n hj
    exact ⟨hcached, hticket, List.mem_cons_self⟩
  · intro j e t n hj
    obtain ⟨rfl, rfl, rfl⟩ := hat j e t _ hj
    have hn := hnew n rfl
    refine ⟨?_, by simp, fun i u hi => hn (h.calling_known i u n (hcalling i u n hi))⟩
    intro hmem
    rcases List.mem_cons.1 hmem with rfl | hmem
    · exact hn (h.calling_known k e _ hk)
    · exact hn (h.spent_known n hmem)
  · exact fun i j e f t u n m hi hj => (halone i e t n hi).trans (halone j f u m hj).symm
  · intro e he t ht _
    have hcached' : s.cached = some e := he
    rw [hcached] at hcached'
    cases hcached'
    have hticket' : ticketOf entry = some t := ht
    rw [hticket] at hticket'
    cases hticket'
    exact .inl ⟨k, next, by simp⟩

theorem Inv.leave [DecidableEq κ] (h : Inv ticketOf s) (k : κ) :
    Inv ticketOf { s with phase := update s.phase k .idle, lost := s.lost || (s.phase k).isAnswered } where
  spent_known := h.spent_known
  cached_known := h.cached_known
  calling_known j e t hj := h.calling_known j e t ((update_at_iff (by simp)).1 hj).2
  calling_ticket j e t hj := h.calling_ticket j e t ((update_at_iff (by simp)).1 hj).2
  calling j e t hj := h.calling j e t ((update_at_iff (by simp)).1 hj).2
  answered j e t n hj := h.answered j e t n ((update_at_iff (by simp)).1 hj).2
  fresh j e t n hj := by
    obtain ⟨hspent, hknown, hcalling⟩ := h.fresh j e t n ((update_at_iff (by simp)).1 hj).2
    exact ⟨hspent, hknown, fun i u hi => hcalling i u ((update_at_iff (by simp)).1 hi).2⟩
  unique i j e f t u n m hi hj :=
    h.unique i j e f t u n m ((update_at_iff (by simp)).1 hi).2 ((update_at_iff (by simp)).1 hj).2
  live e he t ht hspent := by
    rcases h.live e he t ht hspent with ⟨j, n, hj⟩ | hlost
    · by_cases hjk : j = k
      · subst hjk
        exact .inr (by simp [hj, Phase.isAnswered])
      · exact .inl ⟨j, n, by simpa [hjk] using hj⟩
    · exact .inr (by simp [hlost])

theorem Inv.save [DecidableEq κ] (h : Inv ticketOf s) {k : κ} {old entry : ε} {ticket : τ}
    (hk : s.phase k = .answered old ticket (ticketOf entry)) :
    Inv ticketOf { s with cached := some entry, phase := update s.phase k .idle } := by
  obtain ⟨hcached, hticket, hspent⟩ := h.answered k old ticket _ hk
  have hnone : ∀ j e t n, update s.phase k .idle j ≠ .answered e t n := by
    intro j e t n hj
    obtain ⟨hjk, hj⟩ := (update_at_iff (by simp)).1 hj
    exact hjk (h.unique j k e old t ticket n _ hj hk)
  have hcalling : ∀ j e t, update s.phase k .idle j = .calling e t → s.phase j = .calling e t :=
    fun j e t hj => ((update_at_iff (by simp)).1 hj).2
  refine ⟨h.spent_known, ?_, ?_, ?_, ?_, ?_, ?_, ?_, ?_⟩
  · intro e he t ht
    obtain rfl : entry = e := Option.some.inj he
    have hnew : ticketOf entry = some t := ht
    rw [hnew] at hk
    exact (h.fresh k old ticket t hk).2.1
  · exact fun j e t hj => h.calling_known j e t (hcalling j e t hj)
  · exact fun j e t hj => h.calling_ticket j e t (hcalling j e t hj)
  · -- a ticket that can be redeemed would be the one that was
    intro j e t hj hnot
    have hcached' := h.calling j e t (hcalling j e t hj) hnot
    rw [hcached] at hcached'
    cases hcached'
    have hticket' := h.calling_ticket j old t (hcalling j old t hj)
    rw [hticket] at hticket'
    cases hticket'
    exact absurd hspent hnot
  · exact fun j e t n hj => absurd hj (hnone j e t n)
  · exact fun j e t n hj => absurd hj (hnone j e t _)
  · exact fun i j e f t u n m hi => absurd hi (hnone i e t n)
  · intro e he t ht hmem
    obtain rfl : entry = e := Option.some.inj he
    have hnew : ticketOf entry = some t := ht
    rw [hnew] at hk
    exact absurd hmem (h.fresh k old ticket t hk).1

theorem step_inv [DecidableEq κ] [DecidableEq τ] (s : St κ ε τ) (o : Op κ ε τ) (h : Inv ticketOf s) :
    Inv ticketOf (step ticketOf s o) := by
  have hmoves := step_moves ticketOf s o
  generalize step ticketOf s o = s' at hmoves
  cases hmoves with
  | none => exact h
  | load hk hcached hticket => exact h.load hk hcached hticket
  | redeem hk hspent hnew => exact h.redeem hk hspent hnew
  | leave k => exact h.leave k
  | save hk => exact h.save hk

/-! ## What follows -/

/-- **No lost update.** What a task saves takes the place of the entry that it has loaded. -/
theorem Inv.replaces (h : Inv ticketOf s) {k : κ} {entry : ε} {ticket : τ} {next : Option τ}
    (hk : s.phase k = .answered entry ticket next) : s.cached = some entry := (h.answered k entry ticket next hk).1

/-- no answer is on its way -/
def Quiet (s : St κ ε τ) : Prop := ∀ k e t n, s.phase k ≠ .answered e t n

theorem Inv.redeemable (h : Inv ticketOf s) (hquiet : Quiet s) (hlost : s.lost = false) :
    ∀ e ∈ s.cached, ∀ t ∈ ticketOf e, t ∉ s.spent := by
  intro e he t ht hspent
  rcases h.live e he t ht hspent with ⟨k, n, hk⟩ | hl
  · exact hquiet k e t n hk
  · rw [hlost] at hl
    cases hl

/-- the cached ticket was redeemed, and its answer is lost -/
structure Stuck (ticketOf : ε → Option τ) (s : St κ ε τ) : Prop where
  spent : ∀ e ∈ s.cached, ∀ t ∈ ticketOf e, t ∈ s.spent
  quiet : Quiet s

/-- a task begins when no other is busy, and none leaves with an answer -/
def Alone (s : St κ ε τ) : Op κ ε τ → Prop
  | .load _ => ∀ j, s.phase j = .idle
  | .leave k => (s.phase k).isAnswered = false
  | _ => True

structure AloneInv (ticketOf : ε → Option τ) (s : St κ ε τ) : Prop where
  inv : Inv ticketOf s
  kept : s.lost = false
  one : ∀ j k, s.phase j ≠ .idle → s.phase k ≠ .idle → j = k
  unspent : ∀ k e t, s.phase k = .calling e t → t ∉ s.spent

theorem init_aloneInv (cached : Option ε) : AloneInv ticketOf (init ticketOf cached : St κ ε τ) :=
  ⟨init_inv ticketOf cached, rfl, fun j k hj => by simp [init] at hj, fun k e t hk => by simp [init] at hk⟩

/-- at most one task is busy still, when one that was busy moves -/
theorem one_update [DecidableEq κ] {f : κ → Phase ε τ} (hone : ∀ i j, f i ≠ .idle → f j ≠ .idle → i = j) {k : κ}
    {v : Phase ε τ} (hk : f k ≠ .idle) : ∀ i j, update f k v i ≠ .idle → update f k v j ≠ .idle → i = j := by
  have hself : ∀ i, update f k v i ≠ .idle → i = k := by
    intro i hi
    by_contra hik
    rw [update_of_ne hik] at hi
    exact hik (hone i k hi hk)
  exact fun i j hi hj => (hself i hi).trans (hself j hj).symm

/-! ## Runs -/

variable [DecidableEq κ] [DecidableEq τ]

theorem step_stuck (s : St κ ε τ) (o : Op κ ε τ) (h : Inv ticketOf s ∧ Stuck ticketOf s) :
    (Inv ticketOf (step ticketOf s o) ∧ Stuck ticketOf (step ticketOf s o)) ∧
      (step ticketOf s o).cached = s.cached := by
  obtain ⟨hinv, hstuck⟩ := h
  have hinv' := step_inv s o hinv
  have hmoves := step_moves ticketOf s o
  generalize step ticketOf s o = s' at hinv' hmoves
  have hquiet : ∀ (k : κ) (v : Phase ε τ), v.isAnswered = false → ∀ j e t n, update s.phase k v j ≠ .answered e t n := by
    intro k v hv j e t n hj
    by_cases hjk : j = k
    · rw [hjk, update_self] at hj
      rw [hj] at hv
      cases hv
    · rw [update_of_ne hjk] at hj
      exact hstuck.quiet j e t n hj
  cases hmoves with
  | none => exact ⟨⟨hinv, hstuck⟩, rfl⟩
  | load hk hcached hticket => exact ⟨⟨hinv', hstuck.spent, hquiet _ _ rfl⟩, rfl⟩
  | redeem hk hspent hnew =>
    exact absurd (hstuck.spent _ (hinv.calling _ _ _ hk hspent) _ (hinv.calling_ticket _ _ _ hk)) hspent
  | leave k => exact ⟨⟨hinv', hstuck.spent, hquiet _ _ rfl⟩, rfl⟩
  | save hk => exact absurd hk (hstuck.quiet _ _ _ _)

/-- a task that leaves with its answer leaves the cached ticket without one -/
theorem step_lost (s : St κ ε τ) (o : Op κ ε τ) (h : Inv ticketOf s ∧ (s.lost = true → Stuck ticketOf s)) :
    Inv ticketOf (step ticketOf s o) ∧ ((step ticketOf s o).lost = true → Stuck ticketOf (step ticketOf s o)) := by
  obtain ⟨hinv, hlost⟩ := h
  refine ⟨step_inv s o hinv, fun hlost' => ?_⟩
  by_cases hbefore : s.lost = true
  · exact (step_stuck s o ⟨hinv, hlost hbefore⟩).1.2
  · have hmoves := step_moves ticketOf s o
    generalize step ticketOf s o = s' at hlost' hmoves ⊢
    cases hmoves with
    | leave k =>
      have hanswered : (s.phase k).isAnswered = true := (Bool.or_eq_true_iff.1 hlost').resolve_left hbefore
      cases hk : s.phase k with
      | answered entry ticket next =>
        obtain ⟨hcached, hticket, hspent⟩ := hinv.answered k entry ticket next hk
        constructor
        · intro e he t ht
          obtain rfl : entry = e := Option.some.inj (hcached.symm.trans he)
          obtain rfl : ticket = t := Option.some.inj (hticket.symm.trans ht)
          exact hspent
        · -- no other answer was on its way
          intro j e t n hj
          obtain ⟨hjk, hj⟩ := (update_at_iff (by simp)).1 hj
          exact hjk (hinv.unique j k e entry t ticket n next hj hk)
      | _ => simp [hk, Phase.isAnswered] at hanswered
    | _ => exact absurd hlost' hbefore

/-- a lost answer is the end: nothing is saved any more -/
theorem run_stuck (hinv : Inv ticketOf s) (hstuck : Stuck ticketOf s) (ops : List (Op κ ε τ)) :
    (run (step ticketOf) s ops).cached = s.cached :=
  run_frozen (I := fun s => Inv ticketOf s ∧ Stuck ticketOf s) St.cached (fun s o h => (step_stuck s o h).1)
    (fun s o h => (step_stuck s o h).2) ⟨hinv, hstuck⟩ ops

theorem step_aloneInv (s : St κ ε τ) (o : Op κ ε τ) (h : AloneInv ticketOf s) (halone : Alone s o) :
    AloneInv ticketOf (step ticketOf s o) := by
  have hinv := step_inv s o h.inv
  have hmoves := step_moves ticketOf s o
  generalize step ticketOf s o = s' at hinv hmoves
  cases hmoves with
  | none => exact h
  | @load k entry ticket hk hcached hticket =>
    have hquiet : Quiet s := fun j e t n hj => by rw [halone j] at hj; cases hj
    have hself : ∀ i, update s.phase k (.calling entry ticket) i ≠ .idle → i = k := by
      intro i hi
      by_contra hik
      exact hi (by rw [update_of_ne hik, halone i])
    refine ⟨hinv, h.kept, fun i j hi hj => (hself i hi).trans (hself j hj).symm, fun j e t hj => ?_⟩
    have hbusy : update s.phase k (.calling entry ticket) j ≠ .idle := by
      intro hidle
      exact absurd (hj.symm.trans hidle) (by simp)
    obtain rfl := hself j hbusy
    obtain ⟨rfl, rfl⟩ : entry = e ∧ ticket = t := by simpa using hj
    exact h.inv.redeemable hquiet h.kept _ hcached _ hticket
  | @redeem k entry ticket next hk hspent hnew =>
    have hbusy : s.phase k ≠ .idle := by rw [hk]; simp
    refine ⟨hinv, h.kept, one_update h.one hbusy, fun j e t hj => ?_⟩
    obtain ⟨hjk, hj⟩ := (update_at_iff (by simp)).1 hj
    exact absurd (h.one j k (by rw [hj]; simp) hbusy) hjk
  | leave k =>
    have hkept : (s.lost || (s.phase k).isAnswered) = false := by
      rw [h.kept, Bool.false_or]
      exact halone
    refine ⟨hinv, hkept, fun i j hi hj => ?_, fun j e t hj => h.unspent j e t ((update_at_iff (by simp)).1 hj).2⟩
    have hbusy : ∀ i, update s.phase k .idle i ≠ .idle → s.phase i ≠ .idle := by
      intro i hi hidle
      by_cases hik : i = k
      · exact hi (by rw [hik, update_self])
      · exact hi (by rw [update_of_ne hik, hidle])
    exact h.one i j (hbusy i hi) (hbusy j hj)
  | @save k old entry ticket hk =>
    exact ⟨hinv, h.kept, one_update h.one (by rw [hk]; simp),
      fun j e t hj => h.unspent j e t ((update_at_iff (by simp)).1 hj).2⟩

/-- **Tasks one after the other.** Every call of the service is with a ticket that it has not redeemed. -/
theorem alone_unspent (cached : Option ε) {ops : List (Op κ ε τ)}
    (h : Along (step ticketOf) Alone (init ticketOf cached) ops) :
    AloneInv ticketOf (run (step ticketOf) (init ticketOf cached) ops) :=
  run_inv_of step_aloneInv (init_aloneInv cached) h

end Rotation
