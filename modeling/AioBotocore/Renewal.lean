/-
Tasks that renew the entry of a shared cache through a service. A task looks at the entry and at the clock; it returns, it
raises, or it calls the service with the ticket of the entry. When the service has answered and the call is over, it saves
the renewed entry. A task suspends while the call is on its way and while the connection is being closed; by then the
service may have redeemed the ticket. Time passes in `tick`. What one task does between suspensions is its `Code`.

- `renewal_runs`: what is called and saved, and what stays of the first entry, for any service.
- `run_final`: an entry that never makes a task call the service stays.
- `step_rotates`: the tasks are tasks of `Rotation` when the service redeems each ticket once.
- `rotation`: no save undoes another; the cached ticket can be redeemed while no answer is on its way or lost; a lost answer
  is the end; tasks one after the other are not refused.
-/
import Mathlib.Tactic
import AioBotocore.Async.Simulation
import AioBotocore.Rotation

namespace Renewal

open Async Function

/-! ## Model -/

/-- a task up to its first suspension; `memo` is what it remembers besides the entry -/
inductive Start (ε μ α χ τ : Type*) where
  | raises (x : χ)
  | returns (a : α)
  | calls (entry : ε) (ticket : τ) (memo : μ)
deriving DecidableEq, Repr

/-- entries `ε` with tickets `τ`, responses `ρ`, results `α`, exceptions `χ` and failures of the call `φ` -/
structure Code (ε μ ρ α χ φ τ : Type*) where
  ticketOf : ε → Option τ
  nextOf : ρ → Option τ
  start : ℤ → Option ε → Start ε μ α χ τ
  /-- when the call is over: the renewed entry, and what comes after it is saved -/
  renew : ℤ → ε → ρ → Except χ (ε × Except χ α)
  /-- what comes of a call that fails -/
  fails : ε → μ → φ → Except χ α
  calls_cached : ∀ now cache entry ticket memo, start now cache = .calls entry ticket memo →
    cache = some entry ∧ ticketOf entry = some ticket
  renew_ticket : ∀ now entry r new a, renew now entry r = .ok (new, a) → ticketOf new = nextOf r

inductive Pc (ε μ ρ τ : Type*) where
  | idle
  | calling (entry : ε) (ticket : τ) (memo : μ)
  /-- the service has answered; the answer is on its way, or the connection is being closed -/
  | answered (entry : ε) (ticket : τ) (memo : μ) (response : ρ)
deriving DecidableEq, Repr

inductive Event (ε ρ α χ : Type*) where
  | called (k : ℕ) (entry : ε) (now : ℤ)
  | redeemed (k : ℕ) (entry : ε) (response : ρ)
  /-- `found` is what the save replaces -/
  | saved (k : ℕ) (loaded new : ε) (found : Option ε)
  | returned (k : ℕ) (a : α)
  | raised (k : ℕ) (x : χ)
deriving DecidableEq, Repr

structure St (ε μ ρ α χ τ : Type*) where
  now : ℤ
  cache : Option ε
  pc : ℕ → Pc ε μ ρ τ
  log : List (Event ε ρ α χ)
  /-- the tickets that were redeemed -/
  spent : List τ
  /-- the tickets that were ever given out -/
  known : List τ
  /-- an answer of the service was lost -/
  lost : Bool

inductive Op (ρ φ : Type*) where
  | tick (d : ℕ)
  | start (k : ℕ)
  /-- the service redeems the ticket -/
  | redeem (k : ℕ) (response : ρ)
  /-- the call is over -/
  | finish (k : ℕ)
  /-- the call fails, or closing the connection -/
  | fails (k : ℕ) (e : φ)
deriving DecidableEq, Repr

variable {ε μ ρ α χ φ τ : Type*}

def Event.task : Event ε ρ α χ → ℕ
  | .called k _ _ | .redeemed k _ _ | .saved k _ _ _ | .returned k _ | .raised k _ => k

/-- what task `k` did last -/
def lastOf (log : List (Event ε ρ α χ)) (k : ℕ) : Option (Event ε ρ α χ) := (log.filter fun e => e.task = k).getLast?

def goto (s : St ε μ ρ α χ τ) (k : ℕ) (pc : Pc ε μ ρ τ) : St ε μ ρ α χ τ := { s with pc := update s.pc k pc }

def note (s : St ε μ ρ α χ τ) (e : Event ε ρ α χ) : St ε μ ρ α χ τ := { s with log := s.log ++ [e] }

/-- how a task ends -/
def outcome (k : ℕ) : Except χ α → Event ε ρ α χ
  | .error x => .raised k x
  | .ok a => .returned k a

variable (C : Code ε μ ρ α χ φ τ)

def step (s : St ε μ ρ α χ τ) : Op ρ φ → St ε μ ρ α χ τ
  | .tick d => { s with now := s.now + d }
  | .start k =>
    match s.pc k with
    | .idle =>
      match C.start s.now s.cache with
      | .raises x => note s (.raised k x)
      | .returns a => note s (.returned k a)
      | .calls entry ticket memo => note (goto s k (.calling entry ticket memo)) (.called k entry s.now)
    | _ => s
  | .redeem k response =>
    match s.pc k with
    | .calling entry ticket memo =>
      note { goto s k (.answered entry ticket memo response) with
        spent := ticket :: s.spent
        known := (C.nextOf response).toList ++ s.known } (.redeemed k entry response)
    | _ => s
  | .finish k =>
    match s.pc k with
    | .answered entry _ _ response =>
      match C.renew s.now entry response with
      | .error x => { note (goto s k .idle) (.raised k x) with lost := true }
      | .ok (new, a) =>
        note (note { goto s k .idle with cache := some new } (.saved k entry new s.cache)) (outcome k a)
    | _ => s
  | .fails k e =>
    match s.pc k with
    | .calling entry _ memo => note (goto s k .idle) (outcome k (C.fails entry memo e))
    | .answered entry _ memo _ => { note (goto s k .idle) (outcome k (C.fails entry memo e)) with lost := true }
    | .idle => s

def init (now : ℤ) (cache : Option ε) : St ε μ ρ α χ τ :=
  ⟨now, cache, fun _ => .idle, [], [], (cache.bind C.ticketOf).toList, false⟩

/-! ## Steps -/

/-- a task returns or raises -/
def Event.Ends (k : ℕ) (e : Event ε ρ α χ) : Prop := (∃ x, e = .raised k x) ∨ ∃ a, e = .returned k a

theorem Event.Ends.task {k : ℕ} {e : Event ε ρ α χ} (h : e.Ends k) : e.task = k := by
  rcases h with ⟨x, rfl⟩ | ⟨a, rfl⟩
  · rfl
  · rfl

theorem outcome_ends (k : ℕ) (result : Except χ α) : (outcome k result : Event ε ρ α χ).Ends k := by
  cases result with
  | error x => exact .inl ⟨x, rfl⟩
  | ok a => exact .inr ⟨a, rfl⟩

/-- everything one operation can do -/
inductive Moves (s : St ε μ ρ α χ τ) : Op ρ φ → St ε μ ρ α χ τ → Prop
  | none (o : Op ρ φ) : Moves s o s
  | tick (d : ℕ) : Moves s (.tick d) { s with now := s.now + d }
  /-- the task ends at once -/
  | ends {k : ℕ} {e : Event ε ρ α χ} (hk : s.pc k = .idle) (he : e.Ends k) : Moves s (.start k) (note s e)
  | calls {k : ℕ} {entry : ε} {ticket : τ} {memo : μ} (hk : s.pc k = .idle)
      (hstart : C.start s.now s.cache = .calls entry ticket memo) :
      Moves s (.start k) (note (goto s k (.calling entry ticket memo)) (.called k entry s.now))
  | redeem {k : ℕ} {entry : ε} {ticket : τ} {memo : μ} (response : ρ) (hk : s.pc k = .calling entry ticket memo) :
      Moves s (.redeem k response)
        (note { goto s k (.answered entry ticket memo response) with
          spent := ticket :: s.spent, known := (C.nextOf response).toList ++ s.known } (.redeemed k entry response))
  | saves {k : ℕ} {entry new : ε} {ticket : τ} {memo : μ} {response : ρ} {a : Except χ α} {e : Event ε ρ α χ}
      (hk : s.pc k = .answered entry ticket memo response)
      (hnew : C.renew s.now entry response = .ok (new, a)) (he : e.Ends k) :
      Moves s (.finish k) (note (note { goto s k .idle with cache := some new } (.saved k entry new s.cache)) e)
  | fails {k : ℕ} {entry : ε} {ticket : τ} {memo : μ} (o : Op ρ φ) {e : Event ε ρ α χ}
      (hk : s.pc k = .calling entry ticket memo) (he : e.Ends k) : Moves s o (note (goto s k .idle) e)
  | loses {k : ℕ} {entry : ε} {ticket : τ} {memo : μ} {response : ρ} {o : Op ρ φ} {e : Event ε ρ α χ}
      (hk : s.pc k = .answered entry ticket memo response) (he : e.Ends k)
      (ho : (∃ x, o = .fails k x) ∨ o = .finish k ∧ ∃ x, C.renew s.now entry response = .error x) :
      Moves s o { note (goto s k .idle) e with lost := true }

theorem step_moves (s : St ε μ ρ α χ τ) (o : Op ρ φ) : Moves C s o (step C s o) := by
  cases o with
  | tick d => exact .tick d
  | start k =>
    simp only [step]
    split
    · rename_i hk
      split
      · exact .ends hk (.inl ⟨_, rfl⟩)
      · exact .ends hk (.inr ⟨_, rfl⟩)
      · rename_i entry ticket memo hstart
        exact .calls hk hstart
    · exact .none _
  | redeem k response =>
    simp only [step]
    split
    · rename_i entry ticket memo hk
      exact .redeem response hk
    · exact .none _
  | finish k =>
    simp only [step]
    split
    · rename_i entry ticket memo response hk
      split
      · rename_i x hx
        exact .loses hk (.inl ⟨x, rfl⟩) (.inr ⟨rfl, x, hx⟩)
      · rename_i new a hnew
        exact .saves hk hnew (outcome_ends k a)
    · exact .none _
  | fails k e =>
    simp only [step]
    split
    · rename_i entry ticket memo hk
      exact .fails _ hk (outcome_ends k _)
    · rename_i entry ticket memo response hk
      exact .loses hk (outcome_ends k _) (.inl ⟨e, rfl⟩)
    · exact .none _

/-! ## Any service -/

/-- the entry a task has loaded -/
def Pc.entry : Pc ε μ ρ τ → Option ε
  | .idle => none
  | .calling entry _ _ => some entry
  | .answered entry _ _ _ => some entry

/-- `entry` makes a task call the service -/
def Due (now : ℤ) (entry : ε) : Prop := ∃ ticket memo, C.start now (some entry) = .calls entry ticket memo

/-- what may stand in the log behind `before`: a response is one to the call of the task, and a save is of the entry that
the task had loaded, renewed with its response -/
def Event.Ok (before : List (Event ε ρ α χ)) : Event ε ρ α χ → Prop
  | .called _ entry now => Due C now entry
  | .redeemed k entry _ => ∃ now, lastOf before k = some (.called k entry now)
  | .saved k loaded new _ => (∃ now, Due C now loaded) ∧
      ∃ response, lastOf before k = some (.redeemed k loaded response) ∧
        ∃ now result, C.renew now loaded response = .ok (new, result)
  | _ => True

/-- what the task has done last, where it stands -/
def Pc.Last (log : List (Event ε ρ α χ)) (k : ℕ) : Pc ε μ ρ τ → Prop
  | .idle => True
  | .calling entry _ _ => ∃ now, lastOf log k = some (.called k entry now)
  | .answered entry _ _ response => lastOf log k = some (.redeemed k entry response)

variable {γ : Type*}

/-- `keep` of the cached entry is `kept` -/
structure Inv (keep : ε → γ) (kept : Option γ) (s : St ε μ ρ α χ τ) : Prop where
  cache : s.cache.map keep = kept
  loaded : ∀ k, ∀ entry ∈ (s.pc k).entry, some (keep entry) = kept ∧ ∃ now, Due C now entry
  last : ∀ k, (s.pc k).Last s.log k
  log : ∀ before e after, s.log = before ++ e :: after → e.Ok C before

variable {C} {keep : ε → γ} {kept : Option γ} {s : St ε μ ρ α χ τ}

theorem lastOf_snoc_self (log : List (Event ε ρ α χ)) (e : Event ε ρ α χ) : lastOf (log ++ [e]) e.task = some e := by
  simp [lastOf, List.filter_append]

theorem lastOf_snoc_other {e : Event ε ρ α χ} {k : ℕ} (h : e.task ≠ k) (log : List (Event ε ρ α χ)) :
    lastOf (log ++ [e]) k = lastOf log k := by
  simp [lastOf, List.filter_append, h]

theorem init_inv (now : ℤ) (cache : Option ε) : Inv C keep (cache.map keep) (init C now cache) :=
  ⟨rfl, fun k entry h => by simp [init, Pc.entry] at h, fun k => trivial, fun before e after h => by simp [init] at h⟩

theorem Event.Ends.ok {k : ℕ} {e : Event ε ρ α χ} (h : e.Ends k) (before : List (Event ε ρ α χ)) : e.Ok C before := by
  rcases h with ⟨x, rfl⟩ | ⟨a, rfl⟩ <;> exact trivial

/-- a task goes on with the entry it has loaded, or ends -/
theorem Inv.moved (h : Inv C keep kept s) {k : ℕ} {v : Pc ε μ ρ τ} (hv : ∀ entry ∈ v.entry, entry ∈ (s.pc k).entry)
    (i : ℕ) : ∀ entry ∈ (update s.pc k v i).entry, some (keep entry) = kept ∧ ∃ now, Due C now entry := by
  intro entry hentry
  by_cases hik : i = k
  · rw [hik, update_self] at hentry
    exact h.loaded k entry (hv entry hentry)
  · rw [update_of_ne hik] at hentry
    exact h.loaded i entry hentry

/-- the task that moves has done `e` last, and the others what they had -/
theorem last_update {f : ℕ → Pc ε μ ρ τ} {log : List (Event ε ρ α χ)} (h : ∀ i, (f i).Last log i) {k : ℕ}
    {v : Pc ε μ ρ τ} {e : Event ε ρ α χ} (he : e.task = k) (hv : v.Last (log ++ [e]) k) (i : ℕ) :
    (update f k v i).Last (log ++ [e]) i := by
  by_cases hik : i = k
  · rw [hik, update_self]
    exact hv
  · have hsame := lastOf_snoc_other (he.trans_ne (Ne.symm hik)) log
    rw [update_of_ne hik]
    have hi := h i
    cases hpc : f i with
    | idle => exact trivial
    | calling entry ticket memo =>
      rw [hpc] at hi
      obtain ⟨now, hi⟩ := hi
      exact ⟨now, hsame.trans hi⟩
    | answered entry ticket memo response =>
      rw [hpc] at hi
      exact hsame.trans hi

theorem step_inv (hkeep : ∀ now entry r new a, C.renew now entry r = .ok (new, a) → keep new = keep entry)
    (s : St ε μ ρ α χ τ) (o : Op ρ φ) (h : Inv C keep kept s) : Inv C keep kept (step C s o) := by
  have hmoves := step_moves C s o
  generalize step C s o = s' at hmoves
  cases hmoves with
  | none => exact h
  | tick d => exact ⟨h.cache, h.loaded, h.last, h.log⟩
  | @ends k e hk he =>
    refine ⟨h.cache, h.loaded, fun i => ?_, forall_split_snoc h.log (he.ok _)⟩
    have hlast := last_update h.last he.task (v := .idle) trivial i
    rwa [← hk, update_eq_self] at hlast
  | @calls k entry ticket memo hk hstart =>
    obtain ⟨hcache, -⟩ := C.calls_cached _ _ _ _ _ hstart
    have hkept : some (keep entry) = kept := by rw [← h.cache, hcache, Option.map_some]
    have hdue : Due C s.now entry := ⟨ticket, memo, hcache ▸ hstart⟩
    refine ⟨h.cache, fun i e he => ?_, last_update h.last rfl ⟨s.now, lastOf_snoc_self _ _⟩,
      forall_split_snoc h.log hdue⟩
    by_cases hik : i = k
    · subst hik
      obtain rfl : entry = e := by simpa [note, goto, Pc.entry] using he
      exact ⟨hkept, s.now, hdue⟩
    · exact h.loaded i e (by simpa [note, goto, hik] using he)
  | @redeem k entry ticket memo response hk =>
    have hcalled := h.last k
    rw [hk] at hcalled
    refine ⟨h.cache, h.moved (fun e he => ?_), last_update h.last rfl (lastOf_snoc_self _ _),
      forall_split_snoc h.log hcalled⟩
    rw [hk]
    exact he
  | @saves k entry new ticket memo response a e hk hnew he =>
    obtain ⟨hkept, hdue⟩ := h.loaded k entry (by rw [hk]; rfl)
    have hredeemed := h.last k
    rw [hk] at hredeemed
    have hsaved : (Event.saved k entry new s.cache : Event ε ρ α χ).Ok C s.log :=
      ⟨hdue, response, hredeemed, s.now, a, hnew⟩
    have hlast := last_update h.last (k := k) (e := .saved k entry new s.cache) rfl (v := .idle) trivial
    refine ⟨?_, h.moved (fun e he => by cases he), fun i => ?_,
      forall_split_snoc (forall_split_snoc h.log hsaved) (he.ok _)⟩
    · calc (some new).map keep
          = some (keep entry) := by rw [Option.map_some, hkeep _ _ _ _ _ hnew]
        _ = kept := hkept
    · have hlast' := last_update hlast he.task (v := .idle) trivial i
      rwa [update_idem] at hlast'
  | fails o hk he =>
    exact ⟨h.cache, h.moved (fun e he => by cases he), last_update h.last he.task trivial,
      forall_split_snoc h.log (he.ok _)⟩
  | loses hk he ho =>
    exact ⟨h.cache, h.moved (fun e he => by cases he), last_update h.last he.task trivial,
      forall_split_snoc h.log (he.ok _)⟩

theorem Inv.called (h : Inv C keep kept s) {k : ℕ} {entry : ε} {now : ℤ} (hmem : .called k entry now ∈ s.log) :
    Due C now entry := by
  obtain ⟨before, after, hlog⟩ := List.append_of_mem hmem
  exact h.log before _ after hlog

/-! ## The last call -/

variable (C) in
/-- no task has loaded an entry, and the cached one never makes one call -/
structure Final (s : St ε μ ρ α χ τ) : Prop where
  idle : ∀ k, s.pc k = .idle
  never : ∀ entry ∈ s.cache, ∀ now, ¬ Due C now entry

theorem step_final (s : St ε μ ρ α χ τ) (o : Op ρ φ) (h : Final C s) :
    Final C (step C s o) ∧ (step C s o).cache = s.cache ∧
      ∀ k entry now, .called k entry now ∈ (step C s o).log → .called k entry now ∈ s.log := by
  have hmoves := step_moves C s o
  generalize step C s o = s' at hmoves
  cases hmoves with
  | none => exact ⟨h, rfl, fun _ _ _ => id⟩
  | tick d => exact ⟨⟨h.idle, h.never⟩, rfl, fun _ _ _ => id⟩
  | ends hk he =>
    refine ⟨⟨h.idle, h.never⟩, rfl, fun j entry now hmem => ?_⟩
    rcases List.mem_append.1 hmem with hmem | hmem
    · exact hmem
    · rw [List.mem_singleton] at hmem
      rcases he with ⟨x, rfl⟩ | ⟨a, rfl⟩ <;> cases hmem
  | @calls k entry ticket memo hk hstart =>
    obtain ⟨hcache, -⟩ := C.calls_cached _ _ _ _ _ hstart
    exact absurd ⟨ticket, memo, hcache ▸ hstart⟩ (h.never entry hcache s.now)
  | redeem response hk => rw [h.idle] at hk; cases hk
  | saves hk hnew he => rw [h.idle] at hk; cases hk
  | fails o hk => rw [h.idle] at hk; cases hk
  | loses hk => rw [h.idle] at hk; cases hk

/-- the service is not called any more -/
theorem run_final {s : St ε μ ρ α χ τ} (h : Final C s) (ops : List (Op ρ φ)) :
    (run (step C) s ops).cache = s.cache ∧
      ∀ k entry now, .called k entry now ∈ (run (step C) s ops).log → .called k entry now ∈ s.log := by
  induction ops generalizing s with
  | nil => exact ⟨rfl, fun _ _ _ => id⟩
  | cons o ops ih =>
    obtain ⟨hfinal, hcache, hlog⟩ := step_final s o h
    obtain ⟨hcache', hlog'⟩ := ih hfinal
    exact ⟨hcache'.trans hcache, fun k entry now hmem => hlog k entry now (hlog' k entry now hmem)⟩

/-- **Any service.** The service is called with an entry that makes a task call it; what is saved is the entry that was
loaded, renewed with the response to the call of that task; and what a renewal keeps stays in the cache as it was. -/
theorem renewal_runs (hkeep : ∀ now entry r new a, C.renew now entry r = .ok (new, a) → keep new = keep entry) (now : ℤ)
    (cache : Option ε) (ops : List (Op ρ φ)) :
    Inv C keep (cache.map keep) (run (step C) (init C now cache) ops) :=
  Async.run_inv (step_inv hkeep) (init_inv now cache) ops

/-! ## A service that redeems each ticket once -/

variable (C) in
def phase : Pc ε μ ρ τ → Rotation.Phase ε τ
  | .idle => .idle
  | .calling entry ticket _ => .calling entry ticket
  | .answered entry ticket _ response => .answered entry ticket (C.nextOf response)

variable (C) in
def toRotation (s : St ε μ ρ α χ τ) : Rotation.St ℕ ε τ :=
  ⟨s.cache, s.spent, s.known, fun k => phase C (s.pc k), s.lost⟩

variable (C) in
/-- the service redeems a ticket once, for one that it has never given out -/
def Rotating (s : St ε μ ρ α χ τ) : Op ρ φ → Prop
  | .redeem k response =>
    match s.pc k with
    | .calling _ ticket _ => Rotation.Honours s.spent s.known ticket (C.nextOf response)
    | _ => True
  | _ => True

variable (C) in
/-- a task begins when no other runs, and none ends with an answer that it has not saved -/
def Alone (s : St ε μ ρ α χ τ) : Op ρ φ → Prop
  | .start _ => ∀ j, s.pc j = .idle
  | .fails k _ => ∀ entry ticket memo r, s.pc k ≠ .answered entry ticket memo r
  | .finish k => ∀ entry ticket memo r, s.pc k = .answered entry ticket memo r → (C.renew s.now entry r).isOk = true
  | _ => True

@[simp] theorem toRotation_note (s : St ε μ ρ α χ τ) (e : Event ε ρ α χ) : toRotation C (note s e) = toRotation C s := rfl

theorem toRotation_goto (s : St ε μ ρ α χ τ) (k : ℕ) (v : Pc ε μ ρ τ) :
    toRotation C (goto s k v) = { toRotation C s with phase := update (toRotation C s).phase k (phase C v) } := by
  have hphase : (fun i => phase C (update s.pc k v i)) = update (fun i => phase C (s.pc i)) k (phase C v) := by
    funext i
    by_cases hik : i = k
    · rw [hik, update_self, update_self]
    · rw [update_of_ne hik, update_of_ne hik]
  calc toRotation C (goto s k v)
      = ⟨s.cache, s.spent, s.known, fun i => phase C (update s.pc k v i), s.lost⟩ := rfl
    _ = ⟨s.cache, s.spent, s.known, update (fun i => phase C (s.pc i)) k (phase C v), s.lost⟩ := by rw [hphase]

theorem toRotation_phase {k : ℕ} {v : Pc ε μ ρ τ} (hk : s.pc k = v) : (toRotation C s).phase k = phase C v :=
  congrArg (phase C) hk

theorem toRotation_init (now : ℤ) (cache : Option ε) : toRotation C (init C now cache) = Rotation.init C.ticketOf cache := by
  rfl

variable [DecidableEq τ]

/-- an operation of the machine is one of the tasks of `Rotation`, or none -/
theorem step_rotates (s : St ε μ ρ α χ τ) (o : Op ρ φ) (hrotating : Rotating C s o) :
    ∃ ops, (Alone C s o → Along (Rotation.step C.ticketOf) Rotation.Alone (toRotation C s) ops) ∧
      toRotation C (step C s o) = run (Rotation.step C.ticketOf) (toRotation C s) ops := by
  have hmoves := step_moves C s o
  generalize step C s o = s' at hmoves
  cases hmoves with
  | none => exact ⟨[], fun _ => along_nil _ _, rfl⟩
  | tick d => exact ⟨[], fun _ => along_nil _ _, rfl⟩
  | ends hk he => exact ⟨[], fun _ => along_nil _ _, rfl⟩
  | @calls k entry ticket memo hk hstart =>
    obtain ⟨hcache, hticket⟩ := C.calls_cached _ _ _ _ _ hstart
    have hcached : (toRotation C s).cached = some entry := hcache
    refine ⟨[.load k], fun halone => ?_, ?_⟩
    · rw [along_cons]
      exact ⟨fun j => toRotation_phase (halone j), along_nil _ _⟩
    · rw [run_cons, run_nil, toRotation_note, toRotation_goto, Rotation.step]
      simp only [toRotation_phase hk, hcached, phase, hticket]
  | @redeem k entry ticket memo response hk =>
    have hhonours : Rotation.Honours (toRotation C s).spent (toRotation C s).known ticket (C.nextOf response) := by
      simp only [Rotating, hk] at hrotating
      exact hrotating
    refine ⟨[.redeem k (C.nextOf response)], fun _ => ?_, ?_⟩
    · rw [along_cons]
      exact ⟨trivial, along_nil _ _⟩
    · have hgoto := toRotation_goto (C := C) s k (.answered entry ticket memo response)
      rw [run_cons, run_nil, Rotation.step]
      simp only [toRotation_phase hk, phase] at hgoto ⊢
      rw [if_pos hhonours]
      exact congrArg (fun u : Rotation.St ℕ ε τ =>
        { u with spent := ticket :: s.spent, known := (C.nextOf response).toList ++ s.known }) hgoto
  | @saves k entry new ticket memo response a e hk hnew he =>
    refine ⟨[.save k new], fun _ => ?_, ?_⟩
    · rw [along_cons]
      exact ⟨trivial, along_nil _ _⟩
    · have hgoto := toRotation_goto (C := C) s k .idle
      rw [run_cons, run_nil, Rotation.step, toRotation_note, toRotation_note]
      simp only [toRotation_phase hk, phase]
      rw [if_pos (C.renew_ticket _ _ _ _ _ hnew)]
      exact congrArg (fun u : Rotation.St ℕ ε τ => { u with cached := some new }) hgoto
  | @fails k entry ticket memo o e hk he =>
    refine ⟨[.leave k], fun _ => ?_, ?_⟩
    · rw [along_cons]
      exact ⟨congrArg Rotation.Phase.isAnswered (toRotation_phase hk), along_nil _ _⟩
    · rw [run_cons, run_nil, Rotation.step, toRotation_note, toRotation_goto, toRotation_phase hk]
      simp only [phase, Rotation.Phase.isAnswered, Bool.or_false]
  | @loses k entry ticket memo response o e hk he ho =>
    refine ⟨[.leave k], fun halone => ?_, ?_⟩
    · rcases ho with ⟨x, rfl⟩ | ⟨rfl, x, hx⟩
      · exact absurd hk (halone entry ticket memo response)
      · -- the renewal has raised
        have hok := halone entry ticket memo response hk
        rw [hx] at hok
        cases hok
    · have hgoto := toRotation_goto (C := C) s k .idle
      rw [run_cons, run_nil, Rotation.step, toRotation_phase hk]
      simp only [phase, Rotation.Phase.isAnswered, Bool.or_true]
      exact congrArg (fun u : Rotation.St ℕ ε τ => { u with lost := true }) hgoto

/-- every save replaces the entry that was loaded -/
def Replaces (s : St ε μ ρ α χ τ) : Prop := ∀ k loaded new found, .saved k loaded new found ∈ s.log → found = some loaded

variable (C) in
structure RotationInv (s : St ε μ ρ α χ τ) : Prop where
  rotation : Rotation.Inv C.ticketOf (toRotation C s)
  lost : s.lost = true → Rotation.Stuck C.ticketOf (toRotation C s)
  replaces : Replaces s

omit [DecidableEq τ] in
theorem Replaces.append (h : Replaces s) {e : Event ε ρ α χ}
    (he : ∀ k loaded new found, e = .saved k loaded new found → found = some loaded) : Replaces (note s e) := by
  intro k loaded new found hmem
  rcases List.mem_append.1 hmem with hmem | hmem
  · exact h k loaded new found hmem
  · exact he k loaded new found (List.mem_singleton.1 hmem).symm

omit [DecidableEq τ] in
theorem step_replaces (s : St ε μ ρ α χ τ) (o : Op ρ φ) (h : RotationInv C s) : Replaces (step C s o) := by
  have hmoves := step_moves C s o
  generalize step C s o = s' at hmoves
  have hends : ∀ {k : ℕ} {e : Event ε ρ α χ}, e.Ends k →
      ∀ k loaded new found, e = .saved k loaded new found → found = some loaded := by
    rintro k e (⟨x, rfl⟩ | ⟨t, rfl⟩) j loaded new found heq <;> cases heq
  cases hmoves with
  | none => exact h.replaces
  | tick d => exact h.replaces
  | ends hk he => exact h.replaces.append (hends he)
  | calls hk hstart => exact Replaces.append (s := goto s _ _) h.replaces fun _ _ _ _ heq => by cases heq
  | redeem response hk => exact Replaces.append (s := { goto s _ _ with spent := _, known := _ }) h.replaces fun _ _ _ _ heq => by cases heq
  | @saves k entry new ticket memo response a e hk hnew he =>
    have hfound : s.cache = some entry := h.rotation.replaces (toRotation_phase hk)
    have hsaved := Replaces.append (s := { goto s k .idle with cache := some new })
      (e := .saved k entry new s.cache) h.replaces fun _ _ _ _ heq => by
        cases heq
        exact hfound
    exact hsaved.append (hends he)
  | fails o hk he => exact Replaces.append (s := goto s _ _) h.replaces (hends he)
  | loses hk he ho => exact Replaces.append (s := goto s _ _) h.replaces (hends he)

theorem step_rotationInv (s : St ε μ ρ α χ τ) (o : Op ρ φ) (h : RotationInv C s) (hrotating : Rotating C s o) :
    RotationInv C (step C s o) := by
  obtain ⟨ops, -, hstep⟩ := step_rotates s o hrotating
  have hrun : Rotation.Inv C.ticketOf (toRotation C (step C s o)) ∧
      ((step C s o).lost = true → Rotation.Stuck C.ticketOf (toRotation C (step C s o))) := by
    have hlost : (toRotation C (step C s o)).lost = (step C s o).lost := rfl
    rw [← hlost, hstep]
    exact Async.run_inv Rotation.step_lost ⟨h.rotation, h.lost⟩ ops
  exact ⟨hrun.1, hrun.2, step_replaces s o h⟩

omit [DecidableEq τ] in
theorem init_rotationInv (now : ℤ) (cache : Option ε) : RotationInv C (init C now cache) :=
  ⟨Rotation.init_inv _ cache, fun hlost => absurd hlost Bool.false_ne_true,
    fun k loaded new found hmem => by simp [init] at hmem⟩

variable (C) in
/-- the cached ticket was redeemed, and what it was redeemed for is lost -/
structure Stuck (s : St ε μ ρ α χ τ) : Prop where
  spent : ∀ entry ∈ s.cache, ∀ t ∈ C.ticketOf entry, t ∈ s.spent
  quiet : ∀ k entry ticket memo r, s.pc k ≠ .answered entry ticket memo r

omit [DecidableEq τ] in
theorem quiet_toRotation (h : ∀ k entry ticket memo r, s.pc k ≠ .answered entry ticket memo r) :
    Rotation.Quiet (toRotation C s) := by
  intro k entry t next hk
  have hphase : phase C (s.pc k) = .answered entry t next := hk
  cases hpc : s.pc k with
  | idle => rw [hpc] at hphase; cases hphase
  | calling entry' ticket memo => rw [hpc] at hphase; cases hphase
  | answered entry' ticket memo r => exact h k entry' ticket memo r hpc

omit [DecidableEq τ] in
theorem RotationInv.stuck (h : RotationInv C s) (hlost : s.lost = true) : Stuck C s := by
  obtain ⟨hspent, hquiet⟩ := h.lost hlost
  exact ⟨hspent, fun k entry ticket memo r hk => hquiet k entry ticket (C.nextOf r) (toRotation_phase hk)⟩

theorem RotationInv.stuck_final (h : RotationInv C s) (hstuck : Stuck C s) {ops : List (Op ρ φ)}
    (hrotating : Along (step C) (Rotating C) s ops) : (run (step C) s ops).cache = s.cache := by
  have hstep : ∀ s o, RotationInv C s → Rotating C s o → ∃ ops,
      Along (Rotation.step C.ticketOf) (fun _ _ => True) (toRotation C s) ops ∧
        toRotation C (step C s o) = run (Rotation.step C.ticketOf) (toRotation C s) ops := by
    intro s o _ hrotating
    obtain ⟨ops, -, hops⟩ := step_rotates s o hrotating
    exact ⟨ops, along_of_forall _ fun _ _ _ => trivial, hops⟩
  obtain ⟨ops', -, hrun⟩ := run_simulates step_rotationInv hstep h hrotating
  calc (run (step C) s ops).cache
      = (run (Rotation.step C.ticketOf) (toRotation C s) ops').cached := by rw [← hrun]; rfl
    _ = s.cache := Rotation.run_stuck h.rotation ⟨hstuck.spent, quiet_toRotation hstuck.quiet⟩ ops'

theorem alone_unspent (now : ℤ) (cache : Option ε) {ops : List (Op ρ φ)}
    (h : Along (step C) (fun s o => Rotating C s o ∧ Alone C s o) (init C now cache) ops) {k : ℕ} {entry : ε} {ticket : τ}
    {memo : μ} (hk : (run (step C) (init C now cache) ops).pc k = .calling entry ticket memo) :
    ticket ∉ (run (step C) (init C now cache) ops).spent := by
  have hstep : ∀ s o, True → Rotating C s o ∧ Alone C s o → ∃ ops,
      Along (Rotation.step C.ticketOf) Rotation.Alone (toRotation C s) ops ∧
        toRotation C (step C s o) = run (Rotation.step C.ticketOf) (toRotation C s) ops := by
    intro s o _ hgood
    obtain ⟨ops, halone, hops⟩ := step_rotates s o hgood.1
    exact ⟨ops, halone hgood.2, hops⟩
  obtain ⟨ops', halone, hrun⟩ := run_simulates (fun _ _ _ _ => trivial) hstep trivial h
  have hphase : (toRotation C (run (step C) (init C now cache) ops)).phase k = .calling entry ticket := toRotation_phase hk
  rw [hrun] at hphase
  have hunspent := (Rotation.alone_unspent cache (toRotation_init (C := C) now cache ▸ halone)).unspent k entry ticket hphase
  have hspent : (run (step C) (init C now cache) ops).spent =
      (run (Rotation.step C.ticketOf) (Rotation.init C.ticketOf cache) ops').spent := congrArg Rotation.St.spent hrun
  rwa [hspent]

/-- **Rotation.** Let the service redeem a ticket once and give a new one for it. However the tasks interleave:
- each save replaces the entry that the task had loaded, so that none undoes another;
- while no answer is on its way and none was lost, the cached ticket can be redeemed;
- once an answer is lost, the cached ticket has been redeemed and no answer is on its way, and then nothing is saved any
  more;
- tasks that run one after the other, and lose no answer, call the service with tickets that it can redeem. -/
theorem rotation (now : ℤ) (cache : Option ε) {ops : List (Op ρ φ)}
    (h : Along (step C) (Rotating C) (init C now cache) ops) :
    let s := run (step C) (init C now cache) ops
    Replaces s ∧
      ((∀ k entry ticket memo r, s.pc k ≠ .answered entry ticket memo r) → s.lost = false →
        ∀ entry ∈ s.cache, ∀ t ∈ C.ticketOf entry, t ∉ s.spent) ∧
      (s.lost = true → Stuck C s) ∧
      (Stuck C s → ∀ more, Along (step C) (Rotating C) s more → (run (step C) s more).cache = s.cache) ∧
      (Along (step C) (Alone C) (init C now cache) ops → ∀ k entry ticket memo, s.pc k = .calling entry ticket memo →
        ticket ∉ s.spent) := by
  intro s
  have hinv : RotationInv C s := run_inv_of step_rotationInv (init_rotationInv now cache) h
  refine ⟨hinv.replaces, fun hquiet hlost entry hentry t ht => ?_, hinv.stuck,
    fun hstuck more hmore => hinv.stuck_final hstuck hmore, fun halone k entry ticket memo hk => ?_⟩
  · exact hinv.rotation.redeemable (quiet_toRotation hquiet) hlost entry hentry t ht
  · exact alone_unspent now cache (fun j hj => ⟨h j hj, halone j hj⟩) hk

end Renewal
