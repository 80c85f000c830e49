/-
`AIOHTTPSession` of `httpsession.py`, entered, with any number of `send` and `__aexit__` (or `close`) calls: a machine
whose operations are what one task does between two suspension points.

A client is an `aiohttp.ClientSession` with its connector, made together and numbered in the order of creation.
`_create_connector` suspends in `asyncio.to_thread`, if it goes there; `ClientSession.__aenter__` does not suspend, so
the client is made, entered and put into `_sessions` in one step. The connector keeps its number of connections within
`limit`, unless that is 0. An entered session is not entered again.

- `step_moves`: everything one operation does.
- `one_client_per_proxy`: one client for a proxy, in every run in which no send finds no client for a proxy while
  another is making one.
-/
import Mathlib.Tactic
import AioBotocore.Async.Count
import AioBotocore.Async.ExitStack
import AioBotocore.Async.Run

namespace AioBotocore.Http.Aiohttp

open Async Function

/-! ## Model -/

/-- the proxy of a request, if any -/
abbrev Proxy := Option String

def truthy : Option String → Bool
  | none => false
  | some s => s ≠ ""

structure Cfg where
  /-- the truth value of `verify` -/
  verify : Bool
  certFile : Option String
  maxPoolConnections : ℕ

/-- `_create_connector` builds the ssl contexts in a thread -/
def Cfg.inThread (cfg : Cfg) (p : Proxy) : Bool := cfg.verify || truthy cfg.certFile || truthy p

inductive Pc where
  | idle
  /-- a send in `asyncio.to_thread` -/
  | creating (proxy : Proxy)
  /-- in `session.request`, without a connection yet -/
  | requesting (id : ℕ)
  | connected (id : ℕ)
  /-- an exit in the `__aexit__` of a client; one before has raised -/
  | closing (id : ℕ) (failed : Bool)
  | exited
  | raised
deriving DecidableEq, Repr

def Pc.closing? : Pc → Option ℕ
  | .closing id _ => some id
  | _ => none

structure St where
  sessions : Option (Proxy → Option ℕ)
  /-- the proxies of the clients made so far -/
  clients : List Proxy
  exitStack : ExitStack ℕ
  connections : ℕ → ℕ
  pc : ℕ → Pc
  /-- how many exits have completed: returned, or raised what a client's `__aexit__` has raised -/
  completed : ℕ

inductive Op where
  /-- `built`: how `_build_ssl_contexts` ends if it does not run in a thread -/
  | send (k : ℕ) (proxy : Proxy) (built : Bool)
  /-- the thread is done -/
  | built (k : ℕ)
  /-- the thread or the request raises, or the task is cancelled -/
  | fails (k : ℕ)
  /-- the request gets a connection -/
  | connect (k : ℕ)
  | disconnect (id : ℕ)
  | exit (k : ℕ)
  /-- the `__aexit__` of a client returns, or raises -/
  | closed (k : ℕ) (ok : Bool)
deriving DecidableEq

/-- after `__aenter__` -/
def init : St := ⟨some fun _ => none, [], .empty, fun _ => 0, fun _ => .idle, 0⟩

def goto (s : St) (k : ℕ) (p : Pc) : St := { s with pc := update s.pc k p }

/-- the rest of `_get_session` once the contexts are built; an exited session takes the client and raises -/
def enterClient (s : St) (k : ℕ) (p : Proxy) : St :=
  let id := s.clients.length
  let s' := { s with clients := s.clients ++ [p], exitStack := s.exitStack.push id }
  match s.sessions with
  | some m => goto { s' with sessions := some (update m p (some id)) } k (.requesting id)
  | none => goto s' k .raised

/-- the loop of `AsyncExitStack.__aexit__` up to its next suspension, and the rest of `__aexit__` after it -/
def unwind (s : St) (k : ℕ) (failed : Bool) : St :=
  match s.exitStack.callbacks with
  | id :: _ => goto { s with exitStack := s.exitStack.pop } k (.closing id failed)
  | [] =>
    if failed then goto { s with completed := s.completed + 1 } k .raised
    else goto { s with sessions := none, completed := s.completed + 1 } k .exited

def step (cfg : Cfg) (s : St) : Op → St
  | .send k p built =>
    if s.pc k = .idle then
      match s.sessions with
      | none => goto s k .raised
      | some m =>
        match m p with
        | some id => goto s k (.requesting id)
        | none =>
          if cfg.inThread p then goto s k (.creating p)
          else if built then enterClient s k p
          else goto s k .raised
    else s
  | .built k =>
    match s.pc k with
    | .creating p => enterClient s k p
    | _ => s
  | .fails k =>
    match s.pc k with
    | .creating _ | .requesting _ => goto s k .raised
    | _ => s
  | .connect k =>
    match s.pc k with
    | .requesting id =>
      -- a client that is being closed takes no requests
      if id ∈ s.exitStack.callbacks ∧ (cfg.maxPoolConnections = 0 ∨ s.connections id < cfg.maxPoolConnections) then
        goto { s with connections := update s.connections id (s.connections id + 1) } k (.connected id)
      else s
    | _ => s
  | .disconnect id => { s with connections := update s.connections id (s.connections id - 1) }
  | .exit k =>
    if s.pc k = .idle then
      match s.sessions with
      | none => goto s k .raised
      | some _ => unwind { s with sessions := some fun _ => none } k false
    else s
  | .closed k ok =>
    match s.pc k with
    | .closing id failed => unwind { s with exitStack := s.exitStack.close id ok } k (failed || !ok)
    | _ => s

/-! ## What one operation does -/

inductive Moves (cfg : Cfg) (s : St) : Op → St → Prop
  | none (o : Op) : Moves cfg s o s
  /-- a send finds a client or raises -/
  | pass (o : Op) {k v} (hk : (s.pc k).closing? = .none) (hv : v.closing? = .none) (hnew : ∀ p, v ≠ .creating p) :
      Moves cfg s o (goto s k v)
  | create {k p m b} (hk : s.pc k = .idle) (hs : s.sessions = some m) (hp : m p = .none) (ht : cfg.inThread p) :
      Moves cfg s (.send k p b) (goto s k (.creating p))
  | enter {o k p m} (hk : s.pc k = .idle ∧ m p = .none ∧ o = .send k p true ∨ s.pc k = .creating p ∧ o = .built k)
      (hs : s.sessions = some m) :
      Moves cfg s o
        (goto { s with clients := s.clients ++ [p], exitStack := s.exitStack.push s.clients.length,
                       sessions := some (update m p (some s.clients.length)) } k (.requesting s.clients.length))
  | enterLate {k p} (hk : s.pc k = .creating p) (hs : s.sessions = .none) :
      Moves cfg s (.built k)
        (goto { s with clients := s.clients ++ [p], exitStack := s.exitStack.push s.clients.length } k .raised)
  | connect {k id} (hk : s.pc k = .requesting id)
      (hlimit : cfg.maxPoolConnections = 0 ∨ s.connections id < cfg.maxPoolConnections) :
      Moves cfg s (.connect k)
        (goto { s with connections := update s.connections id (s.connections id + 1) } k (.connected id))
  | disconnect {id} :
      Moves cfg s (.disconnect id) { s with connections := update s.connections id (s.connections id - 1) }
  | exit {k m} (hk : s.pc k = .idle) (hs : s.sessions = some m) :
      Moves cfg s (.exit k) (unwind { s with sessions := some fun _ => .none } k false)
  | closed {k id failed ok} (hk : s.pc k = .closing id failed) :
      Moves cfg s (.closed k ok) (unwind { s with exitStack := s.exitStack.close id ok } k (failed || !ok))

theorem enterClient_some {s : St} {m : Proxy → Option ℕ} (hs : s.sessions = some m) (k : ℕ) (p : Proxy) :
    enterClient s k p =
      goto { s with clients := s.clients ++ [p], exitStack := s.exitStack.push s.clients.length,
                    sessions := some (update m p (some s.clients.length)) } k (.requesting s.clients.length) := by
  simp only [enterClient, hs]

theorem enterClient_none {s : St} (hs : s.sessions = none) (k : ℕ) (p : Proxy) :
    enterClient s k p =
      goto { s with clients := s.clients ++ [p], exitStack := s.exitStack.push s.clients.length } k .raised := by
  simp only [enterClient, hs]

theorem step_moves (cfg : Cfg) (s : St) (o : Op) : Moves cfg s o (step cfg s o) := by
  cases o with
  | send k p b =>
    simp only [step]
    by_cases hk : s.pc k = .idle
    · rw [if_pos hk]
      cases hs : s.sessions with
      | none => exact .pass _ (by rw [hk]; rfl) rfl (by simp)
      | some m =>
        simp only
        cases hp : m p with
        | some id => exact .pass _ (by rw [hk]; rfl) rfl (by simp)
        | none =>
          simp only
          split_ifs with hthread hb
          · exact .create hk hs hp hthread
          · rw [enterClient_some hs]
            exact .enter (.inl ⟨hk, hp, by rw [hb]⟩) hs
          · exact .pass _ (by rw [hk]; rfl) rfl (by simp)
    · rw [if_neg hk]
      exact .none _
  | built k =>
    simp only [step]
    cases hk : s.pc k with
    | creating p =>
      simp only
      cases hs : s.sessions with
      | none =>
        rw [enterClient_none hs]
        exact .enterLate hk hs
      | some m =>
        rw [enterClient_some hs]
        exact .enter (.inr ⟨hk, rfl⟩) hs
    | _ => exact .none _
  | fails k =>
    simp only [step]
    cases hk : s.pc k with
    | creating p | requesting id => exact .pass _ (by rw [hk]; rfl) rfl (by simp)
    | _ => exact .none _
  | connect k =>
    simp only [step]
    cases hk : s.pc k with
    | requesting id =>
      simp only
      split_ifs with hlimit
      · exact .connect hk hlimit.2
      · exact .none _
    | _ => exact .none _
  | disconnect id => exact .disconnect
  | exit k =>
    simp only [step]
    by_cases hk : s.pc k = .idle
    · rw [if_pos hk]
      cases hs : s.sessions with
      | none => exact .pass _ (by rw [hk]; rfl) rfl (by simp)
      | some m => exact .exit hk hs
    · rw [if_neg hk]
      exact .none _
  | closed k ok =>
    simp only [step]
    cases hk : s.pc k with
    | closing id failed => exact .closed hk
    | _ => exact .none _

/-! ## One client for a proxy -/

def Op.isExit : Op → Bool
  | .exit _ => true
  | _ => false

/-- a send finds no client for its proxy while another is making one -/
def Races (s : St) : Op → Prop
  | .send k p _ => s.pc k = .idle ∧ (∃ m, s.sessions = some m ∧ m p = none) ∧ ∃ j, s.pc j = .creating p
  | _ => False

structure Single (s : St) : Prop where
  nodup : s.clients.Nodup
  known : ∀ m, s.sessions = some m → ∀ p ∈ s.clients, m p ≠ none
  absent : ∀ m, s.sessions = some m → ∀ k p, s.pc k = .creating p → m p = none
  alone : ∀ i j p, s.pc i = .creating p → s.pc j = .creating p → i = j
  entered : s.sessions ≠ none
  working : ∀ k, (s.pc k).closing? = none

theorem single_init : Single init := by
  constructor <;> simp [init, Pc.closing?]

theorem closing_update {pc : ℕ → Pc} (h : ∀ k, (pc k).closing? = none) {v : Pc} (hv : v.closing? = none) (k : ℕ) :
    ∀ i, (update pc k v i).closing? = none :=
  (forall_update_iff pc fun _ w => w.closing? = none).2 ⟨hv, fun i _ => h i⟩

/-- a task goes on that does not make a client -/
theorem Single.goOn {s s' : St} (h : Single s) {k : ℕ} {v : Pc} (hv : v.closing? = none) (hnew : ∀ p, v ≠ .creating p)
    (hpc : s'.pc = update s.pc k v) (hclients : s'.clients = s.clients) (hsessions : s'.sessions = s.sessions) :
    Single s' := by
  have hcreating : ∀ i p, s'.pc i = .creating p → s.pc i = .creating p := by
    intro i p hi
    rw [hpc] at hi
    exact ((update_at_iff (hnew p)).1 hi).2
  refine ⟨?_, ?_, ?_, ?_, ?_, ?_⟩
  · rw [hclients]
    exact h.nodup
  · rw [hclients, hsessions]
    exact h.known
  · rw [hsessions]
    exact fun m hm i p hi => h.absent m hm i p (hcreating i p hi)
  · exact fun i j p hi hj => h.alone i j p (hcreating i p hi) (hcreating j p hj)
  · rw [hsessions]
    exact h.entered
  · rw [hpc]
    exact closing_update h.working hv k

/-- a task begins to make a client for a proxy that has none, and nobody else makes one -/
theorem Single.creates {s : St} (h : Single s) {k : ℕ} {p : Proxy} {m : Proxy → Option ℕ} (hs : s.sessions = some m)
    (hp : m p = none) (hnobody : ∀ j, s.pc j ≠ .creating p) : Single (goto s k (.creating p)) := by
  have hother : ∀ i q, update s.pc k (.creating p) i = .creating q → i = k ∧ q = p ∨ q ≠ p ∧ s.pc i = .creating q := by
    intro i q hi
    by_cases hik : i = k
    · subst hik
      rw [update_self] at hi
      exact .inl ⟨rfl, (Pc.creating.inj hi).symm⟩
    · rw [update_of_ne hik] at hi
      refine .inr ⟨?_, hi⟩
      rintro rfl
      exact hnobody i hi
  refine ⟨h.nodup, h.known, ?_, ?_, h.entered, closing_update h.working rfl k⟩
  · intro m' hm' i q hi
    rcases hother i q hi with ⟨-, rfl⟩ | ⟨-, hq⟩
    · obtain rfl := Option.some.inj (hs.symm.trans hm')
      exact hp
    · exact h.absent m' hm' i q hq
  · intro i j q hi hj
    rcases hother i q hi with ⟨rfl, rfl⟩ | ⟨hqp, hi⟩
    · rcases hother j q hj with ⟨rfl, -⟩ | ⟨hqp, -⟩
      · rfl
      · exact absurd rfl hqp
    · rcases hother j q hj with ⟨-, rfl⟩ | ⟨-, hj⟩
      · exact absurd rfl hqp
      · exact h.alone i j q hi hj

/-- the client is made -/
theorem Single.enters {s : St} (h : Single s) {k : ℕ} {p : Proxy} {m : Proxy → Option ℕ} (hs : s.sessions = some m)
    (hp : m p = none) (hnobody : ∀ j, j ≠ k → s.pc j ≠ .creating p) : Single (enterClient s k p) := by
  have hnew : p ∉ s.clients := fun hmem => h.known m hs p hmem hp
  rw [enterClient_some hs]
  refine ⟨?_, ?_, ?_, ?_, by simp [goto], closing_update h.working rfl k⟩
  · exact List.nodup_append.2 ⟨h.nodup, List.nodup_singleton p, fun a ha b hb heq => by
      rw [List.mem_singleton.1 hb] at heq
      exact hnew (heq ▸ ha)⟩
  · intro m' hm' q hq
    obtain rfl := Option.some.inj hm'
    by_cases hqp : q = p
    · subst hqp
      simp
    · rw [update_of_ne hqp]
      apply h.known m hs q
      simpa [goto, hqp] using hq
  · intro m' hm' i q hi
    obtain rfl := Option.some.inj hm'
    obtain ⟨hik, hi⟩ := (update_at_iff (by simp)).1 hi
    have hqp : q ≠ p := by
      rintro rfl
      exact hnobody i hik hi
    rw [update_of_ne hqp]
    exact h.absent m hs i q hi
  · intro i j q hi hj
    exact h.alone i j q ((update_at_iff (by simp)).1 hi).2 ((update_at_iff (by simp)).1 hj).2

theorem step_single (cfg : Cfg) (s : St) (o : Op) (h : Single s) (hg : o.isExit = false ∧ ¬ Races s o) :
    Single (step cfg s o) := by
  have hmoves := step_moves cfg s o
  generalize step cfg s o = s' at hmoves ⊢
  cases hmoves with
  | none => exact h
  | pass o hk hv hnew => exact h.goOn hv hnew rfl rfl rfl
  | @create k p m b hk hs hp => exact h.creates hs hp fun j hj => hg.2 ⟨hk, ⟨m, hs, hp⟩, j, hj⟩
  | @enter o k p m hk hs =>
    have hp : m p = .none := by
      rcases hk with ⟨-, hp, -⟩ | ⟨hk, -⟩
      · exact hp
      · exact h.absent m hs k p hk
    have hnobody : ∀ j, j ≠ k → s.pc j ≠ .creating p := by
      intro j hjk hj
      rcases hk with ⟨hk, -, rfl⟩ | ⟨hk, -⟩
      · exact hg.2 ⟨hk, ⟨m, hs, hp⟩, j, hj⟩
      · exact hjk (h.alone j k p hj hk)
    rw [← enterClient_some hs]
    exact h.enters hs hp hnobody
  | enterLate hk hs => exact absurd hs h.entered
  | connect hk hlimit => exact h.goOn rfl (by simp) rfl rfl rfl
  | disconnect => exact ⟨h.nodup, h.known, h.absent, h.alone, h.entered, h.working⟩
  | exit hk hs => exact absurd hg.1 (by simp [Op.isExit])
  | @closed k id failed ok hk =>
    have hnone := h.working k
    rw [hk] at hnone
    cases hnone

/-! ## Connections -/

def WithinLimit (cfg : Cfg) (s : St) : Prop :=
  cfg.maxPoolConnections ≠ 0 → ∀ id, s.connections id ≤ cfg.maxPoolConnections

theorem unwind_connections (s : St) (k : ℕ) (failed : Bool) : (unwind s k failed).connections = s.connections := by
  unfold unwind
  split
  · rfl
  · split <;> rfl

theorem step_withinLimit (cfg : Cfg) (s : St) (o : Op) (h : WithinLimit cfg s) : WithinLimit cfg (step cfg s o) := by
  have hmoves := step_moves cfg s o
  generalize step cfg s o = s' at hmoves ⊢
  cases hmoves with
  | @connect k id hk hlimit =>
    intro hpos i
    by_cases hi : i = id
    · subst hi
      simpa [goto] using hlimit.resolve_left hpos
    · simpa [goto, hi] using h hpos i
  | @disconnect id =>
    intro hpos i
    by_cases hi : i = id
    · subst hi
      simpa using (h hpos i).trans (Nat.le_add_right _ 1)
    · simpa [hi] using h hpos i
  | exit hk hs =>
    simpa only [WithinLimit, unwind_connections] using h
  | closed hk =>
    simpa only [WithinLimit, unwind_connections] using h
  | _ => exact h

/-- the connections of all clients made for a proxy -/
def connectionsTo (s : St) (p : Proxy) : ℕ :=
  ∑ id ∈ (Finset.range s.clients.length).filter fun id => s.clients[id]? = some p, s.connections id

theorem connectionsTo_le {s : St} (hn : s.clients.Nodup) {limit : ℕ} (h : ∀ id, s.connections id ≤ limit) (p : Proxy) :
    connectionsTo s p ≤ limit := by
  have hcard : ((Finset.range s.clients.length).filter fun id => s.clients[id]? = some p).card ≤ 1 := by
    rw [Finset.card_le_one]
    intro i hi j hj
    obtain ⟨hlt, hi⟩ := Finset.mem_filter.1 hi
    obtain ⟨-, hj⟩ := Finset.mem_filter.1 hj
    exact (List.getElem?_inj (Finset.mem_range.1 hlt) hn).1 (hi.trans hj.symm)
  calc connectionsTo s p
      ≤ ((Finset.range s.clients.length).filter fun id => s.clients[id]? = some p).card • limit :=
        Finset.sum_le_card_nsmul _ _ _ fun id _ => h id
    _ ≤ 1 • limit := by gcongr
    _ = limit := one_nsmul limit

/-- **One pool for a proxy.** For any sends in any interleaving, with no exit: if no send finds no client for its proxy
while another is making one, then at most one client, with its connector, is ever made for a proxy, and there are never
more than `max_pool_connections` connections to it, unless that is 0. -/
theorem one_client_per_proxy (cfg : Cfg) (ops : List Op) (hopen : ∀ o ∈ ops, o.isExit = false)
    (h : Along (step cfg) (fun s o => ¬ Races s o) init ops) :
    let s := run (step cfg) init ops
    ∀ p, s.clients.count p ≤ 1 ∧ (cfg.maxPoolConnections ≠ 0 → connectionsTo s p ≤ cfg.maxPoolConnections) := by
  intro s p
  have hsingle : Single s :=
    run_inv_of (step_single cfg) single_init fun j hj => ⟨hopen _ (List.getElem_mem hj), h j hj⟩
  have hlimit : WithinLimit cfg s := by
    refine run_inv (step_withinLimit cfg) ?_ ops
    simp [WithinLimit, init]
  exact ⟨List.nodup_iff_count_le_one.1 hsingle.nodup p, fun hpos => connectionsTo_le hsingle.nodup (hlimit hpos) p⟩

/-- the second send comes when the first has its client, and waits for the one connection -/
theorem one_client_per_proxy_two :
    let s := run (step ⟨true, none, 1⟩) init
      [.send 0 none true, .built 0, .send 1 none true, .connect 0, .connect 1]
    ∀ p, s.clients.count p ≤ 1 ∧ ((1 : ℕ) ≠ 0 → connectionsTo s p ≤ 1) := by
  refine one_client_per_proxy ⟨true, none, 1⟩
    [.send 0 none true, .built 0, .send 1 none true, .connect 0, .connect 1] (by decide) ?_
  simp [along_cons, Races, init, step, Cfg.inThread, goto, enterClient, ExitStack.push, ExitStack.empty]

/-- sends that race make a client each -/
theorem race_makes_two (cfg : Cfg) (s : St) {i j : ℕ} {p : Proxy} (hij : i ≠ j) (hi : s.pc i = .creating p)
    (hj : s.pc j = .creating p) : (run (step cfg) s [.built i, .built j]).clients = s.clients ++ [p, p] := by
  have henter : ∀ (s : St) (k : ℕ), (enterClient s k p).clients = s.clients ++ [p] ∧
      ∃ v, (enterClient s k p).pc = update s.pc k v := by
    intro s k
    cases hs : s.sessions with
    | none =>
      rw [enterClient_none hs]
      exact ⟨rfl, _, rfl⟩
    | some m =>
      rw [enterClient_some hs]
      exact ⟨rfl, _, rfl⟩
  obtain ⟨hclients, v, hpc⟩ := henter s i
  have hj' : (enterClient s i p).pc j = .creating p := by rw [hpc, update_of_ne hij.symm, hj]
  simp only [run_cons, run_nil, step, hi, hj']
  rw [(henter _ j).1, hclients, List.append_assoc]
  rfl

/-- two first sends in the thread at the same time: each makes a client, and each client has its own limit -/
theorem first_sends_make_two_clients :
    let s := run (step ⟨true, none, 1⟩) init
      [.send 0 none true, .send 1 none true, .built 0, .built 1, .connect 0, .connect 1]
    s.clients = [none, none] ∧ connectionsTo s none = 2 := by
  decide

end AioBotocore.Http.Aiohttp
