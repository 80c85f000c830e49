/-
The loop of `AioEndpoint._send_request` for any handlers of its events. What the loop calls is an `Env`: the handlers of
`request-created`, `before-send`, `response-received` and `needs-retry`, the session that sends, the parser and the
sleep. Each acts on a world, may raise, and the handlers that are given the parsed response may write to it.

The run keeps a log of the requests created and reset, of the attempts and of the answers to `needs-retry`. An attempt is
one call of `_get_response`; it is an HTTP send unless a handler of `before-send` answers or raises.

- `loop_log`: the log of a loop that ended, and what its last attempt left.
- `send_request_accounting`: attempts, resets, new requests, the result and `RetryAttempts` of a loop that ended.
- `before_send_answers`: an attempt that is no HTTP send.
-/
import Mathlib.Tactic

namespace AioBotocore.RetryLoop

variable {σ ρ δ ε α β : Type}

/-! ## Responses and answers -/

/-- `ResponseMetadata` -/
structure Metadata (δ : Type*) where
  retryAttempts : Option ℕ
  rest : δ
deriving DecidableEq, Repr

/-- `parsed_dict` -/
structure Parsed (δ : Type*) where
  responseMetadata : Option (Metadata δ)
  rest : δ
deriving DecidableEq, Repr

/-- `success_response` -/
structure Response (ρ δ : Type*) where
  http : ρ
  parsed : Parsed δ
deriving DecidableEq, Repr

/-- what a handler of `needs-retry` returns that is not `None` -/
inductive Answer where
  /-- `False` -/
  | no
  /-- any other value, 0 too -/
  | wait (seconds : ℚ)
deriving DecidableEq, Repr

/-- an event whose handlers were given the parsed response: what they return, and what they made of it -/
structure Emitted (α σ δ ε : Type*) where
  returns : Except ε α
  edit : Parsed δ → Parsed δ
  world : σ

/-- what the loop calls; a request is known by its number -/
structure Env (σ ρ δ ε : Type*) where
  /-- the exception is an `Exception`, and not a cancellation -/
  isException : ε → Bool
  /-- `create_request` -/
  create : ℕ → σ → Except ε Unit × σ
  /-- the handlers of `before-send` -/
  beforeSend : ℕ → σ → Except ε (List (Option ρ)) × σ
  /-- `http_session.send` -/
  send : ℕ → σ → Except ε ρ × σ
  /-- `_do_get_response` once it has a response -/
  parse : ρ → σ → Except ε (Parsed δ) × σ
  /-- `_get_response` after `_do_get_response`: the handlers of `response-received` -/
  responseReceived : Option (Response ρ δ) → Option ε → σ → Emitted Unit σ δ ε
  /-- the handlers of `needs-retry` -/
  needsRetry : ℕ → Option (Response ρ δ) → Option ε → σ → Emitted (List (Option Answer)) σ δ ε
  sleep : ℚ → σ → Except ε Unit × σ
  resetStream : ℕ → σ → Except ε Unit × σ

/-! ## Model -/

inductive Event (ρ ε : Type*) where
  | created (request : ℕ)
  /-- `_get_response`; `sent` if `_send` was called -/
  | attempt (request : ℕ) (sent : Bool) (result : Except ε ρ)
  /-- what `first_non_none_response` makes of the answers -/
  | answer (a : Option Answer)
  | reset (request : ℕ)

/-- the variables of `_send_request` -/
structure St (σ ρ δ ε : Type*) where
  world : σ
  attempts : ℕ
  /-- `context['retries']['attempt']` -/
  contextAttempt : ℕ
  request : ℕ
  /-- how many requests were created -/
  requests : ℕ
  success : Option (Response ρ δ)
  exception : Option ε
  log : List (Event ρ ε)

def start (w : σ) : St σ ρ δ ε := ⟨w, 1, 0, 0, 0, none, none, []⟩

/-- a call of the environment -/
def call (f : σ → Except ε α × σ) : EStateM ε (St σ ρ δ ε) α := fun s =>
  match f s.world with
  | (.error e, w) => .error e { s with world := w }
  | (.ok a, w) => .ok a { s with world := w }

/-- handlers that are given `success` and `exception` -/
def emit (f : Option (Response ρ δ) → Option ε → σ → Emitted α σ δ ε) : EStateM ε (St σ ρ δ ε) α := fun s =>
  let x := f s.success s.exception s.world
  let s := { s with world := x.world, success := s.success.map fun r => { r with parsed := x.edit r.parsed } }
  match x.returns with
  | .error e => .error e s
  | .ok a => .ok a s

def note (x : Event ρ ε) : EStateM ε (St σ ρ δ ε) Unit := modify fun s => { s with log := s.log ++ [x] }

def firstNonNoneResponse (responses : List (Option α)) : Option α := responses.findSome? id

/-- `_update_retries_context` -/
def updateRetriesContext : EStateM ε (St σ ρ δ ε) Unit := modify fun s => { s with contextAttempt := s.attempts }

def createRequest (E : Env σ ρ δ ε) : EStateM ε (St σ ρ δ ε) Unit := do
  let s ← get
  call (E.create s.requests)
  modify fun t => { t with request := s.requests, requests := s.requests + 1 }
  note (.created s.requests)

/-- the `try` of `_do_get_response` -/
structure Exchange (σ ρ ε : Type*) where
  /-- `_send` was called -/
  sent : Bool
  result : Except ε ρ
  world : σ

def exchange (E : Env σ ρ δ ε) (request : ℕ) (w : σ) : Exchange σ ρ ε :=
  match E.beforeSend request w with
  | (.error e, w) => ⟨false, .error e, w⟩
  | (.ok responses, w) =>
    match firstNonNoneResponse responses with
    | some http => ⟨false, .ok http, w⟩
    | none => ⟨true, (E.send request w).1, (E.send request w).2⟩

/-- the `except` clauses, or the parsing of the response -/
def conclude (E : Env σ ρ δ ε) : Except ε ρ → EStateM ε (St σ ρ δ ε) Unit
  | .error e =>
    if E.isException e then modify fun s => { s with success := none, exception := some e }
    else throw e
  | .ok http => do
    let parsed ← call (E.parse http)
    modify fun s => { s with success := some ⟨http, parsed⟩, exception := none }

def doGetResponse (E : Env σ ρ δ ε) : EStateM ε (St σ ρ δ ε) Unit := do
  let s ← get
  let x := exchange E s.request s.world
  modify fun s => { s with world := x.world }
  note (.attempt s.request x.sent x.result)
  conclude E x.result

def getResponse (E : Env σ ρ δ ε) : EStateM ε (St σ ρ δ ε) Unit := do
  doGetResponse E
  emit E.responseReceived

def needsRetry (E : Env σ ρ δ ε) : EStateM ε (St σ ρ δ ε) Bool := do
  let s ← get
  let responses ← emit (E.needsRetry s.attempts)
  let handlerResponse := firstNonNoneResponse responses
  note (.answer handlerResponse)
  match handlerResponse with
  | some (.wait seconds) => do
    call (E.sleep seconds)
    return true
  | _ => return false

/-- the body of the loop -/
def retry (E : Env σ ρ δ ε) : EStateM ε (St σ ρ δ ε) Unit := do
  modify fun s => { s with attempts := s.attempts + 1 }
  updateRetriesContext
  let s ← get
  call (E.resetStream s.request)
  note (.reset s.request)
  createRequest E
  getResponse E

def shareRetries (attempts : ℕ) (r : Response ρ δ) : Response ρ δ :=
  { r with parsed := { r.parsed with
      responseMetadata := r.parsed.responseMetadata.map fun m => { m with retryAttempts := some (attempts - 1) } } }

/-- after the loop -/
def finish (s : St σ ρ δ ε) : Except ε (Option (Response ρ δ)) :=
  match s.exception with
  | some e => .error e
  | none => .ok (s.success.map (shareRetries s.attempts))

/-- `none` if the fuel runs out; an exception out of a round is an error of the monad -/
def loop (E : Env σ ρ δ ε) : ℕ → EStateM ε (St σ ρ δ ε) (Option (Except ε (Option (Response ρ δ))))
  | 0 => return none
  | fuel + 1 => do
    if ← needsRetry E then
      retry E
      loop E fuel
    else
      return some (finish (← get))

def sendRequest (E : Env σ ρ δ ε) (fuel : ℕ) : EStateM ε (St σ ρ δ ε) (Option (Except ε (Option (Response ρ δ)))) := do
  updateRetriesContext
  createRequest E
  getResponse E
  loop E fuel

/-! ## What each part does when nothing is raised out of it -/

theorem bind_ok {x : EStateM ε (St σ ρ δ ε) α} {f : α → EStateM ε (St σ ρ δ ε) β} {s t : St σ ρ δ ε} {b : β}
    (h : (x >>= f) s = .ok b t) : ∃ a s', x s = .ok a s' ∧ f a s' = .ok b t := by
  simp only [bind, EStateM.bind] at h
  cases hx : x s with
  | ok a s' => exact ⟨a, s', rfl, by rw [hx] at h; exact h⟩
  | error e s' => rw [hx] at h; cases h

theorem get_eq (s : St σ ρ δ ε) : (get : EStateM ε (St σ ρ δ ε) (St σ ρ δ ε)) s = .ok s s := rfl

theorem modify_eq (f : St σ ρ δ ε → St σ ρ δ ε) (s : St σ ρ δ ε) :
    (modify f : EStateM ε (St σ ρ δ ε) PUnit) s = .ok ⟨⟩ (f s) := rfl

theorem call_ok {f : σ → Except ε α × σ} {s t : St σ ρ δ ε} {a : α} (h : call f s = .ok a t) :
    ∃ w, t = { s with world := w } := by
  unfold call at h
  split at h
  · cases h
  · cases h
    exact ⟨_, rfl⟩

theorem emit_ok {f : Option (Response ρ δ) → Option ε → σ → Emitted α σ δ ε} {s t : St σ ρ δ ε} {a : α}
    (h : emit f s = .ok a t) :
    ∃ w, ∃ edit : Parsed δ → Parsed δ,
      t = { s with world := w, success := s.success.map fun r => { r with parsed := edit r.parsed } } := by
  unfold emit at h
  simp only at h
  split at h
  · cases h
  · cases h
    exact ⟨_, _, rfl⟩

theorem createRequest_ok {E : Env σ ρ δ ε} {s t : St σ ρ δ ε} (h : createRequest E s = .ok () t) :
    ∃ w, t = { s with world := w, request := s.requests, requests := s.requests + 1,
                      log := s.log ++ [.created s.requests] } := by
  obtain ⟨_, _, hget, h⟩ := bind_ok h
  cases hget
  obtain ⟨_, s', hcall, h⟩ := bind_ok h
  obtain ⟨w, rfl⟩ := call_ok hcall
  cases h
  exact ⟨w, rfl⟩

/-- the variables hold the result of an attempt, and of no other -/
def Leaves (result : Except ε ρ) (s : St σ ρ δ ε) : Prop :=
  match result with
  | .ok http => s.exception = none ∧ s.success.map Response.http = some http
  | .error e => s.exception = some e ∧ s.success = none

/-- what happens on the request at hand -/
structure Continues (s t : St σ ρ δ ε) (events : List (Event ρ ε)) : Prop where
  log : t.log = s.log ++ events
  attempts : t.attempts = s.attempts
  contextAttempt : t.contextAttempt = s.contextAttempt
  request : t.request = s.request
  requests : t.requests = s.requests

theorem conclude_ok {E : Env σ ρ δ ε} {s t : St σ ρ δ ε} {result : Except ε ρ} (h : conclude E result s = .ok () t) :
    Continues s t [] ∧ Leaves result t := by
  cases result with
  | error e =>
    by_cases hcaught : E.isException e
    · rw [conclude, if_pos hcaught] at h
      cases h
      exact ⟨⟨(List.append_nil _).symm, rfl, rfl, rfl, rfl⟩, rfl, rfl⟩
    · rw [conclude, if_neg hcaught] at h
      cases h
  | ok http =>
    obtain ⟨parsed, _, hparse, h⟩ := bind_ok h
    obtain ⟨w, rfl⟩ := call_ok hparse
    cases h
    exact ⟨⟨(List.append_nil _).symm, rfl, rfl, rfl, rfl⟩, rfl, rfl⟩

/-- no handler of `before-send` answers or raises -/
def Silent (E : Env σ ρ δ ε) : Prop :=
  ∀ request w, ∃ responses w', E.beforeSend request w = (.ok responses, w') ∧ firstNonNoneResponse responses = none

theorem exchange_sent {E : Env σ ρ δ ε} (hsilent : Silent E) (request : ℕ) (w : σ) :
    (exchange E request w).sent = true := by
  obtain ⟨responses, w', hbefore, hnone⟩ := hsilent request w
  simp only [exchange, hbefore, hnone]

theorem doGetResponse_ok {E : Env σ ρ δ ε} {s t : St σ ρ δ ε} (h : doGetResponse E s = .ok () t) :
    ∃ sent result, Continues s t [.attempt s.request sent result] ∧ Leaves result t ∧ (Silent E → sent = true) := by
  obtain ⟨_, _, hget, h⟩ := bind_ok h
  cases hget
  obtain ⟨_, _, hworld, h⟩ := bind_ok h
  cases hworld
  obtain ⟨_, _, hnote, h⟩ := bind_ok h
  cases hnote
  obtain ⟨hsame, hleaves⟩ := conclude_ok h
  refine ⟨(exchange E s.request s.world).sent, (exchange E s.request s.world).result,
    ⟨hsame.log.trans (List.append_nil _), hsame.attempts, hsame.contextAttempt, hsame.request, hsame.requests⟩, hleaves,
    fun hsilent => exchange_sent hsilent _ _⟩

/-- handlers may write to the parsed response, and change neither the response nor the exception -/
theorem emit_leaves {f : Option (Response ρ δ) → Option ε → σ → Emitted α σ δ ε} {s t : St σ ρ δ ε} {a : α}
    {result : Except ε ρ} (h : emit f s = .ok a t) (hleaves : Leaves result s) :
    Continues s t [] ∧ Leaves result t := by
  obtain ⟨w, edit, rfl⟩ := emit_ok h
  refine ⟨⟨(List.append_nil _).symm, rfl, rfl, rfl, rfl⟩, ?_⟩
  cases result with
  | error e =>
    obtain ⟨hexception, hsuccess⟩ := hleaves
    exact ⟨hexception, by simp [hsuccess]⟩
  | ok http =>
    obtain ⟨hexception, hsuccess⟩ := hleaves
    exact ⟨hexception, by simpa [Option.map_map, Function.comp_def] using hsuccess⟩

theorem getResponse_ok {E : Env σ ρ δ ε} {s t : St σ ρ δ ε} (h : getResponse E s = .ok () t) :
    ∃ sent result, Continues s t [.attempt s.request sent result] ∧ Leaves result t ∧ (Silent E → sent = true) := by
  obtain ⟨_, s', hattempt, h⟩ := bind_ok h
  obtain ⟨sent, result, hcontinues, hleaves, hsent⟩ := doGetResponse_ok hattempt
  obtain ⟨hsame, hleaves⟩ := emit_leaves h hleaves
  refine ⟨sent, result, ⟨?_, ?_, ?_, ?_, ?_⟩, hleaves, hsent⟩
  · rw [hsame.log, hcontinues.log, List.append_nil]
  · rw [hsame.attempts, hcontinues.attempts]
  · rw [hsame.contextAttempt, hcontinues.contextAttempt]
  · rw [hsame.request, hcontinues.request]
  · rw [hsame.requests, hcontinues.requests]

theorem needsRetry_ok {E : Env σ ρ δ ε} {s t : St σ ρ δ ε} {again : Bool} {result : Except ε ρ}
    (h : needsRetry E s = .ok again t) (hleaves : Leaves result s) :
    ∃ a, Continues s t [.answer a] ∧ Leaves result t ∧ (again = true ↔ ∃ seconds, a = some (.wait seconds)) := by
  obtain ⟨_, _, hget, h⟩ := bind_ok h
  cases hget
  obtain ⟨responses, s', hemit, h⟩ := bind_ok h
  obtain ⟨hsame, hleaves⟩ := emit_leaves hemit hleaves
  obtain ⟨_, _, hnote, h⟩ := bind_ok h
  cases hnote
  have hlog : Continues s { s' with log := s'.log ++ [.answer (firstNonNoneResponse responses)] }
      [.answer (firstNonNoneResponse responses)] :=
    ⟨by simp [hsame.log], hsame.attempts, hsame.contextAttempt, hsame.request, hsame.requests⟩
  refine ⟨firstNonNoneResponse responses, ?_⟩
  generalize firstNonNoneResponse responses = a at *
  cases a with
  | none =>
    cases h
    exact ⟨hlog, hleaves, by simp⟩
  | some a =>
    cases a with
    | no =>
      cases h
      exact ⟨hlog, hleaves, by simp⟩
    | wait seconds =>
      obtain ⟨_, _, hsleep, h⟩ := bind_ok h
      obtain ⟨w, rfl⟩ := call_ok hsleep
      cases h
      exact ⟨⟨hlog.log, hlog.attempts, hlog.contextAttempt, hlog.request, hlog.requests⟩, hleaves, by simp⟩

/-- the requests are numbered, and `request` is the last one -/
structure Numbered (n : ℕ) (s : St σ ρ δ ε) : Prop where
  attempts : s.attempts = n + 1
  contextAttempt : s.contextAttempt = n + 1
  request : s.request = n
  requests : s.requests = n + 1

theorem Continues.numbered {s t : St σ ρ δ ε} {events : List (Event ρ ε)} {n : ℕ} (h : Continues s t events)
    (hn : Numbered n s) : Numbered n t :=
  ⟨h.attempts.trans hn.attempts, h.contextAttempt.trans hn.contextAttempt, h.request.trans hn.request,
    h.requests.trans hn.requests⟩

theorem retry_ok {E : Env σ ρ δ ε} {s t : St σ ρ δ ε} {n : ℕ} (h : retry E s = .ok () t) (hn : Numbered n s) :
    ∃ sent result, t.log = s.log ++ [.reset n, .created (n + 1), .attempt (n + 1) sent result] ∧
      Numbered (n + 1) t ∧ Leaves result t ∧ (Silent E → sent = true) := by
  obtain ⟨_, _, hattempts, h⟩ := bind_ok h
  cases hattempts
  obtain ⟨_, _, hcontext, h⟩ := bind_ok h
  cases hcontext
  obtain ⟨_, _, hget, h⟩ := bind_ok h
  cases hget
  obtain ⟨_, _, hreset, h⟩ := bind_ok h
  obtain ⟨w, rfl⟩ := call_ok hreset
  obtain ⟨_, _, hnote, h⟩ := bind_ok h
  cases hnote
  obtain ⟨_, _, hcreate, h⟩ := bind_ok h
  obtain ⟨w', rfl⟩ := createRequest_ok hcreate
  obtain ⟨sent, result, hcontinues, hleaves, hsent⟩ := getResponse_ok h
  refine ⟨sent, result, ?_, hcontinues.numbered ⟨?_, ?_, ?_, ?_⟩, hleaves, hsent⟩
  · rw [hcontinues.log]
    simp [hn.request, hn.requests]
  · simp [hn.attempts]
  · simp [hn.attempts]
  · simp [hn.requests]
  · simp [hn.requests]

/-! ## A loop that ended -/

/-- a retry and the attempt it makes -/
structure Round (ρ ε : Type*) where
  seconds : ℚ
  sent : Bool
  result : Except ε ρ

/-- the log from the answer to request `n` on: the rounds, and the answer that stops the loop -/
def history : ℕ → List (Round ρ ε) → Option Answer → List (Event ρ ε)
  | _, [], stop => [.answer stop]
  | n, r :: rounds, stop =>
    [.answer (some (.wait r.seconds)), .reset n, .created (n + 1), .attempt (n + 1) r.sent r.result] ++
      history (n + 1) rounds stop

/-- `None` and `False` -/
def Stops (a : Option Answer) : Prop := a = none ∨ a = some .no

def lastResult (first : Except ε ρ) (rounds : List (Round ρ ε)) : Except ε ρ :=
  (rounds.getLast?.map Round.result).getD first

theorem lastResult_cons (first : Except ε ρ) (r : Round ρ ε) (rounds : List (Round ρ ε)) :
    lastResult first (r :: rounds) = lastResult r.result rounds := by
  cases rounds <;> simp [lastResult, List.getLast?_cons]

theorem stops_of_not_again {a : Option Answer} (h : ¬ ∃ seconds, a = some (.wait seconds)) : Stops a := by
  cases a with
  | none => exact .inl rfl
  | some a =>
    cases a with
    | no => exact .inr rfl
    | wait seconds => exact absurd ⟨seconds, rfl⟩ h

/-- the rounds of a loop, by induction on its fuel; each leaves its own result behind -/
theorem loop_log (E : Env σ ρ δ ε) {fuel n : ℕ} {s t : St σ ρ δ ε} {result : Except ε ρ}
    {out : Except ε (Option (Response ρ δ))} (h : loop E fuel s = .ok (some out) t) (hn : Numbered n s)
    (hleaves : Leaves result s) :
    ∃ rounds stop, Stops stop ∧ t.log = s.log ++ history n rounds stop ∧ Numbered (n + rounds.length) t ∧
      Leaves (lastResult result rounds) t ∧ out = finish t ∧ (Silent E → ∀ r ∈ rounds, r.sent = true) := by
  induction fuel generalizing n s result with
  | zero => cases h
  | succ fuel ih =>
    rw [loop] at h
    obtain ⟨again, u, hneeds, h⟩ := bind_ok h
    obtain ⟨a, hcontinues, hleaves, hagain⟩ := needsRetry_ok hneeds hleaves
    have hnumbered := hcontinues.numbered hn
    cases again with
    | false =>
      obtain ⟨_, _, hget, h⟩ := bind_ok h
      cases hget
      cases h
      exact ⟨[], a, stops_of_not_again fun hwait => by simpa using hagain.2 hwait, hcontinues.log, hnumbered, hleaves,
        rfl, by simp⟩
    | true =>
      obtain ⟨seconds, rfl⟩ := hagain.1 rfl
      obtain ⟨_, v, hretry, h⟩ := bind_ok h
      obtain ⟨sent, result', hlog, hnumbered', hleaves', hsent⟩ := retry_ok hretry hnumbered
      obtain ⟨rounds, stop, hstop, hlog', hnumbered'', hleaves'', hout, hsents⟩ := ih h hnumbered' hleaves'
      refine ⟨⟨seconds, sent, result'⟩ :: rounds, stop, hstop, ?_, ?_, ?_, hout,
        fun hsilent => List.forall_mem_cons.2 ⟨hsent hsilent, hsents hsilent⟩⟩
      · rw [hlog', hlog, hcontinues.log, history]
        simp
      · simpa [Nat.add_assoc, Nat.add_comm 1] using hnumbered''
      · rwa [lastResult_cons]

theorem send_request_log (E : Env σ ρ δ ε) {fuel : ℕ} {w : σ} {t : St σ ρ δ ε} {out : Except ε (Option (Response ρ δ))}
    (h : sendRequest E fuel (start w) = .ok (some out) t) :
    ∃ sent first rounds stop, Stops stop ∧
      t.log = [.created 0, .attempt 0 sent first] ++ history 0 rounds stop ∧ Numbered rounds.length t ∧
      Leaves (lastResult first rounds) t ∧ out = finish t ∧
      (Silent E → sent = true ∧ ∀ r ∈ rounds, r.sent = true) := by
  obtain ⟨_, _, hcontext, h⟩ := bind_ok h
  cases hcontext
  obtain ⟨_, _, hcreate, h⟩ := bind_ok h
  obtain ⟨w', rfl⟩ := createRequest_ok hcreate
  obtain ⟨_, u, hget, h⟩ := bind_ok h
  obtain ⟨sent, first, hcontinues, hleaves, hsent⟩ := getResponse_ok hget
  obtain ⟨rounds, stop, hstop, hlog, hnumbered, hleaves', hout, hsents⟩ :=
    loop_log E h (hcontinues.numbered ⟨rfl, rfl, rfl, rfl⟩) hleaves
  refine ⟨sent, first, rounds, stop, hstop, ?_, by simpa using hnumbered, hleaves', hout,
    fun hsilent => ⟨hsent hsilent, hsents hsilent⟩⟩
  rw [hlog, hcontinues.log]
  simp [start]

/-! ## Accounting -/

def Event.isAttempt : Event ρ ε → Bool
  | .attempt .. => true
  | _ => false

/-- an attempt that calls `_send` -/
def Event.isSend : Event ρ ε → Bool
  | .attempt _ sent _ => sent
  | _ => false

/-- an answer by which the request is sent again -/
def Event.isRetry : Event ρ ε → Bool
  | .answer (some (.wait _)) => true
  | _ => false

def sends (log : List (Event ρ ε)) : ℕ := log.countP Event.isSend

def attempts (log : List (Event ρ ε)) : ℕ := log.countP Event.isAttempt

def retries (log : List (Event ρ ε)) : ℕ := log.countP Event.isRetry

theorem history_counts (n : ℕ) (rounds : List (Round ρ ε)) {stop : Option Answer} (hstop : Stops stop) :
    attempts (history n rounds stop) = rounds.length ∧ retries (history n rounds stop) = rounds.length ∧
      sends (history n rounds stop) = rounds.countP Round.sent := by
  induction rounds generalizing n with
  | nil => rcases hstop with rfl | rfl <;> exact ⟨rfl, rfl, rfl⟩
  | cons r rounds ih =>
    obtain ⟨hattempts, hretries, hsends⟩ := ih (n + 1)
    simp only [attempts, retries, sends] at hattempts hretries hsends ⊢
    refine ⟨?_, ?_, ?_⟩
    · simp [history, List.countP_cons, Event.isAttempt, hattempts]
    · simp [history, List.countP_cons, Event.isRetry, hretries]
    · simp [history, List.countP_cons, Event.isSend, hsends]
      rfl

/-- what `_send_request` makes of the result of an attempt after `n` retries -/
def Outcome (n : ℕ) (result : Except ε ρ) (out : Except ε (Option (Response ρ δ))) : Prop :=
  match result with
  | .error e => out = .error e
  | .ok http => ∃ parsed, out = .ok (some ⟨http, parsed⟩) ∧
      ∀ m, parsed.responseMetadata = some m → m.retryAttempts = some n

theorem finish_last {s : St σ ρ δ ε} {n : ℕ} {result : Except ε ρ} (hleaves : Leaves result s) (hn : Numbered n s) :
    Outcome n result (finish s) := by
  cases result with
  | error e =>
    obtain ⟨hexception, -⟩ := hleaves
    simp only [Outcome, finish, hexception]
  | ok http =>
    obtain ⟨hexception, hsuccess⟩ := hleaves
    obtain ⟨r, hr, rfl⟩ := Option.map_eq_some_iff.1 hsuccess
    refine ⟨(shareRetries s.attempts r).parsed, by simp only [finish, hexception, hr]; rfl, ?_⟩
    intro m hm
    obtain ⟨m', -, rfl⟩ := Option.map_eq_some_iff.1 hm
    simp [hn.attempts]

/-- **Accounting.** For any handlers, responses and exceptions, when the loop ends there was one attempt more than there
were answers to retry; the log tells that each further attempt came after one reset of the request before it and on a
request created for it; the result or the exception is the last attempt's, and its `RetryAttempts`, if it has metadata,
is the number of attempts minus one. The attempts are the sends, unless handlers of `before-send` step in. -/
theorem send_request_accounting (E : Env σ ρ δ ε) (fuel : ℕ) (w : σ) (t : St σ ρ δ ε)
    (out : Except ε (Option (Response ρ δ))) (h : sendRequest E fuel (start w) = .ok (some out) t) :
    attempts t.log = 1 + retries t.log ∧ sends t.log ≤ attempts t.log ∧ (Silent E → sends t.log = attempts t.log) ∧
      ∃ sent first rounds stop, Stops stop ∧
        t.log = [.created 0, .attempt 0 sent first] ++ history 0 rounds stop ∧
        Outcome (attempts t.log - 1) (lastResult first rounds) out := by
  obtain ⟨sent, first, rounds, stop, hstop, hlog, hnumbered, hleaves, rfl, hsents⟩ := send_request_log E h
  obtain ⟨hattempts, hretries, hsends⟩ := history_counts 0 rounds hstop
  have hattempts' : attempts t.log = rounds.length + 1 := by
    rw [hlog, attempts, List.countP_append, ← attempts, ← attempts, hattempts, Nat.add_comm]
    rfl
  have hretries' : retries t.log = rounds.length := by
    rw [hlog, retries, List.countP_append, ← retries, ← retries, hretries]
    exact Nat.zero_add _
  have hsends' : sends t.log = rounds.countP Round.sent + sent.toNat := by
    rw [hlog, sends, List.countP_append, ← sends, ← sends, hsends, Nat.add_comm]
    cases sent <;> rfl
  have hle : rounds.countP Round.sent ≤ rounds.length := List.countP_le_length
  have hsent : sent.toNat ≤ 1 := Bool.toNat_le sent
  refine ⟨by omega, by omega, fun hsilent => ?_, sent, first, rounds, stop, hstop, hlog, ?_⟩
  · obtain ⟨rfl, hall⟩ := hsents hsilent
    rw [hsends', hattempts', List.countP_eq_length.2 hall]
    rfl
  · rw [hattempts', Nat.add_sub_cancel]
    exact finish_last hleaves hnumbered

/-- a server that fails once and answers from then on; a failure is retried at once, and the metadata is there -/
def flaky : Env Bool Bool Unit String where
  isException _ := true
  create _ w := (.ok (), w)
  beforeSend _ w := (.ok [], w)
  send _ w := (.ok w, true)
  parse _ w := (.ok ⟨some ⟨none, ()⟩, ()⟩, w)
  responseReceived _ _ w := ⟨.ok (), id, w⟩
  needsRetry _ r _ w := ⟨.ok [none, bif (r.map Response.http).getD false then some .no else some (.wait 0)], id, w⟩
  sleep _ w := (.ok (), w)
  resetStream _ w := (.ok (), w)

/-- where a request to `flaky` ends -/
def flakyEnd : St Bool Bool Unit String :=
  ⟨true, 2, 2, 1, 2, some ⟨true, ⟨some ⟨none, ()⟩, ()⟩⟩, none,
    [.created 0, .attempt 0 true (.ok false), .answer (some (.wait 0)), .reset 0, .created 1, .attempt 1 true (.ok true),
      .answer (some .no)]⟩

theorem send_request_accounting_two :
    sendRequest flaky 2 (start false) = .ok (some (.ok (some ⟨true, ⟨some ⟨some 1, ()⟩, ()⟩⟩))) flakyEnd ∧
      attempts flakyEnd.log = 1 + retries flakyEnd.log := by
  have hrun : sendRequest flaky 2 (start false) = .ok (some (.ok (some ⟨true, ⟨some ⟨some 1, ()⟩, ()⟩⟩))) flakyEnd := by
    -- `rfl` unfolds the state of each call again at every later one
    simp [sendRequest, start, updateRetriesContext, createRequest, getResponse, doGetResponse, exchange, conclude,
      firstNonNoneResponse, emit, call, note, loop, retry, needsRetry, finish, shareRetries, flaky, flakyEnd, bind,
      EStateM.bind, pure, EStateM.pure, get_eq, modify_eq]
  exact ⟨hrun, (send_request_accounting flaky 2 false flakyEnd _ hrun).1⟩

/-- a handler of `before-send` that answers with a response of its own -/
def stubbed : Env Unit ℕ Unit String where
  isException _ := true
  create _ w := (.ok (), w)
  beforeSend _ w := (.ok [some 200], w)
  send _ w := (.error "not called", w)
  parse _ w := (.ok ⟨some ⟨none, ()⟩, ()⟩, w)
  responseReceived _ _ w := ⟨.ok (), id, w⟩
  needsRetry _ _ _ w := ⟨.ok [], id, w⟩
  sleep _ w := (.ok (), w)
  resetStream _ w := (.ok (), w)

/-- **An attempt that is no send.** A handler of `before-send` answers: the loop ends without an HTTP send, and without
a retry. -/
theorem before_send_answers :
    ∃ out t, sendRequest stubbed 1 (start ()) = .ok (some out) t ∧ sends t.log ≠ 1 + retries t.log :=
  ⟨.ok (some ⟨200, ⟨some ⟨some 0, ()⟩, ()⟩⟩),
    ⟨(), 1, 1, 0, 1, some ⟨200, ⟨some ⟨none, ()⟩, ()⟩⟩, none, [.created 0, .attempt 0 false (.ok 200), .answer none]⟩,
    rfl, by decide⟩

end AioBotocore.RetryLoop
