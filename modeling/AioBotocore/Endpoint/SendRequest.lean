/-
The loop of `AioEndpoint._send_request` with two handlers on `needs-retry`: the legacy retry handler of
`retryhandler.py` and the region redirector. The `while` loop is a recursion with fuel, and has no result when the fuel
runs out.

What lies below the loop is an argument: `send` is `create_request` and `_get_response` on a server in a state, `head`
is `head_bucket` on the same client, and the checkers of a retry policy are any function of what they are given.

- `needsRetry_round`: what the handlers do between two attempts, in whatever order they are registered.
- `send_request_bounded`: the loop ends, after at most one send more than there are attempts, and the request is
  rewritten at most once.
-/
import Mathlib.Tactic
import AioBotocore.Endpoint.Redirect

namespace AioBotocore.Endpoint

open Function

variable {σ : Type*}

/-! ## The retry handler -/

/-- `AioRetryHandler` over `AioMaxAttemptsDecorator` -/
structure RetryConfig (σ : Type*) where
  maxAttempts : ℤ
  checker : σ → ℕ → Option Response → Option Exn → Except Exn Bool
  /-- the exception is one of `retryable_exceptions` -/
  retryable : Exn → Bool
  /-- the seconds to wait after an attempt -/
  action : ℕ → ℚ

/-- `AioMaxAttemptsDecorator._should_retry` -/
def shouldRetry (C : RetryConfig σ) (attempts : ℕ) (s : St σ) : Except Exn Bool :=
  match C.checker s.client.server attempts s.response s.exception with
  | .ok b => .ok b
  | .error e => if C.retryable e ∧ (attempts : ℤ) < C.maxAttempts then .ok true else .error e

/-- `response[1]['ResponseMetadata']['MaxAttemptsReached'] = True` -/
def maxAttemptsReached (r : Response) : Response :=
  { r with responseMetadata := r.responseMetadata.map fun m => { m with maxAttemptsReached := true } }

/-- `AioMaxAttemptsDecorator._call` -/
def maxAttemptsDecorator (C : RetryConfig σ) (attempts : ℕ) (s : St σ) : Except Exn Bool × St σ :=
  let s := { s with retries := { s.retries with max := some (max (s.retries.max.getD 0) C.maxAttempts) } }
  match shouldRetry C attempts s with
  | .error e => (.error e, s)
  | .ok false => (.ok false, s)
  | .ok true =>
    if (attempts : ℤ) ≥ C.maxAttempts then (.ok false, { s with response := s.response.map maxAttemptsReached })
    else (.ok true, s)

/-- `AioRetryHandler._call` -/
def retryHandler (C : RetryConfig σ) (attempts : ℕ) (s : St σ) : Except Exn (Option ℚ) × St σ :=
  match maxAttemptsDecorator C attempts s with
  | (.error e, s) => (.error e, s)
  | (.ok true, s) => (.ok (some (C.action attempts)), s)
  | (.ok false, s) => (.ok none, s)

/-! ## The event `needs-retry` -/

inductive Handler where
  | retry
  | redirect
deriving DecidableEq, Repr

/-- what a request of one operation goes through -/
structure Setup (σ : Type*) where
  rules : Rules
  retries : RetryConfig σ
  head : Option String → Client σ → Except Exn Headers × Client σ
  operation : String

def Handler.call (S : Setup σ) (attempts : ℕ) (s : St σ) : Handler → Except Exn (Option ℚ) × St σ
  | .retry => retryHandler S.retries attempts s
  | .redirect => redirectFromError S.rules S.head S.operation s

/-- the handlers run one after the other, until one raises -/
def emit (S : Setup σ) (attempts : ℕ) : List Handler → St σ → Except Exn (List (Option ℚ)) × St σ
  | [], s => (.ok [], s)
  | h :: hs, s =>
    match h.call S attempts s with
    | (.error e, s) => (.error e, s)
    | (.ok x, s) =>
      match emit S attempts hs s with
      | (.error e, s) => (.error e, s)
      | (.ok xs, s) => (.ok (x :: xs), s)

def firstNonNoneResponse (responses : List (Option ℚ)) : Option ℚ := responses.findSome? id

/-- `_needs_retry`; any answer that is not `None` counts, 0 too -/
def needsRetry (S : Setup σ) (handlers : List Handler) (attempts : ℕ) (s : St σ) : Except Exn Bool × St σ :=
  match emit S attempts handlers s with
  | (.error e, s) => (.error e, s)
  | (.ok responses, s) => (.ok (firstNonNoneResponse responses).isSome, s)

/-! ## The loop -/

/-- how an attempt ends -/
inductive Sent where
  /-- `create_request` raises: nothing is sent -/
  | unsent (e : Exn)
  | response (r : Response)
  /-- the exception is the result of `_get_response` -/
  | exception (e : Exn)
  /-- `_get_response` raises after the request was sent -/
  | raises (e : Exn)
deriving DecidableEq, Repr

/-- `_update_retries_context`, `create_request` and `_get_response` -/
def getResponse (send : String → RequestDict → σ → Sent × σ) (operation : String) (attempts : ℕ) (s : St σ) :
    Except Exn Unit × St σ :=
  let s := { s with retries := { s.retries with attempt := attempts } }
  let (sent, server) := send operation s.requestDict s.client.server
  let s := { s with client := { s.client with server := server } }
  match sent with
  | .unsent e => (.error e, s)
  | .response r => (.ok (), { s with sends := s.sends + 1, response := some r, exception := none })
  | .exception e => (.ok (), { s with sends := s.sends + 1, response := none, exception := some e })
  | .raises e => (.error e, { s with sends := s.sends + 1 })

/-- `_send_request` after its loop -/
def finish (attempts : ℕ) (s : St σ) : Except Exn (Option Response) :=
  match s.exception with
  | some e => .error e
  | none => .ok (s.response.map fun r =>
      { r with responseMetadata := r.responseMetadata.map fun m => { m with retryAttempts := some (attempts - 1) } })

def loop (S : Setup σ) (handlers : List Handler) (send : String → RequestDict → σ → Sent × σ) :
    ℕ → ℕ → St σ → Option (Except Exn (Option Response)) × St σ
  | 0, _, s => (none, s)
  | fuel + 1, attempts, s =>
    match needsRetry S handlers attempts s with
    | (.error e, s) => (some (.error e), s)
    | (.ok false, s) => (some (finish attempts s), s)
    | (.ok true, s) =>
      match getResponse send S.operation (attempts + 1) s with
      | (.error e, s) => (some (.error e), s)
      | (.ok (), s) => loop S handlers send fuel (attempts + 1) s

def start (d : RequestDict) (c : Client σ) : St σ := ⟨d, ⟨1, none⟩, none, none, c, 0, 0⟩

def sendRequest (S : Setup σ) (handlers : List Handler) (send : String → RequestDict → σ → Sent × σ) (fuel : ℕ)
    (d : RequestDict) (c : Client σ) : Option (Except Exn (Option Response)) × St σ :=
  match getResponse send S.operation 1 (start d c) with
  | (.error e, s) => (some (.error e), s)
  | (.ok (), s) => loop S handlers send fuel 1 s

/-! ## One round of handlers -/

/-- what handlers do to the request between two attempts: nothing, and `again` only if attempts are left; or a rewrite
of one not yet redirected -/
inductive Round (C : RetryConfig σ) (attempts : ℕ) (s s' : St σ) (again : Prop) : Prop
  | keeps (hdict : s'.requestDict = s.requestDict) (hrewrites : s'.rewrites = s.rewrites)
      (hagain : again → (attempts : ℤ) < C.maxAttempts)
  | rewrites (hbefore : redirected s.requestDict = false) (hafter : redirected s'.requestDict = true)
      (hrewrites : s'.rewrites = s.rewrites + 1)

theorem Round.mono {C : RetryConfig σ} {attempts : ℕ} {s s' : St σ} {p q : Prop} (h : Round C attempts s s' p)
    (hpq : q → p) : Round C attempts s s' q := by
  cases h with
  | keeps hdict hrewrites hagain => exact .keeps hdict hrewrites fun hq => hagain (hpq hq)
  | rewrites hbefore hafter hrewrites => exact .rewrites hbefore hafter hrewrites

theorem Round.trans {C : RetryConfig σ} {attempts : ℕ} {s t u : St σ} {p q : Prop} (h1 : Round C attempts s t p)
    (h2 : Round C attempts t u q) : Round C attempts s u (p ∨ q) := by
  cases h1 with
  | keeps hdict hrewrites hagain =>
    cases h2 with
    | keeps hdict' hrewrites' hagain' =>
      refine .keeps (hdict'.trans hdict) (hrewrites'.trans hrewrites) fun h => ?_
      rcases h with h | h
      · exact hagain h
      · exact hagain' h
    | rewrites hbefore hafter hrewrites' =>
      rw [hdict] at hbefore
      rw [hrewrites] at hrewrites'
      exact .rewrites hbefore hafter hrewrites'
  | rewrites hbefore hafter hrewrites =>
    cases h2 with
    | keeps hdict hrewrites' _ =>
      rw [← hdict] at hafter
      exact .rewrites hbefore hafter (hrewrites'.trans hrewrites)
    | rewrites hbefore' =>
      -- a request is redirected once
      rw [hafter] at hbefore'
      cases hbefore'

theorem maxAttemptsDecorator_keeps (C : RetryConfig σ) (attempts : ℕ) (s : St σ) :
    (maxAttemptsDecorator C attempts s).2.requestDict = s.requestDict ∧
      (maxAttemptsDecorator C attempts s).2.rewrites = s.rewrites ∧
      (maxAttemptsDecorator C attempts s).2.sends = s.sends ∧
      (maxAttemptsDecorator C attempts s).2.client = s.client ∧
      ((maxAttemptsDecorator C attempts s).1 = .ok true → (attempts : ℤ) < C.maxAttempts) := by
  unfold maxAttemptsDecorator
  simp only
  split
  · simp
  · simp
  · split_ifs with hmax
    · simp
    · exact ⟨rfl, rfl, rfl, rfl, fun _ => not_le.1 hmax⟩

theorem retryHandler_keeps (C : RetryConfig σ) (attempts : ℕ) (s : St σ) :
    (retryHandler C attempts s).2.requestDict = s.requestDict ∧
      (retryHandler C attempts s).2.rewrites = s.rewrites ∧
      (retryHandler C attempts s).2.sends = s.sends ∧
      (retryHandler C attempts s).2.client = s.client ∧
      ∀ d, (retryHandler C attempts s).1 = .ok (some d) → (attempts : ℤ) < C.maxAttempts := by
  obtain ⟨hdict, hrewrites, hsends, hclient, hagain⟩ := maxAttemptsDecorator_keeps C attempts s
  unfold retryHandler
  generalize maxAttemptsDecorator C attempts s = decorated at *
  obtain ⟨x, s'⟩ := decorated
  cases x with
  | error e => exact ⟨hdict, hrewrites, hsends, hclient, by simp⟩
  | ok b =>
    cases b with
    | true => exact ⟨hdict, hrewrites, hsends, hclient, fun _ _ => hagain rfl⟩
    | false => exact ⟨hdict, hrewrites, hsends, hclient, by simp⟩

theorem handler_round (S : Setup σ) (attempts : ℕ) (s : St σ) (h : Handler) :
    Round S.retries attempts s (h.call S attempts s).2 (∃ d, (h.call S attempts s).1 = .ok (some d)) ∧
      (h.call S attempts s).2.sends = s.sends := by
  cases h with
  | retry =>
    obtain ⟨hdict, hrewrites, hsends, -, hagain⟩ := retryHandler_keeps S.retries attempts s
    exact ⟨.keeps hdict hrewrites fun ⟨d, hd⟩ => hagain d hd, hsends⟩
  | redirect =>
    obtain ⟨heffect, hsends⟩ := redirectFromError_effect S.rules S.head S.operation s
    refine ⟨?_, hsends⟩
    cases heffect with
    | keeps hdict hrewrites hx => exact .keeps hdict hrewrites fun ⟨d, hd⟩ => absurd hd (hx d)
    | rewrites hbefore hafter hrewrites => exact .rewrites hbefore hafter hrewrites

theorem emit_round (S : Setup σ) (attempts : ℕ) (handlers : List Handler) (s : St σ) :
    Round S.retries attempts s (emit S attempts handlers s).2
        (∃ xs d, (emit S attempts handlers s).1 = .ok xs ∧ some d ∈ xs) ∧
      (emit S attempts handlers s).2.sends = s.sends := by
  induction handlers generalizing s with
  | nil => exact ⟨.keeps rfl rfl (by simp [emit]), rfl⟩
  | cons h hs ih =>
    obtain ⟨hround, hsends⟩ := handler_round S attempts s h
    rw [emit]
    generalize h.call S attempts s = called at *
    obtain ⟨x, t⟩ := called
    cases x with
    | error e => exact ⟨hround.mono (by simp), hsends⟩
    | ok x =>
      obtain ⟨hrest, hsends'⟩ := ih t
      simp only
      generalize emit S attempts hs t = emitted at *
      obtain ⟨y, u⟩ := emitted
      have hall := hround.trans hrest
      cases y with
      | error e => exact ⟨hall.mono (by simp), hsends'.trans hsends⟩
      | ok xs =>
        refine ⟨hall.mono ?_, hsends'.trans hsends⟩
        rintro ⟨ys, d, hys, hd⟩
        obtain rfl : x :: xs = ys := by simpa using hys
        rcases List.mem_cons.1 hd with rfl | hd
        · exact .inl ⟨d, rfl⟩
        · exact .inr ⟨xs, d, rfl, hd⟩

theorem needsRetry_round (S : Setup σ) (handlers : List Handler) (attempts : ℕ) (s : St σ) :
    Round S.retries attempts s (needsRetry S handlers attempts s).2 ((needsRetry S handlers attempts s).1 = .ok true) ∧
      (needsRetry S handlers attempts s).2.sends = s.sends := by
  obtain ⟨hround, hsends⟩ := emit_round S attempts handlers s
  rw [needsRetry]
  generalize emit S attempts handlers s = emitted at *
  obtain ⟨x, t⟩ := emitted
  cases x with
  | error e => exact ⟨hround.mono (by simp), hsends⟩
  | ok xs =>
    refine ⟨hround.mono fun hagain => ?_, hsends⟩
    have hsome : (firstNonNoneResponse xs).isSome = true := by simpa using hagain
    obtain ⟨x, hx, hsome⟩ := List.findSome?_isSome_iff.1 hsome
    obtain ⟨d, rfl⟩ := Option.isSome_iff_exists.1 hsome
    exact ⟨xs, d, rfl, hx⟩

/-! ## The loop ends -/

theorem getResponse_sends (send : String → RequestDict → σ → Sent × σ) (operation : String) (attempts : ℕ) (s : St σ) :
    (getResponse send operation attempts s).2.requestDict = s.requestDict ∧
      (getResponse send operation attempts s).2.rewrites = s.rewrites ∧
      (getResponse send operation attempts s).2.sends ≤ s.sends + 1 := by
  unfold getResponse
  simp only
  split <;> simp

/-- after `attempts` sends: within the attempts allowed, or one beyond them after a redirect -/
structure Bound (C : RetryConfig σ) (attempts : ℕ) (s : St σ) : Prop where
  sends : s.sends ≤ attempts
  within : ((attempts : ℤ) ≤ max 1 C.maxAttempts ∧ s.rewrites = 0) ∨
    ((attempts : ℤ) ≤ max 1 C.maxAttempts + 1 ∧ s.rewrites ≤ 1 ∧ redirected s.requestDict = true)

theorem Bound.retry {C : RetryConfig σ} {attempts : ℕ} {s s' : St σ} (h : Bound C attempts s)
    (hround : Round C attempts s s' True) :
    ((attempts + 1 : ℕ) : ℤ) ≤ max 1 C.maxAttempts ∧ s'.rewrites = 0 ∨
      ((attempts + 1 : ℕ) : ℤ) ≤ max 1 C.maxAttempts + 1 ∧ s'.rewrites ≤ 1 ∧ redirected s'.requestDict = true := by
  cases hround with
  | keeps hdict hrewrites hagain =>
    have hlt := hagain trivial
    rw [hdict, hrewrites]
    rcases h.within with ⟨hle, h0⟩ | ⟨hle, h1, hred⟩
    · exact .inl ⟨by push_cast; omega, h0⟩
    · exact .inr ⟨by push_cast; omega, h1, hred⟩
  | rewrites hbefore hafter hrewrites =>
    rcases h.within with ⟨hle, h0⟩ | ⟨-, -, hred⟩
    · exact .inr ⟨by push_cast; omega, by omega, hafter⟩
    · rw [hred] at hbefore
      cases hbefore

theorem Bound.ends {C : RetryConfig σ} {attempts : ℕ} {s s' : St σ} {again : Prop} (h : Bound C attempts s)
    (hround : Round C attempts s s' again) : s'.rewrites ≤ 1 := by
  cases hround with
  | keeps hdict hrewrites _ =>
    rcases h.within with ⟨-, h0⟩ | ⟨-, h1, -⟩ <;> omega
  | rewrites hbefore hafter hrewrites =>
    rcases h.within with ⟨-, h0⟩ | ⟨-, -, hred⟩
    · omega
    · rw [hred] at hbefore
      cases hbefore

theorem Bound.attempts_le {C : RetryConfig σ} {attempts : ℕ} {s : St σ} (h : Bound C attempts s) :
    (attempts : ℤ) ≤ max 1 C.maxAttempts + 1 := by
  rcases h.within with ⟨hle, -⟩ | ⟨hle, -⟩ <;> omega

theorem loop_bounded (S : Setup σ) (handlers : List Handler) (send : String → RequestDict → σ → Sent × σ) (fuel : ℕ)
    {attempts : ℕ} {s : St σ} (h : Bound S.retries attempts s)
    (hfuel : max 1 S.retries.maxAttempts + 2 ≤ attempts + fuel) :
    (loop S handlers send fuel attempts s).1.isSome = true ∧
      ((loop S handlers send fuel attempts s).2.sends : ℤ) ≤ max 1 S.retries.maxAttempts + 1 ∧
      (loop S handlers send fuel attempts s).2.rewrites ≤ 1 := by
  induction fuel generalizing attempts s with
  | zero =>
    have hle := h.attempts_le
    exact absurd hfuel (by push_cast; omega)
  | succ fuel ih =>
    obtain ⟨hround, hsends⟩ := needsRetry_round S handlers attempts s
    have hattempts := h.attempts_le
    have hle := h.sends
    rw [loop]
    generalize needsRetry S handlers attempts s = answer at *
    obtain ⟨again, t⟩ := answer
    simp only at hsends
    cases again with
    | error e => exact ⟨rfl, by simp only; omega, h.ends hround⟩
    | ok again =>
      cases again with
      | false => exact ⟨rfl, by simp only; omega, h.ends hround⟩
      | true =>
        have hwithin := h.retry (hround.mono fun _ => rfl)
        obtain ⟨hdict, hrewrites, hsends'⟩ := getResponse_sends send S.operation (attempts + 1) t
        simp only
        generalize getResponse send S.operation (attempts + 1) t = got at *
        obtain ⟨x, u⟩ := got
        simp only at hdict hrewrites hsends'
        rw [← hdict, ← hrewrites] at hwithin
        have hbound : Bound S.retries (attempts + 1) u := ⟨by omega, hwithin⟩
        cases x with
        | error e =>
          refine ⟨rfl, ?_, hbound.ends (.keeps rfl rfl fun hfalse : False => hfalse.elim)⟩
          have hend := hbound.attempts_le
          have hle' := hbound.sends
          simp only
          omega
        | ok x => exact ih hbound (by push_cast at hfuel ⊢; omega)

/-- **Bounded sending.** For any server, any checkers and the handlers in any order, the loop returns or raises, after
at most `max(1, max_attempts) + 1` sends of the request, which the redirector rewrites at most once. -/
theorem send_request_bounded (S : Setup σ) (handlers : List Handler) (send : String → RequestDict → σ → Sent × σ)
    (d : RequestDict) (c : Client σ) (fuel : ℕ) (hfuel : max 1 S.retries.maxAttempts + 1 ≤ fuel) :
    (sendRequest S handlers send fuel d c).1.isSome = true ∧
      ((sendRequest S handlers send fuel d c).2.sends : ℤ) ≤ max 1 S.retries.maxAttempts + 1 ∧
      (sendRequest S handlers send fuel d c).2.rewrites ≤ 1 := by
  obtain ⟨-, hrewrites, hsends⟩ := getResponse_sends send S.operation 1 (start d c)
  rw [sendRequest]
  generalize getResponse send S.operation 1 (start d c) = got at *
  obtain ⟨x, s⟩ := got
  simp only [start] at hrewrites hsends
  have hbound : Bound S.retries 1 s := ⟨hsends, .inl ⟨by push_cast; omega, hrewrites⟩⟩
  cases x with
  | error e => exact ⟨rfl, by simp only; omega, by simp only; omega⟩
  | ok x => exact loop_bounded S handlers send fuel hbound (by push_cast; omega)

/-- two attempts are allowed, and status 500 is retried; a bucket that moved -/
def moved : Setup ℕ where
  rules := ⟨fun _ => false, fun _ => true, fun _ _ _ => .ok ⟨"https://eu", none⟩, fun _ url => url⟩
  retries := ⟨2, fun _ _ r _ => .ok (r.bind Response.statusCode = some 500), fun _ => false, fun _ => 1⟩
  head := fun _ c => (.error (.other "not called"), c)
  operation := "GetObject"

/-- the second answer is a redirect, the others are errors -/
def movedServer (_ : String) (_ : RequestDict) (n : ℕ) : Sent × ℕ :=
  if n = 1 then
    (.response ⟨some 301, none, none, some ⟨some [("x-amz-bucket-region", "eu")], false, none⟩, []⟩, n + 1)
  else (.response ⟨some 500, none, none, some ⟨some [], false, none⟩, []⟩, n + 1)

/-- the bound is met: a retry, a redirect, and then no attempt is left -/
theorem send_request_bounded_two :
    let out := sendRequest moved [.retry, .redirect] movedServer 3 ⟨"https://us", some ⟨some "b", false⟩, none, []⟩
      ⟨fun _ => none, 0, 0⟩
    (out.2.sends = 3 ∧ out.2.rewrites = 1) ∧
      (out.1.isSome = true ∧ (out.2.sends : ℤ) ≤ max 1 2 + 1 ∧ out.2.rewrites ≤ 1) :=
  ⟨by decide, send_request_bounded moved [.retry, .redirect] movedServer _ _ 3 (by decide)⟩

end AioBotocore.Endpoint
