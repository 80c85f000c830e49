/-
`head_bucket` as the region redirector calls it: a request of the same client, whose answers go through the same two
handlers, the redirector included. The recursion of the two is cut off after `depth` calls by a `RecursionError`, as the
interpreter does it; a recursion that ends by itself is one that no depth cuts off.

The endpoint is any function from requests to responses.

- `head_buckets_iff`: one call of the redirector makes at most one `head_bucket`, however deep it may go, exactly if the
  endpoint does not answer that HeadBucket by a redirect without a region; else it makes as many as the depth lets it.
-/
import Mathlib.Tactic
import AioBotocore.Endpoint.Redirect
import AioBotocore.Endpoint.SendRequest

namespace AioBotocore.Endpoint

open Function

/-! ## Model -/

inductive Order where
  | retryFirst
  | redirectFirst
deriving DecidableEq, Repr

def Order.handlers : Order → List Handler
  | .retryFirst => [.retry, .redirect]
  | .redirectFirst => [.redirect, .retry]

/-- the client of the redirector, and the endpoint it talks to -/
structure Service where
  rules : Rules
  retries : RetryConfig Unit
  order : Order
  /-- the URL, the auth type and the signing context of a HeadBucket, with the regions cached -/
  resolve : (Option String → Option String) → Option String → Except Exn (String × Option String × Headers)
  endpoint : String → RequestDict → Sent

/-- the request dict of a HeadBucket, with the `s3_redirect` of `annotate_request_context` -/
def headRequest (bucket : Option String) (x : String × Option String × Headers) : RequestDict :=
  ⟨x.1, some ⟨bucket, false⟩, x.2.1, x.2.2⟩

def Service.send (V : Service) (operation : String) (d : RequestDict) (server : Unit) : Sent × Unit :=
  (V.endpoint operation d, server)

/-- fuel that the loop does not use up -/
def Service.fuel (V : Service) : ℕ := (max 1 V.retries.maxAttempts).toNat + 1

/-- `_make_api_call` gives the parsed response, or raises `ClientError` with it: the headers are there in both cases -/
def answer : Option (Except Exn (Option Response)) × St Unit → Except Exn Headers × Client Unit
  | (some (.ok (some r)), s) => (r.httpHeaders, s.client)
  | (some (.ok none), s) => (.error (.other "no response"), s.client)
  | (some (.error e), s) => (.error e, s.client)
  | (none, s) => (.error (.other "no result"), s.client)

def headBucket (V : Service) : ℕ → Option String → Client Unit → Except Exn Headers × Client Unit
  | 0, _, c => (.error .recursionError, c)
  | depth + 1, bucket, c =>
    let c := { c with headBuckets := c.headBuckets + 1 }
    match V.resolve c.cache bucket with
    | .error e => (.error e, c)
    | .ok x =>
      answer (sendRequest ⟨V.rules, V.retries, headBucket V depth, "HeadBucket"⟩ V.order.handlers V.send V.fuel
        (headRequest bucket x) c)

/-! ## Handlers without HeadBuckets -/

theorem needsHead_maxAttemptsReached {R : Rules} {operation : String} {d : RequestDict} {r : Response}
    {redirect : S3Redirect} :
    NeedsHead R operation d (maxAttemptsReached r) redirect ↔ NeedsHead R operation d r redirect := by
  have hheaders : (maxAttemptsReached r).httpHeaders = r.httpHeaders := by
    cases hm : r.responseMetadata with
    | none => simp [Response.httpHeaders, maxAttemptsReached, hm]
    | some m => simp [Response.httpHeaders, maxAttemptsReached, hm]
  have hredirect : isRedirect operation (maxAttemptsReached r) = isRedirect operation r := by
    cases hm : r.responseMetadata with
    | none => simp [isRedirect, Response.headers, maxAttemptsReached, hm]
    | some m => simp [isRedirect, Response.headers, maxAttemptsReached, hm]
  have hnamed : ∀ headers, namedRegion (maxAttemptsReached r) headers = namedRegion r headers := fun headers => rfl
  constructor
  · rintro ⟨hcontext, hexcused, hred, headers, hh, hn⟩
    exact ⟨hcontext, hexcused, hredirect ▸ hred, headers, hheaders ▸ hh, hnamed headers ▸ hn⟩
  · rintro ⟨hcontext, hexcused, hred, headers, hh, hn⟩
    exact ⟨hcontext, hexcused, hredirect.trans hred, headers, hheaders.trans hh, (hnamed headers).trans hn⟩

theorem needsHead_not_redirected {R : Rules} {operation : String} {d : RequestDict} {r : Response}
    {redirect : S3Redirect} (h : redirected d = true) : ¬ NeedsHead R operation d r redirect := by
  rintro ⟨hcontext, hexcused, -, -⟩
  rw [redirected, hcontext] at h
  simp [excused, hcontext, h] at hexcused

variable {σ : Type*}

/-- the retry handler keeps the response, but for the flag -/
theorem retryHandler_response (C : RetryConfig σ) (attempts : ℕ) (s : St σ) :
    (retryHandler C attempts s).2.response = s.response ∨
      (retryHandler C attempts s).2.response = s.response.map maxAttemptsReached := by
  unfold retryHandler maxAttemptsDecorator
  simp only
  generalize shouldRetry C attempts _ = should
  cases should with
  | error e => exact .inl rfl
  | ok b =>
    cases b with
    | false => exact .inl rfl
    | true =>
      by_cases hmax : (attempts : ℤ) ≥ C.maxAttempts
      · simp [hmax]
      · simp [hmax]

theorem handler_calm (S : Setup σ) (attempts : ℕ) (s : St σ) (h : Handler) (hcalm : Calm S.rules S.operation s) :
    Calm S.rules S.operation (h.call S attempts s).2 ∧
      (h.call S attempts s).2.client.headBuckets = s.client.headBuckets := by
  cases h with
  | retry =>
    obtain ⟨hdict, -, -, hclient, -⟩ := retryHandler_keeps S.retries attempts s
    refine ⟨fun r redirect hr => ?_, congrArg Client.headBuckets hclient⟩
    simp only [Handler.call] at hr ⊢
    rw [hdict]
    rcases retryHandler_response S.retries attempts s with hresponse | hresponse
    · exact hcalm r redirect (hresponse.symm.trans hr)
    · rw [hresponse] at hr
      obtain ⟨r', hr', rfl⟩ := Option.map_eq_some_iff.1 hr
      rw [needsHead_maxAttemptsReached]
      exact hcalm r' redirect hr'
  | redirect =>
    obtain ⟨heffect, -⟩ := redirectFromError_effect S.rules S.head S.operation s
    obtain ⟨hbuckets, hresponse⟩ := redirectFromError_calm hcalm S.head
    refine ⟨fun r redirect hr => ?_, hbuckets⟩
    simp only [Handler.call] at hr ⊢
    cases heffect with
    | keeps hdict =>
      rw [hdict]
      exact hcalm r redirect (hresponse.symm.trans hr)
    | rewrites _ hafter => exact needsHead_not_redirected hafter

theorem emit_calm (S : Setup σ) (attempts : ℕ) (handlers : List Handler) (s : St σ)
    (hcalm : Calm S.rules S.operation s) :
    (emit S attempts handlers s).2.client.headBuckets = s.client.headBuckets := by
  induction handlers generalizing s with
  | nil => rfl
  | cons h hs ih =>
    obtain ⟨hcalm', hbuckets⟩ := handler_calm S attempts s h hcalm
    rw [emit]
    generalize h.call S attempts s = called at *
    obtain ⟨x, t⟩ := called
    cases x with
    | error e => exact hbuckets
    | ok x =>
      have hrest := ih t hcalm'
      simp only
      generalize emit S attempts hs t = emitted at *
      obtain ⟨y, u⟩ := emitted
      cases y with
      | error e => exact hrest.trans hbuckets
      | ok xs => exact hrest.trans hbuckets

theorem needsRetry_calm (S : Setup σ) (handlers : List Handler) (attempts : ℕ) (s : St σ)
    (hcalm : Calm S.rules S.operation s) :
    (needsRetry S handlers attempts s).2.client.headBuckets = s.client.headBuckets := by
  have hbuckets := emit_calm S attempts handlers s hcalm
  rw [needsRetry]
  generalize emit S attempts handlers s = emitted at *
  obtain ⟨x, t⟩ := emitted
  cases x with
  | error e => exact hbuckets
  | ok xs => exact hbuckets

/-! ## A HeadBucket that needs no other -/

/-- the endpoint does not answer the request by a redirect without a region -/
def Names (V : Service) (operation : String) (d : RequestDict) : Prop :=
  ∀ r redirect, V.endpoint operation d = .response r → ¬ NeedsHead V.rules operation d r redirect

theorem getResponse_calm {V : Service} {operation : String} {d : RequestDict} (hd : Names V operation d) (attempts : ℕ)
    {s : St Unit} (hs : redirected s.requestDict = true ∨ s.requestDict = d) :
    (getResponse V.send operation attempts s).2.requestDict = s.requestDict ∧
      (getResponse V.send operation attempts s).2.client.headBuckets = s.client.headBuckets ∧
      ((getResponse V.send operation attempts s).1 = .ok () →
        Calm V.rules operation (getResponse V.send operation attempts s).2) := by
  unfold getResponse Service.send
  simp only
  cases hsent : V.endpoint operation s.requestDict with
  | unsent e => exact ⟨rfl, rfl, by simp⟩
  | raises e => exact ⟨rfl, rfl, by simp⟩
  | exception e => exact ⟨rfl, rfl, fun _ r redirect hr => by cases hr⟩
  | response r =>
    refine ⟨rfl, rfl, fun _ r' redirect hr => ?_⟩
    obtain rfl := Option.some.inj hr
    rcases hs with hs | rfl
    · exact needsHead_not_redirected hs
    · exact hd r redirect hsent

theorem loop_calm {V : Service} {S : Setup Unit} (hrules : S.rules = V.rules) {d : RequestDict}
    (hd : Names V S.operation d) (handlers : List Handler) (fuel attempts : ℕ) {s : St Unit}
    (hs : redirected s.requestDict = true ∨ s.requestDict = d) (hcalm : Calm V.rules S.operation s) :
    (loop S handlers V.send fuel attempts s).2.client.headBuckets = s.client.headBuckets := by
  induction fuel generalizing attempts s with
  | zero => rfl
  | succ fuel ih =>
    have hbuckets := needsRetry_calm S handlers attempts s (hrules ▸ hcalm)
    obtain ⟨hround, -⟩ := needsRetry_round S handlers attempts s
    rw [loop]
    generalize needsRetry S handlers attempts s = answer at *
    obtain ⟨again, t⟩ := answer
    have ht : redirected t.requestDict = true ∨ t.requestDict = d := by
      cases hround with
      | keeps hdict =>
        simp only at hdict
        rwa [hdict]
      | rewrites _ hafter => exact .inl hafter
    cases again with
    | error e => exact hbuckets
    | ok again =>
      cases again with
      | false => exact hbuckets
      | true =>
        obtain ⟨hdict, hbuckets', hcalm'⟩ := getResponse_calm hd (attempts + 1) ht
        simp only
        generalize getResponse V.send S.operation (attempts + 1) t = got at *
        obtain ⟨x, u⟩ := got
        simp only at hdict hbuckets' hcalm'
        cases x with
        | error e => exact hbuckets'.trans hbuckets
        | ok x => exact (ih (attempts + 1) (by rwa [hdict]) (hcalm' rfl)).trans (hbuckets'.trans hbuckets)

theorem sendRequest_calm {V : Service} {S : Setup Unit} (hrules : S.rules = V.rules) {d : RequestDict}
    (hd : Names V S.operation d) (handlers : List Handler) (fuel : ℕ) (c : Client Unit) :
    (sendRequest S handlers V.send fuel d c).2.client.headBuckets = c.headBuckets := by
  obtain ⟨hdict, hbuckets, hcalm⟩ := getResponse_calm hd 1 (s := start d c) (.inr rfl)
  rw [sendRequest]
  generalize getResponse V.send S.operation 1 (start d c) = got at *
  obtain ⟨x, s⟩ := got
  cases x with
  | error e => exact hbuckets
  | ok x => exact (loop_calm hrules hd handlers fuel 1 (.inr hdict) (hcalm rfl)).trans hbuckets

/-! ## A HeadBucket that needs another -/

/-- the retry handler raises on the first answer -/
def RetryRaises (C : RetryConfig Unit) (r : Response) : Prop :=
  ∃ e, C.checker () 1 (some r) none = .error e ∧ ¬ (C.retryable e = true ∧ (1 : ℤ) < C.maxAttempts)

/-- the endpoint answers the HeadBucket of the bucket by a redirect without a region that the redirector gets to see -/
def AsksAgain (V : Service) (cache : Option String → Option String) (bucket : Option String) : Prop :=
  ∃ x r, V.resolve cache bucket = .ok x ∧ V.endpoint "HeadBucket" (headRequest bucket x) = .response r ∧
    NeedsHead V.rules "HeadBucket" (headRequest bucket x) r ⟨bucket, false⟩ ∧
    (V.order = .redirectFirst ∨ ¬ RetryRaises V.retries r)

theorem retryHandler_ok {C : RetryConfig Unit} {s : St Unit} {r : Response} (hr : s.response = some r)
    (he : s.exception = none) (h : ¬ RetryRaises C r) : ∃ x, (retryHandler C 1 s).1 = .ok x := by
  have hshould : ∀ retries, ∃ b, shouldRetry C 1 { s with retries := retries } = .ok b := by
    intro retries
    simp only [shouldRetry, hr, he]
    cases hc : C.checker () 1 (some r) none with
    | ok b => exact ⟨b, rfl⟩
    | error e =>
      have hcaught : C.retryable e = true ∧ (1 : ℤ) < C.maxAttempts := by
        by_contra hnot
        exact h ⟨e, hc, hnot⟩
      exact ⟨true, if_pos (by simpa using hcaught)⟩
  unfold retryHandler maxAttemptsDecorator
  obtain ⟨b, hb⟩ := hshould { s.retries with max := some (max (s.retries.max.getD 0) C.maxAttempts) }
  simp only [hb]
  cases b with
  | false => exact ⟨_, rfl⟩
  | true =>
    by_cases hmax : ((1 : ℕ) : ℤ) ≥ C.maxAttempts
    · rw [if_pos hmax]
      exact ⟨_, rfl⟩
    · rw [if_neg hmax]
      exact ⟨_, rfl⟩

theorem retryHandler_raises {C : RetryConfig Unit} {s : St Unit} {r : Response} (hr : s.response = some r)
    (he : s.exception = none) (h : RetryRaises C r) : ∃ e, (retryHandler C 1 s).1 = .error e := by
  obtain ⟨e, hc, hnot⟩ := h
  have hshould : ∀ retries, shouldRetry C 1 { s with retries := retries } = .error e := by
    intro retries
    simp only [shouldRetry, hr, he, hc]
    exact if_neg (by simpa using hnot)
  refine ⟨e, ?_⟩
  simp only [retryHandler, maxAttemptsDecorator, hshould]

theorem redirect_raises {S : Setup Unit} {s : St Unit} {r : Response} {redirect : S3Redirect}
    (hr : s.response = some r) (h : NeedsHead S.rules S.operation s.requestDict r redirect) {e : Exn} {c : Client Unit}
    (hhead : S.head redirect.bucket s.client = (.error e, c)) (attempts : ℕ) :
    Handler.redirect.call S attempts s = (.error e, { s with client := c }) := by
  simp only [Handler.call, redirectFromError_needsHead hr h, hhead, redirectTo]

theorem needsRetry_raises {V : Service} {S : Setup Unit} (hretries : S.retries = V.retries) {s : St Unit}
    {r : Response} {redirect : S3Redirect} (hr : s.response = some r) (he : s.exception = none)
    (h : NeedsHead S.rules S.operation s.requestDict r redirect)
    (hseen : V.order = .redirectFirst ∨ ¬ RetryRaises V.retries r) {e : Exn} {c : Client Unit}
    (hhead : S.head redirect.bucket s.client = (.error e, c)) :
    ∃ t : St Unit, needsRetry S V.order.handlers 1 s = (.error e, t) ∧ t.client = c := by
  cases hord : V.order with
  | redirectFirst =>
    refine ⟨{ s with client := c }, ?_, rfl⟩
    simp only [needsRetry, Order.handlers, emit, redirect_raises hr h hhead]
  | retryFirst =>
    have hnot : ¬ RetryRaises S.retries r := by
      rw [hretries]
      exact hseen.resolve_left (by rw [hord]; decide)
    obtain ⟨x, hx⟩ := retryHandler_ok hr he hnot
    obtain ⟨hdict, -, -, hclient, -⟩ := retryHandler_keeps S.retries 1 s
    have hresponse := retryHandler_response S.retries 1 s
    simp only [needsRetry, Order.handlers, emit, Handler.call] at *
    generalize retryHandler S.retries 1 s = retried at *
    obtain ⟨y, t⟩ := retried
    simp only at hx hdict hclient hresponse
    subst hx
    -- the redirector sees the same response, up to the flag
    obtain ⟨r', hr', hneeds⟩ : ∃ r', t.response = some r' ∧ NeedsHead S.rules S.operation t.requestDict r' redirect := by
      rw [hdict]
      rcases hresponse with hresponse | hresponse
      · exact ⟨r, hresponse.trans hr, h⟩
      · exact ⟨maxAttemptsReached r, by rw [hresponse, hr]; rfl, needsHead_maxAttemptsReached.2 h⟩
    have hraises := redirect_raises hr' hneeds (by rwa [hclient]) 1
    simp only [Handler.call] at hraises
    refine ⟨{ t with client := c }, ?_, rfl⟩
    simp only [hraises]

theorem headBucket_again {V : Service} {bucket : Option String} (depth : ℕ) (c : Client Unit)
    (h : AsksAgain V c.cache bucket) :
    headBucket V depth bucket c = (.error .recursionError, { c with headBuckets := c.headBuckets + depth }) := by
  induction depth generalizing c with
  | zero => rfl
  | succ depth ih =>
    obtain ⟨x, r, hresolve, hsent, hneeds, hseen⟩ := h
    have hhead := ih { c with headBuckets := c.headBuckets + 1 } ⟨x, r, hresolve, hsent, hneeds, hseen⟩
    let S : Setup Unit := ⟨V.rules, V.retries, headBucket V depth, "HeadBucket"⟩
    let s : St Unit := ⟨headRequest bucket x, ⟨1, none⟩, some r, none, { c with headBuckets := c.headBuckets + 1 }, 1, 0⟩
    have hget : getResponse V.send "HeadBucket" 1
        (start (headRequest bucket x) { c with headBuckets := c.headBuckets + 1 }) = (.ok (), s) := by
      simp only [getResponse, start, Service.send, hsent]
      rfl
    obtain ⟨t, hretry, hclient⟩ := needsRetry_raises (S := S) (s := s) rfl rfl rfl hneeds hseen hhead
    have hloop : loop S V.order.handlers V.send V.fuel 1 s = (some (.error .recursionError), t) := by
      simp only [Service.fuel, loop, hretry]
    simp only [headBucket, hresolve, sendRequest, hget]
    change answer (loop S V.order.handlers V.send V.fuel 1 s) = _
    rw [hloop, answer, hclient, add_assoc, add_comm 1 depth]

theorem answer_client (out : Option (Except Exn (Option Response)) × St Unit) : (answer out).2 = out.2.client := by
  unfold answer
  split <;> rfl

/-- the retry handler, which comes first, raises on the first answer -/
theorem sendRequest_retryRaises {V : Service} {S : Setup Unit} (hretries : S.retries = V.retries)
    (hord : V.order = .retryFirst) {d : RequestDict} {r : Response} (hsent : V.endpoint S.operation d = .response r)
    (h : RetryRaises V.retries r) (c : Client Unit) :
    (sendRequest S V.order.handlers V.send V.fuel d c).2.client.headBuckets = c.headBuckets := by
  let s : St Unit := ⟨d, ⟨1, none⟩, some r, none, c, 1, 0⟩
  have hget : getResponse V.send S.operation 1 (start d c) = (.ok (), s) := by
    simp only [getResponse, start, Service.send, hsent]
    rfl
  obtain ⟨e, he⟩ := retryHandler_raises (s := s) rfl rfl (hretries ▸ h)
  obtain ⟨-, -, -, hclient, -⟩ := retryHandler_keeps S.retries 1 s
  have hretry : needsRetry S V.order.handlers 1 s = (.error e, (retryHandler S.retries 1 s).2) := by
    generalize hretried : retryHandler S.retries 1 s = retried at he
    obtain ⟨y, t⟩ := retried
    subst he
    simp only [needsRetry, hord, Order.handlers, emit, Handler.call, hretried]
  have hloop : loop S V.order.handlers V.send V.fuel 1 s =
      (some (.error e), (retryHandler S.retries 1 s).2) := by
    simp only [Service.fuel, loop, hretry]
  simp only [sendRequest, hget]
  rw [hloop]
  exact congrArg Client.headBuckets hclient

theorem headBucket_once {V : Service} {bucket : Option String} (depth : ℕ) (c : Client Unit)
    (h : ¬ AsksAgain V c.cache bucket) : (headBucket V depth bucket c).2.headBuckets ≤ c.headBuckets + 1 := by
  cases depth with
  | zero => exact Nat.le_succ _
  | succ depth =>
    simp only [headBucket]
    cases hresolve : V.resolve c.cache bucket with
    | error e => exact le_rfl
    | ok x =>
      simp only
      rw [answer_client]
      apply le_of_eq
      by_cases hd : Names V "HeadBucket" (headRequest bucket x)
      · exact sendRequest_calm rfl hd V.order.handlers V.fuel _
      · simp only [Names, not_forall, not_not] at hd
        obtain ⟨r, redirect, hsent, hneeds⟩ := hd
        obtain rfl : redirect = ⟨bucket, false⟩ := (Option.some.inj hneeds.context).symm
        have hnot : ¬ (V.order = .redirectFirst ∨ ¬ RetryRaises V.retries r) := fun hseen =>
          h ⟨x, r, hresolve, hsent, hneeds, hseen⟩
        rw [not_or, not_not] at hnot
        have hord : V.order = .retryFirst := by
          cases hord : V.order with
          | retryFirst => rfl
          | redirectFirst => exact absurd hord hnot.1
        exact sendRequest_retryRaises rfl hord hsent hnot.2 _

/-! ## One call of the redirector -/

/-- the redirector calls `head_bucket`, and the endpoint answers that HeadBucket by a redirect without a region -/
def Recurses (V : Service) (operation : String) (s : St Unit) : Prop :=
  ∃ r redirect, s.response = some r ∧ NeedsHead V.rules operation s.requestDict r redirect ∧
    AsksAgain V s.client.cache redirect.bucket

/-- what one call of the redirector adds to the HeadBuckets -/
theorem redirectFromError_headBuckets {V : Service} {operation : String} {s : St Unit} {r : Response}
    {redirect : S3Redirect} (hr : s.response = some r) (h : NeedsHead V.rules operation s.requestDict r redirect)
    (depth : ℕ) :
    (redirectFromError V.rules (headBucket V depth) operation s).2.client.headBuckets =
      (headBucket V depth redirect.bucket s.client).2.headBuckets := by
  rw [redirectFromError_needsHead hr h, (redirectTo_headBuckets _ _ _ _ _).1]
  generalize headBucket V depth redirect.bucket s.client = out
  obtain ⟨x, c⟩ := out
  cases x <;> rfl

/-- **HeadBuckets of a redirect.** One call of the redirector makes at most one `head_bucket` in all, whatever the depth
that the interpreter allows, exactly if it does not recurse: the endpoint does not answer that HeadBucket by a redirect
without a region. Else every `head_bucket` calls the next one, and only the depth ends it. -/
theorem head_buckets_iff (V : Service) (operation : String) (s : St Unit) :
    ((∀ depth, (redirectFromError V.rules (headBucket V depth) operation s).2.client.headBuckets ≤
        s.client.headBuckets + 1) ↔ ¬ Recurses V operation s) ∧
    (Recurses V operation s → ∀ depth,
      (redirectFromError V.rules (headBucket V depth) operation s).2.client.headBuckets =
        s.client.headBuckets + depth) := by
  have hrecurses : Recurses V operation s → ∀ depth,
      (redirectFromError V.rules (headBucket V depth) operation s).2.client.headBuckets =
        s.client.headBuckets + depth := by
    rintro ⟨r, redirect, hr, hneeds, hagain⟩ depth
    rw [redirectFromError_headBuckets hr hneeds, headBucket_again depth s.client hagain]
  refine ⟨⟨fun h hrec => ?_, fun hnot depth => ?_⟩, hrecurses⟩
  · have htwo := h 2
    rw [hrecurses hrec 2] at htwo
    omega
  · by_cases hcalm : Calm V.rules operation s
    · rw [(redirectFromError_calm hcalm _).1]
      exact Nat.le_succ _
    · simp only [Calm, not_forall, not_not] at hcalm
      obtain ⟨r, redirect, hr, hneeds⟩ := hcalm
      rw [redirectFromError_headBuckets hr hneeds]
      exact headBucket_once depth s.client fun hagain => hnot ⟨r, redirect, hr, hneeds, hagain⟩

/-- an endpoint that answers every request by status 301, without a region -/
def lost : Service where
  rules := ⟨fun _ => false, fun _ => true, fun _ _ _ => .ok ⟨"https://s3", none⟩, fun _ url => url⟩
  retries := ⟨1, fun _ _ _ _ => .ok false, fun _ => false, fun _ => 0⟩
  order := .retryFirst
  resolve := fun _ _ => .ok ("https://s3/b", none, [])
  endpoint := fun _ _ => .response ⟨some 301, some "301", none, some ⟨some [], false, none⟩, []⟩

/-- GetObject has got that answer -/
def lostObject : St Unit where
  requestDict := ⟨"https://s3/b/k", some ⟨some "b", false⟩, none, []⟩
  retries := ⟨1, none⟩
  response := some ⟨some 301, some "301", none, some ⟨some [], false, none⟩, []⟩
  exception := none
  client := ⟨fun _ => none, 0, ()⟩
  sends := 1
  rewrites := 0

theorem head_buckets_lost :
    (redirectFromError lost.rules (headBucket lost 100) "GetObject" lostObject).2.client.headBuckets = 0 + 100 := by
  have hneeds : ∀ operation d, d.s3Redirect = some ⟨some "b", false⟩ →
      NeedsHead lost.rules operation d ⟨some 301, some "301", none, some ⟨some [], false, none⟩, []⟩ ⟨some "b", false⟩ := by
    intro operation d hd
    refine ⟨hd, ?_, ?_, [], rfl, rfl⟩
    · simp [excused, hd, lost]
    · simp [isRedirect]
  refine (head_buckets_iff lost "GetObject" lostObject).2 ⟨_, _, rfl, hneeds "GetObject" _ rfl, ?_⟩ 100
  refine ⟨_, _, rfl, rfl, hneeds "HeadBucket" _ rfl, .inr ?_⟩
  rintro ⟨e, he, -⟩
  cases he

theorem head_bucket_calls_head_bucket :
    ¬ (redirectFromError lost.rules (headBucket lost 2) "GetObject" lostObject).2.client.headBuckets ≤
      lostObject.client.headBuckets + 1 := by
  decide

end AioBotocore.Endpoint
