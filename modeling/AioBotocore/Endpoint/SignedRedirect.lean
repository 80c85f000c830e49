/-
The loop of `AioEndpoint._send_request` (`SendRequest`) with the signer of the client (`Signers`) on `request-created`: each
attempt creates its request from the request dict and signs it before it is sent. Between two attempts the redirector may
have sent the request dict elsewhere. `Wire` keeps the URL and the signer's log of each request that was sent.

The handlers of `choose-signer` and `before-sign` are any that leave the URL and the signing context as they are; the
server, the checkers of the retry policy, `head_bucket` and the endpoint rules are arbitrary.

- `redirectFromError_rewritten`: what a redirect makes of the request dict.
- `signedSend_signs`: an attempt that is sent is signed for the request dict.
- `signed_redirect`: each request of a run is signed, if at all, with the context of the request dict whose URL it is sent
  to, and this dict changes at most once.
-/
import Mathlib.Tactic
import AioBotocore.Endpoint.SendRequest
import AioBotocore.Signers

namespace AioBotocore.Endpoint

open Function Program
open Signers (Signer SignatureVersion SigningContext Signed)

variable {σ κ φ τ ι : Type}

/-! ## Model -/

/-- the request that `create_request` makes of the request dict, with the signing context of the dict -/
def createRequest (d : RequestDict) : Signers.Request κ ι RequestDict where
  authType := d.authType.map .named
  signing := some ⟨d.signing.lookup "region", d.signing.lookup "signing_name", none, none, none⟩
  rest := d

structure SentRequest (κ φ τ ι : Type) where
  url : String
  signing : List (Signers.Event κ φ τ ι)

/-- the server, and what was sent to it -/
structure Wire (κ φ τ ι σ : Type) where
  world : σ
  sent : List (SentRequest κ φ τ ι)

/-- the exceptions of a signer -/
def exn : Signers.Exn Exn → Exn
  | .unknownSignatureVersion _ => .other "UnknownSignatureVersionError"
  | .unsupportedSignatureVersion _ => .other "UnsupportedSignatureVersionError"
  | .noRegion => .other "NoRegionError"
  | .keyError key => .keyError key
  | .other e => e

variable (G : Signer κ τ) (V : Signers.Env κ φ τ ι RequestDict σ Exn)

/-- `create_request`, which signs, and what `server` makes of the request -/
def signedSend (server : RequestDict → List (Signers.Event κ φ τ ι) → σ → Sent × σ) (operation : String)
    (d : RequestDict) (w : Wire κ φ τ ι σ) : Sent × Wire κ φ τ ι σ :=
  match Signers.sign G V operation none .standard none none ⟨createRequest d, w.world, []⟩ with
  | .error e t => (.unsent (exn e), { w with world := t.world })
  | .ok () t =>
    let (sent, world) := server d t.log t.world
    (sent, ⟨world, w.sent ++ [⟨d.url, t.log⟩]⟩)

/-- the checkers and `head_bucket` have nothing to do with what this request has sent -/
def Setup.wired (S : Setup σ) : Setup (Wire κ φ τ ι σ) where
  rules := S.rules
  retries := { S.retries with checker := fun w => S.retries.checker w.world }
  head := fun bucket c =>
    let (x, c') := S.head bucket ⟨c.cache, c.headBuckets, c.server.world⟩
    (x, ⟨c'.cache, c'.headBuckets, { c.server with world := c'.server }⟩)
  operation := S.operation

/-! ## What a redirect makes of the request dict -/

/-- `d'` is `d` resolved anew, with a region in the cache for its bucket: the URL is that of one endpoint, and so are auth
type and signing context (over what there was) if the endpoint has auth schemes; if it has none these stay -/
inductive Rewritten (R : Rules) (operation : String) (d d' : RequestDict) : Prop
  | url {redirect : S3Redirect} {cache : Option String → Option String} {region : String} {endpoint : EndpointInfo}
      (hredirect : d.s3Redirect = some redirect) (hregion : cache redirect.bucket = some region)
      (hendpoint : R.constructEndpoint cache operation d = .ok endpoint) (hschemes : endpoint.authSchemes = none)
      (hurl : d'.url = R.setRequestUrl d.url endpoint.url) (hauth : d'.authType = d.authType)
      (hsigning : d'.signing = d.signing)
  | schemes {redirect : S3Redirect} {cache : Option String → Option String} {region : String} {endpoint : EndpointInfo}
      {authType : String} {signing : Headers}
      (hredirect : d.s3Redirect = some redirect) (hregion : cache redirect.bucket = some region)
      (hendpoint : R.constructEndpoint cache operation d = .ok endpoint)
      (hschemes : endpoint.authSchemes = some (.ok (authType, signing)))
      (hurl : d'.url = R.setRequestUrl d.url endpoint.url) (hauth : d'.authType = some authType)
      (hsigning : d'.signing = signing ++ d.signing)

/-- a handler keeps what was sent, and if it returns it has kept the request dict or rewritten one not yet redirected -/
structure Turns (R : Rules) (operation : String) (s s' : St (Wire κ φ τ ι σ)) (returns : Prop) : Prop where
  sent : s'.client.server.sent = s.client.server.sent
  dict : returns → s'.requestDict = s.requestDict ∨ redirected s.requestDict = false ∧
    redirected s'.requestDict = true ∧ Rewritten R operation s.requestDict s'.requestDict

variable {R : Rules} {operation : String}

theorem Turns.refl (s : St (Wire κ φ τ ι σ)) (returns : Prop) : Turns R operation s s returns :=
  ⟨rfl, fun _ => .inl rfl⟩

theorem Turns.mono {s s' : St (Wire κ φ τ ι σ)} {p q : Prop} (h : Turns R operation s s' p) (hpq : q → p) :
    Turns R operation s s' q := ⟨h.sent, fun hq => h.dict (hpq hq)⟩

theorem Turns.trans {s t u : St (Wire κ φ τ ι σ)} {p q : Prop} (h : Turns R operation s t p)
    (h' : Turns R operation t u q) : Turns R operation s u (p ∧ q) := by
  refine ⟨h'.sent.trans h.sent, fun ⟨hp, hq⟩ => ?_⟩
  rcases h.dict hp with hst | ⟨hbefore, hafter, hrewritten⟩
  · have := h'.dict hq
    rwa [hst] at this
  · rcases h'.dict hq with htu | ⟨hnot, -⟩
    · rw [htu]
      exact .inr ⟨hbefore, hafter, hrewritten⟩
    · rw [hafter] at hnot
      cases hnot

theorem rewrite_turns {redirect : S3Redirect} {s : St (Wire κ φ τ ι σ)}
    (hredirect : s.requestDict.s3Redirect = some redirect) (hnot : redirect.redirected = false) {region : String}
    (hregion : s.client.cache redirect.bucket = some region) :
    Turns R operation s (rewrite R operation redirect s).2 (∃ x, (rewrite R operation redirect s).1 = .ok x) := by
  have hbefore : redirected s.requestDict = false := by simp [redirected, hredirect, hnot]
  unfold rewrite
  cases hendpoint : R.constructEndpoint s.client.cache operation s.requestDict with
  | error e => exact .refl s _
  | ok endpoint =>
    simp only
    cases hschemes : endpoint.authSchemes with
    | none => exact ⟨rfl, fun _ => .inr ⟨hbefore, rfl, .url hredirect hregion hendpoint hschemes rfl rfl rfl⟩⟩
    | some schemes =>
      cases schemes with
      | error e => exact ⟨rfl, fun hx => absurd hx (by simp)⟩
      | ok auth => exact ⟨rfl, fun _ => .inr ⟨hbefore, rfl, .schemes hredirect hregion hendpoint hschemes rfl rfl rfl⟩⟩

theorem wired_operation (S : Setup σ) : (S.wired : Setup (Wire κ φ τ ι σ)).operation = S.operation := rfl

theorem wired_head_sent (S : Setup σ) (bucket : Option String) (c : Client (Wire κ φ τ ι σ)) :
    (S.wired.head bucket c).2.server.sent = c.server.sent := rfl

theorem getBucketRegion_sent (S : Setup σ) (bucket : Option String) (r : Response) (c : Client (Wire κ φ τ ι σ)) :
    (getBucketRegion R S.wired.head bucket r c).2.server.sent = c.server.sent := by
  unfold getBucketRegion
  split
  · rfl
  · split
    · rfl
    · have hhead := wired_head_sent S bucket c
      generalize S.wired.head bucket c = answer at *
      obtain ⟨(e | headers), c'⟩ := answer
      · exact hhead
      · exact hhead

/-- a redirect resolves the request dict anew, once -/
theorem redirectFromError_rewritten (S : Setup σ) (s : St (Wire κ φ τ ι σ)) :
    Turns R operation s (redirectFromError R S.wired.head operation s).2
      (∃ x, (redirectFromError R S.wired.head operation s).1 = .ok x) := by
  unfold redirectFromError
  cases hr : s.response with
  | none => exact .refl s _
  | some r =>
    simp only
    by_cases hexcused : excused R s.requestDict
    · rw [if_pos hexcused]
      exact .refl s _
    · rw [if_neg hexcused]
      by_cases hno : (!isRedirect operation r) = true
      · rw [if_pos hno]
        exact .refl s _
      · rw [if_neg hno]
        cases hredirect : s.requestDict.s3Redirect with
        | none => exact .refl s _
        | some redirect =>
          have hnot : redirect.redirected = false := by
            simp only [excused, hredirect, Bool.or_eq_true, not_or, Bool.not_eq_true] at hexcused
            exact hexcused.2
          have hsent := getBucketRegion_sent (R := R) S redirect.bucket r s.client
          simp only
          generalize getBucketRegion R S.wired.head redirect.bucket r s.client = found at *
          obtain ⟨(e | _ | region), c⟩ := found
          · exact ⟨hsent, fun hx => absurd hx (by simp [redirectTo])⟩
          · exact ⟨hsent, fun _ => .inl rfl⟩
          · let s' := { s with client := { c with cache := update c.cache redirect.bucket (some region) } }
            have hturns : Turns R operation s' (rewrite R operation redirect s').2
                (∃ x, (rewrite R operation redirect s').1 = .ok x) :=
              rewrite_turns hredirect hnot (update_self redirect.bucket (some region) c.cache)
            exact ⟨hturns.sent.trans hsent, hturns.dict⟩

/-! ## A round of handlers -/

theorem handler_turns (S : Setup σ) (attempts : ℕ) (s : St (Wire κ φ τ ι σ)) (h : Handler) :
    Turns S.rules S.operation s (h.call S.wired attempts s).2 (∃ x, (h.call S.wired attempts s).1 = .ok x) := by
  cases h with
  | retry =>
    obtain ⟨hdict, -, -, hclient, -⟩ := retryHandler_keeps (Setup.wired S).retries attempts s
    exact ⟨congrArg (fun c => c.server.sent) hclient, fun _ => .inl hdict⟩
  | redirect => exact redirectFromError_rewritten S s

theorem emit_turns (S : Setup σ) (attempts : ℕ) (handlers : List Handler) (s : St (Wire κ φ τ ι σ)) :
    Turns S.rules S.operation s (emit S.wired attempts handlers s).2
      (∃ xs, (emit S.wired attempts handlers s).1 = .ok xs) := by
  induction handlers generalizing s with
  | nil => exact .refl s _
  | cons h hs ih =>
    have hturns := handler_turns S attempts s h
    rw [emit]
    generalize h.call S.wired attempts s = called at *
    obtain ⟨(e | x), t⟩ := called
    · exact hturns.mono fun hx => absurd hx (by simp)
    · have hrest := ih t
      simp only
      generalize emit S.wired attempts hs t = emitted at *
      obtain ⟨(e | xs), u⟩ := emitted
      · exact (hturns.trans hrest).mono fun hx => absurd hx (by simp)
      · exact (hturns.trans hrest).mono fun _ => ⟨⟨x, rfl⟩, xs, rfl⟩

theorem needsRetry_turns (S : Setup σ) (handlers : List Handler) (attempts : ℕ) (s : St (Wire κ φ τ ι σ)) :
    Turns S.rules S.operation s (needsRetry S.wired handlers attempts s).2
      (∃ b, (needsRetry S.wired handlers attempts s).1 = .ok b) := by
  have hturns := emit_turns S attempts handlers s
  rw [needsRetry]
  generalize emit S.wired attempts handlers s = emitted at *
  obtain ⟨(e | xs), t⟩ := emitted
  · exact hturns.mono fun hx => absurd hx (by simp)
  · exact hturns.mono fun _ => ⟨xs, rfl⟩

/-! ## An attempt -/

/-- the signing context of a request dict -/
def signingOf (d : RequestDict) : SigningContext κ ι := (createRequest d).signingContext

/-- a request that was sent for `d`: to the URL of `d`, and signed once, with the context of `d` -/
def SignedFor (d : RequestDict) (x : SentRequest κ φ τ ι) : Prop :=
  x.url = d.url ∧ ∃ asked response asked' events,
    x.signing = [.chooseSigner asked response, .beforeSign asked' (signingOf d)] ++ events ∧
    Signed G V none none none asked'.signatureVersion (signingOf d) events

variable {G V}

/-- an attempt sends one request, signed for the request dict, or none -/
theorem signedSend_signs (hkeeps : ∀ signing, V.Maintains fun r => r.signing = signing)
    (server : RequestDict → List (Signers.Event κ φ τ ι) → σ → Sent × σ) (operation : String) (d : RequestDict)
    (w : Wire κ φ τ ι σ) :
    ∃ new, (signedSend G V server operation d w).2.sent = w.sent ++ new ∧ new.length ≤ 1 ∧ ∀ x ∈ new, SignedFor G V d x := by
  have hsign := Signers.sign_ends G (hkeeps (createRequest d).signing) operation none .standard none none
    ⟨createRequest d, w.world, []⟩ rfl
  unfold signedSend
  split
  · exact ⟨[], (List.append_nil _).symm, by simp, by simp⟩
  · rename_i t ht
    obtain ⟨asked, response, asked', r, events, hr, -, hsigned, hlog⟩ := hsign.ok ht
    have hcontext : r.signingContext = signingOf d := by
      unfold signingOf Signers.Request.signingContext
      rw [hr]
    rw [hcontext] at hsigned hlog
    refine ⟨[⟨d.url, t.log⟩], rfl, by simp, fun x hx => ?_⟩
    rw [List.mem_singleton] at hx
    subst hx
    exact ⟨rfl, asked, response, asked', events, hlog, hsigned⟩

theorem getResponse_signs (hkeeps : ∀ signing, V.Maintains fun r => r.signing = signing)
    (server : RequestDict → List (Signers.Event κ φ τ ι) → σ → Sent × σ) (operation : String) (attempts : ℕ)
    (s : St (Wire κ φ τ ι σ)) :
    (getResponse (signedSend G V server) operation attempts s).2.requestDict = s.requestDict ∧
      ∃ new, (getResponse (signedSend G V server) operation attempts s).2.client.server.sent =
          s.client.server.sent ++ new ∧ ∀ x ∈ new, SignedFor G V s.requestDict x := by
  obtain ⟨new, hsent, -, hnew⟩ := signedSend_signs hkeeps server operation s.requestDict s.client.server
  obtain ⟨hdict, -, -⟩ := getResponse_sends (signedSend G V server) operation attempts s
  refine ⟨hdict, new, ?_, hnew⟩
  rw [← hsent]
  unfold getResponse
  simp only
  split <;> rfl

/-! ## The run -/

variable (G V)

/-- what was sent is signed for `d`, or first for `d` and then for what a redirect made of it -/
def Blocks (R : Rules) (operation : String) (d : RequestDict) (sent : List (SentRequest κ φ τ ι)) : Prop :=
  ∃ first later, sent = first ++ later ∧ (∀ x ∈ first, SignedFor G V d x) ∧
    (later = [] ∨ ∃ d', Rewritten R operation d d' ∧ ∀ x ∈ later, SignedFor G V d' x)

/-- the request dict is the first one or a rewriting of it, and what was sent came in this order -/
inductive Course (R : Rules) (operation : String) (d : RequestDict) (s : St (Wire κ φ τ ι σ)) : Prop
  | first (hdict : s.requestDict = d) (hsent : ∀ x ∈ s.client.server.sent, SignedFor G V d x)
  | redirected {first later : List (SentRequest κ φ τ ι)} (hsent : s.client.server.sent = first ++ later)
      (hfirst : ∀ x ∈ first, SignedFor G V d x) (hredirected : redirected s.requestDict = true)
      (hrewritten : Rewritten R operation d s.requestDict) (hlater : ∀ x ∈ later, SignedFor G V s.requestDict x)

variable {G V} {d : RequestDict}

theorem Course.blocks {s : St (Wire κ φ τ ι σ)} (h : Course G V R operation d s) :
    Blocks G V R operation d s.client.server.sent := by
  cases h with
  | first hdict hsent => exact ⟨_, [], (List.append_nil _).symm, hsent, .inl rfl⟩
  | redirected hsent hfirst hredirected hrewritten hlater =>
    exact ⟨_, _, hsent, hfirst, .inr ⟨_, hrewritten, hlater⟩⟩

/-- a request dict is rewritten once, and what was sent before belongs to the first one -/
theorem Course.turns {s s' : St (Wire κ φ τ ι σ)} {returns : Prop} (h : Course G V R operation d s)
    (hturns : Turns R operation s s' returns) (hreturns : returns) : Course G V R operation d s' := by
  obtain ⟨hsent', hdict'⟩ := hturns
  cases h with
  | first hdict hsent =>
    rcases hdict' hreturns with hkept | ⟨-, hafter, hrewritten⟩
    · exact .first (hkept.trans hdict) (by rwa [hsent'])
    · rw [hdict] at hrewritten
      exact .redirected (hsent'.trans (List.append_nil _).symm) hsent hafter hrewritten (List.forall_mem_nil _)
  | redirected hsent hfirst hredirected hrewritten hlater =>
    rcases hdict' hreturns with hkept | ⟨hbefore, -, -⟩
    · rw [← hkept] at hredirected hrewritten hlater
      exact .redirected (hsent'.trans hsent) hfirst hredirected hrewritten hlater
    · rw [hredirected] at hbefore
      cases hbefore

theorem Course.sends {s s' : St (Wire κ φ τ ι σ)} {new : List (SentRequest κ φ τ ι)} (h : Course G V R operation d s)
    (hdict' : s'.requestDict = s.requestDict) (hsent' : s'.client.server.sent = s.client.server.sent ++ new)
    (hnew : ∀ x ∈ new, SignedFor G V s.requestDict x) : Course G V R operation d s' := by
  cases h with
  | first hdict hsent =>
    refine .first (hdict'.trans hdict) fun x hx => ?_
    rw [hsent'] at hx
    rcases List.mem_append.1 hx with hx | hx
    · exact hsent x hx
    · rw [← hdict]
      exact hnew x hx
  | @redirected first later hsent hfirst hredirected hrewritten hlater =>
    rw [← hdict'] at hredirected hrewritten hlater hnew
    refine .redirected (by rw [hsent', hsent, List.append_assoc]) hfirst hredirected hrewritten fun x hx => ?_
    rcases List.mem_append.1 hx with hx | hx
    · exact hlater x hx
    · exact hnew x hx

/-- by induction on the fuel: a round of handlers, then an attempt -/
theorem loop_blocks (S : Setup σ) (hkeeps : ∀ signing, V.Maintains fun r => r.signing = signing)
    (server : RequestDict → List (Signers.Event κ φ τ ι) → σ → Sent × σ) (handlers : List Handler) (fuel : ℕ)
    {attempts : ℕ} {s : St (Wire κ φ τ ι σ)} (h : Course G V S.rules S.operation d s) :
    Blocks G V S.rules S.operation d
      (loop S.wired handlers (signedSend G V server) fuel attempts s).2.client.server.sent := by
  induction fuel generalizing attempts s with
  | zero => exact h.blocks
  | succ fuel ih =>
    have hturns := needsRetry_turns S handlers attempts s
    rw [loop]
    generalize needsRetry S.wired handlers attempts s = answer at *
    obtain ⟨(e | again), t⟩ := answer
    · simp only
      rw [hturns.sent]
      exact h.blocks
    · have ht : Course G V S.rules S.operation d t := h.turns hturns ⟨again, rfl⟩
      cases again with
      | false => exact ht.blocks
      | true =>
        obtain ⟨hdict, new, hsent, hnew⟩ := getResponse_signs hkeeps server S.operation (attempts + 1) t
        simp only [wired_operation]
        generalize getResponse (signedSend G V server) S.operation (attempts + 1) t = got at *
        obtain ⟨x, u⟩ := got
        have hu : Course G V S.rules S.operation d u := ht.sends hdict hsent hnew
        cases x with
        | error e => exact hu.blocks
        | ok x => exact ih hu

/-- **A redirected request is signed anew.** For any server, checkers, handlers in any order and endpoint rules, whatever
is retried: each request that a run sends goes to the URL of the request dict and is signed once, with the context of the
dict, or not at all if its version is unsigned. The dict changes at most once, when the endpoint is constructed with a
region cached for the bucket: an endpoint with auth schemes then gives auth type and signing context along with the URL,
while with one that has none the requests go to the new URL with the auth type and the context they had. -/
theorem signed_redirect (S : Setup σ) (hkeeps : ∀ signing, V.Maintains fun r => r.signing = signing)
    (server : RequestDict → List (Signers.Event κ φ τ ι) → σ → Sent × σ) (handlers : List Handler) (fuel : ℕ)
    (d : RequestDict) (cache : Option String → Option String) (headBuckets : ℕ) (w : σ) :
    Blocks G V S.rules S.operation d
      (sendRequest S.wired handlers (signedSend G V server) fuel d ⟨cache, headBuckets, ⟨w, []⟩⟩).2.client.server.sent := by
  obtain ⟨hdict, new, hsent, hnew⟩ := getResponse_signs hkeeps server S.operation 1 (start d ⟨cache, headBuckets, ⟨w, []⟩⟩)
  rw [sendRequest, wired_operation]
  generalize getResponse (signedSend G V server) S.operation 1 (start d ⟨cache, headBuckets, ⟨w, []⟩⟩) = got at *
  obtain ⟨x, s⟩ := got
  have hs : Course G V S.rules S.operation d s := .first hdict fun x hx => hnew x (by rwa [hsent] at hx)
  cases x with
  | error e => exact hs.blocks
  | ok x => exact loop_blocks S hkeeps server handlers fuel hs

/-! ## An instance -/

def usSigner : Signer Unit Unit := ⟨"s3", some "us", "s3", .named "s3v4", some (), none⟩

/-- handlers that leave everything as it is -/
def quiet : Signers.Env Unit ℕ Unit Unit RequestDict ℕ Exn where
  chooseSigner _ _ r w := (.ok none, r, w)
  beforeSign _ _ r w := (.ok (), r, w)
  authTypeMaps _ := some ⟨false, true, false⟩
  getFrozenCredentials _ w := (.ok 7, w)
  getFrozenToken w := (.ok (), w)
  getCredentials _ _ w := (.ok (), w)
  addAuth _ _ r w := (.ok (), r, w)

/-- as `moved`, with auth schemes -/
def movedSchemes : Setup ℕ where
  rules := ⟨fun _ => false, fun _ => true, fun _ _ _ => .ok ⟨"https://eu", some (.ok ("v4", [("region", "eu")]))⟩,
    fun _ url => url⟩
  retries := ⟨2, fun _ _ r _ => .ok (r.bind Response.statusCode = some 500), fun _ => false, fun _ => 1⟩
  head := fun _ c => (.error (.other "not called"), c)
  operation := "GetObject"

def usDict : RequestDict := ⟨"https://us", some ⟨some "b", false⟩, some "v4", [("region", "us")]⟩

def regional (name region : String) : List (Signers.Event Unit ℕ Unit Unit) :=
  [.chooseSigner ⟨"s3", some region, .named name⟩ none,
    .beforeSign ⟨"s3", some "us", .named name⟩ ⟨some region, none, none, none, none⟩, .frozenCredentials () 7,
    .addAuth name (.credentials (some 7) none (some (some region)) (some "s3") none none)]

def movedSent : List (SentRequest Unit ℕ Unit Unit) :=
  [⟨"https://us", regional "v4" "us"⟩, ⟨"https://us", regional "v4" "us"⟩, ⟨"https://eu", regional "v4" "eu"⟩]

theorem signed_redirect_moved :
    (sendRequest movedSchemes.wired [.retry, .redirect]
        (signedSend usSigner quiet fun d _ n => movedServer "GetObject" d n) 3 usDict
        ⟨fun _ => none, 0, ⟨0, []⟩⟩).2.client.server.sent = movedSent ∧
      Blocks usSigner quiet movedSchemes.rules "GetObject" usDict movedSent := by
  have hrun : (sendRequest movedSchemes.wired [.retry, .redirect]
      (signedSend usSigner quiet fun d _ n => movedServer "GetObject" d n) 3 usDict
      ⟨fun _ => none, 0, ⟨0, []⟩⟩).2.client.server.sent = movedSent := by rfl
  refine ⟨hrun, ?_⟩
  rw [← hrun]
  exact signed_redirect movedSchemes (fun _ => ⟨fun _ _ _ _ h => h, fun _ _ _ _ h => h⟩) _ [.retry, .redirect] 3 usDict
    (fun _ => none) 0 0

/-- an endpoint without auth schemes: the new URL with the signature for the old region -/
example :
    (sendRequest moved.wired [.retry, .redirect]
        (signedSend usSigner quiet fun d _ n => movedServer "GetObject" d n) 3 usDict
        ⟨fun _ => none, 0, ⟨0, []⟩⟩).2.client.server.sent =
      [⟨"https://us", regional "v4" "us"⟩, ⟨"https://us", regional "v4" "us"⟩, ⟨"https://eu", regional "v4" "us"⟩] := by
  rfl

end AioBotocore.Endpoint
