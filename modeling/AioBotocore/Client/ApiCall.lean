/-
`AioBaseClient._make_api_call` of `client.py`, with `_emit_api_params`, `_resolve_endpoint_ruleset`,
`_convert_to_request_dict` and `_make_request`. The handlers of the events, the endpoint rules, the serializer and the
parser are an `Env` of arbitrary functions, which may raise and may change the context, the request dict and the
response they are given; the request is sent by the loop of `RetryLoop`. What a call does besides, the log tells.

- `Emits`: what a stretch of a call logs, and that it logs a part of it if it raises.
- `makeRequest_ends`: a request in its loop, and `after-call-error` behind it.
- `Ended`: the ways a call may end, with all it has logged; `api_call_protocol`: there are no others.
-/
import Mathlib.Tactic
import AioBotocore.Signers
import AioBotocore.Endpoint.RetryLoop

namespace AioBotocore.Client

open Program
open Signers (SignatureVersion SigningContext)
open RetryLoop (Parsed Response)

variable {κ ι η θ γ β π ρ δ σ ε α : Type}

/-! ## What a call works on -/

/-- the properties of an endpoint: `η` is the list under `authSchemes`, `θ` is what there is besides -/
structure Properties (η θ : Type) where
  authSchemes : Option η
  rest : Option θ
deriving DecidableEq, Repr

structure EndpointInfo (η θ : Type) where
  url : String
  headers : List (String × String)
  properties : Properties η θ
deriving DecidableEq, Repr

/-- `request_context`; `γ` is what only handlers look at -/
structure Context (κ ι η θ γ : Type) where
  authType : Option SignatureVersion
  signing : Option (SigningContext κ ι)
  endpointProperties : Option (Properties η θ)
  errorCodeOverride : Option String
  rest : γ

/-- `request_dict` without its context -/
structure RequestDict (β : Type) where
  url : String
  hostPrefix : Option String
  headers : List (String × String)
  method : String
  rest : β
deriving DecidableEq, Repr

structure Operation where
  name : String
  /-- the schemes of the operation, if it has any -/
  auth : List String
  resolvedAuthType : Option SignatureVersion

/-- what a client is made with -/
structure Config where
  serviceId : String
  /-- `meta.endpoint_url` -/
  endpointUrl : String
  /-- `_ruleset_resolver` is not `None` -/
  hasRulesetResolver : Bool
  injectHostPrefix : Bool
  userAgent : String
  authSchemePreference : Option String

inductive Exn (δ ε : Type) where
  /-- the class `from_code` finds for the code, raised with the response -/
  | clientError (code : Option String) (parsed : Parsed δ)
  /-- `None` cannot be unpacked -/
  | typeError
  | other (e : ε)

/-- what the loop of a request works on -/
structure World (κ ι η θ γ β σ : Type) where
  requestDict : RequestDict β
  context : Context κ ι η θ γ
  world : σ

/-- what a call calls, for one operation of the service; the events are told by their names -/
structure Env (κ ι η θ γ β π ρ δ σ ε : Type) where
  resolveAuthSchemePreference : List String → List String → Option SignatureVersion
  /-- the handlers' responses, and the parameters as they leave them -/
  provideClientParams : String → π → Context κ ι η θ γ → σ →
    Except ε (List (Option π) × π) × Context κ ι η θ γ × σ
  beforeParameterBuild : String → π → Context κ ι η θ γ → σ → Except ε π × Context κ ι η θ γ × σ
  constructEndpoint : π → Context κ ι η θ γ → σ → Except ε (EndpointInfo η θ) × Context κ ι η θ γ × σ
  authSchemesToSigningCtx : η → Except ε (SignatureVersion × SigningContext κ ι)
  serializeToRequest : π → Except ε (RequestDict β)
  /-- `prepare_request_dict` with the URL of the endpoint and a user agent -/
  prepareRequestDict : String → Option String → RequestDict β → RequestDict β
  resolveChecksumContext : π → RequestDict β → Context κ ι η θ γ → Except ε (RequestDict β) × Context κ ι η θ γ
  /-- the first answer of a handler that is not `None` -/
  beforeCall : String → RequestDict β → Context κ ι η θ γ → σ →
    Except ε (Option (Response ρ δ) × RequestDict β) × Context κ ι η θ γ × σ
  maybeCompressRequest : RequestDict β → Except ε (RequestDict β)
  applyRequestChecksum : RequestDict β → Context κ ι η θ γ → Except ε (RequestDict β) × Context κ ι η θ γ
  /-- what `_send_request` calls -/
  loop : RetryLoop.Env (World κ ι η θ γ β σ) ρ δ ε
  afterCallError : String → ε → Context κ ι η θ γ → σ → Except ε Unit × Context κ ι η θ γ × σ
  afterCall : String → Response ρ δ → Context κ ι η θ γ → σ → Except ε (Response ρ δ) × Context κ ι η θ γ × σ
  statusCode : ρ → ℕ
  /-- `parsed_response.get("Error", {}).get("Code")` -/
  errorCode : Parsed δ → Option String

/-! ## Model -/

inductive Event (ρ δ ε : Type) where
  | provideClientParams
  | beforeParameterBuild
  | constructEndpoint
  | serialize
  | beforeCall
  /-- a handler of `before-call` answers -/
  | answered (r : Response ρ δ)
  | compress
  | checksum
  /-- `make_request` is called -/
  | makeRequest
  | request (x : RetryLoop.Event ρ ε)
  /-- `make_request` returns -/
  | responded (r : Response ρ δ)
  | afterCallError (e : ε)
  | afterCall (r : Response ρ δ)
  /-- the handlers of `after-call` leave the response like this -/
  | concluded (r : Response ρ δ)

structure St (κ ι η θ γ ρ δ σ ε : Type) where
  context : Context κ ι η θ γ
  world : σ
  log : List (Event ρ δ ε)

abbrev M (κ ι η θ γ ρ δ σ ε : Type) := EStateM (Exn δ ε) (St κ ι η θ γ ρ δ σ ε)

def call (f : Context κ ι η θ γ → σ → Except ε α × Context κ ι η θ γ × σ) : M κ ι η θ γ ρ δ σ ε α := fun s =>
  match f s.context s.world with
  | (.error e, c, w) => .error (.other e) { s with context := c, world := w }
  | (.ok a, c, w) => .ok a { s with context := c, world := w }

/-- a function that leaves the world alone -/
def pureCall (f : Context κ ι η θ γ → Except ε α × Context κ ι η θ γ) : M κ ι η θ γ ρ δ σ ε α :=
  call fun c w => ((f c).1, (f c).2, w)

def ofExcept (x : Except ε α) : M κ ι η θ γ ρ δ σ ε α := pureCall fun c => (x, c)

def note (x : Event ρ δ ε) : M κ ι η θ γ ρ δ σ ε Unit := modify fun s => { s with log := s.log ++ [x] }

variable (C : Config) (E : Env κ ι η θ γ β π ρ δ σ ε)

def eventName (event : String) (operationName : String) : String := event ++ "." ++ C.serviceId ++ "." ++ operationName

def emitApiParams (operationName : String) (apiParams : π) : M κ ι η θ γ ρ δ σ ε π := do
  note .provideClientParams
  let (responses, apiParams) ← call (E.provideClientParams (eventName C "provide-client-params" operationName) apiParams)
  let apiParams := (RetryLoop.firstNonNoneResponse responses).getD apiParams
  note .beforeParameterBuild
  call (E.beforeParameterBuild (eventName C "before-parameter-build" operationName) apiParams)

/-- `signing.update(signing_context)` -/
def update (signing signingContext : SigningContext κ ι) : SigningContext κ ι where
  region := signingContext.region.or signing.region
  signingName := signingContext.signingName.or signing.signingName
  requestCredentials := signingContext.requestCredentials.or signing.requestCredentials
  identityCache := signingContext.identityCache.or signing.identityCache
  cacheKey := signingContext.cacheKey.or signing.cacheKey

/-- `del signing_context['region']`, if it is to be ignored -/
def withoutRegion (ignoreSigningRegion : Bool) (signingContext : SigningContext κ ι) : SigningContext κ ι :=
  if ignoreSigningRegion then { signingContext with region := none } else signingContext

/-- what the auth schemes of the endpoint make of the context -/
def overwriteAuth (authType : SignatureVersion) (signingContext : SigningContext κ ι) (c : Context κ ι η θ γ) :
    Context κ ι η θ γ :=
  { c with authType := some authType,
           signing := some (match c.signing with
             | some signing => update signing signingContext
             | none => signingContext) }

def resolveEndpointRuleset (params : π) (ignoreSigningRegion : Bool) : M κ ι η θ γ ρ δ σ ε (EndpointInfo η θ) := do
  if !C.hasRulesetResolver then
    return ⟨C.endpointUrl, [], ⟨none, none⟩⟩
  note .constructEndpoint
  let endpointInfo ← call (E.constructEndpoint params)
  match endpointInfo.properties.authSchemes with
  | none => return endpointInfo
  | some authSchemes => do
    let (authType, signingContext) ← ofExcept (E.authSchemesToSigningCtx authSchemes)
    modify fun s => { s with context := overwriteAuth authType (withoutRegion ignoreSigningRegion signingContext) s.context }
    return endpointInfo

/-- `request_dict['headers'].update(headers)` -/
def updateHeaders (headers : List (String × String)) (d : RequestDict β) : RequestDict β :=
  { d with headers := d.headers.filter (fun h => !(headers.map Prod.fst).contains h.1) ++ headers }

def convertToRequestDict (apiParams : π) (endpointUrl : String) (headers : List (String × String))
    (setUserAgentHeader : Bool) : M κ ι η θ γ ρ δ σ ε (RequestDict β) := do
  note .serialize
  let requestDict ← ofExcept (E.serializeToRequest apiParams)
  let requestDict := if C.injectHostPrefix then requestDict else { requestDict with hostPrefix := none }
  return E.prepareRequestDict endpointUrl (if setUserAgentHeader then some C.userAgent else none)
    (updateHeaders headers requestDict)

/-- `make_request` of the endpoint; `none` if the fuel runs out -/
def endpointMakeRequest (fuel : ℕ) (requestDict : RequestDict β) : M κ ι η θ γ ρ δ σ ε (Option (Response ρ δ)) := fun s =>
  let after (t : RetryLoop.St (World κ ι η θ γ β σ) ρ δ ε) : St κ ι η θ γ ρ δ σ ε :=
    ⟨t.world.context, t.world.world, s.log ++ t.log.map Event.request⟩
  match RetryLoop.sendRequest E.loop fuel (RetryLoop.start ⟨requestDict, s.context, s.world⟩) with
  | .error e t => .error (.other e) (after t)
  | .ok none t => .ok none (after t)
  | .ok (some (.error e)) t => .error (.other e) (after t)
  | .ok (some (.ok none)) t => .error .typeError (after t)
  | .ok (some (.ok (some r))) t => .ok (some r) (after t)

/-- the `except` clause of `_make_request`: `after-call-error` for an `Exception` -/
def requestFailed (operationName : String) (x : Exn δ ε) : M κ ι η θ γ ρ δ σ ε (Option (Response ρ δ)) :=
  match x with
  | .other e =>
    if E.loop.isException e then do
      note (.afterCallError e)
      call (E.afterCallError (eventName C "after-call-error" operationName) e)
      throw x
    else throw x
  | x => throw x

def makeRequest (operationName : String) (fuel : ℕ) (requestDict : RequestDict β) :
    M κ ι η θ γ ρ δ σ ε (Option (Response ρ δ)) := do
  note .makeRequest
  tryCatch (endpointMakeRequest E fuel requestDict) (requestFailed C E operationName)

def compressAndChecksum (requestDict : RequestDict β) : M κ ι η θ γ ρ δ σ ε (RequestDict β) := do
  note .compress
  let requestDict ← ofExcept (E.maybeCompressRequest requestDict)
  note .checksum
  pureCall (E.applyRequestChecksum requestDict)

/-- the request that is sent if no handler of `before-call` answers -/
def sendRequest (operationName : String) (fuel : ℕ) (requestDict : RequestDict β) :
    M κ ι η θ γ ρ δ σ ε (Option (Response ρ δ)) := do
  let requestDict ← compressAndChecksum E requestDict
  match ← makeRequest C E operationName fuel requestDict with
  | none => return none
  | some r => do
    note (.responded r)
    return some r

/-- from `after-call` on -/
def conclude (operationName : String) (r : Response ρ δ) : M κ ι η θ γ ρ δ σ ε (Parsed δ) := do
  note (.afterCall r)
  let r ← call (E.afterCall (eventName C "after-call" operationName) r)
  note (.concluded r)
  if E.statusCode r.http ≥ 300 then
    let context := (← get).context
    throw (.clientError ((Signers.truthy context.errorCodeOverride).or (E.errorCode r.parsed)) r.parsed)
  else return r.parsed

/-- the request dict of a call, for its parameters -/
def buildRequest (operationName : String) (apiParams : π) : M κ ι η θ γ ρ δ σ ε (RequestDict β) := do
  let apiParams ← emitApiParams C E operationName apiParams
  let endpointInfo ← resolveEndpointRuleset C E apiParams false
  if endpointInfo.properties.authSchemes.isSome || endpointInfo.properties.rest.isSome then
    modify fun s => { s with context := { s.context with endpointProperties := some endpointInfo.properties } }
  let requestDict ← convertToRequestDict C E apiParams endpointInfo.url endpointInfo.headers true
  pureCall (E.resolveChecksumContext apiParams requestDict)

/-- `auth_type` of the context a call begins with -/
def authType (op : Operation) : Option SignatureVersion :=
  match op.auth, Signers.truthy C.authSchemePreference with
  | scheme :: schemes, some preference =>
    E.resolveAuthSchemePreference (preference.splitOn ",") (scheme :: schemes)
  | _, _ => op.resolvedAuthType

/-- a call begins with a context of its own -/
def start (op : Operation) (rest : γ) (w : σ) : St κ ι η θ γ ρ δ σ ε :=
  ⟨⟨authType C E op, none, none, none, rest⟩, w, []⟩

def makeApiCall (operationName : String) (apiParams : π) (fuel : ℕ) : M κ ι η θ γ ρ δ σ ε (Option (Parsed δ)) := do
  let requestDict ← buildRequest C E operationName apiParams
  note .beforeCall
  let (response, requestDict) ← call (E.beforeCall (eventName C "before-call" operationName) requestDict)
  match response with
  | some r => do
    note (.answered r)
    return some (← conclude C E operationName r)
  | none => do
    match ← sendRequest C E operationName fuel requestDict with
    | none => return none
    | some r => return some (← conclude C E operationName r)

/-! ## What a stretch of a call logs -/

/-- all of `events` if it returns, and the first of them if it raises, which is then another's exception -/
def Emits (m : M κ ι η θ γ ρ δ σ ε α) (events : List (Event ρ δ ε)) : Prop :=
  ∀ s, Ends m s (fun _ t => t.log = s.log ++ events)
    fun x t => (∃ e, x = .other e) ∧ ∃ first, first <+: events ∧ t.log = s.log ++ first

theorem Emits.bind {m : M κ ι η θ γ ρ δ σ ε α} {τ : Type} {f : α → M κ ι η θ γ ρ δ σ ε τ}
    {events events' : List (Event ρ δ ε)} (h : Emits m events) (hf : ∀ a, Emits (f a) events') :
    Emits (m >>= f) (events ++ events') := by
  intro s
  apply Ends.bind
  refine (h s).mono (fun a t hlog => ?_) ?_
  · refine (hf a t).mono (fun b u hlog' => ?_) ?_
    · rw [hlog', hlog, List.append_assoc]
    · rintro x u ⟨he, first, hfirst, hlog'⟩
      refine ⟨he, events ++ first, (List.prefix_append_right_inj events).2 hfirst, ?_⟩
      rw [hlog', hlog, List.append_assoc]
  · rintro x t ⟨he, first, hfirst, hlog⟩
    exact ⟨he, first, hfirst.trans (List.prefix_append _ _), hlog⟩

theorem emits_pure (a : α) : Emits (pure a : M κ ι η θ γ ρ δ σ ε α) [] :=
  fun s => ends_pure (List.append_nil s.log).symm

theorem emits_note (x : Event ρ δ ε) : Emits (note x : M κ ι η θ γ ρ δ σ ε Unit) [x] := fun _ => ends_modify rfl

/-- the context may be changed at will -/
theorem emits_modify (f : Context κ ι η θ γ → Context κ ι η θ γ) :
    Emits (modify fun s => { s with context := f s.context } : M κ ι η θ γ ρ δ σ ε PUnit) [] :=
  fun s => ends_modify (List.append_nil s.log).symm

theorem emits_call (f : Context κ ι η θ γ → σ → Except ε α × Context κ ι η θ γ × σ) :
    Emits (call f : M κ ι η θ γ ρ δ σ ε α) [] := by
  intro s
  unfold Ends call
  rcases f s.context s.world with ⟨(e | a), c, w⟩
  · exact ⟨⟨e, rfl⟩, [], List.prefix_rfl, (List.append_nil s.log).symm⟩
  · exact (List.append_nil s.log).symm

theorem emits_pureCall (f : Context κ ι η θ γ → Except ε α × Context κ ι η θ γ) :
    Emits (pureCall f : M κ ι η θ γ ρ δ σ ε α) [] := emits_call _

theorem emits_ofExcept (x : Except ε α) : Emits (ofExcept x : M κ ι η θ γ ρ δ σ ε α) [] :=
  emits_pureCall fun c => (x, c)

theorem emitApiParams_emits (operationName : String) (apiParams : π) :
    Emits (emitApiParams C E operationName apiParams) [.provideClientParams, .beforeParameterBuild] :=
  (emits_note _).bind fun _ => (emits_call _).bind fun _ => (emits_note _).bind fun _ => emits_call _

/-- what is logged of the endpoint rules -/
def resolved : List (Event ρ δ ε) := if C.hasRulesetResolver then [.constructEndpoint] else []

theorem resolveEndpointRuleset_emits (params : π) (ignoreSigningRegion : Bool) :
    Emits (resolveEndpointRuleset C E params ignoreSigningRegion) (resolved C) := by
  unfold resolveEndpointRuleset resolved
  by_cases h : C.hasRulesetResolver = true
  · simp only [h, Bool.not_true, Bool.false_eq_true, if_false, if_true]
    refine (emits_note _).bind fun _ => (emits_call _).bind fun endpointInfo => ?_
    split
    · exact emits_pure _
    · exact (emits_ofExcept _).bind fun x =>
        (emits_modify (overwriteAuth x.1 (withoutRegion ignoreSigningRegion x.2))).bind fun _ => emits_pure _
  · simp only [h, Bool.not_false, if_true]
    exact emits_pure _

theorem convertToRequestDict_emits (apiParams : π) (endpointUrl : String) (headers : List (String × String))
    (setUserAgentHeader : Bool) :
    Emits (convertToRequestDict C E apiParams endpointUrl headers setUserAgentHeader) [.serialize] :=
  (emits_note _).bind fun _ => (emits_ofExcept _).bind fun _ => emits_pure _

theorem compressAndChecksum_emits (requestDict : RequestDict β) :
    Emits (compressAndChecksum E requestDict) [.compress, .checksum] :=
  (emits_note _).bind fun _ => (emits_ofExcept _).bind fun _ => (emits_note _).bind fun _ => emits_pureCall _

/-- what is logged until the request dict is there -/
def built : List (Event ρ δ ε) := [.provideClientParams, .beforeParameterBuild] ++ (resolved C ++ [.serialize])

theorem buildRequest_emits (operationName : String) (apiParams : π) :
    Emits (buildRequest C E operationName apiParams) (built C) := by
  refine (emitApiParams_emits C E operationName apiParams).bind fun params =>
    (resolveEndpointRuleset_emits C E params false).bind fun endpointInfo => ?_
  have hconvert : Emits (do
      let requestDict ← convertToRequestDict C E params endpointInfo.url endpointInfo.headers true
      pureCall (E.resolveChecksumContext params requestDict)) [.serialize] :=
    (convertToRequestDict_emits C E params _ _ true).bind fun _ => emits_pureCall _
  dsimp only
  split
  · exact (emits_modify fun c => { c with endpointProperties := some endpointInfo.properties }).bind fun _ => hconvert
  · exact hconvert

/-! ## The request -/

/-- the log of a loop that ended with a response: its last attempt's, and `RetryAttempts` counts the others -/
def Answers (r : Response ρ δ) (requests : List (RetryLoop.Event ρ ε)) : Prop :=
  ∃ sent first rounds stop, RetryLoop.Stops stop ∧
    requests = [.created 0, .attempt 0 sent first] ++ RetryLoop.history 0 rounds stop ∧
    RetryLoop.lastResult first rounds = .ok r.http ∧
    ∀ m, r.parsed.responseMetadata = some m → m.retryAttempts = some rounds.length

/-- the loop raises, at its end or out of a round -/
def Fails (e : ε) (requests : List (RetryLoop.Event ρ ε)) : Prop :=
  ∃ fuel w t, (RetryLoop.sendRequest E.loop fuel (RetryLoop.start w) = .error e t ∨
    RetryLoop.sendRequest E.loop fuel (RetryLoop.start w) = .ok (some (.error e)) t) ∧ requests = t.log

/-- the loop has a response or an exception when it ends -/
theorem sendRequest_answers {L : RetryLoop.Env σ ρ δ ε} {fuel : ℕ} {w : σ} {t : RetryLoop.St σ ρ δ ε}
    {r : Option (Response ρ δ)} (h : RetryLoop.sendRequest L fuel (RetryLoop.start w) = .ok (some (.ok r)) t) :
    ∃ r', r = some r' ∧ Answers r' t.log := by
  obtain ⟨hattempts, -, -, sent, first, rounds, stop, hstop, hlog, hout⟩ :=
    RetryLoop.send_request_accounting L fuel w t (.ok r) h
  have hrounds : RetryLoop.attempts t.log - 1 = rounds.length := by
    obtain ⟨-, hretries, -⟩ := RetryLoop.history_counts 0 rounds hstop
    calc RetryLoop.attempts t.log - 1 = RetryLoop.retries t.log := by rw [hattempts, Nat.add_sub_cancel_left]
      _ = RetryLoop.retries (RetryLoop.history 0 rounds stop) := by
        rw [hlog, RetryLoop.retries, List.countP_append]
        exact Nat.zero_add _
      _ = rounds.length := hretries
  rw [hrounds] at hout
  cases hlast : RetryLoop.lastResult first rounds with
  | error e =>
    rw [hlast] at hout
    cases hout
  | ok http =>
    rw [hlast] at hout
    obtain ⟨parsed, hparsed, hmetadata⟩ := hout
    cases hparsed
    exact ⟨_, rfl, sent, first, rounds, stop, hstop, hlog, hlast, hmetadata⟩

theorem endpointMakeRequest_ends (fuel : ℕ) (requestDict : RequestDict β) (s : St κ ι η θ γ ρ δ σ ε) :
    Ends (endpointMakeRequest E fuel requestDict) s
      (fun r t => ∃ requests, t.log = s.log ++ requests.map .request ∧ ∀ r' ∈ r, Answers r' requests)
      (fun x t => ∃ e requests, x = .other e ∧ Fails E e requests ∧ t.log = s.log ++ requests.map .request) := by
  unfold Ends endpointMakeRequest
  rcases h : RetryLoop.sendRequest E.loop fuel (RetryLoop.start ⟨requestDict, s.context, s.world⟩) with
    ⟨_ | e | _ | r, t⟩ | ⟨e, t⟩
  · exact ⟨t.log, rfl, by simp⟩
  · exact ⟨e, t.log, rfl, ⟨fuel, _, t, .inr h, rfl⟩, rfl⟩
  · obtain ⟨r, hr, -⟩ := sendRequest_answers h
    cases hr
  · obtain ⟨r', hr, hanswers⟩ := sendRequest_answers h
    cases hr
    exact ⟨t.log, rfl, fun r' hr => by cases hr; exact hanswers⟩
  · exact ⟨e, t.log, rfl, ⟨fuel, _, t, .inl h, rfl⟩, rfl⟩

/-- what is raised out of `_make_request`, and what is logged -/
inductive RequestFailed (operationName : String) : Exn δ ε → List (Event ρ δ ε) → Prop
  /-- a cancellation goes by unannounced -/
  | cancelled {e : ε} {requests : List (RetryLoop.Event ρ ε)} (h : Fails E e requests)
      (hexception : E.loop.isException e = false) :
      RequestFailed operationName (.other e) (requests.map .request)
  | announced {e : ε} {requests : List (RetryLoop.Event ρ ε)} (h : Fails E e requests)
      (hexception : E.loop.isException e = true) :
      RequestFailed operationName (.other e) (requests.map .request ++ [.afterCallError e])
  /-- a handler of `after-call-error` raises -/
  | replaced {e e' : ε} {requests : List (RetryLoop.Event ρ ε)} (h : Fails E e requests)
      (hexception : E.loop.isException e = true)
      (hraises : ∃ c w, (E.afterCallError (eventName C "after-call-error" operationName) e c w).1 = .error e') :
      RequestFailed operationName (.other e') (requests.map .request ++ [.afterCallError e])

theorem makeRequest_ends (operationName : String) (fuel : ℕ) (requestDict : RequestDict β)
    (s : St κ ι η θ γ ρ δ σ ε) :
    Ends (makeRequest C E operationName fuel requestDict) s
      (fun r t => ∃ requests, t.log = s.log ++ (.makeRequest :: requests.map .request) ∧ ∀ r' ∈ r, Answers r' requests)
      (fun x t => ∃ events, RequestFailed C E operationName x events ∧ t.log = s.log ++ (.makeRequest :: events)) := by
  apply Ends.bind
  apply ends_modify
  apply Ends.tryCatch
  refine (endpointMakeRequest_ends E fuel requestDict _).mono ?_ ?_
  · rintro r t ⟨requests, hlog, hr⟩
    exact ⟨requests, by simpa using hlog, hr⟩
  · rintro x t ⟨e, requests, rfl, hfails, hlog⟩
    have hlog' : t.log = s.log ++ (.makeRequest :: requests.map .request) := by simpa using hlog
    unfold requestFailed
    dsimp only
    split
    · rename_i hexception
      apply Ends.bind
      apply ends_modify
      apply Ends.bind
      unfold Ends call
      dsimp only
      rcases hcall : E.afterCallError (eventName C "after-call-error" operationName) e t.context t.world with
        ⟨(e' | _), c, w⟩
      · exact ⟨_, .replaced hfails hexception ⟨_, _, congrArg Prod.fst hcall⟩, by simp [hlog']⟩
      · exact ⟨_, .announced hfails hexception, by simp [hlog']⟩
    · rename_i hexception
      exact ends_throw ⟨_, .cancelled hfails (by simpa using hexception), hlog'⟩

/-- a request that is sent, or is not because of an exception on the way -/
theorem sendRequest_ends (operationName : String) (fuel : ℕ) (requestDict : RequestDict β)
    (s : St κ ι η θ γ ρ δ σ ε) :
    Ends (sendRequest C E operationName fuel requestDict) s
      (fun r t => ∃ requests, (∀ r' ∈ r, Answers r' requests) ∧
        t.log = s.log ++ ([.compress, .checksum, .makeRequest] ++ requests.map .request ++ (r.map Event.responded).toList))
      (fun x t => ((∃ e, x = .other e) ∧ ∃ first, first <+: [.compress, .checksum] ∧ t.log = s.log ++ first) ∨
        ∃ events, RequestFailed C E operationName x events ∧
          t.log = s.log ++ ([.compress, .checksum, .makeRequest] ++ events)) := by
  unfold sendRequest
  apply Ends.bind
  refine (compressAndChecksum_emits E requestDict s).mono ?_ fun x t h => .inl h
  intro requestDict t hlog
  apply Ends.bind
  refine (makeRequest_ends C E operationName fuel requestDict t).mono ?_ ?_
  · rintro r u ⟨requests, hlog', hr⟩
    cases r with
    | none => exact ends_pure ⟨requests, hr, by simp [hlog', hlog]⟩
    | some r =>
      apply Ends.bind
      apply ends_modify
      exact ends_pure ⟨requests, hr, by simp [hlog', hlog]⟩
  · rintro x u ⟨events, hfailed, hlog'⟩
    exact .inr ⟨events, hfailed, by simp [hlog', hlog]⟩

/-! ## The call -/

/-- where the response comes from, and what is logged from `before-call` on until it is there -/
inductive Answered (r : Response ρ δ) : List (Event ρ δ ε) → Prop
  | handler : Answered r [.beforeCall, .answered r]
  | endpoint {requests : List (RetryLoop.Event ρ ε)} (h : Answers r requests) :
      Answered r (.beforeCall :: ([.compress, .checksum, .makeRequest] ++ requests.map .request ++ [.responded r]))

/-- the ways a call may end, with the context it leaves and all it has logged -/
inductive Ended (operationName : String) (c : Context κ ι η θ γ) :
    Except (Exn δ ε) (Option (Parsed δ)) → List (Event ρ δ ε) → Prop
  | returns {r r' : Response ρ δ} {events : List (Event ρ δ ε)} (h : Answered r events)
      (hstatus : E.statusCode r'.http < 300) :
      Ended operationName c (.ok (some r'.parsed)) (built C ++ events ++ [.afterCall r, .concluded r'])
  | clientError {r r' : Response ρ δ} {events : List (Event ρ δ ε)} (h : Answered r events)
      (hstatus : 300 ≤ E.statusCode r'.http) :
      Ended operationName c
        (.error (.clientError ((Signers.truthy c.errorCodeOverride).or (E.errorCode r'.parsed)) r'.parsed))
        (built C ++ events ++ [.afterCall r, .concluded r'])
  /-- a handler of `after-call` raises -/
  | afterCall {r : Response ρ δ} {events : List (Event ρ δ ε)} (e : ε) (h : Answered r events) :
      Ended operationName c (.error (.other e)) (built C ++ events ++ [.afterCall r])
  /-- the request fails -/
  | failed {x : Exn δ ε} {events : List (Event ρ δ ε)} (h : RequestFailed C E operationName x events) :
      Ended operationName c (.error x)
        (built C ++ (.beforeCall :: ([.compress, .checksum, .makeRequest] ++ events)))
  /-- a handler, the rules or the serializer raises before there is a request -/
  | early {events : List (Event ρ δ ε)} (e : ε) (h : events <+: built C ++ [.beforeCall, .compress, .checksum]) :
      Ended operationName c (.error (.other e)) events
  /-- the fuel has run out -/
  | looping (requests : List (RetryLoop.Event ρ ε)) :
      Ended operationName c (.ok none)
        (built C ++ (.beforeCall :: ([.compress, .checksum, .makeRequest] ++ requests.map .request)))

theorem conclude_ends (operationName : String) {r : Response ρ δ} {events : List (Event ρ δ ε)}
    (h : Answered r events) (s : St κ ι η θ γ ρ δ σ ε) (hlog : s.log = built C ++ events) :
    Ends (conclude C E operationName r) s (fun parsed t => Ended C E operationName t.context (.ok (some parsed)) t.log)
      (fun x t => Ended C E operationName t.context (.error x) t.log) := by
  apply Ends.bind
  apply ends_modify
  apply Ends.bind
  unfold Ends call
  dsimp only
  rcases E.afterCall (eventName C "after-call" operationName) r s.context s.world with ⟨(e | r'), c, w⟩
  · dsimp only
    rw [hlog]
    exact .afterCall e h
  · apply Ends.bind
    apply ends_modify
    dsimp only
    rw [hlog, List.append_assoc]
    split
    · rename_i hstatus
      apply Ends.bind
      apply ends_get
      exact ends_throw (.clientError h hstatus)
    · rename_i hstatus
      exact ends_pure (.returns h (by omega))

/-- **API calls.** For any handlers, endpoint rules and server: a call that returns has a response below 300, and one
that raises a client error has one from 300 on, and `after-call` was emitted once, last of all, with the response of a
handler of `before-call`, and then nothing was created or sent, or of the last attempt of the one request it has made. A
request that fails is not followed by `after-call`, but by one `after-call-error` unless it was cancelled. All else that
is raised comes before the request is made, or from a handler of `after-call`, which was emitted once then too. -/
theorem api_call_protocol (op : Operation) (apiParams : π) (fuel : ℕ) (rest : γ) (w : σ) :
    Ends (makeApiCall C E op.name apiParams fuel) (start C E op rest w)
      (fun out t => Ended C E op.name t.context (.ok out) t.log)
      (fun x t => Ended C E op.name t.context (.error x) t.log) := by
  unfold makeApiCall
  apply Ends.bind
  refine (buildRequest_emits C E op.name apiParams _).mono ?_ ?_
  case refine_2 =>
    rintro x t ⟨⟨e, rfl⟩, first, hfirst, hlog⟩
    rw [hlog]
    exact .early e (hfirst.trans (List.prefix_append _ _))
  intro requestDict t hlog
  have hbuilt : t.log = built C := hlog
  apply Ends.bind
  apply ends_modify
  apply Ends.bind
  refine (emits_call _ _).mono ?_ ?_
  case refine_2 =>
    rintro x u ⟨⟨e, rfl⟩, first, hfirst, hlog'⟩
    rw [List.prefix_nil.1 hfirst] at hlog'
    rw [hlog', hbuilt]
    exact .early e (by simp)
  rintro ⟨response, requestDict⟩ u hlog'
  have hasked : u.log = built C ++ [.beforeCall] := by rw [hlog', hbuilt, List.append_nil]
  cases response with
  | some r =>
    apply Ends.bind
    apply ends_modify
    apply Ends.bind
    refine (conclude_ends C E op.name .handler _ (by simp [hasked])).mono ?_ fun _ _ => id
    exact fun parsed v h => ends_pure h
  | none =>
    apply Ends.bind
    refine (sendRequest_ends C E op.name fuel requestDict u).mono ?_ ?_
    · rintro r v ⟨requests, hr, hsent⟩
      cases r with
      | none =>
        refine ends_pure ?_
        have : v.log = built C ++ (.beforeCall :: ([.compress, .checksum, .makeRequest] ++ requests.map .request)) := by
          simp [hsent, hasked]
        rw [this]
        exact .looping requests
      | some r =>
        apply Ends.bind
        refine (conclude_ends C E op.name (.endpoint (hr r rfl)) v (by simp [hsent, hasked])).mono ?_ fun _ _ => id
        exact fun parsed v h => ends_pure h
    · rintro x v (⟨⟨e, rfl⟩, first, hfirst, hfailed⟩ | ⟨events, hfailed, hlog''⟩)
      · rw [hfailed, hasked]
        refine .early e ?_
        rw [List.append_assoc]
        exact (List.prefix_append_right_inj _).2 ((List.prefix_append_right_inj [Event.beforeCall]).2 hfirst)
      · have : v.log = built C ++ (.beforeCall :: ([.compress, .checksum, .makeRequest] ++ events)) := by
          simp [hlog'', hasked]
        rw [this]
        exact .failed hfailed

end AioBotocore.Client
