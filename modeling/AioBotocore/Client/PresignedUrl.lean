/-
`generate_presigned_url` of the client (`signers.py`): the parameters, the endpoint and the request dict are made as for
an API call (`ApiCall`), and the request is signed in its query string (`Signers`). The region that the endpoint rules
name is ignored unless the bucket is an ARN.

- `presignRequest_noRegion`: what the endpoint rules leave in the context of a bucket that is no ARN.
- `sign_region`: `sign` keeps to the region of its signer as long as no handler puts one in the context.
- `presigned_url_region`: a URL for a bucket that is no ARN is signed for the region of the client.
-/
import Mathlib.Tactic
import AioBotocore.Client.ApiCall

namespace AioBotocore.Client

open Program
open Signers (SignatureVersion SigningContext SigningType Auth)

variable {κ ι η θ γ β π ρ δ σ ε φ τ α : Type}

/-! ## Model -/

/-- what the signer is given: the request that is created for a request dict, with the context -/
abbrev Signable (κ ι η θ γ β : Type) := Signers.Request κ ι (RequestDict β × Context κ ι η θ γ)

def createRequest (d : RequestDict β) (c : Context κ ι η θ γ) : Signable κ ι η θ γ β := ⟨c.authType, c.signing, (d, c)⟩

inductive Outcome (κ φ τ ι ε : Type) where
  | unknownClientMethod (methodName : String)
  /-- the log of the signer, and the URL or what it raises -/
  | signed (bucketIsArn : Bool) (log : List (Signers.Event κ φ τ ι)) (result : Except (Signers.Exn ε) String)

/-- what presigning needs besides the client -/
structure Presigner (κ ι η θ γ β π φ τ σ ε : Type) where
  signer : Signers.Signer κ τ
  env : Signers.Env κ φ τ ι (RequestDict β × Context κ ι η θ γ) σ ε
  /-- `_PY_TO_OP_NAME` -/
  pyToOpName : String → Option String
  /-- `ArnParser.is_arn(params.get('Bucket', ''))` -/
  bucketIsArn : π → Bool
  url : Signable κ ι η θ γ β → String

variable (C : Config) (E : Env κ ι η θ γ β π ρ δ σ ε) (P : Presigner κ ι η θ γ β π φ τ σ ε)

def presignRequest (operationName : String) (params : π) (httpMethod : Option String) :
    M κ ι η θ γ ρ δ σ ε (Bool × RequestDict β) := do
  let params ← emitApiParams C E operationName params
  let bucketIsArn := P.bucketIsArn params
  let endpointInfo ← resolveEndpointRuleset C E params (!bucketIsArn)
  let requestDict ← convertToRequestDict C E params endpointInfo.url endpointInfo.headers false
  return (bucketIsArn, { requestDict with method := httpMethod.getD requestDict.method })

/-- the context is new; `rest` are its `is_presign_request` and `use_global_endpoint` -/
def presignStart (rest : γ) (w : σ) : St κ ι η θ γ ρ δ σ ε := ⟨⟨none, none, none, none, rest⟩, w, []⟩

def generatePresignedUrl (clientMethod : String) (params : π) (expiresIn : ℤ) (httpMethod : Option String) :
    M κ ι η θ γ ρ δ σ ε (Outcome κ φ τ ι ε) :=
  match P.pyToOpName clientMethod with
  | none => return .unknownClientMethod clientMethod
  | some operationName => do
    let (bucketIsArn, requestDict) ← presignRequest C E P operationName params httpMethod
    let s ← get
    match Signers.generatePresignedUrl P.signer P.env P.url operationName expiresIn none none
        ⟨createRequest requestDict s.context, s.world, []⟩ with
    | .ok url t => return .signed bucketIsArn t.log (.ok url)
    | .error e t => return .signed bucketIsArn t.log (.error e)

/-! ## The region in the context -/

/-- there is no region in the signing context -/
def NoRegion (signing : Option (SigningContext κ ι)) : Prop := ∀ c ∈ signing, c.region = none

/-- no handler puts a region in the context that had none -/
structure Env.KeepsNoRegion : Prop where
  provideClientParams : ∀ n p c w, NoRegion c.signing → NoRegion (E.provideClientParams n p c w).2.1.signing
  beforeParameterBuild : ∀ n p c w, NoRegion c.signing → NoRegion (E.beforeParameterBuild n p c w).2.1.signing
  constructEndpoint : ∀ p c w, NoRegion c.signing → NoRegion (E.constructEndpoint p c w).2.1.signing

/-- `I` holds of the context, and does so when `m` returns -/
def Maintains (I : Context κ ι η θ γ → Prop) (m : M κ ι η θ γ ρ δ σ ε α) : Prop :=
  ∀ s, I s.context → Ends m s (fun _ t => I t.context) fun _ _ => True

variable {I : Context κ ι η θ γ → Prop}

theorem Maintains.bind {ν : Type} {m : M κ ι η θ γ ρ δ σ ε α} {f : α → M κ ι η θ γ ρ δ σ ε ν} (h : Maintains I m)
    (hf : ∀ a, Maintains I (f a)) : Maintains I (m >>= f) := by
  intro s hs
  apply Ends.bind
  exact (h s hs).mono (fun a t ht => hf a t ht) fun _ _ => id

theorem maintains_pure (a : α) : Maintains I (pure a : M κ ι η θ γ ρ δ σ ε α) := fun _ h => ends_pure h

theorem maintains_note (x : Event ρ δ ε) : Maintains I (note x : M κ ι η θ γ ρ δ σ ε Unit) := fun _ h => ends_modify h

theorem maintains_call {f : Context κ ι η θ γ → σ → Except ε α × Context κ ι η θ γ × σ}
    (h : ∀ c w, I c → I (f c w).2.1) : Maintains I (call f : M κ ι η θ γ ρ δ σ ε α) := by
  intro s hs
  have hc := h s.context s.world hs
  unfold Ends call
  rcases hf : f s.context s.world with ⟨(e | a), c, w⟩
  · exact trivial
  · rw [hf] at hc
    exact hc

theorem maintains_ofExcept (x : Except ε α) : Maintains I (ofExcept x : M κ ι η θ γ ρ δ σ ε α) :=
  fun s hs => maintains_call (f := fun c w => (x, c, w)) (fun _ _ h => h) s hs

variable {E}

theorem emitApiParams_noRegion (hE : E.KeepsNoRegion) (operationName : String) (params : π) :
    Maintains (fun c => NoRegion c.signing) (emitApiParams C E operationName params) :=
  (maintains_note _).bind fun _ => (maintains_call (hE.provideClientParams _ _)).bind fun _ =>
    (maintains_note _).bind fun _ => maintains_call (hE.beforeParameterBuild _ _)

theorem overwriteAuth_noRegion (authType : SignatureVersion) (signingContext : SigningContext κ ι)
    {c : Context κ ι η θ γ} (h : NoRegion c.signing) :
    NoRegion (overwriteAuth authType (withoutRegion true signingContext) c).signing := by
  intro c' hc'
  simp only [overwriteAuth] at hc'
  cases hsigning : c.signing with
  | none =>
    rw [hsigning] at hc'
    cases hc'
    rfl
  | some signing =>
    rw [hsigning] at hc'
    cases hc'
    exact h signing hsigning

theorem resolveEndpointRuleset_noRegion (hE : E.KeepsNoRegion) (params : π) :
    Maintains (fun c => NoRegion c.signing) (resolveEndpointRuleset C E params true) := by
  unfold resolveEndpointRuleset
  split
  · exact maintains_pure _
  · refine (maintains_note _).bind fun _ => (maintains_call (hE.constructEndpoint params)).bind fun endpointInfo => ?_
    split
    · exact maintains_pure _
    · refine (maintains_ofExcept _).bind fun x => ?_
      refine Maintains.bind (fun s hs => ends_modify ?_) fun _ => maintains_pure _
      exact overwriteAuth_noRegion x.1 x.2 hs

/-- for a bucket that is no ARN, the region of the endpoint does not get into the context -/
theorem presignRequest_noRegion (hE : E.KeepsNoRegion) (operationName : String) (params : π)
    (httpMethod : Option String) (s : St κ ι η θ γ ρ δ σ ε) (hs : NoRegion s.context.signing) :
    Ends (presignRequest C E P operationName params httpMethod) s
      (fun x t => x.1 = false → NoRegion t.context.signing) fun _ _ => True := by
  unfold presignRequest
  apply Ends.bind
  refine (emitApiParams_noRegion C hE operationName params s hs).mono ?_ fun _ _ => id
  intro params t ht
  dsimp only
  cases hbucket : P.bucketIsArn params with
  | true =>
    apply Ends.bind
    refine ends_true.mono (fun endpointInfo u _ => ?_) fun _ _ => id
    apply Ends.bind
    exact ends_true.mono (fun _ _ _ => ends_pure fun h => by cases h) fun _ _ => id
  | false =>
    apply Ends.bind
    refine (resolveEndpointRuleset_noRegion C hE params t ht).mono ?_ fun _ _ => id
    intro endpointInfo u hu
    apply Ends.bind
    have hconvert : Maintains (fun c => NoRegion c.signing)
        (convertToRequestDict C E params endpointInfo.url endpointInfo.headers false) :=
      (maintains_note _).bind fun _ => (maintains_ofExcept _).bind fun _ => maintains_pure _
    refine (hconvert u hu).mono ?_ fun _ _ => id
    exact fun _ v hv => ends_pure fun _ => hv

/-! ## The region of the signature -/

variable {P}

/-- without a region in the context and without one of the caller, the region is the signer's -/
theorem signingKwargs_region (S : Signers.Signer κ τ) (expiresIn : Option ℤ) (version : SignatureVersion)
    {signing : SigningContext κ ι} (h : signing.region = none) :
    (Signers.signingKwargs S none expiresIn none version signing).regionName = S.regionName := by
  simp [Signers.signingKwargs, Signers.truthy, h]

/-- an instance is given the region it is made for -/
theorem made_region {S : Signers.Signer κ τ} {kwargs : Signers.Kwargs κ ι} {cls : Signers.AuthClass}
    {got : List (Signers.Event κ φ τ ι)} {frozen : Option φ} {expires : Option ℤ} {region : Option String}
    {service : Option String} {cache : Option ι} {key : Option String}
    (h : Signers.Made S kwargs cls got (.credentials frozen expires (some region) service cache key)) :
    region = kwargs.regionName := by
  cases h with
  | regional => rfl

/-- the signature of a request without a region in its context -/
theorem sign_region (hP : P.env.Maintains fun r => NoRegion r.signing) (operationName : String) (expiresIn : ℤ)
    (r : Signable κ ι η θ γ β) (hr : NoRegion r.signing) (w : σ) :
    Ends (Signers.generatePresignedUrl P.signer P.env P.url operationName expiresIn none none) ⟨r, w, []⟩
      (fun _ t => ∀ name frozen expires region service cache key,
        Signers.Event.addAuth name (.credentials frozen expires (some region) service cache key) ∈ t.log →
          region = P.signer.regionName)
      fun _ _ => True := by
  unfold Signers.generatePresignedUrl
  apply Ends.bind
  refine (Signers.sign_ends P.signer hP operationName none .presignUrl (some expiresIn) none ⟨r, w, []⟩ hr).mono ?_
    fun _ _ _ => trivial
  rintro _ t ⟨asked, response, asked', r', events, hr', -, hsigned, hlog⟩
  apply Ends.bind
  apply ends_get
  refine ends_pure fun name frozen expires region service cache key hmem => ?_
  have hregion : r'.signingContext.region = none := by
    unfold Signers.Request.signingContext
    cases hsigning : r'.signing with
    | none => rfl
    | some c => exact hr' c hsigning
  have hevents : Signers.Event.addAuth name (.credentials frozen expires (some region) service cache key) ∈ events := by
    rw [hlog] at hmem
    simpa using hmem
  cases hsigned with
  | unsigned => cases hevents
  | signed hversion hclass hmade =>
    rcases List.mem_append.1 hevents with hgot | hadd
    · cases hmade.fetches _ hgot
    · rw [List.mem_singleton] at hadd
      cases hadd
      exact (made_region hmade).trans (signingKwargs_region _ _ _ hregion)

/-- **The region of a presigned URL.** As long as no handler puts a region in the context, a URL for a bucket that is
not an ARN is signed for the region of the client, whatever region the endpoint rules name. -/
theorem presigned_url_region (hE : E.KeepsNoRegion) (hP : P.env.Maintains fun r => NoRegion r.signing)
    (clientMethod : String) (params : π) (expiresIn : ℤ) (httpMethod : Option String) (rest : γ) (w : σ) :
    Ends (generatePresignedUrl C E P clientMethod params expiresIn httpMethod) (presignStart rest w)
      (fun out _ => ∀ log url, out = .signed false log (.ok url) →
        ∀ name frozen expires region service cache key,
          Signers.Event.addAuth name (.credentials frozen expires (some region) service cache key) ∈ log →
            region = P.signer.regionName)
      fun _ _ => True := by
  unfold generatePresignedUrl
  split
  · exact ends_pure fun log url h => by cases h
  · rename_i operationName hname
    apply Ends.bind
    refine (presignRequest_noRegion C P hE operationName params httpMethod _ ?_).mono ?_ fun _ _ => id
    · intro c hc
      cases hc
    · rintro ⟨bucketIsArn, requestDict⟩ t ht
      apply Ends.bind
      apply ends_get
      have hsign (hbucket : bucketIsArn = false) :=
        sign_region hP operationName expiresIn (createRequest requestDict t.context) (ht hbucket) t.world
      split
      · rename_i url u hurl
        refine ends_pure fun log url' h => ?_
        cases h
        exact (hsign rfl).ok hurl
      · exact ends_pure fun log url h => by cases h

/-! ## An instance -/

def euConfig : Config where
  serviceId := "s3"
  endpointUrl := "https://s3.eu-central-1.amazonaws.com"
  hasRulesetResolver := true
  injectHostPrefix := true
  userAgent := "aiobotocore"
  authSchemePreference := none

/-- rules that send every request to another region and name it -/
def elsewhere : Env Unit Unit Unit Unit Unit Unit String Unit Unit Unit String where
  resolveAuthSchemePreference _ _ := none
  provideClientParams _ p c w := (.ok ([], p), c, w)
  beforeParameterBuild _ p c w := (.ok p, c, w)
  constructEndpoint _ c w := (.ok ⟨"https://s3.us-west-2.amazonaws.com", [], ⟨some (), none⟩⟩, c, w)
  authSchemesToSigningCtx _ := .ok (.named "v4", ⟨some "us-west-2", some "s3", none, none, none⟩)
  serializeToRequest _ := .ok ⟨"", none, [], "GET", ()⟩
  prepareRequestDict url _ d := { d with url := url }
  resolveChecksumContext _ d c := (.ok d, c)
  beforeCall _ d c w := (.ok (none, d), c, w)
  maybeCompressRequest := .ok
  applyRequestChecksum d c := (.ok d, c)
  loop :=
    { isException := fun _ => true
      create := fun _ w => (.ok (), w)
      beforeSend := fun _ w => (.ok [], w)
      send := fun _ w => (.ok (), w)
      parse := fun _ w => (.ok ⟨none, ()⟩, w)
      responseReceived := fun _ _ w => ⟨.ok (), id, w⟩
      needsRetry := fun _ _ _ w => ⟨.ok [], id, w⟩
      sleep := fun _ w => (.ok (), w)
      resetStream := fun _ w => (.ok (), w) }
  afterCallError _ _ c w := (.ok (), c, w)
  afterCall _ r c w := (.ok r, c, w)
  statusCode _ := 200
  errorCode _ := none

def euPresigner : Presigner Unit Unit Unit Unit Unit Unit String ℕ Unit Unit String where
  signer := ⟨"s3", some "eu-central-1", "s3", .named "s3v4", some (), none⟩
  env :=
    { chooseSigner := fun _ _ r w => (.ok (some (.named "s3v4")), r, w)
      beforeSign := fun _ _ r w => (.ok (), r, w)
      authTypeMaps := fun name => if name = "s3v4-query" then some ⟨false, true, false⟩ else none
      getFrozenCredentials := fun _ w => (.ok 7, w)
      getFrozenToken := fun w => (.ok (), w)
      getCredentials := fun _ _ w => (.ok (), w)
      addAuth := fun _ _ r w => (.ok (), r, w) }
  pyToOpName name := if name = "get_object" then some "GetObject" else none
  bucketIsArn bucket := "arn:".toList.isPrefixOf bucket.toList
  url r := r.rest.1.url

def euLog : List (Signers.Event Unit ℕ Unit Unit) :=
  [.chooseSigner ⟨"s3", some "eu-central-1", .named "v4-query"⟩ (some (.named "s3v4")),
    .beforeSign ⟨"s3", some "eu-central-1", .named "s3v4-query"⟩ ⟨none, some "s3", none, none, none⟩,
    .frozenCredentials () 7,
    .addAuth "s3v4-query" (.credentials (some 7) (some 3600) (some (some "eu-central-1")) (some "s3") none none)]

theorem presigned_url_region_eu :
    ∃ url t, generatePresignedUrl euConfig elsewhere euPresigner "get_object" "bucket" 3600 none (presignStart () ()) =
        .ok (.signed false euLog (.ok url)) t ∧ some "eu-central-1" = euPresigner.signer.regionName := by
  have hrun : ∃ url t, generatePresignedUrl euConfig elsewhere euPresigner "get_object" "bucket" 3600 none
      (presignStart () ()) = .ok (.signed false euLog (.ok url)) t := ⟨_, _, rfl⟩
  obtain ⟨url, t, hrun⟩ := hrun
  refine ⟨url, t, hrun, ?_⟩
  have hE : elsewhere.KeepsNoRegion := ⟨fun _ _ _ _ h => h, fun _ _ _ _ h => h, fun _ _ _ h => h⟩
  exact (presigned_url_region euConfig hE ⟨fun _ _ _ _ h => h, fun _ _ _ _ h => h⟩ "get_object" "bucket" 3600 none ()
    ()).ok hrun euLog url rfl "s3v4-query" (some 7) (some 3600) (some "eu-central-1") (some "s3") none none (by decide)

end AioBotocore.Client
