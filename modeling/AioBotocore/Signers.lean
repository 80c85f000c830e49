/-
`AioRequestSigner` of `signers.py`: `sign`, `_choose_signer` and `get_auth_instance`, and `generate_presigned_url` over
them. The handlers of `choose-signer` and `before-sign` are any functions: they may raise, and may change the request and
its context. So are the objects that credentials and tokens are taken from, and what `add_auth` does to the request; the
classes of `AUTH_TYPE_MAPS` are those of botocore.

The run keeps a log of what the signer asks for and of the authentication that it adds to the request.

- `Signed`: what a request is signed with, in terms of the context that the handlers of `before-sign` leave.
- `sign_ends`: how `sign` ends, for any handlers.
- `presigned_url`: a presigned URL is unsigned or signed once, with a version for query strings.
-/
import Mathlib.Tactic
import AioBotocore.Program

namespace AioBotocore.Signers

open Program

variable {κ φ τ ι ρ σ ε α : Type}

/-! ## Requests, signers and what they call -/

/-- `botocore.UNSIGNED`, or the name of a version -/
inductive SignatureVersion where
  | unsigned
  | named (name : String)
deriving DecidableEq, Repr

inductive SigningType where
  | standard
  | presignUrl
  | presignPost
deriving DecidableEq, Repr

/-- `signing_type_suffix_map` -/
def SigningType.suffix : SigningType → String
  | .standard => ""
  | .presignUrl => "-query"
  | .presignPost => "-presign-post"

/-- `context['signing']`; `κ` are credentials objects, `ι` identity caches -/
structure SigningContext (κ ι : Type) where
  region : Option String
  signingName : Option String
  requestCredentials : Option κ
  identityCache : Option ι
  cacheKey : Option String
deriving DecidableEq, Repr

/-- a request with its context; `rest` is all that only handlers and `add_auth` look at -/
structure Request (κ ι ρ : Type) where
  /-- `context['auth_type']` -/
  authType : Option SignatureVersion
  /-- `context['signing']` -/
  signing : Option (SigningContext κ ι)
  rest : ρ

/-- `request.context.get('signing', {})` -/
def Request.signingContext (r : Request κ ι ρ) : SigningContext κ ι := r.signing.getD ⟨none, none, none, none, none⟩

inductive Exn (ε : Type) where
  | unknownSignatureVersion (version : SignatureVersion)
  | unsupportedSignatureVersion (version : SignatureVersion)
  | noRegion
  | keyError (key : String)
  | other (e : ε)
deriving DecidableEq, Repr

/-- `_auth_token`, which is frozen or is frozen for each signature -/
inductive AuthToken (τ : Type) where
  | frozen (token : τ)
  | refreshable
deriving DecidableEq, Repr

/-- the attributes of an `AioRequestSigner` -/
structure Signer (κ τ : Type) where
  serviceId : String
  regionName : Option String
  signingName : String
  signatureVersion : SignatureVersion
  credentials : Option κ
  authToken : Option (AuthToken τ)

/-- a class of `AUTH_TYPE_MAPS` -/
structure AuthClass where
  requiresToken : Bool
  requiresRegion : Bool
  requiresIdentityCache : Bool
deriving DecidableEq, Repr

/-- what a class is instantiated with -/
inductive Auth (φ τ ι : Type) where
  | token (frozen : Option τ)
  /-- the region may be `None`, and is not given to a class that does not require one -/
  | credentials (frozen : Option φ) (expires : Option ℤ) (region : Option (Option String)) (service : Option String)
      (identityCache : Option ι) (cacheKey : Option String)
deriving DecidableEq, Repr

/-- what the handlers of `choose-signer` and `before-sign` are told -/
structure Asked where
  signingName : String
  regionName : Option String
  signatureVersion : SignatureVersion
deriving DecidableEq, Repr

/-- what a signer calls -/
structure Env (κ φ τ ι ρ σ ε : Type) where
  /-- the first answer of a handler of the event that is not `None` -/
  chooseSigner : String → Asked → Request κ ι ρ → σ → Except (Exn ε) (Option SignatureVersion) × Request κ ι ρ × σ
  beforeSign : String → Asked → Request κ ι ρ → σ → Except (Exn ε) Unit × Request κ ι ρ × σ
  authTypeMaps : String → Option AuthClass
  getFrozenCredentials : κ → σ → Except (Exn ε) φ × σ
  getFrozenToken : σ → Except (Exn ε) τ × σ
  /-- `get_credentials` of an identity cache -/
  getCredentials : ι → String → σ → Except (Exn ε) κ × σ
  /-- the class is instantiated, and adds the signature to the request -/
  addAuth : String → Auth φ τ ι → Request κ ι ρ → σ → Except (Exn ε) Unit × Request κ ι ρ × σ

/-! ## Model -/

inductive Event (κ φ τ ι : Type) where
  | chooseSigner (asked : Asked) (response : Option SignatureVersion)
  /-- the handlers of `before-sign` leave the context like this -/
  | beforeSign (asked : Asked) (signing : SigningContext κ ι)
  | frozenToken (frozen : τ)
  | identity (cache : ι) (key : String) (credentials : κ)
  | frozenCredentials (credentials : κ) (frozen : φ)
  /-- the class with this name is instantiated, for its `add_auth` -/
  | addAuth (name : String) (auth : Auth φ τ ι)
deriving DecidableEq, Repr

structure St (κ φ τ ι ρ σ : Type) where
  request : Request κ ι ρ
  world : σ
  log : List (Event κ φ τ ι)

abbrev M (κ φ τ ι ρ σ ε : Type) := EStateM (Exn ε) (St κ φ τ ι ρ σ)

/-- a call that is given the request -/
def call (f : Request κ ι ρ → σ → Except (Exn ε) α × Request κ ι ρ × σ) : M κ φ τ ι ρ σ ε α := fun s =>
  match f s.request s.world with
  | (.error e, r, w) => .error e { s with request := r, world := w }
  | (.ok a, r, w) => .ok a { s with request := r, world := w }

/-- a call that is not -/
def await (f : σ → Except (Exn ε) α × σ) : M κ φ τ ι ρ σ ε α := call fun r w => ((f w).1, r, (f w).2)

def note (x : Event κ φ τ ι) : M κ φ τ ι ρ σ ε Unit := modify fun s => { s with log := s.log ++ [x] }

/-- a string that counts as true -/
def truthy (x : Option String) : Option String := x.filter (· ≠ "")

/-- `signature_version += suffix`, unless it is `UNSIGNED` or ends so already -/
def withSuffix (signingType : SigningType) : SignatureVersion → SignatureVersion
  | .unsigned => .unsigned
  | .named name =>
    if signingType.suffix.toList <:+ name.toList then .named name else .named (name ++ signingType.suffix)

variable (S : Signer κ τ) (E : Env κ φ τ ι ρ σ ε)

/-- `context.get('auth_type') or self._signature_version` -/
def signatureVersion (r : Request κ ι ρ) : SignatureVersion :=
  (r.authType.filter (· ≠ .named "")).getD S.signatureVersion

def chooseSigner (operationName : String) (signingType : SigningType) : M κ φ τ ι ρ σ ε SignatureVersion := do
  let request := (← get).request
  let version := withSuffix signingType (signatureVersion S request)
  let asked : Asked :=
    ⟨request.signingContext.signingName.getD S.signingName, request.signingContext.region.or S.regionName, version⟩
  let response ← call (E.chooseSigner ("choose-signer." ++ S.serviceId ++ "." ++ operationName) asked)
  note (.chooseSigner asked response)
  match response with
  | none => return version
  | some chosen => return withSuffix signingType chosen

/-- the arguments of `get_auth_instance` -/
structure Kwargs (κ ι : Type) where
  signingName : String
  regionName : Option String
  signatureVersion : Option SignatureVersion
  expires : Option ℤ
  requestCredentials : Option κ
  identityCache : Option ι
  cacheKey : Option String

/-- `AUTH_TYPE_MAPS.get(signature_version)` -/
def authClass : SignatureVersion → Option AuthClass
  | .unsigned => none
  | .named name => E.authTypeMaps name

def frozenToken : M κ φ τ ι ρ σ ε (Option τ) :=
  match S.authToken with
  | none => return none
  | some (.frozen token) => return some token
  | some .refreshable => do
    let token ← await E.getFrozenToken
    note (.frozenToken token)
    return some token

/-- the credentials object, and `kwargs['cache_key']` as it is left -/
def credentialsOf (kwargs : Kwargs κ ι) (cls : AuthClass) : M κ φ τ ι ρ σ ε (Option κ × Option String) :=
  if cls.requiresIdentityCache then
    match kwargs.identityCache, kwargs.cacheKey with
    | none, _ => throw (.keyError "identity_cache")
    | some _, none => throw (.keyError "cache_key")
    | some cache, some key => do
      let credentials ← await (E.getCredentials cache key)
      note (.identity cache key credentials)
      return (some credentials, none)
  else return (kwargs.requestCredentials.or S.credentials, kwargs.cacheKey)

def freeze : Option κ → M κ φ τ ι ρ σ ε (Option φ)
  | none => return none
  | some credentials => do
    let frozen ← await (E.getFrozenCredentials credentials)
    note (.frozenCredentials credentials frozen)
    return some frozen

def getAuthInstance (kwargs : Kwargs κ ι) : M κ φ τ ι ρ σ ε (Auth φ τ ι) := do
  let version := kwargs.signatureVersion.getD S.signatureVersion
  match authClass E version with
  | none => throw (.unknownSignatureVersion version)
  | some cls =>
    if cls.requiresToken then
      return .token (← frozenToken S E)
    let (credentials, cacheKey) ← credentialsOf S E kwargs cls
    let frozen ← freeze E credentials
    if cls.requiresRegion then
      if S.regionName.isNone then throw .noRegion
      return .credentials frozen kwargs.expires (some kwargs.regionName) (some kwargs.signingName) kwargs.identityCache
        cacheKey
    return .credentials frozen kwargs.expires none none kwargs.identityCache cacheKey

/-- the keyword arguments that `sign` makes of its own arguments and of the context -/
def signingKwargs (regionName : Option String) (expiresIn : Option ℤ) (signingName : Option String)
    (version : SignatureVersion) (signing : SigningContext κ ι) : Kwargs κ ι where
  signingName := (truthy signing.signingName).getD (signingName.getD S.signingName)
  regionName :=
    match truthy regionName, truthy signing.region with
    | none, some region => some region
    | _, _ => regionName.or S.regionName
  signatureVersion := some version
  expires := expiresIn
  requestCredentials := signing.requestCredentials
  identityCache := signing.identityCache
  cacheKey := if signing.identityCache.isSome then signing.cacheKey else none

/-- the `except` clause of `sign` -/
def unsupported (signingType : SigningType) (version : SignatureVersion) (e : Exn ε) : M κ φ τ ι ρ σ ε (Auth φ τ ι) :=
  match e with
  | .unknownSignatureVersion _ =>
    if signingType ≠ .standard then throw (.unsupportedSignatureVersion version) else throw e
  | _ => throw e

def sign (operationName : String) (regionName : Option String) (signingType : SigningType) (expiresIn : Option ℤ)
    (signingName : Option String) : M κ φ τ ι ρ σ ε Unit := do
  let version ← chooseSigner S E operationName signingType
  let asked : Asked := ⟨signingName.getD S.signingName, S.regionName, version⟩
  call (E.beforeSign ("before-sign." ++ S.serviceId ++ "." ++ operationName) asked)
  let signing := (← get).request.signingContext
  note (.beforeSign asked signing)
  match version with
  | .unsigned => return ()
  | .named name =>
    if signing.identityCache.isSome && signing.cacheKey.isNone then
      throw (.keyError "cache_key")
    let auth ← tryCatch (getAuthInstance S E (signingKwargs S regionName expiresIn signingName version signing))
      (unsupported signingType version)
    note (.addAuth name auth)
    call (E.addAuth name auth)

/-- `generate_presigned_url` of the signer, on the request that was created; `url` is `request.url` once it is
prepared -/
def generatePresignedUrl (url : Request κ ι ρ → String) (operationName : String) (expiresIn : ℤ)
    (regionName signingName : Option String) : M κ φ τ ι ρ σ ε String := do
  sign S E operationName regionName .presignUrl (some expiresIn) signingName
  return url (← get).request

/-! ## Calls -/

theorem ends_call {f : Request κ ι ρ → σ → Except (Exn ε) α × Request κ ι ρ × σ} {s : St κ φ τ ι ρ σ}
    {q : α → St κ φ τ ι ρ σ → Prop} {r : Exn ε → St κ φ τ ι ρ σ → Prop}
    (hq : ∀ a request w, f s.request s.world = (.ok a, request, w) → q a { s with request := request, world := w })
    (hr : ∀ e request w, r e { s with request := request, world := w }) : Ends (call f) s q r := by
  unfold Ends call
  rcases hf : f s.request s.world with ⟨(e | a), request, w⟩
  · exact hr e request w
  · exact hq a request w hf

theorem ends_await {f : σ → Except (Exn ε) α × σ} {s : St κ φ τ ι ρ σ} {q : α → St κ φ τ ι ρ σ → Prop}
    {r : Exn ε → St κ φ τ ι ρ σ → Prop} (hq : ∀ a w, q a { s with world := w }) (hr : ∀ e w, r e { s with world := w }) :
    Ends (await f) s q r := by
  rcases hf : f s.world with ⟨(e | a), w⟩
  · simpa only [Ends, await, call, hf] using hr e w
  · simpa only [Ends, await, call, hf] using hq a w

/-! ## The instance -/

/-- a step on the way to an instance -/
def Event.isFetch : Event κ φ τ ι → Bool
  | .frozenToken _ | .identity _ _ _ | .frozenCredentials _ _ => true
  | _ => false

/-- where the credentials of an instance come from: the identity cache under the key of the context for a class that
requires one, else the credentials of the request, else those of the client -/
inductive Owner (kwargs : Kwargs κ ι) (cls : AuthClass) : List (Event κ φ τ ι) → Option κ → Option String → Prop
  | identity {cache : ι} {key : String} (credentials : κ) (hcls : cls.requiresIdentityCache = true)
      (hcache : kwargs.identityCache = some cache) (hkey : kwargs.cacheKey = some key) :
      Owner kwargs cls [.identity cache key credentials] (some credentials) none
  | own (hcls : cls.requiresIdentityCache = false) :
      Owner kwargs cls [] (kwargs.requestCredentials.or S.credentials) kwargs.cacheKey

/-- what is frozen for an instance: nothing, or the credentials once -/
inductive Frozen : Option κ → List (Event κ φ τ ι) → Option φ → Prop
  | anonymous : Frozen none [] none
  | frozen (credentials : κ) (frozen : φ) : Frozen (some credentials) [.frozenCredentials credentials frozen] (some frozen)

/-- what an instance of a class is made of, and what was fetched for it -/
inductive Made (kwargs : Kwargs κ ι) (cls : AuthClass) : List (Event κ φ τ ι) → Auth φ τ ι → Prop
  | anonymous (hcls : cls.requiresToken = true) (htoken : S.authToken = none) : Made kwargs cls [] (.token none)
  | token {token : τ} (hcls : cls.requiresToken = true) (htoken : S.authToken = some (.frozen token)) :
      Made kwargs cls [] (.token (some token))
  | frozenToken (token : τ) (hcls : cls.requiresToken = true) (htoken : S.authToken = some .refreshable) :
      Made kwargs cls [.frozenToken token] (.token (some token))
  | regional {found froze : List (Event κ φ τ ι)} {owner : Option κ} {key : Option String} {frozen : Option φ}
      (hcls : cls.requiresToken = false) (howner : Owner S kwargs cls found owner key) (hfrozen : Frozen owner froze frozen)
      (hregion : cls.requiresRegion = true) (hsigner : S.regionName.isSome) :
      Made kwargs cls (found ++ froze)
        (.credentials frozen kwargs.expires (some kwargs.regionName) (some kwargs.signingName) kwargs.identityCache key)
  | global {found froze : List (Event κ φ τ ι)} {owner : Option κ} {key : Option String} {frozen : Option φ}
      (hcls : cls.requiresToken = false) (howner : Owner S kwargs cls found owner key) (hfrozen : Frozen owner froze frozen)
      (hregion : cls.requiresRegion = false) :
      Made kwargs cls (found ++ froze) (.credentials frozen kwargs.expires none none kwargs.identityCache key)

/-- the request is as it was, and only fetches were added to the log -/
def Fetches (s t : St κ φ τ ι ρ σ) (got : List (Event κ φ τ ι)) : Prop :=
  t.request = s.request ∧ t.log = s.log ++ got ∧ ∀ x ∈ got, x.isFetch = true

theorem Fetches.refl (s : St κ φ τ ι ρ σ) : Fetches s s [] := ⟨rfl, (List.append_nil _).symm, by simp⟩

theorem Fetches.trans {s t u : St κ φ τ ι ρ σ} {got got' : List (Event κ φ τ ι)} (h : Fetches s t got)
    (h' : Fetches t u got') : Fetches s u (got ++ got') := by
  obtain ⟨hrequest, hlog, hgot⟩ := h
  obtain ⟨hrequest', hlog', hgot'⟩ := h'
  refine ⟨hrequest'.trans hrequest, by rw [hlog', hlog, List.append_assoc], fun x hx => ?_⟩
  rcases List.mem_append.1 hx with hx | hx
  · exact hgot x hx
  · exact hgot' x hx

/-- a failure leaves fetches behind, and no more -/
def Leaves (s : St κ φ τ ι ρ σ) : Exn ε → St κ φ τ ι ρ σ → Prop := fun _ t => ∃ got, Fetches s t got

theorem Leaves.after {s t u : St κ φ τ ι ρ σ} {got : List (Event κ φ τ ι)} {e : Exn ε} (h : Fetches s t got)
    (h' : Leaves t e u) : Leaves s e u := by
  obtain ⟨got', h'⟩ := h'
  exact ⟨got ++ got', h.trans h'⟩

theorem frozenToken_ends (kwargs : Kwargs κ ι) (cls : AuthClass) (hcls : cls.requiresToken = true)
    (s : St κ φ τ ι ρ σ) :
    Ends (frozenToken S E) s (fun token t => ∃ got, Made S kwargs cls got (.token token) ∧ Fetches s t got) (Leaves s) := by
  unfold frozenToken
  split
  · rename_i htoken
    exact ends_pure ⟨[], .anonymous hcls htoken, .refl s⟩
  · rename_i token htoken
    exact ends_pure ⟨[], .token hcls htoken, .refl s⟩
  · rename_i htoken
    apply Ends.bind
    apply ends_await
    · intro token w
      apply Ends.bind
      apply ends_modify
      exact ends_pure ⟨[.frozenToken token], .frozenToken token hcls htoken, rfl, rfl, by simp [Event.isFetch]⟩
    · intro e w
      exact ⟨[], rfl, (List.append_nil _).symm, by simp⟩

theorem credentialsOf_ends (kwargs : Kwargs κ ι) (cls : AuthClass) (s : St κ φ τ ι ρ σ) :
    Ends (credentialsOf S E kwargs cls) s (fun x t => ∃ got, Owner S kwargs cls got x.1 x.2 ∧ Fetches s t got)
      (Leaves s) := by
  unfold credentialsOf
  split
  · rename_i hcls
    split
    · exact ends_throw ⟨[], .refl s⟩
    · exact ends_throw ⟨[], .refl s⟩
    · rename_i cache key hcache hkey
      apply Ends.bind
      apply ends_await
      · intro credentials w
        apply Ends.bind
        apply ends_modify
        exact ends_pure ⟨[.identity cache key credentials], .identity credentials hcls hcache hkey, rfl, rfl,
          by simp [Event.isFetch]⟩
      · intro e w
        exact ⟨[], rfl, (List.append_nil _).symm, by simp⟩
  · rename_i hcls
    exact ends_pure ⟨[], .own (by simpa using hcls), .refl s⟩

theorem freeze_ends (owner : Option κ) (s : St κ φ τ ι ρ σ) :
    Ends (freeze E owner) s (fun frozen t => ∃ got, Frozen owner got frozen ∧ Fetches s t got) (Leaves s) := by
  cases owner with
  | none => exact ends_pure ⟨[], .anonymous, .refl s⟩
  | some credentials =>
    apply Ends.bind
    apply ends_await
    · intro frozen w
      apply Ends.bind
      apply ends_modify
      exact ends_pure ⟨[.frozenCredentials credentials frozen], .frozen credentials frozen, rfl, rfl,
        by simp [Event.isFetch]⟩
    · intro e w
      exact ⟨[], rfl, (List.append_nil _).symm, by simp⟩

/-- an instance of the class for the version, and what was fetched for it -/
theorem getAuthInstance_ends (kwargs : Kwargs κ ι) (s : St κ φ τ ι ρ σ) :
    Ends (getAuthInstance S E kwargs) s
      (fun auth t => ∃ cls got, authClass E (kwargs.signatureVersion.getD S.signatureVersion) = some cls ∧
        Made S kwargs cls got auth ∧ Fetches s t got) (Leaves s) := by
  unfold getAuthInstance
  simp only
  split
  · exact ends_throw ⟨[], .refl s⟩
  · rename_i cls hclass
    split
    · rename_i htoken
      apply Ends.bind
      refine (frozenToken_ends S E kwargs cls htoken s).mono ?_ fun _ _ => id
      rintro token t ⟨got, hmade, hfetches⟩
      exact ends_pure ⟨cls, got, hclass, hmade, hfetches⟩
    · rename_i htoken
      apply Ends.bind
      refine (credentialsOf_ends S E kwargs cls s).mono ?_ fun _ _ => id
      rintro ⟨owner, key⟩ t ⟨found, howner, hfound⟩
      apply Ends.bind
      refine (freeze_ends E owner t).mono ?_ fun _ _ => Leaves.after hfound
      rintro frozen u ⟨froze, hfrozen, hfroze⟩
      have hall := hfound.trans hfroze
      by_cases hregion : cls.requiresRegion = true
      · simp only [hregion, if_true]
        by_cases hsigner : S.regionName.isNone = true
        · simp only [hsigner, if_true]
          exact ends_throw ⟨_, hall⟩
        · simp only [hsigner]
          exact ends_pure ⟨cls, _, hclass,
            .regional (by simpa using htoken) howner hfrozen hregion (by simpa [Option.isSome_iff_ne_none] using hsigner),
            hall⟩
      · simp only [hregion]
        exact ends_pure ⟨cls, _, hclass, .global (by simpa using htoken) howner hfrozen (by simpa using hregion), hall⟩

/-! ## Signing a request -/

/-- a version that a request of this type may be signed with -/
def SigningType.Suffixed (signingType : SigningType) : SignatureVersion → Prop
  | .unsigned => True
  | .named name => signingType.suffix.toList <:+ name.toList

theorem withSuffix_suffixed (signingType : SigningType) (version : SignatureVersion) :
    signingType.Suffixed (withSuffix signingType version) := by
  cases version with
  | unsigned => exact trivial
  | named name =>
    by_cases h : signingType.suffix.toList <:+ name.toList
    · rw [withSuffix, if_pos h]
      exact h
    · rw [withSuffix, if_neg h]
      exact ⟨name.toList, by simp⟩

/-- an instance, or an exception that does not blame a version that only lacks the suffix for the client's own -/
theorem caught_ends (signingType : SigningType) (version : SignatureVersion) (kwargs : Kwargs κ ι)
    (hversion : kwargs.signatureVersion = some version) (s : St κ φ τ ι ρ σ) :
    Ends (tryCatch (getAuthInstance S E kwargs) (unsupported signingType version)) s
      (fun auth t => ∃ cls got, authClass E version = some cls ∧ Made S kwargs cls got auth ∧ Fetches s t got)
      (fun e t => Leaves s e t ∧ (signingType ≠ .standard → ∀ v, e ≠ .unknownSignatureVersion v)) := by
  apply Ends.tryCatch
  refine (getAuthInstance_ends S E kwargs s).mono ?_ ?_
  · rintro auth t ⟨cls, got, hclass, hmade, hfetches⟩
    rw [hversion] at hclass
    exact ⟨cls, got, hclass, hmade, hfetches⟩
  · intro e t hleaves
    unfold unsupported
    split
    · split
      · exact ends_throw ⟨hleaves, fun _ _ => by simp⟩
      · rename_i hstandard
        exact ends_throw ⟨hleaves, fun h => absurd h hstandard⟩
    · rename_i hother
      exact ends_throw ⟨hleaves, fun _ v hv => hother v hv⟩

/-- what is done about a request once its version is chosen and `signing` is its context -/
inductive Signed (regionName : Option String) (expiresIn : Option ℤ) (signingName : Option String)
    (version : SignatureVersion) (signing : SigningContext κ ι) : List (Event κ φ τ ι) → Prop
  | unsigned (hversion : version = .unsigned) : Signed regionName expiresIn signingName version signing []
  | signed {name : String} {cls : AuthClass} {got : List (Event κ φ τ ι)} {auth : Auth φ τ ι}
      (hversion : version = .named name) (hclass : E.authTypeMaps name = some cls)
      (hmade : Made S (signingKwargs S regionName expiresIn signingName version signing) cls got auth) :
      Signed regionName expiresIn signingName version signing (got ++ [.addAuth name auth])

/-- how far `sign` has come when it raises -/
inductive Raised (regionName : Option String) (signingType : SigningType) (expiresIn : Option ℤ)
    (signingName : Option String) : Exn ε → List (Event κ φ τ ι) → Prop
  /-- a handler of `choose-signer` raises -/
  | choosing (e : Exn ε) : Raised regionName signingType expiresIn signingName e []
  /-- a handler of `before-sign` raises -/
  | before (e : Exn ε) (asked : Asked) (response : Option SignatureVersion) :
      Raised regionName signingType expiresIn signingName e [.chooseSigner asked response]
  /-- there is no instance to sign with -/
  | making {e : Exn ε} {asked asked' : Asked} {response : Option SignatureVersion} {signing : SigningContext κ ι}
      {got : List (Event κ φ τ ι)} (hgot : ∀ x ∈ got, x.isFetch = true)
      (he : signingType ≠ .standard → ∀ v, e ≠ .unknownSignatureVersion v) :
      Raised regionName signingType expiresIn signingName e ([.chooseSigner asked response, .beforeSign asked' signing] ++ got)
  /-- the instance raises -/
  | adding (e : Exn ε) {asked asked' : Asked} {response : Option SignatureVersion} {signing : SigningContext κ ι}
      {got : List (Event κ φ τ ι)} {name : String} {auth : Auth φ τ ι}
      (hsigned : Signed S E regionName expiresIn signingName asked'.signatureVersion signing (got ++ [.addAuth name auth])) :
      Raised regionName signingType expiresIn signingName e
        ([.chooseSigner asked response, .beforeSign asked' signing] ++ (got ++ [.addAuth name auth]))

/-- the handlers keep `J` -/
structure Env.Maintains (J : Request κ ι ρ → Prop) : Prop where
  chooseSigner : ∀ event asked r w, J r → J (E.chooseSigner event asked r w).2.1
  beforeSign : ∀ event asked r w, J r → J (E.beforeSign event asked r w).2.1

variable {E} {J : Request κ ι ρ → Prop}

theorem keeps_of_eq {x : Except (Exn ε) α × Request κ ι ρ × σ} {a : Except (Exn ε) α} {r : Request κ ι ρ} {w : σ}
    (hx : x = (a, r, w)) (h : J x.2.1) : J r := by
  subst hx
  exact h

variable (hJ : E.Maintains J)
include hJ

theorem chooseSigner_ends (operationName : String) (signingType : SigningType) (s : St κ φ τ ι ρ σ)
    (hs : J s.request) :
    Ends (chooseSigner S E operationName signingType) s
      (fun version t => J t.request ∧ signingType.Suffixed version ∧
        ∃ asked response, t.log = s.log ++ [.chooseSigner asked response]) (fun _ t => t.log = s.log) := by
  unfold chooseSigner
  apply Ends.bind
  apply ends_get
  apply Ends.bind
  apply ends_call
  · intro response request w hcall
    have hrequest : J request := keeps_of_eq hcall (hJ.chooseSigner _ _ _ _ hs)
    apply Ends.bind
    apply ends_modify
    cases response with
    | none => exact ends_pure ⟨hrequest, withSuffix_suffixed _ _, _, _, rfl⟩
    | some chosen => exact ends_pure ⟨hrequest, withSuffix_suffixed _ _, _, _, rfl⟩
  · intro e request w
    rfl

/-- **Signing.** For any handlers, credentials and contexts: `sign` returns when it has asked for a version once, told
the handlers of `before-sign` once and then either the version is `UNSIGNED` and nothing was fetched and nothing added,
or one instance of the version's class was added, made of what was fetched after the handlers had run. -/
theorem sign_ends (operationName : String) (regionName : Option String) (signingType : SigningType)
    (expiresIn : Option ℤ) (signingName : Option String) (s : St κ φ τ ι ρ σ) (hs : J s.request) :
    Ends (sign S E operationName regionName signingType expiresIn signingName) s
      (fun _ t => ∃ asked response asked' r events, J r ∧ signingType.Suffixed asked'.signatureVersion ∧
        Signed S E regionName expiresIn signingName asked'.signatureVersion r.signingContext events ∧
        t.log = s.log ++ ([.chooseSigner asked response, .beforeSign asked' r.signingContext] ++ events))
      (fun e t => ∃ events, Raised S E regionName signingType expiresIn signingName e events ∧ t.log = s.log ++ events) := by
  unfold sign
  apply Ends.bind
  refine (chooseSigner_ends S hJ operationName signingType s hs).mono ?_ ?_
  case refine_2 =>
    intro e t hlog
    exact ⟨[], .choosing e, by rw [hlog, List.append_nil]⟩
  rintro version t ⟨ht, hsuffix, asked, response, hlog⟩
  apply Ends.bind
  apply ends_call
  case hr =>
    intro e request w
    exact ⟨_, .before e asked response, hlog⟩
  intro _ request w hcall
  have hrequest : J request := keeps_of_eq hcall (hJ.beforeSign _ _ _ _ ht)
  apply Ends.bind
  apply ends_get
  apply Ends.bind
  apply ends_modify
  dsimp only
  have hbefore (signing : SigningContext κ ι) (asked' : Asked) :
      t.log ++ [.beforeSign asked' signing] = s.log ++ [.chooseSigner asked response, .beforeSign asked' signing] := by
    rw [hlog, List.append_assoc]
    rfl
  let asked' : Asked := ⟨signingName.getD S.signingName, S.regionName, version⟩
  have hmaking {e : Exn ε} {got : List (Event κ φ τ ι)} (hgot : ∀ x ∈ got, x.isFetch = true)
      (he : signingType ≠ .standard → ∀ v, e ≠ .unknownSignatureVersion v) :
      Raised S E regionName signingType expiresIn signingName e
        ([.chooseSigner asked response, .beforeSign asked' request.signingContext] ++ got) := .making hgot he
  cases version with
  | unsigned =>
    refine ends_pure ⟨asked, response, asked', request, [], hrequest, trivial, .unsigned rfl, ?_⟩
    rw [hbefore, List.append_nil]
  | named name =>
    dsimp only
    split
    · apply Ends.bind
      refine ends_throw ⟨_, hmaking (List.forall_mem_nil _) (fun _ _ => by simp), ?_⟩
      rw [hbefore, List.append_nil]
    · apply Ends.bind
      refine (caught_ends S E signingType (.named name) _ rfl _).mono ?_ ?_
      · rintro auth u ⟨cls, got, hclass, hmade, -, hlog', hgot⟩
        apply Ends.bind
        apply ends_modify
        have hsigned : Signed S E regionName expiresIn signingName (.named name) request.signingContext
            (got ++ [.addAuth name auth]) := .signed rfl hclass hmade
        apply ends_call
        · intro _ request' w' _
          refine ⟨asked, response, asked', request, _, hrequest, hsuffix, hsigned, ?_⟩
          simp [hlog', hbefore, asked']
        · intro e request' w'
          have hadding : Raised S E regionName signingType expiresIn signingName e
              ([.chooseSigner asked response, .beforeSign asked' request.signingContext] ++ (got ++ [.addAuth name auth])) :=
            .adding e hsigned
          refine ⟨_, hadding, ?_⟩
          simp [hlog', hbefore, asked']
      · rintro e u ⟨⟨got, -, hlog', hgot⟩, he⟩
        refine ⟨_, hmaking hgot he, ?_⟩
        simp [hlog', hbefore, asked']

omit hJ

/-! ## Presigned URLs -/

/-- credentials or a token are frozen -/
def Event.isFreeze : Event κ φ τ ι → Bool
  | .frozenToken _ | .frozenCredentials _ _ => true
  | _ => false

variable {S}

/-- an instance is made of one snapshot of the credentials, or of none -/
theorem Made.freezes {kwargs : Kwargs κ ι} {cls : AuthClass} {got : List (Event κ φ τ ι)} {auth : Auth φ τ ι}
    (h : Made S kwargs cls got auth) : got.countP Event.isFreeze ≤ 1 := by
  have hcredentials {found froze : List (Event κ φ τ ι)} {owner : Option κ} {key : Option String} {frozen : Option φ}
      (howner : Owner S kwargs cls found owner key) (hfrozen : Frozen owner froze frozen) :
      (found ++ froze).countP Event.isFreeze ≤ 1 := by
    have hfound : found.countP Event.isFreeze = 0 := by
      cases howner with
      | identity credentials => rfl
      | own => rfl
    rw [List.countP_append, hfound, Nat.zero_add]
    cases hfrozen with
    | anonymous => exact Nat.zero_le _
    | frozen credentials frozen => exact le_refl _
  cases h with
  | anonymous => exact Nat.zero_le _
  | token => exact Nat.zero_le _
  | frozenToken token => exact le_refl _
  | regional _ howner hfrozen => exact hcredentials howner hfrozen
  | global _ howner hfrozen => exact hcredentials howner hfrozen

/-- nothing else is logged on the way to an instance -/
theorem Made.fetches {kwargs : Kwargs κ ι} {cls : AuthClass} {got : List (Event κ φ τ ι)} {auth : Auth φ τ ι}
    (h : Made S kwargs cls got auth) : ∀ x ∈ got, x.isFetch = true := by
  have hcredentials {found froze : List (Event κ φ τ ι)} {owner : Option κ} {key : Option String} {frozen : Option φ}
      (howner : Owner S kwargs cls found owner key) (hfrozen : Frozen owner froze frozen) :
      ∀ x ∈ found ++ froze, x.isFetch = true := by
    intro x hx
    rcases List.mem_append.1 hx with hx | hx
    · cases howner <;> simp_all [Event.isFetch]
    · cases hfrozen <;> simp_all [Event.isFetch]
  cases h with
  | anonymous => simp
  | token => simp
  | frozenToken token => simp [Event.isFetch]
  | regional _ howner hfrozen => exact hcredentials howner hfrozen
  | global _ howner hfrozen => exact hcredentials howner hfrozen

variable (S E)

theorem Env.maintains_true : E.Maintains fun _ => True := ⟨fun _ _ _ _ _ => trivial, fun _ _ _ _ _ => trivial⟩

/-- **Presigned URLs.** Whatever versions the handlers of `choose-signer` answer and whatever they make of the context: a
URL that is returned is unsigned, and then nothing was frozen for it, or it carries one signature, of a known version for
query strings, made of one snapshot of the credentials that was taken after the handlers had run. A version that is not
known is never reported as such once the handlers have run: it is one that does not support presigning. -/
theorem presigned_url (url : Request κ ι ρ → String) (operationName : String) (expiresIn : ℤ)
    (regionName signingName : Option String) (s : St κ φ τ ι ρ σ) :
    Ends (generatePresignedUrl S E url operationName expiresIn regionName signingName) s
      (fun u t => u = url t.request ∧ ∃ asked response asked' signing events,
        t.log = s.log ++ ([.chooseSigner asked response, .beforeSign asked' signing] ++ events) ∧
        (asked'.signatureVersion = .unsigned ∧ events = [] ∨
          ∃ name cls got auth, asked'.signatureVersion = .named name ∧ "-query".toList <:+ name.toList ∧
            E.authTypeMaps name = some cls ∧ events = got ++ [.addAuth name auth] ∧ got.countP Event.isFreeze ≤ 1 ∧
            Made S (signingKwargs S regionName (some expiresIn) signingName (.named name) signing) cls got auth))
      (fun e t => ∃ events, t.log = s.log ++ events ∧
        ((∃ asked signing, Event.beforeSign asked signing ∈ events) → (∀ name auth, Event.addAuth name auth ∉ events) →
          ∀ v, e ≠ .unknownSignatureVersion v)) := by
  unfold generatePresignedUrl
  apply Ends.bind
  refine (sign_ends S E.maintains_true operationName regionName .presignUrl (some expiresIn) signingName s trivial).mono
    ?_ ?_
  · rintro _ t ⟨asked, response, asked', r, events, -, hsuffix, hsigned, hlog⟩
    apply Ends.bind
    apply ends_get
    refine ends_pure ⟨rfl, asked, response, asked', r.signingContext, events, hlog, ?_⟩
    cases hsigned with
    | unsigned hversion => exact .inl ⟨hversion, rfl⟩
    | signed hversion hclass hmade =>
      rw [hversion] at hsuffix hmade
      exact .inr ⟨_, _, _, _, hversion, hsuffix, hclass, rfl, hmade.freezes, hmade⟩
  · rintro e t ⟨events, hraised, hlog⟩
    refine ⟨events, hlog, fun ⟨asked, signing, hbefore⟩ hadd => ?_⟩
    cases hraised with
    | choosing => cases hbefore
    | before => simp at hbefore
    | making hgot he => exact he (by decide)
    | @adding _ _ _ _ _ name auth => exact absurd (by simp) (hadd name auth)

end AioBotocore.Signers
