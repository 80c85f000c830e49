/-
`AioS3RegionRedirectorv2` of `utils.py`: the handler of `needs-retry` that sends an S3 request to the region its bucket
is in. It acts on the request dict of `AioEndpoint._send_request`, which `St` holds with the client.

The call `head_bucket` on the same client is an argument, `head`: the headers of its answer, an error answer included,
or the exception it raises. botocore's endpoint rules are in `Rules`.

- `redirectFromError_effect`: the handler asks for a retry only in the step in which it rewrites the request, and it
  rewrites a request that was not redirected before.
- `redirectFromError_needsHead`, `redirectFromError_calm`: when it calls `head_bucket`.
-/
import Mathlib.Tactic

namespace AioBotocore.Endpoint

open Function

/-! ## Requests and responses -/

abbrev Headers := List (String × String)

structure ResponseMetadata where
  httpHeaders : Option Headers
  maxAttemptsReached : Bool
  retryAttempts : Option ℕ
deriving DecidableEq, Repr

/-- a response and what was parsed from it -/
structure Response where
  statusCode : Option ℕ
  /-- `Error.Code` -/
  code : Option String
  /-- `Error.Region` -/
  region : Option String
  responseMetadata : Option ResponseMetadata
  content : List UInt8
deriving DecidableEq, Repr

inductive Exn where
  | keyError (key : String)
  | invalidRegionError (regionName : String)
  | recursionError
  | other (text : String)
deriving DecidableEq, Repr

/-- `context['s3_redirect']` -/
structure S3Redirect where
  bucket : Option String
  redirected : Bool
deriving DecidableEq, Repr

/-- `request_dict`; `context['retries']` is kept apart, in `St` -/
structure RequestDict where
  url : String
  s3Redirect : Option S3Redirect
  authType : Option String
  signing : Headers
deriving DecidableEq, Repr

structure EndpointInfo where
  url : String
  /-- `authSchemes`, and what `auth_schemes_to_signing_ctx` makes of them -/
  authSchemes : Option (Except Exn (String × Headers))

/-- the rules of botocore that the redirector goes by -/
structure Rules where
  isArn : String → Bool
  /-- `validate_region_name` accepts the region -/
  validRegion : String → Bool
  /-- `construct_endpoint` with the regions cached -/
  constructEndpoint : (Option String → Option String) → String → RequestDict → Except Exn EndpointInfo
  setRequestUrl : String → String → String

/-! ## State -/

structure Client (σ : Type*) where
  /-- `_cache` of the redirector -/
  cache : Option String → Option String
  headBuckets : ℕ
  server : σ

structure Retries where
  attempt : ℕ
  max : Option ℤ
deriving DecidableEq, Repr

/-- the variables of `_send_request` -/
structure St (σ : Type*) where
  requestDict : RequestDict
  retries : Retries
  response : Option Response
  exception : Option Exn
  client : Client σ
  sends : ℕ
  /-- how often `redirect_from_error` rewrote the request -/
  rewrites : ℕ

variable {σ : Type*}

/-! ## `redirect_from_error` -/

def bucketRegionHeader : String := "x-amz-bucket-region"

def regionHeader (headers : Headers) : Option String := headers.lookup bucketRegionHeader

/-- `response_metadata.get('HTTPHeaders', {})` -/
def Response.headers (r : Response) : Headers := (r.responseMetadata.bind ResponseMetadata.httpHeaders).getD []

/-- one of the six conditions under which a response is a redirect -/
def isRedirect (operation : String) (r : Response) : Bool :=
  let isSpecialHeadObject := (r.code = some "301" || r.code = some "400") && operation = "HeadObject"
  let isSpecialHeadBucket :=
    (r.code = some "301" || r.code = some "400") && operation = "HeadBucket" && (regionHeader r.headers).isSome
  let isWrongSigningRegion := r.code = some "AuthorizationHeaderMalformed" && r.region.isSome
  let isRedirectStatus := r.statusCode = some 301 || r.statusCode = some 302 || r.statusCode = some 307
  let isPermanentRedirect := r.code = some "PermanentRedirect"
  let isOptInRegionRedirect := r.code = some "IllegalLocationConstraintException" && operation ≠ "CreateBucket"
  isSpecialHeadObject || isWrongSigningRegion || isPermanentRedirect || isSpecialHeadBucket || isRedirectStatus ||
    isOptInRegionRedirect

/-- the region that the response itself names, where it has headers -/
def namedRegion (r : Response) (headers : Headers) : Option String :=
  match regionHeader headers with
  | some region => some region
  | none =>
    match r.region with
    | some region => if region = "" then none else some region
    | none => none

def validateRegionName (R : Rules) (region : Option String) : Except Exn (Option String) :=
  match region with
  | none => .ok none
  | some name => if R.validRegion name then .ok (some name) else .error (.invalidRegionError name)

/-- `['ResponseMetadata']['HTTPHeaders']` -/
def Response.httpHeaders (r : Response) : Except Exn Headers :=
  match r.responseMetadata with
  | none => .error (.keyError "ResponseMetadata")
  | some metadata =>
    match metadata.httpHeaders with
    | none => .error (.keyError "HTTPHeaders")
    | some headers => .ok headers

def getBucketRegion (R : Rules) (head : Option String → Client σ → Except Exn Headers × Client σ)
    (bucket : Option String) (r : Response) (c : Client σ) : Except Exn (Option String) × Client σ :=
  match r.httpHeaders with
  | .error e => (.error e, c)
  | .ok headers =>
    match namedRegion r headers with
    | some region => (validateRegionName R (some region), c)
    | none =>
      match head bucket c with
      | (.error e, c) => (.error e, c)
      | (.ok headers, c) => (validateRegionName R (regionHeader headers), c)

/-- the request dict is resolved anew, with the region in the cache -/
def rewrite (R : Rules) (operation : String) (redirect : S3Redirect) (s : St σ) : Except Exn (Option ℚ) × St σ :=
  match R.constructEndpoint s.client.cache operation s.requestDict with
  | .error e => (.error e, s)
  | .ok endpoint =>
    let d := { s.requestDict with url := R.setRequestUrl s.requestDict.url endpoint.url,
                                  s3Redirect := some { redirect with redirected := true } }
    let s := { s with requestDict := d, rewrites := s.rewrites + 1 }
    match endpoint.authSchemes with
    | none => (.ok (some 0), s)
    | some (.error e) => (.error e, s)
    | some (.ok (authType, signing)) =>
      (.ok (some 0), { s with requestDict := { d with authType := some authType, signing := signing ++ d.signing } })

/-- `redirect_from_error` from the end of `get_bucket_region` -/
def redirectTo (R : Rules) (operation : String) (redirect : S3Redirect) (s : St σ) :
    Except Exn (Option String) × Client σ → Except Exn (Option ℚ) × St σ
  | (.error e, c) => (.error e, { s with client := c })
  | (.ok none, c) => (.ok none, { s with client := c })
  | (.ok (some region), c) =>
    rewrite R operation redirect { s with client := { c with cache := update c.cache redirect.bucket (some region) } }

/-- the request is for an access point ARN, or was redirected -/
def excused (R : Rules) (d : RequestDict) : Bool :=
  match d.s3Redirect with
  | none => false
  | some redirect => (redirect.bucket.map R.isArn).getD false || redirect.redirected

def redirectFromError (R : Rules) (head : Option String → Client σ → Except Exn Headers × Client σ) (operation : String)
    (s : St σ) : Except Exn (Option ℚ) × St σ :=
  match s.response with
  | none => (.ok none, s)
  | some r =>
    if excused R s.requestDict then (.ok none, s)
    else if !isRedirect operation r then (.ok none, s)
    else
      match s.requestDict.s3Redirect with
      | none => (.error (.keyError "s3_redirect"), s)
      | some redirect => redirectTo R operation redirect s (getBucketRegion R head redirect.bucket r s.client)

/-! ## What the handler does -/

def redirected (d : RequestDict) : Bool :=
  match d.s3Redirect with
  | none => false
  | some redirect => redirect.redirected

/-- what the redirector may do to the request: nothing, asking for no retry, or a rewrite of one not yet redirected -/
inductive Effect (s s' : St σ) (x : Except Exn (Option ℚ)) : Prop
  | keeps (hdict : s'.requestDict = s.requestDict) (hrewrites : s'.rewrites = s.rewrites) (hx : ∀ d, x ≠ .ok (some d))
  | rewrites (hbefore : redirected s.requestDict = false) (hafter : redirected s'.requestDict = true)
      (hrewrites : s'.rewrites = s.rewrites + 1)

theorem rewrite_effect (R : Rules) (operation : String) {redirect : S3Redirect} {s : St σ}
    (hredirect : s.requestDict.s3Redirect = some redirect) (hnot : redirect.redirected = false) :
    Effect s (rewrite R operation redirect s).2 (rewrite R operation redirect s).1 ∧
      (rewrite R operation redirect s).2.sends = s.sends := by
  have hbefore : redirected s.requestDict = false := by simp [redirected, hredirect, hnot]
  unfold rewrite
  cases R.constructEndpoint s.client.cache operation s.requestDict with
  | error e => exact ⟨.keeps rfl rfl (by simp), rfl⟩
  | ok endpoint =>
    simp only
    cases endpoint.authSchemes with
    | none => exact ⟨.rewrites hbefore rfl rfl, rfl⟩
    | some schemes =>
      cases schemes with
      | error e => exact ⟨.rewrites hbefore rfl rfl, rfl⟩
      | ok auth => exact ⟨.rewrites hbefore rfl rfl, rfl⟩

theorem redirectTo_effect (R : Rules) (operation : String) {redirect : S3Redirect} {s : St σ}
    (hredirect : s.requestDict.s3Redirect = some redirect) (hnot : redirect.redirected = false)
    (x : Except Exn (Option String) × Client σ) :
    Effect s (redirectTo R operation redirect s x).2 (redirectTo R operation redirect s x).1 ∧
      (redirectTo R operation redirect s x).2.sends = s.sends := by
  obtain ⟨region, c⟩ := x
  cases region with
  | error e => exact ⟨.keeps rfl rfl (by simp [redirectTo]), rfl⟩
  | ok region =>
    cases region with
    | none => exact ⟨.keeps rfl rfl (by simp [redirectTo]), rfl⟩
    | some region =>
      obtain ⟨heffect, hsends⟩ := rewrite_effect R operation
        (s := { s with client := { c with cache := update c.cache redirect.bucket (some region) } }) hredirect hnot
      refine ⟨?_, hsends⟩
      cases heffect with
      | keeps hdict hrewrites hx => exact .keeps hdict hrewrites hx
      | rewrites hbefore hafter hrewrites => exact .rewrites hbefore hafter hrewrites

/-- The redirector asks for a retry only when it rewrites the request, which was not redirected before. -/
theorem redirectFromError_effect (R : Rules) (head : Option String → Client σ → Except Exn Headers × Client σ)
    (operation : String) (s : St σ) :
    Effect s (redirectFromError R head operation s).2 (redirectFromError R head operation s).1 ∧
      (redirectFromError R head operation s).2.sends = s.sends := by
  unfold redirectFromError
  cases hr : s.response with
  | none => exact ⟨.keeps rfl rfl (by simp), rfl⟩
  | some r =>
    simp only
    by_cases hexcused : excused R s.requestDict
    · rw [if_pos hexcused]
      exact ⟨.keeps rfl rfl (by simp), rfl⟩
    · rw [if_neg hexcused]
      by_cases hno : (!isRedirect operation r) = true
      · rw [if_pos hno]
        exact ⟨.keeps rfl rfl (by simp), rfl⟩
      · rw [if_neg hno]
        cases hredirect : s.requestDict.s3Redirect with
        | none => exact ⟨.keeps rfl rfl (by simp), rfl⟩
        | some redirect =>
          have hnot : redirect.redirected = false := by
            simp only [excused, hredirect, Bool.or_eq_true, not_or, Bool.not_eq_true] at hexcused
            exact hexcused.2
          exact redirectTo_effect R operation hredirect hnot _

/-! ## When the handler calls `head_bucket` -/

/-- the response is a redirect of a request not redirected yet, and names no region -/
structure NeedsHead (R : Rules) (operation : String) (d : RequestDict) (r : Response) (redirect : S3Redirect) : Prop where
  context : d.s3Redirect = some redirect
  notExcused : excused R d = false
  isRedirect : isRedirect operation r = true
  unnamed : ∃ headers, r.httpHeaders = .ok headers ∧ namedRegion r headers = none

/-- no response at hand makes the redirector call `head_bucket` -/
def Calm (R : Rules) (operation : String) (s : St σ) : Prop :=
  ∀ r redirect, s.response = some r → ¬ NeedsHead R operation s.requestDict r redirect

theorem redirectTo_headBuckets (R : Rules) (operation : String) (redirect : S3Redirect) (s : St σ)
    (x : Except Exn (Option String) × Client σ) :
    (redirectTo R operation redirect s x).2.client.headBuckets = x.2.headBuckets ∧
      (redirectTo R operation redirect s x).2.response = s.response := by
  obtain ⟨region, c⟩ := x
  cases region with
  | error e => exact ⟨rfl, rfl⟩
  | ok region =>
    cases region with
    | none => exact ⟨rfl, rfl⟩
    | some region =>
      simp only [redirectTo, rewrite]
      split
      · exact ⟨rfl, rfl⟩
      · split <;> exact ⟨rfl, rfl⟩

theorem redirectFromError_needsHead {R : Rules} {operation : String} {s : St σ} {r : Response} {redirect : S3Redirect}
    (hr : s.response = some r) (h : NeedsHead R operation s.requestDict r redirect)
    (head : Option String → Client σ → Except Exn Headers × Client σ) :
    redirectFromError R head operation s = redirectTo R operation redirect s
      (match head redirect.bucket s.client with
        | (.error e, c) => (.error e, c)
        | (.ok headers, c) => (validateRegionName R (regionHeader headers), c)) := by
  obtain ⟨headers, hheaders, hnamed⟩ := h.unnamed
  simp only [redirectFromError, hr, h.notExcused, h.isRedirect, h.context, getBucketRegion, hheaders, hnamed]
  rfl

theorem redirectFromError_calm {R : Rules} {operation : String} {s : St σ} (h : Calm R operation s)
    (head : Option String → Client σ → Except Exn Headers × Client σ) :
    (redirectFromError R head operation s).2.client.headBuckets = s.client.headBuckets ∧
      (redirectFromError R head operation s).2.response = s.response := by
  unfold redirectFromError
  cases hr : s.response with
  | none => exact ⟨rfl, hr⟩
  | some r =>
    simp only
    by_cases hexcused : excused R s.requestDict
    · rw [if_pos hexcused]
      exact ⟨rfl, hr⟩
    · rw [if_neg hexcused]
      by_cases hno : (!isRedirect operation r) = true
      · rw [if_pos hno]
        exact ⟨rfl, hr⟩
      · rw [if_neg hno]
        cases hredirect : s.requestDict.s3Redirect with
        | none => exact ⟨rfl, hr⟩
        | some redirect =>
          simp only
          obtain ⟨hbuckets, hresponse⟩ := redirectTo_headBuckets R operation redirect s
            (getBucketRegion R head redirect.bucket r s.client)
          refine ⟨hbuckets.trans ?_, hresponse.trans hr⟩
          unfold getBucketRegion
          cases hheaders : r.httpHeaders with
          | error e => rfl
          | ok headers =>
            simp only
            cases hnamed : namedRegion r headers with
            | some region => rfl
            | none =>
              exact absurd ⟨hredirect, by simpa using hexcused, by simpa using hno, headers, hheaders, hnamed⟩
                (h r redirect hr)

end AioBotocore.Endpoint
