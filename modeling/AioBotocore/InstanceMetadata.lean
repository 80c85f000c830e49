/-
`AioInstanceMetadataFetcher.retrieve_iam_role_credentials`: a token, the name of the role and its credentials, in three
requests that depend on each other and are each repeated up to `num_attempts` times.

The answers to the requests are a sequence, an answer for each request that is sent. `Library` is what is called and not
in this repository: the session, which sends a request unless it cannot be written, text and JSON decoding, and botocore's
`_contains_all_credential_fields` and `_evaluate_expiration`.

- `getLoop_none`, `getLoop_some`: a request is repeated up to the first response that its predicate takes.
- `retrieve_length_le`: at most `3 * num_attempts` requests, whatever the answers are, exceptions included.
- `withRole_iff`, `withToken_iff`: what must hold of the answers that remain.
- `retrieve_returns_iff`: credentials or `{}` are returned iff the responses that the requests stop at can be used.
- `null_credentials`: credentials that are `null`.
-/
import Mathlib.Tactic
import AioBotocore.Octets

namespace AioBotocore.InstanceMetadata

open Octets

/-! ## Model -/

/-- a value that `json.loads` gives -/
inductive Json where
  | null
  | bool (b : Bool)
  | number (literal : String)
  | str (s : String)
  | arr (values : List Json)
  | obj (fields : List (String × Json))

/-- raised by `bytes.decode` -/
inductive DecodeExn where
  /-- `UnicodeDecodeError`, a `ValueError` -/
  | unicode
  /-- `LookupError` -/
  | encoding
deriving DecidableEq, Repr

/-- raised by `json.loads` -/
inductive LoadsExn where
  /-- `JSONDecodeError`, a `ValueError` -/
  | value
  | recursion
deriving DecidableEq, Repr

/-- raised by `session.send` -/
inductive SendExn where
  | readTimeout
  /-- the others of `RETRYABLE_HTTP_ERRORS` -/
  | retryable
  /-- the other `HTTPClientError`s; `unresolved`: the name of the endpoint is not found -/
  | httpClient (unresolved : Bool)
  | other
deriving DecidableEq, Repr

inductive Exn where
  /-- `_RETRIES_EXCEEDED_ERROR_CLS` -/
  | retriesExceeded
  | badImdsRequest
  | metadataRetrieval
  | invalidImdsEndpoint
  | send (e : SendExn)
  | decode (e : DecodeExn)
  | loads (e : LoadsExn)
  | type
  | key
  /-- raised by `_evaluate_expiration` -/
  | expiration
deriving DecidableEq, Repr

def Exn.isValueError : Exn → Bool
  | .decode .unicode | .loads .value => true
  | _ => false

inductive Request where
  | putToken
  | get (path : String) (token : Option String)
deriving DecidableEq, Repr

structure HttpResponse where
  statusCode : ℕ
  contentType : Option String
  content : Bytes
deriving DecidableEq, Repr

abbrev Answer : Type := Except SendExn HttpResponse

/-! ### Fields of a value -/

/-- `field in credentials` -/
def contains (field : String) : Json → Except Exn Bool
  | .str s => .ok (decide (field.toList <:+: s.toList))
  | .arr values => .ok (values.any fun
      | .str s => s == field
      | _ => false)
  | .obj fields => .ok (fields.any fun z => z.1 == field)
  | _ => .error .type

/-- the loop over `field not in credentials` -/
def containsEach : List String → Json → Except Exn Bool
  | [], _ => .ok true
  | field :: fields, c =>
    match contains field c with
    | .error e => .error e
    | .ok false => .ok false
    | .ok true => containsEach fields c

/-- `credentials[field]`; of equal names in a JSON object the last one counts -/
def item (field : String) : Json → Except Exn Json
  | .obj fields =>
    match fields.reverse.lookup field with
    | none => .error .key
    | some v => .ok v
  | _ => .error .type

/-- `_REQUIRED_CREDENTIAL_FIELDS` -/
def requiredFields : List String := ["AccessKeyId", "SecretAccessKey", "Token", "Expiration"]

/-! ### Parameters -/

structure Library where
  /-- `_URL_PATH` -/
  urlPath : String
  /-- the session can write the request; a token with a line break is no header value -/
  accepts : Request → Bool
  accepts_putToken : accepts .putToken = true
  accepts_role : accepts (.get urlPath none) = true
  /-- `get_encoding_from_headers` -/
  encodingFromHeaders : Option String → Option String
  /-- `bytes.decode(encoding)` -/
  decode : String → Bytes → Except DecodeExn String
  decode_utf8 : ∀ b, decode "utf-8" b = (decodeUtf8 b).elim (.error .unicode) .ok
  loads : String → Except LoadsExn Json
  /-- `_contains_all_credential_fields` -/
  containsAll : Json → Except Exn Bool
  containsAll_eq : ∀ c, containsAll c = containsEach requiredFields c
  /-- `_evaluate_expiration`: the `expiry_time` that it leaves; `none` is an exception -/
  evaluateExpiration : Json → Option Json

structure Fetcher where
  numAttempts : ℕ
  disabled : Bool
  imdsV1Disabled : Bool
deriving DecidableEq, Repr

variable (L : Library) (F : Fetcher) (answers : ℕ → Answer)

/-! ### Requests -/

/-- `response.text` -/
def text (r : HttpResponse) : Except Exn String :=
  match L.decode ((L.encodingFromHeaders r.contentType).elim "utf-8" fun e => if e = "" then "utf-8" else e) r.content with
  | .error e => .error (.decode e)
  | .ok s => .ok s

/-- `json.loads(await response.text)` -/
def json (r : HttpResponse) : Except Exn Json :=
  match text L r with
  | .error e => .error e
  | .ok s =>
    match L.loads s with
    | .error e => .error (.loads e)
    | .ok c => .ok c

/-- `session.send`: the next answer, if the request is sent -/
def send (q : Request) (sent : List Request) : Answer × List Request :=
  if L.accepts q then (answers sent.length, sent ++ [q]) else (.error (.httpClient false), sent)

/-- the loop of `_fetch_metadata_token` -/
def tokenLoop : ℕ → List Request → Except Exn (Option String) × List Request
  | 0, sent => (.ok none, sent)
  | n + 1, sent =>
    match send L answers .putToken sent with
    | (.ok r, sent) =>
      if r.statusCode = 200 then ((text L r).map some, sent)
      else if r.statusCode ∈ [404, 403, 405] then (.ok none, sent)
      else if r.statusCode = 400 then (.error .badImdsRequest, sent)
      else tokenLoop n sent
    | (.error .readTimeout, sent) => (.ok none, sent)
    | (.error .retryable, sent) => tokenLoop n sent
    | (.error (.httpClient true), sent) => (.error .invalidImdsEndpoint, sent)
    | (.error e, sent) => (.error (.send e), sent)

/-- `_fetch_metadata_token` -/
def fetchMetadataToken (sent : List Request) : Except Exn (Option String) × List Request :=
  if F.disabled then (.error .retriesExceeded, sent) else tokenLoop L answers F.numAttempts sent

/-- the loop of `_get_request` -/
def getLoop (retryFunc : HttpResponse → Except Exn Bool) (q : Request) :
    ℕ → List Request → Except Exn HttpResponse × List Request
  | 0, sent => (.error .retriesExceeded, sent)
  | n + 1, sent =>
    match send L answers q sent with
    | (.ok r, sent) =>
      match retryFunc r with
      | .error e => (.error e, sent)
      | .ok false => (.ok r, sent)
      | .ok true => getLoop retryFunc q n sent
    | (.error .readTimeout, sent) | (.error .retryable, sent) => getLoop retryFunc q n sent
    | (.error e, sent) => (.error (.send e), sent)

/-- `_get_request`; an empty token is none for IMDSv1 -/
def getRequest (path : String) (retryFunc : HttpResponse → Except Exn Bool) (token : Option String)
    (sent : List Request) : Except Exn HttpResponse × List Request :=
  if F.disabled then (.error .retriesExceeded, sent)
  else if token.getD "" = "" ∧ F.imdsV1Disabled then (.error .metadataRetrieval, sent)
  else getLoop L answers retryFunc (.get path token) F.numAttempts sent

def isNonOkResponse (r : HttpResponse) : Bool := r.statusCode != 200

def isEmpty (r : HttpResponse) : Bool := r.content.isEmpty

def isInvalidJson (r : HttpResponse) : Except Exn Bool :=
  match json L r with
  | .ok _ => .ok false
  | .error e => if e.isValueError then .ok true else .error e

def needsRetryForRoleName (r : HttpResponse) : Except Exn Bool := .ok (isNonOkResponse r || isEmpty r)

def needsRetryForCredentials (r : HttpResponse) : Except Exn Bool :=
  if isNonOkResponse r || isEmpty r then .ok true else isInvalidJson L r

def getIamRole (token : Option String) (sent : List Request) : Except Exn String × List Request :=
  match getRequest L F answers L.urlPath needsRetryForRoleName token sent with
  | (.error e, sent) => (.error e, sent)
  | (.ok r, sent) => (text L r, sent)

def getCredentials (roleName : String) (token : Option String) (sent : List Request) :
    Except Exn Json × List Request :=
  match getRequest L F answers (L.urlPath ++ roleName) (needsRetryForCredentials L) token sent with
  | (.error e, sent) => (.error e, sent)
  | (.ok r, sent) => (json L r, sent)

/-! ### Credentials -/

inductive Result where
  /-- `{}` -/
  | empty
  | credentials (roleName : String) (accessKey secretKey token expiryTime : Json)

/-- the dict of a response with all fields -/
def renamed (roleName : String) (c : Json) : Except Exn Result := do
  let accessKey ← item "AccessKeyId" c
  let secretKey ← item "SecretAccessKey" c
  let token ← item "Token" c
  let expiration ← item "Expiration" c
  match L.evaluateExpiration expiration with
  | none => .error .expiration
  | some expiryTime => .ok (.credentials roleName accessKey secretKey token expiryTime)

/-- `'Code' in credentials and 'Message' in credentials` -/
def isErrorResponse (c : Json) : Except Exn Bool := containsEach ["Code", "Message"] c

def credentialsOf (roleName : String) (c : Json) : Except Exn Result :=
  match L.containsAll c with
  | .error e => .error e
  | .ok true => renamed L roleName c
  | .ok false => (isErrorResponse c).map fun _ => .empty

/-- the `try` block once there is a role -/
def withRole (roleName : String) (token : Option String) (sent : List Request) : Except Exn Result × List Request :=
  match getCredentials L F answers roleName token sent with
  | (.error e, sent) => (.error e, sent)
  | (.ok c, sent) => (credentialsOf L roleName c, sent)

/-- the `try` block once there is a token, or none -/
def withToken (token : Option String) (sent : List Request) : Except Exn Result × List Request :=
  match getIamRole L F answers token sent with
  | (.error e, sent) => (.error e, sent)
  | (.ok roleName, sent) => withRole L F answers roleName token sent

/-- the `except` clauses -/
def caught : Except Exn Result → Except Exn Result
  | .error .retriesExceeded | .error .badImdsRequest => .ok .empty
  | x => x

def retrieveIamRoleCredentials (sent : List Request) : Except Exn Result × List Request :=
  match fetchMetadataToken L F answers sent with
  | (.error e, sent) => (caught (.error e), sent)
  | (.ok token, sent) => (caught (withToken L F answers token sent).1, (withToken L F answers token sent).2)

/-! ## The number of requests -/

theorem send_length_le (q : Request) (sent : List Request) : (send L answers q sent).2.length ≤ sent.length + 1 := by
  unfold send
  split
  · simp
  · exact Nat.le_succ _

theorem tokenLoop_length_le (n : ℕ) (sent : List Request) :
    (tokenLoop L answers n sent).2.length ≤ sent.length + n := by
  induction n generalizing sent with
  | zero => exact le_rfl
  | succ n ih =>
    have hlen := send_length_le L answers .putToken sent
    rw [tokenLoop]
    rcases hsend : send L answers .putToken sent with ⟨answer, sent'⟩
    rw [hsend] at hlen
    dsimp only at hlen
    have hagain : (tokenLoop L answers n sent').2.length ≤ sent.length + (n + 1) := (ih sent').trans (by omega)
    have hdone : sent'.length ≤ sent.length + (n + 1) := by omega
    rcases answer with e | r
    · rcases e with _ | _ | unresolved | _
      · exact hdone
      · exact hagain
      · cases unresolved <;> exact hdone
      · exact hdone
    · dsimp only
      split_ifs <;> assumption

theorem getLoop_length_le (retryFunc : HttpResponse → Except Exn Bool) (q : Request) (n : ℕ) (sent : List Request) :
    (getLoop L answers retryFunc q n sent).2.length ≤ sent.length + n := by
  induction n generalizing sent with
  | zero => exact le_rfl
  | succ n ih =>
    have hlen := send_length_le L answers q sent
    rw [getLoop]
    rcases hsend : send L answers q sent with ⟨answer, sent'⟩
    rw [hsend] at hlen
    dsimp only at hlen
    have hagain : (getLoop L answers retryFunc q n sent').2.length ≤ sent.length + (n + 1) :=
      (ih sent').trans (by omega)
    have hdone : sent'.length ≤ sent.length + (n + 1) := by omega
    rcases answer with e | r
    · rcases e with _ | _ | unresolved | _
      · exact hagain
      · exact hagain
      · exact hdone
      · exact hdone
    · dsimp only
      rcases retryFunc r with e | again
      · exact hdone
      · cases again
        · exact hdone
        · exact hagain

theorem fetchMetadataToken_length_le (sent : List Request) :
    (fetchMetadataToken L F answers sent).2.length ≤ sent.length + F.numAttempts := by
  unfold fetchMetadataToken
  split_ifs
  · exact Nat.le_add_right _ _
  · exact tokenLoop_length_le L answers _ _

theorem getRequest_length_le (path : String) (retryFunc : HttpResponse → Except Exn Bool) (token : Option String)
    (sent : List Request) :
    (getRequest L F answers path retryFunc token sent).2.length ≤ sent.length + F.numAttempts := by
  unfold getRequest
  split_ifs
  · exact Nat.le_add_right _ _
  · exact Nat.le_add_right _ _
  · exact getLoop_length_le L answers _ _ _ _

theorem getIamRole_eq (token : Option String) (sent : List Request) :
    getIamRole L F answers token sent =
      ((getRequest L F answers L.urlPath needsRetryForRoleName token sent).1.bind (text L),
        (getRequest L F answers L.urlPath needsRetryForRoleName token sent).2) := by
  unfold getIamRole
  rcases getRequest L F answers L.urlPath needsRetryForRoleName token sent with ⟨e | r, sent'⟩ <;> rfl

theorem getCredentials_eq (roleName : String) (token : Option String) (sent : List Request) :
    getCredentials L F answers roleName token sent =
      ((getRequest L F answers (L.urlPath ++ roleName) (needsRetryForCredentials L) token sent).1.bind (json L),
        (getRequest L F answers (L.urlPath ++ roleName) (needsRetryForCredentials L) token sent).2) := by
  unfold getCredentials
  rcases getRequest L F answers (L.urlPath ++ roleName) (needsRetryForCredentials L) token sent with ⟨e | r, sent'⟩
    <;> rfl

theorem withRole_eq (roleName : String) (token : Option String) (sent : List Request) :
    withRole L F answers roleName token sent =
      ((getCredentials L F answers roleName token sent).1.bind (credentialsOf L roleName),
        (getCredentials L F answers roleName token sent).2) := by
  unfold withRole
  rcases getCredentials L F answers roleName token sent with ⟨e | c, sent'⟩ <;> rfl

theorem withToken_error {token : Option String} {sent : List Request} {e : Exn}
    (h : (getIamRole L F answers token sent).1 = .error e) : (withToken L F answers token sent).1 = .error e := by
  unfold withToken
  rcases hrole : getIamRole L F answers token sent with ⟨x, sent'⟩
  rw [hrole] at h
  dsimp only at h
  rw [h]

theorem withRole_length_le (roleName : String) (token : Option String) (sent : List Request) :
    (withRole L F answers roleName token sent).2.length ≤ sent.length + F.numAttempts := by
  rw [withRole_eq, getCredentials_eq]
  exact getRequest_length_le L F answers _ _ token sent

theorem withToken_length_le (token : Option String) (sent : List Request) :
    (withToken L F answers token sent).2.length ≤ sent.length + 2 * F.numAttempts := by
  have hlen : (getIamRole L F answers token sent).2.length ≤ sent.length + F.numAttempts := by
    rw [getIamRole_eq]
    exact getRequest_length_le L F answers _ _ token sent
  unfold withToken
  rcases hrole : getIamRole L F answers token sent with ⟨e | roleName, sent'⟩
  · rw [hrole] at hlen
    exact hlen.trans (by omega)
  · rw [hrole] at hlen
    dsimp only at hlen
    exact (withRole_length_le L F answers roleName token sent').trans (by omega)

/-- whatever the answers are -/
theorem retrieve_length_le (sent : List Request) :
    (retrieveIamRoleCredentials L F answers sent).2.length ≤ sent.length + 3 * F.numAttempts := by
  have hlen := fetchMetadataToken_length_le L F answers sent
  unfold retrieveIamRoleCredentials
  rcases hfetch : fetchMetadataToken L F answers sent with ⟨e | token, sent'⟩
  · rw [hfetch] at hlen
    exact hlen.trans (by omega)
  · rw [hfetch] at hlen
    dsimp only at hlen
    exact (withToken_length_le L F answers token sent').trans (by omega)

/-! ## Responses -/

/-- every request that is sent is answered by a response -/
def responding (responses : ℕ → HttpResponse) : ℕ → Answer := fun i => .ok (responses i)

/-- the first of `n` responses from `start` on of this kind -/
def first (p : HttpResponse → Bool) (responses : ℕ → HttpResponse) (start n : ℕ) : Option ℕ :=
  (List.range' start n).find? fun i => p (responses i)

theorem first_succ (p : HttpResponse → Bool) (responses : ℕ → HttpResponse) (start n : ℕ) :
    first p responses start (n + 1) = if p (responses start) then some start else first p responses (start + 1) n := by
  rw [first, List.range'_succ, List.find?_cons]
  by_cases h : p (responses start) = true
  · rw [h, if_pos rfl]
  · rw [Bool.not_eq_true] at h
    rw [h]
    rfl

theorem answers_of_first {p : HttpResponse → Bool} {responses : ℕ → HttpResponse} {start n i : ℕ}
    (h : first p responses start n = some i) : p (responses i) = true := by
  have hfound := List.find?_some h
  exact hfound

theorem pos_of_first {p : HttpResponse → Bool} {responses : ℕ → HttpResponse} {start n i : ℕ}
    (h : first p responses start n = some i) : 0 < n := by
  rcases Nat.eq_zero_or_pos n with rfl | hn
  · cases h
  · exact hn

section Responses

variable (responses : ℕ → HttpResponse)

theorem send_responding {q : Request} (hq : L.accepts q = true) (sent : List Request) :
    send L (responding responses) q sent = (.ok (responses sent.length), sent ++ [q]) := if_pos hq

/-! ### The token -/

def answersToken (r : HttpResponse) : Bool := r.statusCode ∈ [200, 404, 403, 405, 400]

/-- what a response makes of the token -/
def tokenOf (r : HttpResponse) : Except Exn (Option String) :=
  if r.statusCode = 200 then (text L r).map some
  else if r.statusCode = 400 then .error .badImdsRequest
  else .ok none

theorem tokenLoop_succ (n : ℕ) (sent : List Request) :
    tokenLoop L (responding responses) (n + 1) sent =
      if answersToken (responses sent.length) then (tokenOf L (responses sent.length), sent ++ [.putToken])
      else tokenLoop L (responding responses) n (sent ++ [.putToken]) := by
  rw [tokenLoop, send_responding L responses L.accepts_putToken]
  unfold answersToken tokenOf
  by_cases h200 : (responses sent.length).statusCode = 200
  · simp [h200]
  · by_cases h400 : (responses sent.length).statusCode = 400
    · simp [h400]
    · simp [h200, h400]

theorem tokenLoop_none {n : ℕ} (sent : List Request) (h : first answersToken responses sent.length n = none) :
    ∃ sent', tokenLoop L (responding responses) n sent = (.ok none, sent') ∧ sent'.length = sent.length + n := by
  induction n generalizing sent with
  | zero => exact ⟨sent, rfl, rfl⟩
  | succ n ih =>
    rw [first_succ] at h
    rw [tokenLoop_succ]
    split_ifs at h with hanswers
    rw [if_neg hanswers]
    obtain ⟨sent', hloop, hlen⟩ := ih (sent ++ [.putToken]) (by simpa using h)
    exact ⟨sent', hloop, by simpa [Nat.add_comm, Nat.add_left_comm] using hlen⟩

theorem tokenLoop_some {n i : ℕ} (sent : List Request) (h : first answersToken responses sent.length n = some i) :
    ∃ sent', tokenLoop L (responding responses) n sent = (tokenOf L (responses i), sent') ∧ sent'.length = i + 1 := by
  induction n generalizing sent with
  | zero => cases h
  | succ n ih =>
    rw [first_succ] at h
    rw [tokenLoop_succ]
    split_ifs at h with hanswers
    · obtain rfl := Option.some.inj h
      rw [if_pos hanswers]
      exact ⟨_, rfl, by simp⟩
    · rw [if_neg hanswers]
      exact ih (sent ++ [.putToken]) (by simpa using h)

/-! ### A request that is repeated -/

section Loop

variable {retryFunc : HttpResponse → Except Exn Bool} {p : HttpResponse → Bool}
  (hp : ∀ r, p r = false ↔ retryFunc r = .ok true) {q : Request}

include hp

theorem getLoop_succ (hq : L.accepts q = true) (n : ℕ) (sent : List Request) :
    getLoop L (responding responses) retryFunc q (n + 1) sent =
      if p (responses sent.length) then
        ((retryFunc (responses sent.length)).map fun _ => responses sent.length, sent ++ [q])
      else getLoop L (responding responses) retryFunc q n (sent ++ [q]) := by
  rw [getLoop, send_responding L responses hq]
  dsimp only
  by_cases h : p (responses sent.length) = true
  · rw [if_pos h]
    have hstop : retryFunc (responses sent.length) ≠ .ok true := by
      intro hretry
      rw [← hp, h] at hretry
      cases hretry
    rcases hretry : retryFunc (responses sent.length) with e | again
    · rfl
    · cases again
      · rfl
      · exact absurd hretry hstop
  · rw [if_neg h]
    rw [Bool.not_eq_true, hp] at h
    rw [h]

theorem getLoop_none (hq : L.accepts q = true) {n : ℕ} (sent : List Request)
    (h : first p responses sent.length n = none) :
    (getLoop L (responding responses) retryFunc q n sent).1 = .error .retriesExceeded := by
  induction n generalizing sent with
  | zero => rfl
  | succ n ih =>
    rw [first_succ] at h
    rw [getLoop_succ L responses hp hq]
    split_ifs at h with hstop
    rw [if_neg hstop]
    exact ih (sent ++ [q]) (by simpa using h)

theorem getLoop_some (hq : L.accepts q = true) {n i : ℕ} (sent : List Request)
    (h : first p responses sent.length n = some i) :
    ∃ sent', getLoop L (responding responses) retryFunc q n sent =
      ((retryFunc (responses i)).map fun _ => responses i, sent') ∧ sent'.length = i + 1 := by
  induction n generalizing sent with
  | zero => cases h
  | succ n ih =>
    rw [first_succ] at h
    rw [getLoop_succ L responses hp hq]
    split_ifs at h with hstop
    · obtain rfl := Option.some.inj h
      rw [if_pos hstop]
      exact ⟨_, rfl, by simp⟩
    · rw [if_neg hstop]
      exact ih (sent ++ [q]) (by simpa using h)

end Loop

theorem getLoop_refused {retryFunc : HttpResponse → Except Exn Bool} {q : Request} (hq : L.accepts q = false) {n : ℕ}
    (hn : 0 < n) (sent : List Request) :
    getLoop L answers retryFunc q n sent = (.error (.send (.httpClient false)), sent) := by
  obtain ⟨n, rfl⟩ := Nat.exists_eq_add_of_lt hn
  rw [Nat.zero_add, getLoop, send, if_neg (by simp [hq])]

/-! ### The role -/

def answersRole (r : HttpResponse) : Bool := r.statusCode == 200 && !r.content.isEmpty

theorem answersRole_iff (r : HttpResponse) : answersRole r = false ↔ needsRetryForRoleName r = .ok true := by
  unfold answersRole needsRetryForRoleName isNonOkResponse isEmpty
  by_cases h : r.statusCode = 200 <;> simp [h]

variable (hdisabled : F.disabled = false) (hv1 : F.imdsV1Disabled = false)

include hdisabled hv1

theorem getRequest_enabled (path : String) (retryFunc : HttpResponse → Except Exn Bool) (token : Option String)
    (sent : List Request) : getRequest L F answers path retryFunc token sent =
      getLoop L answers retryFunc (.get path token) F.numAttempts sent := by
  rw [getRequest, if_neg (by simp [hdisabled]), if_neg (by simp [hv1])]

theorem getIamRole_none {token : Option String} (hq : L.accepts (.get L.urlPath token) = true) {sent : List Request}
    (h : first answersRole responses sent.length F.numAttempts = none) :
    (getIamRole L F (responding responses) token sent).1 = .error .retriesExceeded := by
  rw [getIamRole_eq, getRequest_enabled L F _ hdisabled hv1, getLoop_none L responses answersRole_iff hq sent h]
  rfl

theorem getIamRole_some {token : Option String} (hq : L.accepts (.get L.urlPath token) = true) {sent : List Request}
    {i : ℕ} (h : first answersRole responses sent.length F.numAttempts = some i) :
    ∃ sent', getIamRole L F (responding responses) token sent = (text L (responses i), sent') ∧
      sent'.length = i + 1 := by
  obtain ⟨sent', hget, hlen⟩ := getLoop_some L responses answersRole_iff hq sent h
  have hrole : answersRole (responses i) = true := answers_of_first h
  have hretry : needsRetryForRoleName (responses i) = .ok false := by
    rcases hnot : needsRetryForRoleName (responses i) with e | again
    · cases hnot
    · cases again
      · rfl
      · rw [← answersRole_iff, hrole] at hnot
        cases hnot
  refine ⟨sent', ?_, hlen⟩
  rw [getIamRole_eq, getRequest_enabled L F _ hdisabled hv1, hget, hretry]
  rfl

/-! ### The credentials -/

/-- the body is no JSON: a `ValueError`, which is caught -/
def undecodable (r : HttpResponse) : Bool :=
  match json L r with
  | .ok _ => false
  | .error e => e.isValueError

def answersCredentials (r : HttpResponse) : Bool := answersRole r && !undecodable L r

omit hdisabled hv1 in
theorem needsRetryForCredentials_eq {r : HttpResponse} (h : answersRole r = true) :
    needsRetryForCredentials L r = isInvalidJson L r := by
  have hretry : ¬ (isNonOkResponse r || isEmpty r) = true := by
    intro hagain
    have hrole : answersRole r = false := (answersRole_iff r).2 (by rw [needsRetryForRoleName, hagain])
    rw [h] at hrole
    cases hrole
  exact if_neg hretry

omit hdisabled hv1 in
theorem answersCredentials_iff (r : HttpResponse) :
    answersCredentials L r = false ↔ needsRetryForCredentials L r = .ok true := by
  unfold answersCredentials
  by_cases hrole : answersRole r = true
  · rw [needsRetryForCredentials_eq L hrole, hrole]
    unfold undecodable isInvalidJson
    rcases json L r with e | c
    · cases e.isValueError <;> simp
    · simp
  · rw [Bool.not_eq_true] at hrole
    have hagain := (answersRole_iff r).1 hrole
    rw [needsRetryForRoleName, Except.ok.injEq] at hagain
    simp [hrole, needsRetryForCredentials, hagain]

/-- the response that is taken gives its JSON, also where this raises -/
theorem getCredentials_some {roleName : String} {token : Option String}
    (hq : L.accepts (.get (L.urlPath ++ roleName) token) = true) {sent : List Request} {i : ℕ}
    (h : first (answersCredentials L) responses sent.length F.numAttempts = some i) :
    (getCredentials L F (responding responses) roleName token sent).1 = json L (responses i) := by
  obtain ⟨sent', hget, -⟩ := getLoop_some L responses (answersCredentials_iff L) hq sent h
  have hanswers := answers_of_first h
  rw [answersCredentials, Bool.and_eq_true, Bool.not_eq_true'] at hanswers
  obtain ⟨hrole, hdecodes⟩ := hanswers
  rw [needsRetryForCredentials_eq L hrole] at hget
  rw [getCredentials_eq, getRequest_enabled L F _ hdisabled hv1, hget]
  unfold undecodable at hdecodes
  unfold isInvalidJson
  rcases hjson : json L (responses i) with e | c
  · rw [hjson] at hdecodes
    have hraised : e.isValueError = false := hdecodes
    simp [hraised, Except.map, Except.bind]
  · simp [hjson, Except.map, Except.bind]

theorem getCredentials_none {roleName : String} {token : Option String}
    (hq : L.accepts (.get (L.urlPath ++ roleName) token) = true) {sent : List Request}
    (h : first (answersCredentials L) responses sent.length F.numAttempts = none) :
    (getCredentials L F (responding responses) roleName token sent).1 = .error .retriesExceeded := by
  rw [getCredentials_eq, getRequest_enabled L F _ hdisabled hv1,
    getLoop_none L responses (answersCredentials_iff L) hq sent h]
  rfl

/-! ### What is in them -/

omit hdisabled hv1

def Exn.isCaught : Exn → Bool
  | .retriesExceeded | .badImdsRequest => true
  | _ => false

/-- the `except` clauses leave a result -/
def Returns (x : Except Exn Result) : Prop := ∃ result, caught x = .ok result

theorem returns_ok (result : Result) : Returns (.ok result) := ⟨result, rfl⟩

theorem returns_error (e : Exn) : Returns (.error e) ↔ e.isCaught = true := by
  cases e <;> simp [Returns, caught, Exn.isCaught]

theorem containsEach_eq {c : Json} {f : String → Bool} (h : ∀ field, contains field c = .ok (f field))
    (fields : List String) : containsEach fields c = .ok (fields.all f) := by
  induction fields with
  | nil => rfl
  | cons field fields ih =>
    rw [containsEach, h field, List.all_cons]
    cases f field with
    | true => exact ih
    | false => rfl

theorem item_of_mem {field : String} {fields : List (String × Json)} (h : field ∈ fields.map Prod.fst) :
    ∃ v, fields.reverse.lookup field = some v ∧ item field (.obj fields) = .ok v := by
  have hsome : (fields.reverse.lookup field).isSome := by
    rw [List.lookup_isSome_iff]
    obtain ⟨z, hz, rfl⟩ := List.mem_map.1 h
    exact ⟨z, List.mem_reverse.2 hz, by simp⟩
  obtain ⟨v, hv⟩ := Option.isSome_iff_exists.1 hsome
  refine ⟨v, hv, ?_⟩
  rw [item, hv]

/-- what can be made of the JSON of the credentials: an object whose `Expiration` can be evaluated if no field is
missing, a list or a text in which a field is missing -/
def Usable : Json → Prop
  | .obj fields => (∀ field ∈ requiredFields, field ∈ fields.map Prod.fst) →
      ∀ v, fields.reverse.lookup "Expiration" = some v → (L.evaluateExpiration v).isSome
  | .arr values => ∃ field ∈ requiredFields, Json.str field ∉ values
  | .str s => ∃ field ∈ requiredFields, ¬ field.toList <:+: s.toList
  | _ => False

theorem renamed_returns_iff {roleName : String} {fields : List (String × Json)}
    (h : ∀ field ∈ requiredFields, field ∈ fields.map Prod.fst) :
    Returns (renamed L roleName (.obj fields)) ↔
      ∀ v, fields.reverse.lookup "Expiration" = some v → (L.evaluateExpiration v).isSome := by
  obtain ⟨accessKey, -, haccess⟩ := item_of_mem (h "AccessKeyId" (by simp [requiredFields]))
  obtain ⟨secretKey, -, hsecret⟩ := item_of_mem (h "SecretAccessKey" (by simp [requiredFields]))
  obtain ⟨token, -, htoken⟩ := item_of_mem (h "Token" (by simp [requiredFields]))
  obtain ⟨expiration, hlookup, hexpiration⟩ := item_of_mem (h "Expiration" (by simp [requiredFields]))
  have hrenamed : renamed L roleName (.obj fields) =
      (L.evaluateExpiration expiration).elim (.error .expiration) fun expiryTime =>
        .ok (.credentials roleName accessKey secretKey token expiryTime) := by
    unfold renamed
    rw [haccess, hsecret, htoken, hexpiration]
    dsimp only [bind, Except.bind]
    rcases L.evaluateExpiration expiration with _ | expiryTime <;> rfl
  rw [hrenamed]
  constructor
  · intro hreturns v hv
    rw [hlookup] at hv
    obtain rfl := Option.some.inj hv
    rcases heval : L.evaluateExpiration expiration with _ | expiryTime
    · rw [heval] at hreturns
      cases (returns_error _).1 hreturns
    · rfl
  · intro hall
    obtain ⟨expiryTime, heval⟩ := Option.isSome_iff_exists.1 (hall expiration hlookup)
    rw [heval]
    exact returns_ok _

/-- credentials that are a container are renamed if they have all fields, and dropped otherwise -/
theorem credentialsOf_container {roleName : String} {c : Json} {f : String → Bool}
    (h : ∀ field, contains field c = .ok (f field)) :
    Returns (credentialsOf L roleName c) ↔ (requiredFields.all f = true → Returns (renamed L roleName c)) := by
  unfold credentialsOf isErrorResponse
  rw [L.containsAll_eq, containsEach_eq h, containsEach_eq h]
  cases requiredFields.all f with
  | true => simp
  | false =>
    constructor
    · intro _ hall
      cases hall
    · intro _
      exact returns_ok _

theorem not_returns_renamed {roleName : String} {c : Json} (h : item "AccessKeyId" c = .error .type) :
    ¬ Returns (renamed L roleName c) := by
  unfold renamed
  rw [h]
  intro hreturns
  cases (returns_error _).1 hreturns

theorem not_all_iff {f : String → Bool} {P : String → Prop} (h : ∀ field, f field = true ↔ P field) :
    (requiredFields.all f = true → False) ↔ ∃ field ∈ requiredFields, ¬ P field := by
  simp only [List.all_eq_true, h]
  constructor
  · intro hnot
    by_contra hnone
    apply hnot
    intro field hfield
    by_contra hmissing
    exact hnone ⟨field, hfield, hmissing⟩
  · intro hsome hall
    obtain ⟨field, hfield, hmissing⟩ := hsome
    exact hmissing (hall field hfield)

theorem credentialsOf_returns_iff (roleName : String) (c : Json) :
    Returns (credentialsOf L roleName c) ↔ Usable L c := by
  have hscalar : containsEach requiredFields c = .error .type →
      (Returns (credentialsOf L roleName c) ↔ False) := by
    intro htype
    rw [credentialsOf, L.containsAll_eq, htype, returns_error]
    simp [Exn.isCaught]
  cases c with
  | null => exact hscalar rfl
  | bool b => exact hscalar rfl
  | number literal => exact hscalar rfl
  | str s =>
    rw [credentialsOf_container L fun field => rfl, iff_false_intro (not_returns_renamed L rfl)]
    exact not_all_iff fun field => decide_eq_true_iff
  | arr values =>
    rw [credentialsOf_container L fun field => rfl, iff_false_intro (not_returns_renamed L rfl)]
    apply not_all_iff
    intro field
    rw [List.any_eq_true]
    constructor
    · intro hany
      obtain ⟨v, hv, heq⟩ := hany
      split at heq
      · rw [eq_of_beq heq] at hv
        exact hv
      · cases heq
    · intro hmem
      exact ⟨_, hmem, by simp⟩
  | obj fields =>
    rw [credentialsOf_container L fun field => rfl]
    have hall : (requiredFields.all fun field => fields.any fun z => z.1 == field) = true ↔
        ∀ field ∈ requiredFields, field ∈ fields.map Prod.fst := by
      simp only [List.all_eq_true, List.any_eq_true, List.mem_map, beq_iff_eq]
    rw [hall]
    exact forall_congr' fun h => renamed_returns_iff L h

/-! ## The three requests -/

theorem text_error {r : HttpResponse} {e : Exn} (h : text L r = .error e) : e.isCaught = false := by
  unfold text at h
  split at h
  · cases h
    rfl
  · cases h

theorem json_error {r : HttpResponse} {e : Exn} (h : json L r = .error e) : e.isCaught = false := by
  unfold json at h
  split at h
  · rename_i e' htext
    cases h
    exact text_error L htext
  · split at h
    · cases h
      rfl
    · cases h

theorem not_returns_error {e : Exn} (h : e.isCaught = false) : ¬ Returns (.error e) := by
  rw [returns_error, h]
  exact Bool.false_ne_true

/-- the credentials that are taken can be used -/
def CredentialsFrom (start : ℕ) : Prop :=
  ∀ i, first (answersCredentials L) responses start F.numAttempts = some i →
    ∃ c, json L (responses i) = .ok c ∧ Usable L c

/-- the role that is taken is a text, and what follows can be sent and used -/
def RoleFrom (token : Option String) (start : ℕ) : Prop :=
  (0 < F.numAttempts → L.accepts (.get L.urlPath token) = true) ∧
    ∀ i, first answersRole responses start F.numAttempts = some i →
      ∃ roleName, text L (responses i) = .ok roleName ∧ L.accepts (.get (L.urlPath ++ roleName) token) = true ∧
        CredentialsFrom L F responses (i + 1)

/-- a token that is taken is a text, and what follows can be used -/
def TokenFrom : Prop :=
  (first answersToken responses 0 F.numAttempts = none → RoleFrom L F responses none F.numAttempts) ∧
    ∀ i, first answersToken responses 0 F.numAttempts = some i →
      ((responses i).statusCode = 200 →
        ∃ token, text L (responses i) = .ok token ∧ RoleFrom L F responses (some token) (i + 1)) ∧
      ((responses i).statusCode ∈ [404, 403, 405] → RoleFrom L F responses none (i + 1))

include hdisabled hv1

theorem withRole_iff (hN : 0 < F.numAttempts) (roleName : String) (token : Option String) (sent : List Request) :
    Returns (withRole L F (responding responses) roleName token sent).1 ↔
      L.accepts (.get (L.urlPath ++ roleName) token) = true ∧ CredentialsFrom L F responses sent.length := by
  rw [withRole_eq]
  by_cases hq : L.accepts (.get (L.urlPath ++ roleName) token) = true
  · rw [and_iff_right hq]
    unfold CredentialsFrom
    rcases hfirst : first (answersCredentials L) responses sent.length F.numAttempts with _ | i
    · rw [getCredentials_none L F responses hdisabled hv1 hq hfirst]
      constructor
      · intro _ i hi
        cases hi
      · intro _
        exact (returns_error _).2 rfl
    · rw [getCredentials_some L F responses hdisabled hv1 hq hfirst]
      constructor
      · intro hreturns j hj
        obtain rfl := Option.some.inj hj
        rcases hjson : json L (responses i) with e | c
        · rw [hjson] at hreturns
          exact absurd hreturns (not_returns_error (json_error L hjson))
        · rw [hjson] at hreturns
          exact ⟨c, rfl, (credentialsOf_returns_iff L roleName c).1 hreturns⟩
      · intro hall
        obtain ⟨c, hjson, husable⟩ := hall i rfl
        rw [hjson]
        exact (credentialsOf_returns_iff L roleName c).2 husable
  · have hrefused : (getCredentials L F (responding responses) roleName token sent).1 =
        .error (.send (.httpClient false)) := by
      rw [getCredentials_eq, getRequest_enabled L F _ hdisabled hv1, getLoop_refused L _ (by simpa using hq) hN]
      rfl
    rw [hrefused]
    constructor
    · intro hreturns
      exact absurd hreturns (not_returns_error rfl)
    · intro h
      exact absurd h.1 hq

/-- a request for the role name that is not accepted -/
theorem withToken_refused {token : Option String} (hq : ¬ L.accepts (.get L.urlPath token) = true)
    (sent : List Request) :
    Returns (withToken L F (responding responses) token sent).1 ↔ RoleFrom L F responses token sent.length := by
  unfold RoleFrom
  rcases Nat.eq_zero_or_pos F.numAttempts with hN | hN
  · have hexceeded : (getIamRole L F (responding responses) token sent).1 = .error .retriesExceeded := by
      rw [getIamRole_eq, getRequest_enabled L F _ hdisabled hv1, hN]
      rfl
    rw [withToken_error L F _ hexceeded, hN]
    constructor
    · intro _
      refine ⟨fun hpos => absurd hpos (lt_irrefl 0), ?_⟩
      intro i hi
      cases hi
    · intro _
      exact (returns_error _).2 rfl
  · have hrefused : (getIamRole L F (responding responses) token sent).1 = .error (.send (.httpClient false)) := by
      rw [getIamRole_eq, getRequest_enabled L F _ hdisabled hv1, getLoop_refused L _ (by simpa using hq) hN]
      rfl
    rw [withToken_error L F _ hrefused]
    constructor
    · intro hreturns
      exact absurd hreturns (not_returns_error rfl)
    · intro h
      exact absurd (h.1 hN) hq

theorem withToken_iff (token : Option String) (sent : List Request) :
    Returns (withToken L F (responding responses) token sent).1 ↔ RoleFrom L F responses token sent.length := by
  by_cases hq : L.accepts (.get L.urlPath token) = true
  · unfold RoleFrom
    rw [and_iff_right fun _ => hq]
    rcases hfirst : first answersRole responses sent.length F.numAttempts with _ | i
    · rw [withToken_error L F _ (getIamRole_none L F responses hdisabled hv1 hq hfirst)]
      constructor
      · intro _ i hi
        cases hi
      · intro _
        exact (returns_error _).2 rfl
    · obtain ⟨sent', hrole, hlen⟩ := getIamRole_some L F responses hdisabled hv1 hq hfirst
      have hN := pos_of_first hfirst
      rw [withToken, hrole]
      rcases htext : text L (responses i) with e | roleName
      · constructor
        · intro hreturns
          exact absurd hreturns (not_returns_error (text_error L htext))
        · intro hall
          obtain ⟨roleName, hname, -⟩ := hall i rfl
          rw [htext] at hname
          cases hname
      · dsimp only
        rw [withRole_iff L F responses hdisabled hv1 hN, hlen]
        constructor
        · intro h j hj
          obtain rfl := Option.some.inj hj
          exact ⟨roleName, htext, h⟩
        · intro hall
          obtain ⟨roleName', hname, h⟩ := hall i rfl
          rw [htext] at hname
          obtain rfl := Except.ok.inj hname
          exact h
  · exact withToken_refused L F responses hdisabled hv1 hq sent

omit hv1 in
/-- what is returned is decided by the answer to the request for a token -/
theorem retrieve_of_token {x : Except Exn (Option String)} {sent : List Request}
    (h : tokenLoop L (responding responses) F.numAttempts [] = (x, sent)) :
    (∃ result, (retrieveIamRoleCredentials L F (responding responses) []).1 = .ok result) ↔
      Returns (x.bind fun token => (withToken L F (responding responses) token sent).1) := by
  unfold retrieveIamRoleCredentials fetchMetadataToken
  rw [if_neg (by simp [hdisabled]), h]
  rcases x with e | token <;> exact Iff.rfl

/-- what follows an answer to the request for a token -/
theorem returns_tokenOf {r : HttpResponse} (h : answersToken r = true) (sent : List Request) :
    Returns ((tokenOf L r).bind fun token => (withToken L F (responding responses) token sent).1) ↔
      (r.statusCode = 200 → ∃ token, text L r = .ok token ∧ RoleFrom L F responses (some token) sent.length) ∧
        (r.statusCode ∈ [404, 403, 405] → RoleFrom L F responses none sent.length) := by
  unfold tokenOf
  by_cases h200 : r.statusCode = 200
  · have hno : r.statusCode ∉ [404, 403, 405] := by simp [h200]
    rw [if_pos h200, forall_prop_of_true h200, and_iff_left fun hmem => absurd hmem hno]
    rcases htext : text L r with e | token
    · constructor
      · intro hreturns
        exact absurd hreturns (not_returns_error (text_error L htext))
      · intro hsome
        obtain ⟨token, htoken, -⟩ := hsome
        cases htoken
    · change Returns (withToken L F (responding responses) (some token) sent).1 ↔ _
      rw [withToken_iff L F responses hdisabled hv1]
      constructor
      · intro hrole
        exact ⟨token, rfl, hrole⟩
      · intro hsome
        obtain ⟨token', htoken, hrole⟩ := hsome
        obtain rfl := Except.ok.inj htoken
        exact hrole
  · rw [if_neg h200]
    by_cases h400 : r.statusCode = 400
    · rw [if_pos h400]
      constructor
      · intro _
        exact ⟨fun h => absurd h h200, fun hmem => by simp [h400] at hmem⟩
      · intro _
        exact (returns_error _).2 rfl
    · rw [if_neg h400]
      change Returns (withToken L F (responding responses) none sent).1 ↔ _
      rw [withToken_iff L F responses hdisabled hv1]
      constructor
      · intro hrole
        exact ⟨fun h => absurd h h200, fun _ => hrole⟩
      · intro hall
        apply hall.2
        simpa [answersToken, h200, h400] using h

/-- **When the retrieval does not fail.** For a fetcher that is enabled and may use IMDSv1, and every sequence of
responses: a result is returned and at most `3 * num_attempts` requests are sent, iff the responses that the three
requests stop at can be used. -/
theorem retrieve_returns_iff :
    ((∃ result, (retrieveIamRoleCredentials L F (responding responses) []).1 = .ok result) ∧
      (retrieveIamRoleCredentials L F (responding responses) []).2.length ≤ 3 * F.numAttempts) ↔
    TokenFrom L F responses := by
  have hbound := retrieve_length_le L F (responding responses) []
  rw [List.length_nil, Nat.zero_add] at hbound
  rw [and_iff_left hbound]
  unfold TokenFrom
  rcases hfirst : first answersToken responses 0 F.numAttempts with _ | i
  · obtain ⟨sent, hloop, hlen⟩ := tokenLoop_none L responses [] hfirst
    rw [List.length_nil, Nat.zero_add] at hlen
    rw [retrieve_of_token L F responses hdisabled hloop]
    change Returns (withToken L F (responding responses) none sent).1 ↔ _
    rw [withToken_iff L F responses hdisabled hv1, hlen]
    constructor
    · intro h
      refine ⟨fun _ => h, ?_⟩
      intro i hi
      cases hi
    · intro h
      exact h.1 rfl
  · obtain ⟨sent, hloop, hlen⟩ := tokenLoop_some L responses [] hfirst
    rw [retrieve_of_token L F responses hdisabled hloop, returns_tokenOf L F responses hdisabled hv1
      (answers_of_first hfirst), hlen]
    constructor
    · intro h
      constructor
      · intro hnone
        cases hnone
      · intro j hj
        obtain rfl := Option.some.inj hj
        exact h
    · intro h
      exact h.2 i rfl

end Responses

/-! ## An instance -/

/-- a header value has no line break -/
def headerValue (token : String) : Bool := token.toList.all fun c => c != '\n' && c != '\r'

/-- all bodies are UTF-8, and the only JSON are `null` and `{}` -/
def twoTexts : Library where
  urlPath := "latest/meta-data/iam/security-credentials/"
  accepts
    | .putToken => true
    | .get _ token => headerValue (token.getD "")
  accepts_putToken := rfl
  accepts_role := rfl
  encodingFromHeaders _ := none
  decode _ b := (decodeUtf8 b).elim (.error .unicode) .ok
  decode_utf8 _ := rfl
  loads s := if s = "null" then .ok .null else if s = "\x7b\x7d" then .ok (.obj []) else .error .value
  containsAll := containsEach requiredFields
  containsAll_eq _ := rfl
  evaluateExpiration := some

def oneAttempt : Fetcher := ⟨1, false, false⟩

/-- 200 with this body -/
def ok (content : Bytes) : HttpResponse := ⟨200, none, content⟩

/-- a token `t`, a role `r` and the credentials `{}` -/
def noFields (i : ℕ) : HttpResponse := if i = 0 then ok [116] else if i = 1 then ok [114] else ok [123, 125]

theorem tokenFrom_noFields : TokenFrom twoTexts oneAttempt noFields := by
  have htoken : first answersToken noFields 0 oneAttempt.numAttempts = some 0 := by decide
  have hrole : first answersRole noFields 1 oneAttempt.numAttempts = some 1 := by decide
  have hcredentials : first (answersCredentials twoTexts) noFields 2 oneAttempt.numAttempts = some 2 := by decide
  constructor
  · intro hnone
    rw [htoken] at hnone
    cases hnone
  · intro i hi
    rw [htoken] at hi
    cases hi
    refine ⟨fun _ => ⟨"t", by decide, fun _ => by decide, ?_⟩, fun hmem => absurd hmem (by decide)⟩
    intro i hi
    rw [hrole] at hi
    cases hi
    refine ⟨"r", by decide, by decide, ?_⟩
    intro i hi
    rw [hcredentials] at hi
    cases hi
    refine ⟨.obj [], rfl, ?_⟩
    intro hall
    exact absurd (hall "AccessKeyId" (by decide)) (by decide)

theorem retrieve_noFields :
    (∃ result, (retrieveIamRoleCredentials twoTexts oneAttempt (responding noFields) []).1 = .ok result) ∧
      (retrieveIamRoleCredentials twoTexts oneAttempt (responding noFields) []).2.length ≤ 3 :=
  (retrieve_returns_iff twoTexts oneAttempt noFields rfl rfl).2 tokenFrom_noFields

/-- a token `t`, a role `r` and the credentials `null` -/
def nullBody (i : ℕ) : HttpResponse := if i = 0 then ok [116] else if i = 1 then ok [114] else ok [110, 117, 108, 108]

/-- **Credentials that are `null`** raise a `TypeError`. -/
theorem null_credentials : ¬ ∀ responses,
    (∃ result, (retrieveIamRoleCredentials twoTexts oneAttempt (responding responses) []).1 = .ok result) ∧
      (retrieveIamRoleCredentials twoTexts oneAttempt (responding responses) []).2.length ≤ 3 := by
  intro hall
  obtain ⟨result, hresult⟩ := (hall nullBody).1
  have hraised : (retrieveIamRoleCredentials twoTexts oneAttempt (responding nullBody) []).1 = .error .type := rfl
  rw [hraised] at hresult
  cases hresult

end AioBotocore.InstanceMetadata
