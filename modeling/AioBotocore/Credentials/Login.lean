/-
`AioLoginCredentialFetcher.refresh_credentials` (`credentials.py`), by which the credentials of `aws login` are refreshed.
Each `AioLoginProvider.load` makes a fetcher, and the fetchers of a login session share one cache entry: any number of tasks
refresh. They are tasks of `Renewal`: a task suspends while it creates the client, calls `create_o_auth2_token` and closes
the client; until then the service may have redeemed the refresh token already.

Of botocore are `_load_private_key` and `_token_to_credentials`, which are parameters, and the token loader, which raises
without an entry and reads a saved entry back as it was saved.

- `login_refreshes`: when the service is called, what is saved and what of the entry never changes; no save undoes another,
  and the cached refresh token is the one the service honours.
-/
import Mathlib.Tactic
import AioBotocore.Renewal

namespace AioBotocore.Login

open Async

/-! ## Model -/

/-- a date is what `_parse_if_needed` makes of it in microseconds, `none` if it fails -/
structure AccessToken where
  accessKeyId : Option String
  secretAccessKey : Option String
  sessionToken : Option String
  accountId : Option String
  expiresAt : Option (Option ℤ)
deriving DecidableEq, Repr

/-- a cached token -/
structure TokenDict where
  accessToken : Option AccessToken
  clientId : Option String
  refreshToken : Option String
  dpopKey : Option String
  /-- the keys that a refresh does not look at -/
  others : List (String × String)
deriving DecidableEq, Repr

/-- `tokenOutput` of a response; `expiresIn` is in seconds -/
structure Output where
  accessKeyId : String
  secretAccessKey : String
  sessionToken : String
  refreshToken : String
  expiresIn : ℤ
deriving DecidableEq, Repr

inductive Exn where
  /-- what the token loader raises without an entry -/
  | noToken
  /-- `LoginTokenLoadError` -/
  | tokenLoad (errorMsg : String)
  /-- `LoginRefreshRequired` -/
  | refreshRequired
  /-- `LoginInsufficientPermissions` -/
  | insufficientPermissions
  /-- `LoginError` -/
  | login
  | keyError (key : String)
  | invalidDate
  /-- raised by the call, by closing the client or by saving; a cancellation, too -/
  | other (text : String)
deriving DecidableEq, Repr

/-- of botocore: `_REFRESH_THRESHOLD`, in microseconds, `_load_private_key` and `_token_to_credentials` -/
structure Cfg (α : Type) where
  refreshThreshold : ℤ
  loadPrivateKey : TokenDict → Except Exn Unit
  tokenToCredentials : TokenDict → Except Exn α

variable {α : Type}

/-- whether the token has already been refreshed and is still valid -/
def stillValid (C : Cfg α) (now : ℤ) (token : TokenDict) : Except Exn Bool :=
  match token.accessToken.bind AccessToken.expiresAt with
  | none => .ok false
  | some none => .error .invalidDate
  | some (some expiry) => .ok (C.refreshThreshold < expiry - now)

/-- the token that a task has loaded and the refresh token in it -/
abbrev Start (α : Type) := Renewal.Start TokenDict Unit α Exn String

/-- `refresh_credentials` up to its call of the service -/
def refreshCredentials (C : Cfg α) (now : ℤ) (cache : Option TokenDict) : Start α :=
  match cache with
  | none => .raises .noToken
  | some token =>
    match C.loadPrivateKey token with
    | .error e => .raises e
    | .ok _ =>
      match stillValid C now token with
      | .error e => .raises e
      | .ok true =>
        match C.tokenToCredentials token with
        | .error e => .raises e
        | .ok credentials => .returns credentials
      | .ok false =>
        match token.clientId, token.refreshToken with
        | none, _ => .raises (.keyError "clientId")
        | some _, none => .raises (.keyError "refreshToken")
        | some _, some refreshToken => .calls token refreshToken ()

/-- what the call, closing the client or saving raises -/
inductive Failure where
  /-- `AccessDeniedException`, and `error` in its response -/
  | accessDenied (errorType : String)
  | other (text : String)
deriving DecidableEq, Repr

def refreshFails : Failure → Exn
  | .accessDenied errorType =>
    if errorType = "TOKEN_EXPIRED" ∨ errorType = "USER_CREDENTIALS_CHANGED" then .refreshRequired
    else if errorType = "INSUFFICIENT_PERMISSIONS" then .insufficientPermissions
    else .login
  | .other text => .other text

def invalidResponse : String :=
  "Unable to refresh access token due to an invalid service response. " ++
    "Please try running 'aws login' again. If the issue persists, there may be a temporary signin service problem."

/-- `strftime('%Y-%m-%dT%H:%M:%SZ')`, as it is parsed again: without the microseconds -/
def strftime (t : ℤ) : ℤ := t / 1000000 * 1000000

/-- `token.update` -/
def updateToken (now : ℤ) (token : TokenDict) (accountId : String) (output : Output) : TokenDict :=
  { token with
    accessToken := some
      { accessKeyId := some output.accessKeyId
        secretAccessKey := some output.secretAccessKey
        sessionToken := some output.sessionToken
        accountId := some accountId
        expiresAt := some (some (strftime (now + output.expiresIn * 1000000))) }
    refreshToken := some output.refreshToken }

/-- `refresh_credentials` after the client is closed; the response has no `tokenOutput`, or `output` -/
def renewToken (C : Cfg α) (now : ℤ) (token : TokenDict) : Option Output → Except Exn (TokenDict × Except Exn α)
  | none => .error (.tokenLoad invalidResponse)
  | some output =>
    match token.accessToken with
    | none => .error (.keyError "accessToken")
    | some accessToken =>
      match accessToken.accountId with
      | none => .error (.keyError "accountId")
      | some accountId =>
        let new := updateToken now token accountId output
        .ok (new, C.tokenToCredentials new)

/-- the token can be refreshed, and is about to expire or does not say -/
structure Refreshable (C : Cfg α) (now : ℤ) (token : TokenDict) : Prop where
  privateKey : C.loadPrivateKey token = .ok ()
  invalid : stillValid C now token = .ok false
  clientId : token.clientId.isSome
  refreshToken : token.refreshToken.isSome

theorem refreshCredentials_calls {C : Cfg α} {now : ℤ} {cache : Option TokenDict} {token : TokenDict} {ticket : String}
    {memo : Unit} (h : refreshCredentials C now cache = .calls token ticket memo) :
    cache = some token ∧ Refreshable C now token ∧ token.refreshToken = some ticket := by
  cases cache with
  | none => cases h
  | some loaded =>
    simp only [refreshCredentials] at h
    split at h
    · cases h
    · rename_i hkey
      split at h
      · cases h
      · split at h <;> cases h
      · rename_i hinvalid
        split at h
        · cases h
        · cases h
        · rename_i clientId refreshToken hclient hrefresh
          obtain ⟨rfl, rfl, -⟩ := Renewal.Start.calls.inj h
          exact ⟨rfl, ⟨hkey, hinvalid, by rw [hclient]; rfl, by rw [hrefresh]; rfl⟩, hrefresh⟩

theorem renewToken_ok {C : Cfg α} {now : ℤ} {token new : TokenDict} {r : Option Output} {a : Except Exn α}
    (h : renewToken C now token r = .ok (new, a)) :
    ∃ output accountId, r = some output ∧ token.accessToken.bind AccessToken.accountId = some accountId ∧
      new = updateToken now token accountId output := by
  cases r with
  | none => cases h
  | some output =>
    simp only [renewToken] at h
    split at h
    · cases h
    · rename_i accessToken haccess
      split at h
      · cases h
      · rename_i accountId haccount
        cases h
        exact ⟨output, accountId, rfl, by rw [haccess, Option.bind_some, haccount], rfl⟩

/-- the fetcher; a response is its `tokenOutput` -/
def code (C : Cfg α) : Renewal.Code TokenDict Unit (Option Output) α Exn Failure String where
  ticketOf := TokenDict.refreshToken
  nextOf r := r.map Output.refreshToken
  start := refreshCredentials C
  renew := renewToken C
  fails _ _ e := .error (refreshFails e)
  calls_cached now cache token ticket memo h := by
    obtain ⟨hcache, -, hticket⟩ := refreshCredentials_calls h
    exact ⟨hcache, hticket⟩
  renew_ticket now token r new a h := by
    obtain ⟨output, accountId, rfl, -, rfl⟩ := renewToken_ok h
    rfl

abbrev St (α : Type) := Renewal.St TokenDict Unit (Option Output) α Exn String

abbrev Op := Renewal.Op (Option Output) Failure

abbrev step (C : Cfg α) : St α → Op → St α := Renewal.step (code C)

abbrev init (C : Cfg α) : ℤ → Option TokenDict → St α := Renewal.init (code C)

/-! ## Refreshes -/

/-- what a refresh keeps of a token -/
def TokenDict.identity (token : TokenDict) : Option String × Option String × Option String × List (String × String) :=
  (token.accessToken.bind AccessToken.accountId, token.clientId, token.dpopKey, token.others)

theorem renewToken_identity {C : Cfg α} {now : ℤ} {token new : TokenDict} {r : Option Output} {a : Except Exn α}
    (h : renewToken C now token r = .ok (new, a)) : new.identity = token.identity := by
  obtain ⟨output, accountId, -, haccount, rfl⟩ := renewToken_ok h
  calc (updateToken now token accountId output).identity
      = (some accountId, token.clientId, token.dpopKey, token.others) := rfl
    _ = token.identity := by rw [← haccount]; rfl

variable {C : Cfg α}

theorem refreshable_of_due {now : ℤ} {token : TokenDict} (h : Renewal.Due (code C) now token) : Refreshable C now token := by
  obtain ⟨ticket, memo, hcalls⟩ := h
  have hcalls' : refreshCredentials C now (some token) = .calls token ticket memo := hcalls
  exact (refreshCredentials_calls hcalls').2.1

/-- **Fetchers of one login session.** In any interleaving of any number of refreshes, with any answers of the service and
any failures: the service is called with a token only while its private key loads, it has the keys and it is not valid
beyond the threshold; what a task saves is the token that it had loaded for its last call, with the fields of the answer to
that call in it; the account, the client, the key and whatever else stands in the entry stay what they were.

Let the service redeem a refresh token once and give a new one for it. Then each save replaces the token that the task had
loaded, so that none undoes another; while no answer is on its way and none was lost, the service honours the cached refresh
token; once an answer is lost, the cached refresh token has been redeemed and no answer is on its way, and then nothing is
saved any more; and tasks that run one after the other, and lose no answer, call the service with refresh tokens that it
honours. -/
theorem login_refreshes (C : Cfg α) (now : ℤ) (cache : Option TokenDict) (ops : List Op) :
    let s := run (step C) (init C now cache) ops
    (∀ k token at', .called k token at' ∈ s.log → Refreshable C at' token) ∧
      (∀ before k loaded new found after, s.log = before ++ .saved k loaded new found :: after →
        ∃ at' accountId output, Renewal.lastOf before k = some (.redeemed k loaded (some output)) ∧
          loaded.accessToken.bind AccessToken.accountId = some accountId ∧ new = updateToken at' loaded accountId output) ∧
      (∀ before k loaded r after, s.log = before ++ .redeemed k loaded r :: after →
        ∃ at', Renewal.lastOf before k = some (.called k loaded at')) ∧
      s.cache.map TokenDict.identity = cache.map TokenDict.identity ∧
      (Along (step C) (Renewal.Rotating (code C)) (init C now cache) ops →
        Renewal.Replaces s ∧
        ((∀ k token t memo r, s.pc k ≠ .answered token t memo r) → s.lost = false →
          ∀ token ∈ s.cache, ∀ t ∈ token.refreshToken, t ∉ s.spent) ∧
        (s.lost = true → Renewal.Stuck (code C) s) ∧
        (Renewal.Stuck (code C) s → ∀ more, Along (step C) (Renewal.Rotating (code C)) s more →
          (run (step C) s more).cache = s.cache) ∧
        (Along (step C) (Renewal.Alone (code C)) (init C now cache) ops →
          ∀ k token t memo, s.pc k = .calling token t memo → t ∉ s.spent)) := by
  intro s
  have hkeep : ∀ now token r new a, (code C).renew now token r = .ok (new, a) → new.identity = token.identity :=
    fun now token r new a h => renewToken_identity h
  have hinv := Renewal.renewal_runs hkeep now cache ops
  refine ⟨fun k token at' hmem => refreshable_of_due (hinv.called hmem), fun before k loaded new found after hlog => ?_,
    fun before k loaded r after hlog => hinv.log before _ after hlog, hinv.cache,
    fun hrotating => Renewal.rotation now cache hrotating⟩
  obtain ⟨-, r, hlast, at', a, hnew⟩ := hinv.log before _ after hlog
  obtain ⟨output, accountId, rfl, haccount, hupdate⟩ := renewToken_ok hnew
  exact ⟨at', accountId, output, hlast, haccount, hupdate⟩

/-! ## An instance -/

def oneMinute : ℤ := 60000000

/-- a threshold of five minutes, and the credentials are the access key -/
def terminal : Cfg String where
  refreshThreshold := 5 * oneMinute
  loadPrivateKey token := if token.dpopKey.isSome then .ok () else .error (.keyError "dpopKey")
  tokenToCredentials token :=
    match token.accessToken.bind AccessToken.accessKeyId with
    | some key => .ok key
    | none => .error (.keyError "accessKeyId")

def first : TokenDict :=
  ⟨some ⟨some "AK0", some "SK0", some "ST0", some "123456789012", some (some oneMinute)⟩, some "client", some "r0",
    some "PEM", [("tokenType", "aws_sigv4")]⟩

/-- two tasks load the token; the service redeems it for the second and refuses the first -/
def overlapping : List Op :=
  [.start 0, .start 1, .redeem 1 (some ⟨"AK1", "SK1", "ST1", "r1", 900⟩), .fails 0 (.accessDenied "TOKEN_EXPIRED"), .finish 1]

theorem login_refreshes_two :
    let s := run (step terminal) (init terminal 0 (some first)) overlapping
    s.cache.map TokenDict.refreshToken = some (some "r1") ∧ Renewal.Replaces s := by
  have hrotating : Along (step terminal) (Renewal.Rotating (code terminal)) (init terminal 0 (some first)) overlapping := by
    simp only [overlapping, along_cons, along_nil]
    exact ⟨trivial, trivial, ⟨by decide, by decide⟩, trivial, trivial, trivial⟩
  exact ⟨by decide, ((login_refreshes terminal 0 (some first) overlapping).2.2.2.2 hrotating).1⟩

end AioBotocore.Login
