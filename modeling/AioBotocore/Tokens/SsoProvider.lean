/-
`AioSSOTokenProvider._refresher` (`tokens.py`), by which the bearer tokens of an SSO session are refreshed. Every
`load_token` gives a token object of its own, and all of them share one cache entry: any number of tasks run the
refresher. They are tasks of `Renewal`: a task suspends while it calls `create_token` and while it closes the client; until
then the service may have exchanged the refresh token already.

The token loader is botocore's: without an entry it raises, a saved entry is read back with the expiry `stored` makes of
it. The service is any service in the first half, and rotates its refresh tokens in the second.

- `refresher_runs`: when the service is called, what is saved, that the registration never changes, and that an entry that
  lacks a key is never refreshed again.
- `refresh_token_rotation`: no save undoes another one, and the cached refresh token is the one the service honours.
-/
import Mathlib.Tactic
import AioBotocore.Renewal
import AioBotocore.Tokens.Refreshable

namespace AioBotocore.Tokens.SsoProvider

open Async

/-! ## Model -/

/-- a cached token; a date is what `dateutil.parser.parse` makes of it in microseconds, `none` if it fails -/
structure TokenDict where
  startUrl : String
  region : String
  accessToken : String
  expiresAt : Option ℤ
  refreshToken : Option String
  clientId : Option String
  clientSecret : Option String
  registrationExpiresAt : Option (Option ℤ)
deriving DecidableEq, Repr

/-- the response of `create_token`; `expiresIn` is in seconds -/
structure Response where
  accessToken : String
  expiresIn : ℤ
  refreshToken : Option String
deriving DecidableEq, Repr

/-- `_sso_config`, and of botocore `_REFRESH_WINDOW`, in microseconds, and the token loader -/
structure Cfg where
  ssoStartUrl : String
  ssoRegion : String
  refreshWindow : ℤ
  stored : ℤ → ℤ

inductive Exn where
  /-- `SSOTokenLoadError` -/
  | tokenLoad
  | invalidDate
  /-- raised by the call, by closing the client or by saving; a cancellation, too -/
  | other (text : String)
deriving DecidableEq, Repr

def missingKeys (token : TokenDict) : List String :=
  [("refreshToken", token.refreshToken.isNone), ("clientId", token.clientId.isNone),
    ("clientSecret", token.clientSecret.isNone),
    ("registrationExpiresAt", token.registrationExpiresAt.isNone)].filterMap fun (k, missing) => if missing then some k else none

/-- `_refresh_access_token` before its `try`: whether it is going to call the service -/
def attempts (now : ℤ) (token : TokenDict) : Except Exn Bool :=
  if missingKeys token ≠ [] then .ok false
  else
    match token.registrationExpiresAt with
    | some (some expiry) => .ok (0 < expiry - now)
    | _ => .error .invalidDate

/-- the token that a task has loaded, the refresh token in it and its expiration -/
abbrev Start := Renewal.Start TokenDict ℤ FrozenAuthToken Exn String

/-- `_refresher` up to its first `await` -/
def refresher (C : Cfg) (now : ℤ) (cache : Option TokenDict) : Start :=
  match cache with
  | none => .raises .tokenLoad
  | some token =>
    match token.expiresAt with
    | none => .raises .invalidDate
    | some expiration =>
      if expiration - now < C.refreshWindow then
        match attempts now token with
        | .error e => .raises e
        -- the keys are not missing
        | .ok true => .calls token (token.refreshToken.getD "") expiration
        | .ok false => .returns ⟨token.accessToken, expiration⟩
      else .returns ⟨token.accessToken, expiration⟩

/-- `expiresAt` of the new token, before it is saved -/
def expiresAt (now : ℤ) (r : Response) : ℤ := now + r.expiresIn * 1000000

/-- `_attempt_create_token` after the client is closed, and the token as it reads back -/
def newToken (C : Cfg) (now : ℤ) (token : TokenDict) (r : Response) : TokenDict where
  startUrl := C.ssoStartUrl
  region := C.ssoRegion
  accessToken := r.accessToken
  expiresAt := some (C.stored (expiresAt now r))
  refreshToken := r.refreshToken
  clientId := token.clientId
  clientSecret := token.clientSecret
  registrationExpiresAt := token.registrationExpiresAt

/-- what the call, closing the client or saving raises -/
inductive Failure where
  | clientError
  | other (text : String)
deriving DecidableEq, Repr

/-- after a `ClientError` the refresher goes on with the token that it has loaded -/
def refreshFails (token : TokenDict) (expiration : ℤ) : Failure → Except Exn FrozenAuthToken
  | .clientError => .ok ⟨token.accessToken, expiration⟩
  | .other text => .error (.other text)

/-- the token is about to expire and can be refreshed -/
structure Refreshable (C : Cfg) (now : ℤ) (token : TokenDict) : Prop where
  keys : missingKeys token = []
  due : ∃ expiration, token.expiresAt = some expiration ∧ expiration - now < C.refreshWindow
  registered : ∃ expiry, token.registrationExpiresAt = some (some expiry) ∧ now < expiry

theorem attempts_true {now : ℤ} {token : TokenDict} (h : attempts now token = .ok true) :
    missingKeys token = [] ∧ ∃ expiry, token.registrationExpiresAt = some (some expiry) ∧ now < expiry := by
  unfold attempts at h
  split_ifs at h with hkeys
  · cases h
  split at h
  · rename_i expiry hexpiry
    have hlt : 0 < expiry - now := by simpa using h
    exact ⟨not_not.1 hkeys, expiry, hexpiry, by omega⟩
  · cases h

theorem refresher_calls {C : Cfg} {now : ℤ} {cache : Option TokenDict} {token : TokenDict} {ticket : String} {expiration : ℤ}
    (h : refresher C now cache = .calls token ticket expiration) :
    cache = some token ∧ Refreshable C now token ∧ ticket = token.refreshToken.getD "" := by
  cases cache with
  | none => cases h
  | some loaded =>
    simp only [refresher] at h
    split at h
    · cases h
    · rename_i expires hexpires
      split_ifs at h with hdue
      split at h
      · cases h
      · rename_i hattempts
        obtain ⟨hkeys, hregistered⟩ := attempts_true hattempts
        obtain ⟨rfl, rfl, rfl⟩ := Renewal.Start.calls.inj h
        exact ⟨rfl, ⟨hkeys, ⟨_, hexpires, hdue⟩, hregistered⟩, rfl⟩
      · cases h

theorem refreshToken_of_keys {token : TokenDict} (h : missingKeys token = []) :
    token.refreshToken = some (token.refreshToken.getD "") := by
  cases ht : token.refreshToken with
  | none => simp [missingKeys, ht] at h
  | some t => rfl

/-- the refresher -/
def code (C : Cfg) : Renewal.Code TokenDict ℤ Response FrozenAuthToken Exn Failure String where
  ticketOf := TokenDict.refreshToken
  nextOf := Response.refreshToken
  start := refresher C
  renew now token r := .ok (newToken C now token r, .ok ⟨r.accessToken, expiresAt now r⟩)
  fails := refreshFails
  calls_cached now cache token ticket expiration h := by
    obtain ⟨hcache, hrefreshable, hticket⟩ := refresher_calls h
    exact ⟨hcache, hticket ▸ refreshToken_of_keys hrefreshable.keys⟩
  renew_ticket now token r new t h := by cases h; rfl

abbrev St := Renewal.St TokenDict ℤ Response FrozenAuthToken Exn String

abbrev Op := Renewal.Op Response Failure

abbrev step (C : Cfg) : St → Op → St := Renewal.step (code C)

abbrev init (C : Cfg) : ℤ → Option TokenDict → St := Renewal.init (code C)

/-! ## Any service -/

/-- what identifies the client to the service -/
def TokenDict.registration (token : TokenDict) : Option String × Option String × Option (Option ℤ) :=
  (token.clientId, token.clientSecret, token.registrationExpiresAt)

variable {C : Cfg}

theorem refreshable_of_due {now : ℤ} {token : TokenDict} (h : Renewal.Due (code C) now token) : Refreshable C now token := by
  obtain ⟨ticket, expiration, hcalls⟩ := h
  have hcalls' : refresher C now (some token) = .calls token ticket expiration := hcalls
  exact (refresher_calls hcalls').2.1

/-- no refresher runs, and the cached token lacks a key -/
structure Unrefreshable (s : St) : Prop where
  idle : ∀ k, s.pc k = .idle
  keys : ∀ token ∈ s.cache, missingKeys token ≠ []

theorem Unrefreshable.final {s : St} (h : Unrefreshable s) : Renewal.Final (code C) s :=
  ⟨h.idle, fun token htoken _ hdue => h.keys token htoken (refreshable_of_due hdue).keys⟩

/-- **Refreshers of one cache entry.** In any interleaving of any number of refreshers, with any answers of the service and
any failures: the service is called with a token only while that is about to expire, has all the keys and has an unexpired
registration; what a refresher saves is made of the answer to its last call and of the token that it had loaded for that;
and the registration in the cache stays what it was. Once no refresher runs and the cached token lacks a key, such as the refresh token that a response left
out, that token stays and the service is not called any more. -/
theorem refresher_runs (C : Cfg) (now : ℤ) (cache : Option TokenDict) (ops : List Op) :
    let s := run (step C) (init C now cache) ops
    (∀ k token at', .called k token at' ∈ s.log → Refreshable C at' token) ∧
      (∀ before k loaded new found after, s.log = before ++ .saved k loaded new found :: after →
        missingKeys loaded = [] ∧ ∃ at' r, Renewal.lastOf before k = some (.redeemed k loaded r) ∧
          new = newToken C at' loaded r) ∧
      (∀ before k loaded r after, s.log = before ++ .redeemed k loaded r :: after →
        ∃ at', Renewal.lastOf before k = some (.called k loaded at')) ∧
      s.cache.map TokenDict.registration = cache.map TokenDict.registration ∧
      (Unrefreshable s → ∀ more, (run (step C) s more).cache = s.cache ∧
        ∀ k token at', .called k token at' ∈ (run (step C) s more).log → .called k token at' ∈ s.log) := by
  intro s
  have hkeep : ∀ now token r new t, (code C).renew now token r = .ok (new, t) → new.registration = token.registration := by
    intro now token r new t h
    cases h
    rfl
  have hinv := Renewal.renewal_runs hkeep now cache ops
  refine ⟨fun k token at' hmem => refreshable_of_due (hinv.called hmem), fun before k loaded new found after hlog => ?_,
    fun before k loaded r after hlog => hinv.log before _ after hlog, hinv.cache,
    fun h more => Renewal.run_final h.final more⟩
  obtain ⟨⟨since, hdue⟩, r, hlast, at', t, hnew⟩ := hinv.log before _ after hlog
  refine ⟨(refreshable_of_due hdue).keys, at', r, hlast, ?_⟩
  cases hnew
  rfl

/-! ## A service that rotates its refresh tokens -/

/-- **Rotation.** Let the service honour a refresh token once and give a new one for it. However refreshers interleave:
- each save replaces the token that the refresher had loaded, so that none undoes another;
- while no answer is on its way and none was lost, the service honours the cached refresh token;
- once an answer is lost, the cached refresh token has been honoured and no answer is on its way, and then nothing is saved
  any more;
- refreshers that run one after the other, and lose no answer, call the service with refresh tokens that it honours. -/
theorem refresh_token_rotation (C : Cfg) (now : ℤ) (cache : Option TokenDict) (ops : List Op)
    (h : Along (step C) (Renewal.Rotating (code C)) (init C now cache) ops) :
    let s := run (step C) (init C now cache) ops
    Renewal.Replaces s ∧
      ((∀ k token t expiration r, s.pc k ≠ .answered token t expiration r) → s.lost = false →
        ∀ token ∈ s.cache, ∀ t ∈ token.refreshToken, t ∉ s.spent) ∧
      (s.lost = true → Renewal.Stuck (code C) s) ∧
      (Renewal.Stuck (code C) s → ∀ more, Along (step C) (Renewal.Rotating (code C)) s more →
        (run (step C) s more).cache = s.cache) ∧
      (Along (step C) (Renewal.Alone (code C)) (init C now cache) ops →
        ∀ k token t expiration, s.pc k = .calling token t expiration → t ∉ s.spent) :=
  Renewal.rotation now cache h

/-! ## An instance -/

def oneMinute : ℤ := 60000000

def shop : Cfg := ⟨"https://shop.awsapps.com/start", "eu-west-1", 15 * oneMinute, fun expiry => expiry⟩

/-- it expires in five minutes, and can be refreshed with `r0` -/
def first : TokenDict :=
  ⟨shop.ssoStartUrl, shop.ssoRegion, "a0", some (5 * oneMinute), some "r0", some "id", some "secret",
    some (some (90 * oneMinute))⟩

def answer : Response := ⟨"a1", 3600, some "r1"⟩

/-- two refreshers load the token, the service honours it for one of them; the other fails, and a third one finds the new
token -/
def overlapping : List Op :=
  [.start 0, .start 1, .redeem 1 answer, .fails 0 .clientError, .finish 1, .start 2]

theorem refresh_token_rotation_two :
    let s := run (step shop) (init shop 0 (some first)) overlapping
    Along (step shop) (Renewal.Rotating (code shop)) (init shop 0 (some first)) overlapping ∧
      (s.cache.map TokenDict.refreshToken = some (some "r1")) ∧ Renewal.Replaces s := by
  have hrotating : Along (step shop) (Renewal.Rotating (code shop)) (init shop 0 (some first)) overlapping := by
    simp only [overlapping, along_cons, along_nil]
    exact ⟨trivial, trivial, ⟨by decide, by decide⟩, trivial, trivial, trivial, trivial⟩
  exact ⟨hrotating, by decide, (refresh_token_rotation shop 0 (some first) overlapping hrotating).1⟩

end AioBotocore.Tokens.SsoProvider
