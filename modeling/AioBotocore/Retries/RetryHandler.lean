/-
`create_checker_from_retry_config` of `retryhandler.py`. A retry configuration gives a list of checkers; one of them alone
is decorated without a multi checker, and then without the exceptions that its policy lists as retryable.

`E` are the exceptions of other code, `C` the exception classes. botocore's own checkers, its table of retryable
exceptions and `isinstance` are the parameter `Botocore`.

- `multiChecker_single`: a multi checker of one checker, up to what counts as false.
- `call_of_not_drops`, `call_of_drops`: where the list of retryable exceptions matters.
- `single_checker_iff`: the shortcut answers as the multi checker does unless the one checker raises a retryable
  exception below `max_attempts`, or there is no `max_attempts` to compare with.
-/
import Mathlib.Tactic
import AioBotocore.Octets

namespace AioBotocore.RetryHandler

open Octets

/-! ## Model -/

inductive Exc (E : Type) where
  | valueError (msg : String)
  | keyError (key : String)
  | typeError (msg : String)
  | checksumError (expectedChecksum actualChecksum : ℤ)
  | other (e : E)
deriving DecidableEq, Repr

/-- the pair of http response and parsed response -/
structure Response (E : Type) where
  statusCode : ℤ
  headers : String → Option String
  content : Except (Exc E) Bytes
  errorCode : Option String
  hasResponseMetadata : Bool

structure Call (E : Type) where
  attemptNumber : ℤ
  response : Option (Response E)
  caughtException : Option (Exc E)

/-- `None`, `True` or `False` -/
abbrev Verdict : Type := Option Bool

def truthy (r : Verdict) : Bool := r == some true

abbrev Checker (E : Type) : Type := Call E → Except (Exc E) Verdict

/-- the `response` of a policy's `applies_when` -/
structure ResponseConfig where
  httpStatusCode : Option ℤ
  serviceErrorCode : Option String
  crc32body : Option String
deriving DecidableEq, Repr

structure AppliesWhen where
  response : Option ResponseConfig
  socketErrors : Option (List String)
deriving DecidableEq, Repr

structure Policy where
  appliesWhen : Option AppliesWhen
deriving DecidableEq, Repr

/-- the default or an operation; the policies in the order of the dict -/
structure Entry where
  policies : Option (List (String × Policy))
  maxAttempts : Option ℤ
deriving DecidableEq, Repr

abbrev Config : Type := String → Option Entry

structure Botocore (E C : Type) where
  isinstance : Exc E → C → Bool
  extractRetryableException : Policy → Except (Exc E) (Option (List C))
  httpStatusCodeChecker : ℤ → Checker E
  serviceErrorCodeChecker : ℤ → String → Checker E
  exceptionRaiser : Checker E
  /-- `_check_caught_exception` of `CRC32Checker` -/
  crc32CaughtException : ℤ → Exc E → Except (Exc E) Verdict

variable {E C : Type}

/-! ### `AioCRC32Checker` -/

/-- the digits of an integer literal, with single underscores between them -/
def digits : ℕ → Bool → List Char → Option ℕ
  | n, last, [] => if last then some n else none
  | n, last, c :: cs =>
    if c.isDigit then digits (10 * n + (c.toNat - '0'.toNat)) true cs
    else if c = '_' ∧ last then digits n false cs
    else none

/-- `int` of a text of ASCII characters; `none` if it raises -/
def int (text : String) : Option ℤ :=
  match text.trimAscii.toString.toList with
  | '-' :: cs => (digits 0 false cs).map fun n => -n
  | '+' :: cs => (digits 0 false cs).map fun n => n
  | cs => (digits 0 false cs).map fun n => n

def crc32Byte (crc : UInt32) (b : UInt8) : UInt32 :=
  (List.range 8).foldl (fun crc _ => if crc &&& 1 = 1 then (crc >>> 1) ^^^ 0xEDB88320 else crc >>> 1)
    (crc ^^^ b.toUInt32)

def crc32 (data : Bytes) : UInt32 := ~~~ data.foldl crc32Byte 0xFFFFFFFF

/-- the check value of this CRC -/
example : crc32 [49, 50, 51, 52, 53, 54, 55, 56, 57] = 0xCBF43926 := by decide +kernel

def crc32CheckResponse (headerName : String) (response : Response E) : Except (Exc E) Verdict :=
  match response.headers headerName with
  | none => .ok none
  | some expectedCrc => do
    let content ← response.content
    let actualCrc32 : ℤ := (crc32 content).toNat
    match int expectedCrc with
    | none => .error (.valueError ("invalid literal for int() with base 10: '" ++ expectedCrc ++ "'"))
    | some expected => if actualCrc32 = expected then .ok none else .error (.checksumError expected actualCrc32)

def crc32Checker (B : Botocore E C) (headerName : String) : Checker E := fun c =>
  match c.response, c.caughtException with
  | some response, _ => crc32CheckResponse headerName response
  | none, some e => B.crc32CaughtException c.attemptNumber e
  | none, none => .error (.valueError "Both response and caught_exception are None.")

/-! ### The checkers of a configuration -/

def createSingleResponseChecker (B : Botocore E C) (response : ResponseConfig) : Except (Exc E) (Checker E) :=
  match response.serviceErrorCode, response.httpStatusCode, response.crc32body with
  | some errorCode, some statusCode, _ => .ok (B.serviceErrorCodeChecker statusCode errorCode)
  | some _, none, _ => .error (.keyError "http_status_code")
  | none, some statusCode, _ => .ok (B.httpStatusCodeChecker statusCode)
  | none, none, some header => .ok (crc32Checker B header)
  | none, none, none => .error (.valueError "Unknown retry policy")

/-- a policy for neither responses nor socket errors gives `None`, which cannot be called -/
def createSingleChecker (B : Botocore E C) (config : Policy) : Except (Exc E) (Checker E) :=
  match config.appliesWhen with
  | none => .error (.keyError "applies_when")
  | some appliesWhen =>
    match appliesWhen.response, appliesWhen.socketErrors with
    | some response, _ => createSingleResponseChecker B response
    | none, some _ => .ok B.exceptionRaiser
    | none, none => .ok fun _ => .error (.typeError "'NoneType' object is not callable")

/-- `checkers`, `max_attempts` and `retryable_exceptions` -/
structure Parts (E C : Type) where
  checkers : List (Checker E)
  maxAttempts : Option ℤ
  retryableExceptions : List C

def Parts.add (B : Botocore E C) (parts : Parts E C) (config : String × Policy) : Except (Exc E) (Parts E C) := do
  let checker ← createSingleChecker B config.2
  let retryException ← B.extractRetryableException config.2
  return { parts with checkers := parts.checkers ++ [checker],
                      retryableExceptions := parts.retryableExceptions ++ retryException.getD [] }

/-- `create_checker_from_retry_config` up to the last `if` -/
def readConfig (B : Botocore E C) (config : Config) (operationName : Option String) : Except (Exc E) (Parts E C) := do
  let parts ←
    match config "__default__" with
    | none => pure ⟨[], none, []⟩
    | some entry =>
      match entry.maxAttempts with
      | none => throw (.keyError "max_attempts")
      | some maxAttempts => (entry.policies.getD []).foldlM (Parts.add B) ⟨[], some maxAttempts, []⟩
  match operationName.bind config with
  | none => pure parts
  | some entry =>
    match entry.policies with
    | none => throw (.keyError "policies")
    | some operationPolicies => operationPolicies.foldlM (Parts.add B) parts

/-! ### `AioMultiChecker` and `AioMaxAttemptsDecorator` -/

def multiChecker : List (Checker E) → Checker E
  | [], _ => .ok (some false)
  | checker :: checkers, c =>
    match checker c with
    | .error e => .error e
    | .ok r => if truthy r then .ok r else multiChecker checkers c

/-- the `retries` of a request's context; `rest`: it has other entries -/
structure RetriesContext where
  max : Option ℤ
  rest : Bool
deriving DecidableEq, Repr

def RetriesContext.nonEmpty (r : RetriesContext) : Bool := r.max.isSome || r.rest

/-- no retryable exceptions are `[]`, as `None` is -/
structure MaxAttemptsDecorator (E C : Type) where
  checker : Checker E
  maxAttempts : Option ℤ
  retryableExceptions : List C

structure Reply where
  verdict : Verdict
  maxAttemptsReached : Bool
  retriesContext : Option RetriesContext
deriving DecidableEq, Repr

namespace MaxAttemptsDecorator

/-- comparing an integer with a `max_attempts` of `None` -/
def unordered (operator left right : String) : Exc E :=
  .typeError ("'" ++ operator ++ "' not supported between instances of '" ++ left ++ "' and '" ++ right ++ "'")

variable (d : MaxAttemptsDecorator E C)

def recordMax : Option RetriesContext → Except (Exc E) (Option RetriesContext)
  | none => .ok none
  | some retries =>
    if retries.nonEmpty then
      match d.maxAttempts with
      | none => .error (unordered ">" "NoneType" "int")
      | some m => .ok (some { retries with max := some (max (retries.max.getD 0) m) })
    else .ok (some retries)

def shouldRetry (B : Botocore E C) (c : Call E) : Except (Exc E) Verdict :=
  if d.retryableExceptions = [] then d.checker c
  else
    match d.maxAttempts with
    | none => .error (unordered "<" "int" "NoneType")
    | some m =>
      if c.attemptNumber < m then
        match d.checker c with
        | .error e => if d.retryableExceptions.any (B.isinstance e) then .ok (some true) else .error e
        | .ok r => .ok r
      else d.checker c

def finish (c : Call E) (retriesContext : Option RetriesContext) (shouldRetry : Verdict) : Except (Exc E) Reply :=
  if truthy shouldRetry then
    match d.maxAttempts with
    | none => .error (unordered ">=" "int" "NoneType")
    | some m =>
      if m ≤ c.attemptNumber then .ok ⟨some false, c.response.any Response.hasResponseMetadata, retriesContext⟩
      else .ok ⟨shouldRetry, false, retriesContext⟩
  else .ok ⟨some false, false, retriesContext⟩

def call (B : Botocore E C) (c : Call E) (retriesContext : Option RetriesContext) : Except (Exc E) Reply := do
  let retriesContext ← d.recordMax retriesContext
  let shouldRetry ← d.shouldRetry B c
  d.finish c retriesContext shouldRetry

end MaxAttemptsDecorator

/-- the general way: all checkers and all retryable exceptions -/
def Parts.decorated (parts : Parts E C) : MaxAttemptsDecorator E C :=
  ⟨multiChecker parts.checkers, parts.maxAttempts, parts.retryableExceptions⟩

/-- the last `if` of `create_checker_from_retry_config` -/
def Parts.checker (parts : Parts E C) : MaxAttemptsDecorator E C :=
  match parts.checkers with
  | [checker] => ⟨checker, parts.maxAttempts, []⟩
  | _ => parts.decorated

def createCheckerFromRetryConfig (B : Botocore E C) (config : Config) (operationName : Option String) :
    Except (Exc E) (MaxAttemptsDecorator E C) :=
  (readConfig B config operationName).map Parts.checker

def createDecorated (B : Botocore E C) (config : Config) (operationName : Option String) :
    Except (Exc E) (MaxAttemptsDecorator E C) :=
  (readConfig B config operationName).map Parts.decorated

/-- what a checker that was created answers to a call -/
def reply (B : Botocore E C) (checker : Except (Exc E) (MaxAttemptsDecorator E C)) (c : Call E)
    (retriesContext : Option RetriesContext) : Except (Exc E) Reply :=
  checker.bind fun d => d.call B c retriesContext

/-! ## One checker -/

section Single

variable (B : Botocore E C)

/-- a multi checker turns what counts as false into `False` -/
theorem multiChecker_single (checker : Checker E) (c : Call E) :
    multiChecker [checker] c = (checker c).map fun r => if truthy r then r else some false := by
  cases h : checker c with
  | error e => simp only [multiChecker, h, Except.map]
  | ok r =>
    by_cases hr : truthy r
    · simp only [multiChecker, h, Except.map, if_pos hr]
    · simp only [multiChecker, h, Except.map, if_neg hr]

/-- what the decorator makes of a verdict depends on `max_attempts`, and not on what kind of false it is -/
theorem finish_falsy (d d' : MaxAttemptsDecorator E C) (hmax : d.maxAttempts = d'.maxAttempts) (c : Call E)
    (retriesContext : Option RetriesContext) (r : Verdict) :
    d.finish c retriesContext r = d'.finish c retriesContext (if truthy r then r else some false) := by
  unfold MaxAttemptsDecorator.finish
  rw [hmax]
  by_cases hr : truthy r
  · rw [if_pos hr, if_pos hr, if_pos hr]
  · rw [if_neg hr, if_neg hr]
    rfl

theorem recordMax_congr {d d' : MaxAttemptsDecorator E C} (hmax : d.maxAttempts = d'.maxAttempts)
    (retriesContext : Option RetriesContext) : d.recordMax retriesContext = d'.recordMax retriesContext := by
  unfold MaxAttemptsDecorator.recordMax
  rw [hmax]

/-- the decorator of the one checker and the general one, where their verdicts are as good as the same -/
theorem call_congr {d d' : MaxAttemptsDecorator E C} (hmax : d.maxAttempts = d'.maxAttempts) {c : Call E}
    {retriesContext : Option RetriesContext}
    (h : ∀ retries, d.recordMax retriesContext = .ok retries →
      d'.shouldRetry B c = (d.shouldRetry B c).map fun r => if truthy r then r else some false) :
    d.call B c retriesContext = d'.call B c retriesContext := by
  unfold MaxAttemptsDecorator.call
  rw [← recordMax_congr hmax]
  cases hrecord : d.recordMax retriesContext with
  | error e => rfl
  | ok retries =>
    have hverdict := h retries hrecord
    cases hr : d.shouldRetry B c with
    | error e =>
      rw [hr] at hverdict
      change Except.bind _ _ = Except.bind _ _
      rw [hverdict]
      rfl
    | ok r =>
      rw [hr] at hverdict
      change d.finish c retries r = Except.bind _ _
      rw [hverdict]
      exact finish_falsy d d' hmax c retries r

/-- where the shortcut differs from the general way -/
inductive Drops (parts : Parts E C) (c : Call E) (retriesContext : Option RetriesContext) : Prop
  /-- the one checker raises an exception that is to be retried -/
  | raises {checker : Checker E} {m : ℤ} {e : Exc E} (hchecker : parts.checkers = [checker])
      (hmax : parts.maxAttempts = some m) (hlt : c.attemptNumber < m) (he : checker c = .error e)
      (hcaught : parts.retryableExceptions.any (B.isinstance e) = true)
  /-- without a default, the general way compares the attempt number with `None` -/
  | unordered {checker : Checker E} (hchecker : parts.checkers = [checker]) (hmax : parts.maxAttempts = none)
      (hlisted : parts.retryableExceptions ≠ []) (hempty : retriesContext.any RetriesContext.nonEmpty = false)
      (hother : checker c ≠ .error (MaxAttemptsDecorator.unordered "<" "int" "NoneType"))

variable {B} {parts : Parts E C} {c : Call E} {retriesContext : Option RetriesContext}

theorem checker_single {checker : Checker E} (hchecker : parts.checkers = [checker]) :
    parts.checker = ⟨checker, parts.maxAttempts, []⟩ ∧
      parts.decorated = ⟨multiChecker [checker], parts.maxAttempts, parts.retryableExceptions⟩ := by
  unfold Parts.checker Parts.decorated
  rw [hchecker]
  exact ⟨rfl, rfl⟩

theorem checker_eq (h : ∀ checker, parts.checkers ≠ [checker]) : parts.checker = parts.decorated := by
  unfold Parts.checker
  split
  · rename_i checker hchecker
    exact absurd hchecker (h checker)
  · rfl

theorem recordMax_none {d : MaxAttemptsDecorator E C} (hmax : d.maxAttempts = none) {retries : Option RetriesContext}
    (h : d.recordMax retriesContext = .ok retries) : retriesContext.any RetriesContext.nonEmpty = false := by
  cases retriesContext with
  | none => rfl
  | some r =>
    rw [MaxAttemptsDecorator.recordMax, hmax] at h
    split at h
    · cases h
    · rename_i hempty
      rw [Option.any_some, ← Bool.not_eq_true]
      exact hempty

/-- the shortcut is as good as the general way -/
theorem call_of_not_drops (h : ¬ Drops B parts c retriesContext) :
    parts.checker.call B c retriesContext = parts.decorated.call B c retriesContext := by
  by_cases hsingle : ∃ checker, parts.checkers = [checker]
  · obtain ⟨checker, hchecker⟩ := hsingle
    obtain ⟨hone, hall⟩ := checker_single hchecker
    rw [hone, hall]
    refine call_congr B (show parts.maxAttempts = parts.maxAttempts from rfl) fun retries hrecord => ?_
    have hmulti := multiChecker_single checker c
    have hshould : MaxAttemptsDecorator.shouldRetry (C := C) ⟨checker, parts.maxAttempts, []⟩ B c = checker c := rfl
    rw [hshould]
    unfold MaxAttemptsDecorator.shouldRetry
    split_ifs with hnil
    · exact hmulti
    · cases hmax : parts.maxAttempts with
      | none =>
        by_cases hsame : checker c = .error (MaxAttemptsDecorator.unordered "<" "int" "NoneType")
        · rw [hsame]
          rfl
        · exact absurd (Drops.unordered hchecker hmax hnil (recordMax_none hmax hrecord) hsame) h
      | some m =>
        simp only
        split_ifs with hlt
        · rw [hmulti]
          cases he : checker c with
          | ok r => rfl
          | error e =>
            have hescapes : ¬ parts.retryableExceptions.any (B.isinstance e) = true := fun hcaught =>
              h (.raises hchecker hmax hlt he hcaught)
            simp only [Except.map, if_neg hescapes]
        · exact hmulti
  · rw [checker_eq fun checker hchecker => hsingle ⟨checker, hchecker⟩]

/-- a retryable exception below `max_attempts`: the shortcut raises it, the general way retries -/
theorem call_raises (retriesContext : Option RetriesContext) {checker : Checker E} {m : ℤ} {e : Exc E}
    (hchecker : parts.checkers = [checker]) (hmax : parts.maxAttempts = some m) (hlt : c.attemptNumber < m)
    (he : checker c = .error e) (hcaught : parts.retryableExceptions.any (B.isinstance e) = true) :
    parts.checker.call B c retriesContext = .error e ∧
      ∃ retries, parts.decorated.call B c retriesContext = .ok ⟨some true, false, retries⟩ := by
  obtain ⟨hone, hall⟩ := checker_single hchecker
  obtain ⟨retries, hrecord⟩ : ∃ retries, parts.checker.recordMax retriesContext = .ok retries := by
    rw [hone]
    cases retriesContext with
    | none => exact ⟨_, rfl⟩
    | some r =>
      simp only [MaxAttemptsDecorator.recordMax, hmax]
      split_ifs
      · exact ⟨_, rfl⟩
      · exact ⟨_, rfl⟩
  have hlisted : parts.retryableExceptions ≠ [] := by
    intro hnil
    rw [hnil] at hcaught
    cases hcaught
  have hrecord' : parts.decorated.recordMax retriesContext = .ok retries := by
    rw [← hrecord]
    exact recordMax_congr (by rw [hone, hall]) _
  constructor
  · unfold MaxAttemptsDecorator.call
    rw [hrecord, hone]
    change Except.bind (checker c) _ = _
    rw [he]
    rfl
  · refine ⟨retries, ?_⟩
    have hshould : parts.decorated.shouldRetry B c = .ok (some true) := by
      rw [hall]
      unfold MaxAttemptsDecorator.shouldRetry
      rw [if_neg hlisted]
      simp only [hmax, if_pos hlt, multiChecker, he, if_pos hcaught]
    unfold MaxAttemptsDecorator.call
    rw [hrecord', hshould]
    change parts.decorated.finish c retries (some true) = _
    rw [hall]
    simp only [MaxAttemptsDecorator.finish, hmax, if_neg (not_le.2 hlt)]
    rfl

/-- without a default: the general way raises before it asks the checker -/
theorem call_unordered {checker : Checker E} (hchecker : parts.checkers = [checker]) (hmax : parts.maxAttempts = none)
    (hlisted : parts.retryableExceptions ≠ []) (hempty : retriesContext.any RetriesContext.nonEmpty = false) :
    parts.decorated.call B c retriesContext = .error (MaxAttemptsDecorator.unordered "<" "int" "NoneType") ∧
      (parts.checker.call B c retriesContext = .error (MaxAttemptsDecorator.unordered "<" "int" "NoneType") →
        checker c = .error (MaxAttemptsDecorator.unordered "<" "int" "NoneType")) := by
  obtain ⟨hone, hall⟩ := checker_single hchecker
  have hrecord : ∀ d : MaxAttemptsDecorator E C, d.recordMax retriesContext = .ok retriesContext := by
    intro d
    cases retriesContext with
    | none => rfl
    | some r =>
      have hr : ¬ r.nonEmpty = true := by simpa using hempty
      simp only [MaxAttemptsDecorator.recordMax, if_neg hr]
  constructor
  · unfold MaxAttemptsDecorator.call
    rw [hrecord, hall]
    simp only [MaxAttemptsDecorator.shouldRetry, if_neg hlisted, hmax]
    rfl
  · unfold MaxAttemptsDecorator.call
    rw [hrecord, hone]
    change Except.bind (checker c) _ = _ → _
    cases hr : checker c with
    | error e =>
      intro h
      exact congrArg Except.error (Except.error.inj h)
    | ok r =>
      change MaxAttemptsDecorator.finish _ c retriesContext r = _ → _
      simp only [MaxAttemptsDecorator.finish, hmax]
      split_ifs
      · intro h
        simp [MaxAttemptsDecorator.unordered] at h
      · intro h
        cases h

theorem call_of_drops (h : Drops B parts c retriesContext) :
    (parts.checker.call B c retriesContext).map Reply.verdict ≠
      (parts.decorated.call B c retriesContext).map Reply.verdict := by
  cases h with
  | raises hchecker hmax hlt he hcaught =>
    obtain ⟨hraises, retries, hretries⟩ := call_raises retriesContext hchecker hmax hlt he hcaught
    rw [hraises, hretries]
    intro h
    cases h
  | unordered hchecker hmax hlisted hempty hother =>
    obtain ⟨hraises, hsame⟩ := call_unordered hchecker hmax hlisted hempty (B := B) (c := c)
    rw [hraises]
    intro h
    refine hother (hsame ?_)
    cases hcall : parts.checker.call B c retriesContext with
    | error e =>
      rw [hcall] at h
      exact congrArg Except.error (Except.error.inj h)
    | ok r =>
      rw [hcall] at h
      cases h

end Single

/-! ## Main result -/

/-- **The shortcut.** For every configuration, call and retries context: the checker that is created gives the verdict of
the general one, or raises its exception, just where the shortcut does not drop anything; then the whole replies are the
same. -/
theorem single_checker_iff (B : Botocore E C) (config : Config) (operationName : Option String) (c : Call E)
    (retriesContext : Option RetriesContext) :
    let created := reply B (createCheckerFromRetryConfig B config operationName) c retriesContext
    let general := reply B (createDecorated B config operationName) c retriesContext
    let kept := ∀ parts, readConfig B config operationName = .ok parts → ¬ Drops B parts c retriesContext
    (created.map Reply.verdict = general.map Reply.verdict ↔ kept) ∧ (kept → created = general) := by
  intro created general kept
  have hsame : kept → created = general := by
    intro h
    simp only [created, general, reply, createCheckerFromRetryConfig, createDecorated]
    cases hparts : readConfig B config operationName with
    | error e => rfl
    | ok parts => exact call_of_not_drops (h parts hparts)
  refine ⟨⟨fun h parts hparts hdrops => call_of_drops hdrops ?_, fun h => by rw [hsame h]⟩, hsame⟩
  simpa only [created, general, reply, createCheckerFromRetryConfig, createDecorated, hparts, Except.map, Except.bind]
    using h

/-! ## A single policy -/

/-- botocore, for exceptions that are told by their classes -/
def standard : Botocore String String where
  isinstance
    | .other name, cls => name == cls
    | .checksumError _ _, cls => cls == "ChecksumError"
    | _, _ => false
  extractRetryableException policy :=
    match policy.appliesWhen with
    | none => .error (.keyError "applies_when")
    | some ⟨response, socketErrors⟩ =>
      if (response.bind ResponseConfig.crc32body).isSome then .ok (some ["ChecksumError"])
      else .ok (socketErrors.map fun names => names.flatMap fun _ =>
        ["ConnectionError", "ConnectionClosedError", "ReadTimeoutError", "EndpointConnectionError"])
  httpStatusCodeChecker statusCode c :=
    .ok (c.response.map fun r => r.statusCode == statusCode)
  serviceErrorCodeChecker statusCode errorCode c :=
    .ok (c.response.map fun r => r.statusCode == statusCode && r.errorCode == some errorCode)
  exceptionRaiser c :=
    match c.response, c.caughtException with
    | none, some e => .error e
    | none, none => .error (.valueError "Both response and caught_exception are None.")
    | some _, _ => .ok none
  crc32CaughtException _ _ := .ok none

def socketErrors : Policy := ⟨some ⟨none, some ["GENERAL_CONNECTION_ERROR"]⟩⟩

def oneDefault (config : Policy) : Config := fun name =>
  if name = "__default__" then some ⟨some [("policy", config)], some 5⟩ else none

/-- the first attempt failed to connect, and is not retried -/
theorem connection_error_not_retried :
    let c : Call String := ⟨1, none, some (.other "EndpointConnectionError")⟩
    reply standard (createCheckerFromRetryConfig standard (oneDefault socketErrors) none) c none =
      .error (.other "EndpointConnectionError") ∧
    reply standard (createDecorated standard (oneDefault socketErrors) none) c none = .ok ⟨some true, false, none⟩ := by
  intro c
  have hread : readConfig standard (oneDefault socketErrors) none = .ok ⟨[standard.exceptionRaiser], some 5,
      ["ConnectionError", "ConnectionClosedError", "ReadTimeoutError", "EndpointConnectionError"]⟩ := rfl
  simp only [reply, createCheckerFromRetryConfig, createDecorated, hread]
  exact ⟨rfl, rfl⟩

end AioBotocore.RetryHandler
