/-
The standard retry mode (`retries/standard.py`, `retries/special.py`) as the only handler of `needs-retry` in the loop of
`_send_request`. The environment of the loop is any (`RetryLoop.Env`), other tasks included that take from the retry
quota while this one is suspended.

botocore's are the context of a retry, the checkers that are not async, the quota checker, the backoff and what the
handler adds to the metadata of the response: `Botocore`. Of the checker of the maximum it is known that it compares the
number of the attempt with it. The run keeps a list of what the handler has called.

- `asyncAny_ok`: the checkers are asked in turn, up to the first that says yes.
- `needsRetry_ok`: the five ways in which the handler can end.
- `standard_send_request`: the loop ends after at most `max_attempts` attempts; each retry is paid for by one acquisition
  of the quota, and no acquisition is without a retry.
-/
import Mathlib.Tactic
import AioBotocore.Endpoint.RetryLoop
import AioBotocore.Retries.RetryHandler

namespace AioBotocore.Standard

open Octets RetryLoop
open RetryHandler (Verdict truthy crc32 int)

variable {σ χ ρ δ ε : Type}

/-! ## Model -/

inductive CheckerName where
  | transient
  | throttled
  | modeled
  | idpCommunicationError
  | ddbChecksumError
deriving DecidableEq, Repr

/-- what the handler calls -/
inductive Call where
  | asked (checker : CheckerName)
  /-- `acquire_retry_quota`, and what it answers -/
  | acquired (granted : Bool)
  | computed (delay : ℚ)
  | slept (delay : ℚ)
  /-- `adapt_retry_response_from_context` -/
  | adapted
deriving DecidableEq, Repr

structure World (σ : Type) where
  inner : σ
  calls : List Call

structure HttpResponse (σ ε : Type) where
  headers : String → Option String
  content : σ → Except ε Bytes × σ

structure Botocore (σ χ ρ δ ε : Type) where
  createRetryContext : ℕ → Option (Response ρ δ) → Option ε → χ
  attemptNumber : χ → ℕ
  serviceName : χ → String
  httpResponse : χ → Option (HttpResponse σ ε)
  isLongPollingOperation : χ → Bool
  /-- `MaxAttemptsChecker.is_retryable` -/
  maxAttempts : ℤ → χ → σ → Bool × σ
  transient : χ → σ → Except ε Verdict × σ
  throttled : χ → σ → Except ε Verdict × σ
  modeled : χ → σ → Except ε Verdict × σ
  idpCommunicationError : χ → σ → Except ε Verdict × σ
  acquireRetryQuota : χ → σ → Bool × σ
  computeRetryDelay : χ → σ → Except ε ℚ × σ
  /-- what `adapt_retry_response_from_context` writes to the parsed response -/
  adapt : χ → σ → Parsed δ → Parsed δ
  /-- `int` raises -/
  valueError : String → ε
  attemptNumber_create : ∀ n r e, attemptNumber (createRetryContext n r e) = n
  maxAttempts_spec : ∀ m c w, (maxAttempts m c w).1 = decide ((attemptNumber c : ℤ) < m)

/-- `max_attempts` of the checker, the function the handler sleeps with and `NEW_RETRIES_ENABLED` -/
structure Cfg (σ ε : Type) where
  maxAttempts : ℤ
  newRetriesEnabled : Bool
  sleep : ℚ → σ → Except ε Unit × σ

abbrev M (σ ε : Type) : Type → Type := EStateM ε (World σ)

def act {α : Type} (f : σ → Except ε α × σ) : M σ ε α := fun w =>
  match f w.inner with
  | (.error e, inner) => .error e { w with inner := inner }
  | (.ok a, inner) => .ok a { w with inner := inner }

def record (c : Call) : M σ ε Unit := modify fun w => { w with calls := w.calls ++ [c] }

/-- `async_any`; the items are made one after the other -/
def asyncAny : List (M σ ε Verdict) → M σ ε Bool
  | [] => return false
  | item :: items => do
    if truthy (← item) then return true else asyncAny items

def ask (name : CheckerName) (checker : M σ ε Verdict) : M σ ε Verdict := do
  record (.asked name)
  checker

variable (B : Botocore σ χ ρ δ ε)

/-- `AioRetryDDBChecksumError.is_retryable` -/
def retryDDBChecksumError (context : χ) : M σ ε Verdict :=
  if B.serviceName context ≠ "dynamodb" then return some false
  else
    match B.httpResponse context with
    | none => return some false
    | some response =>
      match response.headers "x-amz-crc32" with
      | none => return some false
      | some checksum => do
        let content ← act response.content
        match int checksum with
        | none => throw (B.valueError checksum)
        | some expected => return if ((crc32 content).toNat : ℤ) ≠ expected then some true else none

/-- `AioOrRetryChecker.is_retryable` -/
def orRetryChecker (checkers : List (χ → M σ ε Verdict)) (context : χ) : M σ ε Bool :=
  asyncAny (checkers.map fun checker => checker context)

/-- `_additional_checkers` -/
def additionalCheckers : List (χ → M σ ε Verdict) :=
  [fun c => ask .transient (act (B.transient c)),
    fun c => ask .throttled (act (B.throttled c)),
    fun c => ask .modeled (act (B.modeled c)),
    fun c => some <$> orRetryChecker [fun c => ask .idpCommunicationError (act (B.idpCommunicationError c)),
      fun c => ask .ddbChecksumError (retryDDBChecksumError B c)] c]

/-- `AioStandardRetryConditions.is_retryable` -/
def isRetryable (C : Cfg σ ε) (context : χ) : M σ ε Bool := do
  let w ← get
  let (under, inner) := B.maxAttempts C.maxAttempts context w.inner
  set { w with inner := inner }
  if under then orRetryChecker (additionalCheckers B) context else return false

def acquireRetryQuota (context : χ) : M σ ε Bool := do
  let w ← get
  let (granted, inner) := B.acquireRetryQuota context w.inner
  set { w with inner := inner }
  record (.acquired granted)
  return granted

def computeRetryDelay (context : χ) : M σ ε ℚ := do
  let delay ← act (B.computeRetryDelay context)
  record (.computed delay)
  return delay

def adaptRetryResponseFromContext (context : χ) : M σ ε (Parsed δ → Parsed δ) := do
  let w ← get
  record .adapted
  return B.adapt context w.inner

/-- `AioRetryHandler.needs_retry`: what it returns, and what it writes to the parsed response -/
def needsRetry (C : Cfg σ ε) (context : χ) : M σ ε (Option Answer × (Parsed δ → Parsed δ)) := do
  if ← isRetryable B C context then
    if ← acquireRetryQuota B context then
      let retryDelay ← computeRetryDelay B context
      return (some (.wait retryDelay), ← adaptRetryResponseFromContext B context)
    else if C.newRetriesEnabled && B.isLongPollingOperation context then
      let pollingDelay ← computeRetryDelay B context
      act (C.sleep pollingDelay)
      record (.slept pollingDelay)
      return (some .no, ← adaptRetryResponseFromContext B context)
    else return (none, ← adaptRetryResponseFromContext B context)
  else return (none, ← adaptRetryResponseFromContext B context)

/-! ### The loop -/

def liftCall {α : Type} (f : σ → Except ε α × σ) (w : World σ) : Except ε α × World σ :=
  ((f w.inner).1, { w with inner := (f w.inner).2 })

/-- the environment of a client in the standard mode: `needs_retry` is the only handler of its event -/
def env (C : Cfg σ ε) (E : Env σ ρ δ ε) : Env (World σ) ρ δ ε where
  isException := E.isException
  create n := liftCall (E.create n)
  beforeSend n := liftCall (E.beforeSend n)
  send n := liftCall (E.send n)
  parse r := liftCall (E.parse r)
  responseReceived r e w :=
    let x := E.responseReceived r e w.inner
    ⟨x.returns, x.edit, { w with inner := x.world }⟩
  needsRetry attempts r e w :=
    match needsRetry B C (B.createRetryContext attempts r e) w with
    | .ok (answer, edit) w' => ⟨.ok [answer], edit, w'⟩
    | .error x w' => ⟨.error x, id, w'⟩
  sleep d := liftCall (E.sleep d)
  resetStream n := liftCall (E.resetStream n)

/-! ## What the handler does when nothing is raised -/

theorem M.bind_ok {α β : Type} {x : M σ ε α} {f : α → M σ ε β} {w v : World σ} {b : β}
    (h : (x >>= f) w = .ok b v) : ∃ a u, x w = .ok a u ∧ f a u = .ok b v := by
  simp only [bind, EStateM.bind] at h
  cases hx : x w with
  | ok a u => exact ⟨a, u, rfl, by rw [hx] at h; exact h⟩
  | error e u => rw [hx] at h; cases h

/-- `x` has called `calls` -/
def Adds (w v : World σ) (calls : List Call) : Prop := v.calls = w.calls ++ calls

theorem Adds.trans {w u v : World σ} {a b : List Call} (h : Adds w u a) (h' : Adds u v b) : Adds w v (a ++ b) := by
  rw [Adds, h', h, List.append_assoc]

theorem act_ok {α : Type} {f : σ → Except ε α × σ} {w v : World σ} {a : α} (h : act f w = .ok a v) : Adds w v [] := by
  unfold act at h
  split at h
  · cases h
  · cases h
    exact (List.append_nil _).symm

theorem record_ok {c : Call} {w v : World σ} (h : (record c : M σ ε Unit) w = .ok () v) : Adds w v [c] := by
  cases h
  rfl

/-- `x` asks the checkers `names` in turn, and all of them unless its answer is yes -/
def Asks {α : Type} (yes : α → Bool) (names : List CheckerName) (x : M σ ε α) : Prop :=
  ∀ w v r, x w = .ok r v → ∃ asked, Adds w v (asked.map .asked) ∧ asked <+: names ∧ (yes r = false → asked = names)

theorem asyncAny_asks {namess : List (List CheckerName)} {items : List (M σ ε Verdict)}
    (h : List.Forall₂ (Asks truthy) namess items) : Asks id namess.flatten (asyncAny items) := by
  induction h with
  | nil =>
    intro w v b hb
    cases hb
    exact ⟨[], (List.append_nil _).symm, List.prefix_refl _, fun _ => rfl⟩
  | @cons names item namess items hitem _ ih =>
    intro w v b hb
    rw [asyncAny] at hb
    obtain ⟨r, u, hr, hb⟩ := M.bind_ok hb
    obtain ⟨asked, hadds, hprefix, hall⟩ := hitem w u r hr
    split_ifs at hb with hyes
    · cases hb
      exact ⟨asked, hadds, hprefix.trans (List.prefix_append _ _), fun hno => by cases hno⟩
    · obtain rfl := hall (by simpa using hyes)
      obtain ⟨rest, hrest, hprefix', hall'⟩ := ih u v b hb
      refine ⟨asked ++ rest, ?_, (List.prefix_append_right_inj asked).2 hprefix', fun hno => ?_⟩
      · rw [List.map_append]
        exact hadds.trans hrest
      · rw [hall' hno]
        rfl

theorem ask_asks {name : CheckerName} {checker : M σ ε Verdict} (h : ∀ w v r, checker w = .ok r v → Adds w v []) :
    Asks truthy [name] (ask name checker) := by
  intro w v r hr
  obtain ⟨_, u, hrecord, hr⟩ := M.bind_ok hr
  cases hrecord
  exact ⟨[name], Adds.trans (u := { w with calls := w.calls ++ [.asked name] }) rfl (h _ v r hr), List.prefix_refl _,
    fun _ => rfl⟩

variable {B}

theorem retryDDBChecksumError_ok {context : χ} {w v : World σ} {r : Verdict}
    (h : retryDDBChecksumError B context w = .ok r v) : Adds w v [] := by
  have hsame : ∀ {r' : Verdict}, (pure r' : M σ ε Verdict) w = .ok r v → Adds w v [] := by
    intro r' h
    cases h
    exact (List.append_nil _).symm
  unfold retryDDBChecksumError at h
  split_ifs at h with hservice
  · exact hsame h
  cases hresponse : B.httpResponse context with
  | none =>
    rw [hresponse] at h
    exact hsame h
  | some response =>
    rw [hresponse] at h
    cases hchecksum : response.headers "x-amz-crc32" with
    | none =>
      simp only [hchecksum] at h
      exact hsame h
    | some checksum =>
      simp only [hchecksum] at h
      obtain ⟨content, u, hcontent, h⟩ := M.bind_ok h
      have hadds := act_ok hcontent
      cases hint : int checksum with
      | none =>
        rw [hint] at h
        cases h
      | some expected =>
        rw [hint] at h
        cases h
        exact hadds

/-- the order in which the checkers are asked -/
def order : List CheckerName := [.transient, .throttled, .modeled, .idpCommunicationError, .ddbChecksumError]

theorem orRetryChecker_asks (context : χ) : Asks id order (orRetryChecker (additionalCheckers B) context) := by
  have hspecial : Asks id [.idpCommunicationError, .ddbChecksumError]
      (orRetryChecker [fun c => ask .idpCommunicationError (act (B.idpCommunicationError c)),
        fun c => ask .ddbChecksumError (retryDDBChecksumError B c)] context) :=
    asyncAny_asks (.cons (ask_asks fun _ _ _ => act_ok) (.cons (ask_asks fun _ _ _ => retryDDBChecksumError_ok) .nil))
  have hlast : Asks truthy [.idpCommunicationError, .ddbChecksumError]
      (some <$> orRetryChecker [fun c => ask .idpCommunicationError (act (B.idpCommunicationError c)),
        fun c => ask .ddbChecksumError (retryDDBChecksumError B c)] context) := by
    intro w v r h
    obtain ⟨b, u, hb, h⟩ := M.bind_ok h
    obtain ⟨asked, hadds, hprefix, hall⟩ := hspecial w u b hb
    cases h
    exact ⟨asked, hadds, hprefix, fun hno => hall (by cases b <;> simp_all [truthy])⟩
  have hitems : List.Forall₂ (Asks truthy)
      [[.transient], [.throttled], [.modeled], [.idpCommunicationError, .ddbChecksumError]]
      ((additionalCheckers B).map fun checker => checker context) :=
    .cons (ask_asks fun _ _ _ => act_ok) (.cons (ask_asks fun _ _ _ => act_ok)
      (.cons (ask_asks fun _ _ _ => act_ok) (.cons hlast .nil)))
  exact asyncAny_asks hitems

/-- how the handler can end: what it has called, and what it answers -/
inductive Handled (C : Cfg σ ε) (longPolling : Bool) (attempts : ℕ) : List Call → Option Answer → Prop
  /-- no attempt is left, and no checker is asked -/
  | spent (h : C.maxAttempts ≤ attempts) : Handled C longPolling attempts [.adapted] none
  /-- no checker says yes -/
  | unneeded (h : (attempts : ℤ) < C.maxAttempts) :
      Handled C longPolling attempts (order.map .asked ++ [.adapted]) none
  | retries (h : (attempts : ℤ) < C.maxAttempts) {asked : List CheckerName} (hasked : asked <+: order) (delay : ℚ) :
      Handled C longPolling attempts (asked.map .asked ++ [.acquired true, .computed delay, .adapted])
        (some (.wait delay))
  /-- the quota is reached -/
  | refused (h : (attempts : ℤ) < C.maxAttempts) {asked : List CheckerName} (hasked : asked <+: order)
      (hpolling : (C.newRetriesEnabled && longPolling) = false) :
      Handled C longPolling attempts (asked.map .asked ++ [.acquired false, .adapted]) none
  /-- and the operation polls: the handler has slept itself -/
  | polled (h : (attempts : ℤ) < C.maxAttempts) {asked : List CheckerName} (hasked : asked <+: order)
      (hpolling : (C.newRetriesEnabled && longPolling) = true) (delay : ℚ) :
      Handled C longPolling attempts
        (asked.map .asked ++ [.acquired false, .computed delay, .slept delay, .adapted]) (some .no)

theorem isRetryable_ok {C : Cfg σ ε} {context : χ} {w v : World σ} {b : Bool}
    (h : isRetryable B C context w = .ok b v) :
    (b = false ∧ C.maxAttempts ≤ B.attemptNumber context ∧ Adds w v []) ∨
      ((B.attemptNumber context : ℤ) < C.maxAttempts ∧
        ∃ asked, Adds w v (asked.map .asked) ∧ asked <+: order ∧ (b = false → asked = order)) := by
  obtain ⟨_, _, hget, h⟩ := M.bind_ok h
  cases hget
  obtain ⟨_, u, hset, h⟩ := M.bind_ok h
  cases hset
  have hspec := B.maxAttempts_spec C.maxAttempts context w.inner
  split_ifs at h with hunder
  · rw [hspec, decide_eq_true_eq] at hunder
    have hasks := orRetryChecker_asks context _ v b h
    exact .inr ⟨hunder, hasks⟩
  · rw [hspec, decide_eq_true_eq] at hunder
    cases h
    exact .inl ⟨rfl, not_lt.1 hunder, (List.append_nil _).symm⟩

theorem acquireRetryQuota_ok {context : χ} {w v : World σ} {granted : Bool}
    (h : acquireRetryQuota B context w = .ok granted v) : Adds w v [.acquired granted] := by
  cases h
  rfl

theorem computeRetryDelay_ok {context : χ} {w v : World σ} {delay : ℚ}
    (h : computeRetryDelay B context w = .ok delay v) : Adds w v [.computed delay] := by
  obtain ⟨_, u, hact, h⟩ := M.bind_ok h
  have hadds := act_ok hact
  cases h
  rw [Adds] at hadds ⊢
  simp [hadds]

theorem adaptRetryResponseFromContext_ok {context : χ} {w v : World σ} {edit : Parsed δ → Parsed δ}
    (h : adaptRetryResponseFromContext B context w = .ok edit v) : Adds w v [.adapted] := by
  cases h
  rfl

theorem needsRetry_ok {C : Cfg σ ε} {context : χ} {w v : World σ} {answer : Option Answer} {edit : Parsed δ → Parsed δ}
    (h : needsRetry B C context w = .ok (answer, edit) v) :
    ∃ calls, Adds w v calls ∧
      Handled C (B.isLongPollingOperation context) (B.attemptNumber context) calls answer := by
  obtain ⟨retryable, u, hretryable, h⟩ := M.bind_ok h
  rcases isRetryable_ok hretryable with ⟨rfl, hspent, hadds⟩ | ⟨hunder, asked, hadds, hprefix, hall⟩
  · obtain ⟨_, _, hadapt, h⟩ := M.bind_ok h
    cases h
    exact ⟨_, hadds.trans (adaptRetryResponseFromContext_ok hadapt), .spent hspent⟩
  cases retryable with
  | false =>
    obtain ⟨_, _, hadapt, h⟩ := M.bind_ok h
    cases h
    rw [hall rfl] at hadds
    exact ⟨_, hadds.trans (adaptRetryResponseFromContext_ok hadapt), .unneeded hunder⟩
  | true =>
    obtain ⟨granted, u', hacquire, h⟩ := M.bind_ok h
    have hadds := hadds.trans (acquireRetryQuota_ok hacquire)
    cases granted with
    | true =>
      obtain ⟨delay, _, hdelay, h⟩ := M.bind_ok h
      obtain ⟨_, _, hadapt, h⟩ := M.bind_ok h
      cases h
      have hadds := (hadds.trans (computeRetryDelay_ok hdelay)).trans (adaptRetryResponseFromContext_ok hadapt)
      exact ⟨_, by simpa using hadds, .retries hunder hprefix delay⟩
    | false =>
      simp only [Bool.false_eq_true, if_false] at h
      split_ifs at h with hpolling
      · obtain ⟨delay, _, hdelay, h⟩ := M.bind_ok h
        obtain ⟨_, _, hsleep, h⟩ := M.bind_ok h
        obtain ⟨_, _, hslept, h⟩ := M.bind_ok h
        obtain ⟨_, _, hadapt, h⟩ := M.bind_ok h
        cases h
        have hadds := (hadds.trans (computeRetryDelay_ok hdelay)).trans (act_ok hsleep)
        have hadds := (hadds.trans (record_ok hslept)).trans (adaptRetryResponseFromContext_ok hadapt)
        exact ⟨_, by simpa using hadds, .polled hunder hprefix hpolling delay⟩
      · obtain ⟨_, _, hadapt, h⟩ := M.bind_ok h
        cases h
        have hadds := hadds.trans (adaptRetryResponseFromContext_ok hadapt)
        exact ⟨_, by simpa using hadds, .refused hunder hprefix (by simpa using hpolling)⟩

/-! ## What an answer costs -/

/-- the acquisitions of the quota that were granted -/
def bought (calls : List Call) : ℕ := calls.count (.acquired true)

theorem bought_asked (asked : List CheckerName) : bought (asked.map .asked) = 0 := by
  rw [bought, List.count_eq_zero]
  simp

/-- a retry is answered when attempts are left, and is bought; nothing else is -/
theorem Handled.price {C : Cfg σ ε} {longPolling : Bool} {attempts : ℕ} {calls : List Call} {answer : Option Answer}
    (h : Handled C longPolling attempts calls answer) :
    ((∃ delay, answer = some (.wait delay)) ∧ (attempts : ℤ) < C.maxAttempts ∧ bought calls = 1) ∨
      ((¬ ∃ delay, answer = some (.wait delay)) ∧ bought calls = 0) := by
  have hasked : ∀ (asked : List CheckerName) (rest : List Call), bought (asked.map .asked ++ rest) = bought rest := by
    intro asked rest
    rw [bought, List.count_append, ← bought, bought_asked, Nat.zero_add]
    rfl
  cases h with
  | spent h => exact .inr ⟨by simp, rfl⟩
  | unneeded h => exact .inr ⟨by simp, hasked order [.adapted]⟩
  | retries h hprefix delay => exact .inl ⟨⟨delay, rfl⟩, h, (hasked _ _).trans rfl⟩
  | refused h hprefix hpolling => exact .inr ⟨by simp, (hasked _ _).trans rfl⟩
  | polled h hprefix hpolling delay => exact .inr ⟨by simp, (hasked _ _).trans rfl⟩

/-! ## The loop that has ended -/

variable {C : Cfg σ ε} {E : Env σ ρ δ ε}

/-- `x` leaves the calls of the handler as they are -/
def Silent {α : Type} (x : EStateM ε (St (World σ) ρ δ ε) α) : Prop :=
  ∀ s t a, x s = .ok a t → t.world.calls = s.world.calls

theorem Silent.bind {α β : Type} {x : EStateM ε (St (World σ) ρ δ ε) α} {f : α → EStateM ε (St (World σ) ρ δ ε) β}
    (hx : Silent x) (hf : ∀ a, Silent (f a)) : Silent (x >>= f) := by
  intro s t b h
  obtain ⟨a, u, hxu, h⟩ := RetryLoop.bind_ok h
  exact (hf a u t b h).trans (hx s u a hxu)

theorem silent_modify {f : St (World σ) ρ δ ε → St (World σ) ρ δ ε} (hf : ∀ s, (f s).world.calls = s.world.calls) :
    Silent (modify f : EStateM ε (St (World σ) ρ δ ε) PUnit) := by
  intro s t _ h
  cases h
  exact hf s

theorem silent_note (x : Event ρ ε) : Silent (note x : EStateM ε (St (World σ) ρ δ ε) Unit) := silent_modify fun _ => rfl

theorem silent_call {α : Type} (f : σ → Except ε α × σ) :
    Silent (RetryLoop.call (liftCall f) : EStateM ε (St (World σ) ρ δ ε) α) := by
  intro s t a h
  unfold RetryLoop.call at h
  split at h
  · cases h
  · rename_i w hw
    cases h
    exact (congrArg (fun p => World.calls p.2) hw).symm

theorem silent_get : Silent (get : EStateM ε (St (World σ) ρ δ ε) _) := by
  intro s t a h
  cases h
  rfl

theorem createRequest_silent : Silent (createRequest (env B C E)) := by
  unfold createRequest
  exact silent_get.bind fun s => (silent_call _).bind fun _ => (silent_modify (by intro t; rfl)).bind fun _ =>
    silent_note _

theorem exchange_silent (request : ℕ) (w : World σ) :
    (exchange (env B C E) request w).world.calls = w.calls := by
  unfold exchange
  split
  · rename_i w' hw
    exact (congrArg (fun p => World.calls p.2) hw).symm
  · rename_i responses w' hw
    have hcalls := (congrArg (fun p => World.calls p.2) hw).symm
    split
    · exact hcalls
    · exact hcalls

theorem conclude_silent (result : Except ε ρ) : Silent (conclude (env B C E) result) := by
  cases result with
  | error e =>
    intro s t a h
    rw [conclude] at h
    split_ifs at h
    · cases h
      rfl
    · cases h
  | ok http => exact (silent_call _).bind fun parsed => silent_modify fun _ => rfl

theorem getResponse_silent : Silent (getResponse (env B C E)) := by
  have hdo : Silent (doGetResponse (env B C E)) := by
    intro s t a h
    obtain ⟨_, _, hget, h⟩ := RetryLoop.bind_ok h
    cases hget
    obtain ⟨_, _, hworld, h⟩ := RetryLoop.bind_ok h
    cases hworld
    obtain ⟨_, _, hnote, h⟩ := RetryLoop.bind_ok h
    cases hnote
    exact (conclude_silent _ _ _ _ h).trans (exchange_silent _ _)
  refine hdo.bind fun _ => ?_
  intro s t a h
  unfold emit at h
  simp only at h
  split at h
  · cases h
  · cases h
    rfl

theorem retry_silent : Silent (RetryLoop.retry (env B C E)) := by
  unfold RetryLoop.retry
  exact (silent_modify (by intro s; rfl)).bind fun _ => (silent_modify (by intro s; rfl)).bind fun _ =>
    silent_get.bind fun s => (silent_call _).bind fun _ => (silent_note _).bind fun _ =>
      createRequest_silent.bind fun _ => getResponse_silent

/-- what an answer to `needs-retry` means, and what it has cost -/
theorem needsRetry_handled {s t : St (World σ) ρ δ ε} {again : Bool}
    (h : RetryLoop.needsRetry (env B C E) s = .ok again t) :
    ∃ answer calls longPolling, Handled C longPolling s.attempts calls answer ∧
      t.world.calls = s.world.calls ++ calls ∧ (again = true ↔ ∃ delay, answer = some (.wait delay)) := by
  obtain ⟨_, _, hget, h⟩ := RetryLoop.bind_ok h
  cases hget
  obtain ⟨responses, u, hemit, h⟩ := RetryLoop.bind_ok h
  obtain ⟨_, _, hnote, h⟩ := RetryLoop.bind_ok h
  cases hnote
  have hhandled : ∃ answer calls longPolling, responses = [answer] ∧ Handled C longPolling s.attempts calls answer ∧
      u.world.calls = s.world.calls ++ calls := by
    unfold emit at hemit
    cases hneeds : needsRetry B C (B.createRetryContext s.attempts s.success s.exception) s.world with
    | error e w =>
      simp only [env, hneeds] at hemit
      cases hemit
    | ok result w =>
      obtain ⟨answer, edit⟩ := result
      simp only [env, hneeds] at hemit
      cases hemit
      obtain ⟨calls, hadds, hhandled⟩ := needsRetry_ok hneeds
      rw [B.attemptNumber_create] at hhandled
      exact ⟨answer, calls, _, rfl, hhandled, hadds⟩
  obtain ⟨answer, calls, longPolling, rfl, hhandled, hcalls⟩ := hhandled
  have hfirst : firstNonNoneResponse [answer] = answer := by cases answer <;> rfl
  rw [hfirst] at h
  refine ⟨answer, calls, longPolling, hhandled, ?_⟩
  cases answer with
  | none =>
    cases h
    exact ⟨hcalls, by simp⟩
  | some answer =>
    cases answer with
    | no =>
      cases h
      exact ⟨hcalls, by simp⟩
    | wait seconds =>
      obtain ⟨_, v, hsleep, h⟩ := RetryLoop.bind_ok h
      have hslept := silent_call _ _ _ _ hsleep
      cases h
      exact ⟨hslept.trans hcalls, by simp⟩

theorem attempts_append (a b : List (Event ρ ε)) : attempts (a ++ b) = attempts a + attempts b := List.countP_append

/-- each retry of a loop is bought, and made -/
theorem loop_paid {fuel n : ℕ} {s t : St (World σ) ρ δ ε} {result : Except ε ρ}
    {out : Except ε (Option (Response ρ δ))} (h : loop (env B C E) fuel s = .ok (some out) t) (hn : Numbered n s)
    (hleaves : Leaves result s) :
    attempts t.log + bought s.world.calls = attempts s.log + bought t.world.calls := by
  induction fuel generalizing n s result with
  | zero => cases h
  | succ fuel ih =>
    rw [loop] at h
    obtain ⟨again, u, hneeds, h⟩ := RetryLoop.bind_ok h
    obtain ⟨a, hcontinues, hleaves, -⟩ := RetryLoop.needsRetry_ok hneeds hleaves
    obtain ⟨answer, calls, longPolling, hhandled, hcalls, hagain⟩ := needsRetry_handled hneeds
    have hprice : bought calls = if again then 1 else 0 := by
      rcases hhandled.price with ⟨hwait, -, hone⟩ | ⟨hnot, hzero⟩
      · rw [hone, if_pos (hagain.2 hwait)]
      · rw [hzero, if_neg fun htrue => hnot (hagain.1 htrue)]
    have hbought : bought u.world.calls = bought s.world.calls + bought calls := by
      rw [bought, hcalls, List.count_append]
      rfl
    have hlog : attempts u.log = attempts s.log := by
      rw [hcontinues.log, attempts_append]
      rfl
    cases again with
    | false =>
      obtain ⟨_, _, hget, h⟩ := RetryLoop.bind_ok h
      cases hget
      cases h
      rw [hlog, hbought, hprice]
      rfl
    | true =>
      obtain ⟨_, v, hretry, h⟩ := RetryLoop.bind_ok h
      obtain ⟨sent, result', hlog', hnumbered, hleaves', -⟩ := RetryLoop.retry_ok hretry (hcontinues.numbered hn)
      have hsame := retry_silent _ _ _ hretry
      have hone : attempts v.log = attempts s.log + 1 := by
        rw [hlog', attempts_append, hlog]
        rfl
      have hrest := ih h hnumbered hleaves'
      rw [hsame, hbought, hprice, hone] at hrest
      simp only [if_true] at hrest
      omega

/-! ## The loop ends -/

theorem loop_ends {fuel n : ℕ} {s t : St (World σ) ρ δ ε} {result : Except ε ρ} (hn : Numbered n s)
    (hleaves : Leaves result s) (hbound : ((n + 1 : ℕ) : ℤ) ≤ max 1 C.maxAttempts)
    (hfuel : max 1 C.maxAttempts ≤ n + fuel) : loop (env B C E) fuel s ≠ .ok none t := by
  induction fuel generalizing n s result with
  | zero =>
    push_cast at hbound hfuel
    omega
  | succ fuel ih =>
    intro h
    rw [loop] at h
    obtain ⟨again, u, hneeds, h⟩ := RetryLoop.bind_ok h
    obtain ⟨a, hcontinues, hleaves, -⟩ := RetryLoop.needsRetry_ok hneeds hleaves
    obtain ⟨answer, calls, longPolling, hhandled, -, hagain⟩ := needsRetry_handled hneeds
    cases again with
    | false =>
      obtain ⟨_, _, hget, h⟩ := RetryLoop.bind_ok h
      cases h
    | true =>
      have hleft : (s.attempts : ℤ) < C.maxAttempts := by
        rcases hhandled.price with ⟨-, hleft, -⟩ | ⟨hnot, -⟩
        · exact hleft
        · exact absurd (hagain.1 rfl) hnot
      obtain ⟨_, v, hretry, h⟩ := RetryLoop.bind_ok h
      obtain ⟨sent, result', -, hnumbered, hleaves', -⟩ := RetryLoop.retry_ok hretry (hcontinues.numbered hn)
      rw [hn.attempts] at hleft
      refine ih hnumbered hleaves' ?_ ?_ h
      · push_cast at hleft ⊢
        omega
      · push_cast at hfuel ⊢
        omega

/-! ## The attempts of any run -/

/-- where `x` has ended, with a result or an exception -/
def final {α : Type} : EStateM.Result ε (St (World σ) ρ δ ε) α → St (World σ) ρ δ ε
  | .ok _ t => t
  | .error _ t => t

/-- whatever comes of `x`, it counts `a` attempts and makes at most `b` -/
def Costs {α : Type} (a b : ℕ) (x : EStateM ε (St (World σ) ρ δ ε) α) : Prop :=
  ∀ s, (final (x s)).attempts = s.attempts + a ∧ attempts (final (x s)).log ≤ attempts s.log + b

theorem bind_of_ok {α β : Type} {x : EStateM ε (St (World σ) ρ δ ε) α} {s t : St (World σ) ρ δ ε} {a : α}
    (h : x s = .ok a t) (f : α → EStateM ε (St (World σ) ρ δ ε) β) : (x >>= f) s = f a t := by
  simp only [Bind.bind, EStateM.bind, h]

theorem bind_of_error {α β : Type} {x : EStateM ε (St (World σ) ρ δ ε) α} {s t : St (World σ) ρ δ ε} {e : ε}
    (h : x s = .error e t) (f : α → EStateM ε (St (World σ) ρ δ ε) β) : (x >>= f) s = .error e t := by
  simp only [Bind.bind, EStateM.bind, h]

theorem Costs.bind {α β : Type} {a b b' : ℕ} {x : EStateM ε (St (World σ) ρ δ ε) α}
    {f : α → EStateM ε (St (World σ) ρ δ ε) β} (hx : Costs a b x) (hf : ∀ v, Costs 0 b' (f v)) :
    Costs a (b + b') (x >>= f) := by
  intro s
  obtain ⟨hcount, hmade⟩ := hx s
  cases h : x s with
  | error e t =>
    rw [h] at hcount hmade
    rw [bind_of_error h]
    simp only [final] at hcount hmade ⊢
    exact ⟨hcount, by omega⟩
  | ok v t =>
    rw [h] at hcount hmade
    rw [bind_of_ok h]
    obtain ⟨hcount', hmade'⟩ := hf v t
    simp only [final] at hcount hmade
    exact ⟨by omega, by omega⟩

/-- what comes first makes no attempt -/
theorem Costs.before {α β : Type} {a b : ℕ} {x : EStateM ε (St (World σ) ρ δ ε) α}
    {f : α → EStateM ε (St (World σ) ρ δ ε) β} (hx : Costs a 0 x) (hf : ∀ v, Costs 0 b (f v)) :
    Costs a b (x >>= f) := by
  simpa using hx.bind hf

/-- what comes last makes no attempt -/
theorem Costs.after {α β : Type} {a b : ℕ} {x : EStateM ε (St (World σ) ρ δ ε) α}
    {f : α → EStateM ε (St (World σ) ρ δ ε) β} (hx : Costs a b x) (hf : ∀ v, Costs 0 0 (f v)) : Costs a b (x >>= f) :=
  hx.bind hf

theorem costs_modify {a b : ℕ} {f : St (World σ) ρ δ ε → St (World σ) ρ δ ε}
    (hf : ∀ s, (f s).attempts = s.attempts + a ∧ attempts (f s).log ≤ attempts s.log + b) :
    Costs a b (modify f : EStateM ε (St (World σ) ρ δ ε) PUnit) := hf

theorem costs_get : Costs 0 0 (get : EStateM ε (St (World σ) ρ δ ε) _) := fun _ => ⟨rfl, le_rfl⟩

theorem costs_note {x : Event ρ ε} {b : ℕ} (hb : attempts [x] ≤ b) :
    Costs 0 b (note x : EStateM ε (St (World σ) ρ δ ε) Unit) := by
  intro s
  refine ⟨rfl, ?_⟩
  calc attempts (s.log ++ [x]) = attempts s.log + attempts [x] := attempts_append _ _
    _ ≤ attempts s.log + b := by gcongr

theorem costs_call {α : Type} (f : World σ → Except ε α × World σ) :
    Costs 0 0 (RetryLoop.call f : EStateM ε (St (World σ) ρ δ ε) α) := by
  intro s
  unfold RetryLoop.call
  split <;> exact ⟨rfl, le_rfl⟩

theorem costs_emit {α : Type} (f : Option (Response ρ δ) → Option ε → World σ → Emitted α (World σ) δ ε) :
    Costs 0 0 (emit f) := by
  intro s
  unfold emit
  simp only
  split <;> exact ⟨rfl, le_rfl⟩

variable (F : Env (World σ) ρ δ ε)

theorem createRequest_costs : Costs 0 0 (createRequest F) := by
  refine costs_get.before fun s => (costs_call _).before fun _ => Costs.before ?_ fun _ => costs_note le_rfl
  exact costs_modify fun _ => ⟨rfl, le_rfl⟩

theorem conclude_costs (result : Except ε ρ) : Costs 0 0 (conclude F result) := by
  cases result with
  | error e =>
    intro s
    rw [conclude]
    split_ifs <;> exact ⟨rfl, le_rfl⟩
  | ok http =>
    refine (costs_call _).before fun parsed => ?_
    exact costs_modify fun _ => ⟨rfl, le_rfl⟩

theorem getResponse_costs : Costs 0 1 (getResponse F) := by
  have hdo : Costs 0 1 (doGetResponse F) := by
    refine costs_get.before fun s => Costs.before ?_ fun _ => (costs_note ?_).after fun _ => conclude_costs F _
    · exact costs_modify fun _ => ⟨rfl, le_rfl⟩
    · exact le_rfl
  exact hdo.after fun _ => costs_emit _

theorem needsRetry_costs : Costs 0 0 (RetryLoop.needsRetry F) := by
  refine costs_get.before fun s => (costs_emit _).before fun responses => Costs.before ?_ fun _ => ?_
  · exact costs_note le_rfl
  generalize firstNonNoneResponse responses = answer
  cases answer with
  | none => exact fun _ => ⟨rfl, le_rfl⟩
  | some answer =>
    cases answer with
    | no => exact fun _ => ⟨rfl, le_rfl⟩
    | wait seconds => exact (costs_call _).before fun _ _ => ⟨rfl, le_rfl⟩

theorem retry_costs : Costs 1 1 (RetryLoop.retry F) := by
  refine Costs.before ?_ fun _ => Costs.before ?_ fun _ => costs_get.before fun s => (costs_call _).before fun _ =>
    Costs.before ?_ fun _ => (createRequest_costs F).before fun _ => getResponse_costs F
  · exact costs_modify fun _ => ⟨rfl, le_rfl⟩
  · exact costs_modify fun _ => ⟨rfl, le_rfl⟩
  · exact costs_note le_rfl

/-- no run of the loop makes more attempts than are allowed -/
theorem loop_attempts (fuel : ℕ) {s : St (World σ) ρ δ ε} (hmade : attempts s.log ≤ s.attempts)
    (hbound : (s.attempts : ℤ) ≤ max 1 C.maxAttempts) :
    (attempts (final (loop (env B C E) fuel s)).log : ℤ) ≤ max 1 C.maxAttempts := by
  induction fuel generalizing s with
  | zero =>
    have hle : (attempts s.log : ℤ) ≤ s.attempts := by exact_mod_cast hmade
    exact hle.trans hbound
  | succ fuel ih =>
    obtain ⟨hcount, hmade'⟩ := needsRetry_costs (env B C E) s
    rw [loop]
    cases hneeds : RetryLoop.needsRetry (env B C E) s with
    | error e t =>
      rw [bind_of_error hneeds]
      simp only [hneeds, final] at hcount hmade' ⊢
      omega
    | ok again t =>
      rw [bind_of_ok hneeds]
      simp only [hneeds, final] at hcount hmade'
      cases again with
      | false =>
        have hle : attempts t.log ≤ s.attempts := hmade'.trans (by omega)
        calc (attempts t.log : ℤ) ≤ s.attempts := by exact_mod_cast hle
          _ ≤ max 1 C.maxAttempts := hbound
      | true =>
        obtain ⟨answer, calls, longPolling, hhandled, -, hagain⟩ := needsRetry_handled hneeds
        have hleft : (s.attempts : ℤ) < C.maxAttempts := by
          rcases hhandled.price with ⟨-, hleft, -⟩ | ⟨hnot, -⟩
          · exact hleft
          · exact absurd (hagain.1 rfl) hnot
        obtain ⟨hcount', hmade''⟩ := retry_costs (env B C E) t
        rw [if_pos rfl]
        cases hretry : RetryLoop.retry (env B C E) t with
        | error e u =>
          rw [bind_of_error hretry]
          simp only [hretry, final] at hcount' hmade'' ⊢
          omega
        | ok x u =>
          rw [bind_of_ok hretry]
          simp only [hretry, final] at hcount' hmade''
          exact ih (by omega) (by omega)

/-- the first attempt, up to the loop -/
theorem first_attempt {t : St (World σ) ρ δ ε} {fuel : ℕ} {w : σ} {out : Option (Except ε (Option (Response ρ δ)))}
    (h : sendRequest (env B C E) fuel (start ⟨w, []⟩) = .ok out t) :
    ∃ (s : St (World σ) ρ δ ε) (result : Except ε ρ), loop (env B C E) fuel s = .ok out t ∧ Numbered 0 s ∧ Leaves result s ∧
      attempts s.log = 1 ∧ bought s.world.calls = 0 := by
  obtain ⟨_, _, hcontext, h⟩ := RetryLoop.bind_ok h
  cases hcontext
  obtain ⟨_, u, hcreate, h⟩ := RetryLoop.bind_ok h
  have hcalls := createRequest_silent _ _ _ hcreate
  obtain ⟨w', rfl⟩ := createRequest_ok hcreate
  obtain ⟨_, s, hget, h⟩ := RetryLoop.bind_ok h
  have hcalls' := getResponse_silent _ _ _ hget
  obtain ⟨sent, first, hcontinues, hleaves, -⟩ := getResponse_ok hget
  refine ⟨s, first, h, hcontinues.numbered ⟨rfl, rfl, rfl, rfl⟩, hleaves, ?_, ?_⟩
  · rw [hcontinues.log, attempts_append]
    rfl
  · rw [hcalls', hcalls]
    rfl

/-- **Standard mode.** In any environment, with any answers of the checkers and of the quota: the loop ends, and whether
it returns, raises or is cancelled, it makes at most `max_attempts` attempts, or one. When it returns, each attempt after
the first is paid for by one acquisition of the retry quota, and no acquisition was without an attempt. -/
theorem standard_send_request (B : Botocore σ χ ρ δ ε) (C : Cfg σ ε) (E : Env σ ρ δ ε) (w : σ) (fuel : ℕ)
    (hfuel : max 1 C.maxAttempts ≤ fuel) :
    let result := sendRequest (env B C E) fuel (start ⟨w, []⟩)
    (∀ t, result ≠ .ok none t) ∧ (attempts (final result).log : ℤ) ≤ max 1 C.maxAttempts ∧
      ∀ out t, result = .ok (some out) t → attempts t.log = 1 + bought t.world.calls := by
  intro result
  refine ⟨fun t h => ?_, ?_, fun out t h => ?_⟩
  · obtain ⟨s, first, h, hnumbered, hleaves, -, -⟩ := first_attempt h
    exact loop_ends hnumbered hleaves (by simp) (by simpa using hfuel) h
  · have hcontext : result = (createRequest (env B C E) >>= fun _ => getResponse (env B C E) >>= fun _ =>
        loop (env B C E) fuel) { (start ⟨w, []⟩ : St (World σ) ρ δ ε) with contextAttempt := 1 } := rfl
    rw [hcontext]
    generalize hs : ({ (start ⟨w, []⟩ : St (World σ) ρ δ ε) with contextAttempt := 1 } : St (World σ) ρ δ ε) = s
    have hcounted : s.attempts = 1 := by rw [← hs]; rfl
    have hnone : attempts s.log = 0 := by rw [← hs]; rfl
    obtain ⟨hcount, hmade⟩ := createRequest_costs (env B C E) s
    cases hcreate : createRequest (env B C E) s with
    | error e u =>
      rw [bind_of_error hcreate]
      simp only [hcreate, final] at hmade ⊢
      omega
    | ok x u =>
      rw [bind_of_ok hcreate]
      simp only [hcreate, final] at hcount hmade
      obtain ⟨hcount', hmade'⟩ := getResponse_costs (env B C E) u
      cases hget : getResponse (env B C E) u with
      | error e v =>
        rw [bind_of_error hget]
        simp only [hget, final] at hmade' ⊢
        omega
      | ok x v =>
        rw [bind_of_ok hget]
        simp only [hget, final] at hcount' hmade'
        exact loop_attempts fuel (by omega) (by omega)
  · obtain ⟨s, first, h, hnumbered, hleaves, hone, hnone⟩ := first_attempt h
    have hpaid := loop_paid h hnumbered hleaves
    omega

/-! ## An instance -/

/-- a context is the number of the attempt and whether it failed, a world the answer of the server and the quota left -/
def throttledService : Botocore (Bool × ℕ) (ℕ × Bool) Bool Unit String where
  createRetryContext n r _ := (n, !(r.map Response.http).getD false)
  attemptNumber c := c.1
  serviceName _ := "s3"
  httpResponse _ := none
  isLongPollingOperation _ := false
  maxAttempts m c w := (decide ((c.1 : ℤ) < m), w)
  transient _ w := (.ok (some false), w)
  throttled c w := (.ok (some c.2), w)
  modeled _ w := (.ok none, w)
  idpCommunicationError _ w := (.ok none, w)
  acquireRetryQuota _ w := if 5 ≤ w.2 then (true, w.1, w.2 - 5) else (false, w)
  computeRetryDelay c w := (.ok c.1, w)
  adapt _ _ parsed := parsed
  valueError text := text
  attemptNumber_create _ _ _ := rfl
  maxAttempts_spec _ _ _ := rfl

/-- a server that fails until it has answered once -/
def server : Env (Bool × ℕ) Bool Unit String where
  isException _ := true
  create _ w := (.ok (), w)
  beforeSend _ w := (.ok [], w)
  send _ w := (.ok w.1, true, w.2)
  parse _ w := (.ok ⟨some ⟨none, ()⟩, ()⟩, w)
  responseReceived _ _ w := ⟨.ok (), id, w⟩
  needsRetry _ _ _ w := ⟨.ok [], id, w⟩
  sleep _ w := (.ok (), w)
  resetStream _ w := (.ok (), w)

/-- with a quota of seven one retry is bought -/
theorem standard_send_request_two :
    (attempts (final (sendRequest (env throttledService ⟨2, true, fun _ w => (.ok (), w)⟩ server) 2
      (start ⟨(false, 7), []⟩))).log : ℤ) ≤ max 1 2 :=
  (standard_send_request throttledService ⟨2, true, fun _ w => (.ok (), w)⟩ server (false, 7) 2 (by decide)).2.1

end AioBotocore.Standard
