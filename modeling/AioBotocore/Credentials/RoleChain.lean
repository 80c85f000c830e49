/-
The credentials that `AioAssumeRoleProvider.load` makes for a chain of roles (`credentials.py`), at work. Each role has an
`AioDeferredRefreshableCredentials` whose refresher is `AioAssumeRoleCredentialFetcher.fetch_credentials`, behind
`create_mfa_serial_refresher` when there is an MFA serial. The fetcher looks into the cache that all fetchers share, and
else awaits `get_frozen_credentials` of its source, the next object of the chain, and calls STS with what it gets. So a task
that refreshes one object holds its lock while it queues for the locks of the objects further down.

An object is the machine of `Credentials.Refreshable`; objects are numbered in the order of their creation, sources before
what they are sources of. The nested call of a source is a call of its own (`sourcing`). What reads a cache entry,
`_expiry_window_seconds` and the timestamps are botocore's.

- `step_moves`: everything one operation can do; `step_objects`: each object stays a machine of its own.
- `role_chain_signed`: what signs the calls of STS, what the objects get from it, and that MFA is used once.
- `role_chain_completes`: no deadlock; every call can be completed by the tasks that are there.
-/
import Mathlib.Tactic
import AioBotocore.Async.Run
import AioBotocore.Credentials.Calls

namespace AioBotocore.RoleChain

open Async Function
open AioBotocore.Credentials (ReadOnlyCredentials Metadata Base Cfg Outcome Pc)

/-! ## Model -/

/-- `Credentials` of a response of `assume_role`, with the account id that the fetcher adds -/
structure Response where
  accessKeyId : String
  secretAccessKey : String
  sessionToken : String
  /-- in microseconds -/
  expiration : ℤ
  accountId : Option String
deriving DecidableEq, Repr

def Response.credentials (r : Response) : ReadOnlyCredentials :=
  ⟨some r.accessKeyId, some r.secretAccessKey, some r.sessionToken, r.accountId⟩

/-- `source_credentials` -/
inductive Source where
  /-- `AioCredentials` -/
  | static (c : ReadOnlyCredentials)
  | object (c : ℕ)
deriving DecidableEq, Repr

/-- what `AioAssumeRoleCredentialFetcher` is made of -/
structure Role where
  source : Source
  cacheKey : String
  mfaSerial : Option String
deriving DecidableEq, Repr

/-- `role` is `none` for credentials of another provider -/
structure Object where
  cfg : Cfg
  role : Option Role
deriving DecidableEq, Repr

structure Chain where
  object : ℕ → Object
  expiryWindow : ℤ
  serializeIfNeeded : ℤ → String
  order : ∀ c role d, (object c).role = some role → role.source = .object d → d < c
  deferred : ∀ c role, (object c).role = some role → (object c).cfg.ctor = .deferred

/-- where the refresher of a call stands -/
inductive Phase where
  /-- it has not begun -/
  | fresh
  /-- in `get_frozen_credentials` of the source, by the call `k` of it -/
  | sourcing (k : ℕ)
  /-- in the call of STS, with a client for these credentials -/
  | assuming (c : ReadOnlyCredentials)
deriving DecidableEq, Repr

structure St where
  objects : ℕ → Credentials.St
  phase : ℕ → ℕ → Phase
  cache : String → Option Response
  /-- `_has_been_called` -/
  called : ℕ → Bool
  /-- the calls of STS: the object, its call and the credentials of the client -/
  assumed : List (ℕ × ℕ × ReadOnlyCredentials)
  /-- what STS has answered -/
  answers : List (ℕ × Response)

inductive Op where
  | tick (d : ℕ)
  /-- `get_frozen_credentials` of the object `c` -/
  | call (c k : ℕ)
  | resume (c k : ℕ)
  /-- `_refresh_using()` begins; `j` is its call of the source, if it makes one -/
  | refresh (c k j : ℕ)
  /-- the call of the source is over -/
  | proceed (c k : ℕ)
  /-- STS answers -/
  | answer (c k : ℕ) (r : Response)
  /-- the call of STS raises, or what comes before and after it -/
  | fails (c k : ℕ) (text : String)
  /-- the refresher of another provider ends -/
  | finish (c k : ℕ) (o : Outcome)
  | cancel (c k : ℕ)
deriving DecidableEq, Repr

def textOf : Credentials.Exn → String
  | .refresher text => text
  | .setFromData text => text
  | .runtimeError msg => msg

variable (H : Chain) (B : Base)

/-- `_load_from_cache` -/
def loadFromCache (s : St) (now : ℤ) (key : String) : Option Response :=
  (s.cache key).filter fun r => H.expiryWindow ≤ r.expiration - now

/-- the dict of `_get_cached_credentials` -/
def metadata (r : Response) : Metadata :=
  [("access_key", some r.accessKeyId), ("secret_key", some r.secretAccessKey), ("token", some r.sessionToken),
    ("expiry_time", some (H.serializeIfNeeded r.expiration)), ("account_id", r.accountId)]

/-- an operation of one object -/
def act (s : St) (c : ℕ) (o : Credentials.Op) : St :=
  { s with objects := update s.objects c (Credentials.step B (H.object c).cfg (s.objects c) o) }

def setPhase (s : St) (c k : ℕ) (p : Phase) : St := { s with phase := update s.phase c (update (s.phase c) k p) }

/-- the call of STS -/
def assume (s : St) (c k : ℕ) (creds : ReadOnlyCredentials) : St :=
  { setPhase s c k (.assuming creds) with assumed := s.assumed ++ [(c, k, creds)] }

/-- the call `j` of the source is still to be made -/
def Unused (s : St) (role : Role) (j : ℕ) : Prop :=
  match role.source with
  | .static _ => True
  | .object d => (s.objects d).pc j = .idle

instance (s : St) (role : Role) (j : ℕ) : Decidable (Unused s role j) := by
  unfold Unused; split <;> infer_instance

/-- `_get_cached_credentials` up to its first suspension -/
def getCachedCredentials (s : St) (c k j : ℕ) (role : Role) : St :=
  match loadFromCache H s (s.objects c).now role.cacheKey with
  | some r => act H B s c (.finish k (.returns (metadata H r)))
  | none =>
    match role.source with
    | .static creds => assume s c k creds
    | .object d => setPhase (act H B s d (.call j)) c k (.sourcing j)

/-- `_has_been_called = True` -/
def mark (s : St) (c : ℕ) : St := { s with called := update s.called c true }

/-- the refresher, with or without MFA -/
def refresh (s : St) (c k j : ℕ) (role : Role) : St :=
  if role.mfaSerial.isSome ∧ s.called c then act H B s c (.finish k (.raises "RefreshWithMFAUnsupportedError"))
  else getCachedCredentials H B (mark s c) c k j role

/-- `_create_client` with what the call of the source has come to -/
def createClient (s : St) (c k : ℕ) : Pc → St
  | .returned (some creds) => assume s c k creds
  | .returned none => act H B s c (.finish k (.raises "AttributeError"))
  | .raised e => act H B s c (.finish k (.raises (textOf e)))
  | .cancelled => act H B s c (.cancel k)
  | _ => s

def step (s : St) : Op → St
  | .tick d => { s with objects := fun c => Credentials.step B (H.object c).cfg (s.objects c) (.tick d) }
  | .call c k => act H B s c (.call k)
  | .resume c k => act H B s c (.resume k)
  | .refresh c k j =>
    match (s.objects c).pc k, s.phase c k, (H.object c).role with
    | .refreshing _, .fresh, some role => if Unused s role j then refresh H B s c k j role else s
    | _, _, _ => s
  | .proceed c k =>
    match (s.objects c).pc k, s.phase c k, (H.object c).role with
    | .refreshing _, .sourcing j, some role =>
      match role.source with
      | .static _ => s
      | .object d => createClient H B s c k ((s.objects d).pc j)
    | _, _, _ => s
  | .answer c k r =>
    match (s.objects c).pc k, s.phase c k, (H.object c).role with
    | .refreshing _, .assuming _, some role =>
      act H B { s with cache := update s.cache role.cacheKey (some r), answers := s.answers ++ [(c, r)] } c
        (.finish k (.returns (metadata H r)))
    | _, _, _ => s
  | .fails c k text =>
    match (s.objects c).pc k, s.phase c k, (H.object c).role with
    | .refreshing _, .fresh, some _ => act H B (mark s c) c (.finish k (.raises text))
    | .refreshing _, .assuming _, some _ => act H B s c (.finish k (.raises text))
    | _, _, _ => s
  | .finish c k o => if (H.object c).role = none then act H B s c (.finish k o) else s
  | .cancel c k =>
    match (s.objects c).pc k, s.phase c k with
    -- the task is suspended in the call of the source
    | .refreshing _, .sourcing _ => s
    | _, _ => act H B s c (.cancel k)

def init (t0 : ℤ) (cache : String → Option Response) : St :=
  ⟨fun c => Credentials.init (H.object c).cfg t0, fun _ _ => .fresh, cache, fun _ => false, [], []⟩

variable {H B} {s : St}

@[simp] theorem act_objects (c : ℕ) (o : Credentials.Op) :
    (act H B s c o).objects = update s.objects c (Credentials.step B (H.object c).cfg (s.objects c) o) := rfl

@[simp] theorem act_phase (c : ℕ) (o : Credentials.Op) : (act H B s c o).phase = s.phase := rfl

theorem setPhase_phase (c k : ℕ) (p : Phase) : (setPhase s c k p).phase = update s.phase c (update (s.phase c) k p) := rfl

theorem setPhase_self (c k : ℕ) (p : Phase) : (setPhase s c k p).phase c k = p := by
  rw [setPhase_phase, update_self, update_self]

theorem setPhase_of_ne {c k c' k' : ℕ} (p : Phase) (h : ¬ (c' = c ∧ k' = k)) :
    (setPhase s c k p).phase c' k' = s.phase c' k' := by
  by_cases hc : c' = c
  · subst hc
    have hk : k' ≠ k := fun hk => h ⟨rfl, hk⟩
    rw [setPhase_phase, update_self, update_of_ne hk]
  · rw [setPhase_phase, update_of_ne hc]

/-! ## Steps -/

def Op.object : Op → Option ℕ
  | .tick _ => none
  | .call c _ => some c
  | .resume c _ => some c
  | .refresh c _ _ => some c
  | .proceed c _ => some c
  | .answer c _ _ => some c
  | .fails c _ _ => some c
  | .finish c _ _ => some c
  | .cancel c _ => some c

variable (H B) in
/-- the object refuses MFA a second time -/
def Allowed (s : St) (c : ℕ) (role : Role) : Prop := role.mfaSerial.isSome → s.called c = false

variable (H B) in
/-- everything one operation can do -/
inductive Moves (s : St) : Op → St → Prop
  | none (o : Op) : Moves s o s
  | tick (d : ℕ) :
      Moves s (.tick d) { s with objects := fun c => Credentials.step B (H.object c).cfg (s.objects c) (.tick d) }
  /-- an operation of one object, with no dict for a role -/
  | plain {o : Op} {c : ℕ} (hc : o.object = some c) (o' : Credentials.Op)
      (ho : ∀ k m, o' = .finish k (.returns m) → (H.object c).role = none) : Moves s o (act H B s c o')
  | raises {c k : ℕ} (text : String) : Moves s (.fails c k text) (act H B (mark s c) c (.finish k (.raises text)))
  /-- the response is in the cache -/
  | loads {c k j : ℕ} {role : Role} {r : Response} (hrole : (H.object c).role = some role)
      (hload : s.cache role.cacheKey = some r) :
      Moves s (.refresh c k j) (act H B (mark s c) c (.finish k (.returns (metadata H r))))
  | sources {c k j d : ℕ} {role : Role} (hphase : s.phase c k = .fresh) (hrole : (H.object c).role = some role)
      (hsource : role.source = .object d) (hj : (s.objects d).pc j = .idle) (hallowed : Allowed s c role) :
      Moves s (.refresh c k j) (setPhase (act H B (mark s c) d (.call j)) c k (.sourcing j))
  | starts {c k j : ℕ} {role : Role} {creds : ReadOnlyCredentials} (hphase : s.phase c k = .fresh)
      (hrole : (H.object c).role = some role) (hsource : role.source = .static creds) (hallowed : Allowed s c role) :
      Moves s (.refresh c k j) (assume (mark s c) c k creds)
  | continues {c k j d : ℕ} {role : Role} {creds : ReadOnlyCredentials} (hphase : s.phase c k = .sourcing j)
      (hrole : (H.object c).role = some role) (hsource : role.source = .object d)
      (hj : (s.objects d).pc j = .returned (some creds)) : Moves s (.proceed c k) (assume s c k creds)
  | answers {c k : ℕ} {role : Role} (r : Response) (hrole : (H.object c).role = some role) :
      Moves s (.answer c k r)
        (act H B { s with cache := update s.cache role.cacheKey (some r), answers := s.answers ++ [(c, r)] } c
          (.finish k (.returns (metadata H r))))

theorem refresh_moves {c k j : ℕ} {role : Role} (hphase : s.phase c k = .fresh) (hrole : (H.object c).role = some role)
    (hunused : Unused s role j) : Moves H B s (.refresh c k j) (refresh H B s c k j role) := by
  unfold refresh
  split_ifs with hmfa
  · exact .plain rfl _ (by simp)
  · have hallowed : Allowed s c role := fun h => by simpa [h] using hmfa
    unfold getCachedCredentials
    split
    · rename_i r hload
      exact .loads hrole (Option.filter_eq_some_iff.1 hload).1
    · split
      · rename_i creds hsource
        exact .starts hphase hrole hsource hallowed
      · rename_i d hsource
        exact .sources hphase hrole hsource (by simpa [Unused, hsource] using hunused) hallowed

theorem step_moves (s : St) (o : Op) : Moves H B s o (step H B s o) := by
  cases o with
  | tick d => exact .tick d
  | call c k => exact .plain rfl _ (by simp)
  | resume c k => exact .plain rfl _ (by simp)
  | refresh c k j =>
    simp only [step]
    split
    · rename_i role hpc hphase hrole
      split_ifs with hunused
      · exact refresh_moves hphase hrole hunused
      · exact .none _
    · exact .none _
  | proceed c k =>
    simp only [step]
    split
    · rename_i j role hpc hphase hrole
      split
      · exact .none _
      · rename_i d hsource
        unfold createClient
        split
        · rename_i creds hj
          exact .continues hphase hrole hsource hj
        · exact .plain rfl _ (by simp)
        · exact .plain rfl _ (by simp)
        · exact .plain rfl _ (by simp)
        · exact .none _
    · exact .none _
  | answer c k r =>
    simp only [step]
    split
    · rename_i creds role hpc hphase hrole
      exact .answers r hrole
    · exact .none _
  | fails c k text =>
    simp only [step]
    split
    · exact .raises text
    · exact .plain rfl _ (by simp)
    · exact .none _
  | finish c k out =>
    simp only [step]
    split_ifs with hrole
    · exact .plain rfl _ fun _ _ _ => hrole
    · exact .none _
  | cancel c k =>
    simp only [step]
    split
    · exact .none _
    · exact .plain rfl _ (by simp)

/-- each object goes on as a machine of its own -/
theorem step_objects (s : St) (o : Op) (c : ℕ) :
    ∃ ops, (step H B s o).objects c = run (Credentials.step B (H.object c).cfg) (s.objects c) ops := by
  have hact : ∀ (t : St) (c' : ℕ) (o' : Credentials.Op), t.objects = s.objects →
      ∃ ops, (act H B t c' o').objects c = run (Credentials.step B (H.object c).cfg) (s.objects c) ops := by
    intro t c' o' ht
    by_cases hc : c = c'
    · subst hc
      exact ⟨[o'], by rw [act_objects, update_self, ht, run_cons, run_nil]⟩
    · exact ⟨[], by rw [act_objects, update_of_ne hc, ht, run_nil]⟩
  have hmoves := step_moves (H := H) (B := B) s o
  generalize step H B s o = s' at hmoves
  cases hmoves with
  | none => exact ⟨[], rfl⟩
  | tick d => exact ⟨[.tick d], rfl⟩
  | plain hc o' => exact hact s _ o' rfl
  | raises text => exact hact (mark s _) _ _ rfl
  | loads => exact hact (mark s _) _ _ rfl
  | sources => exact hact (mark s _) _ _ rfl
  | starts => exact ⟨[], rfl⟩
  | continues => exact ⟨[], rfl⟩
  | answers r => exact hact { s with cache := _, answers := _ } _ _ rfl

/-! ## What signs the calls of STS -/

variable (H) in
/-- STS has given `r` for the roles with this key, or it stood in the cache at first -/
def Given (cache : String → Option Response) (s : St) (key : String) (r : Response) : Prop :=
  cache key = some r ∨ ∃ c role, (c, r) ∈ s.answers ∧ (H.object c).role = some role ∧ role.cacheKey = key

variable (H) in
/-- `creds` is what the source of the object `c` is, or has returned -/
def SignedBy (s : St) (c : ℕ) (creds : ReadOnlyCredentials) : Prop :=
  ∃ role, (H.object c).role = some role ∧
    (role.source = .static creds ∨ ∃ d j, role.source = .object d ∧ (s.objects d).pc j = .returned (some creds))

variable (H B) in
structure Data (t0 : ℤ) (cache : String → Option Response) (s : St) : Prop where
  object : ∀ c, ∃ ops, s.objects c = Credentials.exec B (H.object c).cfg t0 ops
  cached : ∀ key r, s.cache key = some r → Given H cache s key r
  results : ∀ c role, (H.object c).role = some role → ∀ m ∈ (s.objects c).results,
    ∃ r, m = metadata H r ∧ Given H cache s role.cacheKey r

variable (H) in
structure Phases (s : St) : Prop where
  sourcing : ∀ c k j, s.phase c k = .sourcing j →
    ∃ role d, (H.object c).role = some role ∧ role.source = .object d ∧ (s.objects d).pc j ≠ .idle
  assumed : ∀ c k creds, (c, k, creds) ∈ s.assumed → s.phase c k = .assuming creds ∧ SignedBy H s c creds
  nodup : s.assumed.Nodup
  /-- the refresher with MFA has begun once -/
  unused : ∀ c role, (H.object c).role = some role → role.mfaSerial.isSome → s.called c = false →
    ∀ k, s.phase c k = .fresh
  once : ∀ c role, (H.object c).role = some role → role.mfaSerial.isSome →
    ∀ i k, s.phase c i ≠ .fresh → s.phase c k ≠ .fresh → i = k

/-- calls of the objects go on -/
def Grows (s s' : St) : Prop :=
  ∀ d j, ((s.objects d).pc j ≠ .idle → (s'.objects d).pc j ≠ .idle) ∧
    (((s.objects d).pc j).Over → (s'.objects d).pc j = (s.objects d).pc j)

theorem step_grows (s : St) (o : Op) : Grows s (step H B s o) := by
  intro d j
  obtain ⟨ops, hops⟩ := step_objects (H := H) (B := B) s o d
  rw [hops]
  exact Credentials.run_grows (s.objects d) ops j

theorem SignedBy.grows {s s' : St} (h : Grows s s') {c : ℕ} {creds : ReadOnlyCredentials} (hs : SignedBy H s c creds) :
    SignedBy H s' c creds := by
  obtain ⟨role, hrole, hsource | ⟨d, j, hsource, hj⟩⟩ := hs
  · exact ⟨role, hrole, .inl hsource⟩
  · have hover : ((s.objects d).pc j).Over := by rw [hj]; exact ⟨by simp, rfl⟩
    exact ⟨role, hrole, .inr ⟨d, j, hsource, ((h d j).2 hover).trans hj⟩⟩

/-- no refresher begins or goes on -/
theorem Phases.keep {s s' : St} (h : Phases H s) (hgrows : Grows s s') (hphase : s'.phase = s.phase)
    (hassumed : s'.assumed = s.assumed) (hcalled : ∀ c, s'.called c = false → s.called c = false) : Phases H s' where
  sourcing c k j hk := by
    obtain ⟨role, d, hrole, hsource, hj⟩ := h.sourcing c k j (hphase ▸ hk)
    exact ⟨role, d, hrole, hsource, (hgrows d j).1 hj⟩
  assumed c k creds hmem := by
    obtain ⟨hk, hs⟩ := h.assumed c k creds (hassumed ▸ hmem)
    exact ⟨by rw [hphase, hk], hs.grows hgrows⟩
  nodup := by
    rw [hassumed]
    exact h.nodup
  unused c role hrole hmfa hc k := by
    rw [hphase]
    exact h.unused c role hrole hmfa (hcalled c hc) k
  once c role hrole hmfa i k hi hk := by
    rw [hphase] at hi hk
    exact h.once c role hrole hmfa i k hi hk

theorem mark_called {c c' : ℕ} (h : (mark s c).called c' = false) : s.called c' = false := by
  by_cases hc : c' = c
  · rw [mark, hc] at h
    simp at h
  · simpa [mark, hc] using h

variable (H) in
/-- a refresher goes on to `p`: it is fresh, or has awaited its source -/
structure Advances (s s' : St) (c k : ℕ) (p : Phase) : Prop where
  phase : s'.phase = (setPhase s c k p).phase
  before : s'.called = (mark s c).called ∧ s.phase c k = .fresh ∧
      (∀ role, (H.object c).role = some role → Allowed s c role) ∨
    s'.called = s.called ∧ ∃ j, s.phase c k = .sourcing j
  sourcing : ∀ j, p = .sourcing j →
    ∃ role d, (H.object c).role = some role ∧ role.source = .object d ∧ (s'.objects d).pc j ≠ .idle
  assumed : s'.assumed = s.assumed ∨ ∃ creds, p = .assuming creds ∧ SignedBy H s c creds ∧
    s'.assumed = s.assumed ++ [(c, k, creds)]

theorem Advances.self {s s' : St} {c k : ℕ} {p : Phase} (a : Advances H s s' c k p) : s'.phase c k = p := by
  rw [a.phase, setPhase_self]

theorem Advances.of_ne {s s' : St} {c k c' k' : ℕ} {p : Phase} (a : Advances H s s' c k p) (hck : ¬ (c' = c ∧ k' = k)) :
    s'.phase c' k' = s.phase c' k' := by
  rw [a.phase, setPhase_of_ne p hck]

/-- nothing is known about STS for this call yet -/
theorem Advances.not_assumed {s s' : St} {c k : ℕ} {p : Phase} (a : Advances H s s' c k p) (h : Phases H s)
    (creds : ReadOnlyCredentials) : (c, k, creds) ∉ s.assumed := by
  intro hmem
  obtain ⟨hk, -⟩ := h.assumed c k creds hmem
  rcases a.before with ⟨-, hfresh, -⟩ | ⟨-, j, hsourcing⟩
  · rw [hfresh] at hk
    cases hk
  · rw [hsourcing] at hk
    cases hk

/-- the other calls of STS -/
theorem Advances.kept {s s' : St} {c k : ℕ} {p : Phase} (a : Advances H s s' c k p) (h : Phases H s) (hgrows : Grows s s')
    {c' k' : ℕ} {creds : ReadOnlyCredentials} (hmem : (c', k', creds) ∈ s.assumed) :
    s'.phase c' k' = .assuming creds ∧ SignedBy H s' c' creds := by
  obtain ⟨hk', hs⟩ := h.assumed c' k' creds hmem
  have hck : ¬ (c' = c ∧ k' = k) := by
    rintro ⟨rfl, rfl⟩
    exact a.not_assumed h creds hmem
  exact ⟨(a.of_ne hck).trans hk', hs.grows hgrows⟩

theorem Advances.nodup {s s' : St} {c k : ℕ} {p : Phase} (a : Advances H s s' c k p) (h : Phases H s) :
    s'.assumed.Nodup := by
  rcases a.assumed with heq | ⟨creds, -, -, heq⟩
  · rw [heq]
    exact h.nodup
  · rw [heq]
    refine List.nodup_append.2 ⟨h.nodup, List.nodup_singleton _, fun e he e' he' heq' => ?_⟩
    rw [List.mem_singleton.1 he'] at heq'
    exact a.not_assumed h creds (heq' ▸ he)

/-- the refresher of this object has been called -/
theorem Advances.called {s s' : St} {c k : ℕ} {p : Phase} (a : Advances H s s' c k p) (h : Phases H s) {c' : ℕ}
    {role : Role} (hrole : (H.object c').role = some role) (hmfa : role.mfaSerial.isSome) (hc' : s'.called c' = false) :
    c' ≠ c ∧ s.called c' = false := by
  rcases a.before with ⟨hcalled, -⟩ | ⟨hcalled, j, hsourcing⟩
  · rw [hcalled] at hc'
    refine ⟨?_, mark_called hc'⟩
    rintro rfl
    simp [mark] at hc'
  · rw [hcalled] at hc'
    refine ⟨?_, hc'⟩
    rintro rfl
    rw [h.unused c' role hrole hmfa hc' k] at hsourcing
    cases hsourcing

/-- with MFA, no other call of the object has begun its refresher -/
theorem Advances.only {s s' : St} {c k : ℕ} {p : Phase} (a : Advances H s s' c k p) (h : Phases H s) {role : Role}
    (hrole : (H.object c).role = some role) (hmfa : role.mfaSerial.isSome) {i : ℕ} (hi : s'.phase c i ≠ .fresh) :
    i = k := by
  by_contra hik
  rw [a.of_ne fun hck => hik hck.2] at hi
  rcases a.before with ⟨-, -, hallowed⟩ | ⟨-, j, hsourcing⟩
  · -- the refresher begins for the first time
    exact hi (h.unused c role hrole hmfa (hallowed role hrole hmfa) i)
  · exact hik (h.once c role hrole hmfa i k hi (by simp [hsourcing]))

theorem Phases.goes {s s' : St} (h : Phases H s) (hgrows : Grows s s') {c k : ℕ} {p : Phase}
    (a : Advances H s s' c k p) : Phases H s' where
  sourcing c' k' j hk' := by
    by_cases hck : c' = c ∧ k' = k
    · obtain ⟨rfl, rfl⟩ := hck
      rw [a.self] at hk'
      exact a.sourcing j hk'
    · rw [a.of_ne hck] at hk'
      obtain ⟨role, d, hrole, hsource, hj⟩ := h.sourcing c' k' j hk'
      exact ⟨role, d, hrole, hsource, (hgrows d j).1 hj⟩
  assumed c' k' creds hmem := by
    rcases a.assumed with heq | ⟨creds', hp', hs, heq⟩
    · exact a.kept h hgrows (heq ▸ hmem)
    · rw [heq] at hmem
      rcases List.mem_append.1 hmem with hmem | hmem
      · exact a.kept h hgrows hmem
      · obtain ⟨rfl, rfl, rfl⟩ : c' = c ∧ k' = k ∧ creds = creds' := by simpa using hmem
        exact ⟨a.self.trans hp', hs.grows hgrows⟩
  nodup := a.nodup h
  unused c' role hrole hmfa hc' k' := by
    obtain ⟨hne, hcalled⟩ := a.called h hrole hmfa hc'
    rw [a.of_ne fun hck => hne hck.1]
    exact h.unused c' role hrole hmfa hcalled k'
  once c' role hrole hmfa i i' hi hi' := by
    by_cases hc : c' = c
    · subst hc
      calc i = k := a.only h hrole hmfa hi
        _ = i' := (a.only h hrole hmfa hi').symm
    · rw [a.of_ne fun hck => hc hck.1] at hi hi'
      exact h.once c' role hrole hmfa i i' hi hi'

theorem step_phases (s : St) (o : Op) (h : Phases H s) : Phases H (step H B s o) := by
  have hgrows := step_grows (H := H) (B := B) s o
  have hmoves := step_moves (H := H) (B := B) s o
  generalize step H B s o = s' at hgrows hmoves
  cases hmoves with
  | none => exact h
  | tick d => exact h.keep hgrows rfl rfl fun _ => id
  | plain hc o' => exact h.keep hgrows rfl rfl fun _ => id
  | raises text => exact h.keep hgrows rfl rfl fun _ => mark_called
  | loads => exact h.keep hgrows rfl rfl fun _ => mark_called
  | @sources c k j d role hphase hrole hsource hj hallowed =>
    refine h.goes hgrows ⟨rfl, .inl ⟨rfl, hphase, fun role' hrole' => ?_⟩, fun j' hj' => ?_, .inl rfl⟩
    · obtain rfl := Option.some.inj (hrole.symm.trans hrole')
      exact hallowed
    · obtain rfl := Phase.sourcing.inj hj'
      refine ⟨role, d, hrole, hsource, ?_⟩
      change (update (mark s c).objects d _ d).pc j ≠ .idle
      rw [update_self]
      exact Credentials.call_not_idle hj
  | @starts c k j role creds hphase hrole hsource hallowed =>
    refine h.goes hgrows ⟨rfl, .inl ⟨rfl, hphase, fun role' hrole' => ?_⟩, fun j' hj' => (by cases hj'),
      .inr ⟨creds, rfl, ⟨role, hrole, .inl hsource⟩, rfl⟩⟩
    obtain rfl := Option.some.inj (hrole.symm.trans hrole')
    exact hallowed
  | @continues c k j d role creds hphase hrole hsource hj =>
    exact h.goes hgrows ⟨rfl, .inr ⟨rfl, j, hphase⟩, fun j' hj' => (by cases hj'),
      .inr ⟨creds, rfl, ⟨role, hrole, .inr ⟨d, j, hsource, hj⟩⟩, rfl⟩⟩
  | answers r => exact h.keep hgrows rfl rfl fun _ => id

theorem Given.mono {s s' : St} {cache : String → Option Response} {key : String} {r : Response}
    (h : Given H cache s key r) (hanswers : s.answers ⊆ s'.answers) : Given H cache s' key r := by
  rcases h with h | ⟨c, role, hmem, hrole⟩
  · exact .inl h
  · exact .inr ⟨c, role, hanswers hmem, hrole⟩

variable {t0 : ℤ} {cache : String → Option Response}

/-- dicts of roles are those of responses -/
theorem Data.keep {s s' : St} (h : Data H B t0 cache s)
    (hobject : ∀ c, ∃ ops, s'.objects c = run (Credentials.step B (H.object c).cfg) (s.objects c) ops)
    (hcached : ∀ key r, s'.cache key = some r → Given H cache s' key r) (hanswers : s.answers ⊆ s'.answers)
    (hresults : ∀ c role, (H.object c).role = some role → ∀ m ∈ (s'.objects c).results,
      m ∈ (s.objects c).results ∨ ∃ r, m = metadata H r ∧ Given H cache s' role.cacheKey r) : Data H B t0 cache s' where
  object c := by
    obtain ⟨before, hbefore⟩ := h.object c
    obtain ⟨ops, hops⟩ := hobject c
    exact ⟨before ++ ops, by rw [hops, hbefore, Credentials.exec, Credentials.exec, run_append]⟩
  cached := hcached
  results c role hrole m hm := by
    rcases hresults c role hrole m hm with hm | hm
    · obtain ⟨r, hr, hgiven⟩ := h.results c role hrole m hm
      exact ⟨r, hr, hgiven.mono hanswers⟩
    · exact hm

/-- a dict of an object after an operation of another or of itself -/
theorem act_results {s t : St} (ht : t.objects = s.objects) {c c' : ℕ} {o' : Credentials.Op} {m : Metadata}
    (hm : m ∈ ((act H B t c' o').objects c).results) :
    m ∈ (s.objects c).results ∨ c = c' ∧ ∃ k, o' = .finish k (.returns m) := by
  rw [act_objects, ht] at hm
  by_cases hc : c = c'
  · subst hc
    rw [update_self] at hm
    rcases Credentials.step_results hm with hm | hm
    · exact .inl hm
    · exact .inr ⟨rfl, hm⟩
  · rw [update_of_ne hc] at hm
    exact .inl hm

theorem step_data (s : St) (o : Op) (h : Data H B t0 cache s) : Data H B t0 cache (step H B s o) := by
  have hobject := step_objects (H := H) (B := B) s o
  have hmoves := step_moves (H := H) (B := B) s o
  generalize step H B s o = s' at hobject hmoves
  cases hmoves with
  | none => exact h
  | tick d =>
    refine h.keep hobject h.cached (List.Subset.refl _) fun c role _ m hm => .inl ?_
    rcases Credentials.step_results hm with hm | ⟨k, hk⟩
    · exact hm
    · cases hk
  | @plain o c hc o' ho =>
    refine h.keep hobject h.cached (List.Subset.refl _) fun c' role hrole m hm => ?_
    rcases act_results rfl hm with hm | ⟨rfl, k, hk⟩
    · exact .inl hm
    · rw [ho k m hk] at hrole
      cases hrole
  | raises text =>
    refine h.keep hobject h.cached (List.Subset.refl _) fun c' role hrole m hm => ?_
    rcases act_results (s := s) rfl hm with hm | ⟨rfl, k, hk⟩
    · exact .inl hm
    · cases hk
  | @loads c k j role r hrole hload =>
    refine h.keep hobject h.cached (List.Subset.refl _) fun c' role' hrole' m hm => ?_
    rcases act_results (s := s) rfl hm with hm | ⟨rfl, k', hk⟩
    · exact .inl hm
    · obtain rfl := Option.some.inj (hrole.symm.trans hrole')
      obtain ⟨-, hreturns⟩ := Credentials.Op.finish.inj hk
      exact .inr ⟨r, (Outcome.returns.inj hreturns).symm, h.cached _ _ hload⟩
  | @sources c k j d =>
    refine h.keep hobject h.cached (List.Subset.refl _) fun c' role' hrole' m hm => ?_
    rcases act_results (s := s) (t := mark s c) rfl hm with hm | ⟨rfl, k', hk⟩
    · exact .inl hm
    · cases hk
  | starts => exact h.keep hobject h.cached (List.Subset.refl _) fun c' role' hrole' m hm => .inl hm
  | continues => exact h.keep hobject h.cached (List.Subset.refl _) fun c' role' hrole' m hm => .inl hm
  | @answers c k role r hrole =>
    have hanswers : s.answers ⊆ s.answers ++ [(c, r)] := List.subset_append_left _ _
    have hgiven : ∀ {s' : St}, s'.answers = s.answers ++ [(c, r)] → Given H cache s' role.cacheKey r := by
      intro s' hs'
      exact .inr ⟨c, role, by rw [hs']; exact List.mem_append_right _ (List.mem_singleton.2 rfl), hrole, rfl⟩
    refine h.keep hobject (fun key r' hr' => ?_) hanswers fun c' role' hrole' m hm => ?_
    · by_cases hkey : key = role.cacheKey
      · subst hkey
        obtain rfl : r = r' := by simpa [act] using hr'
        exact hgiven rfl
      · exact (h.cached key r' (by simpa [act, hkey] using hr')).mono hanswers
    · rcases act_results (s := s) rfl hm with hm | ⟨rfl, k', hk⟩
      · exact .inl hm
      · obtain rfl := Option.some.inj (hrole.symm.trans hrole')
        obtain ⟨-, hreturns⟩ := Credentials.Op.finish.inj hk
        exact .inr ⟨r, (Outcome.returns.inj hreturns).symm, hgiven rfl⟩

theorem init_data (t0 : ℤ) (cache : String → Option Response) : Data H B t0 cache (init H t0 cache) :=
  ⟨fun c => ⟨[], rfl⟩, fun key r hr => .inl hr, fun c role _ m hm => by simp [init, Credentials.init] at hm⟩

theorem init_phases (t0 : ℤ) (cache : String → Option Response) : Phases H (init H t0 cache) :=
  ⟨fun c k j hk => by simp [init] at hk, fun c k creds hmem => by simp [init] at hmem, List.nodup_nil,
    fun _ _ _ _ _ _ => rfl, fun _ _ _ _ i k hi => absurd rfl hi⟩

variable (H B) in
structure Inv (t0 : ℤ) (cache : String → Option Response) (s : St) : Prop where
  data : Data H B t0 cache s
  phases : Phases H s

theorem step_inv (s : St) (o : Op) (h : Inv H B t0 cache s) : Inv H B t0 cache (step H B s o) :=
  ⟨step_data s o h.data, step_phases s o h.phases⟩

theorem init_inv (t0 : ℤ) (cache : String → Option Response) : Inv H B t0 cache (init H t0 cache) :=
  ⟨init_data t0 cache, init_phases t0 cache⟩

theorem Inv.object (h : Inv H B t0 cache s) (c : ℕ) : Credentials.Inv B (H.object c).cfg (s.objects c) := by
  obtain ⟨ops, hops⟩ := h.data.object c
  rw [hops]
  exact Credentials.run_inv B (H.object c).cfg t0 ops

theorem Inv.calls (h : Inv H B t0 cache s) (c : ℕ) : Credentials.Calls (s.objects c) := by
  obtain ⟨ops, hops⟩ := h.data.object c
  rw [hops]
  exact Async.run_inv Credentials.step_calls (Credentials.init_calls (H.object c).cfg t0) ops

/-- what an object of the chain returns for a role comes from one response -/
theorem Inv.returned (h : Inv H B t0 cache s) {d j : ℕ} {role : Role} (hrole : (H.object d).role = some role)
    {creds : ReadOnlyCredentials} (hj : (s.objects d).pc j = .returned (some creds)) :
    ∃ r, creds = r.credentials ∧ Given H cache s role.cacheKey r := by
  obtain ⟨ret, hret, hvalue⟩ := (h.calls d).returned j _ hj
  obtain ⟨hsingle, hreceived, -⟩ := (h.object d).data.rets ret hret
  cases horigin : ret.origin with
  | none =>
    rw [horigin, hvalue] at hsingle
    simp [Credentials.valueOf, H.deferred d role hrole, Credentials.Ctor.attrs] at hsingle
  | some m =>
    obtain ⟨r, rfl, hgiven⟩ := h.data.results d role hrole m (hreceived m horigin)
    rw [horigin, hvalue] at hsingle
    exact ⟨r, Option.some.inj hsingle, hgiven⟩

/-- **What signs the calls of STS.** In any interleaving of any number of calls on the objects of a chain of roles, with any
answers, failures and cancellations:
- an object refreshes at most once at a time;
- each call of STS is signed with the static source of the role, or with what `get_frozen_credentials` of its source has
  returned; if that is a role itself, these are the credentials of a single response for it;
- the dicts that the object of a role gets are those of responses for roles with its cache key;
- a role with MFA is assumed once: there is no second call of STS for it. -/
theorem role_chain_signed (H : Chain) (B : Base) (t0 : ℤ) (cache : String → Option Response) (ops : List Op) :
    let s := run (step H B) (init H t0 cache) ops
    (∀ c i j, Credentials.InFlight (s.objects c) i → Credentials.InFlight (s.objects c) j → i = j) ∧
      (∀ c k creds, (c, k, creds) ∈ s.assumed → ∃ role, (H.object c).role = some role ∧
        (role.source = .static creds ∨ ∃ d, role.source = .object d ∧
          (∃ r ∈ (s.objects d).rets, r.value = some creds) ∧
          ∀ role', (H.object d).role = some role' → ∃ r, creds = r.credentials ∧ Given H cache s role'.cacheKey r)) ∧
      (∀ c role, (H.object c).role = some role → ∀ m ∈ (s.objects c).results,
        ∃ r, m = metadata H r ∧ Given H cache s role.cacheKey r) ∧
      s.assumed.Nodup ∧ ∀ c role, (H.object c).role = some role → role.mfaSerial.isSome →
        ∀ e ∈ s.assumed, ∀ e' ∈ s.assumed, e.1 = c → e'.1 = c → e = e' := by
  intro s
  have h : Inv H B t0 cache s := Async.run_inv step_inv (init_inv t0 cache) ops
  refine ⟨fun c i j hi hj => Credentials.in_flight_unique (h.object c) hi hj, fun c k creds hmem => ?_, h.data.results,
    h.phases.nodup, ?_⟩
  · obtain ⟨-, role, hrole, hsource | ⟨d, j, hsource, hj⟩⟩ := h.phases.assumed c k creds hmem
    · exact ⟨role, hrole, .inl hsource⟩
    · exact ⟨role, hrole, .inr ⟨d, hsource, (h.calls d).returned j _ hj, fun role' hrole' => h.returned hrole' hj⟩⟩
  · rintro c role hrole hmfa ⟨c1, i, creds⟩ he ⟨c2, j, creds'⟩ he' rfl rfl
    obtain ⟨hi, -⟩ := h.phases.assumed _ i creds he
    obtain ⟨hj, -⟩ := h.phases.assumed _ j creds' he'
    obtain rfl := h.phases.once _ role hrole hmfa i j (by rw [hi]; simp) (by rw [hj]; simp)
    rw [hi] at hj
    obtain rfl := Phase.assuming.inj hj
    rfl

/-! ## An instance -/

def developer : ReadOnlyCredentials := ⟨some "AKIA", some "SECRET", none, none⟩

/-- a role for a developer, and one with MFA behind it -/
def twoRoles : Chain where
  object c :=
    match c with
    | 0 => ⟨Credentials.withDefaults .deferred, some ⟨.static developer, "build", none⟩⟩
    | 1 => ⟨Credentials.withDefaults .deferred, some ⟨.object 0, "deploy", some "mfa"⟩⟩
    | _ => ⟨Credentials.withDefaults .deferred, none⟩
  expiryWindow := 900 * 1000000
  serializeIfNeeded t := if t = 0 then "now" else "later"
  order c role d hrole hsource := by
    match c with
    | 0 => cases hrole; cases hsource
    | 1 => cases hrole; cases hsource; decide
    | n + 2 => cases hrole
  deferred c role hrole := by
    match c with
    | 0 => rfl
    | 1 => rfl
    | n + 2 => cases hrole

def inAnHour : Base := Credentials.botocore fun v => if v = some "later" then some 3600000000 else none

def session (name : String) : Response := ⟨name, "SECRET", "TOKEN", 3600000000, none⟩

/-- the role with MFA sources the other one, each gets its response, and the first response signs the second call -/
example :
    let s := run (step twoRoles inAnHour) (init twoRoles 0 fun _ => none)
      [.call 1 0, .refresh 1 0 7, .refresh 0 7 0, .answer 0 7 (session "BUILD"), .proceed 1 0, .answer 1 0 (session "DEPLOY")]
    (s.objects 1).pc 0 = .returned (some (session "DEPLOY").credentials) ∧
      s.assumed = [(0, 7, developer), (1, 0, (session "BUILD").credentials)] := by decide

end AioBotocore.RoleChain
