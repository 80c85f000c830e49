/-
`AioAssumeRoleProvider` of `credentials.py`: the chain of profiles that `load` follows from its own profile, each
sourcing the next, up to static credentials, a profile with credentials of its own, or a `credential_source`. The
profiles visited and the configuration are attributes of the provider, which all calls of `load` share.

A call suspends only where credentials at the end of the chain are loaded, so that everything up to there is one step;
the roles that remain to be assumed are kept on the way. `_get_role_config` and what it calls are those of botocore.

- `Follows`: the chain a configuration describes, without any list of visited profiles; `Loops`: it comes back to a
  profile.
- `loadCreds_outcome`: the chain is followed to its end, each profile once, and a loop is found exactly where there is
  one.
- `assume_role_loads`: the same of every call, whatever other calls run on the provider.
-/
import Mathlib.Tactic
import AioBotocore.Async.Run

namespace AioBotocore.AssumeRole

open Async Function

/-! ## Configuration -/

structure Profile where
  roleArn : Option String
  webIdentityTokenFile : Option String
  sourceProfile : Option String
  credentialSource : Option String
  accessKeyId : Option String
  secretAccessKey : Option String
  sessionToken : Option String
  roleSessionName : Option String
  externalId : Option String
  mfaSerial : Option String
  durationSeconds : Option ℤ
deriving DecidableEq, Repr

/-- `_loaded_config['profiles']` -/
abbrev Profiles := List (String × Profile)

def hasAssumeRoleConfigVars (p : Profile) : Bool := p.roleArn.isSome && p.webIdentityTokenFile.isNone

def hasStaticCredentials (p : Profile) : Bool := p.secretAccessKey.isSome || p.accessKeyId.isSome

/-- where the credentials come from with which a role is assumed -/
inductive Source where
  | credentialSource (name : String)
  | sourceProfile (name : String)
deriving DecidableEq, Repr

structure RoleConfig where
  roleArn : String
  source : Source
  roleSessionName : Option String
  externalId : Option String
  mfaSerial : Option String
  durationSeconds : Option ℤ
deriving DecidableEq, Repr

inductive Error where
  | infiniteLoop (sourceProfile : String) (visitedProfiles : List String)
  | keyError (key : String)
  | attributeError (text : String)
  /-- both `source_profile` and `credential_source` -/
  | twoSources (profile : String)
  | partialCredentials (credVar : String)
  | invalidCredentialSource (profile credentialSource : String)
  | noSuchProfile (profile sourceProfile : String)
  | invalidConfig (errorMsg : String)
  | credentialRetrieval (provider errorMsg : String)
  /-- an exception of whatever loads the credentials at the end of the chain -/
  | other (text : String)
deriving DecidableEq, Repr

structure Provider where
  profileName : String
  /-- what the credential sourcer supports, if there is one -/
  credentialSourcer : Option (String → Bool)
  hasProfileProviderBuilder : Bool

/-- the attributes of the provider that its calls share -/
structure Attrs where
  visitedProfiles : List String
  loadedConfig : Profiles
deriving DecidableEq, Repr

def visit (a : Attrs) (profileName : String) : Attrs := { a with visitedProfiles := a.visitedProfiles ++ [profileName] }

/-- `_validate_source_profile` -/
def validateSourceProfile (a : Attrs) (parent source : String) : Except Error Unit :=
  match a.loadedConfig.lookup source with
  | none => .error (.noSuchProfile parent source)
  | some profile =>
    if source ∉ a.visitedProfiles then .ok ()
    else if source ≠ parent then .error (.infiniteLoop source a.visitedProfiles)
    else if !hasStaticCredentials profile then .error (.infiniteLoop source a.visitedProfiles)
    else .ok ()

/-- `_validate_credential_source` -/
def validateCredentialSource (P : Provider) (parent name : String) : Except Error Unit :=
  match P.credentialSourcer with
  | none => .error (.invalidCredentialSource parent name)
  | some isSupported => if isSupported name then .ok () else .error (.invalidCredentialSource parent name)

/-- `_get_role_config` -/
def getRoleConfig (P : Provider) (a : Attrs) (profileName : String) : Except Error RoleConfig :=
  match a.loadedConfig.lookup profileName with
  | none => .error (.keyError profileName)
  | some p =>
    match p.roleArn with
    | none => .error (.keyError "role_arn")
    | some arn =>
      match p.credentialSource, p.sourceProfile with
      | some _, some _ => .error (.twoSources profileName)
      | none, none => .error (.partialCredentials "source_profile or credential_source")
      | some name, none =>
        match validateCredentialSource P profileName name with
        | .error e => .error e
        | .ok () =>
          .ok ⟨arn, .credentialSource name, p.roleSessionName, p.externalId, p.mfaSerial, p.durationSeconds⟩
      | none, some source =>
        match validateSourceProfile a profileName source with
        | .error e => .error e
        | .ok () => .ok ⟨arn, .sourceProfile source, p.roleSessionName, p.externalId, p.mfaSerial, p.durationSeconds⟩

/-! ## `load` -/

inductive Credentials where
  | static (accessKey secretKey : String) (token : Option String)
  /-- what a chain of profile providers or a credential source gave -/
  | loaded (id : ℕ)
  /-- deferred credentials that assume the role with the given ones -/
  | assumed (role : RoleConfig) (source : Credentials)
deriving DecidableEq, Repr

/-- what is awaited at the end of the chain -/
inductive Leaf where
  /-- the providers of a profile -/
  | profileChain (profileName : String)
  | credentialSource (name profileName : String)
deriving DecidableEq, Repr

inductive Result where
  /-- the profile assumes no role -/
  | none
  | returns (c : Credentials)
  | raises (e : Error)
  /-- `roles` are assumed once the credentials are there, the last profile's first -/
  | awaits (leaf : Leaf) (roles : List RoleConfig)
  | outOfFuel
deriving DecidableEq, Repr

def assumeRoles (roles : List RoleConfig) (c : Credentials) : Credentials := roles.foldl (fun c role => .assumed role c) c

/-- `_resolve_static_credentials_from_profile` -/
def staticCredentials (p : Profile) : Except Error Credentials :=
  match p.accessKeyId, p.secretAccessKey with
  | some accessKey, some secretKey => .ok (.static accessKey secretKey p.sessionToken)
  -- `str` of a `KeyError` is the `repr` of the key
  | none, _ => .error (.partialCredentials "'aws_access_key_id'")
  | some _, none => .error (.partialCredentials "'aws_secret_access_key'")

/-- `_load_creds_via_assume_role`, up to a suspension -/
def loadCreds (P : Provider) : ℕ → Attrs → String → List RoleConfig → Result × Attrs
  | 0, a, _, _ => (.outOfFuel, a)
  | fuel + 1, a, profileName, roles =>
    match getRoleConfig P a profileName with
    | .error e => (.raises e, a)
    | .ok role =>
      match role.source with
      | .credentialSource name => (.awaits (.credentialSource name profileName) (role :: roles), a)
      | .sourceProfile source =>
        let a := visit a source
        match a.loadedConfig.lookup source with
        | none => (.raises (.keyError source), a)
        | some profile =>
          if hasStaticCredentials profile && !P.hasProfileProviderBuilder then
            match staticCredentials profile with
            | .error e => (.raises e, a)
            | .ok c => (.returns (assumeRoles (role :: roles) c), a)
          else if hasStaticCredentials profile || !hasAssumeRoleConfigVars profile then
            if P.hasProfileProviderBuilder then (.awaits (.profileChain source) (role :: roles), a)
            else (.raises (.attributeError "'NoneType' object has no attribute 'providers'"), a)
          else loadCreds P fuel a source (role :: roles)

/-- `load`, up to a suspension, of a provider whose attributes another call may have left in any state -/
def load (P : Provider) (a : Attrs) (cfg : Profiles) : Result × Attrs :=
  let a := { a with visitedProfiles := [P.profileName] }
  let a := { a with loadedConfig := cfg }
  match a.loadedConfig.lookup P.profileName with
  | none => (.none, a)
  | some profile =>
    if hasAssumeRoleConfigVars profile then loadCreds P (cfg.length + 1) a P.profileName [] else (.none, a)

/-- the rest of `load` once the credentials at the end of the chain are there, or are not -/
def resume (leaf : Leaf) (roles : List RoleConfig) (c : Option Credentials) : Result :=
  match c, leaf with
  | some c, _ => .returns (assumeRoles roles c)
  | none, .profileChain profileName =>
    .raises (.invalidConfig ("The source profile \"" ++ profileName ++ "\" must have credentials."))
  | none, .credentialSource name profileName =>
    .raises (.credentialRetrieval name
      ("No credentials found in credential_source referenced in profile " ++ profileName))

/-! ## Calls on one provider -/

/-- a call of `load`: the configuration it read, how it got on up to its suspension, and the profiles visited there -/
structure Call where
  cfg : Profiles
  result : Result
  visited : List String
deriving DecidableEq, Repr

inductive Pc where
  | idle
  /-- call `n` is suspended -/
  | suspended (n : ℕ) (leaf : Leaf) (roles : List RoleConfig)
deriving DecidableEq, Repr

structure St where
  attrs : Attrs
  pc : ℕ → Pc
  calls : List Call
  /-- the calls that ended, and how -/
  ends : List (ℕ × Result)

inductive Op where
  /-- task `k` calls `load`, which reads the configuration -/
  | load (k : ℕ) (cfg : Profiles)
  /-- the credentials task `k` awaits are there, or are not -/
  | loaded (k : ℕ) (c : Option Credentials)
  /-- what task `k` awaits raises, or the task is cancelled -/
  | fails (k : ℕ) (text : String)
deriving Repr

def init (P : Provider) : St := ⟨⟨[P.profileName], []⟩, fun _ => .idle, [], []⟩

def step (P : Provider) (s : St) : Op → St
  | .load k cfg =>
    match s.pc k with
    | .idle =>
      let out := load P s.attrs cfg
      let t : St := { s with attrs := out.2, calls := s.calls ++ [⟨cfg, out.1, out.2.visitedProfiles⟩] }
      match out.1 with
      | .awaits leaf roles => { t with pc := update t.pc k (.suspended s.calls.length leaf roles) }
      | r => { t with ends := t.ends ++ [(s.calls.length, r)] }
    | .suspended _ _ _ => s
  | .loaded k c =>
    match s.pc k with
    | .suspended n leaf roles => { s with pc := update s.pc k .idle, ends := s.ends ++ [(n, resume leaf roles c)] }
    | .idle => s
  | .fails k text =>
    match s.pc k with
    | .suspended n _ _ => { s with pc := update s.pc k .idle, ends := s.ends ++ [(n, .raises (.other text))] }
    | .idle => s

/-! ## The chain that a configuration describes -/

/-- the profile that another one sources, when it assumes a role with the credentials of a profile -/
def sourceOf (cfg : Profiles) (profileName : String) : Option String :=
  (cfg.lookup profileName).bind fun p =>
    if hasAssumeRoleConfigVars p && p.credentialSource.isNone then p.sourceProfile else none

def Static (cfg : Profiles) (profileName : String) : Prop :=
  ∃ p, cfg.lookup profileName = some p ∧ hasStaticCredentials p = true

/-- `q` is the profile after `n` sources; past the first, a profile with static credentials ends the chain -/
inductive Follows (cfg : Profiles) (start : String) : ℕ → String → Prop
  | start : Follows cfg start 0 start
  | next {n p q} (h : Follows cfg start n p) (hp : n ≠ 0 → ¬ Static cfg p) (hq : sourceOf cfg p = some q) :
      Follows cfg start (n + 1) q

/-- the chain returns to one of its profiles, other than by a profile with static credentials that sources itself -/
def Loops (cfg : Profiles) (start : String) : Prop :=
  ∃ m n p, m < n ∧ Follows cfg start m p ∧ Follows cfg start n p ∧ ¬ (n = m + 1 ∧ Static cfg p)

variable {cfg : Profiles} {start : String}

theorem Follows.unique {n : ℕ} {p q : String} (hp : Follows cfg start n p) (hq : Follows cfg start n q) : p = q := by
  induction hp generalizing q with
  | start =>
    cases hq
    rfl
  | next _ _ hsource ih =>
    cases hq with
    | next hq' _ hsource' =>
      obtain rfl := ih hq'
      rw [hsource] at hsource'
      exact Option.some.inj hsource'

theorem Follows.stops {N : ℕ} (hstop : ∀ q, ¬ Follows cfg start (N + 1) q) {n : ℕ} {p : String}
    (h : Follows cfg start n p) : n ≤ N := by
  by_contra hlt
  obtain ⟨d, rfl⟩ : ∃ d, n = N + 1 + d := ⟨n - (N + 1), by omega⟩
  clear hlt
  induction d generalizing p with
  | zero => exact hstop p h
  | succ d ih =>
    cases h with
    | next h _ _ => exact ih h

/-- a list of the profiles of the chain, up to the one after `n` sources -/
structure Trail (cfg : Profiles) (start : String) (visited : List String) (n : ℕ) : Prop where
  length : visited.length = n + 1
  follows : ∀ i p, visited[i]? = some p → Follows cfg start i p

theorem Trail.getElem? {visited : List String} {n : ℕ} (h : Trail cfg start visited n) {i : ℕ} (hi : i ≤ n) {p : String}
    (hp : Follows cfg start i p) : visited[i]? = some p := by
  have hlt : i < visited.length := by rw [h.length]; omega
  have hq := h.follows i visited[i] (List.getElem?_eq_getElem hlt)
  rw [List.getElem?_eq_getElem hlt, hq.unique hp]

theorem Trail.snoc {visited : List String} {n : ℕ} (h : Trail cfg start visited n) {q : String}
    (hq : Follows cfg start (n + 1) q) : Trail cfg start (visited ++ [q]) (n + 1) := by
  refine ⟨by rw [List.length_append, h.length]; rfl, fun i p hi => ?_⟩
  rcases Nat.lt_trichotomy i (n + 1) with hlt | rfl | hgt
  · rw [List.getElem?_append_left (by rw [h.length]; exact hlt)] at hi
    exact h.follows i p hi
  · rw [← h.length, List.getElem?_concat_length] at hi
    rwa [← Option.some.inj hi]
  · rw [List.getElem?_eq_none (by rw [List.length_append, h.length, List.length_singleton]; omega)] at hi
    cases hi

/-- each profile once, or one that sources itself and has static credentials -/
def Once (cfg : Profiles) (start : String) (visited : List String) : Prop :=
  visited.Nodup ∨ visited = [start, start] ∧ Static cfg start

/-- a chain that ends has no loop -/
theorem Trail.not_loops {visited : List String} {N : ℕ} (h : Trail cfg start visited N)
    (hstop : ∀ q, ¬ Follows cfg start (N + 1) q) (honce : Once cfg start visited) : ¬ Loops cfg start := by
  rintro ⟨m, n, p, hmn, hm, hn, hnot⟩
  have hle := Follows.stops hstop hn
  have hm' := h.getElem? (by omega) hm
  have hn' := h.getElem? hle hn
  rcases honce with hnodup | ⟨rfl, hstatic⟩
  · have hlt : m < visited.length := (List.getElem?_eq_some_iff.1 hm').1
    have heq := (List.getElem?_inj hlt hnodup).1 (hm'.trans hn'.symm)
    omega
  · have hN := h.length
    simp only [List.length_cons, List.length_nil] at hN
    obtain rfl : m = 0 := by omega
    obtain rfl : n = 1 := by omega
    obtain rfl : start = p := by simpa using hm'
    exact hnot ⟨rfl, hstatic⟩

/-! ## What the provider checks -/

theorem validateSourceProfile_some {a : Attrs} {q : String} {profile : Profile}
    (hq : a.loadedConfig.lookup q = some profile) (p : String) :
    validateSourceProfile a p q =
      if q ∈ a.visitedProfiles ∧ ¬ (q = p ∧ hasStaticCredentials profile = true) then
        .error (.infiniteLoop q a.visitedProfiles)
      else .ok () := by
  unfold validateSourceProfile
  rw [hq]
  simp only
  by_cases hvisited : q ∈ a.visitedProfiles
  · rw [if_neg (not_not.2 hvisited)]
    by_cases hself : q = p
    · rw [if_neg (not_not.2 hself)]
      cases hstatic : hasStaticCredentials profile with
      | false => simp [hvisited]
      | true => simp [hself]
    · rw [if_pos hself, if_pos ⟨hvisited, fun h => hself h.1⟩]
  · rw [if_pos hvisited, if_neg fun h => hvisited h.1]

theorem validateSourceProfile_ok {a : Attrs} {p q : String} (h : validateSourceProfile a p q = .ok ()) :
    ∃ profile, a.loadedConfig.lookup q = some profile ∧
      (q ∉ a.visitedProfiles ∨ q = p ∧ hasStaticCredentials profile = true) := by
  cases hq : a.loadedConfig.lookup q with
  | none => simp [validateSourceProfile, hq] at h
  | some profile =>
    rw [validateSourceProfile_some hq] at h
    refine ⟨profile, rfl, ?_⟩
    by_contra hno
    rw [not_or, not_not] at hno
    rw [if_pos hno] at h
    cases h

theorem validateSourceProfile_error {a : Attrs} {p q : String} {e : Error} (h : validateSourceProfile a p q = .error e) :
    (a.loadedConfig.lookup q = none ∧ ∀ source visited, e ≠ .infiniteLoop source visited) ∨
      (e = .infiniteLoop q a.visitedProfiles ∧ q ∈ a.visitedProfiles ∧ ¬ (q = p ∧ Static a.loadedConfig q)) := by
  cases hq : a.loadedConfig.lookup q with
  | none =>
    left
    simp only [validateSourceProfile, hq, Except.error.injEq] at h
    subst h
    exact ⟨rfl, by simp⟩
  | some profile =>
    right
    rw [validateSourceProfile_some hq] at h
    by_cases hloop : q ∈ a.visitedProfiles ∧ ¬ (q = p ∧ hasStaticCredentials profile = true)
    · rw [if_pos hloop] at h
      refine ⟨(Except.error.inj h).symm, hloop.1, fun ⟨hself, profile', hq', hstatic⟩ => hloop.2 ⟨hself, ?_⟩⟩
      rw [hq] at hq'
      rwa [Option.some.inj hq']
    · rw [if_neg hloop] at h
      cases h

/-- a role configuration is found, and where it sends the provider -/
theorem getRoleConfig_ok {P : Provider} {a : Attrs} {p : String} {profile : Profile} {role : RoleConfig}
    (hp : a.loadedConfig.lookup p = some profile) (hassume : hasAssumeRoleConfigVars profile = true)
    (h : getRoleConfig P a p = .ok role) :
    (∃ name, role.source = .credentialSource name ∧ sourceOf a.loadedConfig p = none) ∨
      ∃ q, role.source = .sourceProfile q ∧ sourceOf a.loadedConfig p = some q ∧ validateSourceProfile a p q = .ok () := by
  unfold getRoleConfig at h
  rw [hp] at h
  simp only at h
  cases harn : profile.roleArn with
  | none => simp [harn] at h
  | some arn =>
    simp only [harn] at h
    cases hc : profile.credentialSource with
    | some name =>
      left
      cases hs : profile.sourceProfile with
      | some q => simp [hc, hs] at h
      | none =>
        simp only [hc, hs] at h
        cases hv : validateCredentialSource P p name with
        | error e => simp [hv] at h
        | ok u =>
          simp only [hv, Except.ok.injEq] at h
          subst h
          exact ⟨name, rfl, by simp [sourceOf, hp, hc]⟩
    | none =>
      right
      cases hs : profile.sourceProfile with
      | none => simp [hc, hs] at h
      | some q =>
        simp only [hc, hs] at h
        cases hv : validateSourceProfile a p q with
        | error e => simp [hv] at h
        | ok u =>
          simp only [hv, Except.ok.injEq] at h
          subst h
          exact ⟨q, rfl, by simp [sourceOf, hp, hassume, hc, hs], hv⟩

/-- why there is none: the profile sources no other one, or the one it sources is not accepted -/
theorem getRoleConfig_error {P : Provider} {a : Attrs} {p : String} {profile : Profile} {e : Error}
    (hp : a.loadedConfig.lookup p = some profile) (hassume : hasAssumeRoleConfigVars profile = true)
    (h : getRoleConfig P a p = .error e) :
    (sourceOf a.loadedConfig p = none ∧ ∀ source visited, e ≠ .infiniteLoop source visited) ∨
      ∃ q, sourceOf a.loadedConfig p = some q ∧ validateSourceProfile a p q = .error e := by
  unfold getRoleConfig at h
  rw [hp] at h
  simp only at h
  cases harn : profile.roleArn with
  | none => simp [hasAssumeRoleConfigVars, harn] at hassume
  | some arn =>
    simp only [harn] at h
    cases hc : profile.credentialSource with
    | some name =>
      left
      refine ⟨by simp [sourceOf, hp, hc], fun source visited heq => ?_⟩
      subst heq
      cases hs : profile.sourceProfile with
      | some q => simp [hc, hs] at h
      | none =>
        simp only [hc, hs, validateCredentialSource] at h
        cases hsourcer : P.credentialSourcer with
        | none => simp [hsourcer] at h
        | some isSupported =>
          by_cases hok : isSupported name = true
          · simp [hsourcer, hok] at h
          · simp [hsourcer, hok] at h
    | none =>
      cases hs : profile.sourceProfile with
      | none =>
        left
        simp only [hc, hs, Except.error.injEq] at h
        subst h
        exact ⟨by simp [sourceOf, hp, hs], by simp⟩
      | some q =>
        right
        simp only [hc, hs] at h
        refine ⟨q, by simp [sourceOf, hp, hassume, hc, hs], ?_⟩
        cases hv : validateSourceProfile a p q with
        | error e' =>
          simp only [hv, Except.error.injEq] at h
          rw [h]
        | ok u => simp [hv] at h

/-! ## The outcome of `load` -/

structure Outcome (cfg : Profiles) (start : String) (r : Result) (visited : List String) : Prop where
  terminates : r ≠ .outOfFuel
  once : Once cfg start visited
  loops : (∃ source vis, r = .raises (.infiniteLoop source vis)) ↔ Loops cfg start

theorem staticCredentials_error {p : Profile} {e : Error} (h : staticCredentials p = .error e) (source : String)
    (visited : List String) : e ≠ .infiniteLoop source visited := by
  rintro rfl
  unfold staticCredentials at h
  split at h <;> simp at h

theorem sourceOf_some {p q : String} (h : sourceOf cfg p = some q) :
    ∃ profile, cfg.lookup p = some profile ∧ hasAssumeRoleConfigVars profile = true := by
  cases hp : cfg.lookup p with
  | none => simp [sourceOf, hp] at h
  | some profile =>
    refine ⟨profile, rfl, ?_⟩
    by_contra hnot
    simp [sourceOf, hp, hnot] at h

/-- the chain does not go on from a profile that sources none -/
theorem Follows.stop_none {n : ℕ} {p : String} (hp : Follows cfg start n p) (h : sourceOf cfg p = none) (q : String) :
    ¬ Follows cfg start (n + 1) q := by
  intro hq
  cases hq with
  | next hp' _ hsource =>
    rw [hp'.unique hp, h] at hsource
    cases hsource

/-- the chain does not go on from a profile with credentials of its own -/
theorem Follows.stop_leaf {n : ℕ} {p : String} (hp : Follows cfg start (n + 1) p) {profile : Profile}
    (hprofile : cfg.lookup p = some profile)
    (hleaf : hasStaticCredentials profile = true ∨ hasAssumeRoleConfigVars profile = false) (q : String) :
    ¬ Follows cfg start (n + 2) q := by
  intro hq
  cases hq with
  | next hp' hstatic hsource =>
    obtain rfl := hp'.unique hp
    rcases hleaf with hs | hno
    · exact hstatic (Nat.succ_ne_zero n) ⟨profile, hprofile, hs⟩
    · obtain ⟨profile', hprofile', hassume⟩ := sourceOf_some hsource
      rw [hprofile] at hprofile'
      rw [← Option.some.inj hprofile', hno] at hassume
      cases hassume

theorem nodup_snoc {l : List String} (h : l.Nodup) {q : String} (hq : q ∉ l) : (l ++ [q]).Nodup := by
  refine List.nodup_append.2 ⟨h, List.nodup_singleton q, fun x hx y hy => ?_⟩
  rintro rfl
  obtain rfl := List.mem_singleton.1 hy
  exact hq hx

theorem lookup_eq_none_iff_keys {q : String} : cfg.lookup q = none ↔ q ∉ cfg.map Prod.fst := by
  rw [List.lookup_eq_none_iff]
  constructor
  · intro h hmem
    obtain ⟨e, he, rfl⟩ := List.mem_map.1 hmem
    simpa using h e he
  · intro h e he
    by_contra heq
    simp only [bne_iff_ne, ne_eq, not_not] at heq
    exact h (heq ▸ List.mem_map_of_mem he)

/-- the next profile is a new one, or the first once more -/
theorem Trail.once_snoc {visited : List String} {n : ℕ} {p q : String} (h : Trail cfg start visited n)
    (hnodup : visited.Nodup) (hp : Follows cfg start n p) (hstatic : n ≠ 0 → ¬ Static cfg p) {profile : Profile}
    (hq : cfg.lookup q = some profile) (hvalid : q ∉ visited ∨ q = p ∧ hasStaticCredentials profile = true) :
    Once cfg start (visited ++ [q]) := by
  rcases hvalid with hnew | ⟨rfl, hs⟩
  · exact .inl (nodup_snoc hnodup hnew)
  · have hn : n = 0 := by
      by_contra hn
      exact hstatic hn ⟨profile, hq, hs⟩
    subst hn
    obtain rfl := hp.unique .start
    obtain ⟨x, rfl⟩ := List.length_eq_one_iff.1 h.length
    obtain rfl := (h.follows 0 x rfl).unique .start
    exact .inr ⟨rfl, profile, hq, hs⟩

/-- `_get_role_config` raises an infinite loop iff the next profile closes one -/
theorem getRoleConfig_outcome (P : Provider) {a : Attrs} {n : ℕ} {p : String} {profile : Profile} {e : Error}
    (htrail : Trail a.loadedConfig start a.visitedProfiles n) (hnodup : a.visitedProfiles.Nodup)
    (hkeys : a.visitedProfiles ⊆ a.loadedConfig.map Prod.fst) (hp : Follows a.loadedConfig start n p)
    (hprofile : a.loadedConfig.lookup p = some profile) (hassume : hasAssumeRoleConfigVars profile = true)
    (hstatic : n ≠ 0 → ¬ Static a.loadedConfig p) (hrole : getRoleConfig P a p = .error e) :
    Outcome a.loadedConfig start (.raises e) a.visitedProfiles := by
  refine ⟨by simp, .inl hnodup, ?_⟩
  rcases getRoleConfig_error hprofile hassume hrole with ⟨hnone, hne⟩ | ⟨q, hsource, herror⟩
  · refine iff_of_false (fun ⟨source, vis, h⟩ => hne source vis (Result.raises.inj h)) ?_
    exact htrail.not_loops (hp.stop_none hnone) (.inl hnodup)
  · have hq := Follows.next hp hstatic hsource
    rcases validateSourceProfile_error herror with ⟨hmissing, hne⟩ | ⟨rfl, hmem, hnot⟩
    · refine iff_of_false (fun ⟨source, vis, h⟩ => hne source vis (Result.raises.inj h)) ?_
      have hnew : q ∉ a.visitedProfiles := fun hq => lookup_eq_none_iff_keys.1 hmissing (hkeys hq)
      exact (htrail.snoc hq).not_loops (hq.stop_none (by simp [sourceOf, hmissing])) (.inl (nodup_snoc hnodup hnew))
    · refine iff_of_true ⟨q, _, rfl⟩ ?_
      obtain ⟨m, hm⟩ := List.mem_iff_getElem?.1 hmem
      have hlt : m < a.visitedProfiles.length := (List.getElem?_eq_some_iff.1 hm).1
      rw [htrail.length] at hlt
      have hfollows := htrail.follows m q hm
      refine ⟨m, n + 1, q, hlt, hfollows, hq, fun ⟨heq, hs⟩ => hnot ⟨?_, hs⟩⟩
      obtain rfl : n = m := by omega
      exact hfollows.unique hp

theorem loadCreds_outcome (P : Provider) {fuel : ℕ} {a : Attrs} {n : ℕ} {p : String} {profile : Profile}
    {roles : List RoleConfig} (hcfg : a.loadedConfig = cfg) (htrail : Trail cfg start a.visitedProfiles n)
    (hnodup : a.visitedProfiles.Nodup) (hkeys : a.visitedProfiles ⊆ cfg.map Prod.fst) (hp : Follows cfg start n p)
    (hprofile : cfg.lookup p = some profile) (hassume : hasAssumeRoleConfigVars profile = true)
    (hstatic : n ≠ 0 → ¬ Static cfg p) (hfuel : cfg.length < a.visitedProfiles.length + fuel) :
    Outcome cfg start (loadCreds P fuel a p roles).1 (loadCreds P fuel a p roles).2.visitedProfiles := by
  induction fuel generalizing a n p profile roles with
  | zero =>
    have hle := (hnodup.subperm hkeys).length_le
    rw [List.length_map] at hle
    omega
  | succ fuel ih =>
    subst hcfg
    rw [loadCreds]
    cases hrole : getRoleConfig P a p with
    | error e => exact getRoleConfig_outcome P htrail hnodup hkeys hp hprofile hassume hstatic hrole
    | ok role =>
      rcases getRoleConfig_ok hprofile hassume hrole with ⟨name, hsrc, hnone⟩ | ⟨q, hsrc, hsource, hvalid⟩
      · simp only [hsrc]
        refine ⟨by simp, .inl hnodup, iff_of_false (by simp) ?_⟩
        exact htrail.not_loops (hp.stop_none hnone) (.inl hnodup)
      · obtain ⟨profile', hlookup, hnew⟩ := validateSourceProfile_ok hvalid
        have hq := Follows.next hp hstatic hsource
        have htrail' := htrail.snoc hq
        have honce := htrail.once_snoc hnodup hp hstatic hlookup hnew
        have hlookup' : (visit a q).loadedConfig.lookup q = some profile' := hlookup
        simp only [hsrc, hlookup']
        by_cases hs : hasStaticCredentials profile' = true
        · have hnot := htrail'.not_loops (hq.stop_leaf hlookup (.inl hs)) honce
          by_cases hb : P.hasProfileProviderBuilder = true
          · simp only [hs, hb]
            exact ⟨by simp, honce, iff_of_false (by simp) hnot⟩
          · simp only [hs, hb]
            cases hc : staticCredentials profile' with
            | error e =>
              refine ⟨by simp, honce, iff_of_false (fun ⟨source, vis, h⟩ => ?_) hnot⟩
              exact staticCredentials_error hc source vis (Result.raises.inj h)
            | ok c => exact ⟨by simp, honce, iff_of_false (by simp) hnot⟩
        · by_cases hassume' : hasAssumeRoleConfigVars profile' = true
          · have hfresh : q ∉ a.visitedProfiles := hnew.resolve_right fun h => hs h.2
            simp only [hs, hassume']
            refine ih rfl htrail' (nodup_snoc hnodup hfresh) ?_ hq hlookup hassume' ?_ ?_
            · refine List.append_subset.2 ⟨hkeys, List.cons_subset.2 ⟨?_, List.nil_subset _⟩⟩
              by_contra hmem
              rw [lookup_eq_none_iff_keys.2 hmem] at hlookup
              cases hlookup
            · rintro - ⟨profile'', hlookup'', hs''⟩
              rw [hlookup] at hlookup''
              exact hs (Option.some.inj hlookup'' ▸ hs'')
            · simp only [visit, List.length_append, List.length_singleton]
              omega
          · have hnot := htrail'.not_loops (hq.stop_leaf hlookup (.inr (by simpa using hassume'))) honce
            simp only [hs, hassume']
            by_cases hb : P.hasProfileProviderBuilder = true
            · simp only [hb]
              exact ⟨by simp, honce, iff_of_false (by simp) hnot⟩
            · simp only [hb]
              exact ⟨by simp, honce, iff_of_false (by simp) hnot⟩

theorem load_outcome (P : Provider) (a : Attrs) (cfg : Profiles) :
    Outcome cfg P.profileName (load P a cfg).1 (load P a cfg).2.visitedProfiles := by
  have htrail : Trail cfg P.profileName [P.profileName] 0 := by
    refine ⟨rfl, fun i p hi => ?_⟩
    cases i with
    | zero =>
      obtain rfl : P.profileName = p := by simpa using hi
      exact .start
    | succ i => simp at hi
  have hnodup : [P.profileName].Nodup := List.nodup_singleton _
  have hnone : sourceOf cfg P.profileName = none →
      Outcome cfg P.profileName .none [P.profileName] := fun h =>
    ⟨by simp, .inl hnodup, iff_of_false (by simp) (htrail.not_loops (Follows.start.stop_none h) (.inl hnodup))⟩
  simp only [load]
  cases hprofile : cfg.lookup P.profileName with
  | none => exact hnone (by simp [sourceOf, hprofile])
  | some profile =>
    simp only
    by_cases hassume : hasAssumeRoleConfigVars profile = true
    · rw [if_pos hassume]
      refine loadCreds_outcome P rfl htrail hnodup ?_ .start hprofile hassume (fun h => absurd rfl h) ?_
      · refine List.cons_subset.2 ⟨?_, List.nil_subset _⟩
        by_contra hmem
        rw [lookup_eq_none_iff_keys.2 hmem] at hprofile
        cases hprofile
      · simp only [List.length_singleton]
        omega
    · rw [if_neg hassume]
      exact hnone (by simp [sourceOf, hprofile, hassume])

/-! ## Runs -/

/-- the result of a call is the one it got up to its suspension, or comes from what it awaited there -/
def Ends (c : Call) (r : Result) : Prop :=
  r = c.result ∨ (∃ leaf roles, c.result = .awaits leaf roles) ∧ r ≠ .outOfFuel ∧
    ∀ source vis, r ≠ .raises (.infiniteLoop source vis)

structure Inv (P : Provider) (s : St) : Prop where
  calls : ∀ c ∈ s.calls, Outcome c.cfg P.profileName c.result c.visited
  suspended : ∀ k n leaf roles, s.pc k = .suspended n leaf roles →
    ∃ c, s.calls[n]? = some c ∧ c.result = .awaits leaf roles
  ended : ∀ n r, (n, r) ∈ s.ends → ∃ c, s.calls[n]? = some c ∧ Ends c r

theorem inv_init (P : Provider) : Inv P (init P) := by
  constructor <;> simp [init]

theorem resume_ends {c : Call} {leaf : Leaf} {roles : List RoleConfig} (hc : c.result = .awaits leaf roles)
    (x : Option Credentials) : Ends c (resume leaf roles x) := by
  refine .inr ⟨⟨leaf, roles, hc⟩, ?_, fun source vis => ?_⟩
  · cases x <;> cases leaf <;> simp [resume]
  · cases x <;> cases leaf <;> simp [resume]

/-- a suspended call ends -/
theorem Inv.ends {P : Provider} {s : St} (h : Inv P s) {k n : ℕ} {leaf : Leaf} {roles : List RoleConfig} {r : Result}
    (hk : s.pc k = .suspended n leaf roles) (hr : ∀ c, c.result = .awaits leaf roles → Ends c r) :
    Inv P { s with pc := update s.pc k .idle, ends := s.ends ++ [(n, r)] } := by
  refine ⟨h.calls, fun i m leaf' roles' hi => ?_, fun m r' hm => ?_⟩
  · by_cases hik : i = k
    · simp [hik] at hi
    · exact h.suspended i m leaf' roles' (by simpa [hik] using hi)
  · rcases List.mem_append.1 hm with hm | hm
    · exact h.ended m r' hm
    · obtain ⟨rfl, rfl⟩ := Prod.mk.inj (List.mem_singleton.1 hm)
      obtain ⟨c, hc, hresult⟩ := h.suspended k _ leaf roles hk
      exact ⟨c, hc, hr c hresult⟩

theorem getElem?_snoc {l : List Call} {n : ℕ} {c : Call} (h : l[n]? = some c) (c' : Call) : (l ++ [c'])[n]? = some c := by
  rw [List.getElem?_append_left (List.getElem?_eq_some_iff.1 h).1]
  exact h

/-- a call starts, and ends at once or is suspended -/
theorem Inv.starts {P : Provider} {s : St} (h : Inv P s) (a : Attrs) {c : Call}
    (hc : Outcome c.cfg P.profileName c.result c.visited) (k : ℕ) :
    (∀ leaf roles, c.result = .awaits leaf roles →
      Inv P { s with attrs := a, calls := s.calls ++ [c], pc := update s.pc k (.suspended s.calls.length leaf roles) }) ∧
    Inv P { s with attrs := a, calls := s.calls ++ [c], ends := s.ends ++ [(s.calls.length, c.result)] } := by
  have hcalls : ∀ c' ∈ s.calls ++ [c], Outcome c'.cfg P.profileName c'.result c'.visited := by
    intro c' hc'
    rcases List.mem_append.1 hc' with hc' | hc'
    · exact h.calls c' hc'
    · rwa [List.mem_singleton.1 hc']
  have hended : ∀ n r, (n, r) ∈ s.ends → ∃ c', (s.calls ++ [c])[n]? = some c' ∧ Ends c' r := by
    intro n r hn
    obtain ⟨c', hc', hr⟩ := h.ended n r hn
    exact ⟨c', getElem?_snoc hc' c, hr⟩
  have hsuspended : ∀ i n leaf roles, s.pc i = .suspended n leaf roles →
      ∃ c', (s.calls ++ [c])[n]? = some c' ∧ c'.result = .awaits leaf roles := by
    intro i n leaf roles hi
    obtain ⟨c', hc', hr⟩ := h.suspended i n leaf roles hi
    exact ⟨c', getElem?_snoc hc' c, hr⟩
  refine ⟨fun leaf roles hawaits => ⟨hcalls, fun i n leaf' roles' hi => ?_, hended⟩, hcalls, hsuspended, fun n r hn => ?_⟩
  · by_cases hik : i = k
    · simp only [hik, update_self, Pc.suspended.injEq] at hi
      obtain ⟨rfl, rfl, rfl⟩ := hi
      exact ⟨c, List.getElem?_concat_length, hawaits⟩
    · exact hsuspended i n leaf' roles' (by simpa [hik] using hi)
  · rcases List.mem_append.1 hn with hn | hn
    · exact hended n r hn
    · obtain ⟨rfl, rfl⟩ := Prod.mk.inj (List.mem_singleton.1 hn)
      exact ⟨c, List.getElem?_concat_length, .inl rfl⟩

theorem step_inv (P : Provider) (s : St) (o : Op) (h : Inv P s) : Inv P (step P s o) := by
  cases o with
  | load k cfg =>
    simp only [step]
    cases hk : s.pc k with
    | suspended => exact h
    | idle =>
      obtain ⟨hawaits, hends⟩ := h.starts (load P s.attrs cfg).2
        (c := ⟨cfg, (load P s.attrs cfg).1, (load P s.attrs cfg).2.visitedProfiles⟩) (load_outcome P s.attrs cfg) k
      cases hr : (load P s.attrs cfg).1 with
      | awaits leaf roles =>
        rw [hr] at hawaits
        exact hawaits leaf roles rfl
      | none | returns | raises | outOfFuel =>
        rw [hr] at hends
        exact hends
  | loaded k x =>
    simp only [step]
    cases hk : s.pc k with
    | idle => exact h
    | suspended n leaf roles => exact h.ends hk fun c hc => resume_ends hc x
  | fails k text =>
    simp only [step]
    cases hk : s.pc k with
    | idle => exact h
    | suspended n leaf roles => exact h.ends hk fun c hc => .inr ⟨⟨leaf, roles, hc⟩, by simp, by simp⟩

/-- **Chains of profiles.** For any calls of `load` on one provider, at the same time or one after the other, each
reading any configuration: the chain of a call is followed to its end, visiting each profile once (or a profile with
static credentials that sources itself twice); and the call raises `InfiniteLoopConfigError` exactly if the chain that
its own configuration describes returns to one of its profiles in another way. -/
theorem assume_role_loads (P : Provider) (ops : List Op) :
    let s := run (step P) (init P) ops
    (∀ c ∈ s.calls, c.result ≠ .outOfFuel ∧ Once c.cfg P.profileName c.visited) ∧
    (∀ n r, (n, r) ∈ s.ends → ∃ c, s.calls[n]? = some c ∧ r ≠ .outOfFuel ∧
      ((∃ source vis, r = .raises (.infiniteLoop source vis)) ↔ Loops c.cfg P.profileName)) := by
  intro s
  have hinv : Inv P s := run_inv (step_inv P) (inv_init P) ops
  refine ⟨fun c hc => ⟨(hinv.calls c hc).terminates, (hinv.calls c hc).once⟩, fun n r hn => ?_⟩
  obtain ⟨c, hc, hr⟩ := hinv.ended n r hn
  have hout := hinv.calls c (List.mem_of_getElem? hc)
  refine ⟨c, hc, ?_⟩
  rcases hr with rfl | ⟨⟨leaf, roles, hawaits⟩, hfuel, hne⟩
  · exact ⟨hout.terminates, hout.loops⟩
  · refine ⟨hfuel, iff_of_false (fun ⟨source, vis, h⟩ => hne source vis h) fun hloops => ?_⟩
    obtain ⟨source, vis, h⟩ := hout.loops.2 hloops
    rw [hawaits] at h
    cases h

end AioBotocore.AssumeRole
