/-
`AioSmartDefaultsConfigStoreFactory.resolve_auto_mode` (`configprovider.py`), with `AioIMDSRegionProvider.provide` and
`AioInstanceMetadataRegionFetcher` (`utils.py`) behind it. All clients of a session resolve their defaults mode through
one factory, which keeps the region that the metadata service has named. A resolution suspends while it asks the service;
what the session shares in between is that region alone, so the requests of one resolution are one operation.

- `retrieveRegion_named`, `retrieveRegion_length_le`: a region is named by a response that was given, and no request is
  repeated for ever.
- `step_moves`: everything one operation does.
- `resolve_auto_mode_runs`: the modes that are resolved; a region is kept until a resolution that began before it was
  known ends with another outcome, and as long as it is kept the service is not asked.
-/
import Mathlib.Tactic
import AioBotocore.Async.Run
import AioBotocore.InstanceMetadata

namespace AioBotocore.SmartDefaults

open Async Function
open InstanceMetadata (Library Fetcher Answer Request HttpResponse Exn SendExn fetchMetadataToken getRequest getLoop text
  isNonOkResponse isEmpty fetchMetadataToken_length_le getRequest_length_le)

/-! ## The region of an instance -/

variable (L : Library) (F : Fetcher) (answers : ℕ → Answer)

/-- `_default_retry` -/
def defaultRetry (r : HttpResponse) : Except Exn Bool := .ok (isNonOkResponse r || isEmpty r)

/-- `availability_zone[:-1]` -/
def regionOf (availabilityZone : String) : String := .ofList availabilityZone.toList.dropLast

/-- `_get_region` once there is a token, or none -/
def withToken (token : Option String) (sent : List Request) : Except Exn String × List Request :=
  match getRequest L F answers L.urlPath defaultRetry token sent with
  | (.error e, sent) => (.error e, sent)
  | (.ok r, sent) => ((text L r).map regionOf, sent)

def getRegion (sent : List Request) : Except Exn String × List Request :=
  match fetchMetadataToken L F answers sent with
  | (.error e, sent) => (.error e, sent)
  | (.ok token, sent) => withToken L F answers token sent

def retrieveRegion (sent : List Request) : Except Exn (Option String) × List Request :=
  match getRegion L F answers sent with
  | (.error .retriesExceeded, sent) => (.ok none, sent)
  | (.error e, sent) => (.error e, sent)
  | (.ok region, sent) => (.ok (some region), sent)

/-! ## Model -/

/-- `not x` is false -/
def truthy (x : Option String) : Option String := x.filter (· ≠ "")

/-- of `os.environ` -/
structure Environ where
  awsExecutionEnv : Option String
  awsRegion : Option String
  awsDefaultRegion : Option String
deriving DecidableEq, Repr

/-- the current region, as far as the environment tells it -/
def Environ.currentRegion (env : Environ) : Option String :=
  if (truthy env.awsExecutionEnv).isSome then truthy (env.awsRegion.or env.awsDefaultRegion) else none

inductive Mode where
  | standard
  | inRegion
  | crossRegion
deriving DecidableEq, Repr

/-- the end of `resolve_auto_mode` -/
def modeOf (currentRegion regionName : Option String) : Mode :=
  match truthy currentRegion with
  | none => .standard
  | some region => if regionName = some region then .inRegion else .crossRegion

inductive Pc where
  | idle
  /-- in `await self._imds_region_provider.provide()` -/
  | asking (regionName : Option String)
deriving DecidableEq, Repr

/-- a resolution that has come to its end; `environ` is the region that the environment told -/
structure Resolved where
  regionName : Option String
  environ : Option String
  mode : Mode
deriving DecidableEq, Repr

structure St where
  instanceMetadataRegion : Option String
  pc : ℕ → Pc
  /-- how often the service was asked for the region -/
  asked : ℕ
  resolved : List Resolved

inductive Op where
  | resolve (k : ℕ) (env : Environ) (regionName : Option String)
  /-- `provide()` ends, with these answers to its requests -/
  | provided (k : ℕ) (answers : ℕ → Answer)
  | cancel (k : ℕ)

def goto (s : St) (k : ℕ) (p : Pc) : St := { s with pc := update s.pc k p }

def ret (s : St) (k : ℕ) (environ regionName : Option String) (mode : Mode) : St :=
  { goto s k .idle with resolved := s.resolved ++ [⟨regionName, environ, mode⟩] }

/-- `except Exception: pass` -/
def store (s : St) : Except Exn (Option String) → St
  | .error _ => s
  | .ok region => { s with instanceMetadataRegion := region }

def provided (s : St) (k : ℕ) (regionName : Option String) (outcome : Except Exn (Option String)) : St :=
  ret (store s outcome) k none regionName (modeOf outcome.toOption.join regionName)

def step (s : St) : Op → St
  | .resolve k env regionName =>
    match s.pc k with
    | .idle =>
      match env.currentRegion, truthy s.instanceMetadataRegion with
      | some region, _ => ret s k (some region) regionName (modeOf (some region) regionName)
      | none, some region => ret s k none regionName (modeOf (some region) regionName)
      | none, none => { goto s k (.asking regionName) with asked := s.asked + 1 }
    | _ => s
  | .provided k answers =>
    match s.pc k with
    | .asking regionName => provided s k regionName (retrieveRegion L F answers []).1
    | _ => s
  | .cancel k =>
    match s.pc k with
    | .asking _ => goto s k .idle
    | _ => s

def init : St := ⟨none, fun _ => .idle, 0, []⟩

abbrev exec (ops : List Op) : St := run (step L F) init ops

/-! ## What the service names -/

/-- a response that was given has the availability zone of this region -/
def Named (region : String) : Prop :=
  ∃ i r availabilityZone, answers i = .ok r ∧ r.statusCode = 200 ∧ r.content ≠ [] ∧
    text L r = .ok availabilityZone ∧ region = regionOf availabilityZone

variable {L answers}

/-- what the loop returns was answered, and is not to be asked for again -/
theorem getLoop_ok {retryFunc : HttpResponse → Except Exn Bool} {q : Request} {n : ℕ} {sent : List Request}
    {r : HttpResponse} (h : (getLoop L answers retryFunc q n sent).1 = .ok r) :
    retryFunc r = .ok false ∧ ∃ i, answers i = .ok r := by
  induction n generalizing sent with
  | zero => cases h
  | succ n ih =>
    rw [getLoop] at h
    unfold InstanceMetadata.send at h
    by_cases haccepts : L.accepts q = true
    · rw [if_pos haccepts] at h
      rcases hanswer : answers sent.length with e | r'
      · rw [hanswer] at h
        cases e with
        | readTimeout => exact ih h
        | retryable => exact ih h
        | httpClient unresolved => cases h
        | other => cases h
      · rw [hanswer] at h
        dsimp only at h
        rcases hretry : retryFunc r' with e | again
        · rw [hretry] at h
          cases h
        · rw [hretry] at h
          cases again with
          | false => exact (Except.ok.inj h) ▸ ⟨hretry, sent.length, hanswer⟩
          | true => exact ih h
    · rw [if_neg haccepts] at h
      cases h

variable {F}

theorem getRequest_ok {path : String} {retryFunc : HttpResponse → Except Exn Bool} {token : Option String}
    {sent : List Request} {r : HttpResponse} (h : (getRequest L F answers path retryFunc token sent).1 = .ok r) :
    retryFunc r = .ok false ∧ ∃ i, answers i = .ok r := by
  unfold getRequest at h
  split_ifs at h
  exact getLoop_ok h

theorem defaultRetry_false {r : HttpResponse} (h : defaultRetry r = .ok false) :
    r.statusCode = 200 ∧ r.content ≠ [] := by
  have hneither : isNonOkResponse r = false ∧ isEmpty r = false := Bool.or_eq_false_iff.1 (Except.ok.inj h)
  exact ⟨by simpa [isNonOkResponse] using hneither.1, by simpa [isEmpty] using hneither.2⟩

theorem withToken_named {token : Option String} {sent : List Request} {region : String}
    (h : (withToken L F answers token sent).1 = .ok region) : Named L answers region := by
  unfold withToken at h
  rcases hget : getRequest L F answers L.urlPath defaultRetry token sent with ⟨e | r, sent'⟩
  · rw [hget] at h
    cases h
  · have hr : defaultRetry r = .ok false ∧ ∃ i, answers i = .ok r := getRequest_ok (congrArg Prod.fst hget)
    obtain ⟨hretry, i, hi⟩ := hr
    rw [hget] at h
    dsimp only at h
    rcases htext : text L r with e | availabilityZone
    · rw [htext] at h
      cases h
    · rw [htext] at h
      obtain ⟨hstatus, hcontent⟩ := defaultRetry_false hretry
      exact ⟨i, r, availabilityZone, hi, hstatus, hcontent, htext, (Except.ok.inj h).symm⟩

theorem getRegion_named {sent : List Request} {region : String}
    (h : (getRegion L F answers sent).1 = .ok region) : Named L answers region := by
  unfold getRegion at h
  rcases htoken : fetchMetadataToken L F answers sent with ⟨e | token, sent'⟩
  · rw [htoken] at h
    cases h
  · rw [htoken] at h
    exact withToken_named h

theorem retrieveRegion_named {sent : List Request} {region : String}
    (h : (retrieveRegion L F answers sent).1 = .ok (some region)) : Named L answers region := by
  unfold retrieveRegion at h
  rcases hget : getRegion L F answers sent with ⟨e | region', sent'⟩
  · rw [hget] at h
    cases e <;> cases h
  · rw [hget] at h
    have heq : region' = region := Option.some.inj (Except.ok.inj h)
    exact heq ▸ getRegion_named (congrArg Prod.fst hget)

variable (L answers F)

theorem withToken_length_le (token : Option String) (sent : List Request) :
    (withToken L F answers token sent).2.length ≤ sent.length + F.numAttempts := by
  have hlen := getRequest_length_le L F answers L.urlPath defaultRetry token sent
  unfold withToken
  rcases hget : getRequest L F answers L.urlPath defaultRetry token sent with ⟨e | r, sent'⟩
  all_goals
    rw [hget] at hlen
    exact hlen

theorem getRegion_length_le (sent : List Request) :
    (getRegion L F answers sent).2.length ≤ sent.length + 2 * F.numAttempts := by
  have hlen := fetchMetadataToken_length_le L F answers sent
  unfold getRegion
  rcases htoken : fetchMetadataToken L F answers sent with ⟨e | token, sent'⟩
  · rw [htoken] at hlen
    exact hlen.trans (by omega)
  · rw [htoken] at hlen
    calc (withToken L F answers token sent').2.length
        ≤ sent'.length + F.numAttempts := withToken_length_le L F answers token sent'
      _ ≤ sent.length + F.numAttempts + F.numAttempts := Nat.add_le_add_right hlen _
      _ = sent.length + 2 * F.numAttempts := by omega

/-- at most two requests for each attempt, whatever is answered -/
theorem retrieveRegion_length_le (sent : List Request) :
    (retrieveRegion L F answers sent).2.length ≤ sent.length + 2 * F.numAttempts := by
  have hlen := getRegion_length_le L F answers sent
  unfold retrieveRegion
  rcases hregion : getRegion L F answers sent with ⟨e | region, sent'⟩
  · rw [hregion] at hlen
    cases e <;> exact hlen
  · rw [hregion] at hlen
    exact hlen

/-! ## The modes of a run -/

/-- the environment's region decides, or one that meets `P`; a session that knows none has the standard mode -/
def Right (P : String → Prop) (d : Resolved) : Prop :=
  match d.environ with
  | some region => d.mode = modeOf (some region) d.regionName
  | none => d.mode = .standard ∨ ∃ region, P region ∧ d.mode = modeOf (some region) d.regionName

structure Inv (P : String → Prop) (s : St) : Prop where
  known : ∀ region, s.instanceMetadataRegion = some region → P region
  resolved : ∀ d ∈ s.resolved, Right P d

theorem truthy_eq_some {x : Option String} {region : String} (h : truthy x = some region) : x = some region :=
  (Option.filter_eq_some_iff.1 h).1

theorem truthy_some {x : Option String} {region : String} (htruthy : region ≠ "") (h : x = some region) :
    truthy x = some region := by
  simp [truthy, h, htruthy]

/-- what one operation does; every operation but the end of an answer may also find nothing to do -/
inductive Moves (s : St) : Op → St → Prop
  | none {o : Op} (h : ∀ k answers regionName, o = .provided k answers → s.pc k ≠ .asking regionName) : Moves s o s
  | decides {k : ℕ} {env : Environ} {regionName environ : Option String} {region : String}
      (h : environ = some region ∨ environ = .none ∧ truthy s.instanceMetadataRegion = some region) :
      Moves s (.resolve k env regionName) (ret s k environ regionName (modeOf (some region) regionName))
  | asks {k : ℕ} {env : Environ} {regionName : Option String} (h : truthy s.instanceMetadataRegion = .none) :
      Moves s (.resolve k env regionName) { goto s k (.asking regionName) with asked := s.asked + 1 }
  | provided {k : ℕ} {answers : ℕ → Answer} {regionName : Option String} (hk : s.pc k = .asking regionName) :
      Moves s (.provided k answers) (provided s k regionName (retrieveRegion L F answers []).1)
  | cancelled {k : ℕ} {regionName : Option String} (hk : s.pc k = .asking regionName) :
      Moves s (.cancel k) (goto s k .idle)

theorem step_moves (s : St) (o : Op) : Moves L F s o (step L F s o) := by
  cases o with
  | resolve k env regionName =>
    have hother : ∀ i answers regionName', Op.resolve k env regionName = .provided i answers →
        s.pc i ≠ .asking regionName' := fun _ _ _ h => (by cases h)
    simp only [step]
    split
    · split
      · exact .decides (.inl rfl)
      · rename_i hknown
        exact .decides (.inr ⟨rfl, hknown⟩)
      · rename_i hunknown
        exact .asks hunknown
    · exact .none hother
  | provided k answers =>
    simp only [step]
    rcases hk : s.pc k with _ | regionName
    · refine .none fun i _ regionName' heq hi => ?_
      cases heq
      rw [hk] at hi
      cases hi
    · exact .provided hk
  | cancel k =>
    simp only [step]
    rcases hk : s.pc k with _ | regionName
    · exact .none fun _ _ _ h => (by cases h)
    · exact .cancelled hk

variable {L answers F} {P : String → Prop}

theorem Inv.ret {s : St} (h : Inv P s) (k : ℕ) {environ regionName : Option String} {mode : Mode}
    (hright : Right P ⟨regionName, environ, mode⟩) : Inv P (ret s k environ regionName mode) := by
  refine ⟨h.known, fun d hd => ?_⟩
  rcases List.mem_append.1 hd with hd | hd
  · exact h.resolved d hd
  · rw [List.mem_singleton.1 hd]
    exact hright

theorem Inv.provided {s : St} (h : Inv P s) (k : ℕ) (regionName : Option String) {outcome : Except Exn (Option String)}
    (hnamed : ∀ region, outcome = .ok (some region) → P region) : Inv P (provided s k regionName outcome) := by
  rcases outcome with e | _ | region
  · exact h.ret k (.inl rfl)
  · have hnone : Inv P (store s (.ok none)) := ⟨fun _ hregion => (by cases hregion), h.resolved⟩
    exact hnone.ret k (.inl rfl)
  · have hp : P region := hnamed region rfl
    have hsome : Inv P (store s (.ok (some region))) :=
      ⟨fun _ hregion => Option.some.inj hregion ▸ hp, h.resolved⟩
    exact hsome.ret k (.inr ⟨region, hp, rfl⟩)

theorem Inv.step {s : St} (h : Inv P s) {o : Op}
    (hnamed : ∀ k answers, o = .provided k answers → ∀ region, Named L answers region → P region) :
    Inv P (step L F s o) := by
  have hmoves := step_moves L F s o
  generalize SmartDefaults.step L F s o = s' at hmoves ⊢
  cases hmoves with
  | none => exact h
  | @decides k env regionName environ region hregion =>
    rcases hregion with rfl | ⟨rfl, hknown⟩
    · exact h.ret k rfl
    · exact h.ret k (.inr ⟨region, h.known region (truthy_eq_some hknown), rfl⟩)
  | asks => exact ⟨h.known, h.resolved⟩
  | @provided k answers regionName hk =>
    exact h.provided k _ fun region hregion => hnamed k answers rfl region (retrieveRegion_named hregion)
  | cancelled => exact ⟨h.known, h.resolved⟩

theorem inv_init : Inv P init := by
  constructor
  · rintro region ⟨⟩
  · rintro d ⟨⟩

theorem inv_exec (ops : List Op) :
    Inv (fun region => ∃ k answers, Op.provided k answers ∈ ops ∧ Named L answers region) (exec L F ops) := by
  have hgood : Along (step L F) (fun _ o => o ∈ ops) init ops := along_of_forall _ fun o ho _ => ho
  refine run_inv_of (fun s o h ho => h.step ?_) inv_init hgood
  rintro k answers rfl region hnamed
  exact ⟨k, answers, ho, hnamed⟩

/-! ## A region that is known -/

variable (L F)

/-- a resolution that was waiting ends with no other region -/
def Keeps (region : String) (s : St) (o : Op) : Prop :=
  ∀ k answers regionName, o = .provided k answers → s.pc k = .asking regionName →
    ∀ outcome, (retrieveRegion L F answers []).1 = .ok outcome → outcome = some region

variable {L F}

/-- the region after the end of an answer -/
theorem provided_region {s : St} {region : String} (h : s.instanceMetadataRegion = some region) (k : ℕ)
    (regionName : Option String) (outcome : Except Exn (Option String)) :
    (provided s k regionName outcome).instanceMetadataRegion = some region ↔
      ∀ named, outcome = .ok named → named = some region := by
  rcases outcome with e | named
  · exact iff_of_true h fun named hok => (by cases hok)
  · constructor
    · intro (hregion : named = some region) named' hok
      rwa [← Except.ok.inj hok]
    · intro hnamed
      exact hnamed named rfl

theorem step_region {s : St} {o : Op} {region : String} (h : s.instanceMetadataRegion = some region) :
    (step L F s o).instanceMetadataRegion = some region ↔ Keeps L F region s o := by
  have hmoves := step_moves L F s o
  generalize step L F s o = s' at hmoves ⊢
  cases hmoves with
  | none hnot => exact iff_of_true h fun k answers regionName ho hk => absurd hk (hnot k answers regionName ho)
  | decides => exact iff_of_true h fun _ _ _ ho => (by cases ho)
  | asks => exact iff_of_true h fun _ _ _ ho => (by cases ho)
  | @provided k answers regionName hk =>
    rw [provided_region h]
    constructor
    · rintro hnamed _ _ _ ⟨⟩ -
      exact hnamed
    · exact fun hkeeps => hkeeps k answers regionName rfl hk
  | cancelled => exact iff_of_true h fun _ _ _ ho => (by cases ho)

/-- a known region is asked for no more -/
theorem step_asked {s : St} {region : String} (htruthy : region ≠ "") (h : s.instanceMetadataRegion = some region)
    (o : Op) : (step L F s o).asked = s.asked := by
  have hmoves := step_moves L F s o
  generalize step L F s o = s' at hmoves ⊢
  cases hmoves with
  | none => rfl
  | decides => rfl
  | asks hunknown => exact absurd ((truthy_some htruthy h).symm.trans hunknown) (Option.some_ne_none _)
  | @provided k answers => rcases (retrieveRegion L F answers []).1 with e | named <;> rfl
  | cancelled => rfl

/-- since `s` the region has been known, and nobody waits for another -/
structure Settled (region : String) (s t : St) : Prop where
  known : t.instanceMetadataRegion = some region
  idle : ∀ k, t.pc k = .idle
  resolved : ∃ later, t.resolved = s.resolved ++ later ∧
    ∀ d ∈ later, d.environ = none → d.mode = modeOf (some region) d.regionName

theorem Settled.ret {region : String} {s t : St} (h : Settled region s t) (k : ℕ) (environ regionName : Option String)
    {mode : Mode} (hmode : environ = none → mode = modeOf (some region) regionName) :
    Settled region s (ret t k environ regionName mode) := by
  obtain ⟨later, heq, hlater⟩ := h.resolved
  refine ⟨h.known, fun i => ?_, later ++ [⟨regionName, environ, mode⟩], ?_, fun d hd => ?_⟩
  · by_cases hi : i = k
    · simp [SmartDefaults.ret, goto, hi]
    · simp [SmartDefaults.ret, goto, hi, h.idle i]
  · simp [SmartDefaults.ret, goto, heq]
  · rcases List.mem_append.1 hd with hd | hd
    · exact hlater d hd
    · rw [List.mem_singleton.1 hd]
      exact hmode

theorem Settled.step {region : String} (htruthy : region ≠ "") {s t : St} (h : Settled region s t) (o : Op) :
    Settled region s (step L F t o) := by
  have hknown : truthy t.instanceMetadataRegion = some region := truthy_some htruthy h.known
  have hidle {k : ℕ} {regionName : Option String} : t.pc k ≠ .asking regionName := by simp [h.idle k]
  have hmoves := step_moves L F t o
  generalize SmartDefaults.step L F t o = t' at hmoves ⊢
  cases hmoves with
  | none => exact h
  | @decides k env regionName environ other hother =>
    refine h.ret k environ regionName fun hnone => ?_
    rcases hother with rfl | ⟨-, hsame⟩
    · cases hnone
    · rw [Option.some.inj (hsame.symm.trans hknown)]
  | asks hunknown => exact absurd (hknown.symm.trans hunknown) (Option.some_ne_none _)
  | provided hk => exact absurd hk hidle
  | cancelled hk => exact absurd hk hidle

theorem Settled.refl {region : String} {s : St} (h : s.instanceMetadataRegion = some region)
    (hidle : ∀ k, s.pc k = .idle) : Settled region s s :=
  ⟨h, hidle, [], by simp, by simp⟩

theorem along_keeps_of_idle {region : String} (htruthy : region ≠ "") {s : St}
    (h : s.instanceMetadataRegion = some region) (hidle : ∀ k, s.pc k = .idle) (ops : List Op) :
    Along (step L F) (Keeps L F region) s ops := by
  intro j hj k answers regionName hop hasking
  have hthere : Settled region s (run (step L F) s (ops.take j)) :=
    run_inv (fun _ o h => h.step htruthy o) (Settled.refl h hidle) _
  rw [hthere.idle k] at hasking
  cases hasking

variable (L F)

/-- **The region of a session.** In every run a resolution decides by the region of the environment, or else by one that
the service has named, or takes the standard mode. A region that the service has named is kept exactly as long as no
resolution that was waiting before ends with another, or with none; until then the service is not asked. When nobody was
waiting, it is kept for ever and decides all modes. -/
theorem resolve_auto_mode_runs (ops later : List Op) :
    let s := exec L F ops
    let t := run (step L F) s later
    (∀ d ∈ s.resolved, Right (fun region => ∃ k answers, Op.provided k answers ∈ ops ∧ Named L answers region) d) ∧
      ∀ region, region ≠ "" → s.instanceMetadataRegion = some region →
        ((∀ n, (run (step L F) s (later.take n)).instanceMetadataRegion = some region) ↔
            Along (step L F) (Keeps L F region) s later) ∧
          (Along (step L F) (Keeps L F region) s later → t.asked = s.asked) ∧
          ((∀ k, s.pc k = .idle) → t.instanceMetadataRegion = some region ∧ t.asked = s.asked ∧
            ∃ since, t.resolved = s.resolved ++ since ∧
              ∀ d ∈ since, d.environ = none → d.mode = modeOf (some region) d.regionName) := by
  intro s t
  refine ⟨(inv_exec ops).resolved, fun region htruthy hregion => ?_⟩
  have hasked : Along (step L F) (Keeps L F region) s later → t.asked = s.asked := by
    intro hkeeps
    have hboth : t.instanceMetadataRegion = some region ∧ t.asked = s.asked :=
      run_inv_of (I := fun u => u.instanceMetadataRegion = some region ∧ u.asked = s.asked)
        (fun u o h hgood => ⟨(step_region h.1).2 hgood, (step_asked htruthy h.1 o).trans h.2⟩) ⟨hregion, rfl⟩ hkeeps
    exact hboth.2
  refine ⟨?_, hasked, fun hidle => ?_⟩
  · exact forall_take_iff (P := fun u : St => u.instanceMetadataRegion = some region)
      (fun _ _ h hgood => (step_region h).2 hgood) (fun _ h => h)
      (fun _ _ h hbad hafter => hbad ((step_region h).1 hafter)) hregion later
  · have hsettled : Settled region s t :=
      run_inv (fun _ o h => h.step htruthy o) (Settled.refl hregion hidle) later
    exact ⟨hsettled.known, hasked (along_keeps_of_idle htruthy hregion hidle later), hsettled.resolved⟩

/-! ## An instance -/

def placement : Library := { InstanceMetadata.twoTexts with
  urlPath := "latest/meta-data/placement/availability-zone/"
  accepts_role := rfl }

def outside : Environ := ⟨none, none, none⟩

/-- a token `t` and the availability zone `eu-1b` -/
def zone (i : ℕ) : Answer := .ok (InstanceMetadata.ok (if i = 0 then [116] else [101, 117, 45, 49, 98]))

/-- the service is asked once, for the first of two clients -/
def first : List Op := [.resolve 0 outside (some "eu-1"), .provided 0 zone]

theorem resolve_auto_mode_runs_settled :
    ∃ since, (run (step placement InstanceMetadata.oneAttempt) (exec placement InstanceMetadata.oneAttempt first)
      [.resolve 1 outside (some "us-2")]).resolved = ⟨some "eu-1", none, .inRegion⟩ :: since ∧
      ∀ d ∈ since, d.environ = none → d.mode = modeOf (some "eu-1") d.regionName := by
  have hidle : ∀ k, (exec placement InstanceMetadata.oneAttempt first).pc k = .idle := by
    intro k
    cases k <;> rfl
  exact (((resolve_auto_mode_runs placement InstanceMetadata.oneAttempt first _).2 "eu-1" (by decide) (by decide)).2.2
    hidle).2.2

end AioBotocore.SmartDefaults
