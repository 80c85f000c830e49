/-
Credentials of a role that is assumed with an MFA code: refreshable credentials (`Credentials.Refreshable`) over the
refresher of `create_mfa_serial_refresher`, which calls the one below it once and raises from then on. It raises before it
suspends, so a refresh that begins when it has been called ends in the same operation.

The user is asked for a code below the refresher; `prompts` counts how often.

- `step_moves`: an operation is one of the credentials' own, or two when the refresher refuses.
- `step_inv`: the refresher is called once, by the refresh whose result is the only one.
- `dead_step`: when the one session has come into its mandatory window, nobody is handed credentials any more.
- `mfa_once`: the user is asked once, over any interleaving of calls; what that has brought is served until it runs out.
-/
import Mathlib.Tactic
import AioBotocore.Credentials.Calls

namespace AioBotocore.Mfa

open Async Function
open AioBotocore.Credentials (Base Cfg Op Pc Move InFlight Metadata Outcome refreshNeeded step_cases step_pc_of_ne
  in_flight_unique)

/-! ## Model -/

structure St where
  creds : Credentials.St
  /-- `_has_been_called` of the refresher -/
  hasBeenCalled : Bool
  prompts : ℕ

def refreshWithMfaUnsupported : String := "Cannot refresh credentials: MFA token required."

/-- the call `k` has just called the refresher -/
def Refreshes (s s' : Credentials.St) (k : ℕ) : Prop := ¬ InFlight s k ∧ InFlight s' k

instance (s s' : Credentials.St) (k : ℕ) : Decidable (Refreshes s s' k) := inferInstanceAs (Decidable (_ ∧ _))

/-- the refresher raises -/
def refuse (B : Base) (C : Cfg) (c : Credentials.St) (k : ℕ) : Credentials.St :=
  Credentials.step B C c (.finish k (.raises refreshWithMfaUnsupported))

def step (B : Base) (C : Cfg) (s : St) (o : Op) : St :=
  let creds := Credentials.step B C s.creds o
  match o.caller with
  | none => { s with creds := creds }
  | some k =>
    if Refreshes s.creds creds k then
      if s.hasBeenCalled then { s with creds := refuse B C creds k }
      else ⟨creds, true, s.prompts + 1⟩
    else { s with creds := creds }

def init (C : Cfg) (t0 : ℤ) : St := ⟨Credentials.init C t0, false, 0⟩

abbrev exec (B : Base) (C : Cfg) (t0 : ℤ) (ops : List Op) : St := run (step B C) (init C t0) ops

variable {B : Base} {C : Cfg} {s : St} {o : Op}

/-! ## The credentials' own operations -/

/-- what an operation can do -/
inductive Moves (B : Base) (C : Cfg) (s : St) (o : Op) : St → Prop
  | plain (h : ∀ k, o.caller = some k → ¬ Refreshes s.creds (Credentials.step B C s.creds o) k) :
      Moves B C s o { s with creds := Credentials.step B C s.creds o }
  | prompt (k : ℕ) (ho : o.caller = some k) (h : Refreshes s.creds (Credentials.step B C s.creds o) k)
      (hcalled : s.hasBeenCalled = false) : Moves B C s o ⟨Credentials.step B C s.creds o, true, s.prompts + 1⟩
  | refuse (k : ℕ) (ho : o.caller = some k) (h : Refreshes s.creds (Credentials.step B C s.creds o) k)
      (hcalled : s.hasBeenCalled = true) :
      Moves B C s o { s with creds := refuse B C (Credentials.step B C s.creds o) k }

theorem step_moves (B : Base) (C : Cfg) (s : St) (o : Op) : Moves B C s o (step B C s o) := by
  unfold step
  simp only
  split
  · rename_i ho
    exact .plain fun k hk => by rw [ho] at hk; cases hk
  · rename_i k ho
    split_ifs with h hcalled
    · exact .refuse k ho h hcalled
    · exact .prompt k ho h (by simpa using hcalled)
    · exact .plain fun k' hk' => by
        rw [ho] at hk'
        cases hk'
        exact h

/-! ## One prompt -/

theorem move_results {c c' : Credentials.St} (hm : Move B C c o c') :
    c'.results = c.results ∨ ∃ k m, o = .finish k (.returns m) ∧ InFlight c k ∧ c'.results = c.results ++ [m] := by
  cases hm with
  | rejected k im m a e hk => exact .inr ⟨k, m, rfl, ⟨im, hk⟩, rfl⟩
  | expired k im m t hk => exact .inr ⟨k, m, rfl, ⟨im, hk⟩, rfl⟩
  | refreshed k im m t hk => exact .inr ⟨k, m, rfl, ⟨im, hk⟩, rfl⟩
  | _ => exact .inl rfl

theorem not_inFlight_update {c : Credentials.St} {f : ℕ → Pc} {k : ℕ} {p : Pc} (hpc : c.pc = update f k p)
    (hp : ∀ im, p ≠ .refreshing im) : ¬ InFlight c k := by
  rintro ⟨im, hk⟩
  rw [hpc, update_self] at hk
  exact hp im hk

/-- a refresh that ends is over -/
theorem finish_ends {c c' : Credentials.St} {k : ℕ} {out : Outcome} (hm : Move B C c (.finish k out) c') :
    ¬ InFlight c' k := by
  cases hm with
  | failed => exact not_inFlight_update rfl (by simp)
  | swallowed => exact not_inFlight_update rfl (by simp)
  | rejected => exact not_inFlight_update rfl (by simp)
  | expired => exact not_inFlight_update rfl (by simp)
  | refreshed => exact not_inFlight_update rfl (by simp)

theorem step_inFlight {c : Credentials.St} {i : ℕ} (hi : InFlight (Credentials.step B C c o) i) :
    InFlight c i ∨ o.caller = some i ∧ Refreshes c (Credentials.step B C c o) i := by
  by_cases hbefore : InFlight c i
  · exact .inl hbefore
  · by_cases hcaller : o.caller = some i
    · exact .inr ⟨hcaller, hbefore, hi⟩
    · obtain ⟨im, hi⟩ := hi
      rw [step_pc_of_ne hcaller] at hi
      exact .inl ⟨im, hi⟩

/-- a call that has just called the refresher gets an exception from it at once -/
theorem refuse_ends {c : Credentials.St} {k : ℕ} (hk : InFlight c k) :
    (refuse B C c k).results = c.results ∧ ¬ InFlight (refuse B C c k) k ∧
      ∀ i, i ≠ k → InFlight (refuse B C c k) i → InFlight c i := by
  have hm : Move B C c (.finish k (.raises refreshWithMfaUnsupported)) (refuse B C c k) := by
    obtain ⟨im, hk⟩ := hk
    simp only [refuse, Credentials.step, hk]
    exact Credentials.protectedRefresh_cases hk _
  refine ⟨?_, finish_ends hm, ?_⟩
  · rcases move_results hm with hresults | ⟨k', m, ho, -⟩
    · exact hresults
    · cases ho
  · rintro i hik ⟨im, hi⟩
    unfold refuse at hi
    rw [step_pc_of_ne (by simpa [Op.caller] using Ne.symm hik)] at hi
    exact ⟨im, hi⟩

structure Inv (B : Base) (C : Cfg) (s : St) : Prop where
  creds : Credentials.Inv B C s.creds
  prompts : s.prompts = s.hasBeenCalled.toNat
  /-- before the prompt there is nothing, and while it is there, too -/
  uncalled : s.hasBeenCalled = false → s.creds.results = [] ∧ ∀ k, ¬ InFlight s.creds k
  asking : ∀ k, InFlight s.creds k → s.creds.results = []
  results : s.creds.results.length ≤ 1

theorem inv_init (B : Base) (C : Cfg) (t0 : ℤ) : Inv B C (init C t0) := by
  refine ⟨Credentials.inv_init B C t0, rfl, fun _ => ⟨rfl, ?_⟩, fun _ _ => rfl, Nat.zero_le _⟩
  rintro k ⟨im, hk⟩
  cases hk

theorem step_results {c : Credentials.St} (h : ∀ k, ¬ InFlight c k) : (Credentials.step B C c o).results = c.results := by
  rcases step_cases B C c o with hs | hm
  · rw [hs]
  · rcases move_results hm with hresults | ⟨k, m, -, hk, -⟩
    · exact hresults
    · exact absurd hk (h k)

/-- the refresher is not called: refreshes go on or end, with the one session if there is none yet -/
theorem Inv.plain (h : Inv B C s)
    (hplain : ∀ k, o.caller = some k → ¬ Refreshes s.creds (Credentials.step B C s.creds o) k) :
    Inv B C { s with creds := Credentials.step B C s.creds o } := by
  have hold : ∀ i, InFlight (Credentials.step B C s.creds o) i → InFlight s.creds i := by
    intro i hi
    rcases step_inFlight hi with hi | ⟨hcaller, hrefreshes⟩
    · exact hi
    · exact absurd hrefreshes (hplain i hcaller)
  have hresults : (Credentials.step B C s.creds o).results = s.creds.results ∨
      (∀ i, ¬ InFlight (Credentials.step B C s.creds o) i) ∧ s.hasBeenCalled = true ∧
        (Credentials.step B C s.creds o).results.length = 1 := by
    rcases step_cases B C s.creds o with hs | hm
    · exact .inl (by rw [hs])
    · rcases move_results hm with hresults | ⟨k, m, rfl, hk, hresults⟩
      · exact .inl hresults
      · refine .inr ⟨fun i hi => ?_, ?_, by rw [hresults, h.asking k hk]; rfl⟩
        · rw [in_flight_unique h.creds (hold i hi) hk] at hi
          exact finish_ends hm hi
        · by_contra hcalled
          exact (h.uncalled (by simpa using hcalled)).2 k hk
  refine ⟨Credentials.step_inv B C s.creds o h.creds, h.prompts, fun hcalled => ?_, fun k hk => ?_, ?_⟩
  · obtain ⟨hempty, hnone⟩ := h.uncalled hcalled
    refine ⟨?_, fun k hk => hnone k (hold k hk)⟩
    rw [← hempty]
    exact step_results hnone
  · rcases hresults with hsame | ⟨hnone, -⟩
    · exact hsame.trans (h.asking k (hold k hk))
    · exact absurd hk (hnone k)
  · rcases hresults with hsame | ⟨-, -, hone⟩
    · exact hsame ▸ h.results
    · exact hone.le

/-- the user is asked -/
theorem Inv.prompt (h : Inv B C s) (hcalled : s.hasBeenCalled = false) :
    Inv B C ⟨Credentials.step B C s.creds o, true, s.prompts + 1⟩ := by
  obtain ⟨hempty, hnone⟩ := h.uncalled hcalled
  have hresults : (Credentials.step B C s.creds o).results = [] := (step_results hnone).trans hempty
  refine ⟨Credentials.step_inv B C s.creds o h.creds, ?_, (fun hcalled' => by cases hcalled'), fun _ _ => hresults, ?_⟩
  · rw [h.prompts, hcalled]
    rfl
  · show (Credentials.step B C s.creds o).results.length ≤ 1
    rw [hresults]
    exact Nat.zero_le _

/-- the refresher raises, and with that the one refresh in flight is over -/
theorem Inv.refuse (h : Inv B C s) {k : ℕ} (ho : o.caller = some k)
    (hrefreshes : Refreshes s.creds (Credentials.step B C s.creds o) k) (hcalled : s.hasBeenCalled = true) :
    Inv B C { s with creds := refuse B C (Credentials.step B C s.creds o) k } := by
  have hcreds := Credentials.step_inv B C s.creds o h.creds
  obtain ⟨hsame, hover, hother⟩ := refuse_ends (B := B) (C := C) hrefreshes.2
  have hnone : ∀ i, ¬ InFlight (Mfa.refuse B C (Credentials.step B C s.creds o) k) i := by
    intro i hi
    by_cases hik : i = k
    · exact hover (hik ▸ hi)
    · exact hik (in_flight_unique hcreds (hother i hik hi) hrefreshes.2)
  have hresults : (Credentials.step B C s.creds o).results = s.creds.results := by
    rcases step_cases B C s.creds o with hs | hm
    · rw [hs]
    · rcases move_results hm with hresults | ⟨k', m, rfl, hk', -⟩
      · exact hresults
      · cases ho
        exact absurd hk' hrefreshes.1
  refine ⟨Credentials.step_inv B C _ (.finish k (.raises refreshWithMfaUnsupported)) hcreds, h.prompts,
    fun hcalled' => ?_, fun i hi => absurd hi (hnone i), ?_⟩
  · rw [hcalled] at hcalled'
    cases hcalled'
  · calc (Mfa.refuse B C (Credentials.step B C s.creds o) k).results.length
        = s.creds.results.length := by rw [hsame, hresults]
      _ ≤ 1 := h.results

theorem step_inv (B : Base) (C : Cfg) (s : St) (o : Op) (h : Inv B C s) : Inv B C (step B C s o) := by
  have hmoves := step_moves B C s o
  generalize step B C s o = s' at hmoves
  cases hmoves with
  | plain hplain => exact h.plain hplain
  | prompt k ho hrefreshes hcalled => exact h.prompt hcalled
  | refuse k ho hrefreshes hcalled => exact h.refuse ho hrefreshes hcalled

theorem run_inv (B : Base) (C : Cfg) (t0 : ℤ) (ops : List Op) : Inv B C (exec B C t0 ops) :=
  Async.run_inv (step_inv B C) (inv_init B C t0) ops

/-! ## When the session is over -/

theorem refreshNeeded_later {a : Credentials.Attrs} {now : ℤ} {t : ℕ} (h : refreshNeeded C a now t = true) (d : ℕ) :
    refreshNeeded C a (now + d) t = true := by
  unfold refreshNeeded at h ⊢
  split_ifs at h ⊢ with hdeferred
  · rfl
  · split at h
    · cases h
    · rename_i e he
      simp only [decide_eq_true_eq] at h ⊢
      omega

theorem refreshNeeded_longer {a : Credentials.Attrs} {now : ℤ} {t t' : ℕ} (h : refreshNeeded C a now t = true)
    (hle : t ≤ t') : refreshNeeded C a now t' = true := by
  unfold refreshNeeded at h ⊢
  split_ifs at h ⊢ with hdeferred
  · rfl
  · split at h
    · cases h
    · rename_i e he
      simp only [decide_eq_true_eq] at h ⊢
      omega

/-- a refresh is mandatory, none is in flight, and the refresher has been called -/
structure Dead (C : Cfg) (s : St) : Prop where
  called : s.hasBeenCalled = true
  quiet : ∀ k, ¬ InFlight s.creds k
  due : refreshNeeded C s.creds.attrs s.creds.now C.mandatory = true

/-- what stays when nobody is handed anything -/
structure Stays (c c' : Credentials.St) : Prop where
  attrs : c'.attrs = c.attrs
  rets : c'.rets = c.rets

/-- where no refresh is in flight and each is mandatory, an operation hands out nothing: at most it begins a refresh -/
theorem move_due {c c' : Credentials.St} (hle : C.mandatory ≤ C.advisory) (hquiet : ∀ k, ¬ InFlight c k)
    (hdue : refreshNeeded C c.attrs c.now C.mandatory = true) (hm : Move B C c o c') :
    Stays c c' ∧ refreshNeeded C c'.attrs c'.now C.mandatory = true ∧
      ∀ k, InFlight c' k → c'.pc k = .refreshing true := by
  have hadvisory : refreshNeeded C c.attrs c.now C.advisory = true := refreshNeeded_longer hdue hle
  have honly {c' : Credentials.St} {k : ℕ} {p : Pc} (hpc : c'.pc = update c.pc k p)
      (hp : p ≠ .refreshing false) : ∀ i, InFlight c' i → c'.pc i = .refreshing true := by
    rintro i ⟨im, hi⟩
    rw [hpc] at hi ⊢
    by_cases hik : i = k
    · rw [hik, update_self] at hi ⊢
      cases im with
      | true => exact hi
      | false => exact absurd hi hp
    · rw [update_of_ne hik] at hi
      exact absurd ⟨im, hi⟩ (hquiet i)
  cases hm with
  | tick d => exact ⟨⟨rfl, rfl⟩, refreshNeeded_later hdue d, fun k hk => absurd hk (hquiet k)⟩
  | fresh k hk h =>
    rcases h with h | ⟨-, h⟩
    · rw [hadvisory] at h
      cases h
    · rw [hdue] at h
      cases h
  | queueFree => exact ⟨⟨rfl, rfl⟩, hdue, honly rfl (by simp)⟩
  | queueHeld => exact ⟨⟨rfl, rfl⟩, hdue, honly rfl (by simp)⟩
  | start k => exact ⟨⟨rfl, rfl⟩, hdue, honly rfl (by rw [hdue]; simp)⟩
  | passed k hr h =>
    rcases h with ⟨-, h⟩ | ⟨-, h⟩
    · rw [hadvisory] at h
      cases h
    · rw [hdue] at h
      cases h
  | restart k im hr h =>
    refine ⟨⟨rfl, rfl⟩, hdue, honly rfl ?_⟩
    rcases h with ⟨-, rfl⟩ | ⟨-, rfl, -⟩
    · rw [hdue]
      simp
    · simp
  | failed k text hk => exact absurd ⟨_, hk⟩ (hquiet k)
  | swallowed k text hk => exact absurd ⟨_, hk⟩ (hquiet k)
  | rejected k im m a e hk => exact absurd ⟨_, hk⟩ (hquiet k)
  | expired k im m t hk => exact absurd ⟨_, hk⟩ (hquiet k)
  | refreshed k im m t hk => exact absurd ⟨_, hk⟩ (hquiet k)
  | aborted => exact ⟨⟨rfl, rfl⟩, hdue, honly rfl (by simp)⟩
  | dropped k im hk => exact absurd ⟨_, hk⟩ (hquiet k)

theorem step_due {c : Credentials.St} (hle : C.mandatory ≤ C.advisory) (hquiet : ∀ k, ¬ InFlight c k)
    (hdue : refreshNeeded C c.attrs c.now C.mandatory = true) :
    Stays c (Credentials.step B C c o) ∧
      refreshNeeded C (Credentials.step B C c o).attrs (Credentials.step B C c o).now C.mandatory = true ∧
      ∀ k, InFlight (Credentials.step B C c o) k → (Credentials.step B C c o).pc k = .refreshing true := by
  rcases step_cases B C c o with hs | hm
  · rw [hs]
    exact ⟨⟨rfl, rfl⟩, hdue, fun k hk => absurd hk (hquiet k)⟩
  · exact move_due hle hquiet hdue hm

/-- a mandatory refresh that is refused is the end of its call -/
theorem refuse_mandatory {c : Credentials.St} {k : ℕ} (hk : c.pc k = .refreshing true) :
    Stays c (refuse B C c k) ∧ (refuse B C c k).now = c.now ∧
      (refuse B C c k).pc k = .raised (.refresher refreshWithMfaUnsupported) := by
  simp only [refuse, Credentials.step, hk]
  exact ⟨⟨rfl, rfl⟩, rfl, update_self ..⟩

theorem dead_step (hle : C.mandatory ≤ C.advisory) (hi : Inv B C s) (h : Dead C s) (o : Op) :
    Dead C (step B C s o) ∧ Stays s.creds (step B C s o).creds ∧ (step B C s o).prompts = s.prompts := by
  have hinv := step_inv B C s o hi
  obtain ⟨hstays, hdue, hmandatory⟩ := step_due (B := B) (o := o) hle h.quiet h.due
  have hmoves := step_moves B C s o
  generalize step B C s o = s' at hmoves hinv
  cases hmoves with
  | plain hplain =>
    refine ⟨⟨h.called, fun k hk => ?_, hdue⟩, hstays, rfl⟩
    rcases step_inFlight hk with hk | ⟨hcaller, hrefreshes⟩
    · exact h.quiet k hk
    · exact hplain k hcaller hrefreshes
  | prompt k ho hrefreshes hcalled =>
    rw [h.called] at hcalled
    cases hcalled
  | refuse k ho hrefreshes hcalled =>
    obtain ⟨hsame, hnow, hraised⟩ := refuse_mandatory (B := B) (C := C) (hmandatory k hrefreshes.2)
    obtain ⟨-, hover, hother⟩ := refuse_ends (B := B) (C := C) hrefreshes.2
    refine ⟨⟨h.called, fun i hi => ?_, ?_⟩, ⟨hsame.attrs.trans hstays.attrs, hsame.rets.trans hstays.rets⟩, rfl⟩
    · by_cases hik : i = k
      · exact hover (hik ▸ hi)
      · rcases step_inFlight (hother i hik hi) with hi | ⟨hcaller, -⟩
        · exact h.quiet i hi
        · rw [ho] at hcaller
          exact hik (Option.some.inj hcaller).symm
    · show refreshNeeded C (refuse B C _ k).attrs (refuse B C _ k).now C.mandatory = true
      rw [hsame.attrs, hnow]
      exact hdue

/-- **One prompt.** Whatever calls are interleaved, with a mandatory window no longer than the advisory one (as the class
has them): the user is asked for a code at most once, there is at most one session, and whatever is handed out is of that
session (or the constructor's). When no refresh is in flight and the one prompt has been used, by a session that has come
into its mandatory window or by a code that was rejected, then from there on nobody is asked again, and no call returns
credentials. -/
theorem mfa_once (B : Base) (C : Cfg) (hle : C.mandatory ≤ C.advisory) (t0 : ℤ) (ops later : List Op) :
    let s := exec B C t0 ops
    s.prompts ≤ 1 ∧ s.creds.results.length ≤ 1 ∧
      (∀ r ∈ s.creds.rets, r.value = C.ctor.attrs.frozen ∨ ∃ m, s.creds.results = [m] ∧ r.value = some m.readOnly) ∧
      (s.hasBeenCalled = true → (∀ k, ¬ InFlight s.creds k) →
        refreshNeeded C s.creds.attrs s.creds.now C.mandatory = true →
        (run (step B C) s later).creds.rets = s.creds.rets ∧ (run (step B C) s later).prompts = s.prompts) := by
  intro s
  have hs : Inv B C s := run_inv B C t0 ops
  refine ⟨?_, hs.results, fun r hr => ?_, fun hcalled hquiet hdue => ?_⟩
  · rw [hs.prompts]
    exact Bool.toNat_le _
  · obtain ⟨hvalue, hreceived, -⟩ := hs.creds.data.rets r hr
    cases horigin : r.origin with
    | none => exact .inl (by rw [hvalue, horigin]; rfl)
    | some m =>
      right
      have hm := hreceived m horigin
      obtain ⟨m', hm'⟩ := List.length_eq_one_iff.1 (le_antisymm hs.results (List.length_pos_of_mem hm))
      rw [hm', List.mem_singleton] at hm
      exact ⟨m, by rw [hm', hm], by rw [hvalue, horigin]; rfl⟩
  · have hend : Inv B C (run (step B C) s later) ∧ Dead C (run (step B C) s later) ∧
        (run (step B C) s later).creds.rets = s.creds.rets ∧ (run (step B C) s later).prompts = s.prompts := by
      refine Async.run_inv (I := fun t : St => Inv B C t ∧ Dead C t ∧ t.creds.rets = s.creds.rets ∧ t.prompts = s.prompts)
        (fun t o ht => ?_) ⟨hs, ⟨hcalled, hquiet, hdue⟩, rfl, rfl⟩ later
      obtain ⟨hinv, hdead, hrets, hprompts⟩ := ht
      obtain ⟨hdead', hstays, hprompts'⟩ := dead_step hle hinv hdead o
      exact ⟨step_inv B C t o hinv, hdead', hstays.rets.trans hrets, hprompts'.trans hprompts⟩
    exact hend.2.2

/-! ## An instance -/

/-- a session of an hour -/
def hour : Metadata :=
  [("access_key", some "a"), ("secret_key", some "s"), ("token", some "t"), ("expiry_time", some "hour")]

def hourly : Base := Credentials.botocore fun v => if v = some "hour" then some (Credentials.seconds 3600 : ℕ) else none

/-- the session is fetched, and 55 minutes pass -/
def used : List Op := [.call 0, .finish 0 (.returns hour), .tick (Credentials.seconds 3300)]

def usedCfg : Cfg := Credentials.withDefaults .deferred

/-- the next call is not asked for a code, and raises -/
theorem mfa_once_used :
    let s := exec hourly usedCfg 0 used
    let t := run (step hourly usedCfg) s [.call 1]
    (t.creds.rets = s.creds.rets ∧ t.prompts = 1) ∧ s.creds.rets.length = 1 ∧
      t.creds.pc 1 = .raised (.refresher refreshWithMfaUnsupported) := by
  refine ⟨?_, by decide, by decide⟩
  have hquiet : ∀ k, ¬ InFlight (exec hourly usedCfg 0 used).creds k := by
    rintro k ⟨im, hk⟩
    have hpc : (exec hourly usedCfg 0 used).creds.pc =
        update (update (fun _ => .idle) 0 (.refreshing true)) 0 (.returned (some hour.readOnly)) := rfl
    rw [hpc, update_idem] at hk
    by_cases hk0 : k = 0
    · rw [hk0, update_self] at hk
      cases hk
    · rw [update_of_ne hk0] at hk
      cases hk
  exact (mfa_once hourly usedCfg (by decide) 0 used [.call 1]).2.2.2 rfl hquiet (by decide)

end AioBotocore.Mfa
