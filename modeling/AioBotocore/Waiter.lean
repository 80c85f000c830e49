/-
`AIOWaiter.wait` of `waiter.py`: the operation is polled until an acceptor decides, an error that no acceptor matches
comes back, or `MaxAttempts` is used up. The `k`th poll gets `responses k`, of an infinite sequence.

`R` are the responses, `D` the amounts to sleep. What an acceptor matches and what botocore takes for an error response
are functions of the response.

- `body_spec`: one round of the loop; `current_state` is never terminal when it begins.
- `loop_spec`: where the loop ends, with what, and the polls and sleeps on the way.
- `wait_spec`: the same of `wait`.
-/
import Mathlib.Tactic

namespace AioBotocore.Waiter

/-! ## Model -/

inductive State where
  | waiting
  | success
  | failure
  | retry
deriving DecidableEq, Repr

structure Acceptor (R : Type*) where
  state : State
  explanation : String
  matcherFunc : R → Bool

/-- the waiter's model -/
structure SingleWaiterConfig (R D : Type*) where
  acceptors : List (Acceptor R)
  delay : D
  maxAttempts : ℤ

/-- `response['Error']`, with its `Code` and `Message` -/
structure ErrorOf (R : Type*) where
  isValidWaiterError : R → Bool
  code : R → Option String
  message : R → Option String

structure AIOWaiter (R D : Type*) where
  name : String
  config : SingleWaiterConfig R D
  error : ErrorOf R

/-- the `WaiterConfig` of one call -/
structure WaiterConfig (D : Type*) where
  delay : Option D
  maxAttempts : Option ℤ

inductive Outcome (R : Type*) where
  | returned (response : R)
  | waiterError (name reason : String) (lastResponse : R)
  /-- `acceptor` is read, and there was none -/
  | unboundLocalError
deriving DecidableEq, Repr

inductive Event (D : Type*) where
  | poll
  | sleep (amount : D)
deriving DecidableEq, Repr

structure Run (R D : Type*) where
  events : List (Event D)
  outcome : Outcome R
deriving DecidableEq, Repr

/-- the variables of the loop -/
structure Loop (R : Type*) where
  currentState : State
  lastMatchedAcceptor : Option (Acceptor R)
  numAttempts : ℕ

namespace AIOWaiter

variable {R D : Type*} (w : AIOWaiter R D)

/-- the acceptor at which the `for` breaks -/
def firstMatch (response : R) : Option (Acceptor R) := w.config.acceptors.find? fun a => a.matcherFunc response

/-- the loop variable after the `for` -/
def acceptor (response : R) : Option (Acceptor R) := (w.firstMatch response).or w.config.acceptors.getLast?

/-- a `WaiterError` that names the acceptor -/
def explained (text : String) (response : R) : Outcome R :=
  match w.acceptor response with
  | none => .unboundLocalError
  | some acceptor => .waiterError w.name (text ++ acceptor.explanation) response

/-- the loop after its `for`: it ends, or it goes on after a sleep -/
def settle (maxAttempts : ℤ) (s : Loop R) (response : R) : Outcome R ⊕ Loop R :=
  if s.currentState = .success then .inl (.returned response)
  else if s.currentState = .failure then .inl (w.explained "Waiter encountered a terminal failure state: " response)
  else if maxAttempts ≤ s.numAttempts then
    match s.lastMatchedAcceptor with
    | none => .inl (.waiterError w.name "Max attempts exceeded" response)
    | some _ => .inl (w.explained "Max attempts exceeded. Previously accepted state: " response)
  else .inr s

/-- one round -/
def body (maxAttempts : ℤ) (s : Loop R) (response : R) : Outcome R ⊕ Loop R :=
  match w.firstMatch response with
  | some acceptor => w.settle maxAttempts ⟨acceptor.state, some acceptor, s.numAttempts + 1⟩ response
  | none =>
    if w.error.isValidWaiterError response then
      .inl (.waiterError w.name ("An error occurred (" ++ (w.error.code response).getD "Unknown" ++ "): " ++
        (w.error.message response).getD "Unknown") response)
    else w.settle maxAttempts { s with numAttempts := s.numAttempts + 1 } response

theorem settle_inr {maxAttempts : ℤ} {s s' : Loop R} {response : R} (h : w.settle maxAttempts s response = .inr s') :
    s' = s ∧ s.numAttempts < maxAttempts := by
  unfold settle at h
  split_ifs at h with _ _ hmax
  · split at h
    · cases h
    · cases h
  · cases h
    exact ⟨rfl, not_le.1 hmax⟩

theorem body_inr {maxAttempts : ℤ} {s s' : Loop R} {response : R} (h : w.body maxAttempts s response = .inr s') :
    s'.numAttempts = s.numAttempts + 1 ∧ s'.numAttempts < maxAttempts := by
  unfold body at h
  split at h
  · obtain ⟨rfl, hlt⟩ := w.settle_inr h
    exact ⟨rfl, hlt⟩
  · split_ifs at h
    obtain ⟨rfl, hlt⟩ := w.settle_inr h
    exact ⟨rfl, hlt⟩

def loop (responses : ℕ → R) (sleepAmount : D) (maxAttempts : ℤ) (s : Loop R) : Run R D :=
  match _h : w.body maxAttempts s (responses s.numAttempts) with
  | .inl outcome => ⟨[.poll], outcome⟩
  | .inr s' =>
    let rest := loop responses sleepAmount maxAttempts s'
    ⟨.poll :: .sleep sleepAmount :: rest.events, rest.outcome⟩
termination_by (maxAttempts - s.numAttempts).toNat
decreasing_by
  obtain ⟨hnum, hlt⟩ := w.body_inr _h
  omega

def wait (config : WaiterConfig D) (responses : ℕ → R) : Run R D :=
  w.loop responses (config.delay.getD w.config.delay) (config.maxAttempts.getD w.config.maxAttempts) ⟨.waiting, none, 0⟩

/-! ## One round -/

/-- the first matching acceptor has state success -/
def Succeeds (response : R) : Prop := ∃ a, w.firstMatch response = some a ∧ a.state = .success

/-- the first matching acceptor has state success or failure -/
def Decides (response : R) : Prop := ∃ a, w.firstMatch response = some a ∧ (a.state = .success ∨ a.state = .failure)

/-- an error response that no acceptor matches -/
def UnmatchedError (response : R) : Prop := w.firstMatch response = none ∧ w.error.isValidWaiterError response = true

/-- the loop ends in round `k`, if it gets there -/
def Stops (maxAttempts : ℤ) (responses : ℕ → R) (k : ℕ) : Prop :=
  w.Decides (responses k) ∨ w.UnmatchedError (responses k) ∨ maxAttempts ≤ k + 1

/-- how `wait` ends on its last response -/
structure EndsWith (response : R) (outcome : Outcome R) : Prop where
  success : w.Succeeds response → outcome = .returned response
  error : ¬ w.Succeeds response → ∃ reason, outcome = .waiterError w.name reason response

/-- when a round begins: no acceptor has decided, and one that was matched is in the list -/
structure Ready (s : Loop R) : Prop where
  success : s.currentState ≠ .success
  failure : s.currentState ≠ .failure
  matched : s.lastMatchedAcceptor ≠ none → w.config.acceptors ≠ []

variable {w}

theorem firstMatch_mem {response : R} {a : Acceptor R} (h : w.firstMatch response = some a) : w.config.acceptors ≠ [] :=
  List.ne_nil_of_mem (List.mem_of_find?_eq_some h)

/-- an acceptor is bound when its explanation is read -/
theorem explained_spec (text : String) {response : R} (h : w.config.acceptors ≠ []) :
    ∃ reason, w.explained text response = .waiterError w.name reason response := by
  unfold explained
  cases ha : w.acceptor response with
  | none =>
    rw [acceptor, Option.or_eq_none_iff] at ha
    exact absurd (List.getLast?_eq_none_iff.1 ha.2) h
  | some a => exact ⟨_, rfl⟩

/-- a state with an acceptor to name, should it end the loop -/
theorem settle_spec (maxAttempts : ℤ) (s : Loop R) (response : R)
    (hfailure : s.currentState = .failure → w.config.acceptors ≠ [])
    (hmatched : s.lastMatchedAcceptor ≠ none → w.config.acceptors ≠ []) :
    (s.currentState = .success → w.settle maxAttempts s response = .inl (.returned response)) ∧
    (s.currentState ≠ .success → s.currentState = .failure ∨ maxAttempts ≤ s.numAttempts →
      ∃ reason, w.settle maxAttempts s response = .inl (.waiterError w.name reason response)) ∧
    (s.currentState ≠ .success → s.currentState ≠ .failure → s.numAttempts < maxAttempts →
      w.settle maxAttempts s response = .inr s) := by
  refine ⟨fun hs => by rw [settle, if_pos hs], fun hs hends => ?_, fun hs hf hlt => ?_⟩
  · rw [settle, if_neg hs]
    by_cases hf : s.currentState = .failure
    · rw [if_pos hf]
      obtain ⟨reason, hreason⟩ := explained_spec (w := w) "Waiter encountered a terminal failure state: " (hfailure hf)
      exact ⟨reason, by rw [hreason]⟩
    · rw [if_neg hf, if_pos (hends.resolve_left hf)]
      cases hlast : s.lastMatchedAcceptor with
      | none => exact ⟨_, rfl⟩
      | some a =>
        obtain ⟨reason, hreason⟩ := explained_spec (w := w) "Max attempts exceeded. Previously accepted state: "
          (hmatched (by rw [hlast]; simp))
        exact ⟨reason, by rw [hreason]⟩
  · rw [settle, if_neg hs, if_neg hf, if_neg (not_le.2 hlt)]

/-- a response that no acceptor matches -/
theorem not_decides {response : R} (h : w.firstMatch response = none) :
    ¬ w.Succeeds response ∧ ¬ w.Decides response := by
  constructor
  · rintro ⟨a, ha, -⟩
    rw [h] at ha
    cases ha
  · rintro ⟨a, ha, -⟩
    rw [h] at ha
    cases ha

theorem matched_iff {response : R} {a : Acceptor R} (h : w.firstMatch response = some a) :
    (w.Succeeds response ↔ a.state = .success) ∧ (w.Decides response ↔ a.state = .success ∨ a.state = .failure) := by
  constructor
  · constructor
    · rintro ⟨b, hb, hs⟩
      rw [h] at hb
      cases hb
      exact hs
    · exact fun hs => ⟨a, h, hs⟩
  · constructor
    · rintro ⟨b, hb, hs⟩
      rw [h] at hb
      cases hb
      exact hs
    · exact fun hs => ⟨a, h, hs⟩

/-- **One round.** It ends the loop just where the round stops, and then as its response says. -/
theorem body_spec (maxAttempts : ℤ) (responses : ℕ → R) {s : Loop R} (h : w.Ready s) :
    (∃ outcome, w.body maxAttempts s (responses s.numAttempts) = .inl outcome ∧
      w.Stops maxAttempts responses s.numAttempts ∧ w.EndsWith (responses s.numAttempts) outcome) ∨
    ∃ s', w.body maxAttempts s (responses s.numAttempts) = .inr s' ∧
      ¬ w.Stops maxAttempts responses s.numAttempts ∧ w.Ready s' ∧ s'.numAttempts = s.numAttempts + 1 := by
  unfold body Stops
  generalize responses s.numAttempts = response
  have hcast : ((s.numAttempts + 1 : ℕ) : ℤ) = s.numAttempts + 1 := by push_cast; rfl
  cases hmatch : w.firstMatch response with
  | none =>
    obtain ⟨hnot, hundecided⟩ := not_decides hmatch
    simp only
    by_cases herror : w.error.isValidWaiterError response = true
    · rw [if_pos herror]
      exact .inl ⟨_, rfl, .inr (.inl ⟨hmatch, herror⟩), fun hs => absurd hs hnot, fun _ => ⟨_, rfl⟩⟩
    · rw [if_neg herror]
      obtain ⟨-, hends, hgoes⟩ := settle_spec maxAttempts { s with numAttempts := s.numAttempts + 1 } response
        (fun hf => absurd hf h.failure) h.matched
      by_cases hmax : maxAttempts ≤ s.numAttempts + 1
      · obtain ⟨reason, hreason⟩ := hends h.success (.inr (hcast ▸ hmax))
        exact .inl ⟨_, hreason, .inr (.inr hmax), fun hs => absurd hs hnot, fun _ => ⟨_, rfl⟩⟩
      · refine .inr ⟨_, hgoes h.success h.failure (hcast ▸ not_le.1 hmax), ?_, ⟨h.success, h.failure, h.matched⟩, rfl⟩
        rintro (hd | hu | hm)
        · exact hundecided hd
        · exact herror hu.2
        · exact hmax hm
  | some a =>
    have hne := firstMatch_mem hmatch
    obtain ⟨hsucceeds, hdecides⟩ := matched_iff hmatch
    simp only
    obtain ⟨hreturns, hends, hgoes⟩ := settle_spec maxAttempts ⟨a.state, some a, s.numAttempts + 1⟩ response
      (fun _ => hne) (fun _ => hne)
    by_cases hsuccess : a.state = .success
    · exact .inl ⟨_, hreturns hsuccess, .inl (hdecides.2 (.inl hsuccess)), fun _ => rfl,
        fun hn => absurd (hsucceeds.2 hsuccess) hn⟩
    · have hnot : ¬ w.Succeeds response := fun hs => hsuccess (hsucceeds.1 hs)
      by_cases hstop : a.state = .failure ∨ maxAttempts ≤ s.numAttempts + 1
      · obtain ⟨reason, hreason⟩ := hends hsuccess (hcast ▸ hstop)
        refine .inl ⟨_, hreason, ?_, fun hs => absurd hs hnot, fun _ => ⟨_, rfl⟩⟩
        rcases hstop with hf | hm
        · exact .inl (hdecides.2 (.inr hf))
        · exact .inr (.inr hm)
      · obtain ⟨hf, hm⟩ := not_or.1 hstop
        refine .inr ⟨_, hgoes hsuccess hf (hcast ▸ not_le.1 hm), ?_, ⟨hsuccess, hf, fun _ => hne⟩, rfl⟩
        rintro (hd | hu | hle)
        · exact (hdecides.1 hd).elim hsuccess hf
        · rw [hu.1] at hmatch
          cases hmatch
        · exact hm hle

/-! ## The loop -/

/-- `n` polls with a sleep after each, and a last one -/
def rounds (amount : D) (n : ℕ) : List (Event D) := (List.replicate n [.poll, .sleep amount]).flatten ++ [.poll]

theorem rounds_succ (amount : D) (n : ℕ) : rounds amount (n + 1) = .poll :: .sleep amount :: rounds amount n := rfl

/-- **The loop.** It goes through rounds that do not stop, and ends in the first that does. -/
theorem loop_spec (responses : ℕ → R) (sleepAmount : D) (maxAttempts : ℤ) {s : Loop R} (h : w.Ready s) :
    ∃ n, (w.loop responses sleepAmount maxAttempts s).events = rounds sleepAmount n ∧
      (∀ k, s.numAttempts ≤ k → k < s.numAttempts + n → ¬ w.Stops maxAttempts responses k) ∧
      w.Stops maxAttempts responses (s.numAttempts + n) ∧
      w.EndsWith (responses (s.numAttempts + n)) (w.loop responses sleepAmount maxAttempts s).outcome := by
  induction hm : (maxAttempts - s.numAttempts).toNat using Nat.strong_induction_on generalizing s with
  | _ m ih =>
    rw [loop]
    rcases body_spec maxAttempts responses h with
      ⟨outcome, hbody, hstops, hends⟩ | ⟨s', hbody, hgoes, hready, hnum⟩
    · split
      · rename_i outcome' hbody'
        rw [hbody] at hbody'
        cases hbody'
        exact ⟨0, rfl, fun k hk hlt => absurd hlt (by omega), hstops, hends⟩
      · rename_i s' hbody'
        rw [hbody] at hbody'
        cases hbody'
    · split
      · rename_i outcome hbody'
        rw [hbody] at hbody'
        cases hbody'
      · rename_i s'' hbody'
        rw [hbody] at hbody'
        cases hbody'
        have hlt := (w.body_inr hbody).2
        obtain ⟨n, hevents, hbefore, hstops, hends⟩ := ih _ (by omega) hready rfl
        have hlast : s'.numAttempts + n = s.numAttempts + (n + 1) := by omega
        rw [hlast] at hstops hends
        refine ⟨n + 1, ?_, fun k hk hkn => ?_, hstops, hends⟩
        · rw [rounds_succ, ← hevents]
        · rcases Nat.eq_or_lt_of_le hk with rfl | hk
          · exact hgoes
          · exact hbefore k (by omega) (by omega)

/-! ## Main result -/

def Event.isPoll : Event D → Bool
  | .poll => true
  | .sleep _ => false

theorem rounds_polls (amount : D) (n : ℕ) : (rounds amount n).countP Event.isPoll = n + 1 := by
  induction n with
  | zero => rfl
  | succ n ih =>
    rw [rounds_succ, List.countP_cons_of_pos rfl, List.countP_cons_of_neg (by simp [Event.isPoll]), ih]

/-- how often a run polls -/
def polls (run : Run R D) : ℕ := run.events.countP Event.isPoll

/-- **Polling.** For all acceptors, every `MaxAttempts` and every sequence of responses: the polls are as many as the
least of the index of the first response that an acceptor decides on, of the first unmatched error, and `MaxAttempts` or
1. `wait` returns just when the last response succeeds, and then that response; else it raises a `WaiterError` with it.
It sleeps once between two polls, and not after the last. -/
theorem wait_spec (w : AIOWaiter R D) (config : WaiterConfig D) (responses : ℕ → R) :
    let maxAttempts := config.maxAttempts.getD w.config.maxAttempts
    let run := w.wait config responses
    let last := responses (polls run - 1)
    IsLeast ({m | ∃ k, m = k + 1 ∧ w.Decides (responses k)} ∪ {m | ∃ k, m = k + 1 ∧ w.UnmatchedError (responses k)} ∪
      {(max 1 maxAttempts).toNat}) (polls run) ∧
    ((∃ response, run.outcome = .returned response) ↔ w.Succeeds last) ∧
    (∀ response, run.outcome = .returned response → response = last) ∧
    (¬ w.Succeeds last → ∃ reason, run.outcome = .waiterError w.name reason last) ∧
    run.events = rounds (config.delay.getD w.config.delay) (polls run - 1) := by
  intro maxAttempts run last
  have hready : w.Ready ⟨.waiting, none, 0⟩ := ⟨by simp, by simp, by simp⟩
  obtain ⟨n, hevents, hbefore, hstops, hends⟩ :=
    loop_spec responses (config.delay.getD w.config.delay) maxAttempts hready
  change run.events = _ at hevents
  change w.EndsWith _ run.outcome at hends
  simp only [Nat.zero_add, Nat.zero_le, true_implies] at hbefore hstops hends
  have hpolls : polls run = n + 1 := by rw [polls, hevents, rounds_polls]
  have hlast : last = responses n := by simp only [last, hpolls, Nat.add_sub_cancel]
  rw [hpolls, hlast, Nat.add_sub_cancel]
  refine ⟨⟨?_, ?_⟩, ⟨?_, fun hs => ⟨_, hends.success hs⟩⟩, fun response hr => ?_, hends.error, hevents⟩
  · -- the round that stops is in the set
    rcases hstops with hd | hu | hm
    · exact .inl (.inl ⟨n, rfl, hd⟩)
    · exact .inl (.inr ⟨n, rfl, hu⟩)
    · right
      have hnot : n = 0 ∨ ¬ maxAttempts ≤ n := by
        rcases Nat.eq_zero_or_pos n with h0 | hpos
        · exact .inl h0
        · refine .inr fun hle => hbefore (n - 1) (by omega) (.inr (.inr ?_))
          rw [Nat.cast_sub hpos]
          push_cast
          omega
      rw [Set.mem_singleton_iff]
      omega
  · -- no earlier round stops
    rintro m ((⟨k, rfl, hd⟩ | ⟨k, rfl, hu⟩) | hm)
    · by_contra hlt
      exact hbefore k (by omega) (.inl hd)
    · by_contra hlt
      exact hbefore k (by omega) (.inr (.inl hu))
    · rw [Set.mem_singleton_iff] at hm
      by_contra hlt
      refine hbefore (m - 1) (by omega) (.inr (.inr ?_))
      omega
  · rintro ⟨response, hr⟩
    by_contra hn
    obtain ⟨reason, hreason⟩ := hends.error hn
    rw [hreason] at hr
    cases hr
  · by_cases hs : w.Succeeds (responses n)
    · rw [hends.success hs] at hr
      cases hr
      rfl
    · obtain ⟨reason, hreason⟩ := hends.error hs
      rw [hreason] at hr
      cases hr

end AIOWaiter

end AioBotocore.Waiter
