/-
`context.py`: the contexts in which feature ids are registered, for tasks whose API calls, client creations, paginator
requests and waiter waits run under `with_current_context`.

The context variable of a task refers to a `ClientContext`, an object that is written in place. A wrapped call makes an
object of its own, a deep copy of the current one, and sets the variable back on every exit. A task begins with a copy
of the variables of the task that starts it, so with the same object: it is inside the call it was started in. Objects
are numbered as they are made, so an object names the wrapped call that made it, and `path` keeps the calls it was made
in.

- `step_moves`: everything one operation does.
- `visible_nested`: what is registered in a call is seen in every call nested in it that is entered afterwards.
- `agrees_run`: two runs that differ in what is registered inside a call look the same everywhere outside it.
- `left_as_entered`: a call leaves the context it was entered in as it found it.
-/
import Mathlib.Tactic
import Mathlib.Data.Finset.Option
import AioBotocore.Async.Run

namespace AioBotocore.Context

open Async Function

variable {ν φ : Type*}

/-! ## Model -/

structure St (ν : Type*) where
  /-- `ClientContext.features` of the objects -/
  features : ℕ → Finset ν
  /-- the wrapped calls an object was made in, its own first -/
  path : ℕ → List ℕ
  next : ℕ
  started : ℕ → Bool
  /-- the context variable of each task -/
  context : ℕ → Option ℕ
  /-- what the tokens of the calls a task is in hold, the last one first -/
  tokens : ℕ → List (Option ℕ)

/-- how a wrapped call ends -/
inductive Exit where
  | returned
  | raised
  | cancelled
  | hookRaised
deriving DecidableEq, Repr

inductive Op (φ : Type*) where
  /-- task `k` starts a task, or a thread -/
  | start (k child : ℕ)
  | enter (k : ℕ)
  /-- the hook of the call, or any code in it, registers a feature id -/
  | register (k : ℕ) (featureId : φ)
  | exit (k : ℕ) (how : Exit)
deriving DecidableEq, Repr

/-- one task, with no context -/
def init : St ν := ⟨fun _ => ∅, fun _ => [], 0, fun k => k == 0, fun _ => none, fun _ => []⟩

def setContext (s : St ν) (k new : ℕ) : St ν :=
  { s with context := update s.context k (some new), tokens := update s.tokens k (s.context k :: s.tokens k) }

def resetContext (s : St ν) (k : ℕ) (old : Option ℕ) : St ν :=
  { s with context := update s.context k old, tokens := update s.tokens k (s.tokens k).tail }

/-- `start_as_current_context` up to its `yield` -/
def startAsCurrentContext (s : St ν) (k : ℕ) (ctx : Option ℕ) : St ν :=
  let current := ctx <|> s.context k
  setContext
    { s with features := update s.features s.next (current.elim ∅ s.features),
             path := update s.path s.next (s.next :: current.elim [] s.path),
             next := s.next + 1 } k s.next

variable [DecidableEq ν]

/-- `register_feature_id`; ids that are not in the user agent's mapping are passed over -/
def registerFeatureId (mapping : φ → Option ν) (s : St ν) (k : ℕ) (featureId : φ) : St ν :=
  match s.context k, mapping featureId with
  | some c, some v => { s with features := update s.features c (insert v (s.features c)) }
  | _, _ => s

def step (mapping : φ → Option ν) (s : St ν) : Op φ → St ν
  | .start k child =>
    if s.started k ∧ ¬ s.started child then
      { s with started := update s.started child true, context := update s.context child (s.context k) }
    else s
  | .enter k => if s.started k then startAsCurrentContext s k none else s
  | .register k f => registerFeatureId mapping s k f
  | .exit k _ =>
    -- the `finally` is the same however the call ends
    match s.tokens k with
    | old :: _ => resetContext s k old
    | [] => s

/-- the feature ids that a request of the task would carry -/
def visible (s : St ν) (k : ℕ) : Finset ν := (s.context k).elim ∅ s.features

/-- the wrapped calls that the task is in, the innermost first -/
def calls (s : St ν) (k : ℕ) : List ℕ := (s.context k).elim [] s.path

section Fields

variable (s : St ν) (k : ℕ)

omit [DecidableEq ν]

/-- a new object is in the calls that its task is in, and holds what the task sees -/
theorem enter_path (n : ℕ) :
    (startAsCurrentContext s k none).path n = if n = s.next then s.next :: calls s k else s.path n := update_apply ..

theorem enter_features (n : ℕ) :
    (startAsCurrentContext s k none).features n = if n = s.next then visible s k else s.features n := update_apply ..

@[simp] theorem enter_next : (startAsCurrentContext s k none).next = s.next + 1 := rfl

@[simp] theorem enter_started : (startAsCurrentContext s k none).started = s.started := rfl

theorem enter_context (i : ℕ) :
    (startAsCurrentContext s k none).context i = if i = k then some s.next else s.context i := update_apply ..

theorem enter_tokens (i : ℕ) :
    (startAsCurrentContext s k none).tokens i = if i = k then s.context k :: s.tokens k else s.tokens i :=
  update_apply ..

theorem reset_context (old : Option ℕ) (i : ℕ) :
    (resetContext s k old).context i = if i = k then old else s.context i := update_apply ..

theorem reset_tokens (old : Option ℕ) (i : ℕ) :
    (resetContext s k old).tokens i = if i = k then (s.tokens k).tail else s.tokens i := update_apply ..

theorem calls_of_context {c : ℕ} (h : s.context k = some c) : calls s k = s.path c := by rw [calls, h]; rfl

theorem visible_of_context {c : ℕ} (h : s.context k = some c) : visible s k = s.features c := by rw [visible, h]; rfl

theorem calls_enter : calls (startAsCurrentContext s k none) k = s.next :: calls s k := by
  have hcontext : (startAsCurrentContext s k none).context k = some s.next := by rw [enter_context, if_pos rfl]
  rw [calls_of_context _ k hcontext, enter_path, if_pos rfl]

end Fields

/-! ## What one operation does -/

inductive Moves (mapping : φ → Option ν) (s : St ν) : Op φ → St ν → Prop
  | none (o : Op φ) : Moves mapping s o s
  | start {k child} (hchild : s.started child = false) :
      Moves mapping s (.start k child)
        { s with started := update s.started child true, context := update s.context child (s.context k) }
  | enter {k} (hk : s.started k) : Moves mapping s (.enter k) (startAsCurrentContext s k .none)
  | register {k f c v} (hc : s.context k = some c) (hv : mapping f = some v) :
      Moves mapping s (.register k f) { s with features := update s.features c (insert v (s.features c)) }
  | exit {k how old rest} (hk : s.tokens k = old :: rest) : Moves mapping s (.exit k how) (resetContext s k old)

variable (mapping : φ → Option ν)

theorem step_moves (s : St ν) (o : Op φ) : Moves mapping s o (step mapping s o) := by
  cases o with
  | start k child =>
    simp only [step]
    split_ifs with h
    · exact .start (by simpa using h.2)
    · exact .none _
  | enter k =>
    simp only [step]
    split_ifs with h
    · exact .enter h
    · exact .none _
  | register k f =>
    simp only [step, registerFeatureId]
    split
    · rename_i c v hc hv
      exact .register hc hv
    · exact .none _
  | exit k how =>
    simp only [step]
    split
    · rename_i old rest hk
      exact .exit hk
    · exact .none _

/-- objects are made in the order of their numbers, and a task only refers to objects that are made -/
structure Inv (s : St ν) : Prop where
  unmade : ∀ n, s.next ≤ n → s.path n = []
  own : ∀ n < s.next, n ∈ s.path n
  le : ∀ n, ∀ m ∈ s.path n, m ≤ n
  made : ∀ k c, s.context k = some c → c < s.next
  kept : ∀ k c, some c ∈ s.tokens k → c < s.next
  /-- a task that was not started is in no call -/
  idle : ∀ k, s.started k = false → s.tokens k = []

omit [DecidableEq ν] in
theorem inv_init : Inv (init : St ν) :=
  ⟨fun _ _ => rfl, fun _ h => absurd h (Nat.not_lt_zero _), fun _ _ h => absurd h List.not_mem_nil,
    fun _ _ h => by simp [init] at h, fun _ _ h => by simp [init] at h, fun _ _ => rfl⟩

omit [DecidableEq ν] in
theorem Inv.lt_next {s : St ν} (h : Inv s) {n m : ℕ} (hm : m ∈ s.path n) : n < s.next := by
  by_contra hn
  rw [h.unmade n (not_lt.1 hn)] at hm
  exact List.not_mem_nil hm

omit [DecidableEq ν] in
theorem Inv.calls_lt {s : St ν} (h : Inv s) {k m : ℕ} (hm : m ∈ calls s k) : m < s.next := by
  cases hc : s.context k with
  | none => simp [calls, hc] at hm
  | some c =>
    rw [calls_of_context s k hc] at hm
    exact (h.le c m hm).trans_lt (h.made k c hc)

omit [DecidableEq ν] in
theorem Inv.enter {s : St ν} (h : Inv s) {k : ℕ} (hk : s.started k) : Inv (startAsCurrentContext s k none) := by
  constructor
  · intro n hn
    rw [enter_next] at hn
    rw [enter_path, if_neg (by omega)]
    exact h.unmade n (by omega)
  · intro n hn
    rw [enter_next] at hn
    rw [enter_path]
    split_ifs with hnew
    · exact hnew ▸ List.mem_cons_self
    · exact h.own n (by omega)
  · intro n m hm
    rw [enter_path] at hm
    split_ifs at hm with hnew
    · rcases List.mem_cons.1 hm with rfl | hm
      · exact hnew.ge
      · exact hnew ▸ (h.calls_lt hm).le
    · exact h.le n m hm
  · intro i c hc
    rw [enter_context] at hc
    rw [enter_next]
    split_ifs at hc with hik
    · obtain rfl := Option.some.inj hc
      exact Nat.lt_succ_self _
    · exact (h.made i c hc).trans (Nat.lt_succ_self _)
  · intro i c hc
    rw [enter_tokens] at hc
    rw [enter_next]
    split_ifs at hc with hik
    · rcases List.mem_cons.1 hc with hc | hc
      · exact (h.made k c hc.symm).trans (Nat.lt_succ_self _)
      · exact (h.kept k c hc).trans (Nat.lt_succ_self _)
    · exact (h.kept i c hc).trans (Nat.lt_succ_self _)
  · intro i hi
    rw [enter_started] at hi
    rw [enter_tokens, if_neg]
    · exact h.idle i hi
    · rintro rfl
      rw [hk] at hi
      cases hi

omit [DecidableEq ν] in
theorem Inv.exit {s : St ν} (h : Inv s) {k : ℕ} {old : Option ℕ} {rest : List (Option ℕ)}
    (hk : s.tokens k = old :: rest) : Inv (resetContext s k old) := by
  refine ⟨h.unmade, h.own, h.le, ?_, ?_, ?_⟩
  · intro i c hc
    rw [reset_context] at hc
    split_ifs at hc with hik
    · exact h.kept k c (by rw [hk, hc]; exact List.mem_cons_self)
    · exact h.made i c hc
  · intro i c hc
    rw [reset_tokens] at hc
    split_ifs at hc with hik
    · exact h.kept k c (List.mem_of_mem_tail hc)
    · exact h.kept i c hc
  · intro i hi
    rw [reset_tokens]
    split_ifs with hik
    · subst hik
      rw [h.idle i hi]
      rfl
    · exact h.idle i hi

theorem Moves.inv {mapping : φ → Option ν} {s t : St ν} {o : Op φ} (hm : Moves mapping s o t) (h : Inv s) : Inv t := by
  cases hm with
  | none => exact h
  | @start k child hchild =>
    refine ⟨h.unmade, h.own, h.le, fun i c hc => ?_, h.kept, fun i hi => ?_⟩
    · rcases eq_or_ne i child with rfl | hne
      · exact h.made k c (by simpa using hc)
      · exact h.made i c (by simpa [hne] using hc)
    · rcases eq_or_ne i child with rfl | hne
      · exact h.idle i hchild
      · exact h.idle i (by simpa [hne] using hi)
  | enter hk => exact h.enter hk
  | register hc hv => exact ⟨h.unmade, h.own, h.le, h.made, h.kept, h.idle⟩
  | exit hk => exact h.exit hk

theorem step_inv (s : St ν) (o : Op φ) (h : Inv s) : Inv (step mapping s o) := (step_moves mapping s o).inv h

theorem reachable_inv (ops : List (Op φ)) : Inv (run (step mapping) init ops) :=
  run_inv (fun s o => step_inv mapping s o) inv_init ops

/-! ## Into the calls nested in a call -/

/-- `v` is in every object made in call `c` through calls that all were entered from number `since` on -/
def Spreads (c since : ℕ) (v : ν) (s : St ν) : Prop :=
  ∀ n, c ∈ s.path n → (∀ m ∈ s.path n, c < m → since ≤ m) → v ∈ s.features n

omit [DecidableEq ν] in
theorem Spreads.enter {c since : ℕ} {v : ν} {s : St ν} (h : Spreads c since v s) (hc : c < s.next) (k : ℕ) :
    Spreads c since v (startAsCurrentContext s k none) := by
  intro n hn hlater
  rw [enter_path] at hn hlater
  rw [enter_features]
  split_ifs at hn hlater ⊢ with hnew
  · -- the new object copies the one of the call it is made in
    have hin : c ∈ calls s k := (List.mem_cons.1 hn).resolve_left hc.ne
    cases hk : s.context k with
    | none => simp [calls, hk] at hin
    | some d =>
      rw [calls_of_context s k hk] at hin hlater
      rw [visible_of_context s k hk]
      exact h d hin fun m hm => hlater m (List.mem_cons_of_mem _ hm)
  · exact h n hn hlater

theorem Moves.spreads {mapping : φ → Option ν} {c since : ℕ} {v : ν} {s t : St ν} {o : Op φ} (hm : Moves mapping s o t)
    (hc : c < s.next) (hv : Spreads c since v s) : c < t.next ∧ Spreads c since v t := by
  cases hm with
  | none => exact ⟨hc, hv⟩
  | start => exact ⟨hc, hv⟩
  | @enter k => exact ⟨hc.trans (Nat.lt_succ_self _), hv.enter hc k⟩
  | @register k f d w =>
    refine ⟨hc, fun n hn hlater => ?_⟩
    rcases eq_or_ne n d with rfl | hne
    · simpa using .inr (hv n hn hlater)
    · simpa [hne] using hv n hn hlater
  | exit => exact ⟨hc, hv⟩

/-- a feature id registered in call `c` is seen by every task that is in `c`, through whatever calls and tasks, if the
calls in between were entered after it was registered -/
theorem visible_nested {s : St ν} (hs : Inv s) {j c : ℕ} (hj : s.context j = some c) {f : φ}
    {v : ν} (hf : mapping f = some v) (ops : List (Op φ)) {k : ℕ}
    (hin : c ∈ calls (run (step mapping) s (.register j f :: ops)) k)
    (hlater : ∀ m ∈ calls (run (step mapping) s (.register j f :: ops)) k, c < m → s.next ≤ m) :
    v ∈ visible (run (step mapping) s (.register j f :: ops)) k := by
  have hstep : step mapping s (.register j f) =
      { s with features := update s.features c (insert v (s.features c)) } := by
    simp [step, registerFeatureId, hj, hf]
  have hc : c < s.next := hs.made j c hj
  have hfirst : Spreads c s.next v (step mapping s (.register j f)) := by
    rw [hstep]
    intro n hn hnew
    -- an object that exists already and is not the one of `c` would have to be new
    have hcn : c ≤ n := hs.le n c hn
    have hns : n < s.next := hs.lt_next hn
    have hnc : n = c := by
      by_contra hne
      have := hnew n (hs.own n hns) (by omega)
      omega
    simp [hnc]
  rw [run_cons] at hin hlater ⊢
  have hmade : c < (step mapping s (.register j f)).next := by rw [hstep]; exact hc
  have hrun := run_inv (I := fun t => c < t.next ∧ Spreads c s.next v t)
    (fun t o ht => (step_moves mapping t o).spreads ht.1 ht.2) ⟨hmade, hfirst⟩ ops
  generalize run (step mapping) (step mapping s (.register j f)) ops = t at *
  cases hk : t.context k with
  | none => simp [calls, hk] at hin
  | some n =>
    rw [calls, hk] at hin hlater
    rw [visible, hk]
    exact hrun.2 n hin hlater

/-! ## Nothing gets out of a call -/

/-- the operation registers a feature id inside call `c` -/
def RegistersIn (c : ℕ) (s : St ν) : Op φ → Prop
  | .register k _ => c ∈ calls s k
  | _ => False

/-- two runs that differ only in what is registered inside call `c` -/
inductive Similar (mapping : φ → Option ν) (c : ℕ) : St ν → List (Op φ) → List (Op φ) → Prop
  | nil (s) : Similar mapping c s [] []
  | same {s ops ops'} (o) (h : Similar mapping c (step mapping s o) ops ops') :
      Similar mapping c s (o :: ops) (o :: ops')
  | left {s o ops ops'} (ho : RegistersIn c s o) (h : Similar mapping c (step mapping s o) ops ops') :
      Similar mapping c s (o :: ops) ops'
  | right {s o ops ops'} (ho : RegistersIn c s o) (h : Similar mapping c s ops ops') :
      Similar mapping c s ops (o :: ops')

/-- the same but for the objects made inside call `c` -/
def Agrees (c : ℕ) (s t : St ν) : Prop :=
  ∃ g, t = { s with features := g } ∧ ∀ n, c ∉ s.path n → g n = s.features n

omit [DecidableEq ν] in
theorem Agrees.refl (c : ℕ) (s : St ν) : Agrees c s s := ⟨s.features, rfl, fun _ _ => rfl⟩

omit [DecidableEq ν] in
theorem Agrees.visible {c : ℕ} {s t : St ν} (h : Agrees c s t) {k : ℕ} (hk : c ∉ calls s k) :
    t.context k = s.context k ∧ calls t k = calls s k ∧ visible t k = visible s k := by
  obtain ⟨g, rfl, hg⟩ := h
  refine ⟨rfl, rfl, ?_⟩
  cases hc : s.context k with
  | none => simp [Context.visible, hc]
  | some n =>
    rw [calls, hc] at hk
    simpa [Context.visible, hc] using hg n hk

theorem agrees_step {c : ℕ} {s t : St ν} (h : Agrees c s t) (o : Op φ) :
    Agrees c (step mapping s o) (step mapping t o) := by
  obtain ⟨g, rfl, hg⟩ := h
  cases o with
  | start k child =>
    simp only [step]
    split_ifs
    · exact ⟨g, rfl, hg⟩
    · exact ⟨g, rfl, hg⟩
  | enter k =>
    simp only [step]
    split_ifs
    · refine ⟨_, rfl, fun n hn => ?_⟩
      rw [enter_path] at hn
      show (startAsCurrentContext { s with features := g } k none).features n = _
      rw [enter_features, enter_features]
      split_ifs at hn ⊢ with hnew
      · exact (Agrees.visible ⟨g, rfl, hg⟩ fun hin => hn (List.mem_cons_of_mem _ hin)).2.2
      · exact hg n hn
    · exact ⟨g, rfl, hg⟩
  | register k f =>
    simp only [step, registerFeatureId]
    cases hd : s.context k with
    | none => exact ⟨g, rfl, hg⟩
    | some d =>
      cases hv : mapping f with
      | none => exact ⟨g, rfl, hg⟩
      | some v =>
        refine ⟨update g d (insert v (g d)), rfl, fun n hn => ?_⟩
        rcases eq_or_ne n d with rfl | hne
        · simp [hg n hn]
        · simpa [hne] using hg n hn
  | exit k how =>
    simp only [step]
    split
    · exact ⟨g, rfl, hg⟩
    · exact ⟨g, rfl, hg⟩

theorem agrees_registersIn {c : ℕ} {s : St ν} {o : Op φ} (ho : RegistersIn c s o) :
    ∃ g, step mapping s o = { s with features := g } ∧ ∀ n, c ∉ s.path n → g n = s.features n := by
  cases o with
  | register k f =>
    change c ∈ calls s k at ho
    simp only [step, registerFeatureId]
    cases hd : s.context k with
    | none => exact ⟨_, rfl, fun _ _ => rfl⟩
    | some d =>
      rw [calls_of_context s k hd] at ho
      cases hv : mapping f with
      | none => exact ⟨_, rfl, fun _ _ => rfl⟩
      | some v =>
        refine ⟨_, rfl, fun n hn => ?_⟩
        have hne : n ≠ d := by rintro rfl; exact hn ho
        rw [update_of_ne hne]
  | _ => exact ho.elim

/-- **Isolation, for two runs.** What is registered inside a call makes no difference outside it. -/
theorem agrees_run {c : ℕ} {s t : St ν} {ops ops' : List (Op φ)}
    (h : Similar mapping c s ops ops') (ht : Agrees c s t) :
    Agrees c (run (step mapping) s ops) (run (step mapping) t ops') := by
  induction h generalizing t with
  | nil => exact ht
  | same o h ih => exact ih (agrees_step mapping ht o)
  | @left s o ops ops' ho h ih =>
    refine ih ?_
    obtain ⟨g, hstep, hg⟩ := agrees_registersIn mapping ho
    obtain ⟨g', rfl, hg'⟩ := ht
    rw [hstep]
    exact ⟨g', rfl, fun n hn => (hg' n hn).trans (hg n hn).symm⟩
  | @right s o ops ops' ho h ih =>
    refine ih ?_
    obtain ⟨g', rfl, hg'⟩ := ht
    have ho' : RegistersIn c { s with features := g' } o := by cases o <;> exact ho
    obtain ⟨g, hstep, hg⟩ := agrees_registersIn mapping ho'
    rw [hstep]
    exact ⟨g, rfl, fun n hn => (hg n hn).trans (hg' n hn)⟩

/-! ## The context on the way out -/

/-- the operation does not leave the call that task `k` is in at depth `d` -/
def Stays (mapping : φ → Option ν) (k d : ℕ) (s : St ν) (o : Op φ) : Prop :=
  d ≤ ((step mapping s o).tokens k).length

instance (mapping : φ → Option ν) (k d : ℕ) (s : St ν) (o : Op φ) : Decidable (Stays mapping k d s o) :=
  inferInstanceAs (Decidable (_ ≤ _))

/-- what is registered in the object of call `c` itself, by tasks that are not inside call `inner` -/
def addedTo (mapping : φ → Option ν) (c inner : ℕ) (s : St ν) : Op φ → Finset ν
  | .register k f => if s.context k = some c ∧ inner ∉ calls s k then (mapping f).toFinset else ∅
  | _ => ∅

def written (mapping : φ → Option ν) (c inner : ℕ) : St ν → List (Op φ) → Finset ν
  | _, [] => ∅
  | s, o :: ops => addedTo mapping c inner s o ∪ written mapping c inner (step mapping s o) ops

theorem step_features {c inner : ℕ} {s : St ν} (hs : Inv s) (hc : c < inner)
    (hmade : c < s.next) (o : Op φ) :
    (step mapping s o).features c = s.features c ∪ addedTo mapping c inner s o := by
  cases o with
  | start k child => simp only [step, addedTo, Finset.union_empty]; split_ifs <;> rfl
  | enter k =>
    simp only [step, addedTo, Finset.union_empty]
    split_ifs
    · rw [enter_features, if_neg hmade.ne]
    · rfl
  | register k f =>
    simp only [step, registerFeatureId, addedTo]
    cases hd : s.context k with
    | none => simp
    | some d =>
      have hout : inner ∉ s.path c := fun hin => absurd (hs.le c inner hin) (not_le.2 hc)
      cases hv : mapping f with
      | none => simp
      | some v =>
        rcases eq_or_ne d c with rfl | hne
        · simp [calls, hd, hout]
        · simp [hne, hne.symm]
  | exit k how => simp only [step, addedTo, Finset.union_empty]; split <;> rfl

theorem Moves.next_le {mapping : φ → Option ν} {s t : St ν} {o : Op φ} (hm : Moves mapping s o t) :
    s.next ≤ t.next := by
  cases hm with
  | enter => exact Nat.le_succ _
  | _ => exact le_rfl

theorem run_features {c inner : ℕ} (hc : c < inner) {s : St ν} (hs : Inv s) (hmade : c < s.next)
    (ops : List (Op φ)) :
    (run (step mapping) s ops).features c = s.features c ∪ written mapping c inner s ops := by
  induction ops generalizing s with
  | nil => simp [written]
  | cons o ops ih =>
    have hnext : c < (step mapping s o).next := hmade.trans_le (step_moves mapping s o).next_le
    rw [run_cons, ih (step_inv mapping s o hs) hnext, step_features mapping hs hc hmade, written, Finset.union_assoc]

/-- the context was made inside call `inner` -/
def Within (inner : ℕ) (s : St ν) (x : Option ℕ) : Prop := inner ∈ x.elim [] s.path

/-- task `k` is in call `inner`, which it entered with the tokens `base`, or in calls it entered since -/
def InCall (k inner : ℕ) (base : List (Option ℕ)) (s : St ν) : Prop :=
  ∃ since, s.tokens k = since ++ base ∧ ∀ x ∈ s.context k :: since, Within inner s x

theorem Moves.within {mapping : φ → Option ν} {s t : St ν} {o : Op φ} (hm : Moves mapping s o t) (hs : Inv s)
    {inner : ℕ} {x : Option ℕ} (h : Within inner s x) : Within inner t x := by
  cases x with
  | none => exact h
  | some n =>
    have hn : n < s.next := hs.lt_next h
    cases hm with
    | enter =>
      show inner ∈ (startAsCurrentContext s _ .none).path n
      rw [enter_path, if_neg hn.ne]
      exact h
    | _ => exact h

/-- a task stays inside a call until it leaves it -/
theorem Moves.inCall {mapping : φ → Option ν} {s t : St ν} {o : Op φ} (hm : Moves mapping s o t) (hs : Inv s)
    {k inner : ℕ} {b : Option ℕ} {base : List (Option ℕ)} (h : InCall k inner (b :: base) s)
    (hstay : base.length + 1 ≤ (t.tokens k).length) : InCall k inner (b :: base) t := by
  obtain ⟨since, htokens, hin⟩ := h
  have hin' : ∀ x ∈ s.context k :: since, Within inner t x := fun x hx => hm.within hs (hin x hx)
  cases hm with
  | none => exact ⟨since, htokens, hin⟩
  | @start j child hchild =>
    have hne : k ≠ child := by
      rintro rfl
      have hnil := hs.idle k hchild
      simp [htokens] at hnil
    have hcontext : update s.context child (s.context j) k = s.context k := update_of_ne hne ..
    refine ⟨since, htokens, ?_⟩
    show ∀ x ∈ update s.context child (s.context j) k :: since, _
    rw [hcontext]
    exact hin'
  | @enter i hi =>
    by_cases hik : k = i
    · subst hik
      refine ⟨s.context k :: since, by rw [enter_tokens, if_pos rfl, htokens]; rfl, fun x hx => ?_⟩
      rw [enter_context, if_pos rfl] at hx
      rcases List.mem_cons.1 hx with rfl | hx
      · show inner ∈ (startAsCurrentContext s k .none).path s.next
        rw [enter_path, if_pos rfl]
        exact List.mem_cons_of_mem _ (hin _ List.mem_cons_self)
      · exact hin' x hx
    · refine ⟨since, by rw [enter_tokens, if_neg hik, htokens], ?_⟩
      rw [enter_context, if_neg hik]
      exact hin'
  | register => exact ⟨since, htokens, hin⟩
  | @exit i how old rest hi =>
    by_cases hik : k = i
    · subst hik
      rw [reset_tokens, if_pos rfl, hi, List.tail_cons] at hstay
      rw [htokens] at hi
      cases since with
      | nil =>
        -- leaving the call itself would leave fewer tokens than it was entered with
        obtain ⟨-, rfl⟩ := List.cons.inj hi
        omega
      | cons x since =>
        obtain ⟨rfl, rfl⟩ := List.cons.inj hi
        refine ⟨since, by rw [reset_tokens, if_pos rfl, htokens]; rfl, ?_⟩
        rw [reset_context, if_pos rfl]
        exact fun y hy => hin y (List.mem_cons_of_mem _ hy)
    · refine ⟨since, by rw [reset_tokens, if_neg hik, htokens], ?_⟩
      rw [reset_context, if_neg hik]
      exact hin

omit [DecidableEq ν] in
theorem visible_resetContext (s : St ν) (k : ℕ) (old : Option ℕ) :
    visible (resetContext s k old) k = old.elim ∅ s.features := by
  rw [visible, reset_context, if_pos rfl]
  rfl

theorem step_exit {s : St ν} {k : ℕ} {old : Option ℕ} {rest : List (Option ℕ)}
    (h : s.tokens k = old :: rest) (how : Exit) : step mapping s (.exit k how) = resetContext s k old := by
  simp only [step, h]

omit [DecidableEq ν] in
theorem enter_inCall {s : St ν} (k : ℕ) :
    InCall k s.next (s.context k :: s.tokens k) (startAsCurrentContext s k none) := by
  refine ⟨[], by rw [enter_tokens, if_pos rfl, List.nil_append], fun x hx => ?_⟩
  obtain rfl := List.mem_singleton.1 hx
  show s.next ∈ calls (startAsCurrentContext s k none) k
  rw [calls_enter]
  exact List.mem_cons_self

/-- up to its exit, the task that entered a call is in it -/
theorem run_inCall {s : St ν} (hs : Inv s) {k : ℕ} (hk : s.started k) {ops : List (Op φ)}
    (hstay : Along (step mapping) (Stays mapping k ((s.tokens k).length + 1)) (step mapping s (.enter k)) ops) :
    InCall k s.next (s.context k :: s.tokens k) (run (step mapping) s (.enter k :: ops)) := by
  have henter : step mapping s (.enter k) = startAsCurrentContext s k none := by simp [step, hk]
  have hfirst : InCall k s.next (s.context k :: s.tokens k) (step mapping s (.enter k)) := by
    rw [henter]
    exact enter_inCall k
  have hrun := run_inv_of (I := fun t => Inv t ∧ InCall k s.next (s.context k :: s.tokens k) t)
    (fun t o ht ho => ⟨step_inv mapping t o ht.1, (step_moves mapping t o).inCall ht.1 ht.2 ho⟩)
    ⟨step_inv mapping s _ hs, hfirst⟩ hstay
  exact hrun.2

/-- **A call leaves the context as it found it.** However it ends, the variable of the task refers to the object it
referred to before, and that object holds what it held, and what tasks outside the call put into it meanwhile. -/
theorem left_as_entered {s : St ν} (hs : Inv s) {k : ℕ} (hk : s.started k) {ops : List (Op φ)}
    (hstay : Along (step mapping) (Stays mapping k ((s.tokens k).length + 1)) (step mapping s (.enter k)) ops)
    (hend : ((run (step mapping) s (.enter k :: ops)).tokens k).length = (s.tokens k).length + 1) (how : Exit) :
    let t := run (step mapping) s (.enter k :: ops ++ [.exit k how])
    t.context k = s.context k ∧ t.tokens k = s.tokens k ∧
      visible t k = visible s k ∪ (s.context k).elim ∅ fun c => written mapping c s.next s (.enter k :: ops) := by
  obtain ⟨since, htokens, -⟩ := run_inCall mapping hs hk hstay
  rw [htokens] at hend
  have hnil : since = [] := by simpa using hend
  subst hnil
  rw [List.nil_append] at htokens
  -- the call's own token is the last one, and holds what the variable held
  have hexit : run (step mapping) s (.enter k :: ops ++ [.exit k how]) =
      resetContext (run (step mapping) s (.enter k :: ops)) k (s.context k) := by
    rw [run_append]
    exact step_exit mapping htokens how
  rw [hexit]
  refine ⟨update_self .., ?_, ?_⟩
  · show update (run (step mapping) s (.enter k :: ops)).tokens k _ k = _
    rw [update_self, htokens]
    rfl
  · rw [visible_resetContext, visible]
    cases hc : s.context k with
    | none => rfl
    | some c => exact run_features mapping (hs.made k c hc) hs (hs.made k c hc) (.enter k :: ops)

/-! ## Isolation -/

/-- **Contexts are isolated.** In every run, a feature id registered in a call is seen by the tasks in that call, in
calls entered since; runs that differ in what is registered inside a call look the same to every task outside it; and a
call, in which its task is until it leaves, leaves the context as it found it, however it ends. -/
theorem contexts_isolated (before : List (Op φ)) :
    let s := run (step mapping) (init : St ν) before
    (∀ j c f v, s.context j = some c → mapping f = some v → ∀ ops k,
      let t := run (step mapping) s (.register j f :: ops)
      c ∈ calls t k → (∀ m ∈ calls t k, c < m → s.next ≤ m) → v ∈ visible t k) ∧
    (∀ c ops ops', Similar mapping c s ops ops' → ∀ k,
      let t := run (step mapping) s ops
      let t' := run (step mapping) s ops'
      c ∉ calls t k → t'.context k = t.context k ∧ calls t' k = calls t k ∧ visible t' k = visible t k) ∧
    ∀ k ops how, s.started k →
      Along (step mapping) (Stays mapping k ((s.tokens k).length + 1)) (step mapping s (.enter k)) ops →
      s.next ∈ calls (run (step mapping) s (.enter k :: ops)) k ∧
      (((run (step mapping) s (.enter k :: ops)).tokens k).length = (s.tokens k).length + 1 →
        let t := run (step mapping) s (.enter k :: ops ++ [.exit k how])
        t.context k = s.context k ∧ t.tokens k = s.tokens k ∧
          visible t k = visible s k ∪ (s.context k).elim ∅ fun c => written mapping c s.next s (.enter k :: ops)) := by
  have hs : Inv (run (step mapping) (init : St ν) before) := reachable_inv mapping before
  refine ⟨?_, ?_, ?_⟩
  · intro j c f v hj hf ops k t hin hlater
    exact visible_nested mapping hs hj hf ops hin hlater
  · intro c ops ops' h k t t' hk
    exact (agrees_run mapping h (Agrees.refl c _)).visible hk
  · intro k ops how hk hstay
    obtain ⟨since, -, hin⟩ := run_inCall mapping hs hk hstay
    exact ⟨hin _ List.mem_cons_self, fun hend => left_as_entered mapping hs hk hstay hend how⟩

/-- task `0` is in call `0`, task `1` in call `1` -/
def twoCalls : St ℕ := run (step some) init [.start 0 1, .enter 0, .enter 1]

/-- a nested call sees what call `0` registered, the other task does not, and a call that is cancelled leaves nothing -/
theorem contexts_isolated_two :
    5 ∈ visible (run (step some) twoCalls [.register 0 5, .enter 0]) 0 ∧
    visible (run (step some) twoCalls []) 1 = visible (run (step some) twoCalls [.register 0 5]) 1 ∧
    visible (run (step some) twoCalls [.enter 0, .register 0 5, .exit 0 .cancelled]) 0 = visible twoCalls 0 := by
  obtain ⟨hnested, hrest, hexit⟩ := contexts_isolated (some : ℕ → Option ℕ) [.start 0 1, .enter 0, .enter 1]
  refine ⟨?_, ?_, ?_⟩
  · exact hnested 0 0 5 5 (by decide) rfl [.enter 0] 0 (by decide) (by decide)
  · have hsame : Similar some 0 twoCalls [.register 0 5] [] := .left (show 0 ∈ calls twoCalls 0 by decide) (.nil _)
    exact (hrest 0 _ _ hsame 1 (by decide)).2.2
  · have h := ((hexit 0 [.register 0 5] .cancelled (by decide) (by decide)).2 (by decide)).2.2
    exact h.trans (by decide)

end AioBotocore.Context
