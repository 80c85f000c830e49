/-
`create_nested_client` of `utils.py`: a client is created with plugins disabled, and used in the plugin context of its
user.

The plugin context is a context variable, which `set_plugin_context` sets and `reset_plugin_context` resets; what the
code relies on of them is `Ops.Lawful`. A use sets it, creates and enters the client, resets it, and yields; the `finally`
resets it when the body was not reached. `ClientCreatorContext` has an await for the creation of the client, one for its
`__aenter__` and one for its `__aexit__`, and lets every exception through. Uses are nested in the creation and in the
body of other uses, next to other code that sets a context and sets it back, and any number of tasks go on at the same
time.

- `step_inv`: the frames of every task stay nested, and a token is held until it is reset.
- `plugin_context_bracketed`: what is in force in the creation, in the body and after the end, and that every use resets
  its token once.
-/
import Mathlib.Tactic
import Mathlib.Logic.Function.Basic
import AioBotocore.Async.Run
import AioBotocore.ContextVar

namespace AioBotocore.NestedClient

open Async Function ContextVar

variable {V τ : Type*}

/-! ## Model -/

structure PluginContext where
  plugins : Option String
deriving DecidableEq, Repr

/-- `PluginContext(plugins="DISABLED")` -/
def disabled : PluginContext := ⟨some "DISABLED"⟩

inductive Failure where
  | raised
  | cancelled
deriving DecidableEq, Repr

/-- how a body, an `__aexit__` or the context manager ends; `none` when it returns -/
abbrev Exit : Type := Option Failure

/-- where a use of `create_nested_client` is suspended -/
inductive Phase where
  /-- `await self._coro` -/
  | creating
  /-- `await self._client.__aenter__()` -/
  | entering
  /-- `yield client` -/
  | body
  /-- `await self._client.__aexit__(...)`, after the body has ended -/
  | closing (how : Exit)
deriving DecidableEq, Repr

/-- the client is not there yet -/
def Phase.inCreation : Phase → Bool
  | .creating => true
  | .entering => true
  | .body => false
  | .closing _ => false

/-- how the body has ended, while the client is closed -/
def Phase.bodyExit : Phase → Option Exit
  | .closing how => some how
  | _ => none

structure Use (τ : Type*) where
  /-- the variable `token` -/
  token : Option τ
  phase : Phase
  /-- the context in force on entry -/
  outer : Option PluginContext
  /-- what `set_plugin_context` returned -/
  made : τ
  /-- the tokens that `reset_plugin_context` was called with -/
  resets : List τ

inductive Frame (τ : Type*) where
  | use (u : Use τ)
  /-- other code, which has set a context and will set it back -/
  | own (token : τ) (outer ctx : Option PluginContext)

/-- a use that has ended, with the context in force then -/
structure Ended (τ : Type*) where
  outer : Option PluginContext
  found : Option PluginContext
  made : τ
  resets : List τ
  how : Exit
deriving DecidableEq, Repr

structure St (V τ : Type*) where
  var : V
  /-- what each task is in, the innermost first -/
  frames : ℕ → List (Frame τ)
  ended : List (Ended τ)
  /-- calls of `reset_plugin_context` that raised -/
  refused : ℕ

inductive Op where
  /-- task `k` starts a task, which begins with a copy of its context -/
  | start (k child : ℕ)
  /-- code other than `create_nested_client` sets a context, and sets it back -/
  | set (k : ℕ) (ctx : Option PluginContext)
  | reset (k : ℕ)
  | enter (k : ℕ)
  /-- the coroutine of `create_client` returns the client -/
  | created (k : ℕ)
  /-- `__aenter__` of the client returns -/
  | entered (k : ℕ)
  /-- `create_client`, its coroutine or `__aenter__` raises, or is cancelled -/
  | fails (k : ℕ) (how : Failure)
  | bodyEnds (k : ℕ) (how : Exit)
  /-- `__aexit__` of the client ends -/
  | closed (k : ℕ) (how : Exit)
deriving DecidableEq, Repr

def init (v : V) : St V τ := ⟨v, fun _ => [], [], 0⟩

section Step

variable (P : Ops V τ (Option PluginContext)) (s : St V τ) (k : ℕ)

/-- the frames of the task become `fs` -/
def put (fs : List (Frame τ)) : St V τ := { s with frames := update s.frames k fs }

/-- `reset_plugin_context(token)`, and whether it returns -/
def resetPluginContext (u : Use τ) : St V τ × Use τ × Bool :=
  match u.token with
  | some token =>
    match P.reset s.var k token with
    | .ok var => ({ s with var := var }, { u with resets := u.resets ++ [token] }, true)
    | .error _ => ({ s with refused := s.refused + 1 }, { u with resets := u.resets ++ [token] }, false)
  | none => ({ s with refused := s.refused + 1 }, u, false)

/-- the use is left -/
def leave (u : Use τ) (rest : List (Frame τ)) (how : Exit) : St V τ :=
  { s with frames := update s.frames k rest,
           ended := s.ended ++ [⟨u.outer, P.get s.var k, u.made, u.resets, how⟩] }

/-- the `finally` -/
def finish (u : Use τ) (rest : List (Frame τ)) (how : Exit) : St V τ :=
  if u.token.isSome then
    let (s, u, ok) := resetPluginContext P s k u
    leave P s k u rest (if ok then how else some .raised)
  else leave P s k u rest how

/-- from the entry to the first await -/
def createNestedClient : St V τ :=
  let (var, token) := P.set s.var k (some disabled)
  { s with var := var,
           frames := update s.frames k (.use ⟨some token, .creating, P.get s.var k, token, []⟩ :: s.frames k) }

/-- from the client's `__aenter__` to the `yield`; if the reset raises, the client is closed -/
def enterBody (u : Use τ) (rest : List (Frame τ)) : St V τ :=
  let (s, u, ok) := resetPluginContext P s k u
  if ok then put s k (.use { u with token := none, phase := .body } :: rest)
  else put s k (.use { u with phase := .closing (some .raised) } :: rest)

/-- the innermost use of the task goes on, if it is suspended at an await that the operation is about -/
def atUse (enabled : Phase → Bool) (act : Use τ → List (Frame τ) → St V τ) : St V τ :=
  match s.frames k with
  | .use u :: rest => if enabled u.phase then act u rest else s
  | _ => s

def step : Op → St V τ
  | .start k child => if (s.frames child).isEmpty then { s with var := P.copy s.var k child } else s
  | .set k ctx =>
    let (var, token) := P.set s.var k ctx
    { s with var := var, frames := update s.frames k (.own token (P.get s.var k) ctx :: s.frames k) }
  | .reset k =>
    match s.frames k with
    | .own token _ _ :: rest =>
      match P.reset s.var k token with
      | .ok var => { s with var := var, frames := update s.frames k rest }
      | .error _ => { s with refused := s.refused + 1, frames := update s.frames k rest }
    | _ => s
  | .enter k => createNestedClient P s k
  | .created k => atUse s k (· == .creating) fun u rest => put s k (.use { u with phase := .entering } :: rest)
  | .entered k => atUse s k (· == .entering) fun u rest => enterBody P s k u rest
  | .fails k how => atUse s k Phase.inCreation fun u rest => finish P s k u rest (some how)
  | .bodyEnds k how => atUse s k (· == .body) fun u rest => put s k (.use { u with phase := .closing how } :: rest)
  | .closed k how =>
    -- what `__aexit__` raises takes the place of what the body raised
    atUse s k (fun phase => phase.bodyExit.isSome) fun u rest => finish P s k u rest (how <|> u.phase.bodyExit.join)

end Step

/-! ## The invariant -/

/-- the context that the use has in force -/
def Use.inside (u : Use τ) : Option PluginContext := if u.phase.inCreation then some disabled else u.outer

def Frame.toFrame : Frame τ → ContextVar.Frame τ (Option PluginContext)
  | .use u => ⟨u.outer, u.inside, u.token⟩
  | .own token outer ctx => ⟨outer, ctx, some token⟩

/-- a use has its token until it has reset it -/
def Use.Good (u : Use τ) : Prop :=
  if u.phase.inCreation then u.token = some u.made ∧ u.resets = [] else u.token = none ∧ u.resets = [u.made]

structure Inv (P : Ops V τ (Option PluginContext)) (s : St V τ) : Prop where
  nested : ∀ k, Nested P s.var k ((s.frames k).map Frame.toFrame)
  good : ∀ k u, .use u ∈ s.frames k → u.Good
  ended : ∀ e ∈ s.ended, e.found = e.outer ∧ e.resets = [e.made]
  refused : s.refused = 0

variable {P : Ops V τ (Option PluginContext)} {s : St V τ} {k : ℕ} {u : Use τ} {rest : List (Frame τ)}

theorem inv_init (P : Ops V τ (Option PluginContext)) (v : V) : Inv P (init v) :=
  ⟨fun k => nested_nil P v k, fun _ _ h => absurd h List.not_mem_nil, fun _ h => absurd h List.not_mem_nil, rfl⟩

theorem Use.good_inCreation (h : u.Good) (hu : u.phase.inCreation) : u.token = some u.made ∧ u.resets = [] := by
  rwa [Use.Good, if_pos hu] at h

theorem Use.good_after (h : u.Good) (hu : u.phase.inCreation = false) : u.token = none ∧ u.resets = [u.made] := by
  rwa [Use.Good, if_neg (by simp [hu])] at h

theorem toFrame_inCreation (hu : u.phase.inCreation) :
    (Frame.use u).toFrame = ⟨u.outer, some disabled, u.token⟩ := by
  rw [Frame.toFrame, Use.inside, if_pos hu]

theorem toFrame_after (h : u.Good) (hu : u.phase.inCreation = false) :
    (Frame.use u).toFrame = ⟨u.outer, u.outer, none⟩ := by
  rw [Frame.toFrame, Use.inside, if_neg (by simp [hu]), (Use.good_after h hu).1]

/-- one task changes its frames, and the variable in a way that other tasks do not notice -/
theorem Inv.change (h : Inv P s) {var : V} {fs : List (Frame τ)} (hself : Nested P var k (fs.map Frame.toFrame))
    (hother : ∀ j ≠ k, ∀ gs, Nested P s.var j gs → Nested P var j gs) (hgood : ∀ u, .use u ∈ fs → u.Good) :
    Inv P { s with var := var, frames := update s.frames k fs } := by
  refine ⟨?_, ?_, h.ended, h.refused⟩
  · intro j
    rcases eq_or_ne j k with rfl | hj
    · simpa using hself
    · simpa [hj] using hother j hj _ (h.nested j)
  · intro j u hu
    rcases eq_or_ne j k with rfl | hj
    · exact hgood u (by simpa using hu)
    · exact h.good j u (by simpa [hj] using hu)

/-- a use goes on, in its creation or after it -/
theorem Inv.goOn (h : Inv P s) (hk : s.frames k = .use u :: rest) {phase : Phase}
    (hphase : phase.inCreation = u.phase.inCreation) : Inv P (put s k (.use { u with phase := phase } :: rest)) := by
  have hframe : (Frame.use { u with phase := phase }).toFrame = (Frame.use u).toFrame := by
    simp only [Frame.toFrame, Use.inside, hphase]
  have hgood : Use.Good { u with phase := phase } ↔ u.Good := by simp only [Use.Good, hphase]
  have hnested := h.nested k
  rw [hk, List.map_cons] at hnested
  apply h.change
  · rw [List.map_cons, hframe]
    exact hnested
  · exact fun _ _ _ hgs => hgs
  · intro v hv
    rcases List.mem_cons.1 hv with hv | hv
    · rw [Frame.use.inj hv, hgood]
      exact h.good k u (hk ▸ List.mem_cons_self)
    · exact h.good k v (hk ▸ List.mem_cons_of_mem _ hv)

/-- a use is left when what was in force on entry is in force again, and its token was reset once -/
theorem Inv.left (h : Inv P s) {var : V} (hself : Nested P var k (rest.map Frame.toFrame))
    (hother : ∀ j ≠ k, ∀ gs, Nested P s.var j gs → Nested P var j gs) (hgood : ∀ u, .use u ∈ rest → u.Good)
    (hget : P.get var k = u.outer) (hu : u.resets = [u.made]) (how : Exit) :
    Inv P (leave P { s with var := var } k u rest how) := by
  have hrest := h.change hself hother hgood
  refine ⟨hrest.nested, hrest.good, ?_, h.refused⟩
  intro e he
  rcases List.mem_append.1 he with he | he
  · exact h.ended e he
  · obtain rfl := List.mem_singleton.1 he
    exact ⟨hget, hu⟩

theorem Inv.onUse (h : Inv P s) {enabled : Phase → Bool} {act : Use τ → List (Frame τ) → St V τ}
    (hact : ∀ u rest, s.frames k = .use u :: rest → enabled u.phase → Inv P (act u rest)) :
    Inv P (atUse s k enabled act) := by
  rw [atUse]
  split
  · rename_i u rest hk
    split_ifs with hphase
    · exact hact u rest hk hphase
    · exact h
  · exact h

section Lawful

variable [DecidableEq τ] (hP : P.Lawful)
include hP

/-- while the client is created, the reset returns, and gives the task the context of its entry -/
theorem resetPluginContext_inCreation (h : Inv P s) (hk : s.frames k = .use u :: rest) (hu : u.phase.inCreation) :
    ∃ var, resetPluginContext P s k u = ({ s with var := var }, { u with resets := [u.made] }, true) ∧
      P.get var k = u.outer ∧ Nested P var k (rest.map Frame.toFrame) ∧
      ∀ j ≠ k, ∀ gs, Nested P s.var j gs → Nested P var j gs := by
  obtain ⟨htoken, hresets⟩ := Use.good_inCreation (h.good k u (hk ▸ List.mem_cons_self)) hu
  have hnested := h.nested k
  rw [hk, List.map_cons, toFrame_inCreation hu] at hnested
  obtain ⟨var, hreset, hget, hrest, hother⟩ := hnested.pop hP htoken
  refine ⟨var, ?_, hget, hrest, hother⟩
  simp [resetPluginContext, htoken, hreset, hresets]

/-! ## Steps -/

theorem Inv.finished (h : Inv P s) (hk : s.frames k = .use u :: rest) (how : Exit) : Inv P (finish P s k u rest how) := by
  have hgood : ∀ v, .use v ∈ rest → v.Good := fun v hv => h.good k v (hk ▸ List.mem_cons_of_mem _ hv)
  have hu : u.Good := h.good k u (hk ▸ List.mem_cons_self)
  cases hphase : u.phase.inCreation with
  | true =>
    -- the `finally` resets the token
    obtain ⟨var, hreset, hget, hself, hother⟩ := resetPluginContext_inCreation hP h hk hphase
    obtain ⟨htoken, -⟩ := Use.good_inCreation hu hphase
    have hleave : finish P s k u rest how =
        leave P { s with var := var } k { u with resets := [u.made] } rest how := by
      simp [finish, hreset, htoken]
    rw [hleave]
    apply h.left hself hother hgood
    · exact hget
    · rfl
  | false =>
    obtain ⟨htoken, hresets⟩ := Use.good_after hu hphase
    have hleave : finish P s k u rest how = leave P s k u rest how := by
      simp [finish, htoken]
    have hnested := h.nested k
    rw [hk, List.map_cons, toFrame_after hu hphase] at hnested
    obtain ⟨hget, hself⟩ := hnested.drop
    rw [hleave]
    apply h.left hself (fun _ _ _ hgs => hgs) hgood
    · exact hget
    · exact hresets

theorem Inv.entered (h : Inv P s) (hk : s.frames k = .use u :: rest) (hphase : u.phase = .entering) :
    Inv P (enterBody P s k u rest) := by
  have hcreation : u.phase.inCreation := by rw [hphase]; rfl
  have hgood : ∀ v, .use v ∈ rest → v.Good := fun v hv => h.good k v (hk ▸ List.mem_cons_of_mem _ hv)
  obtain ⟨var, hreset, hget, hself, hother⟩ := resetPluginContext_inCreation hP h hk hcreation
  have hbody : enterBody P s k u rest = { s with
      var := var,
      frames := update s.frames k (.use { u with token := none, phase := .body, resets := [u.made] } :: rest) } := by
    simp [enterBody, hreset, put]
  rw [hbody]
  apply h.change
  · have hlift := hself.lift
    rw [hget] at hlift
    exact hlift
  · exact hother
  · intro v hv
    rcases List.mem_cons.1 hv with hv | hv
    · rw [Frame.use.inj hv]
      exact ⟨rfl, rfl⟩
    · exact hgood v hv

/-- setting a context opens a frame -/
theorem Inv.push (h : Inv P s) {ctx : Option PluginContext} {f : Frame τ}
    (hf : f.toFrame = ⟨P.get s.var k, ctx, some (P.set s.var k ctx).2⟩) (hgood : ∀ u, .use u = f → u.Good) :
    Inv P { s with var := (P.set s.var k ctx).1, frames := update s.frames k (f :: s.frames k) } := by
  apply h.change
  · rw [List.map_cons, hf]
    exact (h.nested k).push hP ctx
  · intro j hj gs hgs
    exact hgs.set_other hP hj ctx
  · intro u hu
    rcases List.mem_cons.1 hu with hu | hu
    · exact hgood u hu
    · exact h.good k u hu

/-- other code sets back what it has set -/
theorem Inv.pop (h : Inv P s) {token : τ} {outer ctx : Option PluginContext}
    (hk : s.frames k = .own token outer ctx :: rest) : ∃ var, P.reset s.var k token = .ok var ∧
      Inv P { s with var := var, frames := update s.frames k rest } := by
  have hnested := h.nested k
  rw [hk, List.map_cons] at hnested
  obtain ⟨var, hreset, -, hself, hother⟩ := hnested.pop hP rfl
  refine ⟨var, hreset, h.change hself hother ?_⟩
  intro u hu
  exact h.good k u (hk ▸ List.mem_cons_of_mem _ hu)

theorem Inv.copy (h : Inv P s) {child : ℕ} (hchild : s.frames child = []) :
    Inv P { s with var := P.copy s.var k child } := by
  refine ⟨?_, h.good, h.ended, h.refused⟩
  intro j
  rcases eq_or_ne j child with rfl | hj
  · rw [hchild]
    exact nested_nil _ _ _
  · exact (h.nested j).copy_other hP hj

theorem step_inv (h : Inv P s) (o : Op) : Inv P (step P s o) := by
  cases o with
  | start k child =>
    simp only [step]
    split_ifs with hchild
    · exact h.copy hP (List.isEmpty_iff.1 hchild)
    · exact h
  | set k ctx => exact h.push hP rfl (fun u hu => by cases hu)
  | reset k =>
    simp only [step]
    split
    · rename_i token outer ctx rest hk
      obtain ⟨var, hreset, hinv⟩ := h.pop hP hk
      rw [hreset]
      exact hinv
    · exact h
  | enter k =>
    apply h.push hP
    · rfl
    · intro u hu
      rw [Frame.use.inj hu]
      exact ⟨rfl, rfl⟩
  | created k =>
    simp only [step]
    apply h.onUse
    intro u rest hk hphase
    exact h.goOn hk (by rw [eq_of_beq hphase]; rfl)
  | entered k =>
    simp only [step]
    apply h.onUse
    intro u rest hk hphase
    exact h.entered hP hk (eq_of_beq hphase)
  | fails k how =>
    simp only [step]
    apply h.onUse
    intro u rest hk _
    exact h.finished hP hk _
  | bodyEnds k how =>
    simp only [step]
    apply h.onUse
    intro u rest hk hphase
    exact h.goOn hk (by rw [eq_of_beq hphase]; rfl)
  | closed k how =>
    simp only [step]
    apply h.onUse
    intro u rest hk _
    exact h.finished hP hk _

theorem reachable_inv (v : V) (ops : List Op) : Inv P (run (step P) (init v) ops) :=
  run_inv (I := Inv P) (fun _ o h => step_inv hP h o) (inv_init P v) ops

end Lawful

/-! ## What is in force -/

/-- the frame is a use of `create_nested_client` -/
def Frame.isUse : Frame τ → Bool
  | .use _ => true
  | .own _ _ _ => false

/-- a use whose client has been created -/
def Frame.isOpen : Frame τ → Bool
  | .use u => !u.phase.inCreation
  | .own _ _ _ => false

theorem Inv.split (h : Inv P s) {pre : List (Frame τ)} (hk : s.frames k = pre ++ .use u :: rest) :
    Nested P s.var k (pre.map Frame.toFrame ++ (Frame.use u).toFrame :: rest.map Frame.toFrame) := by
  have hnested := h.nested k
  rwa [hk, List.map_append, List.map_cons] at hnested

/-- however deep uses are nested in the creation of a client, plugins are disabled -/
theorem Inv.get_inCreation (h : Inv P s) {pre : List (Frame τ)} (hk : s.frames k = pre ++ .use u :: rest)
    (hu : u.phase.inCreation) (hpre : ∀ f ∈ pre, f.isUse) : P.get s.var k = some disabled := by
  apply (h.split hk).get_eq
  · rw [toFrame_inCreation hu]
  · intro g hg
    obtain ⟨f, hf, rfl⟩ := List.mem_map.1 hg
    cases f with
    | own => exact absurd (hpre _ hf) (by simp [Frame.isUse])
    | use w =>
      simp only [Frame.toFrame, Use.inside]
      split_ifs
      · exact .inl rfl
      · exact .inr rfl

/-- in a body, and in the bodies of the uses nested in it, the context is the one on entry -/
theorem Inv.get_open (h : Inv P s) {pre : List (Frame τ)} (hk : s.frames k = pre ++ .use u :: rest)
    (hu : u.phase.inCreation = false) (hpre : ∀ f ∈ pre, f.isOpen) : P.get s.var k = u.outer := by
  apply (h.split hk).get_eq
  · simp [Frame.toFrame, Use.inside, hu]
  · intro g hg
    obtain ⟨f, hf, rfl⟩ := List.mem_map.1 hg
    cases f with
    | own => exact absurd (hpre _ hf) (by simp [Frame.isOpen])
    | use w =>
      have hw : w.phase.inCreation = false := by simpa [Frame.isOpen] using hpre _ hf
      exact .inr (by simp [Frame.toFrame, Use.inside, hw])

/-- **The creation of a nested client is bracketed.** In every run, from any contexts, whatever is nested in what, and
however each use ends: plugins are disabled as long as the client is created; in the body, and while the client is
closed, the context is the one on entry, and so it is when the use has ended; a use has not reset its token before the
client is there, it has reset it once afterwards, and once when it has ended; and no reset raises. -/
theorem plugin_context_bracketed [DecidableEq τ] (hP : P.Lawful) (v : V) (ops : List Op) :
    let s := run (step P) (init v) ops
    (∀ k pre u rest, s.frames k = pre ++ .use u :: rest → u.phase.inCreation → (∀ f ∈ pre, f.isUse) →
      P.get s.var k = some disabled) ∧
    (∀ k pre u rest, s.frames k = pre ++ .use u :: rest → u.phase.inCreation = false → (∀ f ∈ pre, f.isOpen) →
      P.get s.var k = u.outer) ∧
    (∀ e ∈ s.ended, e.found = e.outer ∧ e.resets = [e.made]) ∧
    (∀ k u, .use u ∈ s.frames k → u.resets = if u.phase.inCreation then [] else [u.made]) ∧
    s.refused = 0 := by
  intro s
  have hs : Inv P s := reachable_inv hP v ops
  refine ⟨?_, ?_, hs.ended, ?_, hs.refused⟩
  · intro k pre u rest hk hu hpre
    exact hs.get_inCreation hk hu hpre
  · intro k pre u rest hk hu hpre
    exact hs.get_open hk hu hpre
  · intro k u hu
    have hgood := hs.good k u hu
    split_ifs with hphase
    · exact (Use.good_inCreation hgood hphase).2
    · exact (Use.good_after hgood (by simpa using hphase)).2

/-! ## An instance -/

/-- in a context of its own, task `0` uses a nested client in the creation of another; the body of the inner one raises,
and the creation of the outer one is cancelled -/
def nestedUses : List Op :=
  [.set 0 (some ⟨some "a"⟩), .enter 0, .enter 0, .created 0, .entered 0, .bodyEnds 0 (some .raised), .closed 0 none,
    .created 0, .fails 0 .cancelled]

theorem plugin_context_bracketed_nested :
    (run (step standard) (init ⟨fun _ => none, []⟩) nestedUses).ended =
      [⟨some disabled, some disabled, 2, [2], some .raised⟩, ⟨some ⟨some "a"⟩, some ⟨some "a"⟩, 1, [1], some .cancelled⟩] ∧
    ∀ e ∈ (run (step standard) (init ⟨fun _ => none, []⟩) nestedUses).ended, e.found = e.outer ∧ e.resets = [e.made] :=
  ⟨by decide, (plugin_context_bracketed standard_lawful ⟨fun _ => none, []⟩ nestedUses).2.2.1⟩

end AioBotocore.NestedClient
