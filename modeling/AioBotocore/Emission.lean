/-
Emissions of `AioHierarchicalEmitter` (`hooks.py`: `_emit`, `emit_until_response`) that overlap. `_emit` awaits each handler
in turn; meanwhile handlers and other tasks register, unregister and emit on the same emitter (`Hooks`). An operation is what
happens between two suspensions: a change of the handlers, the beginning of an emission, or the end of the handler that an
emission awaits.

- `step_moves`: everything one operation can do.
- `step_mapped`: no botocore handler with an async replacement is registered.
- `emission_snapshot`: whatever happens meanwhile, an emission calls the handlers that were registered as it began, in their
  order, up to the first that raises or, if it is to stop there, answers.
-/
import Mathlib.Tactic
import AioBotocore.Hooks

namespace AioBotocore.Emitter

open Async
open AioBotocore.Hooks (Handler Section Botocore Content flat handlerMapping mapped handlersToCall verifyAndRegister
  unregister)

variable {κ ι χ ς ρ : Type} [DecidableEq κ] [DecidableEq ι] [DecidableEq χ]

/-! ## Model -/

inductive Status where
  /-- in `await resolve_awaitable(handler(**kwargs))` -/
  | running
  | returned
  /-- the handler that was awaited has raised; a cancellation, too -/
  | raised
deriving DecidableEq, Repr

/-- one call of `_emit` -/
structure Emission (κ χ ρ : Type) where
  name : κ
  stopOnResponse : Bool
  handlersToCall : List (Handler χ)
  responses : List (Handler χ × Option ρ)
  status : Status

/-- the handler that is awaited -/
def Emission.current (e : Emission κ χ ρ) : Option (Handler χ) := e.handlersToCall[e.responses.length]?

structure St (ς κ χ ρ : Type) where
  hooks : Hooks.St ς κ χ
  /-- in the order in which they began -/
  emissions : List (Emission κ χ ρ)

inductive Op (κ ι χ ρ : Type) where
  | register (k : Section) (ev : κ) (h : Handler χ) (uid : Option ι) (usesCount : Bool)
  | unregister (ev : κ) (h : Handler χ) (uid : Option ι) (usesCount : Bool)
  | emit (name : κ) (stopOnResponse : Bool)
  /-- the handler that the emission `n` awaits returns -/
  | response (n : ℕ) (r : Option ρ)
  | raises (n : ℕ)
deriving DecidableEq, Repr

variable (B : Botocore ς κ ι χ)

/-- the loop of `_emit` ends after the response of a handler, or goes on to the next one -/
def Emission.receive (e : Emission κ χ ρ) (h : Handler χ) (r : Option ρ) : Emission κ χ ρ :=
  let responses := e.responses ++ [(h, r)]
  { e with
    responses
    status :=
      if e.stopOnResponse ∧ r.isSome then .returned
      else if responses.length = e.handlersToCall.length then .returned
      else .running }

def step (s : St ς κ χ ρ) : Op κ ι χ ρ → St ς κ χ ρ
  | .register k ev h uid uses => { s with hooks := (verifyAndRegister B s.hooks k ev h uid uses).getD s.hooks }
  | .unregister ev h uid uses => { s with hooks := unregister B s.hooks ev h uid uses }
  | .emit name stop =>
    let (handlers, hooks) := handlersToCall B s.hooks name
    ⟨hooks, s.emissions ++ [⟨name, stop, handlers, [], if handlers = [] then .returned else .running⟩]⟩
  | .response n r =>
    match s.emissions[n]? with
    | none => s
    | some e =>
      match e.status, e.current with
      | .running, some h => { s with emissions := s.emissions.set n (e.receive h r) }
      | _, _ => s
  | .raises n =>
    match s.emissions[n]? with
    | none => s
    | some e => if e.status = .running then { s with emissions := s.emissions.set n { e with status := .raised } } else s

def init : St ς κ χ ρ := ⟨Hooks.init B, []⟩

/-- what `emit_until_response` returns: the last handler and what it returned -/
def Emission.untilResponse (e : Emission κ χ ρ) : Option (Handler χ) × Option ρ :=
  match e.responses.getLast? with
  | some (h, r) => (some h, r)
  | none => (none, none)

/-! ## Steps -/

/-- everything one operation can do -/
inductive Moves (s : St ς κ χ ρ) : Op κ ι χ ρ → St ς κ χ ρ → Prop
  | none (o : Op κ ι χ ρ) : Moves s o s
  /-- the handlers change -/
  | hooks (o : Op κ ι χ ρ) (o' : Hooks.Op κ ι χ) : Moves s o { s with hooks := Hooks.step B s.hooks o' }
  | emit (name : κ) (stop : Bool) {handlers : List (Handler χ)} (h : (handlersToCall B s.hooks name).1 = handlers) :
      Moves s (.emit name stop) ⟨Hooks.step B s.hooks (.emit name),
        s.emissions ++ [⟨name, stop, handlers, [], if handlers = [] then .returned else .running⟩]⟩
  | receives {n : ℕ} {e : Emission κ χ ρ} {h : Handler χ} (r : Option ρ) (he : s.emissions[n]? = some e)
      (hrunning : e.status = .running) (hcurrent : e.current = some h) :
      Moves s (.response n r) { s with emissions := s.emissions.set n (e.receive h r) }
  | raises {n : ℕ} {e : Emission κ χ ρ} (he : s.emissions[n]? = some e) (hrunning : e.status = .running) :
      Moves s (.raises n) { s with emissions := s.emissions.set n { e with status := .raised } }

theorem step_moves (s : St ς κ χ ρ) (o : Op κ ι χ ρ) : Moves B s o (step B s o) := by
  cases o with
  | register k ev h uid uses => exact .hooks _ (.register k ev h uid uses)
  | unregister ev h uid uses => exact .hooks _ (.unregister ev h uid uses)
  | emit name stop => exact .emit name stop rfl
  | response n r =>
    simp only [step]
    split
    · exact .none _
    · rename_i e he
      split
      · rename_i h hrunning hcurrent
        exact .receives r he hrunning hcurrent
      · exact .none _
  | raises n =>
    simp only [step]
    split
    · exact .none _
    · rename_i e he
      split_ifs with hrunning
      · exact .raises he hrunning
      · exact .none _

/-! ## No blocking handler -/

variable {B}

/-- no handler in the lists has an async replacement -/
def Mapped (c : Content κ ι χ) : Prop := ∀ ev, ∀ h ∈ flat (c.lists ev), handlerMapping h = none

omit [DecidableEq χ] in
theorem handlerMapping_mapped (h : Handler χ) : handlerMapping (mapped h) = none := by
  cases h <;> rfl

omit [DecidableEq ι] [DecidableEq χ] in
theorem Mapped.append {c : Content κ ι χ} (hc : Mapped c) (k : Section) (ev : κ) {h : Handler χ}
    (hh : handlerMapping h = none) (ev' : κ) : ∀ x ∈ flat (c.appendItem k ev h ev'), handlerMapping x = none := by
  intro x hx
  by_cases hev : ev' = ev
  · subst hev
    rw [Content.appendItem, Function.update_self, Hooks.flat_append] at hx
    have hsplit := Hooks.upTo_behind (c.lists ev') k
    rcases List.mem_append.1 hx with hx | hx
    · exact hc ev' x (hsplit ▸ List.mem_append_left _ hx)
    · rcases List.mem_cons.1 hx with rfl | hx
      · exact hh
      · exact hc ev' x (hsplit ▸ List.mem_append_right _ hx)
  · rw [Content.appendItem, Function.update_of_ne hev] at hx
    exact hc ev' x hx

omit [DecidableEq ι] in
theorem Mapped.remove {c : Content κ ι χ} (hc : Mapped c) (ev : κ) (h : Handler χ) (ev' : κ) :
    ∀ x ∈ flat (c.removeItem ev h ev'), handlerMapping x = none := by
  intro x hx
  by_cases hev : ev' = ev
  · subst hev
    rw [Content.removeItem, Function.update_self, Hooks.flat_removeFirst] at hx
    exact hc ev' x (List.mem_of_mem_erase hx)
  · rw [Content.removeItem, Function.update_of_ne hev] at hx
    exact hc ev' x hx

omit [DecidableEq χ] in
theorem Mapped.register {c c' : Content κ ι χ} (hc : Mapped c) {k : Section} {ev : κ} {h : Handler χ} {uid : Option ι}
    {uses : Bool} (hh : handlerMapping h = none) (hreg : c.register k ev h uid uses = some c') : Mapped c' := by
  unfold Content.register at hreg
  split at hreg
  · obtain rfl := Option.some.inj hreg
    exact fun ev' => hc.append k ev hh ev'
  · split at hreg
    · obtain rfl := Option.some.inj hreg
      exact fun ev' => hc.append k ev hh ev'
    · split_ifs at hreg
      obtain rfl := Option.some.inj hreg
      exact hc

theorem Mapped.unregister {c : Content κ ι χ} (hc : Mapped c) (ev : κ) (h : Handler χ) (uid : Option ι) (uses : Bool) :
    Mapped (c.unregister ev h uid uses) := by
  unfold Content.unregister
  repeat' split
  all_goals first
    | exact hc
    | exact fun ev' => hc.remove ev _ ev'

theorem hooks_mapped (s : Hooks.St ς κ χ) (o : Hooks.Op κ ι χ) (h : Mapped (B.content s.handlers)) :
    Mapped (B.content (Hooks.step B s o).handlers) := by
  cases o with
  | register k ev handler uid uses =>
    simp only [Hooks.step]
    cases hreg : verifyAndRegister B s k ev handler uid uses with
    | none => exact h
    | some s' => exact h.register (handlerMapping_mapped handler) (Hooks.register_content B hreg)
  | unregister ev handler uid uses =>
    simp only [Hooks.step, Hooks.unregister, B.content_unregister]
    exact h.unregister ev handler uid uses
  | emit name =>
    simp only [Hooks.step, handlersToCall]
    split <;> exact h

/-! ## Emissions -/

/-- what is known of an emission, `handlers` having been registered for it as it began -/
structure Emission.Ok (e : Emission κ χ ρ) (handlers : List (Handler χ)) : Prop where
  snapshot : e.handlersToCall = handlers
  called : e.responses.map Prod.fst <+: handlers
  /-- none but the last response stops the emission -/
  silent : e.stopOnResponse = true → ∀ x ∈ e.responses.dropLast, x.2 = none
  running : e.status = .running → e.responses.length < handlers.length ∧
    (e.stopOnResponse = true → ∀ x ∈ e.responses, x.2 = none)
  raised : e.status = .raised → e.responses.length < handlers.length
  returned : e.status = .returned → e.responses.map Prod.fst = handlers ∨
    e.stopOnResponse = true ∧ ∃ x, e.responses.getLast? = some x ∧ x.2.isSome = true

omit [DecidableEq κ] [DecidableEq χ] in
theorem Emission.Ok.begins (name : κ) (stop : Bool) (handlers : List (Handler χ)) (status : Status)
    (hempty : handlers = [] → status = .returned) (hcons : handlers ≠ [] → status = .running) :
    (⟨name, stop, handlers, [], status⟩ : Emission κ χ ρ).Ok handlers := by
  refine ⟨rfl, List.nil_prefix, by simp, fun h => ?_, fun h => ?_, fun h => ?_⟩
  · have hne : handlers ≠ [] := by
      intro hnil
      rw [hempty hnil] at h
      cases h
    exact ⟨List.length_pos_of_ne_nil hne, by simp⟩
  · by_cases hnil : handlers = []
    · rw [hempty hnil] at h
      cases h
    · rw [hcons hnil] at h
      cases h
  · by_cases hnil : handlers = []
    · exact .inl hnil.symm
    · rw [hcons hnil] at h
      cases h

omit [DecidableEq κ] [DecidableEq χ] in
theorem Emission.Ok.receive {e : Emission κ χ ρ} {handlers : List (Handler χ)} (he : e.Ok handlers) {h : Handler χ}
    (hrunning : e.status = .running) (hcurrent : e.current = some h) (r : Option ρ) : (e.receive h r).Ok handlers := by
  obtain ⟨hlt, hsilent⟩ := he.running hrunning
  have hlen : (e.responses ++ [(h, r)]).length = e.responses.length + 1 := by simp
  have hnext : e.responses.map Prod.fst ++ [h] <+: handlers := by
    obtain ⟨rest, hrest⟩ := he.called
    rw [Emission.current, he.snapshot, ← hrest] at hcurrent
    have hhead : rest[0]? = some h := by
      rwa [List.getElem?_append_right (by simp), List.length_map, Nat.sub_self] at hcurrent
    obtain ⟨tail, rfl⟩ := List.head?_eq_some_iff.1 (List.head?_eq_getElem? ▸ hhead)
    exact ⟨tail, by rw [← hrest]; simp⟩
  have hcalled : (e.responses ++ [(h, r)]).map Prod.fst <+: handlers := by simpa using hnext
  have hall : (e.responses ++ [(h, r)]).length = e.handlersToCall.length →
      (e.responses ++ [(h, r)]).map Prod.fst = handlers := by
    intro heq
    exact hcalled.eq_of_length (by rw [List.length_map, heq, he.snapshot])
  have hstop : ∀ x ∈ (e.responses ++ [(h, r)]).dropLast, e.stopOnResponse = true → x.2 = none := by
    intro x hx hstop
    rw [List.dropLast_concat] at hx
    exact hsilent hstop x hx
  refine ⟨he.snapshot, hcalled, fun hs x hx => hstop x hx hs, fun h' => ?_, fun h' => ?_, fun h' => ?_⟩
  · simp only [Emission.receive] at h' ⊢
    split_ifs at h' with hanswered hdone
    have hle := hcalled.length_le
    rw [List.length_map] at hle
    refine ⟨lt_of_le_of_ne hle (by rwa [← he.snapshot]), fun hs x hx => ?_⟩
    rcases List.mem_append.1 hx with hx | hx
    · exact hsilent hs x hx
    · rw [List.mem_singleton.1 hx]
      simpa [hs] using hanswered
  · simp only [Emission.receive] at h'
    split_ifs at h'
  · simp only [Emission.receive] at h' ⊢
    split_ifs at h' with hanswered hdone
    · exact .inr ⟨hanswered.1, (h, r), by simp, hanswered.2⟩
    · exact .inl (hall hdone)

/-! ## Runs -/

variable (B) in
/-- the handlers for the event, as they are registered now -/
def registered (s : St ς κ χ ρ) (name : κ) : List (Handler χ) :=
  (B.matching name).flatMap fun ev => flat ((B.content s.hooks.handlers).lists ev)

variable (B) in
/-- the emission `n` has begun in one of the operations `done` -/
def Began (done : List (Op κ ι χ ρ)) (n : ℕ) (e : Emission κ χ ρ) : Prop :=
  ∃ before after, done = before ++ .emit e.name e.stopOnResponse :: after ∧
    (run (step B) (init B) before).emissions.length = n ∧ e.Ok (registered B (run (step B) (init B) before) e.name)

variable (B) in
structure Inv (done : List (Op κ ι χ ρ)) (s : St ς κ χ ρ) : Prop where
  hooks : Hooks.Inv B s.hooks
  mapped : Mapped (B.content s.hooks.handlers)
  began : ∀ n e, s.emissions[n]? = some e → Began B done n e

theorem init_inv : Inv B [] (init B : St ς κ χ ρ) := by
  refine ⟨Hooks.init_inv B, fun ev h hmem => ?_, fun n e he => by simp [init] at he⟩
  rw [init, Hooks.init, B.content_empty] at hmem
  simp [flat] at hmem

theorem Began.later {done : List (Op κ ι χ ρ)} {n : ℕ} {e : Emission κ χ ρ} (h : Began B done n e)
    (e' : Emission κ χ ρ) (o : Op κ ι χ ρ) (hname : e'.name = e.name) (hstop : e'.stopOnResponse = e.stopOnResponse)
    (hok : ∀ handlers, e.Ok handlers → e'.Ok handlers) : Began B (done ++ [o]) n e' := by
  obtain ⟨before, after, hdone, hlen, he⟩ := h
  refine ⟨before, after ++ [o], ?_, hlen, ?_⟩
  · rw [hdone, hname, hstop, List.append_assoc, List.cons_append]
  · rw [hname]
    exact hok _ he

omit [DecidableEq κ] [DecidableEq χ] in
theorem Emission.Ok.raises {e : Emission κ χ ρ} {handlers : List (Handler χ)} (he : e.Ok handlers)
    (hrunning : e.status = .running) : ({ e with status := .raised } : Emission κ χ ρ).Ok handlers :=
  ⟨he.snapshot, he.called, he.silent, by simp, fun _ => (he.running hrunning).1, by simp⟩

theorem step_inv {done : List (Op κ ι χ ρ)} {s : St ς κ χ ρ} (hs : run (step B) (init B) done = s) (h : Inv B done s)
    (o : Op κ ι χ ρ) : Inv B (done ++ [o]) (step B s o) := by
  have hmoves := step_moves B s o
  generalize step B s o = s' at hmoves
  have hsame : ∀ n e, s.emissions[n]? = some e → Began B (done ++ [o]) n e := fun n e he =>
    (h.began n e he).later e o rfl rfl fun _ => id
  -- one emission goes on
  have hset : ∀ {n : ℕ} {e e' : Emission κ χ ρ}, s.emissions[n]? = some e → Began B (done ++ [o]) n e' →
      ∀ i x, (s.emissions.set n e')[i]? = some x → Began B (done ++ [o]) i x := by
    intro n e e' he he' i x hx
    by_cases hi : n = i
    · subst hi
      have hn : n < s.emissions.length := (List.getElem?_eq_some_iff.1 he).1
      rw [List.getElem?_set_self hn] at hx
      obtain rfl := Option.some.inj hx
      exact he'
    · rw [List.getElem?_set_ne hi] at hx
      exact hsame i x hx
  cases hmoves with
  | none => exact ⟨h.hooks, h.mapped, hsame⟩
  | hooks _ o' => exact ⟨Hooks.step_inv B s.hooks o' h.hooks, hooks_mapped s.hooks o' h.mapped, hsame⟩
  | @emit name stop handlers hhandlers =>
    refine ⟨Hooks.step_inv B s.hooks (.emit name) h.hooks, hooks_mapped s.hooks (.emit name) h.mapped, fun n e he => ?_⟩
    rcases lt_trichotomy n s.emissions.length with hn | rfl | hn
    · exact hsame n e (by rwa [List.getElem?_append_left hn] at he)
    · have hnew : e = ⟨name, stop, handlers, [], if handlers = [] then .returned else .running⟩ := by
        simpa [eq_comm] using he
      subst hnew
      have hregistered : registered B s name = handlers := by
        rw [← hhandlers, Hooks.lookup_eq B h.hooks]
        rfl
      refine ⟨done, [], rfl, by rw [hs], ?_⟩
      rw [hs, hregistered]
      exact Emission.Ok.begins name stop handlers _ (fun hnil => if_pos hnil) (fun hne => if_neg hne)
    · rw [List.getElem?_eq_none (by rw [List.length_append]; simpa using hn)] at he
      cases he
  | @receives n e handler r he hrunning hcurrent =>
    exact ⟨h.hooks, h.mapped, hset he ((h.began n e he).later _ _ rfl rfl fun _ hok => hok.receive hrunning hcurrent r)⟩
  | @raises n e he hrunning =>
    exact ⟨h.hooks, h.mapped, hset he ((h.began n e he).later _ _ rfl rfl fun _ hok => hok.raises hrunning)⟩

theorem run_inv (ops : List (Op κ ι χ ρ)) : Inv B ops (run (step B) (init B) ops) := by
  induction ops using List.reverseRecOn with
  | nil => exact init_inv
  | append_singleton ops o ih =>
    rw [run_append, run_cons, run_nil]
    exact step_inv rfl ih o

/-- **Emissions are snapshots.** Let emissions overlap with each other, with registrations and with unregistrations as they
like. An emission calls, in order, the handlers that were registered for its event as it began, whatever the lookup cache
held, and no handler that has an async replacement. While it runs, it awaits the next of them; it raises when that raises;
and it returns after the last of them or, if it is to stop there, after the first response that is not `None`, which is what
`emit_until_response` returns. -/
theorem emission_snapshot (B : Botocore ς κ ι χ) (ops : List (Op κ ι χ ρ)) (n : ℕ) (e : Emission κ χ ρ)
    (he : (run (step B) (init B) ops).emissions[n]? = some e) :
    ∃ before after, ops = before ++ .emit e.name e.stopOnResponse :: after ∧
      (run (step B) (init B) before).emissions.length = n ∧
      let handlers := registered B (run (step B) (init B) before) e.name
      e.responses.map Prod.fst <+: handlers ∧ (∀ h ∈ handlers, handlerMapping h = none) ∧
        (e.stopOnResponse = true → ∀ x ∈ e.responses.dropLast, x.2 = none) ∧
        (e.status ≠ .returned → ∃ h, e.current = some h ∧ handlers[e.responses.length]? = some h) ∧
        (e.status = .returned → e.responses.map Prod.fst = handlers ∨
          e.stopOnResponse = true ∧ e.untilResponse.2.isSome = true) := by
  obtain ⟨before, after, hops, hlen, hok⟩ := (run_inv ops).began n e he
  refine ⟨before, after, hops, hlen, hok.called, fun h hmem => ?_, hok.silent, fun hstatus => ?_, fun hreturned => ?_⟩
  · obtain ⟨ev, -, hev⟩ := List.mem_flatMap.1 hmem
    exact (run_inv before).mapped ev h hev
  · have hlt : e.responses.length < (registered B (run (step B) (init B) before) e.name).length := by
      cases hs : e.status with
      | running => exact (hok.running hs).1
      | raised => exact hok.raised hs
      | returned => exact absurd hs hstatus
    refine ⟨_, ?_, List.getElem?_eq_getElem hlt⟩
    rw [Emission.current, hok.snapshot]
    exact List.getElem?_eq_getElem hlt
  · rcases hok.returned hreturned with hall | ⟨hstop, x, hx, hsome⟩
    · exact .inl hall
    · refine .inr ⟨hstop, ?_⟩
      rw [Emission.untilResponse, hx]
      exact hsome

/-! ## An instance -/

/-- the first handler registers another one for the event; then the second, of botocore at first, is awaited -/
def growing : List (Op String ℕ ℕ ℕ) :=
  [.register .middle "before-call" (.other 0) none false,
    .register .middle "before-call" (.botocore .parseGetBucketLocation) none false, .emit "before-call" false,
    .register .first "before-call" (.other 1) none false, .response 0 none, .emit "before-call" true, .response 1 (some 7)]

theorem emission_snapshot_growing :
    ∃ e e' : Emission String ℕ ℕ,
      (run (step Hooks.plain) (init Hooks.plain) growing).emissions = [e, e'] ∧
        e.current = some (.aiobotocore .parseGetBucketLocation) ∧ e'.untilResponse = (some (.other 1), some 7) ∧
        ∃ before after, growing = before ++ .emit e'.name e'.stopOnResponse :: after := by
  refine ⟨⟨"before-call", false, [.other 0, .aiobotocore .parseGetBucketLocation], [(.other 0, none)], .running⟩,
    ⟨"before-call", true, [.other 1, .other 0, .aiobotocore .parseGetBucketLocation], [(.other 1, some 7)], .returned⟩,
    rfl, rfl, rfl, ?_⟩
  obtain ⟨before, after, hops, -⟩ := emission_snapshot Hooks.plain growing 1 _ rfl
  exact ⟨before, after, hops⟩

end AioBotocore.Emitter
