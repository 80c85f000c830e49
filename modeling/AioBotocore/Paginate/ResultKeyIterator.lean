/-
`result_key_iters`: one `ResultKeyIterator` for each result key, over the consumers of `tee`, whose source is the
generator of a fresh page iterator. Each iterator is a generator: it yields the results of a page one by one, and awaits
its consumer when there are none left. The steps of all of them and of `tee` take turns in any order.

`o` is the iteration of the page iterator, cut off by its fuel; a source that is still running there does not answer.

- `Effect`: what a step of `tee` does to the calls in progress and to its log.
- `run_inv`: what an iterator yielded and still holds are the results of the pages it popped.
- `iterator_ends`: from every state reached each iterator can be run to its end.
-/
import Mathlib.Tactic
import AioBotocore.Tee
import AioBotocore.Paginate.BuildFullResult

namespace AioBotocore.Paginate

open Async Function

variable {V K κ : Type} {kind : κ → Kind}

/-! ## Model -/

/-- the list of a result key in a page, `[]` if it is absent -/
def Page.list (c : Option κ) (p : Page V K kind) : List V := (kindOf kind c).values (p.val c)

/-- the `m`th `__anext__` of the page iterator's generator -/
def Iteration.answer (o : Iteration V K kind) (m : ℕ) : Option (Tee.Answer (Page V K kind) Unit) :=
  match o.pages[m]? with
  | some page => some (.value page)
  | none =>
    match o.ending with
    | .finished => some .stopAsyncIteration
    | .paginationError => some (.exception ())
    | .running => none

/-- the outcome that `tee` replays to every consumer -/
def Ending.outcome : Ending → Option (Tee.Exn Unit)
  | .paginationError => some (.source ())
  | _ => none

namespace ResultKeys

structure St (n : ℕ) (V K : Type) {κ : Type} (kind : κ → Kind) where
  tee : Tee.St n (Page V K kind) Unit
  /-- what is left of the page's results -/
  results : Fin n → List V
  /-- the generator awaits its consumer -/
  asking : Fin n → Bool
  yielded : Fin n → List V
  /-- what ended the generator -/
  ended : Fin n → Option (Tee.Result (Page V K kind) Unit)

inductive Op (n : ℕ) where
  | yield (i : Fin n)
  /-- the generator calls `__anext__` of its consumer, in task `k` -/
  | ask (k : ℕ) (i : Fin n)
  | resume (k : ℕ)
  | answer (k : ℕ)
deriving DecidableEq, Repr

variable {n : ℕ}

def init (n : ℕ) (V K : Type) {κ : Type} (kind : κ → Kind) : St n V K kind :=
  ⟨Tee.init n (Page V K kind) Unit, fun _ => [], fun _ => false, fun _ => [], fun _ => none⟩

/-- the consumer's call returned or raised -/
def hear (key : Fin n → Option κ) (st : St n V K kind) (e : Tee.Ev n (Page V K kind) Unit) : St n V K kind :=
  match e.result with
  | .value page => { st with asking := update st.asking e.consumer false,
                             results := update st.results e.consumer (page.list (key e.consumer)) }
  | r => { st with asking := update st.asking e.consumer false, ended := update st.ended e.consumer (some r) }

def teeStep (key : Fin n → Option κ) (st : St n V K kind) (op : Tee.Op n (Page V K kind) Unit) : St n V K kind :=
  let tee := Tee.step st.tee op
  (tee.log.drop st.tee.log.length).foldl (hear key) { st with tee := tee }

def step (o : Iteration V K kind) (key : Fin n → Option κ) (st : St n V K kind) : Op n → St n V K kind
  | .yield i =>
    match st.results i with
    | [] => st
    | v :: vs => { st with results := update st.results i vs, yielded := update st.yielded i (st.yielded i ++ [v]) }
  | .ask k i =>
    match st.tee.pc k with
    | .idle =>
      if st.results i = [] ∧ st.asking i = false ∧ st.ended i = none then
        teeStep key { st with asking := update st.asking i true } (.next k i)
      else st
    | _ => st
  | .resume k => teeStep key st (.resume k)
  | .answer k =>
    match o.answer st.tee.answers.length with
    | none => st
    | some a => teeStep key st (.answer k a)

/-! ## What a step of `tee` does -/

/-- task `k` is in a call of consumer `i` -/
def Calls {α ε : Type*} (s : Tee.St n α ε) (k : ℕ) (i : Fin n) : Prop :=
  ∃ late, s.pc k = .waiting i late ∨ s.pc k = .pulling i late

inductive Effect {α ε : Type*} (s : Tee.St n α ε) (op : Tee.Op n α ε) (s' : Tee.St n α ε) : Prop
  /-- no call ends; at most one begins -/
  | goesOn (hlog : s'.log = s.log) (hcalls : ∀ k i, Calls s' k i → Calls s k i ∨ op = .next k i)
      (hkept : ∀ k i, Calls s k i → Calls s' k i)
  /-- one call ends -/
  | ends (e : Tee.Ev n α ε) (hlog : s'.log = s.log ++ [e])
      (hfrom : (op = .next e.task e.consumer ∧ s.pc e.task = .idle) ∨ Calls s e.task e.consumer)
      (hcalls : ∀ k i, Calls s' k i → k ≠ e.task ∧ Calls s k i)
      (hkept : ∀ k i, k ≠ e.task → Calls s k i → Calls s' k i)

variable {α ε : Type*} {s s' : Tee.St n α ε} {op : Tee.Op n α ε}

theorem calls_goto {k : ℕ} {p : Tee.Pc n α ε} (hpc : s'.pc = update s.pc k p) {j : ℕ} {i : Fin n} (h : Calls s' j i) :
    (j = k ∧ ∃ late, p = .waiting i late ∨ p = .pulling i late) ∨ (j ≠ k ∧ Calls s j i) := by
  obtain ⟨late, h⟩ := h
  rw [hpc] at h
  by_cases hj : j = k
  · subst hj
    rw [update_self] at h
    exact .inl ⟨rfl, late, h⟩
  · rw [update_of_ne hj] at h
    exact .inr ⟨hj, late, h⟩

theorem calls_kept {k : ℕ} {p : Tee.Pc n α ε} (hpc : s'.pc = update s.pc k p) {j : ℕ} {i : Fin n} (hj : j ≠ k)
    (h : Calls s j i) : Calls s' j i := by
  obtain ⟨late, h⟩ := h
  refine ⟨late, ?_⟩
  rw [hpc, update_of_ne hj]
  exact h

theorem effect_ends {k : ℕ} {i : Fin n} {late : Bool} {r : Tee.Result α ε}
    (hpc : s'.pc = update s.pc k (.finished r)) (hlog : s'.log = s.log ++ [⟨k, i, late, r⟩])
    (hfrom : (op = .next k i ∧ s.pc k = .idle) ∨ Calls s k i) : Effect s op s' := by
  refine .ends ⟨k, i, late, r⟩ hlog hfrom (fun j i' h => ?_) fun j i' hj h => calls_kept hpc hj h
  rcases calls_goto hpc h with ⟨-, late', h | h⟩ | h
  · cases h
  · cases h
  · exact h

theorem effect_of_move (hm : Tee.Move s op s') : Effect s op s' := by
  cases hm with
  | skip => exact .goesOn rfl (fun _ _ h => .inl h) fun _ _ h => h
  | stopped k i hk => exact effect_ends rfl rfl (.inl ⟨rfl, hk⟩)
  | pop k i v rest hk => exact effect_ends rfl rfl (.inl ⟨rfl, hk⟩)
  | wait k i hk =>
    refine .goesOn rfl (fun j i' h => ?_) fun j i' h => ?_
    · rcases calls_goto rfl h with ⟨rfl, late, h | h⟩ | h
      · cases h
        exact .inr rfl
      · cases h
      · exact .inl h.2
    · have hj : j ≠ k := by
        intro hj
        obtain ⟨late, h | h⟩ := h <;> rw [hj, hk] at h <;> cases h
      exact calls_kept rfl hj h
  | popLate k i v rest hh hk => exact effect_ends rfl rfl (.inr ⟨false, .inl hk⟩)
  | replay k i r rs hh hk => exact effect_ends rfl rfl (.inr ⟨false, .inl hk⟩)
  | pull k i hh hk =>
    refine .goesOn rfl (fun j i' h => ?_) fun j i' h => ?_
    · rcases calls_goto rfl h with ⟨rfl, late, h | h⟩ | h
      · cases h
      · cases h
        exact .inl ⟨false, .inl hk⟩
      · exact .inl h.2
    · by_cases hj : j = k
      · obtain ⟨late, h | h⟩ := h
        · rw [hj, hk] at h
          cases h
          exact ⟨false, .inr (by rw [hj]; exact update_self _ _ _)⟩
        · rw [hj, hk] at h
          cases h
      · exact calls_kept rfl hj h
  | value k i v hk => exact effect_ends rfl rfl (.inr ⟨false, .inr hk⟩)
  | ends k i x r hk => exact effect_ends rfl rfl (.inr ⟨false, .inr hk⟩)
  | torn op k i ho hk => exact effect_ends rfl rfl (.inr ⟨false, .inr hk⟩)
  | escapes k i e hk => exact effect_ends rfl rfl (.inr ⟨false, .inr hk⟩)
  | abort k i hk => exact effect_ends rfl rfl (.inr ⟨false, .inl hk⟩)

/-! ## The invariant -/

variable {o : Iteration V K kind} {key : Fin n → Option κ} {st : St n V K kind}

structure Inv (o : Iteration V K kind) (key : Fin n → Option κ) (st : St n V K kind) : Prop where
  exec : ∃ ops, st.tee = Tee.exec ops ∧ ∀ op ∈ ops, op.Regular
  answers : ∀ j a, st.tee.answers[j]? = some a → o.answer j = some a
  yields : ∀ i, st.yielded i ++ st.results i = (Tee.delivered st.tee.log i).flatMap (Page.list (key i))
  /-- an iterator makes one call at a time -/
  asks : ∀ k i, Calls st.tee k i → st.asking i = true
  one : ∀ k k' i, Calls st.tee k i → Calls st.tee k' i → k = k'
  quiet : ∀ i, st.asking i = true → st.results i = [] ∧ st.ended i = none
  rests : ∀ i, st.ended i ≠ none → st.results i = []
  stopped : ∀ i, (st.ended i).isSome = Tee.ended st.tee.log i
  result : ∀ i r, st.ended i = some r → ∃ e ∈ st.tee.log, e.consumer = i ∧ e.result = r ∧ r.isEnd = true
  inTime : ∀ e ∈ st.tee.log, e.late = false

theorem init_inv (o : Iteration V K kind) (key : Fin n → Option κ) : Inv o key (init n V K kind) where
  exec := ⟨[], rfl, by simp⟩
  answers j a h := by simp [init, Tee.init] at h
  yields i := rfl
  asks k i h := by
    obtain ⟨late, h | h⟩ := h <;> cases h
  one k k' i h := by
    obtain ⟨late, h | h⟩ := h <;> cases h
  quiet i h := by cases h
  rests i h := rfl
  stopped i := rfl
  result i r h := by cases h
  inTime e h := by simp [init, Tee.init] at h

theorem Inv.tee (h : Inv o key st) : Tee.Inv st.tee := by
  obtain ⟨ops, hops, -⟩ := h.exec
  rw [hops]
  exact Tee.exec_inv ops

theorem Inv.regular (h : Inv o key st) : (∃ x, Tee.Source st.tee x) ∧ ∀ e ∈ st.tee.log, e.result.Regular := by
  obtain ⟨ops, hops, hreg⟩ := h.exec
  rw [hops]
  exact Tee.exec_regular hreg

/-- the steps of `tee` that the iterators and the source take -/
structure Allowed (o : Iteration V K kind) (st : St n V K kind) (op : Tee.Op n (Page V K kind) Unit) : Prop where
  regular : op.Regular
  answer : ∀ k a, op = .answer k a → o.answer st.tee.answers.length = some a
  next : ∀ k i, op = .next k i → st.asking i = true ∧ ∀ k', ¬ Calls st.tee k' i

theorem exec_snoc {ops : List (Tee.Op n α ε)} (op : Tee.Op n α ε) : Tee.step (Tee.exec ops) op = Tee.exec (ops ++ [op]) :=
  (run_append Tee.step _ ops [op]).symm

theorem Inv.step_exec (h : Inv o key st) {op : Tee.Op n (Page V K kind) Unit} (hreg : op.Regular) :
    ∃ ops, Tee.step st.tee op = Tee.exec ops ∧ ∀ op ∈ ops, op.Regular := by
  obtain ⟨ops, hops, hall⟩ := h.exec
  refine ⟨ops ++ [op], by rw [hops, exec_snoc], fun op' hop' => ?_⟩
  rcases List.mem_append.1 hop' with hop' | hop'
  · exact hall op' hop'
  · rw [List.mem_singleton.1 hop']
    exact hreg

theorem answers_of_move (hm : Tee.Move s op s') (hreg : op.Regular) :
    s'.answers = s.answers ∨ ∃ k a, op = .answer k a ∧ s'.answers = s.answers ++ [a] := by
  cases hm with
  | value k i v hk => exact .inr ⟨k, _, rfl, rfl⟩
  | ends k i x r hk => exact .inr ⟨k, x, rfl, rfl⟩
  | torn op k i ho hk => rcases ho with rfl | rfl <;> cases hreg
  | escapes => cases hreg
  | _ => exact .inl rfl

theorem Inv.step_answers (h : Inv o key st) {op : Tee.Op n (Page V K kind) Unit} (hop : Allowed o st op) :
    ∀ j a, (Tee.step st.tee op).answers[j]? = some a → o.answer j = some a := by
  intro j a hj
  rcases answers_of_move (Tee.step_cases h.tee op) hop.regular with hsame | ⟨k, a', hanswer, hnew⟩
  · rw [hsame] at hj
    exact h.answers j a hj
  · rw [hnew] at hj
    rcases Nat.lt_trichotomy j st.tee.answers.length with hlt | rfl | hgt
    · rw [List.getElem?_append_left hlt] at hj
      exact h.answers j a hj
    · obtain rfl : a' = a := by simpa using hj
      exact hop.answer k a' hanswer
    · rw [List.getElem?_eq_none (by simp; omega)] at hj
      cases hj

theorem teeStep_goesOn {op : Tee.Op n (Page V K kind) Unit} (hlog : (Tee.step st.tee op).log = st.tee.log) :
    teeStep key st op = { st with tee := Tee.step st.tee op } := by
  simp [teeStep, hlog]

theorem teeStep_ends {op : Tee.Op n (Page V K kind) Unit} {e : Tee.Ev n (Page V K kind) Unit}
    (hlog : (Tee.step st.tee op).log = st.tee.log ++ [e]) :
    teeStep key st op = hear key { st with tee := Tee.step st.tee op } e := by
  simp [teeStep, hlog]

/-- no call of `tee` has ended -/
theorem Inv.goesOn (h : Inv o key st) {op : Tee.Op n (Page V K kind) Unit} (hop : Allowed o st op)
    (hlog : (Tee.step st.tee op).log = st.tee.log)
    (hcalls : ∀ k i, Calls (Tee.step st.tee op) k i → Calls st.tee k i ∨ op = .next k i) :
    Inv o key (teeStep key st op) := by
  rw [teeStep_goesOn hlog]
  refine ⟨h.step_exec hop.regular, h.step_answers hop, ?_, ?_, ?_, h.quiet, h.rests, ?_, ?_, ?_⟩
  · rw [hlog]
    exact h.yields
  · intro k i hk
    rcases hcalls k i hk with hk | hk
    · exact h.asks k i hk
    · exact (hop.next k i hk).1
  · intro k k' i hk hk'
    rcases hcalls k i hk with hk | hk
    · rcases hcalls k' i hk' with hk' | hk'
      · exact h.one k k' i hk hk'
      · exact absurd hk ((hop.next k' i hk').2 k)
    · rcases hcalls k' i hk' with hk' | hk'
      · exact absurd hk' ((hop.next k i hk).2 k')
      · rw [hk] at hk'
        cases hk'
        rfl
  · rw [hlog]
    exact h.stopped
  · rw [hlog]
    exact h.result
  · rw [hlog]
    exact h.inTime

/-- one call of `tee` has ended, with event `e`, which its generator has still to hear of -/
structure Hears (o : Iteration V K kind) (key : Fin n → Option κ) (st : St n V K kind)
    (tee : Tee.St n (Page V K kind) Unit) (e : Tee.Ev n (Page V K kind) Unit) : Prop where
  inv : Inv o key st
  exec : ∃ ops, tee = Tee.exec ops ∧ ∀ op ∈ ops, op.Regular
  answers : ∀ j a, tee.answers[j]? = some a → o.answer j = some a
  log : tee.log = st.tee.log ++ [e]
  nothing : st.results e.consumer = [] ∧ st.ended e.consumer = none
  /-- it was the only call of its consumer -/
  calls : ∀ k i, Calls tee k i → i ≠ e.consumer ∧ Calls st.tee k i
  inTime : e.late = false
  regular : e.result.Regular

theorem Inv.hears (h : Inv o key st) {op : Tee.Op n (Page V K kind) Unit} (hop : Allowed o st op)
    {e : Tee.Ev n (Page V K kind) Unit} (hlog : (Tee.step st.tee op).log = st.tee.log ++ [e])
    (hfrom : (op = .next e.task e.consumer ∧ st.tee.pc e.task = .idle) ∨ Calls st.tee e.task e.consumer)
    (hcalls : ∀ k i, Calls (Tee.step st.tee op) k i → k ≠ e.task ∧ Calls st.tee k i) :
    Hears o key st (Tee.step st.tee op) e := by
  have htee : Tee.Inv (Tee.step st.tee op) := Tee.step_inv h.tee op
  have hasking : st.asking e.consumer = true := by
    rcases hfrom with hfrom | hfrom
    · exact (hop.next _ _ hfrom.1).1
    · exact h.asks _ _ hfrom
  have hnothing := h.quiet _ hasking
  refine ⟨h, h.step_exec hop.regular, h.step_answers hop, hlog, hnothing, ?_, ?_, ?_⟩
  · intro k i hk
    obtain ⟨hne, hk⟩ := hcalls k i hk
    refine ⟨?_, hk⟩
    rintro rfl
    rcases hfrom with hfrom | hfrom
    · exact (hop.next _ _ hfrom.1).2 k hk
    · exact hne (h.one _ _ _ hk hfrom)
  · rw [← Bool.not_eq_true]
    intro hl
    -- a late call would have found its consumer ended
    have hended := ((htee.ends.orderly st.tee.log e [] hlog).1 hl).1
    rw [← h.stopped, hnothing.2] at hended
    cases hended
  · apply Tee.step_results h.tee hop.regular h.regular.2
    rw [hlog]
    exact List.mem_append_right _ (List.mem_singleton_self e)

section Hears

variable {tee : Tee.St n (Page V K kind) Unit} {e : Tee.Ev n (Page V K kind) Unit} (h : Hears o key st tee e)
include h

theorem Hears.asks (k : ℕ) (i : Fin n) (hk : Calls tee k i) : update st.asking e.consumer false i = true := by
  obtain ⟨hne, hk⟩ := h.calls k i hk
  rw [update_of_ne hne]
  exact h.inv.asks k i hk

theorem Hears.one (k k' : ℕ) (i : Fin n) (hk : Calls tee k i) (hk' : Calls tee k' i) : k = k' :=
  h.inv.one k k' i (h.calls k i hk).2 (h.calls k' i hk').2

theorem Hears.log_inTime (x : Tee.Ev n (Page V K kind) Unit) (hx : x ∈ tee.log) : x.late = false := by
  rw [h.log] at hx
  rcases List.mem_append.1 hx with hx | hx
  · exact h.inv.inTime x hx
  · rw [List.mem_singleton.1 hx]
    exact h.inTime

/-- the other generators that await their consumers -/
theorem Hears.quiet {i : Fin n} (hi : update st.asking e.consumer false i = true) :
    i ≠ e.consumer ∧ st.results i = [] ∧ st.ended i = none := by
  have hne : i ≠ e.consumer := by
    intro heq
    simp [heq] at hi
  rw [update_of_ne hne] at hi
  exact ⟨hne, h.inv.quiet i hi⟩

theorem Hears.result {i : Fin n} {r : Tee.Result (Page V K kind) Unit} (hi : st.ended i = some r) :
    ∃ x ∈ tee.log, x.consumer = i ∧ x.result = r ∧ r.isEnd = true := by
  obtain ⟨x, hx, hfrom⟩ := h.inv.result i r hi
  exact ⟨x, by rw [h.log]; exact List.mem_append_left _ hx, hfrom⟩

/-- an event that ends the generator -/
theorem Hears.ends {r : Tee.Result (Page V K kind) Unit} (hr : e.result = r) (hvalue : r.value? = none)
    (hisEnd : r.isEnd = true) :
    Inv o key { st with tee := tee, asking := update st.asking e.consumer false,
                        ended := update st.ended e.consumer (some r) } := by
  refine ⟨h.exec, h.answers, fun i => ?_, h.asks, h.one, fun i hi => ?_, fun i hi => ?_, fun i => ?_, fun i r' hi => ?_,
    h.log_inTime⟩
  · rw [h.log, Tee.delivered_snoc, hr, hvalue]
    simpa using h.inv.yields i
  · obtain ⟨hne, hquiet⟩ := h.quiet hi
    simpa only [update_of_ne hne] using hquiet
  · by_cases hc : i = e.consumer
    · rw [hc]
      exact h.nothing.1
    · simp only [update_of_ne hc] at hi
      exact h.inv.rests i hi
  · rw [h.log, Tee.ended_snoc]
    by_cases hc : i = e.consumer
    · simp [hc, hr, hisEnd]
    · simp only [update_of_ne hc]
      rw [h.inv.stopped]
      simp [Ne.symm hc]
  · by_cases hc : i = e.consumer
    · obtain rfl : r = r' := by simpa [hc] using hi
      exact ⟨e, by rw [h.log]; simp, hc.symm, hr, hisEnd⟩
    · simp only [update_of_ne hc] at hi
      exact h.result hi

/-- an event with a page -/
theorem Hears.value {page : Page V K kind} (hr : e.result = .value page) :
    Inv o key { st with tee := tee, asking := update st.asking e.consumer false,
                        results := update st.results e.consumer (page.list (key e.consumer)) } := by
  refine ⟨h.exec, h.answers, fun i => ?_, h.asks, h.one, fun i hi => ?_, fun i hi => ?_, fun i => ?_, fun i r hi => ?_,
    h.log_inTime⟩
  · change st.yielded i ++ update st.results e.consumer _ i = _
    rw [h.log, Tee.delivered_snoc, List.flatMap_append, ← h.inv.yields]
    by_cases hc : i = e.consumer
    · subst hc
      rw [update_self, h.nothing.1, if_pos rfl, hr]
      simp [Tee.Result.value?]
    · rw [update_of_ne hc, if_neg (Ne.symm hc)]
      simp
  · obtain ⟨hne, hquiet⟩ := h.quiet hi
    simpa only [update_of_ne hne] using hquiet
  · have hne : i ≠ e.consumer := by
      rintro rfl
      exact hi h.nothing.2
    simp only [update_of_ne hne]
    exact h.inv.rests i hi
  · rw [h.log, Tee.ended_snoc, h.inv.stopped, hr]
    simp [Tee.Result.isEnd]
  · exact h.result hi

theorem Hears.hear : Inv o key (hear key { st with tee := tee } e) := by
  have hregular := h.regular
  rw [ResultKeys.hear]
  cases hr : e.result with
  | value page => exact h.value hr
  | cancelled =>
    rw [hr] at hregular
    cases hregular
  | baseException x =>
    rw [hr] at hregular
    cases hregular
  | _ => exact h.ends hr rfl rfl

end Hears

theorem teeStep_inv (h : Inv o key st) {op : Tee.Op n (Page V K kind) Unit} (hop : Allowed o st op) :
    Inv o key (teeStep key st op) := by
  rcases effect_of_move (Tee.step_cases h.tee op) with ⟨hlog, hcalls, -⟩ | ⟨e, hlog, hfrom, hcalls, -⟩
  · exact h.goesOn hop hlog hcalls
  · rw [teeStep_ends hlog]
    exact (h.hears hop hlog hfrom hcalls).hear

/-- an iterator that may call its consumer, just before the call -/
theorem Inv.asking (h : Inv o key st) (k : ℕ) {i : Fin n} (hnil : st.results i = []) (hfalse : st.asking i = false)
    (hnone : st.ended i = none) :
    Inv o key { st with asking := update st.asking i true } ∧
      Allowed o { st with asking := update st.asking i true } (.next k i) := by
  have hcalls : ∀ k', ¬ Calls st.tee k' i := by
    intro k' hk'
    rw [h.asks k' i hk'] at hfalse
    cases hfalse
  refine ⟨⟨h.exec, h.answers, h.yields, fun k' j hk' => ?_, h.one, fun j hj => ?_, h.rests, h.stopped, h.result,
    h.inTime⟩, trivial, fun _ _ hop => (by cases hop), fun k' j hop => ?_⟩
  · by_cases hj : j = i
    · simp [hj]
    · simpa only [update_of_ne hj] using h.asks k' j hk'
  · by_cases hji : j = i
    · rw [hji]
      exact ⟨hnil, hnone⟩
    · simp only [update_of_ne hji] at hj
      exact h.quiet j hj
  · cases hop
    exact ⟨by simp, hcalls⟩

theorem allowed_resume (o : Iteration V K kind) (st : St n V K kind) (k : ℕ) : Allowed o st (.resume k) :=
  ⟨trivial, fun _ _ hop => (by cases hop), fun _ _ hop => (by cases hop)⟩

theorem allowed_answer {a : Tee.Answer (Page V K kind) Unit} (k : ℕ) (h : o.answer st.tee.answers.length = some a) :
    Allowed o st (.answer k a) := by
  refine ⟨?_, fun _ _ hop => ?_, fun _ _ hop => (by cases hop)⟩
  · -- the generator answers with a page, `StopAsyncIteration` or `PaginationError`
    unfold Iteration.answer at h
    split at h
    · cases h
      trivial
    · cases hending : o.ending <;> rw [hending] at h <;> cases h <;> trivial
  · cases hop
    exact h

theorem step_inv (h : Inv o key st) (op : Op n) : Inv o key (step o key st op) := by
  cases op with
  | yield i =>
    rw [step]
    cases hresults : st.results i with
    | nil => exact h
    | cons v vs =>
      have hasking : st.asking i ≠ true := by
        intro hi
        have hnil := (h.quiet i hi).1
        rw [hresults] at hnil
        cases hnil
      refine ⟨h.exec, h.answers, fun j => ?_, h.asks, h.one, fun j hj => ?_, fun j hj => ?_, h.stopped, h.result, h.inTime⟩
      · by_cases hj : j = i
        · subst hj
          rw [← h.yields, hresults]
          simp
        · simpa only [update_of_ne hj] using h.yields j
      · have hne : j ≠ i := by
          intro heq
          exact hasking (heq ▸ hj)
        simpa only [update_of_ne hne] using h.quiet j hj
      · have hne : j ≠ i := by
          intro heq
          have hnil := h.rests j hj
          rw [heq, hresults] at hnil
          cases hnil
        simpa only [update_of_ne hne] using h.rests j hj
  | ask k i =>
    rw [step]
    split
    · split_ifs with hask
      · obtain ⟨hasking, hallowed⟩ := h.asking k hask.1 hask.2.1 hask.2.2
        exact teeStep_inv hasking hallowed
      · exact h
    · exact h
  | resume k => exact teeStep_inv h (allowed_resume o st k)
  | answer k =>
    rw [step]
    cases hanswer : o.answer st.tee.answers.length with
    | none => exact h
    | some a => exact teeStep_inv h (allowed_answer k hanswer)

theorem run_inv (h : Inv o key st) (ops : List (Op n)) : Inv o key (run (step o key) st ops) :=
  Async.run_inv (I := Inv o key) (fun _ op h => step_inv h op) h ops

/-! ## The pages that are popped -/

theorem answer_value {m : ℕ} {page : Page V K kind} (h : o.answer m = some (.value page)) : o.pages[m]? = some page := by
  unfold Iteration.answer at h
  split at h
  · cases h
    assumption
  · cases hending : o.ending <;> rw [hending] at h <;> cases h

theorem answer_end {m : ℕ} {x : Tee.Answer (Page V K kind) Unit} (h : o.answer m = some x) (hx : x.value? = none) :
    o.pages.length ≤ m ∧ x.result = Tee.resultOf o.ending.outcome := by
  unfold Iteration.answer at h
  split at h
  · cases h
    cases hx
  · rename_i hnone
    refine ⟨List.getElem?_eq_none_iff.1 hnone, ?_⟩
    cases hending : o.ending <;> rw [hending] at h <;> cases h <;> rfl

/-- the source yields the pages of the iteration in order, and all of them before it ends -/
theorem Inv.emitted (h : Inv o key st) :
    Tee.emitted st.tee <+: o.pages ∧
      (st.tee.outcome ≠ [] → Tee.emitted st.tee = o.pages ∧
        st.tee.outcome.head?.map Tee.resultOf =
          some (Tee.resultOf o.ending.outcome : Tee.Result (Page V K kind) Unit)) := by
  obtain ⟨⟨x, hx⟩, -⟩ := h.regular
  have hyielded : (∃ l, st.tee.answers = (Tee.emitted st.tee).map .value ++ l) → Tee.emitted st.tee <+: o.pages := by
    rintro ⟨l, hl⟩
    rw [List.prefix_iff_getElem?]
    intro j hj
    refine answer_value (h.answers j _ ?_)
    rw [hl, List.getElem?_append_left (by simpa using hj)]
    simp [hj]
  cases x with
  | none => exact ⟨hyielded ⟨[], by rw [List.append_nil]; exact hx.2⟩, fun hne => absurd hx.1 hne⟩
  | some x =>
    obtain ⟨hresult, hanswers⟩ := hx
    have hpre := hyielded ⟨[x], hanswers⟩
    have hlast : o.answer (Tee.emitted st.tee).length = some x := h.answers _ _ (by rw [hanswers]; simp)
    have hx : x.value? = none := by
      cases x with
      | value v =>
        cases houtcome : st.tee.outcome with
        | nil => rw [houtcome] at hresult; cases hresult
        | cons r rs =>
          rw [houtcome] at hresult
          cases r <;> cases hresult
      | _ => rfl
    obtain ⟨hle, hstop⟩ := answer_end hlast hx
    exact ⟨hpre, fun _ => ⟨hpre.eq_of_length_le hle, by rw [hresult, hstop]⟩⟩

theorem Inv.popped (h : Inv o key st) (i : Fin n) : Tee.delivered st.tee.log i <+: o.pages := by
  have hfifo := h.tee.fifo i
  exact (List.prefix_append _ _).trans (hfifo ▸ h.emitted.1)

/-- an iterator that ended has yielded all -/
theorem Inv.yielded_of_ended (h : Inv o key st) {i : Fin n} {r : Tee.Result (Page V K kind) Unit}
    (hended : st.ended i = some r) :
    st.yielded i = o.pages.flatMap (Page.list (key i)) ∧ r = Tee.resultOf o.ending.outcome := by
  obtain ⟨e, he, rfl, rfl, hisEnd⟩ := h.result i r hended
  have hlate := h.inTime e he
  obtain ⟨a, b, hlog⟩ := List.append_of_mem he
  obtain ⟨hdelivered, houtcome⟩ := (h.tee.ends.orderly a e b hlog).2 hisEnd
  have hne : st.tee.outcome ≠ [] := by
    intro hnil
    have hcontra := houtcome hlate
    rw [hnil] at hcontra
    cases hcontra
  obtain ⟨hall, hstop⟩ := h.emitted.2 hne
  -- what it had popped then is what it has popped now
  have hsplit : Tee.delivered st.tee.log e.consumer = Tee.delivered a e.consumer ++ Tee.delivered (e :: b) e.consumer := by
    rw [hlog, Tee.delivered, List.filterMap_append]
    rfl
  have hpopped : Tee.delivered st.tee.log e.consumer = o.pages := by
    refine (h.popped e.consumer).eq_of_length_le ?_
    rw [hsplit, hdelivered, hall, List.length_append]
    exact Nat.le_add_right _ _
  have hyields := h.yields e.consumer
  rw [h.rests e.consumer (by rw [hended]; simp), List.append_nil, hpopped] at hyields
  have hresult := houtcome hlate
  rw [hstop] at hresult
  exact ⟨hyields, (Option.some.inj hresult).symm⟩

/-! ## Each iterator comes to its end -/

theorem hear_tee (st : St n V K kind) (e : Tee.Ev n (Page V K kind) Unit) : (hear key st e).tee = st.tee := by
  unfold hear
  split <;> rfl

theorem teeStep_tee (h : Inv o key st) (op : Tee.Op n (Page V K kind) Unit) :
    (teeStep key st op).tee = Tee.step st.tee op := by
  cases effect_of_move (Tee.step_cases h.tee op) with
  | goesOn hlog => rw [teeStep_goesOn hlog]
  | ends e hlog => rw [teeStep_ends hlog, hear_tee]

theorem hear_asking (st : St n V K kind) (e : Tee.Ev n (Page V K kind) Unit) :
    (hear key st e).asking = update st.asking e.consumer false := by
  unfold hear
  split <;> rfl

/-- how often the iterator called its consumer -/
def asked (st : St n V K kind) (i : Fin n) : ℕ :=
  st.tee.log.countP (fun e => e.consumer == i) + (st.asking i).toNat

theorem teeStep_asked (h : Inv o key st) {op : Tee.Op n (Page V K kind) Unit} (hop : Allowed o st op) (i : Fin n) :
    asked (teeStep key st op) i = asked st i := by
  cases effect_of_move (Tee.step_cases h.tee op) with
  | goesOn hlog => rw [teeStep_goesOn hlog, asked, asked, hlog]
  | ends e hlog hfrom =>
    have hasking : st.asking e.consumer = true := by
      rcases hfrom with hfrom | hfrom
      · exact (hop.next _ _ hfrom.1).1
      · exact h.asks _ _ hfrom
    rw [teeStep_ends hlog, asked, asked, hear_tee, hear_asking, hlog, List.countP_append]
    by_cases hi : i = e.consumer
    · simp [hi, hasking]
    · simp [update_of_ne hi, Ne.symm hi]

/-- an iterator that awaits its consumer is in a call of it -/
def Waits (st : St n V K kind) : Prop := ∀ i, st.asking i = true → ∃ k, Calls st.tee k i

theorem calls_consumer {k : ℕ} {i j : Fin n} (hi : Calls s k i) (hj : Calls s k j) : i = j := by
  obtain ⟨_, hi⟩ := hi
  obtain ⟨_, hj⟩ := hj
  rcases hi with hi | hi
  · rcases hj with hj | hj
    · rw [hi] at hj
      cases hj
      rfl
    · rw [hi] at hj
      cases hj
  · rcases hj with hj | hj
    · rw [hi] at hj
      cases hj
    · rw [hi] at hj
      cases hj
      rfl

/-- a call that was just made is in progress, or it has ended -/
theorem next_calls {k : ℕ} (hk : s.pc k = .idle) (i : Fin n) :
    Calls (Tee.step s (.next k i)) k i ∨ ∃ e, (Tee.step s (.next k i)).log = s.log ++ [e] ∧ e.consumer = i := by
  rw [Tee.step, hk]
  simp only
  unfold Tee.anext
  split_ifs
  · exact .inr ⟨_, rfl, rfl⟩
  · split
    · exact .inr ⟨_, rfl, rfl⟩
    · exact .inl ⟨_, .inl (update_self _ _ _)⟩

theorem teeStep_waits (h : Inv o key st) {op : Tee.Op n (Page V K kind) Unit} (hop : Allowed o st op)
    (hwaits : ∀ i, st.asking i = true → (∃ k, Calls st.tee k i) ∨ ∃ k, op = .next k i ∧ st.tee.pc k = .idle) :
    Waits (teeStep key st op) := by
  intro i hi
  have heffect := effect_of_move (Tee.step_cases h.tee op)
  rw [teeStep_tee h]
  cases heffect with
  | goesOn hlog _ hkept =>
    rw [teeStep_goesOn hlog] at hi
    rcases hwaits i hi with ⟨k, hk⟩ | ⟨k, rfl, hk⟩
    · exact ⟨k, hkept k i hk⟩
    · rcases next_calls hk i with hcalls | ⟨e, he, -⟩
      · exact ⟨k, hcalls⟩
      · rw [hlog] at he
        simp at he
  | ends e hlog hfrom _ hkept =>
    rw [teeStep_ends hlog, hear_asking] at hi
    have hne : i ≠ e.consumer := by
      intro heq
      simp [heq] at hi
    rw [update_of_ne hne] at hi
    rcases hwaits i hi with ⟨k, hk⟩ | ⟨k, rfl, hk⟩
    · refine ⟨k, hkept k i (fun heq => ?_) hk⟩
      rcases hfrom with hfrom | hfrom
      · -- the task of a new call was idle
        obtain ⟨late, hk | hk⟩ := hk <;> rw [heq, hfrom.2] at hk <;> cases hk
      · exact hne (calls_consumer hk (heq ▸ hfrom))
    · rcases next_calls hk i with hcalls | ⟨e', he', hconsumer⟩
      · exact ⟨k, hcalls⟩
      · rw [hlog] at he'
        have heq : e = e' := by simpa using he'
        exact absurd (heq ▸ hconsumer).symm hne

theorem step_waits (h : Inv o key st) (hw : Waits st) (op : Op n) : Waits (step o key st op) := by
  cases op with
  | yield i =>
    rw [step]
    split <;> exact hw
  | ask k i =>
    rw [step]
    split
    · rename_i hk
      split_ifs with hask
      · obtain ⟨hasking, hallowed⟩ := h.asking k hask.1 hask.2.1 hask.2.2
        refine teeStep_waits hasking hallowed fun j hj => ?_
        by_cases hji : j = i
        · exact .inr ⟨k, by rw [hji], hk⟩
        · exact .inl (hw j (by simpa only [update_of_ne hji] using hj))
      · exact hw
    · exact hw
  | resume k => exact teeStep_waits h (allowed_resume o st k) fun j hj => .inl (hw j hj)
  | answer k =>
    rw [step]
    cases hanswer : o.answer st.tee.answers.length with
    | none => exact hw
    | some a => exact teeStep_waits h (allowed_answer k hanswer) fun j hj => .inl (hw j hj)

/-- a state that a run reaches -/
def Reached (o : Iteration V K kind) (key : Fin n → Option κ) (st : St n V K kind) : Prop := Inv o key st ∧ Waits st

theorem init_reached (o : Iteration V K kind) (key : Fin n → Option κ) : Reached o key (init n V K kind) :=
  ⟨init_inv o key, fun i hi => by cases hi⟩

theorem run_reached (h : Reached o key st) (ops : List (Op n)) : Reached o key (run (step o key) st ops) :=
  Async.run_inv (I := Reached o key) (fun _ op h => ⟨step_inv h.1 op, step_waits h.1 h.2 op⟩) h ops

/-- the calls that an iterator made are only counted up -/
theorem step_asked (h : Inv o key st) (op : Op n) (i : Fin n) : asked st i ≤ asked (step o key st op) i := by
  cases op with
  | yield j =>
    rw [step]
    split <;> exact le_rfl
  | ask k j =>
    rw [step]
    split
    · split_ifs with hask
      · obtain ⟨hasking, hallowed⟩ := h.asking k hask.1 hask.2.1 hask.2.2
        rw [teeStep_asked hasking hallowed]
        by_cases hij : i = j
        · subst hij
          simp [asked, hask.2.1]
        · simp [asked, update_of_ne hij]
      · exact le_rfl
    · exact le_rfl
  | resume k => exact (teeStep_asked h (allowed_resume o st k) i).ge
  | answer k =>
    rw [step]
    cases hanswer : o.answer st.tee.answers.length with
    | none => exact le_rfl
    | some a => exact (teeStep_asked h (allowed_answer k hanswer) i).ge

theorem run_asked (h : Inv o key st) (ops : List (Op n)) (i : Fin n) :
    asked st i ≤ asked (run (step o key) st ops) i := by
  induction ops generalizing st with
  | nil => exact le_rfl
  | cons op ops ih => exact (step_asked h op i).trans (ih (step_inv h op))

theorem answer_isSome (hending : o.ending ≠ .running) (m : ℕ) : ∃ a, o.answer m = some a := by
  unfold Iteration.answer
  split
  · exact ⟨_, rfl⟩
  · cases h : o.ending with
    | running => exact absurd h hending
    | _ => exact ⟨_, rfl⟩

theorem step_resume_tee (h : Inv o key st) (k : ℕ) : (step o key st (.resume k)).tee = Tee.step st.tee (.resume k) :=
  teeStep_tee h _

theorem step_answer_tee (h : Inv o key st) (hending : o.ending ≠ .running) (k : ℕ) :
    ∃ a, (step o key st (.answer k)).tee = Tee.step st.tee (.answer k a) := by
  obtain ⟨a, ha⟩ := answer_isSome hending st.tee.answers.length
  refine ⟨a, ?_⟩
  rw [step, ha]
  exact teeStep_tee h _

/-- the task that holds the lock of `tee` runs until it releases it -/
theorem next_turn (h : Inv o key st) (hending : o.ending ≠ .running) {j : ℕ} (hj : st.tee.lock.holder = some j) :
    ∃ ops, (run (step o key) st ops).tee.lock = st.tee.lock.release := by
  have hbusy := (h.tee.guards.busy j).2 (.inl hj)
  have hanswers : ∀ {st' : St n V K kind}, Inv o key st' → ∀ {i late}, st'.tee.pc j = .pulling i late →
      (step o key st' (.answer j)).tee.lock = st'.tee.lock.release := by
    intro st' h' i late hpc
    obtain ⟨a, ha⟩ := step_answer_tee h' hending j
    rw [ha, Tee.step, hpc]
    exact Tee.pulled_lock _ _ _ _ _
  cases hpc : st.tee.pc j with
  | pulling i late => exact ⟨[.answer j], hanswers h hpc⟩
  | waiting i late =>
    have hresume : (step o key st (.resume j)).tee = Tee.pull st.tee j i late := by
      rw [step_resume_tee h, Tee.step, if_pos hj, hpc]
    by_cases hc : st.tee.buffers i ≠ [] ∨ st.tee.outcome ≠ []
    · refine ⟨[.resume j], ?_⟩
      change (step o key st (.resume j)).tee.lock = _
      rw [hresume, Tee.pull, if_pos hc, Tee.afterPull_lock]
      rfl
    · refine ⟨[.resume j, .answer j], ?_⟩
      rw [Tee.pull, if_neg hc] at hresume
      have hpulling : (step o key st (.resume j)).tee.pc j = .pulling i late := by
        rw [hresume]
        exact update_self _ _ _
      change (step o key (step o key st (.resume j)) (.answer j)).tee.lock = _
      rw [hanswers (step_inv h _) hpulling, hresume]
      rfl
  | idle => exact absurd (by rw [hpc]; rfl) hbusy
  | finished r => exact absurd (by rw [hpc]; rfl) hbusy

/-- the calls in progress can run until there are none -/
theorem drains (h : Inv o key st) (hending : o.ending ≠ .running) :
    ∃ ops, ∀ k i, ¬ Calls (run (step o key) st ops).tee k i := by
  induction hq : st.tee.lock.queue.length generalizing st with
  | zero =>
    refine ⟨[], fun k i hcall => ?_⟩
    have hnil : st.tee.lock.queue = [] := List.length_eq_zero_iff.1 hq
    have hqueued : Tee.region (st.tee.pc k) ≠ .out := by
      obtain ⟨late, hk | hk⟩ := hcall <;> rw [show st.tee.pc k = _ from hk] <;> simp
    have hmem := (h.tee.guards.busy k).1 hqueued
    simp_all [FairLock.queue]
  | succ m ih =>
    cases hj : st.tee.lock.holder with
    | none => simp [FairLock.queue, hj, h.tee.guards.idle hj] at hq
    | some j =>
      obtain ⟨ops₁, hlock⟩ := next_turn h hending hj
      have hm : (run (step o key) st ops₁).tee.lock.queue.length = m := by
        rw [hlock, FairLock.release_queue]
        simpa [FairLock.queue, hj] using hq
      obtain ⟨ops₂, hout⟩ := ih (run_inv h ops₁) hm
      exact ⟨ops₁ ++ ops₂, by rw [run_append]; exact hout⟩

theorem move_pc (hm : Tee.Move s op s') :
    ∃ k, (∀ j ≠ k, s'.pc j = s.pc j) := by
  cases hm with
  | skip => exact ⟨0, fun _ _ => rfl⟩
  | stopped k => exact ⟨k, fun j hj => update_of_ne hj _ _⟩
  | pop k => exact ⟨k, fun j hj => update_of_ne hj _ _⟩
  | wait k => exact ⟨k, fun j hj => update_of_ne hj _ _⟩
  | popLate k => exact ⟨k, fun j hj => update_of_ne hj _ _⟩
  | replay k => exact ⟨k, fun j hj => update_of_ne hj _ _⟩
  | pull k => exact ⟨k, fun j hj => update_of_ne hj _ _⟩
  | value k => exact ⟨k, fun j hj => update_of_ne hj _ _⟩
  | ends k => exact ⟨k, fun j hj => update_of_ne hj _ _⟩
  | torn op k => exact ⟨k, fun j hj => update_of_ne hj _ _⟩
  | escapes k => exact ⟨k, fun j hj => update_of_ne hj _ _⟩
  | abort k => exact ⟨k, fun j hj => update_of_ne hj _ _⟩

/-- there is a task that made no call yet -/
theorem Inv.exists_idle (h : Inv o key st) : ∃ k, st.tee.pc k = .idle := by
  obtain ⟨ops, hops, -⟩ := h.exec
  have hstep : ∀ (s : Tee.St n (Page V K kind) Unit) op, (Tee.Inv s ∧ ∃ b, ∀ k, b ≤ k → s.pc k = .idle) →
      Tee.Inv (Tee.step s op) ∧ ∃ b, ∀ k, b ≤ k → (Tee.step s op).pc k = .idle := by
    rintro s op ⟨hs, b, hb⟩
    obtain ⟨k, hk⟩ := move_pc (Tee.step_cases hs op)
    refine ⟨Tee.step_inv hs op, max b (k + 1), fun j hj => ?_⟩
    rw [hk j (by omega)]
    exact hb j (by omega)
  obtain ⟨-, b, hb⟩ := Async.run_inv hstep ⟨Tee.init_inv, 0, fun _ _ => rfl⟩ ops
  exact ⟨b, by rw [hops]; exact hb b le_rfl⟩

/-- while an iterator goes on, each call of its consumer gave it a page -/
theorem Inv.asked_eq (h : Inv o key st) {i : Fin n} (hnone : st.ended i = none) (hfalse : st.asking i = false) :
    asked st i = (Tee.delivered st.tee.log i).length := by
  have hvalues : ∀ e ∈ st.tee.log, e.consumer = i → ∃ page, e.result = .value page := by
    intro e he hi
    have hregular := h.regular.2 e he
    have hopen : Tee.ended st.tee.log i = false := by rw [← h.stopped, hnone]; rfl
    cases hr : e.result with
    | value page => exact ⟨page, rfl⟩
    | cancelled => rw [hr] at hregular; exact hregular.elim
    | baseException x => rw [hr] at hregular; exact hregular.elim
    | _ =>
      rw [← Bool.not_eq_true, Tee.ended_iff] at hopen
      exact absurd ⟨e, he, hi, by rw [hr]; rfl⟩ hopen
  rw [asked, hfalse, Bool.toNat_false, Nat.add_zero]
  generalize st.tee.log = log at hvalues
  induction log with
  | nil => rfl
  | cons e log ih =>
    have htail := ih fun x hx => hvalues x (List.mem_cons_of_mem e hx)
    by_cases hi : e.consumer = i
    · obtain ⟨page, hpage⟩ := hvalues e List.mem_cons_self hi
      simp only [Tee.delivered] at htail ⊢
      simp [hi, hpage, Tee.Result.value?, htail]
    · simp only [Tee.delivered] at htail ⊢
      simp [hi, htail]

theorem yield_all (o : Iteration V K kind) (key : Fin n → Option κ) (st : St n V K kind) (i : Fin n) :
    ∃ ops, (run (step o key) st ops).results i = [] ∧ (run (step o key) st ops).asking = st.asking ∧
      (run (step o key) st ops).ended = st.ended ∧ (run (step o key) st ops).tee = st.tee := by
  induction hlength : (st.results i).length generalizing st with
  | zero => exact ⟨[], List.length_eq_zero_iff.1 hlength, rfl, rfl, rfl⟩
  | succ m ih =>
    obtain ⟨v, vs, hvs⟩ := List.exists_cons_of_length_eq_add_one hlength
    obtain ⟨ops, hnil, hasking, hended, htee⟩ := ih (step o key st (.yield i)) (by
      rw [step, hvs]
      simpa [hvs] using hlength)
    refine ⟨.yield i :: ops, hnil, hasking.trans ?_, hended.trans ?_, htee.trans ?_⟩ <;> rw [step, hvs]

/-- an iterator that goes on can make another call, and the calls in progress end -/
theorem round (h : Reached o key st) (hending : o.ending ≠ .running) {i : Fin n} (hnone : st.ended i = none)
    (hdrained : ∀ k i, ¬ Calls st.tee k i) :
    ∃ ops, (∀ k i, ¬ Calls (run (step o key) st ops).tee k i) ∧ asked st i < asked (run (step o key) st ops) i := by
  have hfalse : st.asking i = false := by
    rw [← Bool.not_eq_true]
    intro hi
    obtain ⟨k, hk⟩ := h.2 i hi
    exact hdrained k i hk
  obtain ⟨ops₁, hnil, hasking, hended, htee⟩ := yield_all o key st i
  have h₁ := run_reached h ops₁
  have hasked₁ : asked (run (step o key) st ops₁) i = asked st i := by rw [asked, asked, hasking, htee]
  obtain ⟨st₁, hst₁⟩ : ∃ st₁, st₁ = run (step o key) st ops₁ := ⟨_, rfl⟩
  rw [← hst₁] at hnil hasking hended h₁ hasked₁
  obtain ⟨k, hk⟩ := h₁.1.exists_idle
  have hmore : asked (step o key st₁ (.ask k i)) i = asked st₁ i + 1 := by
    have hask : st₁.results i = [] ∧ st₁.asking i = false ∧ st₁.ended i = none :=
      ⟨hnil, by rw [hasking]; exact hfalse, by rw [hended]; exact hnone⟩
    obtain ⟨hinv, hallowed⟩ := h₁.1.asking k hask.1 hask.2.1 hask.2.2
    rw [step, hk]
    simp only [if_pos hask]
    rw [teeStep_asked hinv hallowed]
    simp [asked, hask.2.1]
  obtain ⟨ops₂, hout⟩ := drains (step_inv h₁.1 (.ask k i)) hending
  refine ⟨ops₁ ++ .ask k i :: ops₂, ?_, ?_⟩
  · rw [run_append, ← hst₁]
    exact hout
  · rw [run_append, ← hst₁, run_cons]
    calc asked st i < asked (step o key st₁ (.ask k i)) i := by rw [hmore, hasked₁]; exact Nat.lt_succ_self _
      _ ≤ asked (run (step o key) (step o key st₁ (.ask k i)) ops₂) i := run_asked (step_inv h₁.1 _) ops₂ i

/-- **Each iterator comes to its end.** Over an iteration that ends, the calls in progress can end, and then the iterator
can call its consumer until that has no more pages. -/
theorem iterator_ends (h : Reached o key st) (hending : o.ending ≠ .running) (i : Fin n) :
    ∃ ops, (run (step o key) st ops).ended i ≠ none := by
  have hrounds : ∀ m st, Reached o key st → (∀ k i, ¬ Calls st.tee k i) → o.pages.length < asked st i + m →
      ∃ ops, (run (step o key) st ops).ended i ≠ none := by
    intro m
    induction m with
    | zero =>
      intro st h hdrained hasked
      refine ⟨[], fun hnone => ?_⟩
      have hfalse : st.asking i = false := by
        rw [← Bool.not_eq_true]
        intro hi
        obtain ⟨k, hk⟩ := h.2 i hi
        exact hdrained k i hk
      have hlength := (h.1.popped i).length_le
      rw [h.1.asked_eq hnone hfalse] at hasked
      omega
    | succ m ih =>
      intro st h hdrained hasked
      by_cases hnone : st.ended i = none
      · obtain ⟨ops, hdrained', hmore⟩ := round h hending hnone hdrained
        obtain ⟨ops', hended⟩ := ih _ (run_reached h ops) hdrained' (by omega)
        exact ⟨ops ++ ops', by rw [run_append]; exact hended⟩
      · exact ⟨[], hnone⟩
  obtain ⟨ops, hdrained⟩ := drains h.1 hending
  obtain ⟨ops', hended⟩ := hrounds (o.pages.length + 1) _ (run_reached h ops) hdrained (by omega)
  exact ⟨ops ++ ops', by rw [run_append]; exact hended⟩

end ResultKeys

end AioBotocore.Paginate
