/-
No loose client: the exits of `AIOHTTPSession` and `HttpxSession` against the sends that open clients.

An exit completes when its stack is empty, by returning or by raising what the `__aexit__` of a client has raised. From
then on every client ever entered is to be closed and no other entered, a send that starts raises, and so does one that
an exit at work or completed finds in `_get_session`.

- `Aiohttp.no_loose_iff`, `Httpx.no_loose_iff`: the runs with this property, exactly: no exit starts while a send makes a
  client, no send comes to make one after an exit has started, and no exit completes while another is at work or after
  the `__aexit__` of a client has raised.
- `no_loose_client`: the same for both backends.
-/
import Mathlib.Tactic
import AioBotocore.Async.ExitStack
import AioBotocore.Async.Run
import AioBotocore.Http.Aiohttp
import AioBotocore.Http.Httpx

namespace AioBotocore.Http

open Async Function

/-! ## AIOHTTPSession -/

namespace Aiohttp

def Pc.IsCreating (v : Pc) : Prop := ∃ p, v = .creating p

/-- an exit is at work or has completed -/
def St.Exiting (s : St) : Prop := ExitStack.Exiting (Pc.closing? ∘ s.pc) s.completed

/-- an exit starts; on an exited session it raises at once -/
def Starts (s : St) : Op → Prop
  | .exit k => s.pc k = .idle ∧ s.sessions ≠ none
  | _ => False

/-- a send finds no client and goes into the thread -/
def Creates (cfg : Cfg) (s : St) : Op → Prop
  | .send k p _ => s.pc k = .idle ∧ (∃ m, s.sessions = some m ∧ m p = none) ∧ cfg.inThread p
  | _ => False

/-- an exit completes while another is at work, or after the `__aexit__` of a client has raised -/
def LeavesOpen (s : St) : Op → Prop
  | .exit k => s.pc k = .idle ∧ s.sessions ≠ none ∧ s.exitStack.callbacks = [] ∧
      s.exitStack.Disturbed Pc.closing? s.pc k
  | .closed k ok => ∃ id failed, s.pc k = .closing id failed ∧ s.exitStack.callbacks = [] ∧
      (s.exitStack.close id ok).Disturbed Pc.closing? s.pc k
  | _ => False

/-- an exit starts while a send makes a client, a send comes to make one after an exit has started, or an exit completes
that leaves one open -/
def Loose (cfg : Cfg) (s : St) (o : Op) : Prop :=
  (Starts s o ∧ ∃ j, (s.pc j).IsCreating) ∨ (Creates cfg s o ∧ s.Exiting) ∨ LeavesOpen s o

structure NoLooseClient (cfg : Cfg) (s : St) : Prop where
  /-- an exit has completed: every client ever entered is closed -/
  closed : 0 < s.completed → ∀ id ∈ s.exitStack.entered, id ∈ s.exitStack.closed
  /-- and none is entered afterwards -/
  enters : 0 < s.completed → ∀ more, (run (step cfg) s more).exitStack.entered = s.exitStack.entered
  /-- a send that starts after the exit raises -/
  raises : 0 < s.completed → ∀ k p b, s.pc k = .idle → (step cfg s (.send k p b)).pc k = .raised
  /-- a send that an exit has found in `_get_session` enters no client, and raises -/
  suspended : s.Exiting → ∀ k, (s.pc k).IsCreating →
    (step cfg s (.built k)).exitStack.entered = s.exitStack.entered ∧ (step cfg s (.built k)).pc k = .raised

structure Sealed (s : St) : Prop where
  exits : s.exitStack.Sealed Pc.closing? Pc.IsCreating s.pc s.completed
  fresh : ∀ id ∈ s.exitStack.entered, id < s.clients.length
  failed : ∀ k id, s.pc k = .closing id true → s.exitStack.raised ≠ []
  sessions : 0 < s.completed → s.sessions = none

theorem sealed_init : Sealed init := by
  refine ⟨ExitStack.sealed_empty rfl, ?_, ?_, ?_⟩ <;> simp [init, ExitStack.empty]

theorem Sealed.open_of_sessions {s : St} (h : Sealed s) {m : Proxy → Option ℕ} (hs : s.sessions = some m) :
    s.completed = 0 := by
  by_contra hne
  rw [h.sessions (Nat.pos_of_ne_zero hne)] at hs
  cases hs

theorem Sealed.no_longer {s : St} (h : Sealed s) : s.clients.length ∉ s.exitStack.entered := fun hmem =>
  lt_irrefl _ (h.fresh _ hmem)

/-- a task goes on that is in no `__aexit__` -/
theorem Sealed.failed_update {s : St} (h : Sealed s) (k : ℕ) {v : Pc} (hv : v.closing? = none) :
    ∀ j id, update s.pc k v j = .closing id true → s.exitStack.raised ≠ [] := by
  intro j id hj
  have hne : v ≠ .closing id true := by
    rintro rfl
    cases hv
  exact h.failed j id ((update_at_iff hne).1 hj).2

theorem push_fresh {s : St} (h : Sealed s) (p : Proxy) :
    ∀ id ∈ (s.exitStack.push s.clients.length).entered, id < (s.clients ++ [p]).length := by
  intro id hid
  rw [ExitStack.push_entered, List.mem_append, List.mem_singleton] at hid
  rw [List.length_append, List.length_singleton]
  rcases hid with hid | rfl
  · exact (h.fresh id hid).trans (Nat.lt_succ_self _)
  · exact Nat.lt_succ_self _

/-- an exit goes on -/
theorem unwind_sealed {s : St} {k : ℕ} {failed : Bool}
    (h : s.exitStack.Unwinding Pc.closing? Pc.IsCreating s.pc k s.completed)
    (hfresh : ∀ id ∈ s.exitStack.entered, id < s.clients.length)
    (hraised : ∀ j id, s.pc j = .closing id true → s.exitStack.raised ≠ [])
    (hfailed : failed = true → s.exitStack.raised ≠ []) (hsessions : 0 < s.completed → s.sessions = none)
    (hfree : s.exitStack.callbacks = [] → ¬ s.exitStack.Disturbed Pc.closing? s.pc k) :
    Sealed (unwind s k failed) := by
  unfold unwind
  split
  · rename_i id ids hstack
    refine ⟨h.pop hstack rfl (by simp [Pc.IsCreating]), hfresh, fun j i hj => ?_, hsessions⟩
    by_cases hjk : j = k
    · subst hjk
      simp only [goto, update_self, Pc.closing.injEq] at hj
      exact hfailed hj.2
    · simp only [goto, update_of_ne hjk] at hj
      exact hraised j i hj
  · rename_i hstack
    have hnone : s.exitStack.raised = [] := by
      by_contra hne
      exact hfree hstack (.inl hne)
    split
    · rename_i htrue
      exact absurd hnone (hfailed htrue)
    · refine ⟨h.complete hstack (hfree hstack) rfl (by simp [Pc.IsCreating]), hfresh, fun j i hj => ?_, fun _ => rfl⟩
      exact hraised j i ((update_at_iff (by simp)).1 hj).2

theorem step_sealed (cfg : Cfg) (s : St) (o : Op) (h : Sealed s) (hg : ¬ Loose cfg s o) : Sealed (step cfg s o) := by
  have hmoves := step_moves cfg s o
  generalize step cfg s o = s' at hmoves ⊢
  cases hmoves with
  | none | disconnect => exact ⟨h.exits, h.fresh, h.failed, h.sessions⟩
  | @pass o k v hk hv hnew =>
    have hnot : ¬ v.IsCreating := by
      rintro ⟨p, hp⟩
      exact hnew p hp
    exact ⟨h.exits.stay hk hv hnot, h.fresh, h.failed_update k hv, h.sessions⟩
  | @create k p m b hk hs hp ht =>
    have hnot : ¬ s.Exiting := fun hexiting => hg (.inr (.inl ⟨⟨hk, ⟨m, hs, hp⟩, ht⟩, hexiting⟩))
    exact ⟨h.exits.create (by rw [hk]; rfl) hnot rfl, h.fresh, h.failed_update k rfl, h.sessions⟩
  | @enter o k p m hk hs =>
    have hclosing : (s.pc k).closing? = none := by
      rcases hk with ⟨hk, -⟩ | ⟨hk, -⟩
      · rw [hk]
        rfl
      · rw [hk]
        rfl
    have hzero := h.open_of_sessions hs
    exact ⟨h.exits.enter hclosing hzero h.no_longer rfl (by simp [Pc.IsCreating]), push_fresh h p,
      h.failed_update k rfl, fun hpos => absurd hzero hpos.ne'⟩
  | @enterLate k p hk hs =>
    have hzero : s.completed = 0 := by
      by_contra hne
      exact h.exits.not_exiting ⟨p, hk⟩ (.inl (Nat.pos_of_ne_zero hne))
    exact ⟨h.exits.enter (by rw [hk]; rfl) hzero h.no_longer rfl (by simp [Pc.IsCreating]), push_fresh h p,
      h.failed_update k rfl, h.sessions⟩
  | @connect k id hk hlimit =>
    exact ⟨h.exits.stay (by rw [hk]; rfl) rfl (by simp [Pc.IsCreating]), h.fresh, h.failed_update k rfl, h.sessions⟩
  | @exit k m hk hs =>
    have hsome : s.sessions ≠ none := by simp [hs]
    apply unwind_sealed
    · exact h.exits.start (by rw [hk]; rfl) fun j hj => hg (.inl ⟨⟨hk, hsome⟩, j, hj⟩)
    · exact h.fresh
    · exact h.failed
    · simp
    · exact fun hpos => absurd (h.open_of_sessions hs) hpos.ne'
    · exact fun hstack hdisturbed => hg (.inr (.inr ⟨hk, hsome, hstack, hdisturbed⟩))
  | @closed k id failed ok hk =>
    have hgrows : s.exitStack.raised ≠ [] ∨ ok = false → (s.exitStack.close id ok).raised ≠ [] :=
      (ExitStack.close_raised_ne_nil _ _ _).2
    apply unwind_sealed
    · exact h.exits.close (by rw [hk]; rfl) ok
    · rw [ExitStack.close_entered]
      exact h.fresh
    · exact fun j i hj => hgrows (.inl (h.failed j i hj))
    · intro hfailed
      rcases Bool.or_eq_true_iff.1 hfailed with rfl | hok
      · exact hgrows (.inl (h.failed k id hk))
      · exact hgrows (.inr (by simpa using hok))
    · exact h.sessions
    · intro hstack hdisturbed
      rw [ExitStack.close_callbacks] at hstack
      exact hg (.inr (.inr ⟨id, failed, hk, hstack, hdisturbed⟩))

/-- nothing changes an exited session -/
theorem Sealed.step {s : St} (h : Sealed s) (hpos : 0 < s.completed) (cfg : Cfg) (o : Op) :
    Sealed (step cfg s o) ∧ 0 < (step cfg s o).completed ∧
      (step cfg s o).exitStack.entered = s.exitStack.entered := by
  have hs := h.sessions hpos
  have hbusy := h.exits.none_busy hpos
  have hnot : ¬ Loose cfg s o := by
    rintro (⟨-, j, hj⟩ | ⟨hcreates, -⟩ | hleaves)
    · exact h.exits.not_exiting hj (.inl hpos)
    · cases o with
      | send k p b =>
        obtain ⟨-, ⟨m, hm, -⟩, -⟩ := hcreates
        rw [hs] at hm
        cases hm
      | _ => exact hcreates
    · cases o with
      | exit k => exact hleaves.2.1 hs
      | closed k ok =>
        obtain ⟨id, failed, hk, -⟩ := hleaves
        have hnone := hbusy k
        rw [hk] at hnone
        cases hnone
      | _ => exact hleaves
  refine ⟨step_sealed cfg s o h hnot, ?_⟩
  have hmoves := step_moves cfg s o
  generalize Aiohttp.step cfg s o = s' at hmoves ⊢
  cases hmoves with
  | enter hk hm => exact absurd (hs.symm.trans hm) (by simp)
  | enterLate hk => exact absurd (.inl hpos) (h.exits.not_exiting ⟨_, hk⟩)
  | exit hk hm => exact absurd (hs.symm.trans hm) (by simp)
  | @closed k id failed ok hk =>
    have hnone := hbusy k
    rw [hk] at hnone
    cases hnone
  | _ => exact ⟨hpos, rfl⟩

theorem Sealed.noLooseClient {s : St} (h : Sealed s) (cfg : Cfg) : NoLooseClient cfg s := by
  refine ⟨h.exits.closed, fun hpos more => ?_, fun hpos k p b hk => ?_, fun hexiting k hk => ?_⟩
  · induction more generalizing s with
    | nil => rfl
    | cons o more ih =>
      obtain ⟨hsealed, hpos', hentered⟩ := h.step hpos cfg o
      rw [run_cons, ih hsealed hpos', hentered]
  · simp [Aiohttp.step, hk, h.sessions hpos, goto]
  · exact absurd hexiting (h.exits.not_exiting hk)

/-- the send enters its client when it goes on -/
theorem creating_not_noLooseClient (cfg : Cfg) {s : St} (hexiting : s.Exiting) {j : ℕ} (hj : (s.pc j).IsCreating) :
    ¬ NoLooseClient cfg s := by
  intro hno
  obtain ⟨hentered, -⟩ := hno.suspended hexiting j hj
  obtain ⟨p, hp⟩ := hj
  simp only [step, hp] at hentered
  cases hs : s.sessions with
  | none => simp [enterClient_none hs, goto] at hentered
  | some m => simp [enterClient_some hs, goto] at hentered

/-- an exit that goes on is at work or has completed, and moves no other task -/
theorem unwind_exiting (s : St) (k : ℕ) (failed : Bool) :
    (unwind s k failed).Exiting ∧ ∀ j, j ≠ k → (unwind s k failed).pc j = s.pc j := by
  unfold unwind
  split
  · exact ⟨.inr ⟨k, by simp [goto, Pc.closing?]⟩, fun j hj => update_of_ne hj _ _⟩
  · split
    · exact ⟨.inl (Nat.succ_pos _), fun j hj => update_of_ne hj _ _⟩
    · exact ⟨.inl (Nat.succ_pos _), fun j hj => update_of_ne hj _ _⟩

/-- an exit completes, the stack being empty -/
theorem unwind_completes {s : St} (hstack : s.exitStack.callbacks = []) (k : ℕ) (failed : Bool) :
    0 < (unwind s k failed).completed ∧ (unwind s k failed).exitStack = s.exitStack := by
  simp only [unwind, hstack]
  split
  · exact ⟨Nat.succ_pos _, rfl⟩
  · exact ⟨Nat.succ_pos _, rfl⟩

/-- and a client is left open -/
theorem disturbed_not_noLooseClient (cfg : Cfg) {s : St} {k : ℕ} (failed : Bool)
    (h : s.exitStack.Accounted (update (Pc.closing? ∘ s.pc) k none)) (hstack : s.exitStack.callbacks = [])
    (hdisturbed : s.exitStack.Disturbed Pc.closing? s.pc k) : ¬ NoLooseClient cfg (unwind s k failed) := by
  intro hno
  obtain ⟨hpos, hsame⟩ := unwind_completes hstack k failed
  have hclosed := hno.closed hpos
  rw [hsame] at hclosed
  exact (ExitStack.closed_iff_not_disturbed h hstack).1 hclosed hdisturbed

theorem loose_not_noLooseClient (cfg : Cfg) {s : St} {o : Op} (h : Sealed s) (hloose : Loose cfg s o) :
    ¬ NoLooseClient cfg (step cfg s o) := by
  have hmoves := step_moves cfg s o
  rcases hloose with ⟨hstarts, j, hj⟩ | ⟨hcreates, hexiting⟩ | hleaves
  · cases o with
    | exit k =>
      obtain ⟨hk, hs⟩ := hstarts
      obtain ⟨m, hm⟩ := Option.ne_none_iff_exists'.1 hs
      have hjk : j ≠ k := by
        rintro rfl
        simp [hk, Pc.IsCreating] at hj
      simp only [step, hk, hm, if_true]
      obtain ⟨hexiting, hpc⟩ := unwind_exiting { s with sessions := some fun _ => none } k false
      exact creating_not_noLooseClient cfg hexiting (j := j) (by rwa [hpc j hjk])
    | _ => exact hstarts.elim
  · cases o with
    | send k p b =>
      obtain ⟨hk, ⟨m, hm, hp⟩, ht⟩ := hcreates
      simp only [step, hk, hm, hp, ht, if_true]
      have hbusy : Pc.closing? ∘ update s.pc k (.creating p) = Pc.closing? ∘ s.pc :=
        ExitStack.comp_update_stay (by rw [hk]; rfl) rfl
      refine creating_not_noLooseClient cfg (j := k) ?_ ⟨p, update_self k _ _⟩
      rwa [St.Exiting, goto, hbusy]
    | _ => exact hcreates.elim
  · cases o with
    | exit k =>
      obtain ⟨hk, hs, hstack, hdisturbed⟩ := hleaves
      obtain ⟨m, hm⟩ := Option.ne_none_iff_exists'.1 hs
      simp only [step, hk, hm, if_true]
      apply disturbed_not_noLooseClient cfg
      · exact h.exits.accounted.unwind (by rw [hk]; rfl)
      · exact hstack
      · exact hdisturbed
    | closed k ok =>
      obtain ⟨id, failed, hk, hstack, hdisturbed⟩ := hleaves
      simp only [step, hk]
      apply disturbed_not_noLooseClient cfg
      · exact h.exits.accounted.close (by simp [hk, Pc.closing?]) ok
      · simpa using hstack
      · exact hdisturbed
    | _ => exact hleaves.elim

/-- **No client after an exit**, exactly: in every state of a run in which an exit has completed, every client ever
entered is closed, nothing enters another and a new send raises, and a send that an exit at work or completed has found
in `_get_session` raises without a client, iff no step of the run is `Loose`. -/
theorem no_loose_iff (cfg : Cfg) (ops : List Op) :
    (∀ n, NoLooseClient cfg (run (step cfg) init (ops.take n))) ↔
      Along (step cfg) (fun s o => ¬ Loose cfg s o) init ops :=
  forall_take_iff (I := Sealed) (step_sealed cfg) (fun _ h => h.noLooseClient cfg)
    (fun _ _ h hloose => loose_not_noLooseClient cfg h (not_not.1 hloose)) sealed_init ops

/-- two exits overlap: the second completes while the first is closing the client -/
example :
    let s := run (step ⟨false, none, 10⟩) init [.send 0 none true, .exit 1, .exit 2]
    s.pc 2 = .exited ∧ s.pc 1 = .closing 0 false ∧ s.completed = 1 ∧ s.exitStack.closed = [] := by decide

end Aiohttp

/-! ## HttpxSession -/

namespace Httpx

/-- an exit is at work or has completed -/
def St.Exiting (s : St) : Prop := ExitStack.Exiting (Pc.closing? ∘ s.pc) s.completed

/-- an exit starts -/
def Starts (s : St) : Op → Prop
  | .exit k => s.pc k = .idle
  | _ => False

/-- a send finds no client and goes to the lock -/
def Creates (s : St) : Op → Prop
  | .send k => s.pc k = .idle ∧ s.session = none
  | _ => False

/-- an exit completes while another is at work, or after the `__aexit__` of a client has raised -/
def LeavesOpen (s : St) : Op → Prop
  | .exit k => s.pc k = .idle ∧ s.exitStack.callbacks = [] ∧ s.exitStack.Disturbed Pc.closing? s.pc k
  | .closed k ok => ∃ id failed, s.pc k = .closing id failed ∧ s.exitStack.callbacks = [] ∧
      (s.exitStack.close id ok).Disturbed Pc.closing? s.pc k
  | _ => False

/-- an exit starts while a send is on its way to a client, a send comes there after an exit has started, or an exit
completes that leaves a client open -/
def Loose (s : St) (o : Op) : Prop :=
  (Starts s o ∧ ∃ j, (s.pc j).creating) ∨ (Creates s o ∧ s.Exiting) ∨ LeavesOpen s o

def Op.isSend : Op → Bool
  | .send _ => true
  | _ => false

structure NoLooseClient (s : St) : Prop where
  /-- an exit has completed: every client ever entered is closed -/
  closed : 0 < s.completed → ∀ id ∈ s.exitStack.entered, id ∈ s.exitStack.closed
  /-- and none is entered afterwards by the sends that have started -/
  enters : 0 < s.completed → ∀ more, (∀ o ∈ more, o.isSend = false) →
    (run step s more).exitStack.entered = s.exitStack.entered
  /-- a send that starts after the exit finds no client -/
  finds : 0 < s.completed → ∀ k id, s.pc k = .idle → (step s (.send k)).pc k ≠ .requesting id
  /-- a send that is in `_get_session` during an exit, or comes there after it, gets no client -/
  suspended : s.Exiting → ∀ k, (s.pc k).creating → ∀ more,
    ((run step s more).pc k).creating ∨ (run step s more).pc k = .raised

structure Sealed (s : St) : Prop where
  locks : Locks s
  exits : s.exitStack.Sealed Pc.closing? Pc.creating s.pc s.completed
  fresh : ∀ id ∈ s.exitStack.entered, id < s.exitStack.entered.length
  session : 0 < s.completed → s.session = none

theorem sealed_init : Sealed init := by
  refine ⟨by simp [Locks, init], ExitStack.sealed_empty rfl, ?_, ?_⟩ <;> simp [init, ExitStack.empty]

/-- an exit goes on -/
theorem unwind_sealed {s : St} {k : ℕ} {failed : Bool} (hlocks : Locks (unwind s k failed))
    (h : s.exitStack.Unwinding Pc.closing? Pc.creating s.pc k s.completed)
    (hfresh : ∀ id ∈ s.exitStack.entered, id < s.exitStack.entered.length)
    (hsession : 0 < s.completed → s.session = none)
    (hfree : s.exitStack.callbacks = [] → ¬ s.exitStack.Disturbed Pc.closing? s.pc k) :
    Sealed (unwind s k failed) := by
  refine ⟨hlocks, ?_, ?_, ?_⟩ <;> unfold unwind
  · split
    · rename_i i is hstack
      exact h.pop hstack rfl id
    · rename_i hstack
      split
      · exact h.complete hstack (hfree hstack) rfl id
      · exact h.complete hstack (hfree hstack) rfl id
  · split
    · exact hfresh
    · split
      · exact hfresh
      · exact hfresh
  · split
    · exact hsession
    · split
      · exact fun _ => rfl
      · exact fun _ => rfl

theorem step_sealed (s : St) (o : Op) (h : Sealed s) (hg : ¬ Loose s o) : Sealed (step s o) := by
  have hlocks := step_locks s o h.locks
  have hmoves := step_moves s o
  generalize step s o = s' at hmoves hlocks ⊢
  cases hmoves with
  | none => exact h
  | pass o hk hlock hv hnew => exact ⟨hlocks, h.exits.stay hk hv hnew, h.fresh, h.session⟩
  | wait hk hs =>
    have hnot : ¬ s.Exiting := fun hexiting => hg (.inr (.inl ⟨⟨hk, hs⟩, hexiting⟩))
    exact ⟨hlocks, h.exits.create (by rw [hk]; rfl) hnot rfl, h.fresh, h.session⟩
  | @create k hk hl hs =>
    have hnot : ¬ s.Exiting := h.exits.not_exiting (k := k) (by rw [hk]; trivial)
    exact ⟨hlocks, h.exits.create (by rw [hk]; rfl) hnot rfl, h.fresh, fun _ => rfl⟩
  | @entered k hk =>
    have hzero : s.completed = 0 := by
      by_contra hne
      exact h.exits.not_exiting (k := k) (by rw [hk]; trivial) (.inl (Nat.pos_of_ne_zero hne))
    have hnew : s.exitStack.entered.length ∉ s.exitStack.entered := fun hmem => lt_irrefl _ (h.fresh _ hmem)
    refine ⟨hlocks, h.exits.enter (by rw [hk]; rfl) hzero hnew rfl id, ?_, fun hpos => absurd hzero hpos.ne'⟩
    intro i hi
    simp only [goto, ExitStack.push_entered, List.mem_append, List.mem_singleton, List.length_append,
      List.length_singleton] at hi ⊢
    rcases hi with hi | rfl
    · exact (h.fresh i hi).trans (Nat.lt_succ_self _)
    · exact Nat.lt_succ_self _
  | enterFails hk => exact ⟨hlocks, h.exits.stay (by rw [hk]; rfl) rfl id, h.fresh, h.session⟩
  | @exit k hk =>
    apply unwind_sealed hlocks
    · exact h.exits.start (by rw [hk]; rfl) fun j hj => hg (.inl ⟨hk, j, hj⟩)
    · exact h.fresh
    · exact h.session
    · exact fun hstack hdisturbed => hg (.inr (.inr ⟨hk, hstack, hdisturbed⟩))
  | @closed k id failed ok hk =>
    apply unwind_sealed hlocks
    · exact h.exits.close (by rw [hk]; rfl) ok
    · simpa only [ExitStack.close_entered] using h.fresh
    · exact h.session
    · intro hstack hdisturbed
      rw [ExitStack.close_callbacks] at hstack
      exact hg (.inr (.inr ⟨id, failed, hk, hstack, hdisturbed⟩))

theorem unwind_entered (s : St) (k : ℕ) (failed : Bool) :
    (unwind s k failed).exitStack.entered = s.exitStack.entered ∧ s.completed ≤ (unwind s k failed).completed := by
  unfold unwind
  split
  · exact ⟨rfl, le_rfl⟩
  · split
    · exact ⟨rfl, Nat.le_succ _⟩
    · exact ⟨rfl, Nat.le_succ _⟩

/-- only a send can change an exited session -/
theorem Sealed.step {s : St} (h : Sealed s) (hpos : 0 < s.completed) {o : Op} (ho : o.isSend = false) :
    Sealed (step s o) ∧ 0 < (step s o).completed ∧ (step s o).exitStack.entered = s.exitStack.entered := by
  have hbusy := h.exits.none_busy hpos
  have hstack := h.exits.callbacks hpos
  have hnone : s.exitStack.raised = [] := ((h.exits.accounted.closed_iff hstack).1 (h.exits.closed hpos)).1
  have hnot : ¬ Loose s o := by
    rintro (⟨-, j, hj⟩ | ⟨hcreates, -⟩ | hleaves)
    · exact h.exits.not_exiting hj (.inl hpos)
    · cases o with
      | send k => exact absurd ho (by simp [Op.isSend])
      | _ => exact hcreates
    · cases o with
      | exit k =>
        obtain ⟨-, -, hraised | ⟨j, -, hj⟩⟩ := hleaves
        · exact hraised hnone
        · exact hj (hbusy j)
      | closed k ok =>
        obtain ⟨id, failed, hk, -⟩ := hleaves
        have hfree := hbusy k
        rw [hk] at hfree
        cases hfree
      | _ => exact hleaves
  refine ⟨step_sealed s o h hnot, ?_⟩
  have hmoves := step_moves s o
  generalize Httpx.step s o = s' at hmoves ⊢
  cases hmoves with
  | @entered k hk => exact absurd (.inl hpos) (h.exits.not_exiting (k := k) (by rw [hk]; trivial))
  | @exit k hk =>
    obtain ⟨hentered, hcompleted⟩ := unwind_entered s k false
    exact ⟨hpos.trans_le hcompleted, hentered⟩
  | @closed k id failed ok hk =>
    have hfree := hbusy k
    rw [hk] at hfree
    cases hfree
  | _ => exact ⟨hpos, rfl⟩

theorem Sealed.noLooseClient {s : St} (h : Sealed s) : NoLooseClient s := by
  refine ⟨h.exits.closed, fun hpos more hmore => ?_, fun hpos k id hk => ?_, fun hexiting k hk => ?_⟩
  · induction more generalizing s with
    | nil => rfl
    | cons o more ih =>
      obtain ⟨hsealed, hpos', hentered⟩ := h.step hpos (hmore o List.mem_cons_self)
      rw [run_cons, ih hsealed hpos' fun o' ho' => hmore o' (List.mem_cons_of_mem o ho'), hentered]
  · simp [Httpx.step, hk, h.session hpos, goto]
  · exact absurd hexiting (h.exits.not_exiting hk)

/-- a send on its way to a client gets one -/
theorem creating_gets {s : St} (hlocks : Locks s) {j : ℕ} (hj : (s.pc j).creating) :
    ∃ more id, (run Httpx.step s more).pc j = .requesting id := by
  cases hpc : s.pc j with
  | entering => exact ⟨[.entered j], s.exitStack.entered.length, by simp [Httpx.step, hpc, goto]⟩
  | waiting =>
    cases hl : s.sessionLock with
    | none =>
      cases hs : s.session with
      | none => exact ⟨[.take j, .entered j], s.exitStack.entered.length, by simp [Httpx.step, hpc, hl, hs, goto]⟩
      | some id => exact ⟨[.take j], id, by simp [Httpx.step, hpc, hl, hs, goto]⟩
    | some k =>
      -- the send that has the lock first
      have hk := (hlocks k).2 hl
      have hjk : j ≠ k := by
        rintro rfl
        rw [hpc] at hk
        cases hk
      exact ⟨[.entered k, .take j], s.exitStack.entered.length, by simp [Httpx.step, hk, hpc, hjk, goto]⟩
  | _ =>
    rw [hpc] at hj
    exact hj.elim

theorem creating_not_noLooseClient {s : St} (hlocks : Locks s) (hexiting : s.Exiting) {j : ℕ}
    (hj : (s.pc j).creating) : ¬ NoLooseClient s := by
  intro hno
  obtain ⟨more, id, hid⟩ := creating_gets hlocks hj
  rcases hno.suspended hexiting j hj more with hcreating | hraised
  · rw [hid] at hcreating
    exact hcreating
  · rw [hid] at hraised
    cases hraised

/-- an exit that goes on is at work or has completed, and moves no other task -/
theorem unwind_exiting (s : St) (k : ℕ) (failed : Bool) :
    (unwind s k failed).Exiting ∧ ∀ j, j ≠ k → (unwind s k failed).pc j = s.pc j := by
  unfold unwind
  split
  · exact ⟨.inr ⟨k, by simp [goto, Pc.closing?]⟩, fun j hj => update_of_ne hj _ _⟩
  · split
    · exact ⟨.inl (Nat.succ_pos _), fun j hj => update_of_ne hj _ _⟩
    · exact ⟨.inl (Nat.succ_pos _), fun j hj => update_of_ne hj _ _⟩

/-- an exit completes, the stack being empty -/
theorem unwind_completes {s : St} (hstack : s.exitStack.callbacks = []) (k : ℕ) (failed : Bool) :
    0 < (unwind s k failed).completed ∧ (unwind s k failed).exitStack = s.exitStack := by
  simp only [unwind, hstack]
  split
  · exact ⟨Nat.succ_pos _, rfl⟩
  · exact ⟨Nat.succ_pos _, rfl⟩

/-- and a client is left open -/
theorem disturbed_not_noLooseClient {s : St} {k : ℕ} (failed : Bool)
    (h : s.exitStack.Accounted (update (Pc.closing? ∘ s.pc) k none)) (hstack : s.exitStack.callbacks = [])
    (hdisturbed : s.exitStack.Disturbed Pc.closing? s.pc k) : ¬ NoLooseClient (unwind s k failed) := by
  intro hno
  obtain ⟨hpos, hsame⟩ := unwind_completes hstack k failed
  have hclosed := hno.closed hpos
  rw [hsame] at hclosed
  exact (ExitStack.closed_iff_not_disturbed h hstack).1 hclosed hdisturbed

theorem loose_not_noLooseClient {s : St} {o : Op} (h : Sealed s) (hloose : Loose s o) :
    ¬ NoLooseClient (step s o) := by
  have hlocks := step_locks s o h.locks
  rcases hloose with ⟨hstarts, j, hj⟩ | ⟨hcreates, hexiting⟩ | hleaves
  · cases o with
    | exit k =>
      have hk : s.pc k = .idle := hstarts
      have hjk : j ≠ k := by
        rintro rfl
        rw [hk] at hj
        exact hj
      simp only [Httpx.step, hk, if_true] at hlocks ⊢
      obtain ⟨hexiting, hpc⟩ := unwind_exiting s k false
      exact creating_not_noLooseClient hlocks hexiting (j := j) (by rwa [hpc j hjk])
    | _ => exact hstarts.elim
  · cases o with
    | send k =>
      obtain ⟨hk, hs⟩ := hcreates
      simp only [Httpx.step, hk, hs, if_true] at hlocks ⊢
      have hbusy : Pc.closing? ∘ update s.pc k .waiting = Pc.closing? ∘ s.pc :=
        ExitStack.comp_update_stay (by rw [hk]; rfl) rfl
      refine creating_not_noLooseClient hlocks (j := k) ?_ (by simp [goto, Pc.creating])
      rwa [St.Exiting, goto, hbusy]
    | _ => exact hcreates.elim
  · cases o with
    | exit k =>
      obtain ⟨hk, hstack, hdisturbed⟩ := hleaves
      simp only [Httpx.step, hk, if_true]
      exact disturbed_not_noLooseClient false (h.exits.accounted.unwind (by rw [hk]; rfl)) hstack hdisturbed
    | closed k ok =>
      obtain ⟨id, failed, hk, hstack, hdisturbed⟩ := hleaves
      simp only [Httpx.step, hk]
      apply disturbed_not_noLooseClient
      · exact h.exits.accounted.close (by simp [hk, Pc.closing?]) ok
      · simpa using hstack
      · exact hdisturbed
    | _ => exact hleaves.elim

/-- **No client after an exit**, exactly: in every state of a run in which an exit has completed, every client ever
entered is closed, and no send that has started enters another or finds one, and a send that is in `_get_session` when
an exit is at work or has completed gets no client, iff no step of the run is `Loose`. -/
theorem no_loose_iff (ops : List Op) :
    (∀ n, NoLooseClient (run step init (ops.take n))) ↔ Along step (fun s o => ¬ Loose s o) init ops :=
  forall_take_iff (I := Sealed) step_sealed (fun _ h => h.noLooseClient)
    (fun _ _ h hloose => loose_not_noLooseClient h (not_not.1 hloose)) sealed_init ops

/-! ## Both backends -/

/-- **No client after an exit**, on both backends, exactly: a run leaves no client open after an exit, enters none after
it and lets no send get one that an exit has found in `_get_session`, iff no exit of it starts while a send makes a
client, no send comes to make one after an exit has started, and no exit completes while another is at work or after the
`__aexit__` of a client has raised. -/
theorem no_loose_client (cfg : Aiohttp.Cfg) (ops : List Aiohttp.Op) (ops' : List Op) :
    ((∀ n, Aiohttp.NoLooseClient cfg (run (Aiohttp.step cfg) Aiohttp.init (ops.take n))) ↔
      Along (Aiohttp.step cfg) (fun s o => ¬ Aiohttp.Loose cfg s o) Aiohttp.init ops) ∧
    ((∀ n, NoLooseClient (run step init (ops'.take n))) ↔ Along step (fun s o => ¬ Loose s o) init ops') :=
  ⟨Aiohttp.no_loose_iff cfg ops, no_loose_iff ops'⟩

/-- with `aiohttp` a send in the thread outlives the exit: its client is entered after it, and stays open; with `httpx`
a send that starts after the exit opens a client too, and goes on to its request -/
theorem client_outlives_exit :
    (let s := run (Aiohttp.step ⟨true, none, 10⟩) Aiohttp.init [.send 0 none true, .exit 1]
     let t := Aiohttp.step ⟨true, none, 10⟩ s (.built 0)
     s.completed = 1 ∧ t.exitStack.entered = [0] ∧ t.exitStack.closed = [] ∧ t.pc 0 = .raised ∧
       ¬ Aiohttp.NoLooseClient ⟨true, none, 10⟩ s) ∧
    (let s := run step init [.exit 0, .send 1]
     let t := run step s [.take 1, .entered 1]
     s.completed = 1 ∧ t.exitStack.entered = [0] ∧ t.exitStack.closed = [] ∧ t.pc 1 = .requesting 0 ∧
       ¬ NoLooseClient s) := by
  refine ⟨⟨by decide, by decide, by decide, by decide, fun h => ?_⟩, by decide, by decide, by decide, by decide,
    fun h => ?_⟩
  · exact absurd (h.enters (by decide) [.built 0]) (by decide)
  · exact absurd (h.enters (by decide) [.take 1, .entered 1] (by decide)) (by decide)

end Httpx

end AioBotocore.Http
