/-
No deadlock in a chain of roles (`Credentials.RoleChain`). A task that refreshes an object holds the lock of it while it
waits for the lock of its source, so the locks are taken in the order of the chain.

- `step_frame`: what goes on at an object leaves the objects that come after it.
- `finishes`: a refresh in flight can be brought to its end, if the calls of the objects before it can.
- `role_chain_completes`: from every reachable state, every call can be completed by the tasks that are there, whatever STS
  and the other refreshers reply.
-/
import Mathlib.Tactic
import AioBotocore.Credentials.RoleChain

namespace AioBotocore.RoleChain

open Async Function
open AioBotocore.Credentials (ReadOnlyCredentials Metadata Base Cfg Outcome Pc region work)

/-- what STS replies to the call `k` of a role, and how the other refreshers end it -/
structure Replies where
  sts : ℕ → ℕ → Except String Response
  refresher : ℕ → ℕ → Outcome

/-- `c` takes its credentials from `d`, which may be through other roles or `c` itself -/
def Chain.From (H : Chain) : ℕ → ℕ → Prop :=
  Relation.ReflTransGen fun d c => ∃ role, (H.object c).role = some role ∧ role.source = .object d

/-- a task goes on in a call of an object that `c` takes its credentials from: nobody makes a new call or is cancelled, and
no time passes -/
def Goes (H : Chain) (R : Replies) (c : ℕ) : Op → Prop
  | .resume c' _ => H.From c' c
  | .refresh c' _ _ => H.From c' c
  | .proceed c' _ => H.From c' c
  | .answer c' k r => H.From c' c ∧ R.sts c' k = .ok r
  | .fails c' k text => H.From c' c ∧ R.sts c' k = .error text
  | .finish c' k out => H.From c' c ∧ R.refresher c' k = out
  | _ => False

variable {H : Chain} {B : Base} {R : Replies} {s : St}

theorem Chain.From.le {d c : ℕ} (h : H.From d c) : d ≤ c := by
  induction h with
  | refl => exact le_rfl
  | tail _ hsource ih =>
    obtain ⟨role, hrole, hd⟩ := hsource
    exact ih.trans (H.order _ role _ hrole hd).le

theorem Goes.object {c : ℕ} {o : Op} (h : Goes H R c o) : ∃ c' ≤ c, o.object = some c' := by
  cases o with
  | resume c' k => exact ⟨c', Chain.From.le h, rfl⟩
  | refresh c' k j => exact ⟨c', Chain.From.le h, rfl⟩
  | proceed c' k => exact ⟨c', Chain.From.le h, rfl⟩
  | answer c' k r => exact ⟨c', Chain.From.le h.1, rfl⟩
  | fails c' k text => exact ⟨c', Chain.From.le h.1, rfl⟩
  | finish c' k out => exact ⟨c', Chain.From.le h.1, rfl⟩
  | tick => exact h.elim
  | call => exact h.elim
  | cancel => exact h.elim

/-- what goes on for the source of a role goes on for the role -/
theorem Goes.source {d c : ℕ} {role : Role} (hrole : (H.object c).role = some role) (hd : role.source = .object d) {o : Op}
    (h : Goes H R d o) : Goes H R c o := by
  have hfrom : ∀ {c'}, H.From c' d → H.From c' c := fun h => h.tail ⟨role, hrole, hd⟩
  cases o with
  | resume c' k => exact hfrom h
  | refresh c' k j => exact hfrom h
  | proceed c' k => exact hfrom h
  | answer c' k r => exact ⟨hfrom h.1, h.2⟩
  | fails c' k text => exact ⟨hfrom h.1, h.2⟩
  | finish c' k out => exact ⟨hfrom h.1, h.2⟩
  | tick => exact h.elim
  | call => exact h.elim
  | cancel => exact h.elim

/-! ## Frames -/

/-- an object and its refreshers are left as they are -/
def Same (s s' : St) (c : ℕ) : Prop := s'.objects c = s.objects c ∧ s'.phase c = s.phase c

theorem step_frame {c' c : ℕ} {o : Op} (ho : o.object = some c') (hc : c' < c) : Same s (step H B s o) c := by
  have hmoves := step_moves (H := H) (B := B) s o
  generalize step H B s o = s' at hmoves
  have hphase : ∀ k p, (setPhase s c' k p).phase c = s.phase c := by
    intro k p
    rw [setPhase_phase, update_of_ne hc.ne']
  cases hmoves with
  | none => exact ⟨rfl, rfl⟩
  | tick d => cases ho
  | plain hc' o' =>
    obtain rfl := Option.some.inj (ho.symm.trans hc')
    exact ⟨update_of_ne hc.ne' _ _, rfl⟩
  | raises text =>
    obtain rfl := Option.some.inj ho
    exact ⟨update_of_ne hc.ne' _ _, rfl⟩
  | loads =>
    obtain rfl := Option.some.inj ho
    exact ⟨update_of_ne hc.ne' _ _, rfl⟩
  | @sources c'' k j d role _ hrole hsource =>
    obtain rfl := Option.some.inj ho
    have hd : d < c := (H.order _ role d hrole hsource).trans hc
    exact ⟨update_of_ne hd.ne' _ _, hphase k _⟩
  | starts =>
    obtain rfl := Option.some.inj ho
    exact ⟨rfl, hphase _ _⟩
  | continues =>
    obtain rfl := Option.some.inj ho
    exact ⟨rfl, hphase _ _⟩
  | answers r =>
    obtain rfl := Option.some.inj ho
    exact ⟨update_of_ne hc.ne' _ _, rfl⟩

theorem run_frame {d c : ℕ} (hdc : d < c) {ops : List Op} (hops : ∀ o ∈ ops, Goes H R d o) : Same s (run (step H B) s ops) c := by
  induction ops generalizing s with
  | nil => exact ⟨rfl, rfl⟩
  | cons o ops ih =>
    obtain ⟨c', hc', ho⟩ := (hops o List.mem_cons_self).object
    obtain ⟨hobject, hphase⟩ := step_frame (H := H) (B := B) (s := s) ho (hc'.trans_lt hdc)
    obtain ⟨hobject', hphase'⟩ := ih (s := step H B s o) fun o' ho' => hops o' (List.mem_cons_of_mem o ho')
    exact ⟨hobject'.trans hobject, hphase'.trans hphase⟩

/-! ## A refresh in flight -/

/-- a call of the object ends and gives the lock back; the others stay where they are -/
structure Ends (s s' : St) (c k : ℕ) : Prop where
  out : region ((s'.objects c).pc k) = .out
  work : work (s'.objects c).lock < work (s.objects c).lock
  others : ∀ i ≠ k, (s'.objects c).pc i = (s.objects c).pc i

theorem Ends.of_same {s t s' : St} {c k : ℕ} (ht : t.objects c = s.objects c) (h : Ends t s' c k) : Ends s s' c k :=
  ⟨h.out, ht ▸ h.work, ht ▸ h.others⟩

/-- a call in flight holds the lock -/
structure InFlight (s : St) (c k : ℕ) : Prop where
  refreshing : ∃ im, (s.objects c).pc k = .refreshing im
  locked : (s.objects c).lock.locked = true

theorem InFlight.finish {t : St} {c k : ℕ} (h : InFlight s c k) (ht : t.objects = s.objects) (out : Outcome) :
    Ends s (act H B t c (.finish k out)) c k := by
  obtain ⟨im, hk⟩ := h.refreshing
  obtain ⟨hout, hlock⟩ := Credentials.finish_ends (B := B) (C := (H.object c).cfg) hk out
  refine ⟨?_, ?_, fun i hi => ?_⟩
  · rw [act_objects, update_self, ht]
    exact hout
  · rw [act_objects, update_self, ht, hlock]
    exact Credentials.work_release h.locked
  · rw [act_objects, update_self, ht]
    exact Credentials.step_pc_of_ne fun heq => hi (Option.some.inj heq).symm

theorem InFlight.cancel {c k : ℕ} (h : InFlight s c k) : Ends s (act H B s c (.cancel k)) c k := by
  obtain ⟨im, hk⟩ := h.refreshing
  obtain ⟨hout, hlock⟩ := Credentials.cancel_ends (B := B) (C := (H.object c).cfg) hk
  refine ⟨?_, ?_, fun i hi => ?_⟩
  · rw [act_objects, update_self]
    exact hout
  · rw [act_objects, update_self, hlock]
    exact Credentials.work_release h.locked
  · rw [act_objects, update_self]
    exact Credentials.step_pc_of_ne fun heq => hi (Option.some.inj heq).symm

theorem InFlight.same {t : St} {c k : ℕ} (h : InFlight s c k) (ht : t.objects c = s.objects c) : InFlight t c k :=
  ⟨ht ▸ h.refreshing, ht ▸ h.locked⟩

/-- STS replies -/
theorem InFlight.assuming {c k : ℕ} (h : InFlight s c k) {role : Role} (hrole : (H.object c).role = some role)
    {creds : ReadOnlyCredentials} (hphase : s.phase c k = .assuming creds) (R : Replies) :
    ∃ o, Goes H R c o ∧ Ends s (step H B s o) c k := by
  obtain ⟨im, hk⟩ := h.refreshing
  cases hreply : R.sts c k with
  | ok r =>
    refine ⟨.answer c k r, ⟨.refl, hreply⟩, ?_⟩
    simp only [step, hk, hphase, hrole]
    exact h.finish (by rfl) _
  | error text =>
    refine ⟨.fails c k text, ⟨.refl, hreply⟩, ?_⟩
    simp only [step, hk, hphase, hrole]
    exact h.finish (by rfl) _

/-- every call of the object `d` can be completed -/
def Completes (H : Chain) (B : Base) (t0 : ℤ) (cache : String → Option Response) (R : Replies) (d : ℕ) : Prop :=
  ∀ s, Inv H B t0 cache s → ∀ j, ∃ ops, (∀ o ∈ ops, Goes H R d o) ∧
    region (((run (step H B) s ops).objects d).pc j) = .out

variable {t0 : ℤ} {cache : String → Option Response}

theorem run_inv (h : Inv H B t0 cache s) (ops : List Op) : Inv H B t0 cache (run (step H B) s ops) :=
  Async.run_inv step_inv h ops

/-- the call of the source is brought to its end, and then the one of STS -/
theorem InFlight.sourcing {c k j : ℕ} (h : InFlight s c k) (hinv : Inv H B t0 cache s) (hphase : s.phase c k = .sourcing j)
    (hsource : ∀ d < c, Completes H B t0 cache R d) :
    ∃ ops, (∀ o ∈ ops, Goes H R c o) ∧ Ends s (run (step H B) s ops) c k := by
  obtain ⟨role, d, hrole, hd, -⟩ := hinv.phases.sourcing c k j hphase
  have hdc : d < c := H.order c role d hrole hd
  obtain ⟨before, hbefore, hout⟩ := hsource d hdc s hinv j
  obtain ⟨hobject, hphase'⟩ := run_frame (H := H) (B := B) (s := s) hdc hbefore
  have hinv' := run_inv hinv before
  generalize hs' : run (step H B) s before = s' at hout hobject hphase' hinv'
  have h' : InFlight s' c k := h.same hobject
  obtain ⟨im, hk⟩ := h'.refreshing
  have hsourcing : s'.phase c k = .sourcing j := by rw [hphase', hphase]
  have hproceed : step H B s' (.proceed c k) = createClient H B s' c k ((s'.objects d).pc j) := by
    simp only [step, hk, hsourcing, hrole, hd]
  have hbefore' : ∀ o ∈ before, Goes H R c o := fun o ho => (hbefore o ho).source hrole hd
  have hone : ∀ {t}, createClient H B s' c k ((s'.objects d).pc j) = t → Ends s' t c k →
      ∃ ops, (∀ o ∈ ops, Goes H R c o) ∧ Ends s (run (step H B) s ops) c k := by
    intro t ht hends
    refine ⟨before ++ [.proceed c k], fun o ho => ?_, ?_⟩
    · rcases List.mem_append.1 ho with ho | ho
      · exact hbefore' o ho
      · rw [List.mem_singleton.1 ho]
        exact .refl
    · rw [run_append, hs', run_cons, run_nil, hproceed, ht]
      exact hends.of_same hobject
  cases hpc : (s'.objects d).pc j with
  | returned creds =>
    cases creds with
    | none => exact hone (by rw [hpc]; rfl) (h'.finish (by rfl) _)
    | some creds =>
      have hassume : createClient H B s' c k ((s'.objects d).pc j) = assume s' c k creds := by rw [hpc]; rfl
      obtain ⟨o, ho, hends⟩ := InFlight.assuming (H := H) (B := B) (s := assume s' c k creds) (h'.same rfl) hrole
        (setPhase_self c k _) R
      refine ⟨before ++ [.proceed c k, o], fun o' ho' => ?_, ?_⟩
      · rcases List.mem_append.1 ho' with ho' | ho'
        · exact hbefore' o' ho'
        · rcases List.mem_pair.1 ho' with rfl | rfl
          · exact .refl
          · exact ho
      · rw [run_append, hs', run_cons, run_cons, run_nil, hproceed, hassume]
        exact Ends.of_same (t := assume s' c k creds) hobject hends
  | raised e => exact hone (by rw [hpc]; rfl) (h'.finish (by rfl) _)
  | cancelled => exact hone (by rw [hpc]; rfl) h'.cancel
  | idle =>
    obtain ⟨role', d', hrole', hd', hbegun⟩ := hinv'.phases.sourcing c k j hsourcing
    obtain rfl := Option.some.inj (hrole.symm.trans hrole')
    obtain rfl := Source.object.inj (hd.symm.trans hd')
    exact absurd hpc hbegun
  | queuedFree => rw [hpc] at hout; cases hout
  | queuedHeld => rw [hpc] at hout; cases hout
  | refreshing im' => rw [hpc] at hout; cases hout

/-- there is a call of the source that can be made -/
theorem exists_unused (hinv : Inv H B t0 cache s) (role : Role) : ∃ j, Unused s role j := by
  unfold Unused
  cases role.source with
  | static creds => exact ⟨0, trivial⟩
  | object d =>
    obtain ⟨n, hn⟩ := (hinv.calls d).finite
    exact ⟨n, hn n le_rfl⟩

/-- the refresher is brought from its beginning to its end -/
theorem InFlight.fresh {c k : ℕ} (h : InFlight s c k) (hinv : Inv H B t0 cache s) {role : Role}
    (hrole : (H.object c).role = some role) (hphase : s.phase c k = .fresh)
    (hsource : ∀ d < c, Completes H B t0 cache R d) :
    ∃ ops, (∀ o ∈ ops, Goes H R c o) ∧ Ends s (run (step H B) s ops) c k := by
  obtain ⟨im, hk⟩ := h.refreshing
  obtain ⟨j, hj⟩ := exists_unused hinv role
  have hrefresh : step H B s (.refresh c k j) = refresh H B s c k j role := by
    simp only [step, hk, hphase, hrole, if_pos hj]
  have hinv' := step_inv s (.refresh c k j) hinv
  have hone : ∀ {t}, step H B s (.refresh c k j) = t → Ends s t c k →
      ∃ ops, (∀ o ∈ ops, Goes H R c o) ∧ Ends s (run (step H B) s ops) c k := by
    intro t ht hends
    refine ⟨[.refresh c k j], fun o ho => ?_, ?_⟩
    · rw [List.mem_singleton.1 ho]
      exact .refl
    · rw [run_cons, run_nil, ht]
      exact hends
  have hmore : ∀ {t}, step H B s (.refresh c k j) = t → t.objects c = s.objects c →
      (∃ ops, (∀ o ∈ ops, Goes H R c o) ∧ Ends t (run (step H B) t ops) c k) →
      ∃ ops, (∀ o ∈ ops, Goes H R c o) ∧ Ends s (run (step H B) s ops) c k := by
    rintro t ht hobject ⟨ops, hops, hends⟩
    refine ⟨.refresh c k j :: ops, fun o ho => ?_, ?_⟩
    · rcases List.mem_cons.1 ho with rfl | ho
      · exact .refl
      · exact hops o ho
    · rw [run_cons, ht]
      exact hends.of_same hobject
  unfold refresh at hrefresh
  split_ifs at hrefresh with hmfa
  · exact hone hrefresh (h.finish (by rfl) _)
  unfold getCachedCredentials at hrefresh
  split at hrefresh
  · exact hone hrefresh (h.finish (by rfl) _)
  split at hrefresh
  · rename_i creds hstatic
    refine hmore hrefresh rfl ?_
    obtain ⟨o, ho, hends⟩ := InFlight.assuming (H := H) (B := B) (s := assume (mark s c) c k creds) (h.same rfl) hrole
      (setPhase_self c k _) R
    exact ⟨[o], fun o' ho' => List.mem_singleton.1 ho' ▸ ho, hends⟩
  · rename_i d hd
    have hobject : (setPhase (act H B (mark s c) d (.call j)) c k (.sourcing j)).objects c = s.objects c :=
      update_of_ne (H.order c role d hrole hd).ne' _ _
    rw [hrefresh] at hinv'
    exact hmore hrefresh hobject ((h.same hobject).sourcing hinv' (setPhase_self c k _) hsource)

theorem InFlight.finishes {c k : ℕ} (h : InFlight s c k) (hinv : Inv H B t0 cache s)
    (hsource : ∀ d < c, Completes H B t0 cache R d) :
    ∃ ops, (∀ o ∈ ops, Goes H R c o) ∧ Ends s (run (step H B) s ops) c k := by
  cases hrole : (H.object c).role with
  | none =>
    refine ⟨[.finish c k (R.refresher c k)], fun o ho => ?_, ?_⟩
    · rw [List.mem_singleton.1 ho]
      exact ⟨.refl, rfl⟩
    · rw [run_cons, run_nil, step, if_pos hrole]
      exact h.finish (by rfl) _
  | some role =>
    cases hphase : s.phase c k with
    | fresh => exact h.fresh hinv hrole hphase hsource
    | sourcing j => exact h.sourcing hinv hphase hsource
    | assuming creds =>
      obtain ⟨o, ho, hends⟩ := h.assuming (B := B) hrole hphase R
      exact ⟨[o], fun o' ho' => List.mem_singleton.1 ho' ▸ ho, hends⟩

/-! ## Every call -/

/-- the lock gets on: its holder comes to the end, or the next waiter is let in -/
theorem lock_advances {c k : ℕ} (hinv : Inv H B t0 cache s) (hk : region ((s.objects c).pc k) ≠ .out)
    (hsource : ∀ d < c, Completes H B t0 cache R d) :
    ∃ ops, (∀ o ∈ ops, Goes H R c o) ∧ work ((run (step H B) s ops).objects c).lock < work (s.objects c).lock := by
  have hguards := (hinv.object c).guards
  obtain ⟨j, hj | ⟨hready, -⟩⟩ := hguards.turn hk
  · have hflight : InFlight s c j := by
      refine ⟨?_, hguards.locked_of_inside hj⟩
      cases hpc : (s.objects c).pc j with
      | refreshing im => exact ⟨im, rfl⟩
      | _ => rw [hpc] at hj; cases hj
    obtain ⟨ops, hops, hends⟩ := hflight.finishes hinv hsource
    exact ⟨ops, hops, hends.work⟩
  · refine ⟨[.resume c j], fun o ho => ?_, ?_⟩
    · rw [List.mem_singleton.1 ho]
      exact .refl
    · rw [run_cons, run_nil, step, act_objects, update_self]
      exact Credentials.resume_work hguards hready

theorem completes (c : ℕ) : Completes H B t0 cache R c := by
  induction c using Nat.strong_induction_on with
  | h c hsource =>
    intro s hinv k
    -- by what the lock of `c` has still to do
    induction hn : work (s.objects c).lock using Nat.strong_induction_on generalizing s with
    | h n ih =>
      by_cases hk : region ((s.objects c).pc k) = .out
      · exact ⟨[], fun o ho => (List.not_mem_nil ho).elim, hk⟩
      · obtain ⟨ops, hops, hwork⟩ := lock_advances hinv hk hsource
        obtain ⟨more, hmore, hout⟩ := ih _ (hn ▸ hwork) (run (step H B) s ops) (run_inv hinv ops) rfl
        refine ⟨ops ++ more, fun o ho => ?_, by rw [run_append]; exact hout⟩
        rcases List.mem_append.1 ho with ho | ho
        · exact hops o ho
        · exact hmore o ho

/-- **No deadlock.** Whatever has happened to the objects of a chain of roles, and whatever STS and the other refreshers are
going to reply, every call that has begun can be completed by tasks that go on: no call is made and none is cancelled, no
time passes, and nothing is done but in calls of the object itself and of those it takes its credentials from. -/
theorem role_chain_completes (H : Chain) (B : Base) (t0 : ℤ) (cache : String → Option Response) (ops : List Op)
    (R : Replies) (c k : ℕ) :
    let s := run (step H B) (init H t0 cache) ops
    ∃ more, (∀ o ∈ more, Goes H R c o) ∧ region (((run (step H B) s more).objects c).pc k) = .out ∧
      ((s.objects c).pc k ≠ .idle → ((run (step H B) s more).objects c).pc k ≠ .idle) := by
  intro s
  obtain ⟨more, hmore, hout⟩ := completes (R := R) c s (run_inv (init_inv t0 cache) ops) k
  have hgrows : ∀ more, (s.objects c).pc k ≠ .idle → ((run (step H B) s more).objects c).pc k ≠ .idle := by
    intro more hbegun
    exact Async.run_inv (I := fun u => (u.objects c).pc k ≠ .idle) (fun u o hu => ((step_grows u o) c k).1 hu) hbegun more
  exact ⟨more, hmore, hout, hgrows more⟩

end AioBotocore.RoleChain
