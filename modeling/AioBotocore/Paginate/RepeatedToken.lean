/-
Tokens that come back. Without a limit on the items, the loop of `__anext__` ends when a page has no next token, or with
`PaginationError` when the next token is the one before it once more; it keeps no other token.

`token n` is the next token of the page of the `n`th request, when every token is followed: the orbit of the first one.

- `anext_ends`, `anext_running`: where the loop ends, told by the tokens alone.
- `repeated_token_iff`: every repeated token ends the iteration, exactly if a token that comes back comes back at once.
- `two_cycle_runs`: two tokens in turn are followed for ever.
-/
import Mathlib.Tactic
import AioBotocore.Paginate.Resume

namespace AioBotocore.Paginate

open Function

namespace AioPageIterator

variable {V K κ : Type} {kind : κ → Kind} [Fintype K] (it : AioPageIterator V K kind)

/-! ## The tokens in order -/

/-- from a next token to the one of the page it requests -/
def follow (nextToken : Option (Tokens V K)) : Option (Tokens V K) :=
  nextToken.bind fun t => (it.method (injectTokenIntoKwargs it.cfg t)).following it.cfg

/-- the next tokens from the request `q` on -/
def tokensFrom (q : Request V K) (n : ℕ) : Option (Tokens V K) := it.follow^[n] ((it.method q).following it.cfg)

def token (n : ℕ) : Option (Tokens V K) := it.tokensFrom it.start.currentKwargs n

/-- what the loop has in `previous_next_token` at its `n`th request -/
def previousFrom (s : Loop V K) : ℕ → Option (Tokens V K)
  | 0 => s.previousNextToken
  | n + 1 => it.tokensFrom s.currentKwargs n

/-- the token was sent before the `n`th response came -/
def Used (n : ℕ) (t : Tokens V K) : Prop :=
  (∃ m < n, it.token m = some t) ∨ ∃ r, it.startingToken = some r ∧ r.tokens = t

variable {it} {q : Request V K}

theorem tokensFrom_succ (n : ℕ) : it.tokensFrom q (n + 1) = it.follow (it.tokensFrom q n) :=
  iterate_succ_apply' it.follow n _

theorem tokensFrom_next {t : Tokens V K} (ht : (it.method q).following it.cfg = some t) (n : ℕ) :
    it.tokensFrom q (n + 1) = it.tokensFrom (injectTokenIntoKwargs it.cfg t) n := by
  rw [tokensFrom, iterate_succ_apply, ht]
  rfl

/-- there is no token after a page without one -/
theorem tokensFrom_isSome {m n : ℕ} (hmn : m ≤ n) (hn : (it.tokensFrom q n).isSome) : (it.tokensFrom q m).isSome := by
  induction n, hmn using Nat.le_induction with
  | base => exact hn
  | succ n _ ih =>
    rw [tokensFrom_succ] at hn
    exact ih (Option.isSome_of_isSome_bind hn)

/-! ## The loop -/

/-- the loop goes past its `n`th request -/
def Passes (it : AioPageIterator V K kind) (s : Loop V K) (n : ℕ) : Prop :=
  (it.tokensFrom s.currentKwargs n).isSome ∧ it.previousFrom s n ≠ it.tokensFrom s.currentKwargs n

theorem passes_zero (s : Loop V K) :
    Passes it s 0 ↔ ∃ t, (it.method s.currentKwargs).following it.cfg = some t ∧ s.previousNextToken ≠ some t := by
  constructor
  · rintro ⟨hsome, hne⟩
    obtain ⟨t, ht⟩ := Option.isSome_iff_exists.1 hsome
    exact ⟨t, ht, fun h => hne (h.trans ht.symm)⟩
  · rintro ⟨t, ht, hne⟩
    exact ⟨by simp [tokensFrom, ht], fun h => hne (h.trans ht)⟩

/-- the variables after one round -/
def Loop.next (it : AioPageIterator V K kind) (s : Loop V K) (t : Tokens V K) : Loop V K :=
  ⟨injectTokenIntoKwargs it.cfg t, some t, t, s.totalItems + (it.makeRequest s).1.items.length, false⟩

/-- after one round the tokens are those that came later -/
theorem passes_next {s : Loop V K} {t : Tokens V K} (ht : (it.method s.currentKwargs).following it.cfg = some t)
    (n : ℕ) : Passes it (Loop.next it s t) n ↔ Passes it s (n + 1) := by
  have htokens : it.tokensFrom (Loop.next it s t).currentKwargs = fun n => it.tokensFrom s.currentKwargs (n + 1) := by
    funext n
    exact (tokensFrom_next ht n).symm
  cases n with
  | zero =>
    have hzero : it.tokensFrom s.currentKwargs 0 = some t := ht
    rw [Passes, Passes, htokens, previousFrom, previousFrom, hzero]
    rfl
  | succ n => rw [Passes, Passes, htokens, previousFrom, previousFrom, htokens]

section Loop

variable [DecidableEq V]

theorem anext_finished (hmax : it.maxItems = none) {s : Loop V K} (fuel : ℕ)
    (ht : (it.method s.currentKwargs).following it.cfg = none) :
    (it.anext (fuel + 1) s).ending = .finished ∧ (it.anext (fuel + 1) s).requests = [s.currentKwargs] := by
  rw [anext, (makeRequest_spec it s).1, ht]
  simp [hmax]

theorem anext_repeated (hmax : it.maxItems = none) {s : Loop V K} (fuel : ℕ) {t : Tokens V K}
    (ht : (it.method s.currentKwargs).following it.cfg = some t) (hsame : s.previousNextToken = some t) :
    (it.anext (fuel + 1) s).ending = .paginationError ∧ (it.anext (fuel + 1) s).requests = [s.currentKwargs] := by
  rw [anext, (makeRequest_spec it s).1, ht]
  simp [hmax, hsame]

theorem anext_goes_on (hmax : it.maxItems = none) {s : Loop V K} (fuel : ℕ) {t : Tokens V K}
    (ht : (it.method s.currentKwargs).following it.cfg = some t) (hne : s.previousNextToken ≠ some t) :
    (it.anext (fuel + 1) s).ending = (it.anext fuel (Loop.next it s t)).ending ∧
      (it.anext (fuel + 1) s).requests = s.currentKwargs :: (it.anext fuel (Loop.next it s t)).requests := by
  rw [anext, (makeRequest_spec it s).1, ht]
  simp [hmax, hne, Iteration.after, Loop.next]

theorem anext_running (hmax : it.maxItems = none) {fuel : ℕ} {s : Loop V K} (h : ∀ n < fuel, Passes it s n) :
    (it.anext fuel s).ending = .running := by
  induction fuel generalizing s with
  | zero => rfl
  | succ fuel ih =>
    obtain ⟨t, ht, hne⟩ := (passes_zero s).1 (h 0 fuel.succ_pos)
    rw [(anext_goes_on hmax fuel ht hne).1]
    exact ih fun n hn => (passes_next ht n).2 (h (n + 1) (by omega))

/-- the first request that the loop does not pass is its last -/
theorem anext_ends (hmax : it.maxItems = none) {n fuel : ℕ} (hfuel : n < fuel) {s : Loop V K}
    (hpasses : ∀ m < n, Passes it s m) (hstop : ¬ Passes it s n) :
    (it.anext fuel s).ending =
        (if (it.tokensFrom s.currentKwargs n).isSome then .paginationError else .finished) ∧
      (it.anext fuel s).requests.length = n + 1 := by
  induction n generalizing fuel s with
  | zero =>
    obtain ⟨fuel, rfl⟩ := Nat.exists_eq_succ_of_ne_zero (Nat.ne_of_gt hfuel)
    cases ht : (it.method s.currentKwargs).following it.cfg with
    | none =>
      obtain ⟨hending, hrequests⟩ := anext_finished hmax fuel ht
      exact ⟨by simp [hending, tokensFrom, ht], by simp [hrequests]⟩
    | some t =>
      have hsame : s.previousNextToken = some t := by
        by_contra hne
        exact hstop ((passes_zero s).2 ⟨t, ht, hne⟩)
      obtain ⟨hending, hrequests⟩ := anext_repeated hmax fuel ht hsame
      exact ⟨by simp [hending, tokensFrom, ht], by simp [hrequests]⟩
  | succ n ih =>
    obtain ⟨fuel, rfl⟩ := Nat.exists_eq_succ_of_ne_zero (Nat.ne_of_gt (Nat.zero_lt_of_lt hfuel))
    obtain ⟨t, ht, hne⟩ := (passes_zero s).1 (hpasses 0 n.succ_pos)
    obtain ⟨hending, hrequests⟩ := anext_goes_on hmax fuel ht hne
    obtain ⟨hending', hlength⟩ := ih (show n < fuel by omega)
      (fun m hm => (passes_next ht m).2 (hpasses (m + 1) (by omega))) fun h => hstop ((passes_next ht n).1 h)
    rw [hending, hending', tokensFrom_next ht, hrequests, List.length_cons, hlength]
    exact ⟨rfl, rfl⟩

end Loop

/-! ## Tokens that come back -/

/-- a token that comes back is the one that comes next -/
def BackAtOnce (it : AioPageIterator V K kind) : Prop :=
  ∀ m n t, m < n → it.token m = some t → it.token n = some t → it.token (m + 1) = some t

theorem token_add {m n : ℕ} (h : it.token m = it.token n) (k : ℕ) : it.token (m + k) = it.token (n + k) := by
  induction k with
  | zero => exact h
  | succ k ih => exact (tokensFrom_succ _).trans ((congrArg it.follow ih).trans (tokensFrom_succ _).symm)

theorem token_period {m n : ℕ} (hmn : m ≤ n) (h : it.token m = it.token n) (j : ℕ) :
    it.token (m + j * (n - m)) = it.token m := by
  induction j with
  | zero => simp
  | succ j ih =>
    have hstep := token_add h (j * (n - m))
    rw [show m + (j + 1) * (n - m) = n + j * (n - m) by rw [Nat.succ_mul]; omega, ← hstep, ih]

theorem token_const {j : ℕ} (h : it.token j = it.token (j + 1)) (k : ℕ) : it.token (j + k) = it.token j := by
  simpa using token_period (Nat.le_succ j) h k

theorem passes_start_succ (n : ℕ) :
    Passes it it.start (n + 1) ↔ (it.token (n + 1)).isSome ∧ it.token n ≠ it.token (n + 1) := Iff.rfl

/-- with a token that comes back, but not at once, the loop passes every request -/
theorem passes_of_cycle {m n : ℕ} {t : Tokens V K} (hmn : m < n) (hm : it.token m = some t) (hn : it.token n = some t)
    (hlater : it.token (m + 1) ≠ some t) (k : ℕ) : Passes it it.start k := by
  have hperiod := token_period hmn.le (hm.trans hn.symm)
  -- a later place of the token
  have hlate : k ≤ m + k * (n - m) := le_add_left (Nat.le_mul_of_pos_right k (by omega))
  have hback : (it.token (m + k * (n - m))).isSome := by
    rw [hperiod k, hm]
    rfl
  have hsome : (it.token k).isSome := tokensFrom_isSome hlate hback
  cases k with
  | zero =>
    refine ⟨hsome, fun h => ?_⟩
    have hnone : it.start.previousNextToken = none := by
      unfold start
      cases it.startingToken <;> rfl
    have hzero : it.token 0 = none := h.symm.trans hnone
    rw [hzero] at hsome
    cases hsome
  | succ k =>
    refine (passes_start_succ k).2 ⟨hsome, fun hsame => hlater ?_⟩
    -- from `k` on the token would be the same, and so it would be at the token's later place and after it
    obtain ⟨i, hi⟩ := Nat.exists_eq_add_of_le (Nat.le_of_succ_le hlate)
    have hnext := token_add (hperiod (k + 1)) 1
    rw [hi, Nat.add_assoc, token_const hsame (i + 1), ← token_const hsame i, ← hi, hperiod (k + 1), hm] at hnext
    exact hnext.symm

theorem token_served {n : ℕ} {t : Tokens V K} (h : it.token n = some t) :
    ∃ q, (it.method q).following it.cfg = some t := by
  cases n with
  | zero => exact ⟨_, h⟩
  | succ n =>
    obtain ⟨t', -, ht⟩ := Option.bind_eq_some_iff.1 ((tokensFrom_succ n).symm.trans h)
    exact ⟨_, ht⟩

/-- with finitely many tokens and none that comes back later, there is a request that the loop does not pass -/
theorem exists_not_passes (hfin : {t | ∃ q, (it.method q).following it.cfg = some t}.Finite) (hback : BackAtOnce it) :
    ∃ n, ¬ Passes it it.start n := by
  by_contra hall
  push Not at hall
  have hmem : ∀ n, ((it.token n).getD fun _ => none) ∈ {t | ∃ q, (it.method q).following it.cfg = some t} := by
    intro n
    obtain ⟨t, ht⟩ := Option.isSome_iff_exists.1 (hall n).1
    have htoken : it.token n = some t := ht
    rw [htoken]
    exact token_served htoken
  obtain ⟨m, n, hmn, heq⟩ := hfin.exists_lt_map_eq_of_forall_mem hmem
  obtain ⟨t, ht⟩ := Option.isSome_iff_exists.1 (hall m).1
  obtain ⟨t', ht'⟩ := Option.isSome_iff_exists.1 (hall n).1
  have hm : it.token m = some t := ht
  have hn : it.token n = some t' := ht'
  rw [hm, hn] at heq
  obtain rfl : t = t' := heq
  exact ((passes_start_succ m).1 (hall (m + 1))).2 (hm.trans (hback m n t hmn hm hn).symm)

/-- the starting token counts: its page was the first one -/
theorem Used.back {n : ℕ} {t : Tokens V K} (h : it.Used n t) (hn : it.token n = some t) :
    ∃ m n' t', m < n' ∧ it.token m = some t' ∧ it.token n' = some t' := by
  rcases h with ⟨m, hmn, hm⟩ | ⟨r, hr, rfl⟩
  · exact ⟨m, n, t, hmn, hm, hn⟩
  · have hzero : (it.token 0).isSome := tokensFrom_isSome (Nat.zero_le n) (by
      change (it.token n).isSome
      rw [hn]
      rfl)
    obtain ⟨t', ht'⟩ := Option.isSome_iff_exists.1 hzero
    have hstart : it.start.currentKwargs = injectTokenIntoKwargs it.cfg r.tokens := by
      rw [start, hr]
      rfl
    have hnext : it.token (n + 1) = it.token 0 := by
      rw [token, tokensFrom_succ, ← token, hn, token, hstart]
      rfl
    exact ⟨0, n + 1, t', n.succ_pos, ht', hnext.trans ht'⟩

/-- **Repeated tokens.** Over a deterministic service with finitely many tokens and without a limit on the items, the
iteration ends, and with `PaginationError` when a token that was sent comes back, if and only if a token that comes back
at all is the next token of two pages in a row. -/
theorem repeated_token_iff [DecidableEq V] (it : AioPageIterator V K kind) (hmax : it.maxItems = none)
    (hfin : {t | ∃ q, (it.method q).following it.cfg = some t}.Finite) :
    (∃ fuel, ∀ more, (it.iterate (fuel + more)).ending ≠ .running ∧
        ((∃ n t, it.token n = some t ∧ it.Used n t) → (it.iterate (fuel + more)).ending = .paginationError)) ↔
      BackAtOnce it := by
  classical
  constructor
  · rintro ⟨fuel, hends⟩ m n t hmn hm hn
    by_contra hlater
    exact (hends 0).1 (anext_running hmax fun k _ => passes_of_cycle hmn hm hn hlater k)
  · intro hback
    have hstop := exists_not_passes hfin hback
    refine ⟨Nat.find hstop + 1, fun more => ?_⟩
    have hpasses : ∀ m < Nat.find hstop, Passes it it.start m := fun m hm => not_not.1 (Nat.find_min hstop hm)
    obtain ⟨hending, -⟩ := anext_ends hmax (show Nat.find hstop < Nat.find hstop + 1 + more by omega) hpasses
      (Nat.find_spec hstop)
    refine ⟨by rw [iterate, hending]; split <;> simp, ?_⟩
    rintro ⟨n, t, hn, hused⟩
    obtain ⟨m, n', t', hmn, hm, hn'⟩ := hused.back hn
    have hagain := hback m n' t' hmn hm hn'
    have hle : Nat.find hstop ≤ m + 1 := Nat.find_min' hstop fun h => ((passes_start_succ m).1 h).2 (hm.trans hagain.symm)
    have hsome : (it.tokensFrom it.start.currentKwargs (Nat.find hstop)).isSome := tokensFrom_isSome hle (by
      change (it.token (m + 1)).isSome
      rw [hagain]
      rfl)
    rw [iterate, hending, if_pos hsome]

end AioPageIterator

/-- one token; the first page says 1, the page of 1 says 2, and every page after it says 2 again -/
def stuck : AioPageIterator ℕ Unit (κ := Unit) fun _ => .list where
  cfg := ⟨fun _ => true, fun _ => false, false⟩
  method q := ⟨some [], fun _ => none, 0, fun _ => some (if (q ()).isNone then 1 else 2), none⟩
  maxItems := none
  startingToken := none

theorem stuck_following (q : Request ℕ Unit) :
    (stuck.method q).following stuck.cfg = some fun _ => some (if (q ()).isNone then 1 else 2) := rfl

theorem stuck_tokens_finite : {t | ∃ q, (stuck.method q).following stuck.cfg = some t}.Finite := by
  refine Set.Finite.subset (Set.toFinite {fun _ => some 1, fun _ => some 2}) ?_
  rintro t ⟨q, hq⟩
  rw [stuck_following] at hq
  obtain rfl := Option.some.inj hq
  split_ifs <;> simp

theorem repeated_token_iff_two :
    (∃ fuel, ∀ more, (stuck.iterate (fuel + more)).ending ≠ .running ∧
        ((∃ n t, stuck.token n = some t ∧ stuck.Used n t) → (stuck.iterate (fuel + more)).ending = .paginationError)) ↔
      stuck.BackAtOnce :=
  stuck.repeated_token_iff rfl stuck_tokens_finite

/-- one token; the pages say 1 and 2 in turn -/
def alternating : AioPageIterator ℕ Unit (κ := Unit) fun _ => .list where
  cfg := ⟨fun _ => true, fun _ => false, false⟩
  method q := ⟨some [], fun _ => none, 0, fun _ => some (if q () = some 1 then 2 else 1), none⟩
  maxItems := none
  startingToken := none

theorem alternating_following (q : Request ℕ Unit) :
    (alternating.method q).following alternating.cfg = some fun _ => some (if q () = some 1 then 2 else 1) := rfl

/-- **A longer cycle is followed for ever.** The third page has the token of the first: two tokens are all there are, and
the iteration never ends. -/
theorem two_cycle_runs :
    alternating.maxItems = none ∧ {t | ∃ q, (alternating.method q).following alternating.cfg = some t}.Finite ∧
      alternating.token 2 = some (fun _ => some 1) ∧ alternating.Used 2 (fun _ => some 1) ∧
      ∀ fuel, (alternating.iterate fuel).ending = .running := by
  have hzero : alternating.token 0 = some fun _ => some 1 := rfl
  have hone : alternating.token 1 = some fun _ => some 2 := rfl
  have htwo : alternating.token 2 = some fun _ => some 1 := rfl
  refine ⟨rfl, ?_, htwo, .inl ⟨0, by decide, hzero⟩, fun fuel => ?_⟩
  · refine Set.Finite.subset (Set.toFinite {fun _ => some 1, fun _ => some 2}) ?_
    rintro t ⟨q, hq⟩
    rw [alternating_following] at hq
    obtain rfl := Option.some.inj hq
    split_ifs <;> simp
  · refine AioPageIterator.anext_running rfl fun k _ =>
      AioPageIterator.passes_of_cycle (by decide : 0 < 2) hzero htwo (fun h => ?_) k
    have hcontra := congrFun (Option.some.inj (hone.symm.trans h)) ()
    simp at hcontra

end AioBotocore.Paginate
