/-
`_find_ssl_error` of `httpxsession.py`, and what `HttpxSession.send` makes of a `ConnectError` with it.

Exceptions are objects with two links each, which may lead to exceptions that were met before, or back. The list
`unvisited` is a stack with `None` in it wherever a link is missing.

- `loop_eq_search`: the loop is the general worklist search, with the stack read from its end.
- `find_ssl_error`: the loop ends on every finite graph, and finds an SSL error iff one can be reached.
- `connectError_ssl_iff`: the errors of a TLS handshake are those reported as `SSLError`.
-/
import Mathlib.Tactic
import AioBotocore.Worklist

namespace AioBotocore.Http.FindSslError

open Worklist

/-! ## Model -/

/-- exception objects: their `__cause__` and `__context__`, and which are instances of `ssl.SSLError` -/
structure Exceptions (ε : Type*) where
  cause : ε → Option ε
  context : ε → Option ε
  isSSLError : ε → Bool

variable {ε : Type*} (E : Exceptions ε)

/-- the `while` loop, `none` when the fuel runs out; `seen` holds the objects where the code holds their ids -/
def loop [DecidableEq ε] : ℕ → Finset ε → List (Option ε) → Option (Option ε)
  | 0, _, _ => none
  | fuel + 1, seen, unvisited =>
    match unvisited.getLast? with
    | none => some none
    | some none => loop fuel seen unvisited.dropLast
    | some (some current) =>
      if current ∈ seen then loop fuel seen unvisited.dropLast
      else if E.isSSLError current then some (some current)
      else loop fuel (insert current seen) (unvisited.dropLast ++ [E.cause current, E.context current])

/-- `_find_ssl_error` -/
def findSslError [DecidableEq ε] (fuel : ℕ) (exc : ε) : Option (Option ε) := loop E fuel ∅ [some exc]

inductive Raised (ε : Type*) where
  | sslError (endpointUrl : String) (error : ε)
  | proxyConnectionError (proxyUrl : String) (error : ε)
  | endpointConnectionError (endpointUrl : String) (error : ε)
deriving DecidableEq, Repr

/-- what `send` raises for a `ConnectError`, given what `_find_ssl_error` returned for it -/
def connectError (maskProxyUrl : String → String) (url : String) (proxyUrl : Option String) (e : ε) :
    Option ε → Raised ε
  | some error => .sslError url error
  | none =>
    match proxyUrl with
    | some proxyUrl =>
      if proxyUrl ≠ "" then .proxyConnectionError (maskProxyUrl proxyUrl) e else .endpointConnectionError url e
    | none => .endpointConnectionError url e

/-! ## The graph -/

/-- one of the two links of `a` leads to `b` -/
def Link (a b : ε) : Prop := E.cause a = some b ∨ E.context a = some b

/-- links lead from the first exception to the second -/
def Reachable : ε → ε → Prop := Relation.ReflTransGen (Link E)

/-- the links of an exception as the loop takes them, the last one put on the stack first -/
def links (a : ε) : List (Option ε) := [E.context a, E.cause a]

theorem linked_iff (a b : ε) : Linked id (links E) a b ↔ Link E a b := by
  simp only [Linked, links, Link, List.mem_cons, List.not_mem_nil, or_false, id_eq]
  constructor
  · intro h
    obtain ⟨i, rfl | rfl, hi⟩ := h
    · exact .inr hi
    · exact .inl hi
  · intro h
    rcases h with h | h
    · exact ⟨E.cause a, .inr rfl, h⟩
    · exact ⟨E.context a, .inl rfl, h⟩

theorem reachable_iff (a b : ε) : Worklist.Reachable id (links E) a b ↔ Reachable E a b := by
  have hlink : Linked id (links E) = Link E := by
    ext a b
    exact linked_iff E a b
  rw [Worklist.Reachable, Reachable, hlink]

/-! ## The loop -/

section Loop

variable [DecidableEq ε]

/-- the loop does not look at its stack but at the end -/
theorem loop_eq_search (fuel : ℕ) (seen : Finset ε) (unvisited : List (Option ε)) :
    loop E fuel seen unvisited = search id E.isSSLError (links E) fuel seen unvisited.reverse := by
  induction fuel generalizing seen unvisited with
  | zero => rfl
  | succ fuel ih =>
    rcases List.eq_nil_or_concat unvisited with rfl | ⟨rest, last, rfl⟩
    · rfl
    · rw [List.concat_eq_append, List.reverse_append, List.reverse_singleton, List.singleton_append, loop, search,
        List.getLast?_concat, List.dropLast_concat]
      cases last with
      | none => exact ih seen rest
      | some current =>
        have hpush : (rest ++ [E.cause current, E.context current]).reverse = links E current ++ rest.reverse := by
          simp [links]
        simp only [id_eq]
        rw [ih, ih, hpush]

theorem findSslError_eq (fuel : ℕ) (exc : ε) :
    findSslError E fuel exc = search id E.isSSLError (links E) fuel ∅ [some exc] := loop_eq_search E fuel ∅ _

variable {E} {exc : ε}

/-- each exception is put on the stack with two items -/
theorem findSslError_isSome (h : {e | Reachable E exc e}.Finite) :
    (findSslError E (2 * h.toFinset.card + 2) exc).isSome := by
  have hmem : ∀ e, e ∈ h.toFinset ↔ Reachable E exc e := by simp
  have hunseen : unseen (links E) h.toFinset ∅ = 2 * h.toFinset.card := by
    simp [unseen, links, mul_comm]
  rw [findSslError_eq]
  apply search_isSome (S := h.toFinset)
  · intro a ha b hab
    rw [hmem] at ha ⊢
    exact ha.tail ((linked_iff E a b).1 hab)
  · intro i hi a ha
    rw [hmem]
    obtain rfl := List.mem_singleton.1 hi
    obtain rfl : exc = a := Option.some.inj ha
    exact .refl
  · rw [hunseen, List.length_singleton]
    omega

theorem findSslError_mono {fuel fuel' : ℕ} {r : Option ε} (h : findSslError E fuel exc = some r) (hle : fuel ≤ fuel') :
    findSslError E fuel' exc = some r := by
  rw [findSslError_eq] at h ⊢
  exact search_mono h hle

theorem findSslError_sound {fuel : ℕ} {e : ε} (h : findSslError E fuel exc = some (some e)) :
    E.isSSLError e ∧ Reachable E exc e := by
  rw [findSslError_eq] at h
  obtain ⟨he, i, hi, a, ha, hpath⟩ := search_sound h
  obtain rfl := List.mem_singleton.1 hi
  obtain rfl : exc = a := Option.some.inj ha
  exact ⟨he, (reachable_iff E exc e).1 hpath⟩

theorem findSslError_complete {fuel : ℕ} (h : findSslError E fuel exc = some none) {e : ε}
    (hpath : Reachable E exc e) : E.isSSLError e = false := by
  rw [findSslError_eq] at h
  have hwaits : Pending id (∅ : Finset ε) [some exc] exc := .inr ⟨some exc, List.mem_singleton_self _, rfl⟩
  exact search_complete h (explored_empty _) hwaits ((reachable_iff E exc e).2 hpath)

theorem findSslError_isSome_iff {fuel : ℕ} {r : Option ε} (h : findSslError E fuel exc = some r) :
    r.isSome ↔ ∃ e, Reachable E exc e ∧ E.isSSLError e := by
  cases r with
  | none =>
    simp only [Option.isSome_none, Bool.false_eq_true, false_iff]
    intro hex
    obtain ⟨e, hpath, he⟩ := hex
    rw [findSslError_complete h hpath] at he
    cases he
  | some e =>
    obtain ⟨he, hpath⟩ := findSslError_sound h
    simp only [Option.isSome_some, true_iff]
    exact ⟨e, hpath, he⟩

/-- a `ConnectError` becomes an `SSLError` iff a failure of TLS is behind it, and then with that failure as its error -/
theorem connectError_ssl_iff (maskProxyUrl : String → String) (url : String) (proxyUrl : Option String) {fuel : ℕ}
    {r : Option ε} (h : findSslError E fuel exc = some r) :
    (∃ error, E.isSSLError error ∧ Reachable E exc error ∧
      connectError maskProxyUrl url proxyUrl exc r = .sslError url error) ↔
    ∃ e, Reachable E exc e ∧ E.isSSLError e := by
  rw [← findSslError_isSome_iff h]
  cases r with
  | none =>
    simp only [Option.isSome_none, Bool.false_eq_true, iff_false]
    intro hex
    obtain ⟨error, -, -, hraised⟩ := hex
    simp only [connectError] at hraised
    split at hraised
    · split_ifs at hraised
    · cases hraised
  | some e =>
    obtain ⟨he, hpath⟩ := findSslError_sound h
    simp only [Option.isSome_some, iff_true]
    exact ⟨e, he, hpath, rfl⟩

/-- **TLS failures are found in any exception graph.** When finitely many exceptions can be reached, whatever cycles they
make, the loop ends, after at most two steps for each of them and two more; it returns only an SSL error that can be
reached, and returns one iff there is one. -/
theorem find_ssl_error (h : {e | Reachable E exc e}.Finite) :
    ∃ r, (∀ fuel ≥ 2 * h.toFinset.card + 2, findSslError E fuel exc = some r) ∧
      (∀ e, r = some e → E.isSSLError e ∧ Reachable E exc e) ∧
      (r.isSome ↔ ∃ e, Reachable E exc e ∧ E.isSSLError e) := by
  obtain ⟨r, hr⟩ := Option.isSome_iff_exists.1 (findSslError_isSome h)
  refine ⟨r, ?_, ?_, findSslError_isSome_iff hr⟩
  · intro fuel hfuel
    exact findSslError_mono hr hfuel
  · intro e he
    exact findSslError_sound (he ▸ hr)

end Loop

/-! ## An instance -/

/-- a `ConnectError` caused by another, whose context is an SSL error with the first one as its context -/
def handshake : Exceptions (Fin 3) :=
  ⟨fun e => if e = 0 then some 1 else none, fun e => if e = 0 then none else if e = 1 then some 2 else some 0,
    fun e => e == 2⟩

/-- the SSL error is found behind the two others, in a graph that comes back to where it begins -/
theorem find_ssl_error_handshake :
    Reachable handshake 2 0 ∧ ∃ r, (∀ fuel ≥ 8, findSslError handshake fuel 0 = some r) ∧ r = some 2 := by
  have hfin : {e | Reachable handshake 0 e}.Finite := Set.toFinite _
  obtain ⟨r, hr, hsound, hfound⟩ := find_ssl_error hfin
  have hcard : hfin.toFinset.card ≤ 3 := Finset.card_le_univ _
  have hcause : Link handshake 0 1 := .inl (by decide)
  have hcontext : Link handshake 1 2 := .inr (by decide)
  have hback : Link handshake 2 0 := .inr (by decide)
  have hpath : Reachable handshake 0 2 := .head hcause (.single hcontext)
  obtain ⟨e, he⟩ := Option.isSome_iff_exists.1 (hfound.2 ⟨2, hpath, by decide⟩)
  have hssl : handshake.isSSLError e = true := (hsound e he).1
  have he2 : e = 2 := by simpa [handshake] using hssl
  refine ⟨.single hback, r, ?_, ?_⟩
  · intro fuel hfuel
    exact hr fuel (by omega)
  · rw [he, he2]

end AioBotocore.Http.FindSslError
