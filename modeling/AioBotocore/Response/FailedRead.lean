/-
The httpx streaming body whose raw stream raises: what becomes of the bytes that had arrived. A read of some bytes keeps
them in the buffer. A read of all empties the buffer first and collects the chunks in a local list, which is gone when
the stream raises; and a `read()` that fails its content length check has counted the bytes that it does not return.

- `Reading`: a body with what its calls have returned.
- `Ledger`: what was returned and the buffer are what the raw stream has delivered, and `tell()` counts what was
  returned.
- `nothing_lost_iff`: the ledger is right after every call that returns, or raises what the stream raised, iff every
  call is `Safe`.
-/
import Mathlib.Tactic
import AioBotocore.Async.Run
import AioBotocore.Response.EndOfStream

namespace AioBotocore.Response

open Async Octets

namespace AioHttpxStreamingBody

/-! ## What the raw stream delivers -/

/-- the stream has come from `stream` to `stream'` and delivered `got` on the way -/
def Takes (stream : List Event) (got : Bytes) (stream' : List Event) : Prop :=
  ∃ used, stream = used ++ stream' ∧ undelivered used = got

theorem undelivered_append (a b : List Event) : undelivered (a ++ b) = undelivered a ++ undelivered b := by
  simp [undelivered]

theorem Takes.refl (stream : List Event) : Takes stream [] stream := ⟨[], rfl, rfl⟩

theorem Takes.trans {s t u : List Event} {a b : Bytes} (h : Takes s a t) (h' : Takes t b u) : Takes s (a ++ b) u := by
  obtain ⟨used, rfl, rfl⟩ := h
  obtain ⟨used', rfl, rfl⟩ := h'
  exact ⟨used ++ used', (List.append_assoc ..).symm, undelivered_append used used'⟩

theorem Takes.unique {s t : List Event} {a b : Bytes} (h : Takes s a t) (h' : Takes s b t) : a = b := by
  obtain ⟨used, hs, rfl⟩ := h
  obtain ⟨used', hs', rfl⟩ := h'
  rw [List.append_cancel_right (hs.symm.trans hs')]

theorem Takes.chunk (c : Bytes) {rest t : List Event} {a : Bytes} (h : Takes rest a t) :
    Takes (.chunk c :: rest) (c ++ a) t := by
  obtain ⟨used, rfl, rfl⟩ := h
  exact ⟨.chunk c :: used, rfl, rfl⟩

theorem takes_fillBuffer (url : String) (minBytes : ℕ) (buffer : Bytes) (exhausted : Bool) (stream : List Event) :
    let t := fillBuffer url minBytes buffer exhausted stream
    ∃ got, t.2.1 = buffer ++ got ∧ Takes stream got t.2.2.2 := by
  induction stream generalizing buffer with
  | nil => exact ⟨[], (List.append_nil _).symm, Takes.refl _⟩
  | cons e rest ih =>
    cases e with
    | chunk c =>
      simp only [fillBuffer]
      split_ifs
      · obtain ⟨got, hbuffer, htakes⟩ := ih (buffer ++ c)
        exact ⟨c ++ got, by rw [hbuffer, List.append_assoc], htakes.chunk c⟩
      · exact ⟨[], (List.append_nil _).symm, Takes.refl _⟩
    | raises e =>
      simp only [fillBuffer]
      split_ifs
      · exact ⟨[], (List.append_nil _).symm, [.raises e], rfl, rfl⟩
      · exact ⟨[], (List.append_nil _).symm, Takes.refl _⟩

/-- what the stream delivers before it raises -/
def arrived : List Event → Bytes
  | .chunk c :: rest => c ++ arrived rest
  | _ => []

theorem takes_readChunks (stream : List Event) :
    (∀ chunks, (readChunks stream).1 = .ok chunks → Takes stream chunks.flatten (readChunks stream).2) ∧
      ∀ e, (readChunks stream).1 = .error e → Takes stream (arrived stream) (readChunks stream).2 := by
  induction stream with
  | nil =>
    refine ⟨fun chunks h => ?_, fun e h => by cases h⟩
    obtain rfl := Except.ok.inj h
    exact Takes.refl _
  | cons ev rest ih =>
    cases ev with
    | raises e => exact ⟨fun chunks h => (by cases h), fun e' _ => ⟨[.raises e], rfl, rfl⟩⟩
    | chunk c =>
      simp only [readChunks, arrived]
      refine ⟨fun chunks h => ?_, fun e h => ?_⟩
      · obtain ⟨cs, hcs, rfl⟩ := map_ok h
        exact (ih.1 cs hcs).chunk c
      · refine Takes.chunk c (ih.2 e ?_)
        cases hr : (readChunks rest).1 with
        | error e' =>
          rw [hr] at h
          exact h
        | ok cs =>
          rw [hr] at h
          cases h

/-! ## The ledger -/

/-- whether the content length check of a call fails -/
def isIncomplete : Exn → Bool
  | .incompleteRead _ _ => true
  | _ => false

structure Reading where
  body : AioHttpxStreamingBody
  /-- what the calls have returned -/
  returned : Bytes
  /-- the last call raised `IncompleteReadError` -/
  incomplete : Bool

def Reading.new (url : String) (events : List Event) (contentLength : Option ℤ) : Reading :=
  ⟨AioHttpxStreamingBody.new url events contentLength, [], false⟩

def Reading.record (s : Reading) : Except Exn Bytes × AioHttpxStreamingBody → Reading
  | (.ok c, body) => ⟨body, s.returned ++ c, false⟩
  | (.error e, body) => ⟨body, s.returned, isIncomplete e⟩

def Reading.step (s : Reading) (c : Call) : Reading :=
  s.record ((call s.body c).1.map Reply.returned, (call s.body c).2)

structure Ledger (events : List Event) (s : Reading) : Prop where
  bytes : Takes events (s.returned ++ s.body.buffer) s.body.stream
  tell : s.body.tell = s.returned.length

/-- the ledger is right, unless the last call raised `IncompleteReadError` -/
def Kept (events : List Event) (s : Reading) : Prop := s.incomplete = false → Ledger events s

/-- the size that a call passes to the stream -/
def Call.amt : Call → Option ℤ
  | .read amt => amt
  | .readinto b => some b.length

/-- the last call raised `IncompleteReadError` with bytes in hand, which are counted and not returned -/
def Dropped (s : Reading) : Prop := s.incomplete = true ∧ s.body.tell ≠ s.returned.length

/-- A read of all does not meet an error of the raw stream while there is a byte in the buffer or in a chunk before the
error, and a call that checks nothing, of size zero or less, does not come after bytes were dropped. -/
def Safe (s : Reading) (c : Call) : Prop :=
  (c.wanted = none → ¬ Intact s.body.stream → s.body.buffer ++ arrived s.body.stream = []) ∧
    (atEnd c.amt [] = false → ¬ Dropped s)

/-! ## One call -/

theorem Reading.step_eq (s : Reading) (c : Call) : s.step c = s.record (s.body.read c.amt) := by
  have hread : ∀ amt, s.step (.read amt) = s.record (s.body.read amt) := by
    intro amt
    simp only [Reading.step, call]
    cases s.body.read amt with
    | mk res body => cases res <;> rfl
  cases c with
  | read amt => exact hread amt
  | readinto b =>
    have hinto : s.body.readinto b = _ := aioHttpxStreamingBody_into s.body b
    simp only [aioHttpxStreamingBody] at hinto
    simp only [Reading.step, call, hinto, Call.amt]
    cases s.body.read (some b.length) with
    | mk res body =>
      cases res with
      | error e => rfl
      | ok chunk =>
        simp only [Except.map, Reply.returned, filled_take]

/-- a `read()` has failed its check at the end of the stream: its bytes are counted and not returned, and every call
that checks will fail again -/
structure Withheld (s : Reading) : Prop where
  incomplete : s.incomplete = true
  buffer : s.body.buffer = []
  stream : s.body.stream = []
  short : ¬ LengthOk s.body.contentLength s.body.amountRead
  tell : s.body.tell ≠ s.returned.length

theorem verify_incomplete {contentLength : Option ℤ} {count : ℕ} {c : Bytes} {e : Exn}
    (h : ((verifyContentLength contentLength count).map fun _ => c) = .error e) : isIncomplete e = true := by
  unfold verifyContentLength at h
  split at h
  · cases h
  · split_ifs at h
    · obtain rfl := Except.error.inj h
      rfl
    · cases h

theorem convert_not_incomplete (url : String) (e : StreamExn) : isIncomplete (e.convert url) = false := by
  cases e <;> rfl

/-- bytes that are in hand are counted, checked and returned -/
theorem counted_ledger {events : List Event} {s : Reading} {amt : Option ℤ} {c : Bytes} {b : AioHttpxStreamingBody}
    (hbytes : Takes events (s.returned ++ (c ++ b.buffer)) b.stream) (htell : b.tell = s.returned.length)
    (hall : amt = none → b.buffer = [] ∧ b.stream = []) :
    Ledger events (s.record (counted amt (.ok c, b))) ∨ Withheld (s.record (counted amt (.ok c, b))) := by
  have hreturned : ∀ inc, Ledger events ⟨{ b with amountRead := b.amountRead + c.length }, s.returned ++ c, inc⟩ := by
    intro inc
    refine ⟨by rw [List.append_assoc]; exact hbytes, ?_⟩
    show b.amountRead + c.length = (s.returned ++ c).length
    rw [List.length_append, ← htell]
    rfl
  unfold counted
  simp only
  split_ifs with hat
  · cases hv : (verifyContentLength b.contentLength (b.amountRead + c.length)).map fun _ => c with
    | ok c' =>
      obtain rfl := (verify_ok hv).1
      exact .inl (hreturned false)
    | error e =>
      rcases eq_or_ne c [] with rfl | hc
      · -- nothing was in hand: the failed check loses nothing
        have h := hreturned (isIncomplete e)
        rw [List.append_nil] at h
        exact .inl h
      · have hamt : amt = none := by
          cases amt with
          | none => rfl
          | some n => simp [atEnd, hc] at hat
        obtain ⟨hbuffer, hstream⟩ := hall hamt
        refine .inr ⟨verify_incomplete hv, hbuffer, hstream, verify_error hv, ?_⟩
        show b.amountRead + c.length ≠ s.returned.length
        have hlen : 0 < c.length := List.length_pos_iff.2 hc
        have htell' : b.amountRead = s.returned.length := htell
        omega
  · exact .inl (hreturned false)

/-- a read of all that ends well has the buffer and the chunks in hand -/
theorem readAll_ledger {events : List Event} {s : Reading} (h : Ledger events s) {amt : Option ℤ}
    (hintact : Intact s.body.stream) :
    Ledger events (s.record (counted amt s.body.readAll)) ∨ Withheld (s.record (counted amt s.body.readAll)) := by
  obtain ⟨chunks, hchunks⟩ := (readChunks_ok_iff _).2 hintact
  have htakes := (takes_readChunks s.body.stream).1 chunks hchunks
  have hend := ((readChunks_spec s.body.stream).2 chunks hchunks).2
  cases hr : readChunks s.body.stream with
  | mk res stream =>
    rw [hr] at hchunks htakes hend
    simp only at hchunks hend
    subst hchunks hend
    have hbytes := h.bytes.trans htakes
    rw [List.append_assoc] at hbytes
    simp only [readAll, hr]
    refine counted_ledger ?_ h.tell fun _ => ⟨rfl, rfl⟩
    rw [List.append_nil]
    exact hbytes

/-- a read of all that meets an error of the raw stream keeps the ledger iff nothing had arrived -/
theorem readAll_loses {events : List Event} {s : Reading} (h : Ledger events s) {amt : Option ℤ}
    (hintact : ¬ Intact s.body.stream) :
    (s.record (counted amt s.body.readAll)).incomplete = false ∧
      (Ledger events (s.record (counted amt s.body.readAll)) ↔ s.body.buffer ++ arrived s.body.stream = []) := by
  have htakes := (takes_readChunks s.body.stream).2
  rw [← readChunks_ok_iff] at hintact
  cases hr : readChunks s.body.stream with
  | mk res stream =>
    rw [hr] at htakes hintact
    cases res with
    | ok chunks => exact absurd ⟨chunks, rfl⟩ hintact
    | error e =>
      have hdelivered := h.bytes.trans (htakes e rfl)
      simp only [readAll, hr, counted, Reading.record]
      refine ⟨convert_not_incomplete _ e, fun hl => ?_, fun hnil => ?_⟩
      · have hsame := hl.bytes.unique hdelivered
        simpa [List.append_assoc] using hsame
      · refine ⟨?_, h.tell⟩
        rw [List.append_assoc, hnil] at hdelivered
        exact hdelivered

/-- a read of some bytes keeps what it does not return in the buffer, also when the raw stream raises -/
theorem readSome_ledger {events : List Event} {s : Reading} (h : Ledger events s) {n : ℤ} (m : ℕ) :
    Ledger events (s.record (counted (some n) (s.body.readSome m))) ∨
      Withheld (s.record (counted (some n) (s.body.readSome m))) := by
  obtain ⟨got, hbuffer, htakes⟩ := takes_fillBuffer s.body.url m s.body.buffer s.body.streamExhausted s.body.stream
  cases hr : fillBuffer s.body.url m s.body.buffer s.body.streamExhausted s.body.stream with
  | mk res t =>
    obtain ⟨buffer, exhausted, stream⟩ := t
    rw [hr] at hbuffer htakes
    simp only at hbuffer
    subst hbuffer
    have hbytes := h.bytes.trans htakes
    rw [List.append_assoc] at hbytes
    simp only [readSome, fill, hr]
    cases res with
    | error e => exact .inl ⟨hbytes, h.tell⟩
    | ok u =>
      refine counted_ledger ?_ h.tell (by simp)
      rw [List.take_append_drop]
      exact hbytes

theorem readZero_ledger {events : List Event} {s : Reading} (h : Ledger events s) :
    Ledger events (s.record (s.body.read (some 0))) := by
  have hzero : s.body.read (some 0) = (.ok [], s.body) := by simp [read]
  rw [hzero]
  refine ⟨?_, ?_⟩
  · show Takes events (s.returned ++ [] ++ s.body.buffer) s.body.stream
    rw [List.append_nil]
    exact h.bytes
  · show s.body.tell = (s.returned ++ []).length
    rw [List.append_nil]
    exact h.tell

/-- once bytes are withheld there is nothing more to read -/
theorem Withheld.read {s : Reading} (h : Withheld s) (amt : Option ℤ) :
    ∃ exhausted, s.body.read amt = counted amt (.ok [], { s.body with streamExhausted := exhausted }) := by
  obtain ⟨⟨url, stream, buffer, exhausted, amountRead, contentLength⟩, returned, incomplete⟩ := s
  obtain rfl : buffer = [] := h.buffer
  obtain rfl : stream = [] := h.stream
  have hall : AioHttpxStreamingBody.readAll ⟨url, [], [], exhausted, amountRead, contentLength⟩ =
      (.ok [], ⟨url, [], [], true, amountRead, contentLength⟩) := rfl
  cases amt with
  | none => exact ⟨true, by rw [AioHttpxStreamingBody.read, hall]⟩
  | some n =>
    simp only [AioHttpxStreamingBody.read]
    split_ifs with hneg hzero
    · exact ⟨true, by rw [hall]⟩
    · refine ⟨exhausted, ?_⟩
      subst hzero
      rfl
    · have hsome : AioHttpxStreamingBody.readSome ⟨url, [], [], exhausted, amountRead, contentLength⟩ n.toNat =
          (.ok [], ⟨url, [], [], exhausted || decide (0 < n.toNat), amountRead, contentLength⟩) := by
        simp [readSome, fill, fillBuffer]
      exact ⟨_, by rw [hsome]⟩

/-- then a call that checks fails again, and one that does not returns although bytes are missing -/
theorem Withheld.record {s : Reading} (h : Withheld s) (amt : Option ℤ) :
    (atEnd amt [] = true → Withheld (s.record (s.body.read amt))) ∧
      (atEnd amt [] = false → ∀ events, ¬ Kept events (s.record (s.body.read amt))) := by
  obtain ⟨exhausted, hread⟩ := h.read amt
  rw [hread]
  constructor
  · intro hat
    simp only [counted, hat, if_true, List.length_nil, Nat.add_zero]
    cases hv : (verifyContentLength s.body.contentLength s.body.amountRead).map fun _ => ([] : Bytes) with
    | ok c => exact absurd (verify_ok hv).2 h.short
    | error e => exact ⟨verify_incomplete hv, h.buffer, h.stream, h.short, h.tell⟩
  · intro hat events hkept
    simp only [counted, hat] at hkept
    have htell : s.body.tell = (s.returned ++ []).length := (hkept rfl).tell
    rw [List.append_nil] at htell
    exact h.tell htell

/-- the three branches of `read` -/
theorem Call.branches (c : Call) :
    (c.wanted = none ∧ ∀ b : AioHttpxStreamingBody, b.read c.amt = counted c.amt b.readAll) ∨
      c.wanted ≠ none ∧ (c.amt = some 0 ∨
        ∃ n m, c.amt = some n ∧ ∀ b : AioHttpxStreamingBody, b.read c.amt = counted (some n) (b.readSome m)) := by
  have hsome : ∀ n : ℤ, ¬ n < 0 → n ≠ 0 → ∀ b : AioHttpxStreamingBody,
      b.read (some n) = counted (some n) (b.readSome n.toNat) := by
    intro n hneg hzero b
    simp only [AioHttpxStreamingBody.read, hneg, hzero, if_false]
  cases c with
  | read amt =>
    cases amt with
    | none => exact .inl ⟨rfl, fun b => rfl⟩
    | some n =>
      simp only [Call.wanted, Call.amt]
      by_cases hneg : n < 0
      · exact .inl ⟨by rw [if_pos hneg], fun b => by simp only [AioHttpxStreamingBody.read, hneg, if_true]⟩
      · rw [if_neg hneg]
        refine .inr ⟨by simp, ?_⟩
        rcases eq_or_ne n 0 with rfl | hzero
        · exact .inl rfl
        · exact .inr ⟨n, n.toNat, rfl, hsome n hneg hzero⟩
  | readinto b =>
    refine .inr ⟨by simp [Call.wanted], ?_⟩
    simp only [Call.amt]
    rcases Nat.eq_zero_or_pos b.length with hzero | hpos
    · exact .inl (by rw [hzero]; rfl)
    · exact .inr ⟨_, _, rfl, hsome b.length (by omega) (by omega)⟩

/-- the invariant of the runs whose calls are safe -/
def Books (events : List Event) (s : Reading) : Prop := Ledger events s ∨ Withheld s

theorem Books.kept {events : List Event} {s : Reading} (h : Books events s) : Kept events s := by
  intro hs
  rcases h with h | h
  · exact h
  · rw [h.incomplete] at hs
    cases hs

theorem step_books {events : List Event} (s : Reading) (c : Call) (h : Books events s) (hsafe : Safe s c) :
    Books events (s.step c) := by
  obtain ⟨hloses, hchecks⟩ := hsafe
  rw [Reading.step_eq]
  rcases h with h | h
  · rcases c.branches with ⟨hall, hread⟩ | ⟨-, hzero | ⟨n, m, -, hread⟩⟩
    · rw [hread]
      by_cases hintact : Intact s.body.stream
      · exact readAll_ledger h hintact
      · exact .inl ((readAll_loses h hintact).2.2 (hloses hall hintact))
    · rw [hzero]
      exact .inl (readZero_ledger h)
    · rw [hread]
      exact readSome_ledger h m
  · cases hat : atEnd c.amt [] with
    | true => exact .inr ((h.record c.amt).1 hat)
    | false => exact absurd ⟨h.incomplete, h.tell⟩ (hchecks hat)

theorem step_not_safe {events : List Event} (s : Reading) (c : Call) (h : Books events s) (hnot : ¬ Safe s c) :
    ¬ Kept events (s.step c) := by
  rw [Reading.step_eq]
  rcases h with h | h
  · have hloses : ¬ (c.wanted = none → ¬ Intact s.body.stream → s.body.buffer ++ arrived s.body.stream = []) :=
      fun hno => hnot ⟨hno, fun _ hdropped => hdropped.2 h.tell⟩
    simp only [Classical.not_imp] at hloses
    obtain ⟨hall, hintact, hbytes⟩ := hloses
    rcases c.branches with ⟨-, hread⟩ | ⟨hsome, -⟩
    · rw [hread]
      intro hkept
      obtain ⟨hinc, hledger⟩ := readAll_loses h hintact
      exact hbytes (hledger.1 (hkept hinc))
    · exact absurd hall hsome
  · refine (h.record c.amt).2 ?_ events
    by_contra hat
    refine hnot ⟨fun _ hintact => ?_, fun hfalse => absurd hfalse hat⟩
    rw [h.stream] at hintact
    exact absurd (fun e he => absurd he List.not_mem_nil) hintact

/-- **What a failed call loses.** For every raw stream and every list of calls: after every call that has returned or
raised what the stream raised, the bytes returned and the buffer are what the stream has delivered and `tell()` counts
the bytes returned, iff every call is safe. -/
theorem nothing_lost_iff (url : String) (events : List Event) (contentLength : Option ℤ) (calls : List Call) :
    (∀ n, Kept events (run Reading.step (Reading.new url events contentLength) (calls.take n))) ↔
      Along Reading.step Safe (Reading.new url events contentLength) calls := by
  have hnew : Ledger events (Reading.new url events contentLength) := ⟨Takes.refl _, rfl⟩
  exact forall_take_iff step_books (fun _ => Books.kept) step_not_safe (.inl hnew) calls

/-- the connection fails after a chunk: `read(64)` keeps it in the buffer, `read()` drops it -/
theorem failed_read_all_loses_chunk :
    let events := [Event.chunk [104, 105], .raises (.readTimeout "timed out")]
    let bounded := run Reading.step (Reading.new "" events none) [.read (some 64)]
    let all := run Reading.step (Reading.new "" events none) [.read none]
    (bounded.returned, bounded.body.buffer, bounded.body.stream) = ([], [104, 105], []) ∧
    (all.returned, all.body.buffer, all.body.stream) = ([], [], []) ∧ undelivered events = [104, 105] ∧
    ¬ Kept events all := by
  refine ⟨rfl, rfl, rfl, fun hkept => ?_⟩
  obtain ⟨used, hused, hbytes⟩ := (hkept rfl).bytes
  change [Event.chunk [104, 105], .raises (.readTimeout "timed out")] = used ++ [] at hused
  rw [List.append_nil] at hused
  subst hused
  cases hbytes

end AioHttpxStreamingBody

end AioBotocore.Response
