/-
A read of negative size. The four bodies read all for it, as `read()` does, but what they check at the end of the stream
is checked for `amt is None` or a positive size only.

- `SkipsCheck`: a class of bodies for which a read of size `n` is `read()` without a check. Its two reads are the same
  iff the check passes (`SkipsCheck.same_iff`); the mixin keeps such a class one, with its own check added.
- `negative_read_iff`: for each of the four bodies, when a negative read is `read()`.
-/
import Mathlib.Tactic
import AioBotocore.Response.EndOfStream

namespace AioBotocore.Response

open Octets

theorem atEnd_negative {n : ℤ} (hn : n < 0) (chunk : Bytes) : atEnd (some n) chunk = false := by
  have hpos : ¬ 0 < n := by omega
  simp [atEnd, hpos]

/-- a check that passes only where `P` holds and fails only where it does not -/
theorem check_cases {check : Except Exn Unit} {P : Prop} {c : Bytes}
    (hok : ∀ c', (check.map fun _ => c) = .ok c' → c = c' ∧ P) (herror : ∀ e, (check.map fun _ => c) = .error e → ¬ P) :
    (P → (check.map fun _ => c) = .ok c) ∧ (¬ P → ∃ e, (check.map fun _ => c) = .error e) := by
  cases hr : check.map fun _ => c with
  | ok c' =>
    obtain ⟨rfl, hp⟩ := hok c' hr
    exact ⟨fun _ => rfl, fun hnot => absurd hp hnot⟩
  | error e => exact ⟨fun hp => absurd hp (herror e hr), fun _ => ⟨e, rfl⟩⟩

theorem verify_cases (contentLength : Option ℤ) (count : ℕ) (c : Bytes) :
    (LengthOk contentLength count → ((verifyContentLength contentLength count).map fun _ => c) = .ok c) ∧
      (¬ LengthOk contentLength count → ∃ e, ((verifyContentLength contentLength count).map fun _ => c) = .error e) :=
  check_cases (fun _ => verify_ok) fun _ => verify_error

theorem validate_cases {β : Type*} (digest : Bytes → Bytes) (s : ChecksumBody β) (c : Bytes) :
    (DigestOk digest s.expected s.updated → ((s.validateChecksum digest).map fun _ => c) = .ok c) ∧
      (¬ DigestOk digest s.expected s.updated → ∃ e, ((s.validateChecksum digest).map fun _ => c) = .error e) :=
  check_cases (fun _ => validate_ok) fun _ => validate_error

/-! ## A read without a check -/

variable {β : Type*}

/-- a read of size `n` reads all, and `read()` then checks the body as well -/
structure SkipsCheck (C : BodyClass β) (n : ℤ) (Ok : β → Prop) : Prop where
  error : ∀ b e, (C.read b (some n)).1 = .error e → C.read b none = C.read b (some n)
  good : ∀ b c, (C.read b (some n)).1 = .ok c → Ok (C.read b (some n)).2 → C.read b none = C.read b (some n)
  bad : ∀ b c, (C.read b (some n)).1 = .ok c → ¬ Ok (C.read b (some n)).2 → ∃ e, (C.read b none).1 = .error e

theorem SkipsCheck.same_iff {C : BodyClass β} {n : ℤ} {Ok : β → Prop} (h : SkipsCheck C n Ok) (b : β) :
    C.read b (some n) = C.read b none ↔ ∀ c, (C.read b (some n)).1 = .ok c → Ok (C.read b (some n)).2 := by
  constructor
  · intro hsame c hc
    by_contra hbad
    obtain ⟨e, he⟩ := h.bad b c hc hbad
    rw [← hsame, hc] at he
    cases he
  · intro hok
    cases hr : (C.read b (some n)).1 with
    | error e => exact (h.error b e hr).symm
    | ok c => exact (h.good b c hr (hok c hr)).symm

/-! ## The four bodies -/

/-- what a read has given, with the content length verified on the body it has left -/
def verified (V : View β) (r : Except Exn Bytes × β) : Except Exn Bytes × β :=
  (r.1.bind fun c => (verifyContentLength (V.contentLength r.2) (V.amountRead r.2)).map fun _ => c, r.2)

theorem skipsCheck_of_verified {C : BodyClass β} {n : ℤ} (V : View β)
    (h : ∀ b, C.read b none = verified V (C.read b (some n))) :
    SkipsCheck C n fun b => LengthOk (V.contentLength b) (V.amountRead b) where
  error b e he := by
    rw [h]
    refine Prod.ext ?_ rfl
    simp only [verified, he]
    rfl
  good b c hc hok := by
    rw [h]
    refine Prod.ext ?_ rfl
    simp only [verified, hc]
    exact (verify_cases _ _ c).1 hok
  bad b c hc hbad := by
    rw [h]
    simp only [verified, hc]
    exact (verify_cases _ _ c).2 hbad

theorem aioStreamingBody_skipsCheck {ρ : Type*} {R : StreamReader ρ} {n : ℤ} (hn : n < 0)
    (hR : ∀ r, R.read r n = R.read r (-1)) :
    SkipsCheck (aioStreamingBody R) n fun s => LengthOk s.contentLength s.amountRead := by
  refine skipsCheck_of_verified (aiohttpView R) fun s => ?_
  simp only [aioStreamingBody, AioStreamingBody.read, Option.getD_some, Option.getD_none, hR, atEnd_negative hn]
  cases R.read s.content (-1) with
  | mk res content => cases res <;> rfl

theorem counted_verified {n : ℤ} (hn : n < 0) (r : Except Exn Bytes × AioHttpxStreamingBody) :
    AioHttpxStreamingBody.counted none r = verified httpxView (AioHttpxStreamingBody.counted (some n) r) := by
  obtain ⟨res, t⟩ := r
  cases res with
  | error e => rfl
  | ok chunk =>
    simp only [AioHttpxStreamingBody.counted, atEnd_negative hn]
    rfl

theorem aioHttpxStreamingBody_skipsCheck {n : ℤ} (hn : n < 0) :
    SkipsCheck aioHttpxStreamingBody n fun s => LengthOk s.contentLength s.amountRead := by
  refine skipsCheck_of_verified httpxView fun s => ?_
  simp only [aioHttpxStreamingBody, AioHttpxStreamingBody.read, hn, if_true]
  exact counted_verified hn s.readAll

theorem ChecksumBody.negative_of_ok {C : BodyClass β} {n : ℤ} (hn : n < 0) (digest : Bytes → Bytes) {s : ChecksumBody β}
    {c : Bytes} (h : (ChecksumBody.read digest C s (some n)).1 = .ok c) :
    ∃ body, C.read s.body (some n) = (.ok c, body) ∧
      ChecksumBody.read digest C s (some n) = (.ok c, ⟨body, s.updated ++ c, s.expected⟩) := by
  cases hr : C.read s.body (some n) with
  | mk res body =>
    cases res with
    | error e =>
      rw [ChecksumBody.read_of_error digest hr] at h
      cases h
    | ok chunk =>
      rw [ChecksumBody.read_of_ok digest hr] at h ⊢
      simp only [atEnd_negative hn, Bool.false_eq_true, if_false] at h ⊢
      obtain rfl := Except.ok.inj h
      exact ⟨body, rfl, rfl⟩

theorem ChecksumBody.negative_of_error {C : BodyClass β} {n : ℤ} (hn : n < 0) (digest : Bytes → Bytes)
    {s : ChecksumBody β} {e : Exn} (h : (ChecksumBody.read digest C s (some n)).1 = .error e) :
    ∃ body, C.read s.body (some n) = (.error e, body) ∧
      ChecksumBody.read digest C s (some n) = (.error e, { s with body := body }) := by
  cases hr : C.read s.body (some n) with
  | mk res body =>
    cases res with
    | error e' =>
      rw [ChecksumBody.read_of_error digest hr] at h ⊢
      obtain rfl := Except.error.inj h
      exact ⟨body, rfl, rfl⟩
    | ok chunk =>
      rw [ChecksumBody.read_of_ok digest hr] at h
      simp only [atEnd_negative hn] at h
      cases h

/-- the mixin skips the check of the digest as well -/
theorem checksumMixin_skipsCheck {C : BodyClass β} {n : ℤ} {Ok : β → Prop} (hn : n < 0) (h : SkipsCheck C n Ok)
    (digest : Bytes → Bytes) :
    SkipsCheck (checksumMixin digest C) n fun s => Ok s.body ∧ DigestOk digest s.expected s.updated where
  error s e he := by
    obtain ⟨body, hr, hread⟩ := ChecksumBody.negative_of_error hn digest he
    have hnone : C.read s.body none = (.error e, body) := (h.error s.body e (by rw [hr])).trans hr
    show ChecksumBody.read digest C s none = ChecksumBody.read digest C s (some n)
    rw [hread, ChecksumBody.read_of_error digest hnone]
  good s c hc hok := by
    obtain ⟨body, hr, hread⟩ := ChecksumBody.negative_of_ok hn digest hc
    change Ok (ChecksumBody.read digest C s (some n)).2.body ∧ _ at hok
    rw [show (checksumMixin digest C).read = ChecksumBody.read digest C from rfl, hread] at hok
    have hnone : C.read s.body none = (.ok c, body) :=
      (h.good s.body c (by rw [hr]) (by rw [hr]; exact hok.1)).trans hr
    show ChecksumBody.read digest C s none = ChecksumBody.read digest C s (some n)
    rw [hread, ChecksumBody.read_of_ok digest hnone]
    exact Prod.ext ((validate_cases digest _ c).1 hok.2) rfl
  bad s c hc hbad := by
    obtain ⟨body, hr, hread⟩ := ChecksumBody.negative_of_ok hn digest hc
    rw [show (checksumMixin digest C).read = ChecksumBody.read digest C from rfl, hread] at hbad
    show ∃ e, (ChecksumBody.read digest C s none).1 = .error e
    by_cases hok : Ok body
    · -- the digest is wrong
      have hnone : C.read s.body none = (.ok c, body) :=
        (h.good s.body c (by rw [hr]) (by rw [hr]; exact hok)).trans hr
      rw [ChecksumBody.read_of_ok digest hnone]
      exact (validate_cases digest _ c).2 fun hd => hbad ⟨hok, hd⟩
    · -- the body has raised before the mixin looks at the digest
      obtain ⟨e, he⟩ := h.bad s.body c (by rw [hr]) (by rw [hr]; exact hok)
      rw [ChecksumBody.read_of_error (b := (C.read s.body none).2) digest (Prod.ext he rfl)]
      exact ⟨e, rfl⟩

/-! ## When a negative read is `read()` -/

/-- what a successful negative read takes from the raw stream, `Raw b c`, and what it counts -/
structure TakesRaw (C : BodyClass β) (n : ℤ) (V : View β) (Raw : β → Bytes → Prop) : Prop where
  ok : ∀ b c, (C.read b (some n)).1 = .ok c ↔ Raw b c
  contentLength : ∀ b c, Raw b c → V.contentLength (C.read b (some n)).2 = V.contentLength b
  amountRead : ∀ b c, Raw b c → V.amountRead (C.read b (some n)).2 = V.amountRead b + c.length

theorem TakesRaw.same_iff {C : BodyClass β} {n : ℤ} {V : View β} {Raw : β → Bytes → Prop} (hraw : TakesRaw C n V Raw)
    (h : SkipsCheck C n fun b => LengthOk (V.contentLength b) (V.amountRead b)) (b : β) :
    C.read b (some n) = C.read b none ↔ ∀ c, Raw b c → LengthOk (V.contentLength b) (V.amountRead b + c.length) := by
  rw [h.same_iff]
  refine forall_congr' fun c => ?_
  rw [hraw.ok]
  refine forall_congr' fun hc => ?_
  rw [hraw.contentLength b c hc, hraw.amountRead b c hc]

theorem TakesRaw.mixin_same_iff {C : BodyClass β} {n : ℤ} (hn : n < 0) {V : View β} {Raw : β → Bytes → Prop}
    (hraw : TakesRaw C n V Raw) (h : SkipsCheck C n fun b => LengthOk (V.contentLength b) (V.amountRead b))
    (digest : Bytes → Bytes) (s : ChecksumBody β) :
    ChecksumBody.read digest C s (some n) = ChecksumBody.read digest C s none ↔
      ∀ c, Raw s.body c → LengthOk (V.contentLength s.body) (V.amountRead s.body + c.length) ∧
        DigestOk digest s.expected (s.updated ++ c) := by
  refine ((checksumMixin_skipsCheck hn h digest).same_iff s).trans (forall_congr' fun c => ?_)
  show ((ChecksumBody.read digest C s (some n)).1 = .ok c → LengthOk _ _ ∧ DigestOk digest _ _) ↔ _
  constructor
  · intro hall hc
    have hr : C.read s.body (some n) = (.ok c, (C.read s.body (some n)).2) := Prod.ext ((hraw.ok s.body c).2 hc) rfl
    have hread := ChecksumBody.read_of_ok digest hr
    simp only [atEnd_negative hn, Bool.false_eq_true, if_false] at hread
    have hok := hall (by rw [hread])
    rw [show (checksumMixin digest C).read = ChecksumBody.read digest C from rfl, hread] at hok
    simpa only [hraw.contentLength s.body c hc, hraw.amountRead s.body c hc] using hok
  · intro hall hok
    obtain ⟨body, hr, hread⟩ := ChecksumBody.negative_of_ok hn digest hok
    have hc : Raw s.body c := (hraw.ok s.body c).1 (by rw [hr])
    have hlen := hraw.contentLength s.body c hc
    have hamount := hraw.amountRead s.body c hc
    rw [hr] at hlen hamount
    rw [show (checksumMixin digest C).read = ChecksumBody.read digest C from rfl, hread]
    simpa only [hlen, hamount] using hall hc

theorem aioStreamingBody_takesRaw {ρ : Type*} {R : StreamReader ρ} {n : ℤ} (hn : n < 0)
    (hR : ∀ r, R.read r n = R.read r (-1)) :
    TakesRaw (aioStreamingBody R) n (aiohttpView R) fun s c => (R.read s.content (-1)).1 = .ok c := by
  have hok : ∀ (s : AioStreamingBody ρ) c, (s.read R (some n)).1 = .ok c ↔ (R.read s.content (-1)).1 = .ok c := by
    intro s c
    simp only [AioStreamingBody.read, Option.getD_some, hR, atEnd_negative hn]
    cases R.read s.content (-1) with
    | mk res content => cases res <;> simp
  refine ⟨hok, fun s c _ => (aioStreamingBody_counts R s (some n)).contentLength, fun s c hc => ?_⟩
  exact ((aioStreamingBody_counts R s (some n)).ok c ((hok s c).2 hc)).1

theorem readAll_ok_iff (s : AioHttpxStreamingBody) (c : Bytes) :
    s.readAll.1 = .ok c ↔ Intact s.stream ∧ c = s.rest := by
  rw [← AioHttpxStreamingBody.readChunks_ok_iff]
  obtain ⟨-, hspec⟩ := AioHttpxStreamingBody.readChunks_spec s.stream
  cases hr : readChunks s.stream with
  | mk res stream =>
    rw [hr] at hspec
    cases res with
    | error e => simp [AioHttpxStreamingBody.readAll, hr]
    | ok chunks =>
      have hall : chunks.flatten = undelivered s.stream := (hspec chunks rfl).1
      simp [AioHttpxStreamingBody.readAll, hr, hall, AioHttpxStreamingBody.rest, eq_comm]

theorem counted_negative {n : ℤ} (hn : n < 0) (r : Except Exn Bytes × AioHttpxStreamingBody) :
    (AioHttpxStreamingBody.counted (some n) r).1 = r.1 ∧
      (AioHttpxStreamingBody.counted (some n) r).2.contentLength = r.2.contentLength ∧
      ∀ c, r.1 = .ok c → (AioHttpxStreamingBody.counted (some n) r).2.amountRead = r.2.amountRead + c.length := by
  obtain ⟨res, t⟩ := r
  cases res with
  | error e => exact ⟨rfl, rfl, fun c hc => by cases hc⟩
  | ok chunk =>
    simp only [AioHttpxStreamingBody.counted, atEnd_negative hn, Bool.false_eq_true, if_false]
    refine ⟨trivial, trivial, fun c hc => ?_⟩
    rw [Except.ok.inj hc]

theorem readAll_counts (s : AioHttpxStreamingBody) :
    s.readAll.2.amountRead = s.amountRead ∧ s.readAll.2.contentLength = s.contentLength := by
  cases hr : readChunks s.stream with
  | mk res stream => cases res <;> simp only [AioHttpxStreamingBody.readAll, hr, and_self]

theorem aioHttpxStreamingBody_takesRaw {n : ℤ} (hn : n < 0) :
    TakesRaw aioHttpxStreamingBody n httpxView fun s c => Intact s.stream ∧ c = s.rest := by
  have hread : ∀ s : AioHttpxStreamingBody, s.read (some n) = AioHttpxStreamingBody.counted (some n) s.readAll := by
    intro s
    simp only [AioHttpxStreamingBody.read, hn, if_true]
  refine ⟨fun s c => ?_, fun s c _ => ?_, fun s c hc => ?_⟩
  · show (s.read (some n)).1 = .ok c ↔ _
    rw [hread, (counted_negative hn _).1, readAll_ok_iff]
  · show (s.read (some n)).2.contentLength = s.contentLength
    rw [hread, (counted_negative hn _).2.1, (readAll_counts s).2]
  · show (s.read (some n)).2.amountRead = s.amountRead + c.length
    rw [hread, (counted_negative hn _).2.2 c ((readAll_ok_iff s c).2 hc), (readAll_counts s).1]

/-- **A negative read is `read()` where the end checks pass.** For each of the four bodies, in every state and so after
any calls: `read(n)` with a negative `n` gives and leaves what `read()` does iff the raw stream raises before its end,
or the bytes counted agree with the content length and, with a checksum, the digest is the expected one. -/
theorem negative_read_iff {ρ : Type*} (R : StreamReader ρ) (hR : ∀ r n, n < 0 → R.read r n = R.read r (-1))
    (digest : Bytes → Bytes) {n : ℤ} (hn : n < 0) :
    (∀ s : AioStreamingBody ρ, s.read R (some n) = s.read R none ↔
      ∀ c, (R.read s.content (-1)).1 = .ok c → LengthOk s.contentLength (s.amountRead + c.length)) ∧
    (∀ s : AioHttpxStreamingBody, s.read (some n) = s.read none ↔
      (Intact s.stream → LengthOk s.contentLength (s.amountRead + s.rest.length))) ∧
    (∀ s : ChecksumBody (AioStreamingBody ρ),
      s.read digest (aioStreamingBody R) (some n) = s.read digest (aioStreamingBody R) none ↔
      ∀ c, (R.read s.body.content (-1)).1 = .ok c →
        LengthOk s.body.contentLength (s.body.amountRead + c.length) ∧ DigestOk digest s.expected (s.updated ++ c)) ∧
    ∀ s : ChecksumBody AioHttpxStreamingBody,
      s.read digest aioHttpxStreamingBody (some n) = s.read digest aioHttpxStreamingBody none ↔
      (Intact s.body.stream → LengthOk s.body.contentLength (s.body.amountRead + s.body.rest.length) ∧
        DigestOk digest s.expected (s.updated ++ s.body.rest)) := by
  have hraw := aioStreamingBody_takesRaw hn fun r => hR r n hn
  have hskip := aioStreamingBody_skipsCheck hn fun r => hR r n hn
  have hraw' := aioHttpxStreamingBody_takesRaw hn
  have hskip' := aioHttpxStreamingBody_skipsCheck hn
  refine ⟨fun s => hraw.same_iff hskip s, fun s => (hraw'.same_iff hskip' s).trans ?_,
    fun s => hraw.mixin_same_iff hn hskip digest s, fun s => (hraw'.mixin_same_iff hn hskip' digest s).trans ?_⟩
  · exact ⟨fun h hi => h _ ⟨hi, rfl⟩, by rintro h c ⟨hi, rfl⟩; exact h hi⟩
  · exact ⟨fun h hi => h _ ⟨hi, rfl⟩, by rintro h c ⟨hi, rfl⟩; exact h hi⟩

theorem negative_read_iff_three :
    threeBytes.read id (aioStreamingBody eventReader) (some (-5)) =
      threeBytes.read id (aioStreamingBody eventReader) none := by
  have hR : ∀ r n, n < 0 → eventReader.read r n = eventReader.read r (-1) := by
    intro r n hn
    simp [eventReader, readEvents, hn, hn.ne]
  refine ((negative_read_iff eventReader hR id (by decide)).2.2.1 threeBytes).2 fun c hc => ?_
  obtain rfl : [1, 2, 3] = c := Except.ok.inj hc
  have hlength : LengthOk threeBytes.body.contentLength (threeBytes.body.amountRead + 3) := by
    intro n hn
    exact Option.some.inj hn
  have hdigest : b64decode "AQID" = some [1, 2, 3] := by decide
  exact ⟨hlength, hdigest⟩

/-- `read()` raises for a body that is cut off, or has a wrong digest, where `read(-1)` returns the bytes -/
theorem negative_read_unchecked :
    let cut := AioHttpxStreamingBody.new "" [.chunk [1, 2]] (some 3)
    let wrong := ChecksumBody.new (AioStreamingBody.new "" [.chunk [7, 8, 9]] (some 3)) "AQID"
    (cut.read none).1 = .error (.incompleteRead 2 3) ∧ (cut.read (some (-1))).1 = .ok [1, 2] ∧
    (wrong.read id (aioStreamingBody eventReader) none).1 ≠ .ok [7, 8, 9] ∧
    (wrong.read id (aioStreamingBody eventReader) (some (-1))).1 = .ok [7, 8, 9] := by
  decide

end AioBotocore.Response
