/-
No streaming body reports the end of a truncated or corrupted stream. Over the four classes, any calls and any
iterators, mixed in any order.

- `Guarded`: a class of bodies that checks, wherever it reports the end, what it has returned. The check may run again
  later: after the end no read gives a byte, and what made a check fail is still there.
- `aioStreamingBody_guarded`, `aioHttpxStreamingBody_guarded`: the two bodies check the count against the content
  length.
- `checksumMixin_guarded`: the mixin adds the digest.
- `Guarded.ends_verified`: calls and iterators over a guarded class.
- `end_of_stream_verified`: the four classes.
-/
import Mathlib.Tactic
import AioBotocore.Async.Run
import AioBotocore.Response.ByteQueue

namespace AioBotocore.Response

open Async Octets

/-! ## Guarded classes -/

/-- A class that reports the end of the stream only when the bytes returned are `Complete`. `Inv` relates a body to the
bytes its reads have returned. -/
structure Guarded {β : Type*} (C : BodyClass β) (Complete : Bytes → Prop) where
  Inv : β → Bytes → Prop
  Eof : β → Prop
  into : IntoIsRead C
  ok : ∀ b ret amt c, Inv b ret → (C.read b amt).1 = .ok c → Inv (C.read b amt).2 (ret ++ c) ∧
    (Eof b → c = []) ∧ (atEnd amt c = true → Complete (ret ++ c) ∧ Eof (C.read b amt).2)
  error : ∀ b ret amt e, Inv b ret → (C.read b amt).1 = .error e → Inv (C.read b amt).2 ret
  stays : ∀ b ret amt, Inv b ret → Eof b → Eof (C.read b amt).2

/-! ## The content length -/

/-- the count agrees with the content length, if that is known -/
def LengthOk (contentLength : Option ℤ) (count : ℕ) : Prop := ∀ n, contentLength = some n → (count : ℤ) = n

theorem verify_ok {contentLength : Option ℤ} {count : ℕ} {c c' : Bytes}
    (h : ((verifyContentLength contentLength count).map fun _ => c) = .ok c') : c = c' ∧ LengthOk contentLength count := by
  obtain ⟨_, hv, rfl⟩ := map_ok h
  refine ⟨rfl, ?_⟩
  rintro n rfl
  simp only [verifyContentLength] at hv
  split_ifs at hv with hne
  exact not_not.1 hne

theorem verify_error {contentLength : Option ℤ} {count : ℕ} {c : Bytes} {e : Exn}
    (h : ((verifyContentLength contentLength count).map fun _ => c) = .error e) : ¬ LengthOk contentLength count := by
  intro hok
  cases contentLength with
  | none => cases h
  | some n =>
    simp only [verifyContentLength, ne_eq, hok n rfl, not_true_eq_false, if_false] at h
    cases h

/-- what the content length check needs to see of a body -/
structure View (β : Type*) where
  contentLength : β → Option ℤ
  amountRead : β → ℕ
  Eof : β → Prop
  Valid : β → Prop

/-- a read of a body that counts what it returns: only a failed check counts bytes that are not returned, and then the
stream has ended and the count is wrong -/
structure Counts {β : Type*} (V : View β) (b : β) (amt : Option ℤ) (res : Except Exn Bytes) (b' : β) : Prop where
  valid : V.Valid b'
  contentLength : V.contentLength b' = V.contentLength b
  stays : V.Eof b → V.Eof b'
  ok : ∀ c, res = .ok c → V.amountRead b' = V.amountRead b + c.length ∧ (V.Eof b → c = []) ∧
    (atEnd amt c = true → V.Eof b' ∧ LengthOk (V.contentLength b') (V.amountRead b'))
  error : ∀ e, res = .error e → V.amountRead b' = V.amountRead b ∨
    V.Eof b' ∧ ¬ LengthOk (V.contentLength b') (V.amountRead b')

/-- the count is that of the bytes returned, or the stream has ended with a wrong one -/
def View.Sound {β : Type*} (V : View β) (contentLength : Option ℤ) (b : β) (ret : Bytes) : Prop :=
  V.contentLength b = contentLength ∧
    (V.amountRead b = ret.length ∨ V.Eof b ∧ ¬ LengthOk contentLength (V.amountRead b))

variable {β : Type*} {V : View β} {contentLength : Option ℤ} {b b' : β} {ret : Bytes} {amt : Option ℤ}
  {res : Except Exn Bytes}

theorem Counts.sound_ok (h : Counts V b amt res b') (hs : V.Sound contentLength b ret) {c : Bytes} (hc : res = .ok c) :
    V.Sound contentLength b' (ret ++ c) ∧ (atEnd amt c = true → LengthOk contentLength (ret ++ c).length) := by
  obtain ⟨hcl, hcount⟩ := hs
  obtain ⟨hamount, hnil, hend⟩ := h.ok c hc
  have hcl' : V.contentLength b' = contentLength := h.contentLength.trans hcl
  rcases hcount with hcount | ⟨heof, hbad⟩
  · have hcount' : V.amountRead b' = (ret ++ c).length := by rw [hamount, hcount, List.length_append]
    refine ⟨⟨hcl', .inl hcount'⟩, fun hat => ?_⟩
    rw [← hcl', ← hcount']
    exact (hend hat).2
  · obtain rfl := hnil heof
    rw [List.length_nil, add_zero] at hamount
    refine ⟨⟨hcl', .inr ⟨h.stays heof, by rwa [hamount]⟩⟩, fun hat => ?_⟩
    have := (hend hat).2
    rw [hcl', hamount] at this
    exact absurd this hbad

theorem Counts.sound_error (h : Counts V b amt res b') (hs : V.Sound contentLength b ret) {e : Exn}
    (he : res = .error e) : V.Sound contentLength b' ret := by
  obtain ⟨hcl, hcount⟩ := hs
  have hcl' : V.contentLength b' = contentLength := h.contentLength.trans hcl
  refine ⟨hcl', ?_⟩
  rcases h.error e he with hsame | hbad
  · rw [hsame]
    exact hcount.imp_right fun hc => ⟨h.stays hc.1, hc.2⟩
  · rw [hcl'] at hbad
    exact .inr hbad

/-- a class that counts is guarded by the content length -/
def guardedOfCounts {C : BodyClass β} (V : View β) (contentLength : Option ℤ) (hinto : IntoIsRead C)
    (hC : ∀ b amt, V.Valid b → Counts V b amt (C.read b amt).1 (C.read b amt).2) :
    Guarded C fun ret => LengthOk contentLength ret.length where
  Inv b ret := V.Valid b ∧ V.Sound contentLength b ret
  Eof := V.Eof
  into := hinto
  ok b ret amt c h hc := by
    have hr := hC b amt h.1
    obtain ⟨hsound, hlen⟩ := hr.sound_ok h.2 hc
    obtain ⟨-, hnil, hend⟩ := hr.ok c hc
    exact ⟨⟨hr.valid, hsound⟩, hnil, fun hat => ⟨hlen hat, (hend hat).1⟩⟩
  error b ret amt e h he := ⟨(hC b amt h.1).valid, (hC b amt h.1).sound_error h.2 he⟩
  stays b ret amt h := (hC b amt h.1).stays

/-! ### aiohttp -/

def aiohttpView {ρ : Type*} (R : StreamReader ρ) : View (AioStreamingBody ρ) where
  contentLength := (·.contentLength)
  amountRead := (·.amountRead)
  Eof s := R.atEof s.content = true
  Valid _ := True

theorem aioStreamingBody_counts {ρ : Type*} (R : StreamReader ρ) (s : AioStreamingBody ρ) (amt : Option ℤ) :
    Counts (aiohttpView R) s amt (s.read R amt).1 (s.read R amt).2 := by
  have hstays := R.eof_stays s.content (amt.getD (-1))
  have hnil := R.eof_nil s.content (amt.getD (-1))
  have hall := R.all_eof s.content (amt.getD (-1))
  have hpos := R.nil_eof s.content (amt.getD (-1))
  unfold AioStreamingBody.read
  cases hr : R.read s.content (amt.getD (-1)) with
  | mk r content =>
    rw [hr] at hstays hnil hall hpos
    cases r with
    | error e => exact ⟨trivial, rfl, hstays, fun _ h => (nomatch h), fun e h => .inl rfl⟩
    | ok chunk =>
      have heof : atEnd amt chunk = true → R.atEof content = true := by
        cases amt with
        | none => exact fun _ => hall chunk (by decide) rfl
        | some n =>
          intro hat
          obtain ⟨hc, hn⟩ : chunk = [] ∧ 0 < n := by simpa [atEnd] using hat
          exact hpos hn (by rw [hc])
      simp only
      split_ifs with hat
      · refine ⟨trivial, rfl, hstays, fun c h => ?_, fun e h => .inr ⟨heof hat, verify_error h⟩⟩
        obtain ⟨rfl, hlen⟩ := verify_ok h
        exact ⟨rfl, fun h => hnil chunk h rfl, fun _ => ⟨heof hat, hlen⟩⟩
      · refine ⟨trivial, rfl, hstays, fun c h => ?_, fun e h => by cases h⟩
        obtain rfl := Except.ok.inj h
        exact ⟨rfl, fun h => hnil chunk h rfl, fun h => absurd h hat⟩

def aioStreamingBody_guarded {ρ : Type*} (R : StreamReader ρ) (contentLength : Option ℤ) :
    Guarded (aioStreamingBody R) fun ret => LengthOk contentLength ret.length :=
  guardedOfCounts (aiohttpView R) contentLength (aioStreamingBody_into R) fun s amt _ => aioStreamingBody_counts R s amt

/-! ### httpx -/

def httpxView : View AioHttpxStreamingBody where
  contentLength := (·.contentLength)
  amountRead := (·.amountRead)
  Eof s := s.rest = []
  Valid := AioHttpxStreamingBody.Valid

open AioHttpxStreamingBody in
theorem counted_counts {s : AioHttpxStreamingBody} {want : Option ℕ} {amt : Option ℤ}
    {r : Except Exn Bytes × AioHttpxStreamingBody} (hr : Serves s want r)
    (hend : ∀ q, atEnd amt (dequeue q want) = true → q.drop (dequeue q want).length = []) :
    Counts httpxView s amt (counted amt r).1 (counted amt r).2 := by
  have hstays : s.rest = [] → r.2.rest = [] := by
    intro h
    have := hr.suffix
    rw [h] at this
    exact List.suffix_nil.1 this
  obtain ⟨res, t⟩ := r
  cases res with
  | error e => exact ⟨hr.valid, hr.contentLength, hstays, fun _ h => (nomatch h), fun _ _ => .inl hr.amountRead⟩
  | ok chunk =>
    obtain ⟨hchunk, hrest⟩ := hr.ok chunk rfl
    have hnil : s.rest = [] → chunk = [] := by
      intro h
      rw [hchunk, h]
      cases want <;> simp [dequeue]
    have heof : atEnd amt chunk = true → t.rest = [] := by
      intro hat
      rw [hrest, hchunk]
      exact hend s.rest (hchunk ▸ hat)
    have hamount : t.amountRead + chunk.length = s.amountRead + chunk.length := congrArg (· + _) hr.amountRead
    unfold counted
    simp only
    split_ifs with hat
    · refine ⟨hr.valid, hr.contentLength, hstays, fun c h => ?_, fun e h => .inr ⟨heof hat, verify_error h⟩⟩
      obtain ⟨rfl, hlen⟩ := verify_ok h
      exact ⟨hamount, hnil, fun _ => ⟨heof hat, hlen⟩⟩
    · refine ⟨hr.valid, hr.contentLength, hstays, fun c h => ?_, fun e h => by cases h⟩
      obtain rfl := Except.ok.inj h
      exact ⟨hamount, hnil, fun h => absurd h hat⟩

open AioHttpxStreamingBody in
theorem aioHttpxStreamingBody_counts {s : AioHttpxStreamingBody} (hv : s.Valid) (amt : Option ℤ) :
    Counts httpxView s amt (s.read amt).1 (s.read amt).2 := by
  have hall : ∀ amt, Counts httpxView s amt (counted amt s.readAll).1 (counted amt s.readAll).2 := fun amt =>
    counted_counts (readAll_serves hv) fun q _ => List.drop_length
  cases amt with
  | none => exact hall none
  | some n =>
    simp only [AioHttpxStreamingBody.read]
    split_ifs with hneg hzero
    · exact hall (some n)
    · refine ⟨hv, rfl, id, fun c h => ?_, fun e h => by cases h⟩
      obtain rfl := Except.ok.inj h
      exact ⟨rfl, fun _ => rfl, fun h => by simp [atEnd, hzero] at h⟩
    · refine counted_counts (readSome_serves hv _) fun q hat => ?_
      -- nothing was taken although something was asked for: nothing is left
      obtain ⟨htake, hn⟩ : q.take n.toNat = [] ∧ 0 < n := by simpa [atEnd, dequeue] using hat
      have hq : q = [] := (List.take_eq_nil_iff.1 htake).resolve_left (by omega)
      rw [hq]; simp [dequeue]

def aioHttpxStreamingBody_guarded (contentLength : Option ℤ) :
    Guarded aioHttpxStreamingBody fun ret => LengthOk contentLength ret.length :=
  guardedOfCounts httpxView contentLength aioHttpxStreamingBody_into fun _ amt hv => aioHttpxStreamingBody_counts hv amt

/-! ## The digest -/

/-- the digest of the bytes is the expected one -/
def DigestOk (digest : Bytes → Bytes) (expected : String) (ret : Bytes) : Prop := b64decode expected = some (digest ret)

theorem validate_ok {digest : Bytes → Bytes} {s : ChecksumBody β} {c c' : Bytes}
    (h : ((s.validateChecksum digest).map fun _ => c) = .ok c') : c = c' ∧ DigestOk digest s.expected s.updated := by
  obtain ⟨_, hv, rfl⟩ := map_ok h
  refine ⟨rfl, ?_⟩
  unfold ChecksumBody.validateChecksum at hv
  unfold DigestOk
  cases he : b64decode s.expected with
  | none => rw [he] at hv; cases hv
  | some expected =>
    simp only [he] at hv
    split_ifs at hv with hne
    rw [not_not.1 hne]

theorem validate_error {digest : Bytes → Bytes} {s : ChecksumBody β} {c : Bytes} {e : Exn}
    (h : ((s.validateChecksum digest).map fun _ => c) = .error e) : ¬ DigestOk digest s.expected s.updated := by
  intro hok
  unfold DigestOk at hok
  simp only [ChecksumBody.validateChecksum, hok, ne_eq, not_true_eq_false, if_false] at h
  cases h

/-- the checksum has seen the bytes returned, or the stream has ended with a wrong digest -/
def ChecksumBody.Sound {C : BodyClass β} {Complete : Bytes → Prop} (G : Guarded C Complete) (digest : Bytes → Bytes)
    (expected : String) (s : ChecksumBody β) (ret : Bytes) : Prop :=
  s.expected = expected ∧ ((G.Inv s.body ret ∧ s.updated = ret) ∨
    ((∃ ret', G.Inv s.body ret') ∧ G.Eof s.body ∧ ¬ DigestOk digest expected s.updated))

theorem ChecksumBody.read_of_error (digest : Bytes → Bytes) {C : BodyClass β} {s : ChecksumBody β} {e : Exn}
    (h : C.read s.body amt = (.error e, b)) : ChecksumBody.read digest C s amt = (.error e, { s with body := b }) := by
  simp only [ChecksumBody.read, h]

theorem ChecksumBody.read_of_ok (digest : Bytes → Bytes) {C : BodyClass β} {s : ChecksumBody β} {c : Bytes}
    (h : C.read s.body amt = (.ok c, b)) :
    let t : ChecksumBody β := ⟨b, s.updated ++ c, s.expected⟩
    ChecksumBody.read digest C s amt =
      (if atEnd amt c = true then (t.validateChecksum digest).map fun _ => c else .ok c, t) := by
  simp only [ChecksumBody.read, h]
  split_ifs <;> rfl

section Mixin

variable {C : BodyClass β} {Complete : Bytes → Prop} (G : Guarded C Complete) {digest : Bytes → Bytes}
  {expected : String} {s : ChecksumBody β}

theorem ChecksumBody.sound_ok (h : s.Sound G digest expected ret) {c : Bytes}
    (hc : (ChecksumBody.read digest C s amt).1 = .ok c) :
    (ChecksumBody.read digest C s amt).2.Sound G digest expected (ret ++ c) ∧ (G.Eof s.body → c = []) ∧
      (atEnd amt c = true → (Complete (ret ++ c) ∧ DigestOk digest expected (ret ++ c)) ∧
        G.Eof (ChecksumBody.read digest C s amt).2.body) := by
  obtain ⟨rfl, h⟩ := h
  cases hr : C.read s.body amt with
  | mk res body =>
    have hread := congrArg Prod.fst hr
    cases res with
    | error e => rw [ChecksumBody.read_of_error digest hr] at hc; cases hc
    | ok chunk =>
      rw [ChecksumBody.read_of_ok digest hr] at hc ⊢
      -- what the mixin returns is what was read, and the digest is right if it was checked
      have hchunk : chunk = c ∧ (atEnd amt chunk = true → DigestOk digest s.expected (s.updated ++ chunk)) := by
        simp only at hc
        split_ifs at hc with hat
        · obtain ⟨h1, h2⟩ := validate_ok hc
          exact ⟨h1, fun _ => h2⟩
        · exact ⟨Except.ok.inj hc, fun h => absurd h hat⟩
      obtain ⟨rfl, hdigest⟩ := hchunk
      rcases h with ⟨hinv, hup⟩ | ⟨⟨ret', hinv⟩, heof, hbad⟩
      · obtain ⟨hinv', hnil, hend⟩ := G.ok s.body ret amt chunk hinv hread
        rw [hr] at hinv' hend
        rw [hup] at hdigest ⊢
        exact ⟨⟨rfl, .inl ⟨hinv', rfl⟩⟩, hnil, fun hat => ⟨⟨(hend hat).1, hdigest hat⟩, (hend hat).2⟩⟩
      · obtain ⟨hinv', hnil, -⟩ := G.ok s.body ret' amt chunk hinv hread
        have hstays := G.stays s.body ret' amt hinv heof
        rw [hr] at hinv' hstays
        obtain rfl := hnil heof
        rw [List.append_nil] at hdigest ⊢
        exact ⟨⟨rfl, .inr ⟨⟨_, hinv'⟩, hstays, hbad⟩⟩, hnil, fun hat => absurd (hdigest hat) hbad⟩

theorem ChecksumBody.Sound.some_inv (h : s.Sound G digest expected ret) : ∃ ret', G.Inv s.body ret' := by
  rcases h.2 with ⟨hinv, -⟩ | ⟨hinv, -⟩
  · exact ⟨ret, hinv⟩
  · exact hinv

theorem ChecksumBody.sound_error (h : s.Sound G digest expected ret) {e : Exn}
    (he : (ChecksumBody.read digest C s amt).1 = .error e) :
    (ChecksumBody.read digest C s amt).2.Sound G digest expected ret := by
  obtain ⟨ret₀, hinv₀⟩ := h.some_inv
  obtain ⟨rfl, h⟩ := h
  cases hr : C.read s.body amt with
  | mk res body =>
    have hread := congrArg Prod.fst hr
    cases res with
    | error e' =>
      rw [ChecksumBody.read_of_error digest hr]
      refine ⟨rfl, ?_⟩
      rcases h with ⟨hinv, hup⟩ | ⟨⟨ret', hinv⟩, heof, hbad⟩
      · have hinv' := G.error s.body ret amt e' hinv hread
        rw [hr] at hinv'
        exact .inl ⟨hinv', hup⟩
      · have hinv' := G.error s.body ret' amt e' hinv hread
        have hstays := G.stays s.body ret' amt hinv heof
        rw [hr] at hinv' hstays
        exact .inr ⟨⟨ret', hinv'⟩, hstays, hbad⟩
    | ok chunk =>
      rw [ChecksumBody.read_of_ok digest hr] at he ⊢
      simp only at he
      split_ifs at he with hat
      -- the check failed: whatever was there before, the stream has ended with a wrong digest
      obtain ⟨hinv', -, hend⟩ := G.ok s.body ret₀ amt chunk hinv₀ hread
      rw [hr] at hinv' hend
      exact ⟨rfl, .inr ⟨⟨_, hinv'⟩, (hend hat).2, validate_error he⟩⟩

theorem ChecksumBody.sound_stays (h : s.Sound G digest expected ret) (heof : G.Eof s.body) :
    G.Eof (ChecksumBody.read digest C s amt).2.body := by
  obtain ⟨ret', hinv⟩ := h.some_inv
  have hstays := G.stays s.body ret' amt hinv heof
  cases hr : C.read s.body amt with
  | mk res body =>
    rw [hr] at hstays
    cases res with
    | error e => rw [ChecksumBody.read_of_error digest hr]; exact hstays
    | ok chunk => rw [ChecksumBody.read_of_ok digest hr]; exact hstays

end Mixin

/-- the mixin adds the digest to what its class checks -/
def checksumMixin_guarded {C : BodyClass β} {Complete : Bytes → Prop} (G : Guarded C Complete)
    (digest : Bytes → Bytes) (expected : String) :
    Guarded (checksumMixin digest C) fun ret => Complete ret ∧ DigestOk digest expected ret where
  Inv := ChecksumBody.Sound G digest expected
  Eof s := G.Eof s.body
  into := checksumMixin_into digest G.into
  ok _ _ _ _ h hc := ChecksumBody.sound_ok G h hc
  error _ _ _ _ h he := ChecksumBody.sound_error G h he
  stays _ _ _ h heof := ChecksumBody.sound_stays G h heof

/-! ## Calls and iterators -/

/-- the results that tell the caller that the stream has ended -/
def SignalsEnd : Op → Ret → Prop
  | .read none, .bytes _ => True
  | .read (some n), .bytes c => 0 < n ∧ c = []
  | .readinto b, .filled n _ => n = 0 ∧ b ≠ []
  | .anext, .stopAsyncIteration => True
  | .advance _, .stopAsyncIteration => True
  | _, _ => False

/-- a run of operations -/
abbrev exec (C : BodyClass β) (b : β) (ops : List Op) : St β := run (fun s o => (step C s o).2) (init b) ops

/-- whatever was done before, an operation that signals the end of the stream has returned complete bytes -/
def EndsVerified (C : BodyClass β) (b : β) (Complete : Bytes → Prop) : Prop :=
  ∀ ops o, SignalsEnd o (step C (exec C b ops) o).1 → Complete (step C (exec C b ops) o).2.returned

/-- the iterator is past the end of the stream -/
def Gen.Past : Gen → Prop
  | .lastLine | .ended => True
  | _ => False

section Iteration

variable {C : BodyClass β} {Complete : Bytes → Prop} (G : Guarded C Complete)

/-- the stream has ended, and all of it was returned -/
def Guarded.Done (s : St β) : Prop := G.Eof s.body ∧ Complete s.returned

structure Guarded.Ok (s : St β) : Prop where
  body : G.Inv s.body s.returned
  past : ∀ p ∈ s.gens, p.Past → G.Done s

variable {G} {s s' : St β}

theorem Guarded.Ok.read_ok (h : G.Ok s) {c : Bytes} (hr : s.read C amt = (.ok c, s')) :
    G.Ok s' ∧ (atEnd amt c = true → G.Done s') := by
  unfold St.read at hr
  cases hc : C.read s.body amt with
  | mk res body =>
    rw [hc] at hr
    cases res with
    | error e => cases hr
    | ok chunk =>
      obtain ⟨h1, rfl⟩ := Prod.mk.inj hr
      obtain rfl := Except.ok.inj h1
      have hread := congrArg Prod.fst hc
      obtain ⟨hinv, hnil, hend⟩ := G.ok s.body s.returned amt chunk h.body hread
      rw [hc] at hinv hend
      refine ⟨⟨hinv, fun p hp hpast => ?_⟩, fun hat => ⟨(hend hat).2, (hend hat).1⟩⟩
      obtain ⟨heof, hcomplete⟩ := h.past p hp hpast
      have hstays := G.stays s.body s.returned amt h.body heof
      rw [hc] at hstays
      obtain rfl := hnil heof
      exact ⟨hstays, by simpa using hcomplete⟩

theorem Guarded.Ok.read_error (h : G.Ok s) {e : Exn} (hr : s.read C amt = (.error e, s')) : G.Ok s' := by
  unfold St.read at hr
  cases hc : C.read s.body amt with
  | mk res body =>
    rw [hc] at hr
    cases res with
    | ok chunk => cases hr
    | error e' =>
      obtain ⟨-, rfl⟩ := Prod.mk.inj hr
      have hinv := G.error s.body s.returned amt e' h.body (congrArg Prod.fst hc)
      rw [hc] at hinv
      refine ⟨hinv, fun p hp hpast => ?_⟩
      obtain ⟨heof, hcomplete⟩ := h.past p hp hpast
      have hstays := G.stays s.body s.returned amt h.body heof
      rw [hc] at hstays
      exact ⟨hstays, hcomplete⟩

theorem readinto_eq (hC : IntoIsRead C) (s : St β) (b : Bytes) : s.readinto C b =
    ((s.read C (some b.length)).1.map fun chunk => (chunk.length, filled b chunk), (s.read C (some b.length)).2) := by
  unfold St.readinto St.read
  rw [hC s.body b]
  cases C.read s.body (some b.length) with
  | mk res body =>
    cases res with
    | error e => rfl
    | ok chunk => simp [Except.map, filled_take]

/-- an iterator moves: past the end only when the stream is done -/
theorem Guarded.Ok.setGen (h : G.Ok s) (g : ℕ) {p : Gen} (hp : p.Past → G.Done s) : G.Ok (s.setGen g p) := by
  refine ⟨h.body, fun q hq hpast => ?_⟩
  rcases List.mem_or_eq_of_mem_set hq with hq | rfl
  · exact h.past q hq hpast
  · exact hp hpast

/-- a new iterator -/
theorem Guarded.Ok.addGen (h : G.Ok s) {p : Gen} (hp : ¬ p.Past) : G.Ok { s with gens := s.gens ++ [p] } := by
  refine ⟨h.body, fun q hq hpast => ?_⟩
  rcases List.mem_append.1 hq with hq | hq
  · exact h.past q hq hpast
  · rw [List.mem_singleton] at hq
    subst hq
    exact absurd hpast hp

theorem atEnd_nil (size : ℕ+) : atEnd (some (size : ℤ)) [] = true := by simp [atEnd, size.pos]

theorem Guarded.Ok.advanceChunks (h : G.Ok s) (g : ℕ) (size : ℕ+) :
    G.Ok (advanceChunks C s g size).2 ∧
      ((advanceChunks C s g size).1 = .stopAsyncIteration → Complete (advanceChunks C s g size).2.returned) := by
  unfold Response.advanceChunks
  split
  · rename_i hr
    exact ⟨(h.read_error hr).setGen g fun hp => hp.elim, fun hs => by cases hs⟩
  · rename_i hr
    obtain ⟨hok, hend⟩ := h.read_ok hr
    have hdone := hend (atEnd_nil size)
    exact ⟨hok.setGen g fun _ => hdone, fun _ => hdone.2⟩
  · rename_i hr
    exact ⟨(h.read_ok hr).1, fun hs => by cases hs⟩

theorem Guarded.Ok.yieldLine (h : G.Ok s) (g : ℕ) (keepends : Bool) (line : Bytes) {p : Gen}
    (hp : p.Past → G.Done s) :
    G.Ok (yieldLine s g keepends line p).2 ∧ (yieldLine s g keepends line p).1 ≠ .stopAsyncIteration := by
  unfold Response.yieldLine
  split
  · exact ⟨h.setGen g fun hp => hp.elim, by simp⟩
  · exact ⟨h.setGen g hp, by simp⟩

theorem Guarded.Ok.advanceLines (h : G.Ok s) (g : ℕ) (size : ℕ+) (keepends : Bool) (pending : Bytes) :
    let t := advanceLines C s g size keepends pending
    G.Ok t.2 ∧ (t.1 = .stopAsyncIteration → Complete t.2.returned) := by
  unfold Response.advanceLines
  split
  · rename_i hr
    exact ⟨(h.read_error hr).setGen g fun hp => hp.elim, fun hs => by cases hs⟩
  · rename_i hr
    obtain ⟨hok, hend⟩ := h.read_ok hr
    have hdone := hend (atEnd_nil size)
    split_ifs
    · exact ⟨hok.setGen g fun _ => hdone, fun _ => hdone.2⟩
    · obtain ⟨h1, h2⟩ := hok.yieldLine g keepends pending (p := .lastLine) fun _ => hdone
      exact ⟨h1, fun hs => absurd hs h2⟩
  · rename_i hr
    have hok := (h.read_ok hr).1
    simp only
    split
    · exact ⟨hok.setGen g fun hp => hp.elim, fun hs => by cases hs⟩
    · exact ⟨hok.setGen g fun hp => hp.elim, fun hs => by cases hs⟩

theorem Guarded.Ok.advance (h : G.Ok s) (g : ℕ) :
    G.Ok (advance C s g).2 ∧ ((advance C s g).1 = .stopAsyncIteration → Complete (advance C s g).2.returned) := by
  unfold Response.advance
  split
  · exact h.advanceChunks g _
  · rename_i size keepends line ready pending _
    obtain ⟨h1, h2⟩ := h.yieldLine g keepends line (p := .lines size keepends ready pending) fun hp => hp.elim
    exact ⟨h1, fun hs => absurd hs h2⟩
  · exact h.advanceLines g _ _ _
  · rename_i hg
    have hdone := h.past _ (List.mem_of_getElem? hg) trivial
    exact ⟨h.setGen g fun _ => hdone, fun _ => hdone.2⟩
  · rename_i hg
    exact ⟨h, fun _ => (h.past _ (List.mem_of_getElem? hg) trivial).2⟩
  · exact ⟨h, fun hs => by cases hs⟩
  · exact ⟨h, fun hs => by cases hs⟩

theorem Guarded.Ok.step (h : G.Ok s) (o : Op) :
    G.Ok (step C s o).2 ∧ (SignalsEnd o (step C s o).1 → Complete (step C s o).2.returned) := by
  cases o with
  | read amt =>
    simp only [Response.step]
    split
    · rename_i hr
      exact ⟨h.read_error hr, fun hs => by cases amt <;> cases hs⟩
    · rename_i c _ hr
      obtain ⟨hok, hend⟩ := h.read_ok hr
      refine ⟨hok, fun hs => (hend ?_).2⟩
      cases amt with
      | none => rfl
      | some n =>
        obtain ⟨hn, rfl⟩ := hs
        simp [atEnd, hn]
  | readinto b =>
    simp only [Response.step, readinto_eq G.into]
    cases hr : s.read C (some b.length) with
    | mk res t =>
      cases res with
      | error e => exact ⟨h.read_error hr, fun hs => by cases hs⟩
      | ok chunk =>
        obtain ⟨hok, hend⟩ := h.read_ok hr
        refine ⟨hok, fun hs => (hend ?_).2⟩
        obtain ⟨hn, hb⟩ := hs
        rw [atEnd_length]
        simpa [List.length_pos_iff] using ⟨List.length_eq_zero_iff.1 hn, hb⟩
  | anext =>
    simp only [Response.step]
    split
    · rename_i hr
      exact ⟨h.read_error hr, fun hs => by cases hs⟩
    · rename_i hr
      obtain ⟨hok, hend⟩ := h.read_ok hr
      exact ⟨hok, fun _ => (hend (atEnd_nil _)).2⟩
    · rename_i hr
      exact ⟨(h.read_ok hr).1, fun hs => by cases hs⟩
  | iterChunks size => exact ⟨h.addGen id, fun hs => by cases hs⟩
  | iterLines size keepends => exact ⟨h.addGen id, fun hs => by cases hs⟩
  | advance g =>
    obtain ⟨hok, hend⟩ := h.advance g
    refine ⟨hok, fun hs => hend ?_⟩
    simp only [Response.step] at hs
    cases ha : (Response.advance C s g).1 <;> rw [ha] at hs <;> first | rfl | cases hs

/-- calls and iterators over a guarded class report the end only when what was returned is complete -/
theorem Guarded.ends_verified (G : Guarded C Complete) {b : β} (hb : G.Inv b []) : EndsVerified C b Complete := by
  intro ops o
  have hinit : G.Ok (init b) := ⟨hb, fun p hp => by cases hp⟩
  exact ((run_inv (I := G.Ok) (fun s o h => (h.step o).1) hinit ops).step o).2

end Iteration

/-- **The end of the stream is verified.** For the four streaming bodies, every raw stream and every list of calls and
iterator steps on one body: an operation that signals the end of the stream completes only if the bytes returned are as
many as the content length says, where it is known, and, with a checksum, have the expected digest. -/
theorem end_of_stream_verified {ρ : Type*} (R : StreamReader ρ) (content : ρ) (events : List Event) (url : String)
    (contentLength : Option ℤ) (digest : Bytes → Bytes) (expected : String) :
    let lengthOk := fun ret : Bytes => LengthOk contentLength ret.length
    let bothOk := fun ret => lengthOk ret ∧ DigestOk digest expected ret
    let aiohttp := AioStreamingBody.new url content contentLength
    let httpx := AioHttpxStreamingBody.new url events contentLength
    EndsVerified (aioStreamingBody R) aiohttp lengthOk ∧
    EndsVerified aioHttpxStreamingBody httpx lengthOk ∧
    EndsVerified (checksumMixin digest (aioStreamingBody R)) (ChecksumBody.new aiohttp expected) bothOk ∧
    EndsVerified (checksumMixin digest aioHttpxStreamingBody) (ChecksumBody.new httpx expected) bothOk := by
  intro lengthOk bothOk aiohttp httpx
  have haiohttp : (aioStreamingBody_guarded R contentLength).Inv aiohttp [] := ⟨trivial, rfl, .inl rfl⟩
  have hhttpx : (aioHttpxStreamingBody_guarded contentLength).Inv httpx [] :=
    ⟨fun h => absurd h Bool.false_ne_true, rfl, .inl rfl⟩
  exact ⟨(aioStreamingBody_guarded R contentLength).ends_verified haiohttp,
    (aioHttpxStreamingBody_guarded contentLength).ends_verified hhttpx,
    (checksumMixin_guarded (aioStreamingBody_guarded R contentLength) digest expected).ends_verified
      ⟨rfl, .inl ⟨haiohttp, rfl⟩⟩,
    (checksumMixin_guarded (aioHttpxStreamingBody_guarded contentLength) digest expected).ends_verified
      ⟨rfl, .inl ⟨hhttpx, rfl⟩⟩⟩

/-! ## A reader -/

def isEmptyChunk : Event → Bool
  | .chunk c => c.isEmpty
  | .raises _ => false

/-- up to `n` bytes of the first chunk that has any -/
def readFirst (n : ℕ) : List Event → Except StreamExn Bytes × List Event
  | [] => (.ok [], [])
  | .chunk [] :: rest => readFirst n rest
  | .chunk (c :: cs) :: rest => (.ok ((c :: cs).take n), .chunk ((c :: cs).drop n) :: rest)
  | .raises e :: rest => (.error e, .raises e :: rest)

def readEvents (r : List Event) (n : ℤ) : Except StreamExn Bytes × List Event :=
  if n = 0 then (.ok [], r)
  else if n < 0 then ((readChunks r).1.map List.flatten, (readChunks r).2)
  else readFirst n.toNat r

theorem readFirst_nil {n : ℕ} (hn : 0 < n) {r : List Event} (h : (readFirst n r).1 = .ok []) : (readFirst n r).2 = [] := by
  induction r with
  | nil => rfl
  | cons e rest ih =>
    cases e with
    | raises e => cases h
    | chunk c =>
      cases c with
      | nil => exact ih h
      | cons c cs =>
        have htake := Except.ok.inj h
        rw [List.take_eq_nil_iff] at htake
        simp at htake
        omega

/-- induction over events that bring nothing -/
theorem empty_chunks_induction {P : List Event → Prop} (hnil : P []) (hchunk : ∀ rest, P rest → P (.chunk [] :: rest))
    {r : List Event} (h : r.all isEmptyChunk = true) : P r := by
  induction r with
  | nil => exact hnil
  | cons e rest ih =>
    obtain ⟨he, hrest⟩ : isEmptyChunk e = true ∧ rest.all isEmptyChunk = true := by simpa using h
    cases e with
    | raises e => cases he
    | chunk c =>
      obtain rfl : c = [] := by simpa [isEmptyChunk] using he
      exact hchunk rest (ih hrest)

theorem readFirst_empty (n : ℕ) {r : List Event} (h : r.all isEmptyChunk = true) : readFirst n r = (.ok [], []) := by
  apply empty_chunks_induction (P := fun r => readFirst n r = (.ok [], [])) rfl _ h
  intro rest ih
  exact ih

theorem undelivered_empty {r : List Event} (h : r.all isEmptyChunk = true) : undelivered r = [] := by
  apply empty_chunks_induction (P := fun r => undelivered r = []) rfl _ h
  intro rest ih
  simpa using ih

theorem readChunks_suffix (r : List Event) : (readChunks r).2 <:+ r := by
  induction r with
  | nil => exact List.suffix_rfl
  | cons e rest ih =>
    cases e with
    | raises e => exact List.suffix_cons _ _
    | chunk c => exact ih.trans (List.suffix_cons _ _)

/-- a reader fed by the events of a connection -/
def eventReader : StreamReader (List Event) where
  read := readEvents
  atEof r := r.all isEmptyChunk
  all_eof r n c hn h := by
    simp only [readEvents, hn.ne, hn, if_false, if_true] at h ⊢
    obtain ⟨chunks, hr, -⟩ := map_ok h
    rw [((AioHttpxStreamingBody.readChunks_spec r).2 chunks hr).2]
    rfl
  nil_eof r n hn h := by
    simp only [readEvents, hn.ne', not_lt_of_gt hn, if_false] at h ⊢
    rw [readFirst_nil (by omega) h]
    rfl
  eof_nil r n c hr h := by
    unfold readEvents at h
    split_ifs at h
    · exact (Except.ok.inj h).symm
    · obtain ⟨chunks, hc, rfl⟩ := map_ok h
      rw [((AioHttpxStreamingBody.readChunks_spec r).2 chunks hc).1, undelivered_empty hr]
    · rw [readFirst_empty _ hr] at h
      exact (Except.ok.inj h).symm
  eof_stays r n hr := by
    unfold readEvents
    split_ifs
    · exact hr
    · rw [List.all_eq_true] at hr ⊢
      exact fun e he => hr e ((readChunks_suffix r).subset he)
    · rw [readFirst_empty _ hr]; rfl

/-- a body of three bytes in two chunks, with their base64 as the digest -/
abbrev threeBytes : ChecksumBody (AioStreamingBody (List Event)) :=
  ChecksumBody.new (AioStreamingBody.new "" [.chunk [1, 2], .chunk [3]] (some 3)) "AQID"

theorem end_of_stream_verified_three :
    let C := checksumMixin id (aioStreamingBody eventReader)
    let t := step C (exec C threeBytes [.iterChunks 2, .advance 0]) (.read none)
    SignalsEnd (.read none) t.1 ∧ LengthOk (some 3) t.2.returned.length ∧ DigestOk id "AQID" t.2.returned :=
  ⟨trivial, (end_of_stream_verified eventReader [.chunk [1, 2], .chunk [3]] [] "" (some 3) id "AQID").2.2.1
    [.iterChunks 2, .advance 0] (.read none) trivial⟩

end AioBotocore.Response
