/-
A download from the response to the last byte (`endpoint.py`, `httpchecksum.py`, `response.py`): the body that
`_do_get_response` makes of a response below 300, read by any calls and iterators, on either backend.

The server has sent `sent`, and checksums of it in the headers. What arrives may be anything.

- `doGetResponse_body`: the bodies that are made.
- `download_intact`: what is read to its end has the checksum of what was sent, and what arrives intact is accepted.
-/
import Mathlib.Tactic
import AioBotocore.Base64
import AioBotocore.Endpoint.ErrorBody
import AioBotocore.Response.EndOfStream
import AioBotocore.Response.NegativeRead

namespace AioBotocore.Endpoint.Download

open Octets AioBotocore.Response
open Http.ResponseHeaders (Dict get)
open ErrorBody (Backend HttpResponse OperationModel Context Body ResponseDict Verified checksumOf selected
  responseAlgorithms doGetResponse)

variable {ρ : Type}

/-! ## Model -/

/-- a streaming body of `response.py` or `httpchecksum.py`: its class, and what it is at first -/
structure StreamingBody where
  β : Type
  cls : BodyClass β
  body : β

/-- what arrives: what `aiohttp` has in its reader, and what the raw stream of `httpx` does -/
structure Raw (ρ : Type) where
  url : String
  content : ρ
  events : List Event

variable (R : StreamReader ρ) (int : String → ℤ) (checksumCls : String → Option (Bytes → Bytes))

/-- the object that stands for a body -/
def streamingBody (raw : Raw ρ) : Body → Option StreamingBody
  | .bytes _ => none
  | .raw => none
  | .streaming .aiohttp contentLength =>
    some ⟨_, aioStreamingBody R, AioStreamingBody.new raw.url raw.content (contentLength.map int)⟩
  | .streaming .httpx contentLength =>
    some ⟨_, aioHttpxStreamingBody, AioHttpxStreamingBody.new raw.url raw.events (contentLength.map int)⟩
  | .streamingChecksum .aiohttp contentLength algorithm expected =>
    (checksumCls algorithm).map fun digest => ⟨_, checksumMixin digest (aioStreamingBody R),
      ChecksumBody.new (AioStreamingBody.new raw.url raw.content (contentLength.map int)) expected⟩
  | .streamingChecksum .httpx contentLength algorithm expected =>
    (checksumCls algorithm).map fun digest => ⟨_, checksumMixin digest aioHttpxStreamingBody,
      ChecksumBody.new (AioHttpxStreamingBody.new raw.url raw.events (contentLength.map int)) expected⟩

/-- the announced length -/
def announced (headers : Dict) : Option ℤ := (get headers "content-length").map int

/-! ## The bodies that are made -/

inductive Made (m : OperationModel) (context : Context) (r : HttpResponse) : Body → Prop
  | bytes (hstream : m.hasStreamingOutput = false) (hverified : ∀ algorithm expected,
      selected context r.headers = some (algorithm, expected) → Verified checksumCls r.content algorithm expected) :
      Made m context r (.bytes r.content)
  | streaming (hstream : m.hasStreamingOutput = true) (hselected : selected context r.headers = none) :
      Made m context r (.streaming r.raw (get r.headers "content-length"))
  | checksum {algorithm expected : String} (hstream : m.hasStreamingOutput = true)
      (hselected : selected context r.headers = some (algorithm, expected)) (hknown : (checksumCls algorithm).isSome) :
      Made m context r (.streamingChecksum r.raw (get r.headers "content-length") algorithm expected)

variable {R int checksumCls} {m : OperationModel} {context : Context} {r : HttpResponse} {sent : Bytes}

theorem bodyOf_eq (hstatus : r.statusCode < 300) (hevents : m.hasEventStreamOutput = false) :
    ErrorBody.bodyOf r m =
      if m.hasStreamingOutput then .streaming r.raw (get r.headers "content-length") else .bytes r.content := by
  rw [ErrorBody.bodyOf, if_neg (by omega), if_neg (by simp [hevents])]

variable (checksumCls context) in
/-- handlers and parser are given a body that is made so, unless the checksum is wrong or of an unknown algorithm -/
theorem doGetResponse_body (hstatus : r.statusCode < 300) (hevents : m.hasEventStreamOutput = false)
    (handlers : List ErrorBody.Handler) :
    (∀ given, doGetResponse checksumCls handlers m context r = .ok given →
      ∀ d ∈ given, Made checksumCls m context r d.body) ∧
    ((∀ algorithm expected, selected context r.headers = some (algorithm, expected) →
        (checksumCls algorithm).isSome ∧
          (m.hasStreamingOutput = false → Verified checksumCls r.content algorithm expected)) →
      ∃ given, doGetResponse checksumCls handlers m context r = .ok given) := by
  have hheaders : (ErrorBody.convertToResponseDict r m).headers = r.headers := rfl
  have hbody : (ErrorBody.convertToResponseDict r m).body = _ := bodyOf_eq hstatus hevents
  rw [doGetResponse, ErrorBody.handleChecksumBody_spec, hheaders]
  generalize ErrorBody.convertToResponseDict r m = d at hheaders hbody
  have hparsed {d' : ResponseDict} (hmade : Made checksumCls m context r d'.body) :
      ∀ x ∈ ErrorBody.emitAndParse handlers d', Made checksumCls m context r x.body := by
    intro x hx
    rwa [ErrorBody.emitAndParse_body handlers d' x hx]
  cases hselected : selected context r.headers with
  | none =>
    simp only [Option.map_none, Option.getD_none]
    refine ⟨fun given hgiven => ?_, fun _ => ⟨_, rfl⟩⟩
    cases hgiven
    refine hparsed ?_
    cases hstream : m.hasStreamingOutput with
    | true =>
      rw [hbody, hstream, if_pos rfl]
      exact .streaming hstream hselected
    | false =>
      rw [hbody, hstream, if_neg (by decide)]
      exact .bytes hstream fun algorithm expected h => by rw [hselected] at h; cases h
  | some z =>
    obtain ⟨algorithm, expected⟩ := z
    simp only [Option.map_some, Option.getD_some]
    refine ⟨fun given hgiven => ?_, fun hgood => ?_⟩
    · obtain ⟨d', hd', rfl⟩ := map_ok hgiven
      refine hparsed ?_
      obtain ⟨body, rfl, hmade⟩ := (ErrorBody.replaceBody_ok checksumCls m r d d' algorithm expected).1 hd'
      cases hstream : m.hasStreamingOutput with
      | true =>
        rw [if_pos hstream] at hmade
        obtain ⟨hknown, rfl⟩ := hmade
        rw [hheaders]
        exact .checksum hstream hselected hknown
      | false =>
        rw [if_neg (by simp [hstream])] at hmade
        obtain ⟨hverified, rfl⟩ := hmade
        refine .bytes hstream fun a e h => ?_
        rw [hselected] at h
        cases h
        exact hverified
    · obtain ⟨hknown, hverified⟩ := hgood algorithm expected rfl
      have hreplaced : ∃ d', ErrorBody.replaceBody checksumCls m r d algorithm expected = .ok d' := by
        simp only [ErrorBody.replaceBody_ok]
        cases hstream : m.hasStreamingOutput with
        | true => exact ⟨_, _, rfl, by rw [if_pos rfl]; exact ⟨hknown, rfl⟩⟩
        | false => exact ⟨_, _, rfl, by rw [if_neg (by decide)]; exact ⟨hverified hstream, rfl⟩⟩
      obtain ⟨d', hd'⟩ := hreplaced
      rw [hd']
      exact ⟨_, rfl⟩

/-! ## Checksums -/

variable (checksumCls) in
/-- the checksums in the headers are of what was sent -/
def Honest (headers : Dict) (sent : Bytes) : Prop :=
  ∀ algorithm expected digest, checksumOf headers algorithm = some expected → checksumCls algorithm = some digest →
    expected = b64encode (digest sent)

variable (checksumCls) in
/-- for the algorithm that decides, if there is one, the bytes have the checksum of what was sent -/
def Checked (context : Context) (headers : Dict) (sent ret : Bytes) : Prop :=
  ∀ algorithm expected, selected context headers = some (algorithm, expected) →
    ∃ digest, checksumCls algorithm = some digest ∧ digest ret = digest sent

theorem selected_spec {headers : Dict} {algorithm expected : String}
    (h : selected context headers = some (algorithm, expected)) :
    algorithm ∈ responseAlgorithms context ∧ checksumOf headers algorithm = some expected := by
  obtain ⟨a, ha, hsome⟩ := List.exists_of_findSome?_eq_some h
  obtain ⟨e, he, heq⟩ := Option.map_eq_some_iff.1 hsome
  cases heq
  exact ⟨ha, he⟩

/-- what the header says and what was computed are digests of the same kind -/
theorem Honest.digest_eq (h : Honest checksumCls r.headers sent) {algorithm expected : String}
    (hselected : selected context r.headers = some (algorithm, expected)) {digest : Bytes → Bytes}
    (hdigest : checksumCls algorithm = some digest) : b64decode expected = some (digest sent) := by
  rw [h algorithm expected digest (selected_spec hselected).2 hdigest, b64decode_b64encode]

theorem Honest.checked (h : Honest checksumCls r.headers sent) {algorithm expected : String}
    (hselected : selected context r.headers = some (algorithm, expected)) {digest : Bytes → Bytes}
    (hdigest : checksumCls algorithm = some digest) {ret : Bytes} (hret : b64decode expected = some (digest ret)) :
    Checked checksumCls context r.headers sent ret := by
  intro a e hae
  rw [hselected] at hae
  cases hae
  refine ⟨digest, hdigest, ?_⟩
  rw [h.digest_eq hselected hdigest] at hret
  exact (Option.some.inj hret).symm

/-! ## What is read -/

variable (int checksumCls) in
/-- as long as announced, and with the checksum -/
def Complete (context : Context) (r : HttpResponse) (sent ret : Bytes) : Prop :=
  LengthOk (announced int r.headers) ret.length ∧ Checked checksumCls context r.headers sent ret

theorem ends_complete {β : Type} {C : BodyClass β} {b : β} {P Q : Bytes → Prop} (G : Guarded C P) (hb : G.Inv b [])
    (hPQ : ∀ ret, P ret → Q ret) : EndsVerified C b Q :=
  fun ops o ho => hPQ _ (G.ends_verified hb ops o ho)

theorem aiohttp_new (R : StreamReader ρ) (url : String) (content : ρ) (contentLength : Option ℤ) :
    (aioStreamingBody_guarded R contentLength).Inv (AioStreamingBody.new url content contentLength) [] :=
  ⟨trivial, rfl, .inl rfl⟩

theorem httpx_new (url : String) (events : List Event) (contentLength : Option ℤ) :
    (aioHttpxStreamingBody_guarded contentLength).Inv (AioHttpxStreamingBody.new url events contentLength) [] :=
  ⟨fun h => absurd h Bool.false_ne_true, rfl, .inl rfl⟩

theorem mixin_new {β : Type} {C : BodyClass β} {P : Bytes → Prop} {b : β} {G : Guarded C P} (h : G.Inv b [])
    (digest : Bytes → Bytes) (expected : String) :
    (checksumMixin_guarded G digest expected).Inv (ChecksumBody.new b expected) [] := ⟨rfl, .inl ⟨h, rfl⟩⟩

/-- every way to read a body to its end -/
theorem Made.complete {body : Body} (h : Made checksumCls m context r body) (hhonest : Honest checksumCls r.headers sent)
    (raw : Raw ρ) :
    (∀ b, body = .bytes b → b = r.content ∧ Checked checksumCls context r.headers sent b) ∧
      ∀ o, streamingBody R int checksumCls raw body = some o →
        EndsVerified o.cls o.body (Complete int checksumCls context r sent) := by
  have haiohttp := aiohttp_new R raw.url raw.content (announced int r.headers)
  have hhttpx := httpx_new raw.url raw.events (announced int r.headers)
  cases h with
  | bytes hstream hverified =>
    refine ⟨fun b hb => ?_, fun o ho => by cases ho⟩
    cases hb
    refine ⟨rfl, fun algorithm expected hselected => ?_⟩
    obtain ⟨digest, hdigest, hdecode⟩ := hverified algorithm expected hselected
    exact hhonest.checked hselected hdigest hdecode algorithm expected hselected
  | streaming hstream hselected =>
    refine ⟨(fun b hb => by cases hb), fun o ho => ?_⟩
    have hnone : ∀ ret, Checked checksumCls context r.headers sent ret := by
      intro ret a e hae
      rw [hselected] at hae
      cases hae
    cases hraw : r.raw with
    | aiohttp =>
      rw [hraw] at ho
      cases ho
      exact ends_complete _ haiohttp fun ret hret => ⟨hret, hnone ret⟩
    | httpx =>
      rw [hraw] at ho
      cases ho
      exact ends_complete _ hhttpx fun ret hret => ⟨hret, hnone ret⟩
  | @checksum algorithm expected hstream hselected hknown =>
    refine ⟨(fun b hb => by cases hb), fun o ho => ?_⟩
    obtain ⟨digest, hdigest⟩ := Option.isSome_iff_exists.1 hknown
    have hboth : ∀ ret, LengthOk (announced int r.headers) ret.length ∧ DigestOk digest expected ret →
        Complete int checksumCls context r sent ret :=
      fun ret hret => ⟨hret.1, hhonest.checked hselected hdigest hret.2⟩
    cases hraw : r.raw with
    | aiohttp =>
      rw [hraw, streamingBody, hdigest] at ho
      cases ho
      exact ends_complete _ (mixin_new haiohttp digest expected) hboth
    | httpx =>
      rw [hraw, streamingBody, hdigest] at ho
      cases ho
      exact ends_complete _ (mixin_new hhttpx digest expected) hboth

/-! ## What arrives intact -/

variable (R int) in
/-- what was sent arrives, and is as long as announced -/
structure Arrives (raw : Raw ρ) (r : HttpResponse) (sent : Bytes) : Prop where
  content : r.content = sent
  aiohttp : r.raw = .aiohttp → (R.read raw.content (-1)).1 = .ok sent
  httpx : r.raw = .httpx → Intact raw.events ∧ undelivered raw.events = sent
  length : LengthOk (announced int r.headers) sent.length

theorem verify_of_lengthOk {contentLength : Option ℤ} {n : ℕ} (h : LengthOk contentLength n) :
    verifyContentLength contentLength n = .ok () := by
  cases contentLength with
  | none => rfl
  | some k => rw [verifyContentLength, if_neg (not_not.2 (h k rfl))]

theorem aiohttp_reads {content : ρ} (h : (R.read content (-1)).1 = .ok sent) {contentLength : Option ℤ}
    (hlength : LengthOk contentLength sent.length) (url : String) :
    ((aioStreamingBody R).read (AioStreamingBody.new url content contentLength) none).1 = .ok sent := by
  simp only [aioStreamingBody, AioStreamingBody.read, AioStreamingBody.new, Option.getD_none]
  generalize R.read content (-1) = res at h
  obtain ⟨x, content'⟩ := res
  cases h
  simp [atEnd, verify_of_lengthOk hlength, Except.map]

theorem httpx_reads {events : List Event} (h : Intact events) {contentLength : Option ℤ}
    (hlength : LengthOk contentLength (undelivered events).length) (url : String) :
    (aioHttpxStreamingBody.read (AioHttpxStreamingBody.new url events contentLength) none).1 =
      .ok (undelivered events) := by
  let s := AioHttpxStreamingBody.new url events contentLength
  have hall : s.readAll.1 = .ok (undelivered events) := (readAll_ok_iff s _).2 ⟨h, rfl⟩
  obtain ⟨hamount, hannounced⟩ := readAll_counts s
  show (AioHttpxStreamingBody.counted none s.readAll).1 = .ok (undelivered events)
  generalize s.readAll = res at hall hamount hannounced
  obtain ⟨x, t⟩ := res
  cases hall
  have hcount : t.amountRead + (undelivered events).length = (undelivered events).length := by
    rw [show t.amountRead = 0 from hamount, Nat.zero_add]
  have hcl : t.contentLength = contentLength := hannounced
  simp [AioHttpxStreamingBody.counted, atEnd, hcount, hcl, verify_of_lengthOk hlength, Except.map]

theorem mixin_reads {β : Type} {C : BodyClass β} {b : β} (h : (C.read b none).1 = .ok sent) {digest : Bytes → Bytes}
    {expected : String} (hexpected : b64decode expected = some (digest sent)) :
    ((checksumMixin digest C).read (ChecksumBody.new b expected) none).1 = .ok sent := by
  have hread : C.read (ChecksumBody.new b expected).body none = (.ok sent, (C.read b none).2) := by
    rw [← h]
    rfl
  have hmixin := ChecksumBody.read_of_ok digest hread
  simp only [checksumMixin, hmixin]
  simp [atEnd, ChecksumBody.validateChecksum, ChecksumBody.new, hexpected, Except.map]

/-- one `read()` gives what was sent -/
theorem Made.reads {body : Body} (h : Made checksumCls m context r body) (hhonest : Honest checksumCls r.headers sent)
    {raw : Raw ρ} (harrives : Arrives R int raw r sent) :
    body = .bytes sent ∨
      ∃ o, streamingBody R int checksumCls raw body = some o ∧ (o.cls.read o.body none).1 = .ok sent := by
  obtain ⟨hcontent, haiohttp, hhttpx, hlength⟩ := harrives
  cases h with
  | bytes => exact .inl (by rw [hcontent])
  | streaming =>
    right
    cases hraw : r.raw with
    | aiohttp => exact ⟨_, rfl, aiohttp_reads (haiohttp hraw) hlength raw.url⟩
    | httpx =>
      obtain ⟨hintact, rfl⟩ := hhttpx hraw
      exact ⟨_, rfl, httpx_reads hintact hlength raw.url⟩
  | @checksum algorithm expected hstream hselected hknown =>
    right
    obtain ⟨digest, hdigest⟩ := Option.isSome_iff_exists.1 hknown
    have hexpected := hhonest.digest_eq hselected hdigest
    cases hraw : r.raw with
    | aiohttp =>
      rw [streamingBody, hdigest]
      exact ⟨_, rfl, mixin_reads (aiohttp_reads (haiohttp hraw) hlength raw.url) hexpected⟩
    | httpx =>
      obtain ⟨hintact, rfl⟩ := hhttpx hraw
      rw [streamingBody, hdigest]
      exact ⟨_, rfl, mixin_reads (httpx_reads hintact hlength raw.url) hexpected⟩

/-- **Downloads.** Let the checksums in the headers be of what was sent, and the algorithms that are asked for be known.
Whatever arrives, on either backend: bytes that are given to handlers and parser have the checksum of what was sent, for
the first algorithm that is asked for and has one in the headers (their length is not looked at), and so has everything
that has been read of a stream when any call, or any iterator with a positive chunk size, reports its end (`read` of a
negative amount reads all there is and does not report it); what was read is then also as long as announced. And when
what was sent arrives, it is given, or read. -/
theorem download_intact (hstatus : r.statusCode < 300) (hevents : m.hasEventStreamOutput = false)
    (hhonest : Honest checksumCls r.headers sent)
    (hknown : ∀ algorithm ∈ responseAlgorithms context, (checksumCls algorithm).isSome)
    (handlers : List ErrorBody.Handler) (raw : Raw ρ) :
    (∀ given, doGetResponse checksumCls handlers m context r = .ok given → ∀ d ∈ given,
      (∀ b, d.body = .bytes b → b = r.content ∧ Checked checksumCls context r.headers sent b) ∧
        ∀ o, streamingBody R int checksumCls raw d.body = some o →
          EndsVerified o.cls o.body (Complete int checksumCls context r sent)) ∧
      (Arrives R int raw r sent → ∃ given, doGetResponse checksumCls handlers m context r = .ok given ∧ ∀ d ∈ given,
        d.body = .bytes sent ∨
          ∃ o, streamingBody R int checksumCls raw d.body = some o ∧ (o.cls.read o.body none).1 = .ok sent) := by
  obtain ⟨hmade, hgiven⟩ := doGetResponse_body checksumCls context hstatus hevents handlers
  refine ⟨fun given hok d hd => (hmade given hok d hd).complete hhonest raw, fun harrives => ?_⟩
  have hgood : ∀ algorithm expected, selected context r.headers = some (algorithm, expected) →
      (checksumCls algorithm).isSome ∧
        (m.hasStreamingOutput = false → Verified checksumCls r.content algorithm expected) := by
    intro algorithm expected hselected
    have hsome := hknown algorithm (selected_spec hselected).1
    refine ⟨hsome, fun _ => ?_⟩
    obtain ⟨digest, hdigest⟩ := Option.isSome_iff_exists.1 hsome
    rw [harrives.content]
    exact ⟨digest, hdigest, hhonest.digest_eq hselected hdigest⟩
  obtain ⟨given, hok⟩ := hgiven hgood
  exact ⟨given, hok, fun d hd => (hmade given hok d hd).reads hhonest harrives⟩

/-! ## An instance -/

/-- an object of five bytes, with its checksum, from `httpx` -/
def helloResponse : HttpResponse where
  statusCode := 200
  headers := Http.ResponseHeaders.headersDict [("Content-Length", "5"), ("X-Amz-Checksum-Crc32", "NhCmhg==")]
  content := ErrorBody.hello
  raw := .httpx

/-- it arrives in two chunks -/
def helloRaw : Raw (List Event) := ⟨"", [], [.chunk [104, 101], .chunk [108, 108, 111]]⟩

def five (s : String) : ℤ := if s = "5" then 5 else 0

theorem checksumOf_hello : checksumOf helloResponse.headers "crc32" = some "NhCmhg==" := by decide +kernel

theorem announced_hello : announced five helloResponse.headers = some 5 := by decide +kernel

theorem honest_hello : Honest ErrorBody.crc32Only helloResponse.headers ErrorBody.hello := by
  intro algorithm expected digest hexpected hdigest
  have halgorithm : algorithm = "crc32" ∧ ErrorBody.crc32Digest = digest := by
    simpa [ErrorBody.crc32Only] using hdigest
  obtain ⟨rfl, rfl⟩ := halgorithm
  rw [checksumOf_hello] at hexpected
  cases hexpected
  decide +kernel

theorem arrives_hello : Arrives eventReader five helloRaw helloResponse ErrorBody.hello where
  content := rfl
  aiohttp h := by cases h
  httpx _ := ⟨by simp [Intact, helloRaw], rfl⟩
  length n hn := by
    rw [announced_hello] at hn
    cases hn
    rfl

/-- the body of `GetObject` is made, and one `read()` gives the object -/
theorem download_intact_hello : ∃ given,
    doGetResponse ErrorBody.crc32Only [] ErrorBody.getObject ErrorBody.crc32Context helloResponse = .ok given ∧
      ∀ d ∈ given, d.body = .bytes ErrorBody.hello ∨
        ∃ o, streamingBody eventReader five ErrorBody.crc32Only helloRaw d.body = some o ∧
          (o.cls.read o.body none).1 = .ok ErrorBody.hello :=
  (download_intact (R := eventReader) (by decide) rfl honest_hello (by decide) [] helloRaw).2 arrives_hello

end AioBotocore.Endpoint.Download
