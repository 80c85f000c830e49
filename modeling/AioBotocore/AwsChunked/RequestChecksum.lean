/-
`apply_request_checksum` of `httpchecksum.py`: the request before it is sent, with a checksum in its headers, or in a
trailer behind the body. With a trailer the body is wrapped in `AioAwsChunkedWrapper` and the headers say so.

Of botocore are the checksum classes, the chunk size of the wrapper, `determine_content_length` and the checksums in
headers. What a service does with the upload is `receive`: the headers and the bytes of the body give the content, checked
against the trailer and against the length announced for it.

- `trailer_headers`: the headers of an upload with a trailer.
- `receive_encode`: when the receiver accepts an encoded body.
- `trailer_upload`: what is uploaded with a trailer arrives, unless the caller announced a length that is wrong.
-/
import Mathlib.Tactic
import Std.Data.String.ToInt
import AioBotocore.AwsChunked.Wrapper
import AioBotocore.Base64
import AioBotocore.Retries.RetryHandler

namespace AioBotocore.AwsChunked

open Async Octets Function

/-! ## Model -/

/-- `request_algorithm`: `"conditional-md5"` or a dict; `location` is `"in"` -/
inductive RequestAlgorithm where
  | conditionalMd5
  | dict (algorithm location name : String)
deriving DecidableEq, Repr

structure ChecksumContext where
  requestAlgorithm : Option RequestAlgorithm
  requestAlgorithmHeader : Option (String × String)
deriving DecidableEq, Repr

/-- the body of a request dict: bytes, or an object with a `read` -/
inductive Body (ε : Type) : Type 1 where
  | bytes (b : Bytes)
  | stream {ρ : Type} (R : RawStream ρ ε)

/-- the body that is sent -/
inductive Upload (ε : Type) : Type 1 where
  | plain (body : Body ε)
  | chunked {ρ : Type} (R : RawStream ρ ε) (C : Cfg)

structure Request (β : Type 1) where
  headers : String → Option String
  body : β
  context : ChecksumContext

inductive Exn where
  | flexibleChecksumError (errorMsg : String)
  | valueError (text : String)
  | other (text : String)
deriving DecidableEq, Repr

variable {ε : Type}

def Body.content : Body ε → Bytes
  | .bytes b => b
  | .stream R => R.rest R.start

structure Botocore (ε : Type) where
  /-- `_CHECKSUM_CLS.get` -/
  checksumCls : String → Option (Bytes → Bytes)
  chunkSize : ℕ+
  determineContentLength : Body ε → Option ℕ
  applyRequestHeaderChecksum : Request (Body ε) → Except Exn (Request (Body ε))
  conditionallyCalculateMd5 : Request (Body ε) → Except Exn (Request (Body ε))
  determine_spec : ∀ body n, determineContentLength body = some n → n = body.content.length

/-- `read` of `io.BytesIO` -/
def readAt (b : Bytes) (pos n : ℕ) : Except ε Bytes := .ok ((b.drop pos).take n)

def restAt (b : Bytes) (pos : ℕ) : Bytes := b.drop pos

theorem readAt_rest {b c : Bytes} {pos n : ℕ} (h : (readAt b pos n : Except ε Bytes) = .ok c) :
    restAt b pos = c ++ restAt b (pos + n) := by
  rw [← Except.ok.inj h, restAt, restAt, ← List.drop_drop, List.take_append_drop]

theorem readAt_length {b c : Bytes} {pos n : ℕ} (h : (readAt b pos n : Except ε Bytes) = .ok c) : c.length ≤ n := by
  rw [← Except.ok.inj h]
  exact List.length_take_le n _

theorem readAt_nil {b : Bytes} {pos n : ℕ} (hn : 0 < n) (h : (readAt b pos n : Except ε Bytes) = .ok []) :
    restAt b pos = [] :=
  (List.take_eq_nil_iff.1 (Except.ok.inj h)).resolve_left hn.ne'

/-- `io.BytesIO` -/
def bytesIo (b : Bytes) : RawStream ℕ ε where
  read pos n := (readAt b pos n, pos + n)
  seek _ := 0
  start := 0
  rest := restAt b
  read_rest _ _ _ _ h := readAt_rest h
  read_length _ _ _ _ h := readAt_length h
  read_nil _ _ hn h := readAt_nil hn h
  seek_rest _ := rfl

def wrapped (C : Cfg) : Body ε → Upload ε
  | .bytes b => .chunked (bytesIo b) C
  | .stream R => .chunked R C

/-- the length of the body, or else the one in the headers -/
def contentLength (B : Botocore ε) (request : Request (Body ε)) : Except Exn (Option ℤ) :=
  match B.determineContentLength request.body with
  | some n => .ok (some n)
  | none =>
    match request.headers "Content-Length" with
    | none => .ok none
    | some text =>
      match RetryHandler.int text with
      | some n => .ok (some n)
      | none => .error (.valueError text)

def chunkedEncoding (encoding : Option String) : String :=
  match encoding with
  | some encoding => encoding ++ ",aws-chunked"
  | none => "aws-chunked"

/-- the headers of `_apply_request_trailer_checksum` -/
def trailerHeaders (locationName : String) (length : Option ℤ) (headers : String → Option String) :
    String → Option String :=
  let headers := update headers "Transfer-Encoding" (some "chunked")
  let headers := update headers "Content-Encoding" (some (chunkedEncoding (headers "Content-Encoding")))
  let headers := update headers "X-Amz-Trailer" (some locationName)
  let headers :=
    match length with
    | some n => update headers "X-Amz-Decoded-Content-Length" (some n.repr)
    | none => headers
  update headers "Content-Length" none

def applyRequestTrailerChecksum (B : Botocore ε) (algorithm locationName : String) (request : Request (Body ε)) :
    Except Exn (Request (Upload ε)) :=
  if (request.headers locationName).isSome then .ok { request with body := .plain request.body }
  else
    match contentLength B request with
    | .error e => .error e
    | .ok length => .ok { request with
        headers := trailerHeaders locationName length request.headers
        body := wrapped ⟨B.chunkSize, locationName, B.checksumCls algorithm⟩ request.body }

def Request.plain (request : Request (Body ε)) : Request (Upload ε) := { request with body := .plain request.body }

/-- the header that names the algorithm -/
def Request.addAlgorithmHeader {β : Type 1} (request : Request β) : Request β :=
  match request.context.requestAlgorithmHeader with
  | some (name, value) => { request with headers := update request.headers name (some value) }
  | none => request

def applyRequestChecksum (B : Botocore ε) (request : Request (Body ε)) : Except Exn (Request (Upload ε)) :=
  match request.context.requestAlgorithm with
  | none => .ok request.plain
  | some algorithm => do
    let request ←
      match algorithm with
      | .conditionalMd5 => Request.plain <$> B.conditionallyCalculateMd5 request
      | .dict algorithm location name =>
        if location = "header" then Request.plain <$> B.applyRequestHeaderChecksum request
        else if location = "trailer" then applyRequestTrailerChecksum B algorithm name request
        else .error (.flexibleChecksumError ("Unknown checksum variant: " ++ location))
    return request.addAlgorithmHeader

/-! ## The receiver -/

structure Received where
  content : Bytes
  contentEncoding : Option String
deriving DecidableEq, Repr

/-- the encoding that was there before `aws-chunked` -/
def stripChunked (encoding : String) : Option (Option String) :=
  let suffix := ",aws-chunked".toList
  if encoding = "aws-chunked" then some none
  else if suffix <:+ encoding.toList then
    some (some (String.ofList (encoding.toList.take (encoding.toList.length - suffix.length))))
  else none

/-- the value in a trailer of one line, under the name that was announced -/
def trailerValue (name : String) (trailer : Bytes) : Option Bytes :=
  let label := ascii name ++ ascii ":"
  let rest := trailer.drop label.length
  if trailer = label ++ rest.take (rest.length - 4) ++ (crlf ++ crlf) then some (rest.take (rest.length - 4)) else none

/-- what a service makes of the headers and the body; `digest` belongs to the trailer -/
def receive (digest : Bytes → Bytes) (headers : String → Option String) (encoded : Bytes) : Option Received := do
  let encoding ← (headers "Content-Encoding").bind stripChunked
  let name ← headers "X-Amz-Trailer"
  let (chunks, trailer) ← decode encoded
  let value ← trailerValue name trailer
  let content := chunks.flatten
  if b64decode (decodeLatin1 value) = some (digest content) ∧
      ∀ text ∈ headers "X-Amz-Decoded-Content-Length", text.toInt? = some (content.length : ℤ) then
    return ⟨content, encoding⟩
  else none

/-! ## The headers -/

/-- the headers that an upload with a trailer sets or removes -/
def touched : List String :=
  ["Transfer-Encoding", "Content-Encoding", "X-Amz-Trailer", "X-Amz-Decoded-Content-Length", "Content-Length"]

theorem trailer_headers (locationName : String) (length : Option ℤ) (headers : String → Option String) :
    let headers' := trailerHeaders locationName length headers
    headers' "Transfer-Encoding" = some "chunked" ∧
      headers' "Content-Encoding" = some (chunkedEncoding (headers "Content-Encoding")) ∧
      headers' "X-Amz-Trailer" = some locationName ∧
      headers' "X-Amz-Decoded-Content-Length" =
        length.elim (headers "X-Amz-Decoded-Content-Length") (fun n => some n.repr) ∧
      headers' "Content-Length" = none ∧ ∀ name, name ∉ touched → headers' name = headers name := by
  intro headers'
  cases length with
  | none =>
    refine ⟨rfl, rfl, rfl, rfl, rfl, fun name hname => ?_⟩
    simp only [touched, List.mem_cons, List.not_mem_nil, or_false, not_or] at hname
    obtain ⟨h1, h2, h3, h4, h5⟩ := hname
    simp only [headers', trailerHeaders, update_of_ne h1, update_of_ne h2, update_of_ne h3, update_of_ne h5]
  | some n =>
    refine ⟨rfl, rfl, rfl, rfl, rfl, fun name hname => ?_⟩
    simp only [touched, List.mem_cons, List.not_mem_nil, or_false, not_or] at hname
    obtain ⟨h1, h2, h3, h4, h5⟩ := hname
    simp only [headers', trailerHeaders, update_of_ne h1, update_of_ne h2, update_of_ne h3, update_of_ne h4,
      update_of_ne h5]

theorem stripChunked_chunkedEncoding (encoding : Option String) :
    stripChunked (chunkedEncoding encoding) = some encoding := by
  cases encoding with
  | none => rfl
  | some encoding =>
    have hsuffix : ",aws-chunked".toList <:+ (encoding ++ ",aws-chunked").toList := by
      rw [String.toList_append]
      exact List.suffix_append _ _
    have hne : encoding ++ ",aws-chunked" ≠ "aws-chunked" := by
      intro heq
      have hlen := congrArg (fun s => s.toList.length) heq
      have hsmall : "aws-chunked".toList.length = 11 := rfl
      have hlarge : ",aws-chunked".toList.length = 12 := rfl
      simp only [String.toList_append, List.length_append] at hlen
      omega
    have htake : (encoding ++ ",aws-chunked").toList.take
        ((encoding ++ ",aws-chunked").toList.length - ",aws-chunked".toList.length) = encoding.toList := by
      rw [String.toList_append, List.length_append, Nat.add_sub_cancel, List.take_left]
    rw [stripChunked, chunkedEncoding, if_neg hne, if_pos hsuffix, htake, String.ofList_toList]

/-! ## The receiver of an encoded body -/

theorem decodeLatin1_ascii {s : String} (h : ∀ c ∈ s.toList, c.toNat < 128) : decodeLatin1 (ascii s) = s := by
  have hchars : (s.toList.map fun c => UInt8.ofNat c.toNat).map (fun b => Char.ofNat b.toNat) = s.toList := by
    rw [List.map_map]
    conv_rhs => rw [← List.map_id s.toList]
    refine List.map_congr_left fun c hc => ?_
    have hsmall : c.toNat < UInt8.size := (h c hc).trans (by decide)
    rw [Function.comp_apply, id_eq, UInt8.toNat_ofNat_of_lt' hsmall, Char.ofNat_toNat]
  rw [decodeLatin1, ascii, hchars, String.ofList_toList]

theorem trailerValue_label (name : String) (value : Bytes) :
    trailerValue name (ascii name ++ ascii ":" ++ value ++ crlf ++ crlf) = some value := by
  have hdrop : (ascii name ++ ascii ":" ++ value ++ crlf ++ crlf).drop (ascii name ++ ascii ":").length =
      value ++ (crlf ++ crlf) := by
    rw [List.append_assoc, List.append_assoc, List.drop_left]
  have htake : (value ++ (crlf ++ crlf)).take ((value ++ (crlf ++ crlf)).length - 4) = value := by
    have hlen : (crlf ++ crlf).length = 4 := rfl
    rw [List.length_append, hlen, Nat.add_sub_cancel, List.take_left]
  rw [trailerValue]
  simp only [hdrop, htake]
  rw [if_pos (by simp only [List.append_assoc])]

/-- the trailer is there, names what was announced, and its digest is right -/
theorem receive_encode (digest : Bytes → Bytes) (chunkSize : ℕ+) {name : String} {chunks : List Bytes}
    (hchunks : ∀ c ∈ chunks, c ≠ []) {headers : String → Option String} {encoding : Option String}
    (hencoding : headers "Content-Encoding" = some (chunkedEncoding encoding))
    (htrailer : headers "X-Amz-Trailer" = some name) :
    receive digest headers (encode chunks ((⟨chunkSize, name, some digest⟩ : Cfg).trailer chunks.flatten)) =
      if ∀ text ∈ headers "X-Amz-Decoded-Content-Length", text.toInt? = some (chunks.flatten.length : ℤ) then
        some ⟨chunks.flatten, encoding⟩
      else none := by
  have hvalue : trailerValue name ((⟨chunkSize, name, some digest⟩ : Cfg).trailer chunks.flatten) =
      some (ascii (b64encode (digest chunks.flatten))) := trailerValue_label name _
  have hascii : ∀ c ∈ (b64encode (digest chunks.flatten)).toList, c.toNat < 128 := by
    rw [b64encode, String.toList_ofList]
    exact encodeGroups_ascii _
  have hdigest : b64decode (decodeLatin1 (ascii (b64encode (digest chunks.flatten)))) = some (digest chunks.flatten) := by
    rw [decodeLatin1_ascii hascii, b64decode_b64encode]
  simp only [receive, hencoding, Option.bind_some, stripChunked_chunkedEncoding, htrailer,
    decode_encode hchunks, hvalue, Option.bind_eq_bind, hdigest, true_and]
  rfl

/-! ## An upload with a trailer -/

/-- the body of an upload reads as the encoding of `content` with the trailer that `C` asks for -/
inductive Sends (C : Cfg) (content : Bytes) : Upload ε → Prop
  | mk {ρ : Type} (R : RawStream ρ ε) (hcontent : R.rest R.start = content) : Sends C content (.chunked R C)

theorem wrapped_sends (C : Cfg) (body : Body ε) : Sends C body.content (wrapped C body) := by
  cases body with
  | bytes b => exact .mk (bytesIo b) rfl
  | stream R => exact .mk R rfl

/-- what the receiver gets when the raw stream delivers `chunks` -/
def Arrives (digest : Bytes → Bytes) (headers : String → Option String) (out : Option Received) : Upload ε → Prop
  | .plain _ => False
  | .chunked R C => ∀ chunks, Delivers R C.chunkSize R.start chunks →
      ∃ encoded, AioAwsChunkedWrapper.Produces R C (AioAwsChunkedWrapper.new R.start) encoded ∧
        receive digest headers encoded = out

theorem Sends.arrives {digest : Bytes → Bytes} {chunkSize : ℕ+} {name : String} {content : Bytes} {upload : Upload ε}
    (h : Sends ⟨chunkSize, name, some digest⟩ content upload) {headers : String → Option String}
    {encoding : Option String} (hencoding : headers "Content-Encoding" = some (chunkedEncoding encoding))
    (htrailer : headers "X-Amz-Trailer" = some name) :
    Arrives digest headers
      (if ∀ text ∈ headers "X-Amz-Decoded-Content-Length", text.toInt? = some (content.length : ℤ) then
        some ⟨content, encoding⟩
      else none) upload := by
  cases h with
  | mk R hcontent =>
    intro chunks hdelivers
    have hpos : 0 < (chunkSize : ℕ) := chunkSize.pos
    have hflat : chunks.flatten = content := (hdelivers.flatten hpos).trans hcontent
    have hreceive := receive_encode digest chunkSize (fun c hc => (hdelivers.chunk hpos c hc).1) hencoding htrailer
    rw [hflat] at hreceive
    refine ⟨_, AioAwsChunkedWrapper.new_produces hdelivers, ?_⟩
    rw [hflat]
    exact hreceive

/-- the length that the headers announce for the content, if they do, is its length -/
def Announced (B : Botocore ε) (request : Request (Body ε)) : Prop :=
  match contentLength B request with
  | .ok (some n) => n = request.body.content.length
  | .ok none => ∀ text ∈ request.headers "X-Amz-Decoded-Content-Length",
      text.toInt? = some (request.body.content.length : ℤ)
  | .error _ => False

/-- it is when botocore knows the length -/
theorem announced_of_determined {B : Botocore ε} {request : Request (Body ε)} {n : ℕ}
    (h : B.determineContentLength request.body = some n) : Announced B request := by
  have hlength := B.determine_spec _ _ h
  simp [Announced, contentLength, h, hlength]

theorem announced_iff {B : Botocore ε} {request : Request (Body ε)} {length : Option ℤ}
    (h : contentLength B request = .ok length) (name : String) :
    Announced B request ↔ ∀ text ∈ trailerHeaders name length request.headers "X-Amz-Decoded-Content-Length",
      text.toInt? = some (request.body.content.length : ℤ) := by
  rw [(trailer_headers name length request.headers).2.2.2.1, Announced, h]
  cases length with
  | none => exact Iff.rfl
  | some n => simp [Int.toInt?_repr]

theorem addAlgorithmHeader_headers {β : Type 1} (request : Request β) {name : String}
    (h : ∀ a ∈ request.context.requestAlgorithmHeader, name ≠ a.1) :
    request.addAlgorithmHeader.headers name = request.headers name := by
  unfold Request.addAlgorithmHeader
  cases ha : request.context.requestAlgorithmHeader with
  | none => rfl
  | some a =>
    have hne : name ≠ a.1 := h a (by rw [ha]; rfl)
    exact update_of_ne hne _ _

theorem addAlgorithmHeader_body {β : Type 1} (request : Request β) : request.addAlgorithmHeader.body = request.body := by
  unfold Request.addAlgorithmHeader
  split <;> rfl

/-- the request that carries its checksum in a trailer -/
theorem applyRequestChecksum_trailer {B : Botocore ε} {request : Request (Body ε)} {algorithm name : String}
    (hcontext : request.context.requestAlgorithm = some (.dict algorithm "trailer" name))
    (hunset : request.headers name = none) :
    applyRequestChecksum B request =
      match contentLength B request with
      | .error e => .error e
      | .ok length => .ok (Request.addAlgorithmHeader { request with
          headers := trailerHeaders name length request.headers
          body := wrapped ⟨B.chunkSize, name, B.checksumCls algorithm⟩ request.body }) := by
  have hkind : ¬ "trailer" = "header" := by decide
  have hset : ¬ (request.headers name).isSome = true := by simp [hunset]
  simp only [applyRequestChecksum, hcontext]
  rw [if_neg hkind, if_pos trivial, applyRequestTrailerChecksum, if_neg hset]
  cases contentLength B request <;> rfl

/-- **Uploads with a trailer.** Let the header that names the algorithm, if there is one, be none of those that make the
upload (`touched`). The only failure is a `Content-Length` of the caller that is no number, when botocore cannot tell the
length. Otherwise the receiver of the headers and of whatever is read from the body, in pieces of any size and
however the body delivers its bytes, gets the content and the encoding that were given, iff the announced length is right;
it rejects the upload if not. The other headers are as they were. -/
theorem trailer_upload (B : Botocore ε) (request : Request (Body ε)) (algorithm name : String) (digest : Bytes → Bytes)
    (hcontext : request.context.requestAlgorithm = some (.dict algorithm "trailer" name))
    (hcls : B.checksumCls algorithm = some digest) (hunset : request.headers name = none)
    (hheader : ∀ a ∈ request.context.requestAlgorithmHeader, a.1 ∉ touched) :
    (∀ e, applyRequestChecksum B request = .error e ↔ contentLength B request = .error e) ∧
      ∀ request', applyRequestChecksum B request = .ok request' →
        (Announced B request → Arrives digest request'.headers
          (some ⟨request.body.content, request.headers "Content-Encoding"⟩) request'.body) ∧
        (¬ Announced B request → Arrives digest request'.headers none request'.body) ∧
        request'.headers "Transfer-Encoding" = some "chunked" ∧ request'.headers "Content-Length" = none ∧
        ∀ h, h ∉ touched → (∀ a ∈ request.context.requestAlgorithmHeader, h ≠ a.1) →
          request'.headers h = request.headers h := by
  rw [applyRequestChecksum_trailer hcontext hunset]
  cases hlength : contentLength B request with
  | error e =>
    refine ⟨fun e' => ?_, fun request' h => by cases h⟩
    simp
  | ok length =>
    refine ⟨fun e => by simp, fun request' happlied => ?_⟩
    obtain rfl := Except.ok.inj happlied
    obtain ⟨htransfer, hencoding, htrailer, -, hremoved, hothers⟩ := trailer_headers name length request.headers
    generalize hsent : ({ request with
      headers := trailerHeaders name length request.headers
      body := wrapped ⟨B.chunkSize, name, B.checksumCls algorithm⟩ request.body } : Request (Upload ε)) = sent
    have hheaders : sent.headers = trailerHeaders name length request.headers := by rw [← hsent]
    have hsame : sent.context.requestAlgorithmHeader = request.context.requestAlgorithmHeader := by rw [← hsent]
    have hbody : Sends ⟨B.chunkSize, name, some digest⟩ request.body.content sent.addAlgorithmHeader.body := by
      rw [addAlgorithmHeader_body, ← hsent, hcls]
      exact wrapped_sends _ _
    -- the header that names the algorithm is none of these
    have hkept : ∀ h ∈ touched, sent.addAlgorithmHeader.headers h = trailerHeaders name length request.headers h := by
      intro h hmem
      rw [addAlgorithmHeader_headers, hheaders]
      rw [hsame]
      rintro a ha rfl
      exact hheader a ha hmem
    have harrives := hbody.arrives ((hkept _ (by decide)).trans hencoding) ((hkept _ (by decide)).trans htrailer)
    rw [hkept _ (by decide)] at harrives
    have hannounced := announced_iff hlength name
    refine ⟨fun h => ?_, fun h => ?_, (hkept _ (by decide)).trans htransfer, (hkept _ (by decide)).trans hremoved,
      fun h hmem hne => ?_⟩
    · rwa [if_pos (hannounced.1 h)] at harrives
    · rwa [if_neg (fun hall => h (hannounced.2 hall))] at harrives
    · rw [addAlgorithmHeader_headers _ (by rwa [hsame]), hheaders]
      exact hothers h hmem

/-! ## An instance -/

/-- a checksum of one byte, the sum of the bytes -/
def sumDigest (content : Bytes) : Bytes := [content.foldl (· + ·) 0]

/-- the length of bytes is known, that of streams is not -/
def sums : Botocore Empty where
  checksumCls algorithm := if algorithm = "sum" then some sumDigest else none
  chunkSize := 4
  determineContentLength
    | .bytes b => some b.length
    | .stream _ => none
  applyRequestHeaderChecksum request := .ok request
  conditionallyCalculateMd5 request := .ok request
  determine_spec body n h := by
    cases body with
    | bytes b => exact (Option.some.inj h).symm
    | stream R => cases h

/-- a compressed body of five bytes, and its length -/
def gzipped : Request (Body Empty) where
  headers := update (update (fun _ => none) "Content-Encoding" (some "gzip")) "Content-Length" (some "5")
  body := .bytes (ascii "hello")
  context := ⟨some (.dict "sum" "trailer" "x-amz-checksum-sum"), some ("x-amz-sdk-checksum-algorithm", "SUM")⟩

theorem trailer_upload_gzipped :
    ∃ request', applyRequestChecksum sums gzipped = .ok request' ∧
      Arrives sumDigest request'.headers (some ⟨ascii "hello", some "gzip"⟩) request'.body := by
  have hupload := trailer_upload sums gzipped "sum" "x-amz-checksum-sum" sumDigest rfl rfl rfl
    (by rintro a ⟨⟩; decide)
  exact ⟨_, rfl, (hupload.2 _ rfl).1 (announced_of_determined (n := 5) rfl)⟩

end AioBotocore.AwsChunked
