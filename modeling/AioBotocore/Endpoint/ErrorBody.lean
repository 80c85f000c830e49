/-
The body of a response on its way to the parser: `AioEndpoint._do_get_response` once there is a response, with
`convert_to_response_dict` and `handle_checksum_body`.

`convert_to_response_dict` looks at the status, `handle_checksum_body` does not: it replaces the body by the headers and
the shape of the output alone.

`checksumCls` is botocore's `_CHECKSUM_CLS`, which gives the digest of an algorithm that it knows. A handler on
`before-parse` may change the response dict, but not its body.

- `handleAlgorithms_spec`: the first algorithm with a usable checksum in the headers decides.
- `replaceBody_delivers`, `replaceBody_wraps`: when the body that it sets is the content.
- `error_body_iff`: the content of an error reaches handlers and parser iff no checksum is found, or the output is not
  streaming and the checksum is right; they are never given a stream iff the output is not streaming or no known
  algorithm has a checksum.
- `stream_given`: a `GetObject` that is not found.
-/
import AioBotocore.Http.ResponseHeaders

namespace AioBotocore.Endpoint.ErrorBody

open Octets Http.ResponseHeaders

/-! ## Model -/

inductive Exn where
  /-- the algorithm is unknown, and `None` is called -/
  | type
  | base64
  | flexibleChecksum (errorMsg : String)
deriving DecidableEq, Repr

inductive Backend where
  | aiohttp
  | httpx
deriving DecidableEq, Repr

structure HttpResponse where
  statusCode : ℕ
  headers : Dict
  /-- the complete content -/
  content : Bytes
  raw : Backend

structure OperationModel where
  name : String
  hasEventStreamOutput : Bool
  hasStreamingOutput : Bool
deriving DecidableEq, Repr

/-- the context of a request: under `checksum`, if it is there, its `response_algorithms` -/
structure Context where
  checksum : Option (Option (List String))
deriving DecidableEq, Repr

inductive Body where
  | bytes (b : Bytes)
  /-- `http_response.raw`, for an event stream -/
  | raw
  /-- `AioStreamingBody` or `AioHttpxStreamingBody` -/
  | streaming (raw : Backend) (contentLength : Option String)
  /-- `AioStreamingChecksumBody` or `AioHttpxStreamingChecksumBody` -/
  | streamingChecksum (raw : Backend) (contentLength : Option String) (algorithm expected : String)
deriving DecidableEq, Repr

structure ResponseDict where
  headers : Dict
  statusCode : ℕ
  operationName : String
  /-- `response['context']['checksum']['response_algorithm']` -/
  responseAlgorithm : Option String
  body : Body

def bodyOf (r : HttpResponse) (m : OperationModel) : Body :=
  if 300 ≤ r.statusCode then .bytes r.content
  else if m.hasEventStreamOutput then .raw
  else if m.hasStreamingOutput then .streaming r.raw (get r.headers "content-length")
  else .bytes r.content

def convertToResponseDict (r : HttpResponse) (m : OperationModel) : ResponseDict where
  headers := r.headers
  statusCode := r.statusCode
  operationName := m.name
  responseAlgorithm := none
  body := bodyOf r m

variable (checksumCls : String → Option (Bytes → Bytes))

/-- `_handle_streaming_response` -/
def handleStreamingResponse (r : HttpResponse) (d : ResponseDict) (algorithm expected : String) : Except Exn Body :=
  match checksumCls algorithm with
  | none => .error .type
  | some _ => .ok (.streamingChecksum r.raw (get d.headers "content-length") algorithm expected)

/-- `_handle_bytes_response` -/
def handleBytesResponse (r : HttpResponse) (algorithm expected : String) : Except Exn Body :=
  match checksumCls algorithm with
  | none => .error .type
  | some digest =>
    match b64decode expected with
    | none => .error .base64
    | some b =>
      if digest r.content ≠ b then
        .error (.flexibleChecksum ("Expected checksum " ++ expected ++ " did not match calculated checksum: " ++
          b64encode (digest r.content)))
      else .ok (.bytes r.content)

/-- the rest of `handle_checksum_body`, for the algorithm that is found -/
def replaceBody (m : OperationModel) (r : HttpResponse) (d : ResponseDict) (algorithm expected : String) :
    Except Exn ResponseDict :=
  (if m.hasStreamingOutput then handleStreamingResponse checksumCls r d algorithm expected
    else handleBytesResponse checksumCls r algorithm expected).map fun body =>
      { d with body := body, responseAlgorithm := some algorithm }

def headerName (algorithm : String) : String := "x-amz-checksum-" ++ algorithm

/-- the loop of `handle_checksum_body` -/
def handleAlgorithms (m : OperationModel) (r : HttpResponse) (d : ResponseDict) : List String → Except Exn ResponseDict
  | [] => .ok d
  | algorithm :: algorithms =>
    match get d.headers (headerName algorithm) with
    | none => handleAlgorithms m r d algorithms
    | some expected =>
      -- a checksum of the checksums of all parts
      if '-' ∈ expected.toList then handleAlgorithms m r d algorithms
      else replaceBody checksumCls m r d algorithm expected

def responseAlgorithms (context : Context) : List String := (context.checksum.getD none).getD []

def handleChecksumBody (m : OperationModel) (context : Context) (r : HttpResponse) (d : ResponseDict) :
    Except Exn ResponseDict :=
  handleAlgorithms checksumCls m r d (responseAlgorithms context)

/-- a handler on `before-parse` -/
structure Handler where
  call : ResponseDict → ResponseDict
  body : ∀ d, (call d).body = d.body

/-- `emit` and then `parse`: the response dicts that the handlers are given one after the other, and then the parser -/
def emitAndParse : List Handler → ResponseDict → List ResponseDict
  | [], d => [d]
  | handler :: handlers, d => d :: emitAndParse handlers (handler.call d)

/-- `_do_get_response`, from the response on: what the handlers and the parser are given -/
def doGetResponse (handlers : List Handler) (m : OperationModel) (context : Context) (r : HttpResponse) :
    Except Exn (List ResponseDict) :=
  (handleChecksumBody checksumCls m context r (convertToResponseDict r m)).map (emitAndParse handlers)

/-! ## What is given -/

/-- handlers and parser are reached and given the complete content -/
def Delivered (content : Bytes) (outcome : Except Exn (List ResponseDict)) : Prop :=
  ∃ given, outcome = .ok given ∧ ∀ d ∈ given, d.body = .bytes content

/-- whatever handlers and parser are given, it is the complete content -/
def NeverStream (content : Bytes) (outcome : Except Exn (List ResponseDict)) : Prop :=
  ∀ given, outcome = .ok given → ∀ d ∈ given, d.body = .bytes content

theorem emitAndParse_body (handlers : List Handler) (d : ResponseDict) :
    ∀ d' ∈ emitAndParse handlers d, d'.body = d.body := by
  induction handlers generalizing d with
  | nil =>
    intro d' hd'
    rw [List.mem_singleton.1 hd']
  | cons handler handlers ih =>
    intro d' hd'
    rcases List.mem_cons.1 hd' with rfl | hd'
    · rfl
    · rw [ih (handler.call d) d' hd', handler.body]

theorem mem_emitAndParse (handlers : List Handler) (d : ResponseDict) : d ∈ emitAndParse handlers d := by
  cases handlers with
  | nil => exact List.mem_cons_self
  | cons handler handlers => exact List.mem_cons_self

theorem emitAndParse_iff (handlers : List Handler) (d : ResponseDict) (body : Body) :
    (∀ d' ∈ emitAndParse handlers d, d'.body = body) ↔ d.body = body := by
  constructor
  · intro h
    exact h d (mem_emitAndParse handlers d)
  · intro h d' hd'
    rw [emitAndParse_body handlers d d' hd', h]

theorem delivered_map (content : Bytes) (handlers : List Handler) (x : Except Exn ResponseDict) :
    Delivered content (x.map (emitAndParse handlers)) ↔ ∃ d, x = .ok d ∧ d.body = .bytes content := by
  cases x with
  | error e => simp [Delivered, Except.map]
  | ok d => simp [Delivered, Except.map, emitAndParse_iff]

theorem neverStream_map (content : Bytes) (handlers : List Handler) (x : Except Exn ResponseDict) :
    NeverStream content (x.map (emitAndParse handlers)) ↔ ∀ d, x = .ok d → d.body = .bytes content := by
  cases x with
  | error e => simp [NeverStream, Except.map]
  | ok d => simp [NeverStream, Except.map, emitAndParse_iff]

/-! ## The algorithm that decides -/

/-- the checksum of an algorithm in the headers, if it is one of the content -/
def checksumOf (headers : Dict) (algorithm : String) : Option String :=
  (get headers (headerName algorithm)).filter fun expected => '-' ∉ expected.toList

/-- the first algorithm with a checksum -/
def selected (context : Context) (headers : Dict) : Option (String × String) :=
  (responseAlgorithms context).findSome? fun algorithm => (checksumOf headers algorithm).map fun expected =>
    (algorithm, expected)

theorem handleAlgorithms_spec (m : OperationModel) (r : HttpResponse) (d : ResponseDict) (algorithms : List String) :
    handleAlgorithms checksumCls m r d algorithms =
      ((algorithms.findSome? fun algorithm => (checksumOf d.headers algorithm).map fun expected =>
        (algorithm, expected)).map fun z => replaceBody checksumCls m r d z.1 z.2).getD (.ok d) := by
  induction algorithms with
  | nil => rfl
  | cons algorithm algorithms ih =>
    rw [handleAlgorithms, List.findSome?_cons, checksumOf]
    cases hget : get d.headers (headerName algorithm) with
    | none => exact ih
    | some expected =>
      by_cases hdash : '-' ∈ expected.toList
      · simp only [hdash, if_true, Option.filter_some, not_true, decide_false]
        exact ih
      · simp [hdash, Option.filter_some]

/-- the content has this checksum -/
def Verified (content : Bytes) (algorithm expected : String) : Prop :=
  ∃ digest, checksumCls algorithm = some digest ∧ b64decode expected = some (digest content)

theorem handleBytesResponse_ok (r : HttpResponse) (algorithm expected : String) (body : Body) :
    handleBytesResponse checksumCls r algorithm expected = .ok body ↔
      Verified checksumCls r.content algorithm expected ∧ body = .bytes r.content := by
  unfold handleBytesResponse Verified
  cases hcls : checksumCls algorithm with
  | none => simp
  | some digest =>
    cases hdecode : b64decode expected with
    | none => simp
    | some b =>
      by_cases hdigest : digest r.content = b
      · simp [hdigest, eq_comm]
      · simp [hdigest, Ne.symm hdigest]

theorem handleStreamingResponse_ok (r : HttpResponse) (d : ResponseDict) (algorithm expected : String) (body : Body) :
    handleStreamingResponse checksumCls r d algorithm expected = .ok body ↔
      (checksumCls algorithm).isSome ∧
        body = .streamingChecksum r.raw (get d.headers "content-length") algorithm expected := by
  unfold handleStreamingResponse
  cases hcls : checksumCls algorithm with
  | none => simp
  | some digest => simp [eq_comm]

theorem replaceBody_ok (m : OperationModel) (r : HttpResponse) (d d' : ResponseDict) (algorithm expected : String) :
    replaceBody checksumCls m r d algorithm expected = .ok d' ↔
      ∃ body, d' = { d with body := body, responseAlgorithm := some algorithm } ∧
        if m.hasStreamingOutput then (checksumCls algorithm).isSome ∧
          body = .streamingChecksum r.raw (get d.headers "content-length") algorithm expected
        else Verified checksumCls r.content algorithm expected ∧ body = .bytes r.content := by
  unfold replaceBody
  cases hstream : m.hasStreamingOutput with
  | true =>
    simp only [if_true, ← handleStreamingResponse_ok]
    cases handleStreamingResponse checksumCls r d algorithm expected with
    | error e => simp [Except.map]
    | ok body => simp [Except.map, eq_comm]
  | false =>
    simp only [Bool.false_eq_true, if_false, ← handleBytesResponse_ok]
    cases handleBytesResponse checksumCls r algorithm expected with
    | error e => simp [Except.map]
    | ok body => simp [Except.map, eq_comm]

theorem handleChecksumBody_spec (m : OperationModel) (context : Context) (r : HttpResponse) (d : ResponseDict) :
    handleChecksumBody checksumCls m context r d =
      ((selected context d.headers).map fun z => replaceBody checksumCls m r d z.1 z.2).getD (.ok d) :=
  handleAlgorithms_spec checksumCls m r d (responseAlgorithms context)

theorem replaceBody_delivers (m : OperationModel) (r : HttpResponse) (d : ResponseDict) (algorithm expected : String) :
    (∃ d', replaceBody checksumCls m r d algorithm expected = .ok d' ∧ d'.body = .bytes r.content) ↔
      m.hasStreamingOutput = false ∧ Verified checksumCls r.content algorithm expected := by
  simp only [replaceBody_ok]
  constructor
  · intro h
    obtain ⟨d', ⟨body, rfl, hbody⟩, hbytes⟩ := h
    cases hstream : m.hasStreamingOutput with
    | true =>
      rw [if_pos hstream] at hbody
      rw [hbody.2] at hbytes
      cases hbytes
    | false =>
      rw [if_neg (by simp [hstream])] at hbody
      exact ⟨rfl, hbody.1⟩
  · intro h
    obtain ⟨hstream, hverified⟩ := h
    refine ⟨_, ⟨.bytes r.content, rfl, ?_⟩, rfl⟩
    rw [if_neg (by simp [hstream])]
    exact ⟨hverified, rfl⟩

theorem replaceBody_wraps (m : OperationModel) (r : HttpResponse) (d : ResponseDict) (algorithm expected : String) :
    (∀ d', replaceBody checksumCls m r d algorithm expected = .ok d' → d'.body = .bytes r.content) ↔
      ¬ (m.hasStreamingOutput = true ∧ (checksumCls algorithm).isSome) := by
  simp only [replaceBody_ok]
  constructor
  · intro h hwrapped
    obtain ⟨hstream, hknown⟩ := hwrapped
    have hbytes := h _ ⟨_, rfl, by rw [if_pos hstream]; exact ⟨hknown, rfl⟩⟩
    cases hbytes
  · intro h d' hd'
    obtain ⟨body, rfl, hbody⟩ := hd'
    cases hstream : m.hasStreamingOutput with
    | true =>
      rw [if_pos hstream] at hbody
      exact absurd ⟨hstream, hbody.1⟩ h
    | false =>
      rw [if_neg (by simp [hstream])] at hbody
      exact hbody.2

/-! ## Errors -/

/-- no algorithm has a checksum, or the output is not streaming and the checksum is right -/
def Passes (m : OperationModel) (context : Context) (r : HttpResponse) : Prop :=
  ∀ algorithm expected, selected context r.headers = some (algorithm, expected) →
    m.hasStreamingOutput = false ∧ Verified checksumCls r.content algorithm expected

/-- the output is streaming, and a known algorithm has a checksum -/
def Wrapped (m : OperationModel) (context : Context) (r : HttpResponse) : Prop :=
  ∃ algorithm expected, selected context r.headers = some (algorithm, expected) ∧ m.hasStreamingOutput = true ∧
    (checksumCls algorithm).isSome

/-- **When an error reaches the parser as bytes.** For every operation, checksum context and response with a status of at
least 300: handlers and parser are reached and given the complete content iff `Passes`, and never given a stream iff not
`Wrapped`. -/
theorem error_body_iff (handlers : List Handler) (m : OperationModel) (context : Context) (r : HttpResponse)
    (h : 300 ≤ r.statusCode) :
    (Delivered r.content (doGetResponse checksumCls handlers m context r) ↔ Passes checksumCls m context r) ∧
      (NeverStream r.content (doGetResponse checksumCls handlers m context r) ↔ ¬ Wrapped checksumCls m context r) := by
  have hbody : (convertToResponseDict r m).body = .bytes r.content := if_pos h
  have hheaders : (convertToResponseDict r m).headers = r.headers := rfl
  rw [doGetResponse, delivered_map, neverStream_map, handleChecksumBody_spec, hheaders, Passes, Wrapped]
  cases hsel : selected context r.headers with
  | none => simp [hbody]
  | some z =>
    obtain ⟨algorithm, expected⟩ := z
    simp only [Option.map_some, Option.getD_some, replaceBody_delivers, replaceBody_wraps]
    constructor
    · constructor
      · intro hpass algorithm' expected' heq
        cases heq
        exact hpass
      · intro hpass
        exact hpass algorithm expected rfl
    · apply not_congr
      constructor
      · intro hwrapped
        exact ⟨algorithm, expected, rfl, hwrapped⟩
      · intro hwrapped
        obtain ⟨algorithm', expected', heq, hwrapped⟩ := hwrapped
        cases heq
        exact hwrapped

/-! ## An instance -/

/-- one bit of the remainder -/
def crcStep (c : UInt32) : UInt32 := if c &&& 1 = 1 then (c >>> 1) ^^^ 0xEDB88320 else c >>> 1

def crcByte (c : UInt32) (b : UInt8) : UInt32 := Nat.iterate crcStep 8 (c ^^^ b.toUInt32)

def crc32 (s : Bytes) : UInt32 := s.foldl crcByte 0xFFFFFFFF ^^^ 0xFFFFFFFF

/-- `Crc32Checksum`: the digest is big-endian -/
def crc32Digest (s : Bytes) : Bytes :=
  [(crc32 s >>> 24).toUInt8, (crc32 s >>> 16).toUInt8, (crc32 s >>> 8).toUInt8, (crc32 s).toUInt8]

def crc32Only (algorithm : String) : Option (Bytes → Bytes) := if algorithm = "crc32" then some crc32Digest else none

/-- `hello` -/
def hello : Bytes := [104, 101, 108, 108, 111]

example : b64encode (crc32Digest hello) = "NhCmhg==" := by decide +kernel

/-- a 404 with the checksum of its content -/
def notFound : HttpResponse where
  statusCode := 404
  headers := headersDict [("X-Amz-Checksum-Crc32", "NhCmhg==")]
  content := hello
  raw := .aiohttp

def headObject : OperationModel := ⟨"HeadObject", false, false⟩

def getObject : OperationModel := ⟨"GetObject", false, true⟩

def crc32Context : Context := ⟨some (some ["crc32"])⟩

theorem selected_notFound : selected crc32Context notFound.headers = some ("crc32", "NhCmhg==") := by
  decide +kernel

theorem error_body_headObject : Delivered hello (doGetResponse crc32Only [] headObject crc32Context notFound) := by
  apply (error_body_iff crc32Only [] headObject crc32Context notFound (by decide)).1.2
  intro algorithm expected heq
  rw [selected_notFound] at heq
  cases heq
  exact ⟨rfl, crc32Digest, rfl, by decide +kernel⟩

/-- **An error is given as a stream** to handlers and parser when `GetObject` fails with a checksum in the headers. -/
theorem stream_given : ¬ ∀ handlers m context r, 300 ≤ r.statusCode →
    NeverStream r.content (doGetResponse crc32Only handlers m context r) := by
  intro hall
  have h := hall [] getObject crc32Context notFound (by decide)
  have hsel : selected crc32Context (convertToResponseDict notFound getObject).headers = some ("crc32", "NhCmhg==") :=
    selected_notFound
  rw [doGetResponse, neverStream_map, handleChecksumBody_spec, hsel] at h
  exact (replaceBody_wraps crc32Only getObject notFound _ "crc32" "NhCmhg==").1 h ⟨rfl, rfl⟩

end AioBotocore.Endpoint.ErrorBody
