/-
The streaming bodies of `response.py` and `httpchecksum.py`, over either backend and with or without a checksum.

- `AioStreamingBody`: over aiohttp's `StreamReader`, which is not in this repository and a parameter here. It reads all
  for a negative size, a positive size gives `b''` only at the end of the file, and after the end nothing more comes.
- `AioHttpxStreamingBody`: over the events of httpx's `aiter_raw()`, with the side buffer for the bytes that were
  delivered and not asked for. The iterator is the list of events still to come.
- `checksumMixin`: `_ChecksumMixin` over either of them. The checksum object is the bytes it was updated with; its
  digest is a parameter.
- `step`: the operations on one body object. The iterators of `AioStreamingBodyBase` read through `read`; an
  iterator makes at most one read in a step, so a list of operations mixes calls and iterators in any order.

A body is a state and its calls give a result, which may be an exception, and the state after it.
-/
import Mathlib.Tactic
import AioBotocore.Octets

namespace AioBotocore.Response

open Octets

/-! ## Exceptions -/

/-- what the raw stream raises -/
inductive StreamExn where
  /-- `asyncio.TimeoutError`, `httpx.ReadTimeout` -/
  | readTimeout (text : String)
  /-- `aiohttp.ClientConnectionError`, `httpx.NetworkError`, `httpx.RemoteProtocolError` -/
  | connection (text : String)
  | other (text : String)
deriving DecidableEq, Repr

inductive Exn where
  | readTimeout (endpointUrl error : String)
  | responseStreaming (error : String)
  | stream (text : String)
  | incompleteRead (actualBytes : ℕ) (expectedBytes : ℤ)
  | flexibleChecksum (errorMsg : String)
  /-- an index into an empty list of lines -/
  | index
  /-- raised by `base64.b64decode` -/
  | base64
deriving DecidableEq, Repr

def StreamExn.convert (url : String) : StreamExn → Exn
  | .readTimeout text => .readTimeout url text
  | .connection text => .responseStreaming text
  | .other text => .stream text

/-- botocore's `_verify_content_length` -/
def verifyContentLength (contentLength : Option ℤ) (amountRead : ℕ) : Except Exn Unit :=
  match contentLength with
  | none => .ok ()
  | some n => if (amountRead : ℤ) ≠ n then .error (.incompleteRead amountRead n) else .ok ()

/-- `amt is None or (not chunk and amt > 0)` -/
def atEnd (amt : Option ℤ) (chunk : Bytes) : Bool :=
  match amt with
  | none => true
  | some n => chunk.isEmpty && decide (0 < n)

/-- `b[:len(chunk)] = chunk` -/
def filled (b chunk : Bytes) : Bytes := chunk ++ b.drop chunk.length

/-! ## aiohttp -/

/-- what is relied on from `aiohttp.StreamReader`; `ρ` are its states -/
structure StreamReader (ρ : Type*) where
  read : ρ → ℤ → Except StreamExn Bytes × ρ
  atEof : ρ → Bool
  all_eof : ∀ r n c, n < 0 → (read r n).1 = .ok c → atEof (read r n).2 = true
  nil_eof : ∀ r n, 0 < n → (read r n).1 = .ok [] → atEof (read r n).2 = true
  eof_nil : ∀ r n c, atEof r = true → (read r n).1 = .ok c → c = []
  eof_stays : ∀ r n, atEof r = true → atEof (read r n).2 = true

structure AioStreamingBody (ρ : Type*) where
  url : String
  content : ρ
  amountRead : ℕ
  contentLength : Option ℤ

namespace AioStreamingBody

variable {ρ : Type*} (R : StreamReader ρ)

def new (url : String) (content : ρ) (contentLength : Option ℤ) : AioStreamingBody ρ := ⟨url, content, 0, contentLength⟩

def read (s : AioStreamingBody ρ) (amt : Option ℤ) : Except Exn Bytes × AioStreamingBody ρ :=
  match R.read s.content (amt.getD (-1)) with
  | (.error e, content) => (.error (e.convert s.url), { s with content := content })
  | (.ok chunk, content) =>
    let s := { s with content := content, amountRead := s.amountRead + chunk.length }
    if atEnd amt chunk then ((verifyContentLength s.contentLength s.amountRead).map fun _ => chunk, s)
    else (.ok chunk, s)

def readinto (s : AioStreamingBody ρ) (b : Bytes) : Except Exn (ℕ × Bytes) × AioStreamingBody ρ :=
  match R.read s.content b.length with
  | (.error e, content) => (.error (e.convert s.url), { s with content := content })
  | (.ok chunk, content) =>
    let s := { s with content := content, amountRead := s.amountRead + chunk.length }
    if chunk.length = 0 ∧ 0 < b.length then
      ((verifyContentLength s.contentLength s.amountRead).map fun _ => (chunk.length, filled b chunk), s)
    else (.ok (chunk.length, filled b chunk), s)

end AioStreamingBody

/-! ## httpx -/

/-- what the raw stream does when it is asked for the next chunk; after the last event it is at its end -/
inductive Event where
  | chunk (c : Bytes)
  | raises (e : StreamExn)
deriving DecidableEq, Repr

structure AioHttpxStreamingBody where
  url : String
  /-- the events of the raw stream still to come -/
  stream : List Event
  buffer : Bytes
  streamExhausted : Bool
  amountRead : ℕ
  contentLength : Option ℤ
deriving DecidableEq, Repr

/-- `_fill_buffer`, on the buffer, the flag and the stream -/
def fillBuffer (url : String) (minBytes : ℕ) (buffer : Bytes) (exhausted : Bool) :
    List Event → Except Exn Unit × Bytes × Bool × List Event
  | [] => (.ok (), buffer, exhausted || decide (buffer.length < minBytes), [])
  | .chunk c :: rest =>
    if buffer.length < minBytes ∧ exhausted = false then fillBuffer url minBytes (buffer ++ c) exhausted rest
    else (.ok (), buffer, exhausted, .chunk c :: rest)
  | .raises e :: rest =>
    if buffer.length < minBytes ∧ exhausted = false then (.error (e.convert url), buffer, exhausted, rest)
    else (.ok (), buffer, exhausted, .raises e :: rest)

/-- `async for chunk in self._stream_iter: chunks.append(chunk)` -/
def readChunks : List Event → Except StreamExn (List Bytes) × List Event
  | [] => (.ok [], [])
  | .chunk c :: rest => ((readChunks rest).1.map (c :: ·), (readChunks rest).2)
  | .raises e :: rest => (.error e, rest)

namespace AioHttpxStreamingBody

def new (url : String) (stream : List Event) (contentLength : Option ℤ) : AioHttpxStreamingBody :=
  ⟨url, stream, [], false, 0, contentLength⟩

def fill (s : AioHttpxStreamingBody) (minBytes : ℕ) : Except Exn Unit × AioHttpxStreamingBody :=
  match fillBuffer s.url minBytes s.buffer s.streamExhausted s.stream with
  | (r, buffer, exhausted, stream) =>
    (r, { s with buffer := buffer, streamExhausted := exhausted, stream := stream })

/-- the branch of `read` that reads all -/
def readAll (s : AioHttpxStreamingBody) : Except Exn Bytes × AioHttpxStreamingBody :=
  let buffer := s.buffer
  let s := { s with buffer := [] }
  match readChunks s.stream with
  | (.error e, stream) => (.error (e.convert s.url), { s with stream := stream })
  | (.ok chunks, stream) => (.ok (buffer ++ chunks.flatten), { s with stream := stream, streamExhausted := true })

/-- the branch of `read` that reads at most `amt` bytes -/
def readSome (s : AioHttpxStreamingBody) (amt : ℕ) : Except Exn Bytes × AioHttpxStreamingBody :=
  match s.fill amt with
  | (.error e, s) => (.error e, s)
  | (.ok (), s) => (.ok (s.buffer.take amt), { s with buffer := s.buffer.drop amt })

/-- the end of `read`: the bytes are counted, and at the end of the stream the count is verified -/
def counted (amt : Option ℤ) : Except Exn Bytes × AioHttpxStreamingBody → Except Exn Bytes × AioHttpxStreamingBody
  | (.error e, s) => (.error e, s)
  | (.ok result, s) =>
    let s := { s with amountRead := s.amountRead + result.length }
    if atEnd amt result then ((verifyContentLength s.contentLength s.amountRead).map fun _ => result, s)
    else (.ok result, s)

def read (s : AioHttpxStreamingBody) (amt : Option ℤ) : Except Exn Bytes × AioHttpxStreamingBody :=
  match amt with
  | none => counted amt s.readAll
  | some n =>
    if n < 0 then counted amt s.readAll
    else if n = 0 then (.ok [], s)
    else counted amt (s.readSome n.toNat)

def readinto (s : AioHttpxStreamingBody) (b : Bytes) : Except Exn (ℕ × Bytes) × AioHttpxStreamingBody :=
  if b.length = 0 then (.ok (0, b), s)
  else
    match s.readSome b.length with
    | (.error e, s) => (.error e, s)
    | (.ok chunk, s) =>
      let s := { s with amountRead := s.amountRead + chunk.length }
      if chunk.length = 0 ∧ 0 < b.length then
        ((verifyContentLength s.contentLength s.amountRead).map fun _ => (chunk.length, filled b chunk), s)
      else (.ok (chunk.length, filled b chunk), s)

def tell (s : AioHttpxStreamingBody) : ℕ := s.amountRead

end AioHttpxStreamingBody

/-! ## Checksums -/

/-- a class of bodies: its `read` and its `readinto`, which gives the count and the buffer -/
structure BodyClass (β : Type*) where
  read : β → Option ℤ → Except Exn Bytes × β
  readinto : β → Bytes → Except Exn (ℕ × Bytes) × β

def aioStreamingBody {ρ : Type*} (R : StreamReader ρ) : BodyClass (AioStreamingBody ρ) :=
  ⟨AioStreamingBody.read R, AioStreamingBody.readinto R⟩

def aioHttpxStreamingBody : BodyClass AioHttpxStreamingBody :=
  ⟨AioHttpxStreamingBody.read, AioHttpxStreamingBody.readinto⟩

structure ChecksumBody (β : Type*) where
  body : β
  /-- the bytes the checksum was updated with -/
  updated : Bytes
  expected : String

namespace ChecksumBody

variable {β : Type*} (digest : Bytes → Bytes)

def new (body : β) (expected : String) : ChecksumBody β := ⟨body, [], expected⟩

def validateChecksum (s : ChecksumBody β) : Except Exn Unit :=
  match b64decode s.expected with
  | none => .error .base64
  | some expected =>
    if digest s.updated ≠ expected then
      .error (.flexibleChecksum ("Expected checksum " ++ s.expected ++ " did not match calculated checksum: " ++
        b64encode (digest s.updated)))
    else .ok ()

def read (C : BodyClass β) (s : ChecksumBody β) (amt : Option ℤ) : Except Exn Bytes × ChecksumBody β :=
  match C.read s.body amt with
  | (.error e, body) => (.error e, { s with body := body })
  | (.ok chunk, body) =>
    let s := { s with body := body, updated := s.updated ++ chunk }
    if atEnd amt chunk then ((s.validateChecksum digest).map fun _ => chunk, s) else (.ok chunk, s)

/-- the part of the buffer that was read into -/
def view (amountRead : ℕ) (b : Bytes) : Bytes := if amountRead = b.length then b else b.take amountRead

def readinto (C : BodyClass β) (s : ChecksumBody β) (b : Bytes) : Except Exn (ℕ × Bytes) × ChecksumBody β :=
  match C.readinto s.body b with
  | (.error e, body) => (.error e, { s with body := body })
  | (.ok (amountRead, b'), body) =>
    let s := { s with body := body, updated := s.updated ++ view amountRead b' }
    if amountRead = 0 ∧ 0 < b.length then ((s.validateChecksum digest).map fun _ => (amountRead, b'), s)
    else (.ok (amountRead, b'), s)

end ChecksumBody

/-- `_ChecksumMixin` over a class -/
def checksumMixin {β : Type*} (digest : Bytes → Bytes) (C : BodyClass β) : BodyClass (ChecksumBody β) :=
  ⟨ChecksumBody.read digest C, ChecksumBody.readinto digest C⟩

/-! ## `readinto` is `read` -/

/-- `readinto(b)` is `read(len(b))`, stored in the buffer -/
def IntoIsRead {β : Type*} (C : BodyClass β) : Prop :=
  ∀ s b, C.readinto s b =
    ((C.read s (some b.length)).1.map fun chunk => (chunk.length, filled b chunk), (C.read s (some b.length)).2)

theorem atEnd_length (b chunk : Bytes) : atEnd (some b.length) chunk = decide (chunk.length = 0 ∧ 0 < b.length) := by
  cases chunk <;> simp [atEnd]

theorem filled_take (b chunk : Bytes) : (filled b chunk).take chunk.length = chunk := List.take_left' rfl

theorem map_ok {ε α β : Type*} {x : Except ε α} {f : α → β} {b : β} (h : x.map f = .ok b) : ∃ a, x = .ok a ∧ f a = b := by
  cases x with
  | error e => cases h
  | ok a => exact ⟨a, rfl, by simpa [Except.map] using h⟩

theorem map_verify {α : Type*} (x : Except Exn Unit) (a : Bytes) (f : Bytes → α) :
    (x.map fun _ => a).map f = x.map fun _ => f a := by
  cases x <;> rfl

theorem aioStreamingBody_into {ρ : Type*} (R : StreamReader ρ) : IntoIsRead (aioStreamingBody R) := by
  intro s b
  simp only [aioStreamingBody, AioStreamingBody.readinto, AioStreamingBody.read, Option.getD_some]
  cases R.read s.content b.length with
  | mk res content =>
    cases res with
    | error e => rfl
    | ok chunk =>
      simp only [atEnd_length, decide_eq_true_eq]
      split_ifs
      · rw [map_verify]
      · rfl

theorem aioHttpxStreamingBody_into : IntoIsRead aioHttpxStreamingBody := by
  intro s b
  simp only [aioHttpxStreamingBody, AioHttpxStreamingBody.readinto, AioHttpxStreamingBody.read]
  by_cases hb : b.length = 0
  · simp [hb, filled, Except.map]
  · have hneg : ¬ ((b.length : ℤ) < 0) := by omega
    have hzero : ¬ ((b.length : ℤ) = 0) := by omega
    rw [if_neg hb, if_neg hneg, if_neg hzero, Int.toNat_natCast]
    cases s.readSome b.length with
    | mk res s' =>
      cases res with
      | error e => rfl
      | ok chunk =>
        simp only [AioHttpxStreamingBody.counted, atEnd_length, decide_eq_true_eq]
        split_ifs
        · rw [map_verify]
        · rfl

namespace ChecksumBody

/-- the part of the buffer that was read into holds what was read -/
theorem view_filled (b chunk : Bytes) : view chunk.length (filled b chunk) = chunk := by
  unfold view filled
  split_ifs with h
  · have hnil : b.drop chunk.length = [] := by
      rw [← List.length_eq_zero_iff]
      rw [List.length_append] at h
      omega
    rw [hnil, List.append_nil]
  · exact filled_take b chunk

end ChecksumBody

theorem checksumMixin_into {β : Type*} (digest : Bytes → Bytes) {C : BodyClass β} (hC : IntoIsRead C) :
    IntoIsRead (checksumMixin digest C) := by
  intro s b
  simp only [checksumMixin, ChecksumBody.readinto, ChecksumBody.read, hC s.body b]
  cases C.read s.body (some b.length) with
  | mk res body =>
    cases res with
    | error e => rfl
    | ok chunk =>
      simp only [Except.map, ChecksumBody.view_filled, atEnd_length, decide_eq_true_eq]
      split_ifs
      · cases ChecksumBody.validateChecksum digest { s with body := body, updated := s.updated ++ chunk } <;> rfl
      · rfl

/-! ## Iteration -/

/-- where an iterator stands -/
inductive Gen where
  | chunks (size : ℕ+)
  /-- `iter_lines`, with the lines of the last chunk that it has still to yield, and the pending one -/
  | lines (size : ℕ+) (keepends : Bool) (ready : List Bytes) (pending : Bytes)
  /-- `iter_lines` after the pending line, at the end of the stream -/
  | lastLine
  | ended
  /-- an iterator that raised is over: it has no end to report -/
  | failed
deriving DecidableEq

/-- a body and the iterators made over it; `returned` is a ghost: what the reads of the body have returned, to the
caller or to an iterator -/
structure St (β : Type*) where
  body : β
  gens : List Gen
  returned : Bytes

inductive Op where
  | read (amt : Option ℤ)
  | readinto (b : Bytes)
  /-- `__anext__` of the body -/
  | anext
  | iterChunks (size : ℕ+)
  | iterLines (size : ℕ+) (keepends : Bool)
  /-- iterator `g` runs to its next read, line or end -/
  | advance (g : ℕ)
deriving DecidableEq

inductive Ret where
  | bytes (c : Bytes)
  | filled (n : ℕ) (b : Bytes)
  | iterator (g : ℕ)
  /-- the iterator has read and goes on -/
  | more
  | stopAsyncIteration
  | raised (e : Exn)
  /-- the iterator does not exist, or had raised before -/
  | over
deriving DecidableEq, Repr

section Iteration

variable {β : Type*} (C : BodyClass β)

def init (body : β) : St β := ⟨body, [], []⟩

def St.read (s : St β) (amt : Option ℤ) : Except Exn Bytes × St β :=
  match C.read s.body amt with
  | (.error e, body) => (.error e, { s with body := body })
  | (.ok chunk, body) => (.ok chunk, { s with body := body, returned := s.returned ++ chunk })

def St.readinto (s : St β) (b : Bytes) : Except Exn (ℕ × Bytes) × St β :=
  match C.readinto s.body b with
  | (.error e, body) => (.error e, { s with body := body })
  | (.ok (n, b'), body) => (.ok (n, b'), { s with body := body, returned := s.returned ++ b'.take n })

def St.setGen (s : St β) (g : ℕ) (p : Gen) : St β := { s with gens := s.gens.set g p }

def defaultChunkSize : ℕ+ := 1024

def advanceChunks (s : St β) (g : ℕ) (size : ℕ+) : Ret × St β :=
  match s.read C (some size) with
  | (.error e, s) => (.raised e, s.setGen g .failed)
  | (.ok [], s) => (.stopAsyncIteration, s.setGen g .ended)
  | (.ok c, s) => (.bytes c, s)

/-- `yield line.splitlines(keepends)[0]`, after which the iterator stands at `p` -/
def yieldLine (s : St β) (g : ℕ) (keepends : Bool) (line : Bytes) (p : Gen) : Ret × St β :=
  match splitlines keepends line with
  | [] => (.raised .index, s.setGen g .failed)
  | l :: _ => (.bytes l, s.setGen g p)

def advanceLines (s : St β) (g : ℕ) (size : ℕ+) (keepends : Bool) (pending : Bytes) : Ret × St β :=
  match s.read C (some size) with
  | (.error e, s) => (.raised e, s.setGen g .failed)
  | (.ok [], s) =>
    if pending = [] then (.stopAsyncIteration, s.setGen g .ended) else yieldLine s g keepends pending .lastLine
  | (.ok c, s) =>
    let lines := splitlines true (pending ++ c)
    match lines.getLast? with
    | none => (.raised .index, s.setGen g .failed)
    | some last => (.more, s.setGen g (.lines size keepends lines.dropLast last))

def advance (s : St β) (g : ℕ) : Ret × St β :=
  match s.gens[g]? with
  | some (.chunks size) => advanceChunks C s g size
  | some (.lines size keepends (line :: ready) pending) =>
    yieldLine s g keepends line (.lines size keepends ready pending)
  | some (.lines size keepends [] pending) => advanceLines C s g size keepends pending
  | some .lastLine => (.stopAsyncIteration, s.setGen g .ended)
  | some .ended => (.stopAsyncIteration, s)
  | some .failed | none => (.over, s)

def step (s : St β) : Op → Ret × St β
  | .read amt =>
    match s.read C amt with
    | (.error e, s) => (.raised e, s)
    | (.ok c, s) => (.bytes c, s)
  | .readinto b =>
    match s.readinto C b with
    | (.error e, s) => (.raised e, s)
    | (.ok (n, b), s) => (.filled n b, s)
  | .anext =>
    match s.read C (some defaultChunkSize) with
    | (.error e, s) => (.raised e, s)
    | (.ok [], s) => (.stopAsyncIteration, s)
    | (.ok c, s) => (.bytes c, s)
  | .iterChunks size => (.iterator s.gens.length, { s with gens := s.gens ++ [.chunks size] })
  | .iterLines size keepends => (.iterator s.gens.length, { s with gens := s.gens ++ [.lines size keepends [] []] })
  | .advance g => advance C s g

end Iteration

end AioBotocore.Response
