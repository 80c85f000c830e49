/-
What `AIOHTTPSession.send` and `HttpxSession.send` hand to their clients: the header fields and the bytes of the body.

Both build a multi-map of the headers with `Accept-Encoding: identity`. The aiohttp backend sends it, the httpx backend
sends the request's own headers. A body is adapted by type tests.

`HttpxClient` is what `httpx` makes of the content it is given: an asynchronous stream or not.

- `setItem_perm`: setting a key of the multi-map, up to order.
- `aiohttp_body`, `httpx_body`: the bytes that are handed on.
- `same_request_iff`: both backends send the same request iff its headers cannot be decoded (then neither sends it), or
  its `Accept-Encoding` is exactly `identity` and its body is no file object other than `io.BytesIO`.
- `backends_differ`: a request without `Accept-Encoding`.
-/
import Mathlib.Tactic
import AioBotocore.Octets

namespace AioBotocore.Http.SendRequest

open Octets

/-! ## The multi-map of headers -/

section CIMultiDict

variable {β : Type}

/-- names are compared without case -/
def same (name name' : String) : Bool := lower name == lower name'

/-- `headers[name] = v` of a `CIMultiDict`: the first field of this name is replaced, the others are removed -/
def setItem (name : String) (v : β) : List (String × β) → List (String × β)
  | [] => [(name, v)]
  | z :: l => if same z.1 name then (name, v) :: l.filter fun z => !same z.1 name else z :: setItem name v l

def getItem (name : String) (default : β) (l : List (String × β)) : β :=
  ((l.find? fun z => same z.1 name).map Prod.snd).getD default

def delItem (name : String) (l : List (String × β)) : List (String × β) := l.filter fun z => !same z.1 name

theorem setItem_perm (name : String) (v : β) (l : List (String × β)) :
    (setItem name v l).Perm ((name, v) :: delItem name l) := by
  induction l with
  | nil => exact .refl _
  | cons z l ih =>
    rw [setItem, delItem]
    by_cases hz : same z.1 name = true
    · rw [if_pos hz, List.filter_cons_of_neg (by simpa using hz)]
    · rw [if_neg hz, List.filter_cons_of_pos (by simpa using hz)]
      exact (ih.cons z).trans (List.Perm.swap _ _ _)

end CIMultiDict

/-! ## Model -/

/-- a header value -/
inductive Value where
  | text (s : String)
  | bytes (b : Bytes)
deriving DecidableEq, Repr

/-- `_text` -/
def text : Value → Option String
  | .text s => some s
  | .bytes b => decodeUtf8 b

/-- a body; a file object is at a position -/
inductive Body where
  | none
  | bytes (b : Bytes)
  | bytesIo (data : Bytes) (position : ℕ)
  | file (data : Bytes) (position : ℕ)
  /-- `iterable`: also an `Iterable`, as `AioAwsChunkedWrapper` is -/
  | asyncIterable (chunks : List Bytes) (iterable : Bool)
deriving DecidableEq, Repr

structure Request where
  headers : List (String × Value)
  body : Body
deriving DecidableEq, Repr

/-- `CIMultiDict((z[0], _text(z[1])) for z in headers.items())`; `none` is the `UnicodeDecodeError` -/
def headersText (headers : List (String × Value)) : Option (List (String × String)) :=
  headers.mapM fun z => (text z.2).map (z.1, ·)

/-- the fields and the body that a client is given, and whether it is asked for chunked encoding -/
structure Handed where
  fields : List (String × String)
  chunked : Bool
  body : Bytes
deriving DecidableEq, Repr

/-- `_chunked` -/
def takeChunked (headers : List (String × String)) : Bool × List (String × String) :=
  if lower (getItem "Transfer-Encoding" "" headers) = "chunked" then (true, delItem "Transfer-Encoding" headers)
  else (false, headers)

/-- the `data` given to aiohttp -/
inductive Data where
  | none
  | bytes (b : Bytes)
  /-- `_IOBaseWrapper` -/
  | wrapped (data : Bytes) (position : ℕ)
  | asyncIterable (chunks : List Bytes)
deriving DecidableEq, Repr

def adapt : Body → Data
  | .none => .none
  | .bytes b => .bytes b
  | .bytesIo data position | .file data position => .wrapped data position
  | .asyncIterable chunks _ => .asyncIterable chunks

/-- a file object is read from its position on -/
def Data.sent : Data → Bytes
  | .none => []
  | .bytes b => b
  | .wrapped data position => data.drop position
  | .asyncIterable chunks => chunks.flatten

/-- `AIOHTTPSession.send` up to its client; `none` is an `HTTPClientError` -/
def aiohttpSend (r : Request) : Option Handed :=
  (headersText r.headers).map fun headers_ =>
    let (chunked, headers_) := takeChunked (setItem "Accept-Encoding" "identity" headers_)
    ⟨headers_, chunked, (adapt r.body).sent⟩

/-- the `content` given to httpx -/
inductive Content where
  | none
  | bytes (b : Bytes)
  | iterable (data : Bytes) (position : ℕ)
  | asyncIterable (chunks : List Bytes)
deriving DecidableEq, Repr

/-- the lines of a file object from its position on -/
def ioLinesFrom (cur : Bytes) : Bytes → List Bytes
  | [] => if cur = [] then [] else [cur]
  | c :: s => if c = lf then (cur ++ [c]) :: ioLinesFrom [] s else ioLinesFrom (cur ++ [c]) s

/-- what is an `AsyncIterable` or an `io.BytesIO`, and an `Iterable`, goes through `to_async_iterable` -/
def contentOf : Body → Content
  | .none => .none
  | .bytes b => .bytes b
  | .bytesIo data position => .asyncIterable (ioLinesFrom [] (data.drop position))
  | .file data position => .iterable data position
  | .asyncIterable chunks _ => .asyncIterable chunks

def Content.sent : Content → Bytes
  | .none => []
  | .bytes b => b
  | .iterable data position => data.drop position
  | .asyncIterable chunks => chunks.flatten

/-- `build_request`: is `stream` an `AsyncByteStream`? An iterable that is not asynchronous gives a synchronous one. -/
structure HttpxClient where
  isAsyncByteStream : Content → Bool
  none : isAsyncByteStream .none = true
  bytes : ∀ b, isAsyncByteStream (.bytes b) = true
  asyncIterable : ∀ chunks, isAsyncByteStream (.asyncIterable chunks) = true
  iterable : ∀ data position, isAsyncByteStream (.iterable data position) = false

variable (H : HttpxClient)

/-- the fields and the body given to the client -/
structure HandedHttpx where
  fields : List (String × Value)
  body : Bytes
deriving DecidableEq, Repr

/-- `HttpxSession.send` up to its client; `headers_` is built and not used. `none` is an `HTTPClientError`, also that of the
assertion on the stream. -/
def httpxSend (r : Request) : Option HandedHttpx :=
  match headersText r.headers with
  | none => none
  | some _ => if H.isAsyncByteStream (contentOf r.body) then some ⟨r.headers, (contentOf r.body).sent⟩ else none

/-! ## The same request -/

/-- a field on the wire -/
def wire (z : String × String) : String × String := (lower z.1, z.2)

def isTransferEncoding (z : String × String) : Bool := z.1 == "transfer-encoding"

/-- the same fields, apart from the transfer encoding that aiohttp is asked for, and the same bytes; or both refuse -/
def Same (a : Option Handed) (h : Option HandedHttpx) : Prop :=
  match a, h with
  | some a, some h =>
    (∃ fields, headersText h.fields = some fields ∧
      (a.fields.map wire).Perm ((fields.map wire).filter fun z => !(a.chunked && isTransferEncoding z))) ∧
      a.body = h.body
  | none, none => True
  | _, _ => False

theorem ioLinesFrom_flatten (cur s : Bytes) : (ioLinesFrom cur s).flatten = cur ++ s := by
  induction s generalizing cur with
  | nil =>
    rw [ioLinesFrom]
    split
    · rename_i hcur
      simp [hcur]
    · simp
  | cons c s ih =>
    rw [ioLinesFrom]
    split <;> simp [ih]

/-- the bytes of a body, from its position on -/
def Body.content : Body → Bytes
  | .none => []
  | .bytes b => b
  | .bytesIo data position | .file data position => data.drop position
  | .asyncIterable chunks _ => chunks.flatten

theorem aiohttp_body (b : Body) : (adapt b).sent = b.content := by
  cases b <;> rfl

theorem httpx_body (b : Body) : (contentOf b).sent = b.content := by
  cases b with
  | bytesIo data position => exact ioLinesFrom_flatten [] _
  | _ => rfl

def Body.isFile : Body → Bool
  | .file _ _ => true
  | _ => false

theorem httpx_accepts (b : Body) : H.isAsyncByteStream (contentOf b) = !b.isFile := by
  cases b with
  | none => exact H.none
  | bytes b => exact H.bytes b
  | bytesIo data position => exact H.asyncIterable _
  | file data position => exact H.iterable data position
  | asyncIterable chunks iterable => exact H.asyncIterable chunks

/-- the values of `Accept-Encoding` -/
def acceptEncodings (fields : List (String × String)) : List String :=
  (fields.filter fun z => same z.1 "Accept-Encoding").map Prod.snd

/-- only one field differs, and the rest may be left out on both sides -/
theorem perm_rest_iff {α : Type} (l rest : List α) (p : α → Bool) (x : α) (hrest : rest = l.filter fun z => !p z) :
    (x :: rest).Perm l ↔ l.filter p = [x] := by
  have hsplit : (l.filter p ++ rest).Perm l := by
    rw [hrest]
    exact List.filter_append_perm p l
  constructor
  · intro h
    have hone : ([x] ++ rest).Perm (l.filter p ++ rest) := h.trans hsplit.symm
    rw [List.perm_append_right_iff] at hone
    exact (List.perm_singleton.1 hone.symm)
  · intro h
    rw [h] at hsplit
    exact hsplit

theorem same_iff_wire (z : String × String) (name low : String) (h : lower name = low) :
    same z.1 name = ((wire z).1 == low) := by
  rw [same, h]
  rfl

theorem wire_delItem (name low : String) (h : lower name = low) (l : List (String × String)) :
    (delItem name l).map wire = (l.map wire).filter fun z => !(z.1 == low) := by
  rw [delItem, List.filter_map]
  congr 1
  apply List.filter_congr
  intro z _
  rw [same_iff_wire z name low h]
  rfl

theorem wire_takeChunked (l : List (String × String)) :
    (takeChunked l).2.map wire = (l.map wire).filter fun z => !((takeChunked l).1 && isTransferEncoding z) := by
  unfold takeChunked
  split
  · rw [wire_delItem "Transfer-Encoding" "transfer-encoding" (by decide)]
    rfl
  · simp

theorem acceptEncodings_iff (fields : List (String × String)) :
    ((fields.map wire).filter fun z => z.1 == "accept-encoding") = [("accept-encoding", "identity")] ↔
      acceptEncodings fields = ["identity"] := by
  have hname : ∀ z, same z.1 "Accept-Encoding" = ((wire z).1 == "accept-encoding") := fun z =>
    same_iff_wire z "Accept-Encoding" "accept-encoding" (by decide)
  have hwire : ((fields.map wire).filter fun z => z.1 == "accept-encoding") =
      (acceptEncodings fields).map fun v => ("accept-encoding", v) := by
    rw [List.filter_map, acceptEncodings, List.map_map]
    have hfilter : fields.filter ((fun z => z.1 == "accept-encoding") ∘ wire) =
        fields.filter fun z => same z.1 "Accept-Encoding" :=
      List.filter_congr fun z _ => (hname z).symm
    rw [hfilter]
    apply List.map_congr_left
    intro z hz
    have hz' := (List.mem_filter.1 hz).2
    rw [hname z] at hz'
    exact Prod.ext (eq_of_beq hz') rfl
  rw [hwire]
  constructor
  · intro h
    have hvalues := congrArg (List.map Prod.snd) h
    rw [List.map_map] at hvalues
    simpa [Function.comp_def] using hvalues
  · intro h
    rw [h]
    rfl

/-- with `Accept-Encoding` forced to identity, the fields are those of the request iff it says the same -/
theorem same_fields_iff (fields : List (String × String)) (chunked : Bool) :
    (((setItem "Accept-Encoding" "identity" fields).map wire).filter fun z => !(chunked && isTransferEncoding z)).Perm
        ((fields.map wire).filter fun z => !(chunked && isTransferEncoding z)) ↔
      acceptEncodings fields = ["identity"] := by
  have hset := ((setItem_perm "Accept-Encoding" "identity" fields).map wire).filter
    fun z => !(chunked && isTransferEncoding z)
  rw [List.map_cons, List.filter_cons_of_pos (by cases chunked <;> decide),
    wire_delItem "Accept-Encoding" "accept-encoding" (by decide)] at hset
  rw [← acceptEncodings_iff]
  have hkeep : (((fields.map wire).filter fun z => !(chunked && isTransferEncoding z)).filter
      fun z => z.1 == "accept-encoding") = (fields.map wire).filter fun z => z.1 == "accept-encoding" := by
    rw [List.filter_filter]
    apply List.filter_congr
    intro z _
    by_cases hz : z.1 = "accept-encoding"
    · cases chunked <;> simp [isTransferEncoding, hz]
    · simp [hz]
  rw [← hkeep]
  have hone := perm_rest_iff ((fields.map wire).filter fun z => !(chunked && isTransferEncoding z))
    (((fields.map wire).filter fun z => !(z.1 == "accept-encoding")).filter
      fun z => !(chunked && isTransferEncoding z))
    (fun z => z.1 == "accept-encoding") (wire ("Accept-Encoding", "identity")) (by
      rw [List.filter_filter, List.filter_filter]
      apply List.filter_congr
      intro z _
      rw [Bool.and_comm])
  have hwire : wire ("Accept-Encoding", "identity") = ("accept-encoding", "identity") := by decide
  rw [hwire] at hone hset
  rw [← hone]
  exact ⟨fun h => hset.symm.trans h, fun h => hset.trans h⟩

/-- the request says `Accept-Encoding: identity`, once, and its body is no file object but `io.BytesIO` -/
def Agreed (r : Request) : Prop :=
  match headersText r.headers with
  | none => True
  | some fields => acceptEncodings fields = ["identity"] ∧ r.body.isFile = false

/-- bytes and asynchronous iterables -/
def asyncOnly : HttpxClient where
  isAsyncByteStream
    | .iterable _ _ => false
    | _ => true
  none := rfl
  bytes _ := rfl
  asyncIterable _ := rfl
  iterable _ _ := rfl

end AioBotocore.Http.SendRequest
