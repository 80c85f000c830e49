/-
`AioAwsChunkedWrapper` of `httpchecksum.py`: the body of an upload, encoded chunk by chunk as it is read.

The raw stream is not in this repository and a parameter here (`RawStream`): a read of `n > 0` bytes gives some of the
next ones, at most `n` and none only at the end, whether `read` is a function or a coroutine; `seek(0)` goes back to the
start. Inherited from botocore: the constructor's fields, and `seek(0)`, which rewinds the raw stream and resets the
others. The checksum object is the bytes it was updated with; its digest is a parameter.

- `Delivers`: the chunks a raw stream gives to its end when no read fails.
- `read_spec`: one `read` takes bytes from the front of what is still to be produced.
- `aws_chunked_encoding`: reads and iteration give the encoding of the body, which decodes to it, also after `seek(0)`.
-/
import Mathlib.Tactic
import AioBotocore.Async.Trace
import AioBotocore.AwsChunked.Format

namespace AioBotocore.AwsChunked

open Async Octets

variable {ρ ε : Type*}

/-! ## Model -/

/-- what is relied on from the raw stream; `ρ` are its states and `ε` what it raises -/
structure RawStream (ρ ε : Type*) where
  read : ρ → ℕ → Except ε Bytes × ρ
  seek : ρ → ρ
  start : ρ
  /-- the bytes still to come -/
  rest : ρ → Bytes
  read_rest : ∀ r n c, 0 < n → (read r n).1 = .ok c → rest r = c ++ rest (read r n).2
  read_length : ∀ r n c, 0 < n → (read r n).1 = .ok c → c.length ≤ n
  read_nil : ∀ r n, 0 < n → (read r n).1 = .ok [] → rest r = []
  seek_rest : ∀ r, rest (seek r) = rest start

/-- the constructor's arguments: the name of the trailer and, with a checksum, its digest -/
structure Cfg where
  chunkSize : ℕ+
  checksumName : String
  checksum : Option (Bytes → Bytes)

structure AioAwsChunkedWrapper (ρ : Type*) where
  raw : ρ
  remaining : Bytes
  complete : Bool
  /-- the bytes the checksum was updated with -/
  updated : Bytes

/-- what follows the chunk of length zero -/
def Cfg.trailer (C : Cfg) (updated : Bytes) : Bytes :=
  match C.checksum with
  | some digest => ascii C.checksumName ++ ascii ":" ++ ascii (b64encode (digest updated)) ++ crlf ++ crlf
  | none => crlf

namespace AioAwsChunkedWrapper

def new (raw : ρ) : AioAwsChunkedWrapper ρ := ⟨raw, [], false, []⟩

variable (R : RawStream ρ ε) (C : Cfg)

/-- `seek(0)` -/
def seek (w : AioAwsChunkedWrapper ρ) : AioAwsChunkedWrapper ρ := new (R.seek w.raw)

def makeChunk (w : AioAwsChunkedWrapper ρ) : Except ε Bytes × AioAwsChunkedWrapper ρ :=
  match R.read w.raw C.chunkSize with
  | (.error e, raw) => (.error e, { w with raw := raw })
  | (.ok rawChunk, raw) =>
    let w := { w with raw := raw, complete := rawChunk.isEmpty, updated := w.updated ++ rawChunk }
    if C.checksum.isSome ∧ w.complete then (.ok (ascii "0" ++ crlf ++ C.trailer w.updated), w)
    else (.ok (hexDigits rawChunk.length ++ crlf ++ rawChunk ++ crlf), w)

/-- how many chunks `w` can still make: no more than there are bytes, and the last -/
def chunksLeft (w : AioAwsChunkedWrapper ρ) : ℕ := if w.complete then 0 else (R.rest w.raw).length + 1

theorem makeChunk_of_ok {w : AioAwsChunkedWrapper ρ} {rawChunk : Bytes} {raw : ρ}
    (h : R.read w.raw C.chunkSize = (.ok rawChunk, raw)) :
    makeChunk R C w = (.ok (if rawChunk = [] then closing (C.trailer (w.updated ++ rawChunk)) else frame rawChunk),
      ⟨raw, w.remaining, rawChunk.isEmpty, w.updated ++ rawChunk⟩) := by
  have hzero : hexDigits 0 = ascii "0" := by decide
  simp only [makeChunk, h]
  cases hs : C.checksum with
  | none => cases rawChunk <;> simp [Cfg.trailer, hs, closing, frame]
  | some digest => cases rawChunk <;> simp [closing, frame, hzero]

theorem makeChunk_of_error {w : AioAwsChunkedWrapper ρ} {e : ε} {raw : ρ}
    (h : R.read w.raw C.chunkSize = (.error e, raw)) : makeChunk R C w = (.error e, { w with raw := raw }) := by
  simp only [makeChunk, h]

theorem makeChunk_chunksLeft {w w' : AioAwsChunkedWrapper ρ} {chunk : Bytes} (h : makeChunk R C w = (.ok chunk, w'))
    (hw : w.complete = false) : chunksLeft R w' < chunksLeft R w := by
  cases hr : R.read w.raw C.chunkSize with
  | mk res raw =>
    cases res with
    | error e => rw [makeChunk_of_error R C hr] at h; cases h
    | ok rawChunk =>
      have hrest := R.read_rest w.raw C.chunkSize rawChunk C.chunkSize.pos (by rw [hr])
      rw [hr] at hrest
      rw [makeChunk_of_ok R C hr] at h
      obtain ⟨-, rfl⟩ := Prod.mk.inj h
      cases rawChunk <;> simp [chunksLeft, hw, hrest]

/-- the loop of `read`: `size` is `none` for all -/
def fill (size : Option ℕ) (w : AioAwsChunkedWrapper ρ) : Except ε Unit × AioAwsChunkedWrapper ρ :=
  if _hmore : w.complete = false ∧ ∀ n ∈ size, w.remaining.length < n then
    match _hchunk : makeChunk R C w with
    | (.error e, w') => (.error e, w')
    | (.ok chunk, w') => fill size { w' with remaining := w'.remaining ++ chunk }
  else (.ok (), w)
termination_by chunksLeft R w
decreasing_by
  have hless := makeChunk_chunksLeft R C _hchunk _hmore.1
  exact hless

/-- the size asked for, `none` for all -/
def wanted (size : Option ℤ) : Option ℕ :=
  match size with
  | none => none
  | some n => if n ≤ 0 then none else some n.toNat

def read (w : AioAwsChunkedWrapper ρ) (size : Option ℤ) : Except ε Bytes × AioAwsChunkedWrapper ρ :=
  if w.complete ∧ w.remaining = [] then (.ok [], w)
  else
    match fill R C (wanted size) w with
    | (.error e, w) => (.error e, w)
    | (.ok (), w) =>
      let size := (wanted size).getD w.remaining.length
      (.ok (w.remaining.take size), { w with remaining := w.remaining.drop size })

/-- `__anext__`; `none` is `StopAsyncIteration` -/
def anext (w : AioAwsChunkedWrapper ρ) : Option (Except ε Bytes) × AioAwsChunkedWrapper ρ :=
  if w.complete then (none, w) else (some (makeChunk R C w).1, (makeChunk R C w).2)

end AioAwsChunkedWrapper

/-! ## The chunks of a raw stream -/

inductive Delivers (R : RawStream ρ ε) (n : ℕ) : ρ → List Bytes → Prop
  | done {r : ρ} (h : (R.read r n).1 = .ok []) : Delivers R n r []
  | more {r : ρ} {c : Bytes} {cs : List Bytes} (h : (R.read r n).1 = .ok c) (hc : c ≠ [])
      (hcs : Delivers R n (R.read r n).2 cs) : Delivers R n r (c :: cs)

variable {R : RawStream ρ ε} {n : ℕ} {r : ρ} {chunks : List Bytes}

theorem Delivers.flatten (hn : 0 < n) (h : Delivers R n r chunks) : chunks.flatten = R.rest r := by
  induction h with
  | done h => exact (R.read_nil _ _ hn h).symm
  | more h hc hcs ih => rw [List.flatten_cons, ih, R.read_rest _ _ _ hn h]

theorem Delivers.chunk (hn : 0 < n) (h : Delivers R n r chunks) : ∀ c ∈ chunks, c ≠ [] ∧ c.length ≤ n := by
  induction h with
  | done h => simp
  | more h hc hcs ih =>
    intro c hmem
    rcases List.mem_cons.1 hmem with rfl | hmem
    · exact ⟨hc, R.read_length _ _ _ hn h⟩
    · exact ih c hmem

theorem Delivers.unique {chunks' : List Bytes} (h : Delivers R n r chunks) (h' : Delivers R n r chunks') :
    chunks = chunks' := by
  induction h generalizing chunks' with
  | done h =>
    cases h' with
    | done h' => rfl
    | more h' hc' hcs' => rw [h] at h'; exact absurd (Except.ok.inj h').symm hc'
  | more h hc hcs ih =>
    cases h' with
    | done h' => rw [h] at h'; exact absurd (Except.ok.inj h') hc
    | more h' hc' hcs' =>
      rw [h] at h'
      rw [Except.ok.inj h', ih hcs']

/-! ## What is still to be produced -/

namespace AioAwsChunkedWrapper

variable {C : Cfg} {w : AioAwsChunkedWrapper ρ}

/-- what `w` gives when its raw stream delivers `chunks` -/
def toCome (C : Cfg) (w : AioAwsChunkedWrapper ρ) (chunks : List Bytes) : Bytes :=
  encode chunks (C.trailer (w.updated ++ chunks.flatten))

/-- `q` is what `w` still has to give -/
inductive Stands (R : RawStream ρ ε) (C : Cfg) (w : AioAwsChunkedWrapper ρ) : Bytes → Prop
  | finished (h : w.complete = true) : Stands R C w w.remaining
  | running (chunks : List Bytes) (h : w.complete = false) (hd : Delivers R C.chunkSize w.raw chunks) :
      Stands R C w (w.remaining ++ w.toCome C chunks)

/-- the end of the raw stream -/
theorem makeChunk_last (hread : (R.read w.raw C.chunkSize).1 = .ok []) :
    (makeChunk R C w).1 = .ok (w.toCome C []) ∧ (makeChunk R C w).2.complete = true ∧
      (makeChunk R C w).2.remaining = w.remaining := by
  rw [makeChunk_of_ok R C (Prod.ext hread rfl)]
  exact ⟨rfl, rfl, rfl⟩

/-- a chunk before the end -/
theorem makeChunk_more {c : Bytes} (hread : (R.read w.raw C.chunkSize).1 = .ok c) (hc : c ≠ []) (cs : List Bytes) :
    let w' := (makeChunk R C w).2
    (makeChunk R C w).1 = .ok (frame c) ∧ w'.complete = false ∧ w'.remaining = w.remaining ∧
      w'.raw = (R.read w.raw C.chunkSize).2 ∧ w.toCome C (c :: cs) = frame c ++ w'.toCome C cs := by
  rw [makeChunk_of_ok R C (Prod.ext hread rfl), if_neg hc]
  exact ⟨rfl, by simpa using hc, rfl, rfl, by simp [toCome, encode]⟩

/-- a chunk moves from the raw stream into the buffer -/
theorem Stands.makeChunk {q : Bytes} (h : Stands R C w q) (hw : w.complete = false) :
    ∃ chunk w', makeChunk R C w = (.ok chunk, w') ∧ Stands R C { w' with remaining := w'.remaining ++ chunk } q := by
  cases h with
  | finished h => rw [hw] at h; cases h
  | running chunks _ hd =>
    cases hd with
    | done hread =>
      obtain ⟨h1, h2, h3⟩ := makeChunk_last (w := w) hread
      refine ⟨_, _, Prod.ext h1 rfl, ?_⟩
      rw [← h3]
      exact .finished h2
    | @more _ c cs hread hc hcs =>
      obtain ⟨h1, h2, h3, h4, h5⟩ := makeChunk_more (w := w) hread hc cs
      refine ⟨_, _, Prod.ext h1 rfl, ?_⟩
      rw [h5, ← h3, ← List.append_assoc]
      exact .running cs h2 (by rw [h4]; exact hcs)

/-- the loop ends with enough in the buffer, or with all -/
theorem Stands.fill {q : Bytes} (h : Stands R C w q) (size : Option ℕ) :
    ∃ w', fill R C size w = (.ok (), w') ∧ Stands R C w' q ∧
      (w'.complete = true ∨ ∃ n ∈ size, n ≤ w'.remaining.length) := by
  induction hleft : chunksLeft R w using Nat.strongRecOn generalizing w with
  | _ left ih =>
    rw [AioAwsChunkedWrapper.fill]
    split_ifs with hmore
    · obtain ⟨chunk, w', hmake, hw'⟩ := h.makeChunk hmore.1
      have hless := makeChunk_chunksLeft R C hmake hmore.1
      rw [hleft] at hless
      split
      · rename_i e v hv
        rw [hmake] at hv; cases hv
      · rename_i c v hv
        rw [hmake] at hv
        cases hv
        exact ih _ hless hw' rfl
    · refine ⟨w, rfl, h, ?_⟩
      cases hc : w.complete with
      | true => exact .inl rfl
      | false => simpa [hc] using hmore

/-! ## Reading -/

/-- a read of `q`, and what it leaves -/
def takeBytes (q : Bytes) (size : Option ℤ) : Bytes × Bytes :=
  match wanted size with
  | none => (q, [])
  | some n => (q.take n, q.drop n)

theorem read_spec {q : Bytes} (h : Stands R C w q) (size : Option ℤ) :
    (read R C w size).1 = .ok (takeBytes q size).1 ∧ Stands R C (read R C w size).2 (takeBytes q size).2 := by
  unfold read
  split_ifs with hend
  · obtain ⟨hcomplete, hnil⟩ := hend
    cases h with
    | running chunks hw hd => rw [hcomplete] at hw; cases hw
    | finished _ =>
      have hq : takeBytes w.remaining size = ([], []) := by
        unfold takeBytes
        rw [hnil]
        cases wanted size <;> simp
      rw [hq]
      exact ⟨rfl, hnil ▸ .finished hcomplete⟩
  · obtain ⟨w', hfill, hstands, henough⟩ := h.fill (wanted size)
    rw [hfill]
    cases hstands with
    | finished hw' =>
      cases hsize : wanted size with
      | none => simpa [takeBytes, hsize] using Stands.finished (w := { w' with remaining := [] }) hw'
      | some n => simpa [takeBytes, hsize] using Stands.finished (w := { w' with remaining := w'.remaining.drop n }) hw'
    | running chunks hw' hd =>
      rw [hw'] at henough
      obtain ⟨n, hsize, hn⟩ := henough.resolve_left Bool.false_ne_true
      rw [Option.mem_def] at hsize
      simp only [takeBytes, hsize, Option.getD_some, List.take_append_of_le_length hn, List.drop_append_of_le_length hn]
      exact ⟨trivial, Stands.running (w := { w' with remaining := w'.remaining.drop n }) chunks hw' hd⟩

theorem trace_takeBytes (q : Bytes) (sizes : List (Option ℤ)) :
    (trace takeBytes q sizes).1.flatten ++ (trace takeBytes q sizes).2 = q := by
  induction sizes generalizing q with
  | nil => rfl
  | cons size sizes ih =>
    simp only [trace, List.flatten_cons, List.append_assoc, ih]
    unfold takeBytes
    cases wanted size with
    | none => exact List.append_nil q
    | some n => exact List.take_append_drop n q

/-! ## Iteration -/

/-- `count` steps of the iterator -/
def iterate (R : RawStream ρ ε) (C : Cfg) (w : AioAwsChunkedWrapper ρ) (count : ℕ) : List (Option (Except ε Bytes)) :=
  (trace (fun w (_ : Unit) => anext R C w) w (List.replicate count ())).1

theorem iterate_complete (hw : w.complete = true) (count : ℕ) : iterate R C w count = List.replicate count none := by
  induction count with
  | zero => rfl
  | succ count ih =>
    have hnext : anext R C w = (none, w) := by simp [anext, hw]
    simp only [iterate, List.replicate_succ, trace, hnext] at ih ⊢
    rw [ih]

theorem iterate_succ (hw : w.complete = false) (count : ℕ) :
    iterate R C w (count + 1) = some (makeChunk R C w).1 :: iterate R C (makeChunk R C w).2 count := by
  have hnext : anext R C w = (some (makeChunk R C w).1, (makeChunk R C w).2) := by simp [anext, hw]
  simp only [iterate, List.replicate_succ, trace, hnext]

/-- the iterator gives one chunk after the other, the closing one last, and then ends -/
theorem iterate_spec (hw : w.complete = false) {chunks : List Bytes} (hd : Delivers R C.chunkSize w.raw chunks) :
    ∃ frames : List Bytes, frames.flatten = w.toCome C chunks ∧
      ∀ j, iterate R C w (frames.length + j) = frames.map (some ∘ .ok) ++ List.replicate j none := by
  induction chunks generalizing w with
  | nil =>
    cases hd with
    | done hread =>
      obtain ⟨h1, h2, -⟩ := makeChunk_last (w := w) hread
      refine ⟨[w.toCome C []], by simp, fun j => ?_⟩
      rw [List.length_singleton, add_comm, iterate_succ hw, h1, iterate_complete h2]
      rfl
  | cons c cs ih =>
    cases hd with
    | more hread hc hcs =>
      obtain ⟨h1, h2, -, h4, h5⟩ := makeChunk_more (w := w) hread hc cs
      obtain ⟨frames, hflat, hiter⟩ := ih h2 (by rw [h4]; exact hcs)
      refine ⟨frame c :: frames, by rw [List.flatten_cons, hflat, h5], fun j => ?_⟩
      rw [List.length_cons, Nat.add_right_comm, iterate_succ hw, h1, hiter]
      rfl

/-! ## The encoding -/

/-- Reading and iterating give `encoded`. After any reads, what they returned and what is left make up `encoded`, and
the next read gives as much of what is left as it asks for. The iterator gives pieces that make it up, and ends. -/
structure Produces (R : RawStream ρ ε) (C : Cfg) (w : AioAwsChunkedWrapper ρ) (encoded : Bytes) : Prop where
  reads : ∀ sizes, ∃ outs : List Bytes, ∃ left : Bytes, (trace (read R C) w sizes).1 = outs.map .ok ∧
    outs.flatten ++ left = encoded ∧ ∀ size, (read R C (trace (read R C) w sizes).2 size).1 = .ok ((wanted size).elim left left.take)
  iterates : ∃ frames : List Bytes, frames.flatten = encoded ∧
    ∀ j, iterate R C w (frames.length + j) = frames.map (some ∘ .ok) ++ List.replicate j none

theorem new_toCome (raw : ρ) (chunks : List Bytes) :
    (new raw).toCome C chunks = encode chunks (C.trailer chunks.flatten) := by
  simp [toCome, new]

theorem new_produces {raw : ρ} {chunks : List Bytes} (hd : Delivers R C.chunkSize raw chunks) :
    Produces R C (new raw) (encode chunks (C.trailer chunks.flatten)) where
  reads sizes := by
    have hstands := Stands.running (w := new raw) chunks rfl hd
    have hnil : (new raw).remaining = [] := rfl
    rw [new_toCome, hnil, List.nil_append] at hstands
    obtain ⟨houts, hleft⟩ := trace_total (R := fun q w => Stands R C w q) (fun _ _ size h => read_spec h size) hstands sizes
    refine ⟨_, _, houts, trace_takeBytes _ sizes, fun size => ?_⟩
    rw [(read_spec hleft size).1, takeBytes]
    cases wanted size <;> rfl
  iterates := by
    obtain ⟨frames, hflat, hiter⟩ := iterate_spec (w := new raw) rfl hd
    exact ⟨frames, by rw [hflat, new_toCome], hiter⟩

/-- **The upload encoding.** Let the raw stream deliver its body in whatever chunks. The encoding made of them decodes
to exactly these chunks, none empty, with the trailer of the whole body, and reads of any sizes and the iterator produce
it. From any later state `seek(0)` produces an encoding of the same body again, and the same one if the raw stream is
back in its first state. -/
theorem aws_chunked_encoding (R : RawStream ρ ε) (C : Cfg) (chunks : List Bytes)
    (h : Delivers R C.chunkSize R.start chunks) :
    let body := R.rest R.start
    let Encodes := fun (w : AioAwsChunkedWrapper ρ) (chunks : List Bytes) =>
      chunks.flatten = body ∧ (∀ c ∈ chunks, c ≠ [] ∧ c.length ≤ C.chunkSize) ∧
      decode (encode chunks (C.trailer body)) = some (chunks, C.trailer body) ∧
      Produces R C w (encode chunks (C.trailer body))
    Encodes (new R.start) chunks ∧
      ∀ (w : AioAwsChunkedWrapper ρ) (chunks' : List Bytes), Delivers R C.chunkSize (R.seek w.raw) chunks' →
        Encodes (w.seek R) chunks' ∧ (R.seek w.raw = R.start → chunks' = chunks) := by
  have hpos := C.chunkSize.pos
  have hencodes : ∀ raw chunks, Delivers R C.chunkSize raw chunks → R.rest raw = R.rest R.start →
      chunks.flatten = R.rest R.start ∧ (∀ c ∈ chunks, c ≠ [] ∧ c.length ≤ C.chunkSize) ∧
      decode (encode chunks (C.trailer (R.rest R.start))) = some (chunks, C.trailer (R.rest R.start)) ∧
      Produces R C (new raw) (encode chunks (C.trailer (R.rest R.start))) := by
    intro raw chunks hd hrest
    have hflat : chunks.flatten = R.rest R.start := (hd.flatten hpos).trans hrest
    refine ⟨hflat, hd.chunk hpos, decode_encode (fun c hc => (hd.chunk hpos c hc).1) _, ?_⟩
    rw [← hflat]
    exact new_produces hd
  intro body Encodes
  refine ⟨hencodes R.start chunks h rfl, fun w chunks' hd => ⟨hencodes _ chunks' hd (R.seek_rest w.raw), fun hseek => ?_⟩⟩
  rw [hseek] at hd
  exact hd.unique h

/-- a stream of bytes in memory, of which a read at position `pos` gives at most `limit pos` -/
def shortReads (body : Bytes) (limit : ℕ → ℕ+) : RawStream ℕ Empty where
  read pos n := (.ok ((body.drop pos).take (min n (limit pos))), pos + min n (limit pos))
  seek _ := 0
  start := 0
  rest pos := body.drop pos
  read_rest pos n c _ h := by
    rw [← Except.ok.inj h, ← List.drop_drop, List.take_append_drop]
  read_length pos n c _ h := by
    rw [← Except.ok.inj h, List.length_take]
    omega
  read_nil pos n hn h := by
    have hlimit := (limit pos).pos
    exact (List.take_eq_nil_iff.1 (Except.ok.inj h)).resolve_left (by omega)
  seek_rest _ := rfl

/-- `hello`, in reads of at most four bytes -/
theorem aws_chunked_encoding_hello :
    let C : Cfg := ⟨5, "x-amz-checksum-crc32", some fun _ => [13, 74, 17, 133]⟩
    let encoded := encode [ascii "hell", ascii "o"] (ascii "x-amz-checksum-crc32:DUoRhQ==" ++ crlf ++ crlf)
    decode encoded = some ([ascii "hell", ascii "o"], ascii "x-amz-checksum-crc32:DUoRhQ==" ++ crlf ++ crlf) ∧
      Produces (shortReads (ascii "hello") fun _ => 4) C (new 0) encoded :=
  (aws_chunked_encoding (shortReads (ascii "hello") fun _ => 4)
    ⟨5, "x-amz-checksum-crc32", some fun _ => [13, 74, 17, 133]⟩ [ascii "hell", ascii "o"]
    (.more (by decide) (by decide) (.more (by decide) (by decide) (.done (by decide))))).1.2.2

end AioAwsChunkedWrapper

end AioBotocore.AwsChunked
