/-
The httpx streaming body is a queue of bytes: its calls see the body as one string, however it arrives.

- `Serves`: what reading does to the buffer and the raw stream, whether it succeeds or fails.
- `call_refines`: a call that succeeds gives what the queue gives, and leaves what the queue leaves.
- `body_is_byte_queue`: the same for every list of calls that all succeed.
-/
import Mathlib.Tactic
import AioBotocore.Async.Trace
import AioBotocore.Response.Body

namespace AioBotocore.Response

open Async Octets

/-! ## The rest of the body -/

/-- the bytes that the stream has still to deliver -/
def undelivered (stream : List Event) : Bytes :=
  stream.flatMap fun e =>
    match e with
    | .chunk c => c
    | .raises _ => []

@[simp] theorem undelivered_nil : undelivered [] = [] := rfl

@[simp] theorem undelivered_chunk (c : Bytes) (rest : List Event) :
    undelivered (.chunk c :: rest) = c ++ undelivered rest := rfl

@[simp] theorem undelivered_raises (e : StreamExn) (rest : List Event) :
    undelivered (.raises e :: rest) = undelivered rest := rfl

theorem undelivered_chunks (chunks : List Bytes) : undelivered (chunks.map .chunk) = chunks.flatten := by
  induction chunks with
  | nil => rfl
  | cons c chunks ih => simp [ih]

/-- the stream ends without an error -/
def Intact (stream : List Event) : Prop := ∀ e ∈ stream, ∃ c, e = .chunk c

namespace AioHttpxStreamingBody

def rest (s : AioHttpxStreamingBody) : Bytes := s.buffer ++ undelivered s.stream

/-- an exhausted stream has nothing to deliver -/
def Valid (s : AioHttpxStreamingBody) : Prop := s.streamExhausted = true → s.stream = []

/-- `n` bytes of `q`, or all -/
def dequeue (q : Bytes) : Option ℕ → Bytes
  | none => q
  | some n => q.take n

/-- the part of a call that reads: on success it gives the wanted bytes and leaves the others; a failed one may lose
bytes, and counts none -/
structure Serves (s : AioHttpxStreamingBody) (want : Option ℕ) (r : Except Exn Bytes × AioHttpxStreamingBody) :
    Prop where
  valid : r.2.Valid
  amountRead : r.2.amountRead = s.amountRead
  contentLength : r.2.contentLength = s.contentLength
  suffix : r.2.rest <:+ s.rest
  ok : ∀ c, r.1 = .ok c → c = dequeue s.rest want ∧ r.2.rest = s.rest.drop c.length

theorem fillBuffer_spec (url : String) (minBytes : ℕ) (buffer : Bytes) (exhausted : Bool) (stream : List Event)
    (hv : exhausted = true → stream = []) :
    let t := fillBuffer url minBytes buffer exhausted stream
    (t.2.2.1 = true → t.2.2.2 = []) ∧ t.2.1 ++ undelivered t.2.2.2 = buffer ++ undelivered stream ∧
      (t.1 = .ok () → minBytes ≤ t.2.1.length ∨ t.2.2.2 = []) := by
  induction stream generalizing buffer with
  | nil => simp [fillBuffer]
  | cons e rest ih =>
    have hex : exhausted = false := by
      cases exhausted
      · rfl
      · cases hv rfl
    subst hex
    by_cases hlen : buffer.length < minBytes
    · cases e with
      | chunk c =>
        simp only [fillBuffer, hlen, and_self, if_true, undelivered_chunk, ← List.append_assoc]
        exact ih (buffer ++ c) (by simp)
      | raises e => simp [fillBuffer, hlen]
    · have hle : minBytes ≤ buffer.length := not_lt.1 hlen
      cases e <;> simp [fillBuffer, hlen, hle]

theorem readChunks_spec (stream : List Event) :
    undelivered (readChunks stream).2 <:+ undelivered stream ∧
      ∀ chunks, (readChunks stream).1 = .ok chunks → chunks.flatten = undelivered stream ∧ (readChunks stream).2 = [] := by
  induction stream with
  | nil => simp [readChunks]
  | cons e rest ih =>
    obtain ⟨hsuf, hok⟩ := ih
    cases e with
    | raises e => simp [readChunks]
    | chunk c =>
      simp only [readChunks, undelivered_chunk]
      refine ⟨hsuf.trans (List.suffix_append c _), fun chunks h => ?_⟩
      cases hr : (readChunks rest).1 with
      | error e => rw [hr] at h; cases h
      | ok cs =>
        rw [hr] at h
        obtain rfl : c :: cs = chunks := by simpa [Except.map] using h
        obtain ⟨h1, h2⟩ := hok cs hr
        exact ⟨by simp [h1], h2⟩

theorem readChunks_ok_iff (stream : List Event) : (∃ chunks, (readChunks stream).1 = .ok chunks) ↔ Intact stream := by
  induction stream with
  | nil => simp [readChunks, Intact]
  | cons e rest ih =>
    cases e with
    | raises e => simp [readChunks, Intact]
    | chunk c =>
      have hhead : Intact (.chunk c :: rest) ↔ Intact rest := by simp [Intact]
      rw [hhead, ← ih]
      simp only [readChunks]
      cases (readChunks rest).1 with
      | error e => simp [Except.map]
      | ok cs => simp [Except.map]

theorem readAll_serves {s : AioHttpxStreamingBody} (hv : s.Valid) : Serves s none s.readAll := by
  obtain ⟨hsuf, hok⟩ := readChunks_spec s.stream
  cases hr : readChunks s.stream with
  | mk res stream =>
    rw [hr] at hsuf hok
    cases res with
    | error e =>
      simp only [readAll, hr]
      refine ⟨fun h => ?_, rfl, rfl, hsuf.trans (List.suffix_append _ _), fun c h => by cases h⟩
      have hnil := hv h
      rw [hnil] at hr
      simp [readChunks] at hr
    | ok chunks =>
      obtain ⟨h1, h2⟩ := hok chunks rfl
      simp only at h2
      subst h2
      simp only [readAll, hr]
      refine ⟨fun _ => rfl, rfl, rfl, List.nil_suffix, fun c h => ?_⟩
      obtain rfl : s.buffer ++ chunks.flatten = c := by simpa using h
      rw [h1]
      exact ⟨rfl, by simp [rest]⟩

theorem readSome_serves {s : AioHttpxStreamingBody} (hv : s.Valid) (n : ℕ) : Serves s (some n) (s.readSome n) := by
  obtain ⟨hval, hrest, hlen⟩ := fillBuffer_spec s.url n s.buffer s.streamExhausted s.stream hv
  cases hr : fillBuffer s.url n s.buffer s.streamExhausted s.stream with
  | mk res t =>
    obtain ⟨buffer, exhausted, stream⟩ := t
    rw [hr] at hval hrest hlen
    simp only at hval hrest hlen
    simp only [readSome, fill, hr]
    cases res with
    | error e => exact ⟨hval, rfl, rfl, by rw [rest, hrest]; exact List.suffix_rfl, fun c h => by cases h⟩
    | ok u =>
      -- the buffer has enough, or it is all that is left
      have htake : s.rest.take n = buffer.take n ∧ s.rest.drop n = buffer.drop n ++ undelivered stream := by
        unfold rest
        rw [← hrest]
        rcases hlen rfl with hlen | hnil
        · exact ⟨List.take_append_of_le_length hlen, List.drop_append_of_le_length hlen⟩
        · rw [hnil]; simp
      refine ⟨hval, rfl, rfl, ?_, fun c h => ?_⟩
      · change buffer.drop n ++ undelivered stream <:+ s.rest
        rw [← htake.2]
        exact List.drop_suffix n _
      · obtain rfl : buffer.take n = c := by simpa using h
        refine ⟨htake.1.symm, ?_⟩
        change buffer.drop n ++ undelivered stream = _
        rw [← htake.1, ← htake.2, List.length_take]
        rcases Nat.le_total n s.rest.length with hle | hle
        · rw [Nat.min_eq_left hle]
        · rw [Nat.min_eq_right hle, List.drop_length, List.drop_of_length_le hle]

/-! ## Calls -/

inductive Call where
  | read (amt : Option ℤ)
  | readinto (b : Bytes)
deriving DecidableEq, Repr

inductive Reply where
  | bytes (c : Bytes)
  | filled (n : ℕ) (b : Bytes)
deriving DecidableEq, Repr

def Reply.returned : Reply → Bytes
  | .bytes c => c
  | .filled n b => b.take n

def call (s : AioHttpxStreamingBody) : Call → Except Exn Reply × AioHttpxStreamingBody
  | .read amt => ((s.read amt).1.map .bytes, (s.read amt).2)
  | .readinto b => ((s.readinto b).1.map fun p => .filled p.1 p.2, (s.readinto b).2)

/-- the bytes a call asks for; `none` is all -/
def Call.wanted : Call → Option ℕ
  | .read none => none
  | .read (some n) => if n < 0 then none else some n.toNat
  | .readinto b => some b.length

def Call.reply (got : Bytes) : Call → Reply
  | .read _ => .bytes got
  | .readinto b => .filled got.length (filled b got)

/-- the abstract body: how much has been taken, and what is left -/
structure Queue where
  taken : ℕ
  left : Bytes
deriving DecidableEq, Repr

def queueCall (q : Queue) (c : Call) : Reply × Queue :=
  let got := dequeue q.left c.wanted
  (c.reply got, ⟨q.taken + got.length, q.left.drop got.length⟩)

/-- the body stands where the queue stands -/
structure Refines (q : Queue) (s : AioHttpxStreamingBody) : Prop where
  valid : s.Valid
  taken : s.tell = q.taken
  left : s.rest = q.left

/-- reading and counting -/
theorem counted_refines {q : Queue} {s : AioHttpxStreamingBody} (h : Refines q s) {want : Option ℕ} {amt : Option ℤ}
    {r : Except Exn Bytes × AioHttpxStreamingBody} (hr : Serves s want r) {c : Bytes} (hc : (counted amt r).1 = .ok c) :
    c = dequeue q.left want ∧ Refines ⟨q.taken + c.length, q.left.drop c.length⟩ (counted amt r).2 := by
  obtain ⟨res, t⟩ := r
  cases res with
  | error e => cases hc
  | ok chunk =>
    have hres : chunk = c ∧ (counted amt (.ok chunk, t)).2 = { t with amountRead := t.amountRead + chunk.length } := by
      unfold counted at hc ⊢
      simp only at hc ⊢
      split_ifs at hc ⊢
      · obtain ⟨_, -, h2⟩ := map_ok hc
        exact ⟨h2, rfl⟩
      · exact ⟨Except.ok.inj hc, rfl⟩
    obtain ⟨rfl, hstate⟩ := hres
    obtain ⟨h1, h2⟩ := hr.ok chunk rfl
    rw [h.left] at h1 h2
    refine ⟨h1, ?_⟩
    rw [hstate]
    exact ⟨hr.valid, by simp only [tell]; rw [hr.amountRead]; exact congrArg (· + _) h.taken, h2⟩

theorem read_refines {q : Queue} {s : AioHttpxStreamingBody} (h : Refines q s) {amt : Option ℤ} {c : Bytes}
    (hc : (s.read amt).1 = .ok c) :
    c = dequeue q.left (Call.read amt).wanted ∧ Refines ⟨q.taken + c.length, q.left.drop c.length⟩ (s.read amt).2 := by
  cases amt with
  | none => exact counted_refines h (readAll_serves h.valid) hc
  | some n =>
    simp only [read, Call.wanted] at hc ⊢
    split_ifs at hc ⊢ with hneg hzero
    · exact counted_refines h (readAll_serves h.valid) hc
    · obtain rfl : [] = c := Except.ok.inj hc
      exact ⟨by simp [dequeue, hzero], h⟩
    · exact counted_refines h (readSome_serves h.valid _) hc

theorem call_refines (q : Queue) (s : AioHttpxStreamingBody) (c : Call) (r : Reply) (h : Refines q s)
    (hr : (call s c).1 = .ok r) : r = (queueCall q c).1 ∧ Refines (queueCall q c).2 (call s c).2 := by
  cases c with
  | read amt =>
    obtain ⟨got, hgot, rfl⟩ := map_ok hr
    obtain ⟨h1, h2⟩ := read_refines h hgot
    subst h1
    exact ⟨rfl, h2⟩
  | readinto b =>
    have hinto := aioHttpxStreamingBody_into s b
    simp only [aioHttpxStreamingBody] at hinto
    simp only [call, hinto] at hr ⊢
    obtain ⟨p, hp, rfl⟩ := map_ok hr
    obtain ⟨got, hgot, rfl⟩ := map_ok hp
    obtain ⟨h1, h2⟩ := read_refines h hgot
    have hwant : (Call.read (some (b.length : ℤ))).wanted = (Call.readinto b).wanted := by simp [Call.wanted]
    rw [hwant] at h1
    subst h1
    exact ⟨rfl, h2⟩

/-! ## The queue -/

theorem queueCall_returned (q : Queue) (c : Call) : (queueCall q c).1.returned = dequeue q.left c.wanted := by
  cases c with
  | read amt => rfl
  | readinto b => exact filled_take b _

/-- a call takes its bytes from the front -/
theorem dequeue_append (q : Bytes) (want : Option ℕ) : dequeue q want ++ q.drop (dequeue q want).length = q := by
  cases want with
  | none => simp [dequeue]
  | some n => exact (List.prefix_append_drop (List.take_prefix n q)).symm

theorem trace_queue (q : Queue) (calls : List Call) :
    let t := trace queueCall q calls
    let returned := (t.1.map Reply.returned).flatten
    returned ++ t.2.left = q.left ∧ t.2.taken = q.taken + returned.length := by
  induction calls generalizing q with
  | nil => simp [trace]
  | cons c calls ih =>
    obtain ⟨h1, h2⟩ := ih (queueCall q c).2
    simp only [trace, List.map_cons, List.flatten_cons, List.append_assoc, queueCall_returned]
    refine ⟨?_, ?_⟩
    · rw [h1]; exact dequeue_append q.left c.wanted
    · rw [h2, List.length_append]; simp only [queueCall]; omega

theorem new_refines (url : String) (stream : List Event) (contentLength : Option ℤ) :
    Refines ⟨0, undelivered stream⟩ (new url stream contentLength) :=
  ⟨fun h => by simp [new] at h, rfl, rfl⟩

/-- how many bytes a call gets when `remaining` are left -/
def Call.gets (remaining : ℕ) (c : Call) : ℕ := c.wanted.elim remaining (min · remaining)

/-- **The body is a byte queue.** For every chunking of a body and every list of calls that all succeed: the replies
are those of the queue of its bytes; the bytes returned are a prefix of the body; a further call that succeeds gets as
many bytes as it asks for and are left; `tell()` is the number of bytes returned; the buffer and what the stream has
not delivered are the rest of the body. -/
theorem body_is_byte_queue (url : String) (chunks : List Bytes) (contentLength : Option ℤ) (calls : List Call)
    (rs : List Reply) (hok : (trace call (new url (chunks.map .chunk) contentLength) calls).1 = rs.map .ok) :
    let s := (trace call (new url (chunks.map .chunk) contentLength) calls).2
    let returned := (rs.map Reply.returned).flatten
    rs = (trace queueCall ⟨0, chunks.flatten⟩ calls).1 ∧
    returned <+: chunks.flatten ∧
    (∀ c r, (call s c).1 = .ok r → r.returned.length = c.gets (chunks.flatten.length - returned.length) ∧
      ∀ n b, r = .filled n b → n = r.returned.length) ∧
    s.tell = returned.length ∧
    s.buffer ++ undelivered s.stream = chunks.flatten.drop returned.length := by
  intro s returned
  have hnew := new_refines url (chunks.map .chunk) contentLength
  rw [undelivered_chunks] at hnew
  obtain ⟨hrs, hs⟩ := trace_refines call_refines hnew hok
  obtain ⟨hleft, htaken⟩ := trace_queue ⟨0, chunks.flatten⟩ calls
  rw [← hrs] at hleft htaken
  have hpre : returned <+: chunks.flatten := ⟨_, hleft⟩
  have hrest : s.rest = chunks.flatten.drop returned.length := by
    have hdrop := congrArg (List.drop returned.length) hleft
    rw [List.drop_left] at hdrop
    exact hs.left.trans hdrop
  refine ⟨hrs, hpre, fun c r hr => ?_, by rw [hs.taken, htaken, Nat.zero_add], hrest⟩
  obtain ⟨hr', -⟩ := call_refines _ s c r hs hr
  have hlen : (trace queueCall ⟨0, chunks.flatten⟩ calls).2.left.length = chunks.flatten.length - returned.length := by
    rw [← hs.left, hrest, List.length_drop]
  have hret : r.returned.length = c.gets (chunks.flatten.length - returned.length) := by
    rw [hr', queueCall_returned, ← hlen, Call.gets]
    cases c.wanted with
    | none => rfl
    | some n => simp [dequeue]
  refine ⟨hret, ?_⟩
  rintro n b rfl
  cases c with
  | read amt => cases hr'
  | readinto b' =>
    obtain ⟨rfl, rfl⟩ := Reply.filled.inj hr'
    simp [Reply.returned, filled_take]

/-- a body of three bytes in three chunks, one of them empty -/
def threeChunks : List Bytes := [[1, 2], [], [3]]

def threeCalls : List Call := [.read (some 1), .readinto [0, 0, 0, 0], .read none]

theorem chunked_body_is_byte_queue :
    (trace call (new "" (threeChunks.map .chunk) (some 3)) threeCalls).1 =
      [Reply.bytes [1], .filled 2 [2, 3, 0, 0], .bytes []].map .ok ∧
    (trace call (new "" (threeChunks.map .chunk) (some 3)) threeCalls).2.tell = 3 :=
  ⟨rfl, (body_is_byte_queue "" threeChunks (some 3) threeCalls [.bytes [1], .filled 2 [2, 3, 0, 0], .bytes []] rfl).2.2.2.1⟩

end AioHttpxStreamingBody

end AioBotocore.Response
