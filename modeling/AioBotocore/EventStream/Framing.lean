/-
Messages of a byte stream that arrives in chunks, for any incremental decoder.

A decoder looks at the bytes received so far: it needs more of them, finds a message (and leaves the rest), or finds the
bytes broken. More bytes after a message, or after an error, change neither (`message_append`, `broken_append`).

- `decode_bytes`: taking chunks into the buffer until it holds a message finds what decoding all the bytes at once finds;
  how they were cut plays no part.
- `items`: all that a byte string holds, its messages and then what ends them; `items_message`, `items_broken` and
  `items_needMore` unfold it by one step of the decoder.
-/
import Mathlib.Tactic

namespace Framing

/-- what a decoder finds, `ρ` being what it leaves -/
inductive Found (ρ μ ε : Type*) where
  | needMore
  | message (m : μ) (rest : ρ)
  | broken (e : ε)
deriving DecidableEq, Repr

def Found.map {ρ ρ' μ ε : Type*} (f : ρ → ρ') : Found ρ μ ε → Found ρ' μ ε
  | .needMore => .needMore
  | .message m rest => .message m (f rest)
  | .broken e => .broken e

structure Decoder (α μ ε : Type*) where
  decode : List α → Found (List α) μ ε
  decode_nil : decode [] = .needMore
  shorter : ∀ {b m rest}, decode b = .message m rest → rest.length < b.length
  message_append : ∀ {b m rest} (c : List α), decode b = .message m rest → decode (b ++ c) = .message m (rest ++ c)
  broken_append : ∀ {b e} (c : List α), decode b = .broken e → decode (b ++ c) = .broken e

variable {α μ ε : Type*} (D : Decoder α μ ε)

/-! ## The buffer -/

/-- the bytes in the buffer and the chunks still to come -/
structure Feed (α : Type*) where
  buffer : List α
  chunks : List (List α)
deriving DecidableEq, Repr

def Feed.bytes (f : Feed α) : List α := f.buffer ++ f.chunks.flatten

/-- chunks are added to the buffer until it holds a message -/
def pullFrom (buffer : List α) : List (List α) → Found (Feed α) μ ε
  | [] => (D.decode buffer).map fun rest => ⟨rest, []⟩
  | c :: cs =>
    match D.decode buffer with
    | .message m rest => .message m ⟨rest, c :: cs⟩
    | .broken e => .broken e
    | .needMore => pullFrom (buffer ++ c) cs

def pull (f : Feed α) : Found (Feed α) μ ε := pullFrom D f.buffer f.chunks

theorem decode_bytes_from (buffer : List α) (chunks : List (List α)) :
    D.decode (buffer ++ chunks.flatten) = (pullFrom D buffer chunks).map Feed.bytes := by
  induction chunks generalizing buffer with
  | nil =>
    simp only [List.flatten_nil, List.append_nil, pullFrom]
    cases D.decode buffer <;> simp [Found.map, Feed.bytes]
  | cons c cs ih =>
    rw [pullFrom]
    split
    · rename_i m rest h
      rw [D.message_append _ h]
      rfl
    · rename_i e h
      rw [D.broken_append _ h]
      rfl
    · rw [List.flatten_cons, ← List.append_assoc]
      exact ih (buffer ++ c)

/-- **Cuts play no part.** -/
theorem decode_bytes (f : Feed α) : D.decode f.bytes = (pull D f).map Feed.bytes := decode_bytes_from D f.buffer f.chunks

/-! ## All that a byte string holds -/

/-- a message, or what ends the messages with an error -/
inductive Item (μ ε : Type*) where
  | message (m : μ)
  | broken (e : ε)
deriving DecidableEq, Repr

/-- the messages completely contained in the bytes, then the error that ends them: of the bytes themselves, or else
`failure`, with which their source ends -/
def items (failure : Option ε) (b : List α) : List (Item μ ε) :=
  match _h : D.decode b with
  | .needMore => failure.toList.map .broken
  | .message m rest => .message m :: items failure rest
  | .broken e => [.broken e]
termination_by b.length
decreasing_by exact D.shorter ‹_›

variable {D} (failure : Option ε)

theorem items_message {b rest : List α} {m : μ} (h : D.decode b = .message m rest) :
    items D failure b = .message m :: items D failure rest := by
  rw [items]
  split <;> simp_all

theorem items_broken {b : List α} {e : ε} (h : D.decode b = .broken e) : items D failure b = [.broken e] := by
  rw [items]
  split <;> simp_all

theorem items_needMore {b : List α} (h : D.decode b = .needMore) :
    items D failure b = failure.toList.map .broken := by
  rw [items]
  split <;> simp_all

/-! ## An instance -/

/-- a format of one length byte and as many bytes; a length of 255 is broken -/
def lengthPrefixed : Decoder UInt8 (List UInt8) String where
  decode
    | [] => .needMore
    | n :: b =>
      if n = 255 then .broken "InvalidPayloadLength"
      else if b.length < n.toNat then .needMore
      else .message (b.take n.toNat) (b.drop n.toNat)
  decode_nil := rfl
  shorter := by
    intro b m rest h
    cases b with
    | nil => cases h
    | cons n b =>
      simp only at h
      split at h
      · cases h
      · split at h
        · cases h
        · cases h
          simp only [List.length_drop, List.length_cons]
          omega
  message_append := by
    intro b m rest c h
    cases b with
    | nil => cases h
    | cons n b =>
      simp only at h
      split at h
      · cases h
      · rename_i hn
        split at h
        · cases h
        · rename_i hlen
          cases h
          have hle : n.toNat ≤ b.length := Nat.le_of_not_lt hlen
          have hle' : n.toNat ≤ b.length + c.length := hle.trans (Nat.le_add_right _ _)
          simp [hn, hle', List.take_append_of_le_length hle, List.drop_append_of_le_length hle]
  broken_append := by
    intro b e c h
    cases b with
    | nil => cases h
    | cons n b =>
      simp only at h
      split at h
      · rename_i hn
        simpa [hn] using h
      · split at h <;> cases h

end Framing
