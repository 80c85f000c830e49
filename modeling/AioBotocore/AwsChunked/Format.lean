/-
The chunked format of byte strings: each chunk after its length in hexadecimal, a chunk of length zero at the end, and
a trailer after it.

- `decode_encode`: what was encoded from chunks that are not empty decodes to these chunks and the trailer. The decoder
  takes as many bytes for a chunk as its length says.
-/
import Mathlib.Tactic
import AioBotocore.Octets

namespace Octets

def crlf : Bytes := [cr, lf]

/-- `s.encode("ascii")`, of an ASCII string -/
def ascii (s : String) : Bytes := s.toList.map fun c => UInt8.ofNat c.toNat

/-! ## Hexadecimal numbers -/

def hexDigit (d : ℕ) : UInt8 := UInt8.ofNat (Nat.digitChar d).toNat

/-- `hex(n)[2:]` -/
def hexDigits (n : ℕ) : Bytes := (Nat.toDigits 16 n).map fun c => UInt8.ofNat c.toNat

def hexValue (c : UInt8) : Option ℕ :=
  if 48 ≤ c ∧ c ≤ 57 then some (c.toNat - 48)
  else if 97 ≤ c ∧ c ≤ 102 then some (c.toNat - 87)
  else if 65 ≤ c ∧ c ≤ 70 then some (c.toNat - 55)
  else none

/-- the digits up to the end of the line, after a number `acc`, and what follows the line -/
def readDigits (acc : ℕ) : Bytes → Option (ℕ × Bytes)
  | 13 :: 10 :: rest => some (acc, rest)
  | c :: rest => (hexValue c).bind fun v => readDigits (16 * acc + v) rest
  | [] => none

/-- a line with a number of at least one digit -/
def readSize : Bytes → Option (ℕ × Bytes)
  | c :: rest => (hexValue c).bind fun v => readDigits v rest
  | [] => none

theorem hexValue_hexDigit {d : ℕ} (hd : d < 16) : hexValue (hexDigit d) = some d := by
  have h : ∀ d : Fin 16, hexValue (hexDigit d) = some (d : ℕ) := by decide
  exact h ⟨d, hd⟩

theorem hexDigits_of_lt {n : ℕ} (hn : n < 16) : hexDigits n = [hexDigit n] := by
  simp [hexDigits, hexDigit, Nat.toDigits_of_lt_base hn]

theorem hexDigits_of_le {n : ℕ} (hn : 16 ≤ n) : hexDigits n = hexDigits (n / 16) ++ [hexDigit (n % 16)] := by
  simp [hexDigits, hexDigit, Nat.toDigits_of_base_le (by decide : 1 < 16) hn]

theorem readDigits_cons {c : UInt8} {v : ℕ} (hc : hexValue c = some v) (acc : ℕ) (rest : Bytes) :
    readDigits acc (c :: rest) = readDigits (16 * acc + v) rest := by
  have hcr : c ≠ 13 := by rintro rfl; cases hc
  cases rest with
  | nil => simp [readDigits, hc]
  | cons d rest => rw [readDigits] <;> simp [hc, hcr]

theorem readDigits_hexDigits (n acc : ℕ) (rest : Bytes) :
    readDigits acc (hexDigits n ++ rest) = readDigits (acc * 16 ^ (hexDigits n).length + n) rest := by
  induction n using Nat.strongRecOn generalizing acc rest with
  | _ n ih =>
    rcases Nat.lt_or_ge n 16 with hn | hn
    · rw [hexDigits_of_lt hn, List.singleton_append, readDigits_cons (hexValue_hexDigit hn)]
      simp [mul_comm]
    · have hlast := hexValue_hexDigit (Nat.mod_lt n (by decide : 0 < 16))
      rw [hexDigits_of_le hn, List.append_assoc, List.singleton_append, ih (n / 16) (by omega), readDigits_cons hlast,
        List.length_append, List.length_singleton, pow_succ]
      congr 1
      calc 16 * (acc * 16 ^ (hexDigits (n / 16)).length + n / 16) + n % 16
          = acc * (16 ^ (hexDigits (n / 16)).length * 16) + (16 * (n / 16) + n % 16) := by ring
        _ = acc * (16 ^ (hexDigits (n / 16)).length * 16) + n := by rw [Nat.div_add_mod]

theorem hexDigits_head (n : ℕ) : ∃ c ds v, hexDigits n = c :: ds ∧ hexValue c = some v := by
  induction n using Nat.strongRecOn with
  | _ n ih =>
    rcases Nat.lt_or_ge n 16 with hn | hn
    · exact ⟨_, [], n, hexDigits_of_lt hn, hexValue_hexDigit hn⟩
    · obtain ⟨c, ds, v, hds, hv⟩ := ih (n / 16) (by omega)
      exact ⟨c, ds ++ [hexDigit (n % 16)], v, by rw [hexDigits_of_le hn, hds, List.cons_append], hv⟩

/-- a number reads back -/
theorem readSize_hexDigits (n : ℕ) (rest : Bytes) : readSize (hexDigits n ++ (crlf ++ rest)) = some (n, rest) := by
  have hdigits := readDigits_hexDigits n 0 (crlf ++ rest)
  obtain ⟨c, ds, v, hds, hv⟩ := hexDigits_head n
  rw [hds, List.cons_append, readDigits_cons hv, mul_zero, zero_add] at hdigits
  rw [hds, List.cons_append, readSize, hv, Option.bind_some, hdigits]
  simp [crlf, cr, lf, readDigits]

/-! ## Chunks -/

def frame (chunk : Bytes) : Bytes := hexDigits chunk.length ++ crlf ++ chunk ++ crlf

/-- the chunk of length zero, and the trailer -/
def closing (trailer : Bytes) : Bytes := hexDigits 0 ++ crlf ++ trailer

def encode (chunks : List Bytes) (trailer : Bytes) : Bytes := chunks.flatMap frame ++ closing trailer

/-- at most `fuel` chunks, and what follows the chunk of length zero -/
def decodeChunks : ℕ → Bytes → Option (List Bytes × Bytes)
  | 0, _ => none
  | fuel + 1, s =>
    match readSize s with
    | none => none
    | some (0, rest) => some ([], rest)
    | some (size + 1, rest) =>
      match rest.drop (size + 1) with
      | 13 :: 10 :: rest' => (decodeChunks fuel rest').map fun p => (rest.take (size + 1) :: p.1, p.2)
      | _ => none

def decode (s : Bytes) : Option (List Bytes × Bytes) := decodeChunks s.length s

theorem decodeChunks_frame {chunk : Bytes} (h : chunk ≠ []) (fuel : ℕ) (rest : Bytes) :
    decodeChunks (fuel + 1) (frame chunk ++ rest) = (decodeChunks fuel rest).map fun p => (chunk :: p.1, p.2) := by
  obtain ⟨size, hsize⟩ : ∃ size, chunk.length = size + 1 :=
    ⟨chunk.length - 1, by have := List.length_pos_iff.2 h; omega⟩
  have hread : readSize (frame chunk ++ rest) = some (size + 1, chunk ++ (crlf ++ rest)) := by
    rw [← hsize, ← readSize_hexDigits chunk.length]
    simp [frame, List.append_assoc]
  have hdrop : (chunk ++ (crlf ++ rest)).drop (size + 1) = 13 :: 10 :: rest := by
    rw [← hsize, List.drop_left]; rfl
  have htake : (chunk ++ (crlf ++ rest)).take (size + 1) = chunk := by
    rw [← hsize, List.take_left]
  rw [decodeChunks, hread]
  simp only [hdrop, htake]

theorem decodeChunks_encode (trailer : Bytes) {chunks : List Bytes} (h : ∀ c ∈ chunks, c ≠ []) {fuel : ℕ}
    (hfuel : chunks.length < fuel) : decodeChunks fuel (encode chunks trailer) = some (chunks, trailer) := by
  induction chunks generalizing fuel with
  | nil =>
    obtain ⟨fuel, rfl⟩ : ∃ f, fuel = f + 1 := ⟨fuel - 1, by simp at hfuel; omega⟩
    simp only [encode, closing, List.flatMap_nil, List.nil_append, List.append_assoc, decodeChunks, readSize_hexDigits]
  | cons c chunks ih =>
    obtain ⟨fuel, rfl⟩ : ∃ f, fuel = f + 1 := ⟨fuel - 1, by simp at hfuel; omega⟩
    have henc : encode (c :: chunks) trailer = frame c ++ encode chunks trailer := by simp [encode]
    rw [henc, decodeChunks_frame (h c (by simp)), ih (fun c hc => h c (by simp [hc])) (by simpa using hfuel)]
    rfl

theorem length_lt_encode (chunks : List Bytes) (trailer : Bytes) : chunks.length < (encode chunks trailer).length := by
  have hchunks : chunks.length ≤ (chunks.flatMap frame).length := by
    induction chunks with
    | nil => exact le_rfl
    | cons c chunks ih =>
      rw [List.flatMap_cons, List.length_append, List.length_cons]
      simp only [frame, crlf, List.length_append, List.length_cons, List.length_nil]
      omega
  simp only [encode, closing, crlf, List.length_append, List.length_cons, List.length_nil]
  omega

/-- **Round trip** -/
theorem decode_encode {chunks : List Bytes} (h : ∀ c ∈ chunks, c ≠ []) (trailer : Bytes) :
    decode (encode chunks trailer) = some (chunks, trailer) :=
  decodeChunks_encode trailer h (length_lt_encode chunks trailer)

end Octets
