/-
Base64 as an encoding: what was encoded decodes to itself.

- `decodeGroups_group`: the decoder on one group of four symbols.
- `b64decode_b64encode`: the round trip.
-/
import Mathlib.Tactic
import AioBotocore.Octets

namespace Octets

theorem symbol_index {v : ℕ} (hv : v < 64) :
    alphabet.idxOf? (symbol v) = some v ∧ symbol v ≠ '=' ∧ (symbol v).toNat < 128 := by
  have h : ∀ v : Fin 64, alphabet.idxOf? (symbol v) = some (v : ℕ) ∧ symbol v ≠ '=' ∧ (symbol v).toNat < 128 := by
    decide +kernel
  exact h ⟨v, hv⟩

/-- one symbol: the first of a group keeps six bits, each other one completes a byte -/
theorem decodeGroups_symbol {v : ℕ} (hv : v < 64) (quadPos left pads : ℕ) (cs : List Char) :
    decodeGroups quadPos left pads (symbol v :: cs) =
      match quadPos with
      | 0 => decodeGroups 1 v 0 cs
      | 1 => (decodeGroups 2 (v % 16) 0 cs).map (UInt8.ofNat (left * 4 + v / 16) :: ·)
      | 2 => (decodeGroups 3 (v % 4) 0 cs).map (UInt8.ofNat (left * 16 + v / 4) :: ·)
      | _ => (decodeGroups 0 0 0 cs).map (UInt8.ofNat (left * 64 + v) :: ·) := by
  obtain ⟨hindex, hpad, -⟩ := symbol_index hv
  rewrite [decodeGroups, if_neg hpad, hindex]
  rfl

theorem byte_eq (a : UInt8) {n : ℕ} (h : n = a.toNat) : UInt8.ofNat n = a := by
  rw [h, UInt8.ofNat_toNat]

/-- a group of three bytes -/
theorem decodeGroups_group (a b c : UInt8) (cs : List Char) :
    decodeGroups 0 0 0 (symbol (a.toNat / 4) :: symbol (a.toNat % 4 * 16 + b.toNat / 16) ::
        symbol (b.toNat % 16 * 4 + c.toNat / 64) :: symbol (c.toNat % 64) :: cs) =
      (decodeGroups 0 0 0 cs).map fun s => a :: b :: c :: s := by
  have ha : a.toNat < 256 := a.toNat_lt
  have hb : b.toNat < 256 := b.toNat_lt
  have hc : c.toNat < 256 := c.toNat_lt
  rw [decodeGroups_symbol (by omega)]
  simp only
  rw [decodeGroups_symbol (by omega)]
  simp only
  rw [decodeGroups_symbol (by omega)]
  simp only
  rw [decodeGroups_symbol (by omega)]
  simp only [Option.map_map]
  have hfirst : UInt8.ofNat (a.toNat / 4 * 4 + (a.toNat % 4 * 16 + b.toNat / 16) / 16) = a := byte_eq a (by omega)
  have hsecond : UInt8.ofNat ((a.toNat % 4 * 16 + b.toNat / 16) % 16 * 16 + (b.toNat % 16 * 4 + c.toNat / 64) / 4) = b :=
    byte_eq b (by omega)
  have hthird : UInt8.ofNat ((b.toNat % 16 * 4 + c.toNat / 64) % 4 * 64 + c.toNat % 64) = c := byte_eq c (by omega)
  rw [hfirst, hsecond, hthird]
  rfl

theorem decodeGroups_encodeGroups (s : Bytes) : decodeGroups 0 0 0 (encodeGroups s) = some s := by
  induction s using encodeGroups.induct with
  | case1 => rfl
  | case2 a =>
    have ha : a.toNat < 256 := a.toNat_lt
    rw [encodeGroups, decodeGroups_symbol (by omega)]
    simp only
    rw [decodeGroups_symbol (by omega)]
    simp only
    have hbyte : UInt8.ofNat (a.toNat / 4 * 4 + a.toNat % 4 * 16 / 16) = a := byte_eq a (by omega)
    have hpads : decodeGroups 2 (a.toNat % 4 * 16 % 16) 0 ['=', '='] = some [] := rfl
    rw [hpads, hbyte]
    rfl
  | case3 a b =>
    have ha : a.toNat < 256 := a.toNat_lt
    have hb : b.toNat < 256 := b.toNat_lt
    rw [encodeGroups, decodeGroups_symbol (by omega)]
    simp only
    rw [decodeGroups_symbol (by omega)]
    simp only
    rw [decodeGroups_symbol (by omega)]
    simp only [Option.map_map]
    have hfirst : UInt8.ofNat (a.toNat / 4 * 4 + (a.toNat % 4 * 16 + b.toNat / 16) / 16) = a := byte_eq a (by omega)
    have hsecond : UInt8.ofNat ((a.toNat % 4 * 16 + b.toNat / 16) % 16 * 16 + b.toNat % 16 * 4 / 4) = b :=
      byte_eq b (by omega)
    have hpad : decodeGroups 3 (b.toNat % 16 * 4 % 4) 0 ['='] = some [] := rfl
    rw [hpad, hfirst, hsecond]
    rfl
  | case4 a b c rest ih =>
    rw [encodeGroups, decodeGroups_group, ih]
    rfl

theorem encodeGroups_ascii (s : Bytes) : ∀ c ∈ encodeGroups s, c.toNat < 128 := by
  have hpad : ('=' : Char).toNat < 128 := by decide
  induction s using encodeGroups.induct with
  | case1 => simp [encodeGroups]
  | case2 a =>
    have ha : a.toNat < 256 := a.toNat_lt
    simp only [encodeGroups, List.forall_mem_cons, List.not_mem_nil, false_implies, implies_true, and_true]
    exact ⟨(symbol_index (by omega)).2.2, (symbol_index (by omega)).2.2, hpad, hpad⟩
  | case3 a b =>
    have ha : a.toNat < 256 := a.toNat_lt
    have hb : b.toNat < 256 := b.toNat_lt
    simp only [encodeGroups, List.forall_mem_cons, List.not_mem_nil, false_implies, implies_true, and_true]
    exact ⟨(symbol_index (by omega)).2.2, (symbol_index (by omega)).2.2, (symbol_index (by omega)).2.2, hpad⟩
  | case4 a b c rest ih =>
    have ha : a.toNat < 256 := a.toNat_lt
    have hb : b.toNat < 256 := b.toNat_lt
    have hc : c.toNat < 256 := c.toNat_lt
    simp only [encodeGroups, List.forall_mem_cons]
    exact ⟨(symbol_index (by omega)).2.2, (symbol_index (by omega)).2.2, (symbol_index (by omega)).2.2,
      (symbol_index (by omega)).2.2, ih⟩

/-- **Round trip** -/
theorem b64decode_b64encode (s : Bytes) : b64decode (b64encode s) = some s := by
  have hascii : ¬ ((encodeGroups s).any fun c => 128 ≤ c.toNat) = true := by
    rw [List.any_eq_true]
    rintro ⟨c, hc, hlarge⟩
    have hsmall := encodeGroups_ascii s c hc
    rw [decide_eq_true_eq] at hlarge
    omega
  rw [b64decode, b64encode, String.toList_ofList, if_neg hascii, decodeGroups_encodeGroups]

end Octets
