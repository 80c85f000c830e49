/-
Byte strings: lines (`bytes.splitlines`), base64 (`base64.b64encode`, and `base64.b64decode` without validation) and text
(`bytes.decode`).

- `splitlines_resplit`: bytes added at the end change only the last line.
- `splitlinesFrom_lines`: the lines with their ends, one by one, give the lines without.
-/
import Mathlib.Tactic

namespace Octets

abbrev Bytes := List UInt8

/-! ## Lines -/

def lf : UInt8 := 10

def cr : UInt8 := 13

/-- the lines of `cur` followed by the given bytes, where `cur` holds no line break -/
def splitlinesFrom (keepends : Bool) (cur : Bytes) : Bytes → List Bytes
  | [] => if cur = [] then [] else [cur]
  | 13 :: 10 :: rest => (cur ++ if keepends then [cr, lf] else []) :: splitlinesFrom keepends [] rest
  | c :: rest =>
    if c = cr ∨ c = lf then (cur ++ if keepends then [c] else []) :: splitlinesFrom keepends [] rest
    else splitlinesFrom keepends (cur ++ [c]) rest

/-- `bytes.splitlines(keepends)`: `\n`, `\r` and `\r\n` end a line -/
def splitlines (keepends : Bool) (s : Bytes) : List Bytes := splitlinesFrom keepends [] s

example : splitlines false [97, cr, lf, lf, 98] = [[97], [], [98]] := by decide

/-- `cur` has no line break -/
def NoBreak (cur : Bytes) : Prop := ∀ c ∈ cur, c ≠ cr ∧ c ≠ lf

theorem NoBreak.snoc {cur : Bytes} (h : NoBreak cur) {c : UInt8} (hc : ¬ (c = cr ∨ c = lf)) : NoBreak (cur ++ [c]) := by
  intro d hd
  rcases List.mem_append.1 hd with hd | hd
  · exact h d hd
  · rw [List.mem_singleton] at hd
    rw [hd]
    exact not_or.1 hc

theorem splitlinesFrom_cons (k : Bool) {c : UInt8} (hc : ¬ (c = cr ∨ c = lf)) (cur s : Bytes) :
    splitlinesFrom k cur (c :: s) = splitlinesFrom k (cur ++ [c]) s := by
  rw [splitlinesFrom, if_neg hc]
  rintro rest rfl
  exact fun _ => hc (.inl rfl)

theorem splitlinesFrom_append (k : Bool) {cur : Bytes} (h : NoBreak cur) (pre s : Bytes) :
    splitlinesFrom k pre (cur ++ s) = splitlinesFrom k (pre ++ cur) s := by
  induction cur generalizing pre with
  | nil => simp
  | cons c cur ih =>
    have hc : ¬ (c = cr ∨ c = lf) := not_or.2 (h c (by simp))
    have hcur : NoBreak cur := fun d hd => h d (by simp [hd])
    rw [List.cons_append, splitlinesFrom_cons k hc, ih hcur, List.append_assoc, List.singleton_append]

theorem splitlinesFrom_eq_nil {k : Bool} {cur s : Bytes} (h : splitlinesFrom k cur s = []) : cur = [] ∧ s = [] := by
  induction cur, s using splitlinesFrom.induct with
  | case1 => exact ⟨rfl, rfl⟩
  | case2 cur hcur => simp [splitlinesFrom, hcur] at h
  | case3 cur rest ih => simp [splitlinesFrom] at h
  | case4 cur c rest hne hc ih => rw [splitlinesFrom, if_pos hc] at h <;> simp_all
  | case5 cur c rest hne hc ih =>
    rw [splitlinesFrom_cons k hc] at h
    simpa using (ih h).1

/-- more bytes only change the last line -/
theorem splitlinesFrom_resplit {cur s : Bytes} (hcur : NoBreak cur) (t : Bytes) {front : List Bytes} {last : Bytes}
    (h : splitlinesFrom true cur s = front ++ [last]) :
    splitlinesFrom true cur (s ++ t) = front ++ splitlinesFrom true [] (last ++ t) := by
  induction cur, s using splitlinesFrom.induct generalizing front with
  | case1 => simp [splitlinesFrom] at h
  | case2 cur hne =>
    have h' : [cur] = front ++ [last] := by simpa [splitlinesFrom, hne] using h
    obtain ⟨rfl, hlast⟩ := List.append_inj' (show [] ++ [cur] = front ++ [last] from h') rfl
    obtain rfl : cur = last := by simpa using hlast
    rw [splitlinesFrom_append true hcur]; rfl
  | case3 cur rest ih =>
    rw [splitlinesFrom] at h
    cases front with
    | nil =>
      obtain ⟨hlast, hnil⟩ := List.cons.inj h
      obtain rfl := (splitlinesFrom_eq_nil hnil).2
      rw [← hlast, List.append_assoc, splitlinesFrom_append true hcur]
      rfl
    | cons l front =>
      obtain ⟨rfl, hrest⟩ := List.cons.inj h
      simp only [List.cons_append, splitlinesFrom]
      rw [ih (fun _ hc => by cases hc) hrest]
  | case4 cur c rest hne hc ih =>
    rw [splitlinesFrom, if_pos hc] at h
    · cases front with
      | nil =>
        obtain ⟨hlast, hnil⟩ := List.cons.inj h
        obtain rfl := (splitlinesFrom_eq_nil hnil).2
        rw [← hlast, if_pos rfl, List.append_assoc, splitlinesFrom_append true hcur]
        rfl
      | cons l front =>
        obtain ⟨rfl, hrest⟩ := List.cons.inj h
        have hne' : ∀ rest', c = 13 → rest ++ t = 10 :: rest' → False := by
          intro rest' hcr heq
          cases rest with
          | nil => simp [splitlinesFrom] at hrest
          | cons d rest => exact hne rest hcr (by rw [(List.cons.inj heq).1])
        rw [List.cons_append, splitlinesFrom, if_pos hc, ih (fun _ hc => by cases hc) hrest]
        · rfl
        · exact hne'
    · exact hne
  | case5 cur c rest hne hc ih =>
    rw [splitlinesFrom_cons true hc] at h
    rw [List.cons_append, splitlinesFrom_cons true hc, ih (hcur.snoc hc) h]

theorem splitlines_resplit {s : Bytes} (t : Bytes) {front : List Bytes} {last : Bytes}
    (h : splitlines true s = front ++ [last]) : splitlines true (s ++ t) = front ++ splitlines true (last ++ t) :=
  splitlinesFrom_resplit (fun _ hc => by cases hc) t h

/-- a line with its end is split into itself -/
theorem splitlinesFrom_lines (k : Bool) {cur s : Bytes} (hcur : NoBreak cur) :
    List.Forall₂ (fun line l => splitlines k line = [l]) (splitlinesFrom true cur s) (splitlinesFrom k cur s) := by
  induction cur, s using splitlinesFrom.induct with
  | case1 => simp [splitlinesFrom]
  | case2 cur hne =>
    have h := splitlinesFrom_append k hcur [] []
    simp only [List.append_nil, List.nil_append] at h
    simpa [splitlinesFrom, hne, splitlines] using h
  | case3 cur rest ih =>
    simp only [splitlinesFrom]
    refine .cons ?_ (ih fun _ hc => by cases hc)
    simp only [splitlines, if_true]
    rw [splitlinesFrom_append k hcur]
    simp [splitlinesFrom, cr, lf]
  | case4 cur c rest hne hc ih =>
    rw [splitlinesFrom, if_pos hc, splitlinesFrom, if_pos hc]
    · refine .cons ?_ (ih fun _ hc => by cases hc)
      simp only [splitlines, if_true]
      rw [splitlinesFrom_append k hcur, splitlinesFrom, if_pos hc]
      · simp [splitlinesFrom]
      · intro rest' _ h; cases h
    · exact hne
    · exact hne
  | case5 cur c rest hne hc ih =>
    rw [splitlinesFrom_cons true hc, splitlinesFrom_cons k hc]
    exact ih (hcur.snoc hc)

/-! ## Base64 -/

def alphabet : List Char := "ABCDEFGHIJKLMNOPQRSTUVWXYZabcdefghijklmnopqrstuvwxyz0123456789+/".toList

def symbol (v : ℕ) : Char := alphabet.getD v '='

def encodeGroups : Bytes → List Char
  | [] => []
  | [a] => [symbol (a.toNat / 4), symbol (a.toNat % 4 * 16), '=', '=']
  | [a, b] => [symbol (a.toNat / 4), symbol (a.toNat % 4 * 16 + b.toNat / 16), symbol (b.toNat % 16 * 4), '=']
  | a :: b :: c :: rest =>
    symbol (a.toNat / 4) :: symbol (a.toNat % 4 * 16 + b.toNat / 16) :: symbol (b.toNat % 16 * 4 + c.toNat / 64) ::
      symbol (c.toNat % 64) :: encodeGroups rest

def b64encode (s : Bytes) : String := String.ofList (encodeGroups s)

/-- The decoder, inside a group of four symbols: how many it has seen, the bits left over from the last of them and the
padding so far. Characters outside the alphabet are skipped; a complete padding ends the input. -/
def decodeGroups (quadPos left pads : ℕ) : List Char → Option Bytes
  | [] => if quadPos = 0 then some [] else none
  | c :: cs =>
    if c = '=' then
      if quadPos < 2 then decodeGroups quadPos left pads cs
      else if 4 ≤ quadPos + (pads + 1) then some []
      else decodeGroups quadPos left (pads + 1) cs
    else
      match alphabet.idxOf? c with
      | none => decodeGroups quadPos left pads cs
      | some v =>
        match quadPos with
        | 0 => decodeGroups 1 v 0 cs
        | 1 => (decodeGroups 2 (v % 16) 0 cs).map (UInt8.ofNat (left * 4 + v / 16) :: ·)
        | 2 => (decodeGroups 3 (v % 4) 0 cs).map (UInt8.ofNat (left * 16 + v / 4) :: ·)
        | _ => (decodeGroups 0 0 0 cs).map (UInt8.ofNat (left * 64 + v) :: ·)

/-- `none` is the exception: characters that are not ASCII, or wrong padding -/
def b64decode (s : String) : Option Bytes :=
  if s.toList.any fun c => 128 ≤ c.toNat then none else decodeGroups 0 0 0 s.toList

example : b64decode (b64encode [104, 105]) = some [104, 105] ∧ b64decode "aGk" = none := by decide

/-! ## Text -/

/-- a byte that continues a character -/
def continues (b : UInt8) : Bool := 0x80 ≤ b && b ≤ 0xBF

def decodeUtf8Chars : Bytes → Option (List Char)
  | [] => some []
  | a :: s =>
    if a < 0x80 then (decodeUtf8Chars s).map (Char.ofNat a.toNat :: ·)
    else if 0xC2 ≤ a ∧ a ≤ 0xDF then
      match s with
      | b :: s =>
        if continues b then (decodeUtf8Chars s).map (Char.ofNat (a.toNat % 32 * 64 + b.toNat % 64) :: ·) else none
      | _ => none
    else if 0xE0 ≤ a ∧ a ≤ 0xEF then
      match s with
      | b :: c :: s =>
        -- no longer form than needed, no surrogate
        if continues b ∧ continues c ∧ (a = 0xE0 → 0xA0 ≤ b) ∧ (a = 0xED → b ≤ 0x9F) then
          (decodeUtf8Chars s).map
            (Char.ofNat (a.toNat % 16 * 4096 + b.toNat % 64 * 64 + c.toNat % 64) :: ·)
        else none
      | _ => none
    else if 0xF0 ≤ a ∧ a ≤ 0xF4 then
      match s with
      | b :: c :: d :: s =>
        if continues b ∧ continues c ∧ continues d ∧ (a = 0xF0 → 0x90 ≤ b) ∧ (a = 0xF4 → b ≤ 0x8F) then
          (decodeUtf8Chars s).map
            (Char.ofNat (a.toNat % 8 * 262144 + b.toNat % 64 * 4096 + c.toNat % 64 * 64 + d.toNat % 64) :: ·)
        else none
      | _ => none
    else none

/-- `bytes.decode('utf-8')`; `none` is the `UnicodeDecodeError` -/
def decodeUtf8 (s : Bytes) : Option String := (decodeUtf8Chars s).map String.ofList

/-- `bytes.decode('iso-8859-1')`, and `bytes.decode('ascii')` where all bytes are ASCII -/
def decodeLatin1 (s : Bytes) : String := String.ofList (s.map fun b => Char.ofNat b.toNat)

/-- `str.lower()` of ASCII text -/
def lower (s : String) : String := String.ofList (s.toList.map Char.toLower)

def isAscii (s : Bytes) : Bool := s.all (· < 0x80)

/-- ASCII is the same text in each of them -/
theorem decodeUtf8_of_isAscii {s : Bytes} (h : isAscii s = true) : decodeUtf8 s = some (decodeLatin1 s) := by
  have hchars : decodeUtf8Chars s = some (s.map fun b => Char.ofNat b.toNat) := by
    induction s with
    | nil => rfl
    | cons a s ih =>
      rw [isAscii, List.all_cons, Bool.and_eq_true, decide_eq_true_eq] at h
      rw [decodeUtf8Chars.eq_def]
      simp only [h.1, if_true, ih h.2]
      rfl
  rw [decodeUtf8, hchars]
  rfl

example : decodeUtf8 [0x68, 0xC3, 0xA9] = some "hé" ∧ decodeUtf8 [0xE9] = none ∧ decodeUtf8 [0xED, 0xA0, 0x80] = none := by
  decide

end Octets
