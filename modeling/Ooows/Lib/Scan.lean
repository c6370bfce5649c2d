import Mathlib.Data.List.Basic

/-!
# Ooows.Lib.Scan

The part of `scanf` that reads words and hexadecimal numbers.

A conversion skips spaces and takes the longest text it can.  `scanWord_append` and
`scanHex_append` say what it reads of a text that begins with a word or with a number in
any of its spellings.
-/

namespace Ooows.Lib

/-! ## characters -/

def isSpace (c : UInt8) : Bool := c == 0x20 || (0x09 ≤ c && c ≤ 0x0d)

def hexValue (c : UInt8) : Option Nat :=
  if 0x30 ≤ c ∧ c ≤ 0x39 then some (c.toNat - 0x30)
  else if 0x61 ≤ c ∧ c ≤ 0x66 then some (c.toNat - 0x57)
  else if 0x41 ≤ c ∧ c ≤ 0x46 then some (c.toNat - 0x37)
  else none

def isHex (c : UInt8) : Bool := (hexValue c).isSome

/-- The number that digits stand for. -/
def hexNumber (digits : List UInt8) : Nat :=
  digits.foldl (fun n c => 16 * n + (hexValue c).getD 0) 0

/-- The text is over, or a space follows. -/
def Blank (t : List UInt8) : Prop := ∀ c ∈ t.head?, isSpace c

/-! ## conversions -/

def skipSpace (t : List UInt8) : List UInt8 := t.dropWhile isSpace

/-- `%s` with a width: nothing at the end of the text. -/
def scanWord (width : Nat) (t : List UInt8) : Option (List UInt8 × List UInt8) :=
  let t := skipSpace t
  let word := (t.take width).takeWhile fun c => !isSpace c
  if word = [] then none else some (word, t.drop word.length)

def scanSign : List UInt8 → Bool × List UInt8
  | [] => (false, [])
  | c :: t =>
    if c = 0x2d then (true, t) else if c = 0x2b then (false, t) else (false, c :: t)

/-- The `x` of `0x` is dropped; the zero counts as a digit. -/
def scanBase : List UInt8 → List UInt8 × List UInt8
  | c :: d :: t => if c = 0x30 ∧ (d = 0x78 ∨ d = 0x58) then ([c], t) else ([], c :: d :: t)
  | t => ([], t)

/-- `strtoul`, stored in 32 bits. -/
def strtoul (negative : Bool) (n : Nat) : Nat :=
  (if 0x10000000000000000 ≤ n then 0xffffffffffffffff
    else if negative then 0x10000000000000000 - n else n) % 0x100000000

/-- `%x`. -/
def scanHex (t : List UInt8) : Option Nat × List UInt8 :=
  let (negative, t) := scanSign (skipSpace t)
  let (zero, t) := scanBase t
  let digits := zero ++ t.takeWhile isHex
  (if digits = [] then none else some (strtoul negative (hexNumber digits)), t.dropWhile isHex)

/-! ## what they read -/

/-- The spellings of a number. -/
def HexText (s : List UInt8) (n : Nat) : Prop :=
  ∃ base ∈ [[], [0x30, 0x78], [0x30, 0x58]], ∃ digits,
    s = base ++ digits ∧ digits ≠ [] ∧ (∀ c ∈ digits, isHex c) ∧ hexNumber digits = n

variable {c : UInt8} {s t ws : List UInt8} {n : Nat}

theorem isHex_of_isSpace (h : isSpace c) : isHex c = false := by
  simp only [isSpace, isHex, hexValue, UInt8.le_iff_toNat_le, Bool.or_eq_true, beq_iff_eq,
    Bool.and_eq_true, decide_eq_true_eq, ← UInt8.toNat_inj] at h ⊢
  rw [if_neg, if_neg, if_neg, Option.isSome_none] <;> simp at h ⊢ <;> omega

theorem isSpace_of_isHex (h : isHex c) : isSpace c = false := by
  cases hspace : isSpace c with
  | false => rfl
  | true => exact absurd h (by simp [isHex_of_isSpace hspace])

theorem skipSpace_append (hws : ∀ c ∈ ws, isSpace c) : skipSpace (ws ++ t) = skipSpace t :=
  List.dropWhile_append_of_pos hws

theorem skipSpace_cons (hc : isSpace c = false) : skipSpace (c :: t) = c :: t := by
  simp [skipSpace, hc]

/-- A word is read as a whole. -/
theorem scanWord_append {width : Nat} (hne : s ≠ []) (hs : ∀ c ∈ s, isSpace c = false)
    (hlen : s.length ≤ width) (hws : ∀ c ∈ ws, isSpace c) (ht : Blank t) :
    scanWord width (ws ++ (s ++ t)) = some (s, t) := by
  have hskip : skipSpace (s ++ t) = s ++ t := by
    cases s with
    | nil => exact absurd rfl hne
    | cons c s => exact skipSpace_cons (hs c (List.mem_cons_self ..))
  have hword : ((s ++ t).take width).takeWhile (fun c => !isSpace c) = s := by
    rw [List.take_append, List.take_of_length_le hlen, List.takeWhile_append_of_pos (by simpa using hs)]
    cases hrest : t.take (width - s.length) with
    | nil => simp
    | cons c rest =>
      have hhead : c ∈ t.head? := by
        cases t with
        | nil => simp at hrest
        | cons d t => cases hk : width - s.length <;> simp_all
      simp [ht c hhead]
  simp [scanWord, skipSpace_append hws, hskip, hword, hne]

theorem hexNumber_zero_cons (digits : List UInt8) :
    hexNumber (0x30 :: digits) = hexNumber digits := rfl

theorem scanSign_cons (hc : isHex c) : scanSign (c :: t) = (false, c :: t) := by
  have hminus : c ≠ 0x2d := by
    rintro rfl
    exact absurd hc (by decide)
  have hplus : c ≠ 0x2b := by
    rintro rfl
    exact absurd hc (by decide)
  simp [scanSign, hminus, hplus]

/-- Digits without `0x` are left alone. -/
theorem scanBase_digits {digits : List UInt8} (hdigits : ∀ c ∈ digits, isHex c) (ht : Blank t) :
    scanBase (digits ++ t) = ([], digits ++ t) := by
  have hx : ∀ d : UInt8, (isHex d ∨ isSpace d) → ¬ (d = 0x78 ∨ d = 0x58) := by
    rintro d hd (rfl | rfl) <;> exact absurd hd (by decide)
  match digits, t with
  | [], [] | [], [_] | [_], [] => rfl
  | [], c :: d :: t =>
    have hc : c ≠ 0x30 := by
      rintro rfl
      exact absurd (ht 0x30 rfl) (by decide)
    simp [scanBase, hc]
  | [c], d :: t => simp [scanBase, hx d (.inr (ht d rfl))]
  | c :: d :: digits, t => simp [scanBase, hx d (.inl (hdigits d (by simp)))]

/-- A number is read as a whole, in each of its spellings. -/
theorem scanHex_append (hs : HexText s n) (hn : n < 0x100000000) (hws : ∀ c ∈ ws, isSpace c)
    (ht : Blank t) : scanHex (ws ++ (s ++ t)) = (some n, t) := by
  obtain ⟨base, hbase, digits, rfl, hne, hdigits, rfl⟩ := hs
  have htake : (digits ++ t).takeWhile isHex = digits := by
    rw [List.takeWhile_append_of_pos hdigits]
    cases t with
    | nil => simp
    | cons c t => simp [isHex_of_isSpace (ht c rfl)]
  have hdrop : (digits ++ t).dropWhile isHex = t := by
    rw [List.dropWhile_append_of_pos hdigits]
    cases t with
    | nil => rfl
    | cons c t => simp [isHex_of_isSpace (ht c rfl)]
  have hvalue : strtoul false (hexNumber digits) = hexNumber digits := by
    rw [strtoul, if_neg (by omega), if_neg (by simp), Nat.mod_eq_of_lt hn]
  have hprefixed : ∀ x : UInt8, x = 0x78 ∨ x = 0x58 →
      scanHex (ws ++ ([0x30, x] ++ digits ++ t)) = (some (hexNumber digits), t) := by
    intro x hx
    have hskip : skipSpace (0x30 :: x :: (digits ++ t)) = 0x30 :: x :: (digits ++ t) :=
      skipSpace_cons (by decide)
    simp [scanHex, skipSpace_append hws, hskip, scanSign, scanBase, hx, htake, hdrop,
      hexNumber_zero_cons, hvalue]
  simp only [List.mem_cons, List.not_mem_nil, or_false] at hbase
  rcases hbase with rfl | rfl | rfl
  · cases digits with
    | nil => exact absurd rfl hne
    | cons c digits =>
      have hc := hdigits c (List.mem_cons_self ..)
      have hskip : skipSpace (c :: digits ++ t) = c :: digits ++ t :=
        skipSpace_cons (isSpace_of_isHex hc)
      have hsign : scanSign (c :: digits ++ t) = (false, c :: digits ++ t) := scanSign_cons hc
      have hscan : scanBase (c :: digits ++ t) = ([], c :: digits ++ t) :=
        scanBase_digits hdigits ht
      rw [List.nil_append, scanHex, skipSpace_append hws, hskip, hsign]
      simp only [hscan, htake, hdrop, List.nil_append, if_neg hne, hvalue]
  · exact hprefixed _ (.inl rfl)
  · exact hprefixed _ (.inr rfl)

/-! ## writing a number -/

def hexChar (d : Nat) : UInt8 := UInt8.ofNat (if d < 10 then 0x30 + d else 0x57 + d)

/-- `%08x`. -/
def hex8 (n : Nat) : List UInt8 :=
  [n / 0x10000000, n / 0x1000000, n / 0x100000, n / 0x10000, n / 0x1000, n / 0x100, n / 0x10, n].map
    fun q => hexChar (q % 16)

theorem hexValue_hexChar : ∀ d < 16, hexValue (hexChar d) = some d := by decide

/-- It is read back. -/
theorem hexText_hex8 (hn : n < 0x100000000) : HexText (hex8 n) n := by
  have hdigit : ∀ q, hexValue (hexChar (q % 16)) = some (q % 16) :=
    fun q => hexValue_hexChar _ (Nat.mod_lt _ (by decide))
  refine ⟨[], by simp, hex8 n, rfl, nofun, ?_, ?_⟩
  · simp [hex8, isHex, hdigit]
  · simp only [hex8, hexNumber, List.map_cons, List.map_nil, List.foldl_cons, List.foldl_nil, hdigit,
      Option.getD_some]
    omega

end Ooows.Lib
