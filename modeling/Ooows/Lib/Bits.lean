import Mathlib.Data.Nat.Digits.Defs

/-!
# Ooows.Lib.Bits

Bit fields packed into bytes.

A record of fields is a list of widths and values.  `pack` lays the fields out
one after the other, each with its least significant bit first, and `unpack`
reads them back from the number the bits stand for.  `bytesOf` cuts a bit
string into bytes; which end of a byte the first bit goes to is a parameter.

Numbers and their digits are Mathlib's `Nat.ofDigits`.
-/

namespace Ooows.Lib.Bits

/-- Numerals of `Fin 4` have one reading everywhere. -/
instance neZeroFour : NeZero 4 := ⟨by decide⟩

/-- The `w` low bits of a number, least significant first. -/
def bitsOf : Nat → Nat → List Bool
  | 0, _ => []
  | w + 1, n => decide (n % 2 = 1) :: bitsOf w (n / 2)

/-- The number with the given bits, least significant first. -/
def ofBits (bs : List Bool) : Nat := Nat.ofDigits 2 (bs.map Bool.toNat)

/-- The number with the given bytes, least significant first. -/
def ofBytes (bs : List UInt8) : Nat := Nat.ofDigits 256 (bs.map UInt8.toNat)

@[simp] theorem length_bitsOf (w n : Nat) : (bitsOf w n).length = w := by
  induction w generalizing n with
  | zero => rfl
  | succ w ih => simp [bitsOf, ih]

@[simp] theorem ofBits_nil : ofBits [] = 0 := rfl

@[simp] theorem ofBits_cons (b : Bool) (bs : List Bool) :
    ofBits (b :: bs) = b.toNat + 2 * ofBits bs := Nat.ofDigits_cons

theorem ofBits_append (as bs : List Bool) :
    ofBits (as ++ bs) = ofBits as + 2 ^ as.length * ofBits bs := by
  simp [ofBits, Nat.ofDigits_append]

theorem ofBits_lt (bs : List Bool) : ofBits bs < 2 ^ bs.length := by
  have hbits : ∀ x ∈ bs.map Bool.toNat, x < 2 := by
    intro x hx
    obtain ⟨b, -, rfl⟩ := List.mem_map.1 hx
    exact Bool.toNat_lt b
  simpa [ofBits] using Nat.ofDigits_lt_base_pow_length (by decide) hbits

theorem ofBits_bitsOf (w n : Nat) : ofBits (bitsOf w n) = n % 2 ^ w := by
  induction w generalizing n with
  | zero => simp [bitsOf, Nat.mod_one]
  | succ w ih =>
    have hlow : (decide (n % 2 = 1)).toNat = n % 2 := by
      rcases Nat.mod_two_eq_zero_or_one n with h | h <;> simp [h]
    rw [bitsOf, ofBits_cons, ih, hlow, Nat.pow_succ', Nat.mod_mul]

theorem bitsOf_ofBits (bs : List Bool) : bitsOf bs.length (ofBits bs) = bs := by
  induction bs with
  | nil => rfl
  | cons b bs ih =>
    have hdiv : (b.toNat + 2 * ofBits bs) / 2 = ofBits bs := by
      have := Bool.toNat_lt b
      omega
    have hmod : decide ((b.toNat + 2 * ofBits bs) % 2 = 1) = b := by
      cases b <;> simp
    rw [List.length_cons, bitsOf, ofBits_cons, hdiv, hmod, ih]

/-! ## fields -/

/-- Fields one after the other, the first in the lowest bits. -/
def pack (fs : List (Nat × Nat)) : List Bool := fs.flatMap fun f => bitsOf f.1 f.2

/-- The bit-field of width `w` at bit `off`. -/
def bitField (n off w : Nat) : Nat := n / 2 ^ off % 2 ^ w

/-- The fields of the given widths from bit `off` on. -/
def unpack (n off : Nat) : List Nat → List Nat
  | [] => []
  | w :: ws => bitField n off w :: unpack n (off + w) ws

@[simp] theorem length_unpack (n off : Nat) (ws : List Nat) : (unpack n off ws).length = ws.length := by
  induction ws generalizing off with
  | nil => rfl
  | cons w ws ih => simp [unpack, ih]

theorem unpack_append (n off : Nat) (ws ws' : List Nat) :
    unpack n off (ws ++ ws') = unpack n off ws ++ unpack n (off + ws.sum) ws' := by
  induction ws generalizing off with
  | nil => rfl
  | cons w ws ih => simp [unpack, ih, Nat.add_assoc]

theorem bitField_low {low off w v : Nat} (rest : Nat) (hlow : low < 2 ^ off) (hv : v < 2 ^ w) :
    bitField (low + 2 ^ off * (v + 2 ^ w * rest)) off w = v := by
  rw [bitField, Nat.add_mul_div_left _ _ (Nat.two_pow_pos off), Nat.div_eq_of_lt hlow,
    Nat.zero_add, Nat.add_mul_mod_self_left, Nat.mod_eq_of_lt hv]

theorem unpack_pack_from (fs : List (Nat × Nat)) (rest : List Bool) {low off : Nat}
    (hlow : low < 2 ^ off) (h : ∀ f ∈ fs, f.2 < 2 ^ f.1) :
    unpack (low + 2 ^ off * ofBits (pack fs ++ rest)) off (fs.map Prod.fst) =
      fs.map Prod.snd := by
  induction fs generalizing low off with
  | nil => rfl
  | cons f fs ih =>
    have hf : f.2 < 2 ^ f.1 := h f List.mem_cons_self
    have hsplit : ofBits (pack (f :: fs) ++ rest) =
        f.2 + 2 ^ f.1 * ofBits (pack fs ++ rest) := by
      rw [pack, List.flatMap_cons, List.append_assoc, ofBits_append, length_bitsOf,
        ofBits_bitsOf, Nat.mod_eq_of_lt hf, ← pack]
    -- the first field joins what lies below the others
    have hnext : low + 2 ^ off * f.2 < 2 ^ (off + f.1) := by
      have hmul : 2 ^ off * (f.2 + 1) ≤ 2 ^ off * 2 ^ f.1 := Nat.mul_le_mul_left _ hf
      rw [Nat.pow_add]
      rw [Nat.mul_succ] at hmul
      omega
    have hassoc : low + 2 ^ off * (f.2 + 2 ^ f.1 * ofBits (pack fs ++ rest)) =
        low + 2 ^ off * f.2 + 2 ^ (off + f.1) * ofBits (pack fs ++ rest) := by
      rw [Nat.mul_add, Nat.pow_add, ← Nat.mul_assoc, Nat.add_assoc]
    rw [hsplit, List.map_cons, List.map_cons, unpack, bitField_low _ hlow hf, hassoc,
      ih hnext fun g hg => h g (List.mem_cons_of_mem f hg)]

/-- **Fields are read back**. -/
theorem unpack_pack (fs : List (Nat × Nat)) (h : ∀ f ∈ fs, f.2 < 2 ^ f.1) :
    unpack (ofBits (pack fs)) 0 (fs.map Prod.fst) = fs.map Prod.snd := by
  simpa using unpack_pack_from fs [] (show 0 < 2 ^ 0 by decide) h

/-! ## bytes -/

/-- Cut a bit string into `n` bytes. -/
def bytesOf (toByte : List Bool → UInt8) : Nat → List Bool → List UInt8
  | 0, _ => []
  | n + 1, bs => toByte (bs.take 8) :: bytesOf toByte n (bs.drop 8)

/-- The byte whose least significant bit comes first. -/
def lsbByte (bs : List Bool) : UInt8 := UInt8.ofNat (ofBits bs)

/-- The byte whose most significant bit comes first. -/
def msbByte (bs : List Bool) : UInt8 :=
  UInt8.ofNat (bs.foldl (fun n b => 2 * n + b.toNat) 0)

/-- The byte with its eight bits in the opposite order. -/
def reverseByte (b : UInt8) : UInt8 := msbByte (bitsOf 8 b.toNat)

theorem foldl_eq_ofBits_reverse (bs : List Bool) :
    bs.foldl (fun n b => 2 * n + b.toNat) 0 = ofBits bs.reverse := by
  rw [← List.foldr_reverse]
  induction bs.reverse with
  | nil => rfl
  | cons b bs ih => rw [List.foldr_cons, ih, ofBits_cons, Nat.add_comm]

theorem msbByte_eq_lsbByte_reverse (bs : List Bool) : msbByte bs = lsbByte bs.reverse := by
  rw [msbByte, lsbByte, foldl_eq_ofBits_reverse]

variable {bs : List Bool}

theorem toNat_lsbByte (h : bs.length = 8) : (lsbByte bs).toNat = ofBits bs := by
  have hlt := ofBits_lt bs
  rw [h] at hlt
  exact UInt8.toNat_ofNat_of_lt' hlt

/-- Reversing a byte moves its first bit to the other end. -/
theorem reverseByte_msbByte (h : bs.length = 8) :
    reverseByte (msbByte bs) = lsbByte bs := by
  have hrev : bs.reverse.length = 8 := by rw [List.length_reverse, h]
  have hbits := bitsOf_ofBits bs.reverse
  rw [hrev] at hbits
  rw [reverseByte, msbByte_eq_lsbByte_reverse bs, toNat_lsbByte hrev, hbits,
    msbByte_eq_lsbByte_reverse, List.reverse_reverse]

@[simp] theorem length_bytesOf (toByte : List Bool → UInt8) (n : Nat) (bs : List Bool) :
    (bytesOf toByte n bs).length = n := by
  induction n generalizing bs with
  | zero => rfl
  | succ n ih => simp [bytesOf, ih]

theorem map_reverseByte_bytesOf {n : Nat} (h : bs.length = 8 * n) :
    (bytesOf msbByte n bs).map reverseByte = bytesOf lsbByte n bs := by
  induction n generalizing bs with
  | zero => rfl
  | succ n ih =>
    have hfirst : (bs.take 8).length = 8 := by rw [List.length_take]; omega
    have hrest : (bs.drop 8).length = 8 * n := by rw [List.length_drop]; omega
    rw [bytesOf, List.map_cons, reverseByte_msbByte hfirst, ih hrest, ← bytesOf]

/-- The bytes of a bit string stand for the same number. -/
theorem ofBytes_bytesOf {n : Nat} (h : bs.length = 8 * n) :
    ofBytes (bytesOf lsbByte n bs) = ofBits bs := by
  induction n generalizing bs with
  | zero =>
    rw [List.length_eq_zero_iff.1 h]
    rfl
  | succ n ih =>
    have hfirst : (bs.take 8).length = 8 := by rw [List.length_take]; omega
    have hrest : (bs.drop 8).length = 8 * n := by rw [List.length_drop]; omega
    have hcons : ofBytes (bytesOf lsbByte (n + 1) bs) =
        ofBits (bs.take 8) + 256 * ofBits (bs.drop 8) := by
      rw [← ih hrest, ← toNat_lsbByte hfirst]
      exact Nat.ofDigits_cons
    have hsplit := ofBits_append (bs.take 8) (bs.drop 8)
    rw [List.take_append_drop, hfirst] at hsplit
    exact hcons.trans hsplit.symm

/-- Byte `j` of a number given by its bytes. -/
theorem ofBytes_digit (bs : List UInt8) (j : Nat) :
    UInt8.ofNat (ofBytes bs / 256 ^ j) = bs.getD j 0 := by
  induction bs generalizing j with
  | nil => simp [ofBytes]
  | cons b bs ih =>
    have hb := b.toNat_lt
    have hcons : ofBytes (b :: bs) = b.toNat + 256 * ofBytes bs := Nat.ofDigits_cons
    cases j with
    | zero =>
      rw [hcons, Nat.pow_zero, Nat.div_one, List.getD_cons_zero, ← UInt8.toNat_inj,
        UInt8.toNat_ofNat']
      omega
    | succ j =>
      rw [hcons, Nat.pow_succ', ← Nat.div_div_eq_div_mul,
        Nat.add_mul_div_left _ _ (by decide), Nat.div_eq_of_lt hb, Nat.zero_add, ih,
        List.getD_cons_succ]

theorem ofBytes_lt (bs : List UInt8) : ofBytes bs < 256 ^ bs.length := by
  have hbytes : ∀ x ∈ bs.map UInt8.toNat, x < 256 := by
    intro x hx
    obtain ⟨b, -, rfl⟩ := List.mem_map.1 hx
    exact b.toNat_lt
  simpa [ofBytes] using Nat.ofDigits_lt_base_pow_length (by decide) hbytes

/-! ## or and addition -/

/-- The bits of a sum without carries, and the carries. -/
theorem or_add_and (x y : Nat) : (x ||| y) + (x &&& y) = x + y := by
  induction x using Nat.strongRecOn generalizing y with
  | ind x ih =>
    by_cases hx : x = 0
    · simp [hx]
    · have hhigh := ih (x / 2) (by omega) (y / 2)
      rw [← Nat.or_div_two, ← Nat.and_div_two] at hhigh
      have hor : (x ||| y) % 2 = 1 ↔ x % 2 = 1 ∨ y % 2 = 1 := Nat.or_mod_two_eq_one
      have hand : (x &&& y) % 2 = 1 ↔ x % 2 = 1 ∧ y % 2 = 1 := Nat.and_mod_two_eq_one
      omega

end Ooows.Lib.Bits
