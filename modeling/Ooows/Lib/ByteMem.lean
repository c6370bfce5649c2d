import Ooows.Lib.Bits
import Mathlib.Data.List.GetD

/-!
# Ooows.Lib.ByteMem

Byte-addressed memory: blocks of bytes, and little-endian numbers in them.

A store is read back by the load of the same place (`load_store_self`), and a load
sees nothing of a store elsewhere (`load_store_of_disjoint`).  Storing a number that is
there already changes nothing (`store_load`).
-/

namespace Ooows.Lib

open Bits

/-- Memory, by address. -/
abbrev ByteMem := Nat → UInt8

namespace ByteMem

/-- The `n` bytes from address `a` on. -/
def readBytes (m : ByteMem) (a n : Nat) : List UInt8 := (List.range n).map fun i => m (a + i)

/-- Copy bytes to address `a`. -/
def writeBytes (m : ByteMem) (a : Nat) (bs : List UInt8) : ByteMem :=
  fun x => if a ≤ x ∧ x < a + bs.length then bs.getD (x - a) 0 else m x

/-- The `n`-byte number at address `a`. -/
def load (m : ByteMem) (a n : Nat) : Nat := ofBytes (m.readBytes a n)

/-- The `n` bytes of a number. -/
def bytesOfNat (n v : Nat) : List UInt8 := (List.range n).map fun i => UInt8.ofNat (v / 256 ^ i)

/-- Store an `n`-byte number at address `a`. -/
def store (m : ByteMem) (a n v : Nat) : ByteMem := m.writeBytes a (bytesOfNat n v)

/-! ## blocks -/

variable {m m' : ByteMem} {a b n k v : Nat}

@[simp] theorem length_readBytes (m : ByteMem) (a n : Nat) : (m.readBytes a n).length = n := by
  simp [readBytes]

@[simp] theorem length_bytesOfNat (n v : Nat) : (bytesOfNat n v).length = n := by
  simp [bytesOfNat]

theorem readBytes_congr (h : ∀ x, a ≤ x → x < a + n → m x = m' x) :
    m.readBytes a n = m'.readBytes a n := by
  refine List.map_congr_left fun i hi => ?_
  have hlt := List.mem_range.1 hi
  exact h (a + i) (by omega) (by omega)

theorem readBytes_add (m : ByteMem) (a n k : Nat) :
    m.readBytes a (n + k) = m.readBytes a n ++ m.readBytes (a + n) k := by
  simp [readBytes, List.range_add, Function.comp_def, Nat.add_assoc]

/-- Bytes of a block. -/
theorem take_drop_readBytes {i k : Nat} (m : ByteMem) (a : Nat) (h : i + k ≤ n) :
    ((m.readBytes a n).drop i).take k = m.readBytes (a + i) k := by
  obtain ⟨r, rfl⟩ := Nat.exists_eq_add_of_le h
  rw [Nat.add_assoc, readBytes_add, readBytes_add, List.drop_left' (length_readBytes ..),
    List.take_left' (length_readBytes ..)]

theorem writeBytes_outside {bs : List UInt8} {x : Nat} (h : x < a ∨ a + bs.length ≤ x) :
    m.writeBytes a bs x = m x := by
  rw [writeBytes, if_neg (by omega)]

theorem writeBytes_nil (m : ByteMem) (a : Nat) : m.writeBytes a [] = m := by
  funext x
  exact writeBytes_outside (by simp only [List.length_nil]; omega)

theorem readBytes_writeBytes (m : ByteMem) (a : Nat) (bs : List UInt8) :
    (m.writeBytes a bs).readBytes a bs.length = bs := by
  refine List.ext_getElem (length_readBytes _ _ _) fun i h₁ h₂ => ?_
  simp only [readBytes, List.getElem_map, List.getElem_range]
  rw [writeBytes, if_pos (by omega), Nat.add_sub_cancel_left, List.getD_eq_getElem _ _ h₂]

/-- Writing what is there already. -/
theorem writeBytes_readBytes (m : ByteMem) (a n : Nat) : m.writeBytes a (m.readBytes a n) = m := by
  funext x
  unfold writeBytes
  split
  next h =>
    rw [length_readBytes] at h
    have hlt : x - a < (m.readBytes a n).length := by rw [length_readBytes]; omega
    rw [List.getD_eq_getElem _ _ hlt]
    simp only [readBytes, List.getElem_map, List.getElem_range]
    congr 1
    omega
  next => rfl

/-- Writing what is there already, and nothing else, changes nothing. -/
theorem writeBytes_eq_self_iff (m : ByteMem) (a : Nat) (bs : List UInt8) :
    m.writeBytes a bs = m ↔ m.readBytes a bs.length = bs := by
  constructor
  · intro h
    have hread := readBytes_writeBytes m a bs
    rwa [h] at hread
  · intro h
    have hwrite := writeBytes_readBytes m a bs.length
    rwa [h] at hwrite

theorem writeBytes_append (m : ByteMem) (a : Nat) (bs cs : List UInt8) :
    m.writeBytes a (bs ++ cs) = (m.writeBytes a bs).writeBytes (a + bs.length) cs := by
  funext x
  simp only [writeBytes, List.length_append]
  by_cases hx : a + bs.length ≤ x
  · by_cases hlt : x < a + bs.length + cs.length
    · rw [if_pos (by omega), if_pos (by omega), List.getD_append_right _ _ _ _ (by omega)]
      congr 1
      omega
    · rw [if_neg (by omega), if_neg (by omega), if_neg (by omega)]
  · by_cases ha : a ≤ x
    · rw [if_pos (by omega), if_neg (by omega), if_pos (by omega),
        List.getD_append _ _ _ _ (by omega)]
    · rw [if_neg (by omega), if_neg (by omega), if_neg (by omega)]

/-- A write to two memories that agree but for where they start. -/
theorem writeBytes_shift {bs : List UInt8} {x : Nat} (h : m x = m' (k + x)) :
    m.writeBytes a bs x = m'.writeBytes (k + a) bs (k + x) := by
  unfold writeBytes
  by_cases hx : a ≤ x ∧ x < a + bs.length
  · rw [if_pos hx, if_pos (by omega), Nat.add_sub_add_left]
  · rw [if_neg hx, if_neg (by omega), h]

/-! ## numbers -/

theorem bytesOfNat_succ (n v : Nat) :
    bytesOfNat (n + 1) v = UInt8.ofNat v :: bytesOfNat n (v / 256) := by
  simp only [bytesOfNat, List.range_succ_eq_map, List.map_cons, List.map_map, Nat.pow_zero,
    Nat.div_one]
  congr 1
  refine List.map_congr_left fun i _ => ?_
  simp only [Function.comp, Nat.div_div_eq_div_mul]
  rw [Nat.pow_succ, Nat.mul_comm]

theorem ofBytes_bytesOfNat (n v : Nat) : ofBytes (bytesOfNat n v) = v % 256 ^ n := by
  induction n generalizing v with
  | zero => simp [bytesOfNat, ofBytes, Nat.mod_one]
  | succ n ih =>
    have hcons : ofBytes (UInt8.ofNat v :: bytesOfNat n (v / 256)) =
        v % 256 + 256 * ofBytes (bytesOfNat n (v / 256)) := by
      simp [ofBytes, Nat.ofDigits_cons]
    rw [bytesOfNat_succ, hcons, ih, Nat.pow_succ', Nat.mod_mul]

theorem bytesOfNat_ofBytes (bs : List UInt8) : bytesOfNat bs.length (ofBytes bs) = bs := by
  refine List.ext_getElem (length_bytesOfNat _ _) fun i h₁ h₂ => ?_
  simp only [bytesOfNat, List.getElem_map, List.getElem_range]
  rw [ofBytes_digit, List.getD_eq_getElem _ _ h₂]

/-- Bytes behind the last one of a number are zero. -/
theorem bytesOfNat_ofBytes_getD (n : Nat) (bs : List UInt8) :
    bytesOfNat n (ofBytes bs) = (List.range n).map fun i => bs.getD i 0 :=
  List.map_congr_left fun i _ => ofBytes_digit bs i

theorem take_bytesOfNat (h : n ≤ k) (v : Nat) : (bytesOfNat k v).take n = bytesOfNat n v := by
  rw [bytesOfNat, ← List.map_take, List.take_range, Nat.min_eq_left h, bytesOfNat]

/-- The low bytes do not see what is cut off above them. -/
theorem bytesOfNat_mod (h : n ≤ k) (v : Nat) : bytesOfNat n (v % 256 ^ k) = bytesOfNat n v := by
  have hall := bytesOfNat_ofBytes (bytesOfNat k v)
  rw [length_bytesOfNat, ofBytes_bytesOfNat] at hall
  rw [← take_bytesOfNat h, hall, take_bytesOfNat h]

theorem load_congr (h : ∀ x, a ≤ x → x < a + n → m x = m' x) : m.load a n = m'.load a n := by
  rw [load, load, readBytes_congr h]

theorem store_outside {x : Nat} (h : x < a ∨ a + n ≤ x) : m.store a n v x = m x :=
  writeBytes_outside (by rwa [length_bytesOfNat])

theorem store_load (m : ByteMem) (a n : Nat) : m.store a n (m.load a n) = m := by
  have h := bytesOfNat_ofBytes (m.readBytes a n)
  rw [length_readBytes] at h
  rw [store, load, h, writeBytes_readBytes]

/-- The bytes of a number that was stored. -/
theorem readBytes_store_self (h : n ≤ k) (m : ByteMem) (a v : Nat) :
    (m.store a k v).readBytes a n = bytesOfNat n v := by
  have hall := readBytes_writeBytes m a (bytesOfNat k v)
  rw [length_bytesOfNat] at hall
  have htake := take_drop_readBytes (i := 0) (m.store a k v) a ((Nat.zero_add n).symm ▸ h)
  rw [Nat.add_zero, List.drop_zero, store, hall, take_bytesOfNat h] at htake
  exact htake.symm

theorem load_store_self (m : ByteMem) (a n v : Nat) : (m.store a n v).load a n = v % 256 ^ n := by
  rw [load, readBytes_store_self Nat.le.refl, ofBytes_bytesOfNat]

/-- The bytes of a number that is loaded. -/
theorem bytesOfNat_load (h : n ≤ k) (m : ByteMem) (a : Nat) :
    bytesOfNat n (m.load a k) = m.readBytes a n := by
  rw [← readBytes_store_self h m a, store_load]

theorem load_store_of_disjoint (h : b + k ≤ a ∨ a + n ≤ b) :
    (m.store a n v).load b k = m.load b k :=
  load_congr fun _ _ _ => store_outside (by omega)

end ByteMem

end Ooows.Lib
