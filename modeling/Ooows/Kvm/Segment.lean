import Mathlib.Data.Bool.Basic
import Mathlib.Data.BitVec

/-!
# Ooows.Kvm.Segment

The segment registers on their way to KVM and back.

The monitor keeps a segment's attributes as they stand in a descriptor, packed in one
word; KVM takes them apart into bytes.  Each field that `setKvmSeg` takes out,
`getKvmSeg` puts back where it was: the word restricted to the field's own mask
(`fieldOf_shiftLeft`, `flagOf_mul`).  `getKvmSeg_setKvmSeg` adds them up.
-/

namespace Ooows.Kvm

/-! ## the attribute word -/

/-- `DESC_TYPE_SHIFT`. -/
def descTypeShift : UInt32 := 8

/-- `DESC_S_MASK`. -/
def descSMask : UInt32 := (1 : UInt32) <<< (12 : UInt32)

/-- `DESC_DPL_SHIFT`. -/
def descDplShift : UInt32 := 13

/-- `DESC_P_MASK`. -/
def descPMask : UInt32 := (1 : UInt32) <<< (15 : UInt32)

/-- `DESC_AVL_MASK`. -/
def descAvlMask : UInt32 := (1 : UInt32) <<< (20 : UInt32)

/-- `DESC_L_SHIFT`. -/
def descLShift : UInt32 := 21

/-- `DESC_B_SHIFT`. -/
def descBShift : UInt32 := 22

/-- `DESC_G_MASK`. -/
def descGMask : UInt32 := (1 : UInt32) <<< (23 : UInt32)

/-- The attribute bits of a descriptor's second word. -/
def attributeMask : UInt32 := 0x00f0ff00

/-! ## the two forms -/

/-- `segment_t`. -/
structure Segment where
  selector : UInt32
  base : UInt64
  limit : UInt32
  flags : UInt32
  deriving Repr, DecidableEq

/-- `struct kvm_segment`. -/
structure KvmSegment where
  base : UInt64
  limit : UInt32
  selector : UInt16
  type : UInt8
  present : UInt8
  dpl : UInt8
  db : UInt8
  s : UInt8
  l : UInt8
  g : UInt8
  avl : UInt8
  unusable : UInt8
  padding : UInt8
  deriving Repr, DecidableEq

/-- `(flags >> shift) & mask`, in a byte. -/
def fieldOf (flags shift mask : UInt32) : UInt8 := ((flags >>> shift) &&& mask).toUInt8

/-- `(flags & mask) != 0`, in a byte. -/
def flagOf (flags mask : UInt32) : UInt8 := if flags &&& mask = 0 then 0 else 1

/-- `set_kvm_seg`. -/
def setKvmSeg (rhs : Segment) : KvmSegment where
  base := rhs.base
  limit := rhs.limit
  selector := rhs.selector.toUInt16
  type := fieldOf rhs.flags descTypeShift 15
  present := flagOf rhs.flags descPMask
  dpl := fieldOf rhs.flags descDplShift 3
  db := fieldOf rhs.flags descBShift 1
  s := flagOf rhs.flags descSMask
  l := fieldOf rhs.flags descLShift 1
  g := flagOf rhs.flags descGMask
  avl := flagOf rhs.flags descAvlMask
  unusable := if flagOf rhs.flags descPMask = 0 then 1 else 0
  padding := 0

/-- `rhs->present && !rhs->unusable`. -/
def usable (rhs : KvmSegment) : UInt32 := if rhs.present ≠ 0 ∧ rhs.unusable = 0 then 1 else 0

/-- `get_kvm_seg`. -/
def getKvmSeg (rhs : KvmSegment) : Segment where
  selector := rhs.selector.toUInt32
  base := rhs.base
  limit := rhs.limit
  flags :=
    rhs.type.toUInt32 <<< descTypeShift |||
    usable rhs * descPMask |||
    rhs.dpl.toUInt32 <<< descDplShift |||
    rhs.db.toUInt32 <<< descBShift |||
    rhs.s.toUInt32 * descSMask |||
    rhs.l.toUInt32 <<< descLShift |||
    rhs.g.toUInt32 * descGMask |||
    rhs.avl.toUInt32 * descAvlMask

/-! ## one field there and back -/

variable {flags shift mask : UInt32}

/-- A field shifted down and up again stands where it stood. -/
theorem ushiftRight_and_shiftLeft {w : Nat} (x m : BitVec w) (k : Nat) :
    ((x >>> k) &&& m) <<< k = x &&& (m <<< k) := by
  ext i hi
  simp only [BitVec.getElem_shiftLeft, BitVec.getElem_and, BitVec.getElem_ushiftRight]
  by_cases h : i < k
  · simp [h]
  · have hback : k + (i - k) = i := by omega
    simp [h, hback, BitVec.getLsbD_eq_getElem hi]

theorem shiftRight_and_shiftLeft (flags shift mask : UInt32) :
    ((flags >>> shift) &&& mask) <<< shift = flags &&& (mask <<< shift) := by
  rw [← UInt32.toBitVec_inj]
  exact ushiftRight_and_shiftLeft flags.toBitVec mask.toBitVec _

theorem and_or_and (x y z : UInt32) : x &&& y ||| x &&& z = x &&& (y ||| z) := by
  rw [← UInt32.toBitVec_inj]
  exact BitVec.and_or_distrib_left.symm

/-- A byte holds the field, if its mask fits in one. -/
theorem toUInt32_fieldOf (flags shift : UInt32) (h : mask < 256) :
    (fieldOf flags shift mask).toUInt32 = (flags >>> shift) &&& mask := by
  rw [← UInt32.toNat_inj, fieldOf, UInt8.toNat_toUInt32, UInt32.toNat_toUInt8]
  refine Nat.mod_eq_of_lt (Nat.lt_of_le_of_lt ?_ (UInt32.lt_iff_toNat_lt.1 h))
  rw [UInt32.toNat_and]
  exact Nat.and_le_right

/-- **A field is put back where it was**. -/
theorem fieldOf_shiftLeft (flags shift : UInt32) (h : mask < 256) :
    (fieldOf flags shift mask).toUInt32 <<< shift = flags &&& (mask <<< shift) := by
  rw [toUInt32_fieldOf flags shift h, shiftRight_and_shiftLeft]

/-- A one-bit mask selects all of itself or nothing. -/
theorem and_bit (flags shift : UInt32) :
    flags &&& (1 <<< shift) = 0 ∨ flags &&& (1 <<< shift) = 1 <<< shift := by
  have hone : ∀ x : UInt32, x &&& 1 = 0 ∨ x &&& 1 = 1 := by
    intro x
    have hmod : (x &&& 1).toNat = x.toNat % 2 := by
      rw [UInt32.toNat_and]
      exact Nat.and_one_is_mod _
    simp only [← UInt32.toNat_inj, hmod]
    exact Nat.mod_two_eq_zero_or_one _
  rw [← shiftRight_and_shiftLeft]
  exact (hone (flags >>> shift)).imp (fun h => by rw [h, UInt32.zero_shiftLeft]) fun h => by rw [h]

/-- **A flag is put back where it was**. -/
theorem flagOf_mul (flags shift : UInt32) :
    (flagOf flags (1 <<< shift)).toUInt32 * (1 <<< shift) = flags &&& (1 <<< shift) := by
  unfold flagOf
  split
  next h => rw [h]; exact UInt32.zero_mul
  next h =>
    rw [(and_bit flags shift).resolve_left h]
    exact UInt32.one_mul _

/-- A segment that is not present is unusable, and only then. -/
theorem usable_setKvmSeg (seg : Segment) :
    usable (setKvmSeg seg) = (flagOf seg.flags descPMask).toUInt32 := by
  unfold usable setKvmSeg flagOf
  split <;> rfl

/-! ## the whole segment -/

/-- What comes back of the flags are the attribute bits. -/
theorem flags_getKvmSeg_setKvmSeg (seg : Segment) :
    (getKvmSeg (setKvmSeg seg)).flags = seg.flags &&& attributeMask := by
  simp only [getKvmSeg, usable_setKvmSeg]
  simp only [setKvmSeg]
  rw [fieldOf_shiftLeft _ _ (by decide), fieldOf_shiftLeft _ _ (by decide),
    fieldOf_shiftLeft _ _ (by decide), fieldOf_shiftLeft _ _ (by decide)]
  simp only [descPMask, descSMask, descGMask, descAvlMask, flagOf_mul, and_or_and]
  rfl

/-- What comes back of a segment. -/
theorem getKvmSeg_setKvmSeg (seg : Segment) :
    getKvmSeg (setKvmSeg seg) =
      { seg with
        selector := seg.selector.toUInt16.toUInt32
        flags := seg.flags &&& attributeMask } := by
  rw [← flags_getKvmSeg_setKvmSeg]
  rfl

/-- **Segment state survives the conversion**: a segment with a 16-bit selector whose
flags are attribute bits comes back as it was, and of any flags the attribute bits do. -/
theorem segment_round_trip (seg : Segment) :
    (seg.selector.toNat < 2 ^ 16 → seg.flags &&& attributeMask = seg.flags →
      getKvmSeg (setKvmSeg seg) = seg) ∧
    (getKvmSeg (setKvmSeg seg)).flags = seg.flags &&& attributeMask := by
  refine ⟨fun hsel hflags => ?_, flags_getKvmSeg_setKvmSeg seg⟩
  have hsel' : seg.selector.toUInt16.toUInt32 = seg.selector := by
    rw [← UInt32.toNat_inj, UInt16.toNat_toUInt32, UInt32.toNat_toUInt16, Nat.mod_eq_of_lt hsel]
  rw [getKvmSeg_setKvmSeg, hsel', hflags]

/-- A present 32-bit code segment of privilege 3. -/
theorem segment_round_trip_code :
    getKvmSeg (setKvmSeg ⟨0x1b, 0, 0xffffffff, 0x00c0fb00⟩) = ⟨0x1b, 0, 0xffffffff, 0x00c0fb00⟩ :=
  (segment_round_trip _).1 (by decide) (by decide)

end Ooows.Kvm
