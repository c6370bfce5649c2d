import Ooows.Lib.ByteMem

/-!
# Ooows.Virtio.MemoryManager

A device's view of the guest's system memory.

Memory is addressed by guest physical addresses; what is not system memory is never
touched, since every access is checked by `oob` first.  The five tests of `oob` are
made in 64-bit arithmetic, which may wrap; `oobOf_eq_false_iff` says that together they
are exactly the bounds check they are meant to be, for this region and any other.
-/

namespace Ooows.Virtio

open Lib

/-- `GUEST_SYS_MEM_PADDR`. -/
def guestStartPaddr : UInt64 := 0x100000

/-- `HOST_SYS_MEM_SIZE`. -/
def memSize : UInt64 := 0x100000

/-- `m_guest_end_paddr`. -/
def guestEndPaddr : UInt64 := guestStartPaddr + memSize

/-- `MemoryManager::oob`, for the region from `startPaddr` to `endPaddr`. -/
def oobOf (startPaddr endPaddr guestAddr size : UInt64) : Bool :=
  if guestAddr < startPaddr then true
  else if guestAddr + size < startPaddr then true
  else if guestAddr ≥ endPaddr then true
  else if guestAddr + size > endPaddr then true
  else if size > endPaddr - startPaddr then true
  else false

/-- **The bounds check is exact**, for every region below `2 ^ 63`.  A sum that wraps
belongs to a block longer than the region. -/
theorem oobOf_eq_false_iff {startPaddr endPaddr guestAddr size : UInt64} (hlt : startPaddr < endPaddr)
    (hend : endPaddr.toNat ≤ 2 ^ 63) :
    oobOf startPaddr endPaddr guestAddr size = false ↔
      startPaddr.toNat ≤ guestAddr.toNat ∧ guestAddr.toNat < endPaddr.toNat ∧
        guestAddr.toNat + size.toNat ≤ endPaddr.toNat := by
  have hlen := UInt64.toNat_sub_of_le _ _ (UInt64.le_of_lt hlt)
  have hsum := UInt64.toNat_add guestAddr size
  have hsize := size.toNat_lt
  have haddr := guestAddr.toNat_lt
  rw [UInt64.lt_iff_toNat_lt] at hlt
  simp only [oobOf, UInt64.lt_iff_toNat_lt, ge_iff_le, gt_iff_lt, UInt64.le_iff_toNat_le, hlen]
  split_ifs <;> simp <;> omega

/-- `MemoryManager::oob`, for the system memory. -/
def oob (guestAddr size : UInt64) : Bool := oobOf guestStartPaddr guestEndPaddr guestAddr size

/-- A block that lies inside the system memory. -/
def Inside (guestAddr : UInt64) (size : Nat) : Prop :=
  0x100000 ≤ guestAddr.toNat ∧ guestAddr.toNat < 0x200000 ∧ guestAddr.toNat + size ≤ 0x200000

instance (guestAddr : UInt64) (size : Nat) : Decidable (Inside guestAddr size) :=
  inferInstanceAs (Decidable (_ ∧ _))

theorem oob_eq_false_iff {guestAddr size : UInt64} :
    oob guestAddr size = false ↔ Inside guestAddr size.toNat :=
  oobOf_eq_false_iff (by decide) (by decide)

/-- `MemoryManager::write`. -/
def write (mem : ByteMem) (guestAddr : UInt64) (data : List UInt8) : Option ByteMem :=
  if oob guestAddr data.length.toUInt64 then none else some (mem.writeBytes guestAddr.toNat data)

/-- `MemoryManager::readX<uint16_t>`. -/
def readX16 (mem : ByteMem) (guestAddr : UInt64) : Option UInt16 :=
  if oob guestAddr 2 then none else some (UInt16.ofNat (mem.load guestAddr.toNat 2))

/-- `MemoryManager::writeX<uint16_t>`. -/
def writeX16 (mem : ByteMem) (guestAddr : UInt64) (data : UInt16) : Option ByteMem :=
  if oob guestAddr 2 then none else some (mem.store guestAddr.toNat 2 data.toNat)

variable {mem : ByteMem} {guestAddr : UInt64}

theorem readX16_of_inside (h : Inside guestAddr 2) :
    readX16 mem guestAddr = some (UInt16.ofNat (mem.load guestAddr.toNat 2)) := by
  have hin : oob guestAddr 2 = false := oob_eq_false_iff.2 h
  rw [readX16, hin]
  rfl

theorem writeX16_of_inside (h : Inside guestAddr 2) (data : UInt16) :
    writeX16 mem guestAddr data = some (mem.store guestAddr.toNat 2 data.toNat) := by
  have hin : oob guestAddr 2 = false := oob_eq_false_iff.2 h
  rw [writeX16, hin]
  rfl

variable {size : Nat}

/-- Addresses in the system memory do not wrap. -/
theorem Inside.toNat_add (h : Inside guestAddr size) {k : UInt64}
    (hk : k.toNat < 2 ^ 32) : (guestAddr + k).toNat = guestAddr.toNat + k.toNat := by
  have hlt := h.2.1
  rw [UInt64.toNat_add, Nat.mod_eq_of_lt (by omega)]

/-- A part of a block. -/
theorem Inside.part (h : Inside guestAddr size) {k : UInt64} {n : Nat} (hn : 0 < n)
    (hk : k.toNat + n ≤ size) : Inside (guestAddr + k) n := by
  obtain ⟨hlo, hlt, hhi⟩ := h
  have hsum := Inside.toNat_add ⟨hlo, hlt, hhi⟩ (show k.toNat < 2 ^ 32 by omega)
  unfold Inside
  omega

/-- The index of a ring is inside, if the ring is. -/
theorem Inside.ringIdx (h : Inside guestAddr size) (hsize : 4 ≤ size) :
    Inside (guestAddr + 2) 2 ∧ (guestAddr + 2).toNat = guestAddr.toNat + 2 := by
  have htwo : (2 : UInt64).toNat = 2 := rfl
  exact ⟨h.part (by decide) (by omega), h.toNat_add (by decide)⟩

theorem readX16_ringIdx (mem : ByteMem) (h : Inside guestAddr size)
    (hsize : 4 ≤ size) :
    readX16 mem (guestAddr + 2) = some (UInt16.ofNat (mem.load (guestAddr.toNat + 2) 2)) := by
  obtain ⟨hin, haddr⟩ := h.ringIdx hsize
  rw [readX16_of_inside hin, haddr]

end Ooows.Virtio
