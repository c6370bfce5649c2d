import Ooows.Virtio.MemoryManager

/-!
# Ooows.Virtio.Region

The memory manager over any mapped region.

Here memory is the device process's own, addressed by host addresses, and the manager
is the object the devices hold: where the region starts and ends for the guest, and
where it is mapped.  An access that would touch a byte outside the mapping has no
result.  `Ooows.Virtio.MemoryManager` has the same operations on guest addresses, as the
devices see them.
-/

namespace Ooows.Virtio

open Lib

/-- `MemoryManager`, as the constructor leaves it: the region is mapped as a whole, and
the mapping does not wrap. -/
structure MemoryManager where
  guestStartPaddr : UInt64
  guestEndPaddr : UInt64
  memSize : UInt64
  memory : UInt64
  start_lt_end : guestStartPaddr < guestEndPaddr
  end_le : guestEndPaddr.toNat ≤ 2 ^ 63
  size_eq : guestEndPaddr = guestStartPaddr + memSize
  mapping_le : memory.toNat + memSize.toNat ≤ 2 ^ 64

namespace MemoryManager

variable (m : MemoryManager)

/-! ## the operations -/

/-- `oob`. -/
def oob (guestAddr size : UInt64) : Bool :=
  oobOf m.guestStartPaddr m.guestEndPaddr guestAddr size

/-- `host_addr`. -/
def hostAddr (guestAddr : UInt64) : UInt64 := m.memory + guestAddr - m.guestStartPaddr

/-- The block lies inside the mapping. -/
def Mapped (addr : UInt64) (size : Nat) : Prop :=
  m.memory.toNat ≤ addr.toNat ∧ addr.toNat + size ≤ m.memory.toNat + m.memSize.toNat

instance (addr : UInt64) (size : Nat) : Decidable (m.Mapped addr size) :=
  inferInstanceAs (Decidable (_ ∧ _))

/-- The block an access needs; `none` when a byte of it is not mapped. -/
def touch {α : Type} (addr : UInt64) (size : Nat) (result : α) : Option α :=
  if m.Mapped addr size then some result else none

/-- `read`, into a buffer of the caller: what it returns, and the buffer. -/
def read (mem : ByteMem) (guestAddr : UInt64) (buf : ByteMem) (size : UInt64) :
    Option (Int × ByteMem) :=
  if m.oob guestAddr size then some (-1, buf)
  else
    let addr := m.hostAddr guestAddr
    m.touch addr size.toNat (0, buf.writeBytes 0 (mem.readBytes addr.toNat size.toNat))

/-- `write`, from a buffer of the caller: what it returns, and the memory. -/
def write (mem : ByteMem) (guestAddr : UInt64) (data : ByteMem) (size : UInt64) :
    Option (Int × ByteMem) :=
  if m.oob guestAddr size then some (-1, mem)
  else
    let addr := m.hostAddr guestAddr
    m.touch addr size.toNat (0, mem.writeBytes addr.toNat (data.readBytes 0 size.toNat))

/-- `readX`, for a type of `size` bytes: what it returns, and the variable. -/
def readX (mem : ByteMem) (guestAddr size : UInt64) (out : BitVec (8 * size.toNat)) :
    Option (Int × BitVec (8 * size.toNat)) :=
  if m.oob guestAddr size then some (-1, out)
  else
    let offset := guestAddr - m.guestStartPaddr
    let addr := m.memory + offset
    m.touch addr size.toNat (0, BitVec.ofNat _ (mem.load addr.toNat size.toNat))

/-- `writeX`, for a type of `size` bytes: what it returns, and the memory. -/
def writeX (mem : ByteMem) (guestAddr size : UInt64) (data : BitVec (8 * size.toNat)) :
    Option (Int × ByteMem) :=
  if m.oob guestAddr size then some (-1, mem)
  else
    let offset := guestAddr - m.guestStartPaddr
    let addr := m.memory + offset
    m.touch addr size.toNat (0, mem.store addr.toNat size.toNat data.toNat)

/-! ## the bounds check -/

/-- A block that lies inside the region, for the guest. -/
def Holds (guestAddr size : UInt64) : Prop :=
  m.guestStartPaddr.toNat ≤ guestAddr.toNat ∧ guestAddr.toNat < m.guestEndPaddr.toNat ∧
    guestAddr.toNat + size.toNat ≤ m.guestEndPaddr.toNat

variable {m} {mem buf data : ByteMem} {guestAddr size : UInt64}

theorem start_add_memSize (m : MemoryManager) :
    m.guestStartPaddr.toNat + m.memSize.toNat = m.guestEndPaddr.toNat := by
  have hlt := UInt64.lt_iff_toNat_lt.1 m.start_lt_end
  have hend := congrArg UInt64.toNat m.size_eq
  have hstart := m.guestStartPaddr.toNat_lt
  have hsize := m.memSize.toNat_lt
  rw [UInt64.toNat_add] at hend
  omega

theorem oob_false_iff_holds : m.oob guestAddr size = false ↔ m.Holds guestAddr size :=
  oobOf_eq_false_iff m.start_lt_end m.end_le

theorem Holds.oob (h : m.Holds guestAddr size) : m.oob guestAddr size = false :=
  oob_false_iff_holds.2 h

/-- Where the bytes of the region are mapped. -/
theorem Holds.toNat_hostAddr (h : m.Holds guestAddr size) :
    (m.hostAddr guestAddr).toNat =
      m.memory.toNat + (guestAddr.toNat - m.guestStartPaddr.toNat) := by
  obtain ⟨hlo, hlt, -⟩ := h
  have hmap := m.mapping_le
  have hsize := m.start_add_memSize
  have hmem := m.memory.toNat_lt
  have hstart := m.guestStartPaddr.toNat_lt
  rw [hostAddr, UInt64.toNat_sub, UInt64.toNat_add]
  omega

theorem hostAddr_eq_add_offset (m : MemoryManager) (guestAddr : UInt64) :
    m.memory + (guestAddr - m.guestStartPaddr) = m.hostAddr guestAddr := by
  rw [hostAddr, UInt64.sub_eq_add_neg, UInt64.sub_eq_add_neg, UInt64.add_assoc]

/-- **Accepted blocks are mapped**. -/
theorem Holds.mapped (h : m.Holds guestAddr size) :
    m.Mapped (m.hostAddr guestAddr) size.toNat := by
  have haddr := h.toNat_hostAddr
  have hsize := m.start_add_memSize
  obtain ⟨hlo, hlt, hhi⟩ := h
  unfold Mapped
  omega

theorem Holds.touch {α : Type} (h : m.Holds guestAddr size) (result : α) :
    m.touch (m.hostAddr guestAddr) size.toNat result = some result := if_pos h.mapped

/-! ## accepted accesses -/

theorem read_of_holds (h : m.Holds guestAddr size) (mem buf : ByteMem) :
    m.read mem guestAddr buf size = some (0, buf.writeBytes 0
      (mem.readBytes (m.hostAddr guestAddr).toNat size.toNat)) := by
  rw [read, h.oob]
  exact h.touch _

theorem write_of_holds (h : m.Holds guestAddr size) (mem data : ByteMem) :
    m.write mem guestAddr data size = some (0, mem.writeBytes (m.hostAddr guestAddr).toNat
      (data.readBytes 0 size.toNat)) := by
  rw [write, h.oob]
  exact h.touch _

theorem readX_of_holds (h : m.Holds guestAddr size) (mem : ByteMem)
    (out : BitVec (8 * size.toNat)) :
    m.readX mem guestAddr size out =
      some (0, BitVec.ofNat _ (mem.load (m.hostAddr guestAddr).toNat size.toNat)) := by
  rw [readX, h.oob]
  simp only [hostAddr_eq_add_offset]
  exact h.touch _

theorem writeX_of_holds (h : m.Holds guestAddr size) (mem : ByteMem)
    (data : BitVec (8 * size.toNat)) :
    m.writeX mem guestAddr size data =
      some (0, mem.store (m.hostAddr guestAddr).toNat size.toNat data.toNat) := by
  rw [writeX, h.oob]
  simp only [hostAddr_eq_add_offset]
  exact h.touch _

/-- What was written to a block is what a read of the block copies. -/
theorem readBytes_of_write (mem data : ByteMem) (a n : Nat) :
    (mem.writeBytes a (data.readBytes 0 n)).readBytes a n = data.readBytes 0 n := by
  have h := ByteMem.readBytes_writeBytes mem a (data.readBytes 0 n)
  rwa [ByteMem.length_readBytes] at h

theorem ofNat_load_store (mem : ByteMem) (a n : Nat) (data : BitVec (8 * n)) :
    BitVec.ofNat (8 * n) ((mem.store a n data.toNat).load a n) = data := by
  have hpow : 2 ^ (8 * n) = 256 ^ n := Nat.pow_mul 2 8 n
  rw [ByteMem.load_store_self, ← hpow, Nat.mod_eq_of_lt data.isLt, BitVec.ofNat_toNat,
    BitVec.setWidth_eq]

/-- The manager touches memory outside its mapping at no place. -/
def Keeps (m : MemoryManager) (mem mem' : ByteMem) : Prop :=
  ∀ x, x < m.memory.toNat ∨ m.memory.toNat + m.memSize.toNat ≤ x → mem' x = mem x

/-- A change of an accepted block is inside the mapping. -/
theorem Holds.keeps_writeBytes (h : m.Holds guestAddr size) {bs : List UInt8}
    (hlen : bs.length = size.toNat) :
    m.Keeps mem (mem.writeBytes (m.hostAddr guestAddr).toNat bs) := by
  intro x hx
  obtain ⟨hlo, hhi⟩ := h.mapped
  exact ByteMem.writeBytes_outside (by omega)

/-! ## what the manager guarantees -/

/-- What `read` and `write` do with one block: they accept it exactly when it lies in
the region, touch mapped bytes only, and a rejected access changes nothing. -/
structure BlockAccess (m : MemoryManager) (mem : ByteMem) (guestAddr size : UInt64) : Prop where
  rejected : m.oob guestAddr size = true → ∀ buf data,
    m.read mem guestAddr buf size = some (-1, buf) ∧
      m.write mem guestAddr data size = some (-1, mem)
  read : m.oob guestAddr size = false → ∀ buf,
    m.Mapped (m.hostAddr guestAddr) size.toNat ∧ m.read mem guestAddr buf size =
      some (0, buf.writeBytes 0 (mem.readBytes (m.hostAddr guestAddr).toNat size.toNat))
  write : m.oob guestAddr size = false → ∀ data, ∃ mem',
    m.write mem guestAddr data size = some (0, mem') ∧ m.Keeps mem mem' ∧
      ∀ buf, m.read mem' guestAddr buf size =
        some (0, buf.writeBytes 0 (data.readBytes 0 size.toNat))

/-- The same of `readX` and `writeX`. -/
structure ValueAccess (m : MemoryManager) (mem : ByteMem) (guestAddr size : UInt64) : Prop where
  rejected : m.oob guestAddr size = true → ∀ out data,
    m.readX mem guestAddr size out = some (-1, out) ∧
      m.writeX mem guestAddr size data = some (-1, mem)
  readX : m.oob guestAddr size = false → ∀ out,
    m.Mapped (m.hostAddr guestAddr) size.toNat ∧ m.readX mem guestAddr size out =
      some (0, BitVec.ofNat _ (mem.load (m.hostAddr guestAddr).toNat size.toNat))
  writeX : m.oob guestAddr size = false → ∀ data, ∃ mem',
    m.writeX mem guestAddr size data = some (0, mem') ∧ m.Keeps mem mem' ∧
      ∀ out, m.readX mem' guestAddr size out = some (0, data)

theorem blockAccess (m : MemoryManager) (mem : ByteMem) (guestAddr size : UInt64) :
    m.BlockAccess mem guestAddr size where
  rejected h buf data := ⟨if_pos h, if_pos h⟩
  read h buf := by
    have hin := oob_false_iff_holds.1 h
    exact ⟨hin.mapped, read_of_holds hin mem buf⟩
  write h data := by
    have hin := oob_false_iff_holds.1 h
    refine ⟨_, write_of_holds hin mem data, ?_, fun buf => ?_⟩
    · exact hin.keeps_writeBytes (ByteMem.length_readBytes ..)
    · rw [read_of_holds hin, readBytes_of_write]

theorem valueAccess (m : MemoryManager) (mem : ByteMem) (guestAddr size : UInt64) :
    m.ValueAccess mem guestAddr size where
  rejected h out data := ⟨if_pos h, if_pos h⟩
  readX h out := by
    have hin := oob_false_iff_holds.1 h
    exact ⟨hin.mapped, readX_of_holds hin mem out⟩
  writeX h data := by
    have hin := oob_false_iff_holds.1 h
    refine ⟨_, writeX_of_holds hin mem data, ?_, fun out => ?_⟩
    · exact hin.keeps_writeBytes (ByteMem.length_bytesOfNat ..)
    · rw [readX_of_holds hin, ofNat_load_store]

/-- **The memory manager's bounds check is exact**: for every region it may hold and all
addresses and sizes, and what follows from it for every access. -/
theorem bounds_check_exact (m : MemoryManager) (mem : ByteMem) (guestAddr size : UInt64) :
    (m.oob guestAddr size = false ↔
      m.guestStartPaddr.toNat ≤ guestAddr.toNat ∧ guestAddr.toNat < m.guestEndPaddr.toNat ∧
        guestAddr.toNat + size.toNat ≤ m.guestEndPaddr.toNat) ∧
    m.BlockAccess mem guestAddr size ∧ m.ValueAccess mem guestAddr size :=
  ⟨oob_false_iff_holds, m.blockAccess mem guestAddr size, m.valueAccess mem guestAddr size⟩

end MemoryManager

end Ooows.Virtio
