import Ooows.Virtio.Descriptors

/-!
# Ooows.Virtio.Buffer

The buffers that devices work on: the methods of `VirtBuf`.

Every method checks the block it is about to copy against the limits of the guest's
memory; none looks at the length of the buffer.  A `Buf` carries the blocks that were
touched on its behalf, and is `Confined` as long as they lie in the buffer.  Each method
touches one block, or nothing at all if the block is not inside the guest's memory.
-/

namespace Ooows.Virtio

open Lib

/-- `MemoryManager::read`. -/
def read (mem : ByteMem) (guestAddr size : UInt64) : Option (List UInt8) :=
  if oob guestAddr size then none else some (mem.readBytes guestAddr.toNat size.toNat)

/-- Some bytes of the guest's memory. -/
structure Block where
  addr : Nat
  len : Nat
  deriving DecidableEq, Repr

/-- Every byte of a block lies in the buffer. -/
def Block.In (b : Block) (vbuf : VirtBuf) : Prop :=
  ∀ x, b.addr ≤ x → x < b.addr + b.len →
    vbuf.guestAddr.toNat ≤ x ∧ x < vbuf.guestAddr.toNat + vbuf.len.toNat

/-- A buffer while a device works on it. -/
structure Buf where
  vbuf : VirtBuf
  mem : ByteMem
  /-- `m_head`. -/
  head : UInt64
  /-- What was read or written so far. -/
  touched : List Block

/-- **Nothing but the buffer** was read or written. -/
def Buf.Confined (b : Buf) : Prop := ∀ block ∈ b.touched, block.In b.vbuf

namespace Buf

/-- A buffer as `get_buf` returns it. -/
def fresh (mem : ByteMem) (vbuf : VirtBuf) : Buf := ⟨vbuf, mem, vbuf.guestAddr, []⟩

def touch (b : Buf) (addr len : Nat) : Buf := { b with touched := b.touched ++ [⟨addr, len⟩] }

/-- `VirtBuf::readU`; `none` is its error. -/
def readU (b : Buf) (size : UInt64) : Option (List UInt8) × Buf :=
  match read b.mem b.head size with
  | none => (none, b)
  | some bytes => (some bytes, { b.touch b.head.toNat size.toNat with head := b.head + size })

/-- `VirtBuf::writeU`; `false` is its error. -/
def writeU (b : Buf) (data : List UInt8) : Bool × Buf :=
  match write b.mem b.head data with
  | none => (false, b)
  | some mem => (true, { b.touch b.head.toNat data.length with
      mem := mem, head := b.head + data.length.toUInt64 })

/-- `VirtBuf::write`. -/
def writeAt (b : Buf) (offset : UInt64) (data : List UInt8) : Bool × Buf :=
  match write b.mem (b.vbuf.guestAddr + offset) data with
  | none => (false, b)
  | some mem => (true, { b.touch (b.vbuf.guestAddr + offset).toNat data.length with mem := mem })

/-- Bytes read through `host_addr`, which checks nothing. -/
def readHost (b : Buf) (offset len : Nat) : List UInt8 × Buf :=
  (b.mem.readBytes (b.vbuf.guestAddr.toNat + offset) len,
    b.touch (b.vbuf.guestAddr.toNat + offset) len)

/-- Bytes written through `host_addr`. -/
def writeHost (b : Buf) (offset : Nat) (data : List UInt8) : Buf :=
  { b.touch (b.vbuf.guestAddr.toNat + offset) data.length with
    mem := b.mem.writeBytes (b.vbuf.guestAddr.toNat + offset) data }

end Buf

/-! ## blocks -/

variable {b b' : Buf} {vbuf : VirtBuf} {mem : ByteMem}

theorem Block.in_iff (addr len : Nat) (vbuf : VirtBuf) :
    Block.In ⟨addr, len⟩ vbuf ↔ len = 0 ∨ vbuf.guestAddr.toNat ≤ addr ∧
      addr + len ≤ vbuf.guestAddr.toNat + vbuf.len.toNat := by
  constructor
  · intro h
    by_cases hlen : len = 0
    · exact .inl hlen
    · have hfirst := h addr (Nat.le_refl _) (by dsimp only; omega)
      have hlast := h (addr + len - 1) (by dsimp only; omega) (by dsimp only; omega)
      exact .inr (by omega)
  · rintro (rfl | hin) x hlo hhi
    · dsimp only at hlo hhi
      omega
    · dsimp only at hlo hhi
      omega

/-- A block at an offset of the buffer. -/
theorem Block.in_offset_iff (vbuf : VirtBuf) (offset len : Nat) :
    Block.In ⟨vbuf.guestAddr.toNat + offset, len⟩ vbuf ↔ len = 0 ∨ offset + len ≤ vbuf.len.toNat := by
  rw [Block.in_iff]
  omega

theorem Buf.confined_fresh (mem : ByteMem) (vbuf : VirtBuf) : (Buf.fresh mem vbuf).Confined :=
  List.forall_mem_nil _

theorem Buf.confined_touch (b : Buf) (addr len : Nat) :
    (b.touch addr len).Confined ↔ b.Confined ∧ Block.In ⟨addr, len⟩ b.vbuf := by
  unfold Buf.Confined Buf.touch
  rw [List.forall_mem_append, List.forall_mem_singleton]

/-! ## the methods -/

theorem read_of_inside {guestAddr size : UInt64} (h : Inside guestAddr size.toNat) :
    read mem guestAddr size = some (mem.readBytes guestAddr.toNat size.toNat) := by
  rw [read, oob_eq_false_iff.2 h]
  rfl

theorem read_of_not_inside {guestAddr size : UInt64} (h : ¬ Inside guestAddr size.toNat) :
    read mem guestAddr size = none := by
  rw [read, if_pos (by rwa [← Bool.not_eq_false, oob_eq_false_iff])]

variable {data : List UInt8}

theorem write_of_inside {guestAddr : UInt64} (hlen : data.length < 2 ^ 64)
    (h : Inside guestAddr data.length) :
    write mem guestAddr data = some (mem.writeBytes guestAddr.toNat data) := by
  have hsize : data.length.toUInt64.toNat = data.length := by
    rw [Nat.toUInt64, UInt64.toNat_ofNat']
    exact Nat.mod_eq_of_lt hlen
  have hin : oob guestAddr data.length.toUInt64 = false := by rwa [oob_eq_false_iff, hsize]
  rw [write, hin]
  rfl

theorem write_of_not_inside {guestAddr : UInt64} (hlen : data.length < 2 ^ 64)
    (h : ¬ Inside guestAddr data.length) : write mem guestAddr data = none := by
  have hsize : data.length.toUInt64.toNat = data.length := by
    rw [Nat.toUInt64, UInt64.toNat_ofNat']
    exact Nat.mod_eq_of_lt hlen
  rw [write, if_pos (by rwa [← Bool.not_eq_false, oob_eq_false_iff, hsize])]

/-- A method that touches a block under a condition, and otherwise does nothing. -/
theorem Buf.confined_of_cases {P : Prop} {block : Block}
    (hpos : P → (b'.Confined ↔ b.Confined ∧ block.In b.vbuf)) (hneg : ¬ P → b' = b) :
    b'.Confined ↔ b.Confined ∧ (P → block.In b.vbuf) := by
  by_cases h : P
  · rw [hpos h]
    exact ⟨fun hconf => ⟨hconf.1, fun _ => hconf.2⟩, fun hconf => ⟨hconf.1, hconf.2 h⟩⟩
  · rw [hneg h]
    exact ⟨fun hconf => ⟨hconf, fun hP => absurd hP h⟩, And.left⟩

/-- What `readU` reads. -/
theorem Buf.readU_of_inside {size : UInt64} (h : Inside b.head size.toNat) :
    b.readU size = (some (b.mem.readBytes b.head.toNat size.toNat),
      { b.touch b.head.toNat size.toNat with head := b.head + size }) := by
  rw [Buf.readU, read_of_inside h]

theorem Buf.readU_of_not_inside {size : UInt64} (h : ¬ Inside b.head size.toNat) :
    b.readU size = (none, b) := by
  rw [Buf.readU, read_of_not_inside h]

/-- `readU` stays in the buffer exactly if the block it reads does. -/
theorem Buf.confined_readU (b : Buf) (size : UInt64) :
    (b.readU size).2.Confined ↔ b.Confined ∧
      (Inside b.head size.toNat → Block.In ⟨b.head.toNat, size.toNat⟩ b.vbuf) := by
  refine Buf.confined_of_cases (fun h => ?_) fun h => ?_
  · rw [Buf.readU_of_inside h]
    exact Buf.confined_touch ..
  · rw [Buf.readU_of_not_inside h]

theorem Buf.writeU_of_inside (hlen : data.length < 2 ^ 64)
    (h : Inside b.head data.length) :
    b.writeU data = (true, { b.touch b.head.toNat data.length with
      mem := b.mem.writeBytes b.head.toNat data, head := b.head + data.length.toUInt64 }) := by
  rw [Buf.writeU, write_of_inside hlen h]

theorem Buf.writeU_of_not_inside (hlen : data.length < 2 ^ 64)
    (h : ¬ Inside b.head data.length) : b.writeU data = (false, b) := by
  rw [Buf.writeU, write_of_not_inside hlen h]

theorem Buf.confined_writeU (b : Buf) {data : List UInt8} (hlen : data.length < 2 ^ 64) :
    (b.writeU data).2.Confined ↔ b.Confined ∧
      (Inside b.head data.length → Block.In ⟨b.head.toNat, data.length⟩ b.vbuf) := by
  refine Buf.confined_of_cases (fun h => ?_) fun h => ?_
  · rw [Buf.writeU_of_inside hlen h]
    exact Buf.confined_touch ..
  · rw [Buf.writeU_of_not_inside hlen h]

theorem Buf.writeAt_of_inside {offset : UInt64} (hlen : data.length < 2 ^ 64)
    (h : Inside (b.vbuf.guestAddr + offset) data.length) :
    b.writeAt offset data = (true, { b.touch (b.vbuf.guestAddr + offset).toNat data.length with
      mem := b.mem.writeBytes (b.vbuf.guestAddr + offset).toNat data }) := by
  rw [Buf.writeAt, write_of_inside hlen h]

theorem Buf.writeAt_of_not_inside {offset : UInt64}
    (hlen : data.length < 2 ^ 64) (h : ¬ Inside (b.vbuf.guestAddr + offset) data.length) :
    b.writeAt offset data = (false, b) := by
  rw [Buf.writeAt, write_of_not_inside hlen h]

theorem Buf.confined_writeAt (b : Buf) (offset : UInt64) {data : List UInt8}
    (hlen : data.length < 2 ^ 64) :
    (b.writeAt offset data).2.Confined ↔ b.Confined ∧
      (Inside (b.vbuf.guestAddr + offset) data.length →
        Block.In ⟨(b.vbuf.guestAddr + offset).toNat, data.length⟩ b.vbuf) := by
  refine Buf.confined_of_cases (fun h => ?_) fun h => ?_
  · rw [Buf.writeAt_of_inside hlen h]
    exact Buf.confined_touch ..
  · rw [Buf.writeAt_of_not_inside hlen h]

end Ooows.Virtio
