import Ooows.Virtio.Device

/-!
# Ooows.Virtio.Queue

Queues that are ready and lie inside the guest's memory, and what `get_buf` and
`put_buf` do on them.

`QueueOk` is what `ready_queue` establishes.  On such a queue no access can fail but
the one behind the used ring, so both operations have a plain description:
`getBuf_eq` and `putBuf_eq`.
-/

namespace Ooows.Virtio

open Lib

/-- The number of buffers of a queue. -/
def VirtQueue.size (vq : VirtQueue) : Nat := vq.numBufs.toNat

/-- **A queue that may be served**: its size is in range, and the descriptor table and
both rings lie inside the guest's memory. -/
structure QueueOk (vq : VirtQueue) : Prop where
  pos : 0 < vq.size
  lt : vq.size < 32768
  desc : Inside vq.descTableGaddr (16 * vq.size)
  avail : Inside vq.availGaddr (4 + 2 * vq.size)
  used : Inside vq.usedGaddr (4 + 8 * vq.size)

/-- A queue that may be served. -/
def sampleQueue (numBufs : UInt32) : VirtQueue :=
  ⟨numBufs, true, 0, 0x100000, 0, 0x100400, 0, 0x100800, 0, 0x100000, 0x100400, 0x100800⟩

/-! ## the structures in memory -/

/-- The driver's index in the available ring. -/
def availIdx (mem : ByteMem) (vq : VirtQueue) : Nat := mem.load (vq.availGaddr.toNat + 2) 2

/-- The device's index in the used ring. -/
def usedIdx (mem : ByteMem) (vq : VirtQueue) : Nat := mem.load (vq.usedGaddr.toNat + 2) 2

/-- The address of an element of the used ring. -/
def usedElemAddr (vq : VirtQueue) (i : Nat) : Nat := vq.usedGaddr.toNat + 4 + 8 * i

/-- An element of the used ring holds an id and a length. -/
def HoldsElem (mem : ByteMem) (vq : VirtQueue) (i : Nat) (id : UInt16) (len : UInt32) : Prop :=
  mem.load (usedElemAddr vq i) 4 = id.toNat ∧ mem.load (usedElemAddr vq i + 4) 4 = len.toNat

/-- The element behind the last one of the used ring is still in memory. -/
def RoomBehind (vq : VirtQueue) : Prop := usedElemAddr vq vq.size + 8 ≤ 0x200000

instance (mem : ByteMem) (vq : VirtQueue) (i : Nat) (id : UInt16) (len : UInt32) :
    Decidable (HoldsElem mem vq i id len) := inferInstanceAs (Decidable (_ ∧ _))

instance (vq : VirtQueue) : Decidable (RoomBehind vq) := inferInstanceAs (Decidable (_ ≤ _))

variable {mem : ByteMem} {vq : VirtQueue} {d : Dev} {vqIdx : UInt16}

theorem QueueOk.numBufs_ne (h : QueueOk vq) : vq.numBufs ≠ 0 := by
  intro hzero
  have hpos := h.pos
  rw [VirtQueue.size, hzero] at hpos
  exact Nat.lt_irrefl 0 hpos

theorem QueueOk.moveTail (h : QueueOk vq) (tail : UInt16) :
    QueueOk { vq with availTailIdx := tail } :=
  ⟨h.pos, h.lt, h.desc, h.avail, h.used⟩

theorem usedFull_eq (h : QueueOk vq) :
    d.usedFull vq = .ok (decide (UInt16.ofNat (usedIdx d.mem vq) = vq.availTailIdx)) := by
  rw [Dev.usedFull, readX16_ringIdx d.mem h.used (by omega), usedIdx]

theorem availEmpty_eq (h : QueueOk vq) :
    d.availEmpty vq = .ok (decide (UInt16.ofNat (availIdx d.mem vq) = vq.availTailIdx)) := by
  rw [Dev.availEmpty, readX16_ringIdx d.mem h.avail (by omega), availIdx]

/-! ## put_buf -/

/-- The memory after `put_buf` took a buffer back. -/
def returned (mem : ByteMem) (vq : VirtQueue) (vbuf : VirtBuf) : ByteMem :=
  ((mem.store (usedElemAddr vq vq.size) 4 vbuf.id.toNat).store
    (usedElemAddr vq vq.size + 4) 4 vbuf.nbytesWritten.toNat).store
    (vq.usedGaddr.toNat + 2) 2 ((usedIdx mem vq + 1) % 65536)

/-- `put_buf` takes a buffer back: not everything taken was given back already, and there
is room behind the ring. -/
def Accepts (mem : ByteMem) (vq : VirtQueue) : Prop :=
  UInt16.ofNat (usedIdx mem vq) ≠ vq.availTailIdx ∧ RoomBehind vq

instance (mem : ByteMem) (vq : VirtQueue) : Decidable (Accepts mem vq) :=
  inferInstanceAs (Decidable (_ ∧ _))

theorem toNat_behind (h : QueueOk vq) :
    (vq.usedGaddr + 4 + 8 * vq.numBufs.toUInt64).toNat = usedElemAddr vq vq.size := by
  have hfour : (vq.usedGaddr + 4).toNat = vq.usedGaddr.toNat + 4 := h.used.toNat_add (by decide)
  have hlt := h.lt
  have hused := h.used.2.1
  have hmul : (8 * vq.numBufs.toUInt64).toNat = 8 * vq.size := by
    rw [UInt64.toNat_mul, UInt32.toNat_toUInt64]
    exact Nat.mod_eq_of_lt (show 8 * vq.size < 2 ^ 64 by omega)
  rw [UInt64.toNat_add, hfour, hmul, usedElemAddr]
  exact Nat.mod_eq_of_lt (by omega)

theorem oob_behind (h : QueueOk vq) :
    oob (vq.usedGaddr + 4 + 8 * vq.numBufs.toUInt64) 8 = decide (¬ RoomBehind vq) := by
  have haddr := toNat_behind h
  have hlo := h.used.1
  have height : (8 : UInt64).toNat = 8 := rfl
  have hiff : Inside (vq.usedGaddr + 4 + 8 * vq.numBufs.toUInt64) (8 : UInt64).toNat ↔
      RoomBehind vq := by
    unfold Inside RoomBehind
    rw [haddr, height]
    unfold usedElemAddr
    omega
  by_cases hroom : RoomBehind vq
  · rw [oob_eq_false_iff.2 (hiff.2 hroom)]
    simp [hroom]
  · have hoob : oob (vq.usedGaddr + 4 + 8 * vq.numBufs.toUInt64) 8 = true := by
      rw [← Bool.not_eq_false, oob_eq_false_iff, hiff]
      exact hroom
    rw [hoob]
    simp [hroom]

theorem returnBuf_eq (h : QueueOk vq) (vbuf : VirtBuf) :
    Dev.returnBuf mem vq (UInt16.ofNat (usedIdx mem vq)) vbuf =
      if RoomBehind vq then (true, returned mem vq vbuf) else (false, mem) := by
  obtain ⟨hin, haddr⟩ := h.used.ringIdx (by omega)
  have hhead : (UInt16.ofNat (usedIdx mem vq) + 1).toNat = (usedIdx mem vq + 1) % 65536 := by
    have hone : (1 : UInt16).toNat = 1 := rfl
    rw [UInt16.toNat_add, UInt16.toNat_ofNat', hone]
    omega
  unfold Dev.returnBuf write
  simp only [List.length_append, ByteMem.length_bytesOfNat]
  rw [show (4 + 4 : Nat).toUInt64 = 8 from rfl, oob_behind h]
  by_cases hroom : RoomBehind vq
  · simp only [hroom, not_true_eq_false, decide_false, Bool.false_eq_true, if_false, if_true]
    rw [writeX16_of_inside hin, haddr, hhead, toNat_behind h, ByteMem.writeBytes_append,
      ByteMem.length_bytesOfNat]
    rfl
  · simp only [hroom, not_false_eq_true, decide_true, if_true, if_false]

/-- **`put_buf` on a queue that may be served.** -/
theorem putBuf_eq (hready : d.readyVq vqIdx = some vq) (h : QueueOk vq) (vbuf : VirtBuf) :
    d.putBuf vqIdx vbuf = .ok (if Accepts d.mem vq then
      (true, { d with mem := returned d.mem vq vbuf }) else (false, d)) := by
  rw [Dev.putBuf, hready]
  dsimp only
  rw [usedFull_eq h, readX16_ringIdx d.mem h.used (by omega), ← usedIdx]
  have hwrap : Dev.wrapIdx (UInt16.ofNat (usedIdx d.mem vq)) vq = .ok _ := if_neg h.numBufs_ne
  by_cases hfull : UInt16.ofNat (usedIdx d.mem vq) = vq.availTailIdx
  · have hnot : ¬ Accepts d.mem vq := fun haccepts => haccepts.1 hfull
    rw [if_neg hnot, decide_eq_true hfull]
    rfl
  · rw [decide_eq_false hfull]
    dsimp only [bind, Except.bind]
    rw [hwrap]
    dsimp only [pure, Except.pure]
    rw [returnBuf_eq h]
    by_cases hroom : RoomBehind vq
    · rw [if_pos hroom, if_pos (show Accepts d.mem vq from ⟨hfull, hroom⟩)]
      rfl
    · have hnot : ¬ Accepts d.mem vq := fun haccepts => hroom haccepts.2
      rw [if_neg hroom, if_neg hnot]
      rfl

/-! ## get_buf -/

theorem wrapIdx_eq (h : QueueOk vq) (idx : UInt16) :
    Dev.wrapIdx idx vq = .ok (UInt16.ofNat (idx.toNat % vq.size)) := by
  rw [Dev.wrapIdx, if_neg h.numBufs_ne]
  rfl

/-- The device after `get_buf` handed out a buffer. -/
def Dev.taken (d : Dev) (vqIdx : UInt16) (vq : VirtQueue) : Dev :=
  { d with
    vqs := Function.update d.vqs vqIdx.toNat { vq with availTailIdx := vq.availTailIdx + 1 } }

/-- **`get_buf` on a queue that may be served.** -/
theorem getBuf_eq (hready : d.readyVq vqIdx = some vq) (h : QueueOk vq) (uninit : UInt32) :
    d.getBuf vqIdx uninit = .ok (
      if UInt16.ofNat (availIdx d.mem vq) = vq.availTailIdx then (none, d)
      else match Dev.bufAt d.mem vq (UInt16.ofNat (vq.availTailIdx.toNat % vq.size)) uninit with
        | none => (none, d)
        | some vbuf => (some vbuf, d.taken vqIdx vq)) := by
  rw [Dev.getBuf, hready]
  dsimp only
  rw [availEmpty_eq h, wrapIdx_eq h]
  by_cases hempty : UInt16.ofNat (availIdx d.mem vq) = vq.availTailIdx
  · rw [if_pos hempty, decide_eq_true hempty]
    rfl
  · rw [if_neg hempty, decide_eq_false hempty]
    dsimp only [bind, Except.bind]
    cases hbuf : Dev.bufAt d.mem vq (UInt16.ofNat (vq.availTailIdx.toNat % vq.size)) uninit with
    | none => rfl
    | some vbuf => rfl

/-- The same for a queue that is given but for its tail index. -/
theorem getBuf_moveTail {tail : UInt16}
    (hready : d.readyVq vqIdx = some { vq with availTailIdx := tail }) (h : QueueOk vq)
    (uninit : UInt32) :
    d.getBuf vqIdx uninit = .ok (
      if UInt16.ofNat (availIdx d.mem vq) = tail then (none, d)
      else match Dev.bufAt d.mem vq (UInt16.ofNat (tail.toNat % vq.size)) uninit with
        | none => (none, d)
        | some vbuf => (some vbuf, d.taken vqIdx { vq with availTailIdx := tail })) :=
  getBuf_eq hready (h.moveTail tail) uninit

/-- `get_buf` changes at most the tail index. -/
theorem getBuf_dev (hready : d.readyVq vqIdx = some vq) (h : QueueOk vq) (uninit : UInt32) :
    ∃ got d', d.getBuf vqIdx uninit = .ok (got, d') ∧ (d' = d ∨ d' = d.taken vqIdx vq) := by
  rw [getBuf_eq hready h]
  split
  next => exact ⟨none, d, rfl, .inl rfl⟩
  next =>
    split
    next => exact ⟨none, d, rfl, .inl rfl⟩
    next vbuf _ => exact ⟨some vbuf, _, rfl, .inr rfl⟩

theorem readyVq_eq (hready : d.readyVq vqIdx = some vq) :
    vqIdx.toUInt32 < d.numQueues ∧ d.vqs vqIdx.toNat = vq ∧ vq.ready = true := by
  unfold Dev.readyVq at hready
  split at hready
  next => contradiction
  next hlt =>
    split at hready
    next hr =>
      cases hready
      exact ⟨UInt32.not_le.1 hlt, rfl, hr⟩
    next => contradiction

theorem readyVq_taken (hready : d.readyVq vqIdx = some vq) :
    (d.taken vqIdx vq).readyVq vqIdx = some { vq with availTailIdx := vq.availTailIdx + 1 } := by
  obtain ⟨hlt, -, hr⟩ := readyVq_eq hready
  have hself : (d.taken vqIdx vq).vqs vqIdx.toNat =
      { vq with availTailIdx := vq.availTailIdx + 1 } := Function.update_self _ _ _
  have hle : ¬ vqIdx.toUInt32 ≥ (d.taken vqIdx vq).numQueues := UInt32.not_le.2 hlt
  rw [Dev.readyVq, if_neg hle, hself, if_pos hr]

end Ooows.Virtio
