import Ooows.Virtio.Queue

/-!
# Ooows.Virtio.Driver

How the guest's driver posts buffers, and what `get_buf` finds then.

Driver and device share the descriptor table and the available ring: `commit_and_ready_vq`
gives the device the driver's own `num`, `desc` and `avail`, so one `VirtQueue` describes
both sides.  The driver uses entry `i` of the ring for descriptor `i` only.  `cell` is what
the device reads by way of entry `i`; posting a buffer is an update of one cell
(`cell_postAt`), and reading it is `bufAt_of_cell`.
-/

namespace Ooows.Virtio

open Lib

/-- The address of a descriptor. -/
def descAddr (vq : VirtQueue) (i : Nat) : Nat := vq.descTableGaddr.toNat + 16 * i

/-- The address of an entry of the available ring. -/
def ringAddr (vq : VirtQueue) (i : Nat) : Nat := vq.availGaddr.toNat + 4 + 2 * i

/-- The stores by which the driver posts a buffer with descriptor `i`. -/
def postAt (mem : ByteMem) (vq : VirtQueue) (i : Nat) (buf : UInt64) (len : UInt32) : ByteMem :=
  let mem := mem.store (descAddr vq i) 8 buf.toNat
  let mem := mem.store (descAddr vq i + 8) 4 len.toNat
  let mem := mem.store (ringAddr vq i) 2 i
  mem.store (vq.availGaddr.toNat + 2) 2 ((availIdx mem vq + 1) % 65536)

/-- `add_buf`. -/
def addBuf (mem : ByteMem) (vq : VirtQueue) (buf : UInt64) (len : UInt32) : ByteMem :=
  let descIdx := availIdx mem vq % vq.size
  postAt mem vq descIdx buf len

/-- The loop of `setup_virtq` from `i` on, for the buffers that `malloc` returns. -/
def setupVirtq (vq : VirtQueue) (bufSz : UInt32) : Nat → List UInt64 → ByteMem → ByteMem
  | _, [], mem => mem
  | i, buf :: bufs, mem => setupVirtq vq bufSz (i + 1) bufs (postAt mem vq i buf bufSz)

/-- The descriptor table and the available ring do not overlap. -/
def Apart (vq : VirtQueue) : Prop :=
  descAddr vq vq.size ≤ vq.availGaddr.toNat ∨ ringAddr vq vq.size ≤ vq.descTableGaddr.toNat

instance (vq : VirtQueue) : Decidable (Apart vq) := inferInstanceAs (Decidable (_ ∨ _))

/-- The address and the length that the device reads by way of an entry of the ring, if
the entry names its own descriptor. -/
def cell (mem : ByteMem) (vq : VirtQueue) (i : Nat) : Option (UInt64 × UInt32) :=
  if i < vq.size ∧ mem.load (ringAddr vq i) 2 = i then
    some (UInt64.ofNat (mem.load (descAddr vq i) 8), UInt32.ofNat (mem.load (descAddr vq i + 8) 4))
  else none

variable {mem mem' : ByteMem} {vq : VirtQueue} {i : Nat} {buf : UInt64} {len : UInt32}

/-! ## posting a buffer -/

theorem cell_of_ge (h : vq.size ≤ i) : cell mem vq i = none :=
  if_neg fun hcell => Nat.not_lt.2 h hcell.1

theorem cell_congr (hring : ∀ x, ringAddr vq i ≤ x → x < ringAddr vq i + 2 → mem x = mem' x)
    (hdesc : ∀ x, descAddr vq i ≤ x → x < descAddr vq i + 12 → mem x = mem' x) :
    cell mem vq i = cell mem' vq i := by
  have haddr : mem.load (descAddr vq i) 8 = mem'.load (descAddr vq i) 8 :=
    ByteMem.load_congr fun x hlo hhi => hdesc x hlo (by omega)
  have hlen : mem.load (descAddr vq i + 8) 4 = mem'.load (descAddr vq i + 8) 4 :=
    ByteMem.load_congr fun x hlo hhi => hdesc x (by omega) (by omega)
  rw [cell, cell, ByteMem.load_congr hring, haddr, hlen]

/-- Posting a buffer touches one descriptor, one entry of the ring, and the index. -/
theorem postAt_outside {x : Nat} (hdesc : ¬ (descAddr vq i ≤ x ∧ x < descAddr vq i + 12))
    (hring : ¬ (ringAddr vq i ≤ x ∧ x < ringAddr vq i + 2))
    (hidx : ¬ (vq.availGaddr.toNat + 2 ≤ x ∧ x < vq.availGaddr.toNat + 4)) :
    postAt mem vq i buf len x = mem x := by
  unfold postAt
  rw [ByteMem.store_outside (by omega), ByteMem.store_outside (by omega),
    ByteMem.store_outside (by omega), ByteMem.store_outside (by omega)]

theorem availIdx_postAt (hapart : Apart vq) (hi : i < vq.size) :
    availIdx (postAt mem vq i buf len) vq = (availIdx mem vq + 1) % 65536 := by
  have hsame : availIdx (((mem.store (descAddr vq i) 8 buf.toNat).store (descAddr vq i + 8) 4
      len.toNat).store (ringAddr vq i) 2 i) vq = availIdx mem vq := by
    unfold availIdx
    unfold Apart descAddr ringAddr at *
    rw [ByteMem.load_store_of_disjoint (by omega), ByteMem.load_store_of_disjoint (by omega),
      ByteMem.load_store_of_disjoint (by omega)]
  unfold postAt
  dsimp only
  rw [hsame]
  unfold availIdx
  rw [ByteMem.load_store_self]
  omega

theorem cell_postAt_self (h : QueueOk vq) (hapart : Apart vq) (hi : i < vq.size) :
    cell (postAt mem vq i buf len) vq i = some (buf, len) := by
  have hsize := h.lt
  have hbuf := buf.toNat_lt
  have hlen := len.toNat_lt
  have hring : (postAt mem vq i buf len).load (ringAddr vq i) 2 = i := by
    unfold postAt ringAddr
    dsimp only
    rw [ByteMem.load_store_of_disjoint (by omega), ByteMem.load_store_self]
    omega
  have hbuf : (postAt mem vq i buf len).load (descAddr vq i) 8 = buf.toNat := by
    unfold postAt
    unfold Apart descAddr ringAddr at *
    dsimp only
    rw [ByteMem.load_store_of_disjoint (by omega), ByteMem.load_store_of_disjoint (by omega),
      ByteMem.load_store_of_disjoint (by omega), ByteMem.load_store_self]
    omega
  have hlen : (postAt mem vq i buf len).load (descAddr vq i + 8) 4 = len.toNat := by
    unfold postAt
    unfold Apart descAddr ringAddr at *
    dsimp only
    rw [ByteMem.load_store_of_disjoint (by omega), ByteMem.load_store_of_disjoint (by omega),
      ByteMem.load_store_self]
    omega
  rw [cell, if_pos ⟨hi, hring⟩, hbuf, hlen, UInt64.ofNat_toNat, UInt32.ofNat_toNat]

/-- **Posting a buffer** is an update of one cell. -/
theorem cell_postAt (h : QueueOk vq) (hapart : Apart vq) (hi : i < vq.size) :
    cell (postAt mem vq i buf len) vq = Function.update (cell mem vq) i (some (buf, len)) := by
  funext j
  by_cases hj : j = i
  · rw [hj, Function.update_self, cell_postAt_self h hapart hi]
  · rw [Function.update_of_ne hj]
    by_cases hlt : j < vq.size
    · refine cell_congr (fun x hlo hhi => postAt_outside ?_ ?_ ?_)
        fun x hlo hhi => postAt_outside ?_ ?_ ?_
      all_goals
        unfold Apart descAddr ringAddr at *
        omega
    · rw [cell_of_ge (Nat.not_lt.1 hlt), cell_of_ge (Nat.not_lt.1 hlt)]

/-- **`setup_virtq`** posts its buffers as `add_buf` does. -/
theorem setupVirtq_eq (h : QueueOk vq) (hapart : Apart vq) (bufSz : UInt32) (bufs : List UInt64)
    (hidx : availIdx mem vq = i) (hlen : i + bufs.length ≤ vq.size) :
    setupVirtq vq bufSz i bufs mem = bufs.foldl (fun mem buf => addBuf mem vq buf bufSz) mem := by
  induction bufs generalizing i mem with
  | nil => rfl
  | cons buf bufs ih =>
    rw [List.length_cons] at hlen
    have hlt := h.lt
    have hi : i < vq.size := by omega
    have hadd : addBuf mem vq buf bufSz = postAt mem vq i buf bufSz := by
      rw [addBuf, hidx, Nat.mod_eq_of_lt hi]
    have hnext : availIdx (postAt mem vq i buf bufSz) vq = i + 1 := by
      rw [availIdx_postAt hapart hi, hidx]
      omega
    rw [setupVirtq, List.foldl_cons, hadd, ih hnext (by omega)]

/-! ## reading it -/

theorem toNat_scaled {c k : UInt64} (hi : i < 32768) (hc : c.toNat < 256) (hk : k.toNat < 256) :
    (c + k * (UInt16.ofNat i).toUInt64).toNat = c.toNat + k.toNat * i := by
  have hmul : k.toNat * i ≤ 256 * 32768 := Nat.mul_le_mul hk.le hi.le
  rw [UInt64.toNat_add, UInt64.toNat_mul, UInt16.toNat_toUInt64, UInt16.toNat_ofNat',
    Nat.mod_eq_of_lt (show i < 2 ^ 16 by omega),
    Nat.mod_eq_of_lt (show k.toNat * i < 2 ^ 64 by omega), Nat.mod_eq_of_lt (by omega)]

theorem readX16_ring (h : QueueOk vq) (hi : i < vq.size) :
    readX16 mem (vq.availGaddr + 4 + 2 * (UInt16.ofNat i).toUInt64) =
      some (UInt16.ofNat (mem.load (ringAddr vq i) 2)) := by
  have hlt := h.lt
  have hoff : (4 + 2 * (UInt16.ofNat i).toUInt64).toNat = 4 + 2 * i :=
    toNat_scaled (by omega) (by decide) (by decide)
  have hin : Inside (vq.availGaddr + (4 + 2 * (UInt16.ofNat i).toUInt64)) 2 :=
    h.avail.part (by decide) (by omega)
  have haddr := h.avail.toNat_add (show _ < 2 ^ 32 by rw [hoff]; omega)
  rw [UInt64.add_assoc, readX16_of_inside hin, haddr, hoff, ringAddr, Nat.add_assoc]

theorem readDesc_of_lt (mem : ByteMem) (h : QueueOk vq) (hi : i < vq.size) :
    ∃ flags, Dev.readDesc mem (vq.descTableGaddr + 16 * (UInt16.ofNat i).toUInt64) =
      some ⟨UInt64.ofNat (mem.load (descAddr vq i) 8),
        UInt32.ofNat (mem.load (descAddr vq i + 8) 4), flags⟩ := by
  have hlt := h.lt
  have hoff : (0 + 16 * (UInt16.ofNat i).toUInt64).toNat = 0 + 16 * i :=
    toNat_scaled (by omega) (by decide) (by decide)
  rw [UInt64.zero_add, Nat.zero_add] at hoff
  have hin : Inside (vq.descTableGaddr + 16 * (UInt16.ofNat i).toUInt64) (16 : UInt64).toNat :=
    h.desc.part (by decide) (by rw [hoff, show (16 : UInt64).toNat = 16 from rfl]; omega)
  have haddr := h.desc.toNat_add (show _ < 2 ^ 32 by rw [hoff]; omega)
  rw [Dev.readDesc, oob_eq_false_iff.2 hin, haddr, hoff]
  exact ⟨_, rfl⟩

/-- **What `get_buf` finds** by way of a cell. -/
theorem bufAt_of_cell (h : QueueOk vq) (hcell : cell mem vq i = some (buf, len))
    (hin : Inside buf len.toNat) (uninit : UInt32) :
    ∃ flags, Dev.bufAt mem vq (UInt16.ofNat i) uninit =
      some ⟨buf, len, UInt16.ofNat i, flags, uninit⟩ := by
  obtain ⟨⟨hi, hring⟩, hpair⟩ := Option.ite_none_right_eq_some.1 hcell
  rw [Option.some.injEq, Prod.mk.injEq] at hpair
  obtain ⟨flags, hdesc⟩ := readDesc_of_lt mem h hi
  have hlt := h.lt
  have hid : ¬ (UInt16.ofNat i).toUInt32 > vq.numBufs := by
    rw [gt_iff_lt, UInt32.lt_iff_toNat_lt, UInt16.toNat_toUInt32, UInt16.toNat_ofNat',
      Nat.mod_eq_of_lt (show i < 2 ^ 16 by omega)]
    exact Nat.not_lt.2 hi.le
  have hoob : oob buf len.toUInt64 = false := by
    rw [oob_eq_false_iff, UInt32.toNat_toUInt64]
    exact hin
  refine ⟨flags, ?_⟩
  rw [Dev.bufAt, readX16_ring h hi, hring]
  dsimp only
  rw [if_neg hid, hdesc]
  dsimp only
  rw [hpair.1, hpair.2, hoob]
  rfl

end Ooows.Virtio
