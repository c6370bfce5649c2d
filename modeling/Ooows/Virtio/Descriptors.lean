import Ooows.Virtio.Driver
import Ooows.Virtio.Ready

/-!
# Ooows.Virtio.Descriptors

The descriptors behind the buffers that `get_buf` hands out.

`get_buf` takes the index of a descriptor from the available ring, which the guest writes,
and compares it with the number of buffers before it reads the descriptor.  `Taken` says
what a call that returns a buffer has done, on any queue that may be served
(`getBuf_taken`).  The comparison lets one index too many through: an entry that is
equal to `num_bufs` names the 16 bytes behind the table (`InTable`).
-/

namespace Ooows.Virtio

open Lib

/-- The entry of the available ring that the next `get_buf` reads. -/
def nextEntry (mem : ByteMem) (vq : VirtQueue) : Nat :=
  mem.load (ringAddr vq (vq.availTailIdx.toNat % vq.size)) 2

/-- A descriptor lies inside the table that `ready_queue` has checked. -/
def InTable (vq : VirtQueue) (id : UInt16) : Prop :=
  vq.descTableGaddr.toNat ≤ (vq.descTableGaddr + 16 * id.toUInt64).toNat ∧
    (vq.descTableGaddr + 16 * id.toUInt64).toNat + 16 ≤ vq.descTableGaddr.toNat + 16 * vq.size

instance (vq : VirtQueue) (id : UInt16) : Decidable (InTable vq id) :=
  inferInstanceAs (Decidable (_ ∧ _))

/-- **What a `get_buf` that returns a buffer has done**: it read the descriptor that the
ring names, found the buffer inside the guest's memory, and moved the tail index. -/
structure Taken (d : Dev) (vqIdx : UInt16) (vq : VirtQueue) (vbuf : VirtBuf) (d' : Dev) : Prop where
  queue : d.vqs vqIdx.toNat = vq
  entry : vbuf.id.toNat = nextEntry d.mem vq
  desc : Dev.readDesc d.mem (vq.descTableGaddr + 16 * vbuf.id.toUInt64) =
    some ⟨vbuf.guestAddr, vbuf.len, vbuf.flags⟩
  inside : Inside vbuf.guestAddr vbuf.len.toNat
  dev : d' = { d with
    vqs := Function.update d.vqs vqIdx.toNat { vq with availTailIdx := vq.availTailIdx + 1 } }

variable {mem : ByteMem} {vq : VirtQueue} {d d' : Dev} {vqIdx : UInt16} {vbuf : VirtBuf}

/-! ## one call -/

theorem toNat_descAddr (h : QueueOk vq) (id : UInt16) :
    (vq.descTableGaddr + 16 * id.toUInt64).toNat = descAddr vq id.toNat := by
  have hid := id.toNat_lt
  have hoff : (16 * id.toUInt64).toNat = 16 * id.toNat := by
    rw [UInt64.toNat_mul, UInt16.toNat_toUInt64]
    exact Nat.mod_eq_of_lt (show 16 * id.toNat < 2 ^ 64 by omega)
  rw [h.desc.toNat_add (by rw [hoff]; omega), hoff, descAddr]

theorem inTable_iff (h : QueueOk vq) (id : UInt16) : InTable vq id ↔ id.toNat < vq.size := by
  rw [InTable, toNat_descAddr h, descAddr]
  omega

theorem load_two_lt (mem : ByteMem) (a : Nat) : mem.load a 2 < 65536 := by
  have hself := ByteMem.store_load mem a 2
  have hload := ByteMem.load_store_self mem a 2 (mem.load a 2)
  rw [hself] at hload
  rw [hload]
  exact Nat.mod_lt _ (by decide)

/-- What the checks of `get_buf` say about the buffer they let through. -/
theorem bufAt_eq_some {i : Nat} {uninit : UInt32} (h : QueueOk vq) (hi : i < vq.size)
    (hbuf : Dev.bufAt mem vq (UInt16.ofNat i) uninit = some vbuf) :
    vbuf.id.toNat = mem.load (ringAddr vq i) 2 ∧ vbuf.id.toNat ≤ vq.size ∧
    Dev.readDesc mem (vq.descTableGaddr + 16 * vbuf.id.toUInt64) =
      some ⟨vbuf.guestAddr, vbuf.len, vbuf.flags⟩ ∧
    Inside vbuf.guestAddr vbuf.len.toNat := by
  rw [Dev.bufAt, readX16_ring h hi] at hbuf
  dsimp only at hbuf
  split at hbuf
  next => contradiction
  next hle =>
    split at hbuf
    next => contradiction
    next desc hdesc =>
      obtain ⟨hoob, hbuf⟩ := Option.ite_none_left_eq_some.1 hbuf
      rw [Bool.not_eq_true, oob_eq_false_iff, UInt32.toNat_toUInt64] at hoob
      have hid : (UInt16.ofNat (mem.load (ringAddr vq i) 2)).toNat = mem.load (ringAddr vq i) 2 := by
        rw [UInt16.toNat_ofNat']
        exact Nat.mod_eq_of_lt (load_two_lt mem _)
      rw [gt_iff_lt, UInt32.not_lt, UInt32.le_iff_toNat_le, UInt16.toNat_toUInt32] at hle
      cases hbuf
      exact ⟨hid, hle, hdesc, hoob⟩

/-- **A call of `get_buf`** on a queue that may be served. -/
theorem getBuf_taken (hready : d.readyVq vqIdx = some vq) (h : QueueOk vq) (uninit : UInt32) :
    ∃ got d', d.getBuf vqIdx uninit = .ok (got, d') ∧ (got = none → d' = d) ∧
      ∀ vbuf, got = some vbuf → Taken d vqIdx vq vbuf d' ∧ vbuf.id.toNat ≤ vq.size := by
  obtain ⟨-, hvq, -⟩ := readyVq_eq hready
  rw [getBuf_eq hready h]
  split
  next => exact ⟨none, d, rfl, fun _ => rfl, fun _ hnone => by contradiction⟩
  next =>
    split
    next => exact ⟨none, d, rfl, fun _ => rfl, fun _ hnone => by contradiction⟩
    next vbuf hbuf =>
      refine ⟨some vbuf, _, rfl, fun hnone => by contradiction, fun vbuf' hsome => ?_⟩
      cases hsome
      obtain ⟨hid, hle, hdesc, hin⟩ := bufAt_eq_some h (Nat.mod_lt _ h.pos) hbuf
      exact ⟨⟨hvq, hid, hdesc, hin, rfl⟩, hle⟩

/-! ## a queue of two buffers -/

/-- A guest's memory for the queue of `setupWrites`: one entry of the available ring, and
a descriptor at the address it names. -/
def postedMem (entry : UInt8) : ByteMem := fun a =>
  if a = 0x100402 then 1
  else if a = 0x100404 then entry
  -- address 0x110000 and length 64
  else if a = 0x100002 + 16 * entry.toNat then 0x11
  else if a = 0x100008 + 16 * entry.toNat then 64
  else 0

/-- The device that `setupWrites` makes, and the buffer it gets. -/
theorem setupWrites_gets (entry : UInt8) (vbuf : VirtBuf)
    (h : ((exec (fun d a => (Dev.step d a).toOption) (Dev.init 1 0 0 0 (postedMem entry))
      setupWrites).bind fun d => ((d.getBuf 0 0).toOption.bind Prod.fst).map
        (d.readyVq 0, ·)) = some (some (sampleQueue 2), vbuf)) :
    ∃ d d', Run DevStep (Dev.init 1 0 0 0 (postedMem entry)) setupWrites d ∧
      d.readyVq 0 = some (sampleQueue 2) ∧ d.getBuf 0 0 = .ok (some vbuf, d') := by
  obtain ⟨d, hd, hget⟩ := Option.bind_eq_some_iff.1 h
  obtain ⟨vbuf', hvbuf, heq⟩ := Option.map_eq_some_iff.1 hget
  simp only [Prod.mk.injEq] at heq
  obtain ⟨hvq, rfl⟩ := heq
  obtain ⟨⟨got, d'⟩, hok, hgot⟩ := Option.bind_eq_some_iff.1 hvbuf
  cases hgot
  exact ⟨d, d', devRun_of_exec hd, hvq, ok_of_toOption hok⟩

/-! ## every call -/

/-- **`get_buf` and its descriptors.**  In every state of a device, and for every queue
that is ready, a call returns.  If it returns nothing, nothing has changed.  If it
returns a buffer, it read the descriptor that the ring names, the buffer lies inside the
guest's memory, and only the tail index has moved, by one; and the descriptor is one of
the table, with an index below `num_bufs`, exactly if the entry of the ring is not equal
to `num_bufs`. -/
theorem getBuf_validates {numVqs : UInt32} (hpos : 0 < numVqs) (deviceId vendorId : UInt32)
    (deviceFeatures : UInt64) (mem : ByteMem) {acts : List DevAct} {d : Dev}
    (hrun : Run DevStep (Dev.init numVqs deviceId vendorId deviceFeatures mem) acts d)
    {vqIdx : UInt16} {vq : VirtQueue} (hvq : d.readyVq vqIdx = some vq) (uninit : UInt32) :
    ∃ got d', d.getBuf vqIdx uninit = .ok (got, d') ∧ (got = none → d' = d) ∧
      ∀ vbuf, got = some vbuf → Taken d vqIdx vq vbuf d' ∧
        (vbuf.id.toNat < vq.size ∧ InTable vq vbuf.id ↔ nextEntry d.mem vq ≠ vq.size) := by
  have hok : QueueOk vq :=
    ((Ready.init hpos deviceId vendorId deviceFeatures mem).run hrun).1.queueOk hvq
  obtain ⟨got, d', hget, hnone, hsome⟩ := getBuf_taken hvq hok uninit
  refine ⟨got, d', hget, hnone, fun vbuf hgot => ?_⟩
  obtain ⟨htaken, hle⟩ := hsome vbuf hgot
  refine ⟨htaken, ?_⟩
  rw [inTable_iff hok, ← htaken.entry]
  omega

/-- The first descriptor of the table. -/
theorem getBuf_validates_setup : ∃ d d' vbuf,
    Run DevStep (Dev.init 1 0 0 0 (postedMem 0)) setupWrites d ∧
    d.readyVq 0 = some (sampleQueue 2) ∧ d.getBuf 0 0 = .ok (some vbuf, d') ∧
    Taken d 0 (sampleQueue 2) vbuf d' ∧ vbuf.id.toNat < 2 ∧ InTable (sampleQueue 2) vbuf.id := by
  obtain ⟨d, d', hrun, hvq, hget⟩ :=
    setupWrites_gets 0 ⟨0x110000, 64, 0, 0, 0⟩ (by decide +kernel)
  obtain ⟨got, d'', hgot, -, hsome⟩ := getBuf_validates (by decide) 0 0 0 _ hrun hvq 0
  rw [hget] at hgot
  cases hgot
  obtain ⟨htaken, hiff⟩ := hsome _ rfl
  have hentry : nextEntry d.mem (sampleQueue 2) ≠ (sampleQueue 2).size := by
    rw [← htaken.entry]
    decide
  exact ⟨d, d', _, hrun, hvq, hget, htaken, hiff.2 hentry⟩

/-- **The descriptor behind the table**: on a queue of two buffers, an entry of 2 gets the
buffer described by the bytes that follow the table. -/
theorem getBuf_behind_table : ∃ d d',
    Run DevStep (Dev.init 1 0 0 0 (postedMem 2)) setupWrites d ∧
    d.readyVq 0 = some (sampleQueue 2) ∧
    d.getBuf 0 0 = .ok (some ⟨0x110000, 64, 2, 0, 0⟩, d') ∧ ¬ InTable (sampleQueue 2) 2 := by
  obtain ⟨d, d', hrun, hvq, hget⟩ :=
    setupWrites_gets 2 ⟨0x110000, 64, 2, 0, 0⟩ (by decide +kernel)
  exact ⟨d, d', hrun, hvq, hget, by decide⟩

end Ooows.Virtio
