import Ooows.Virtio.AvailRing
import Ooows.Virtio.Ready

/-!
# Ooows.Virtio.Setup

From the driver's set-up of a queue to the buffers that the device takes.

`setup_virtq` posts the buffers in memory and writes two registers, `commit_and_ready_vq`
writes five; the last of these makes the device look at the queue.  What holds of a ready
queue (`Ooows.Virtio.AvailRing`) assumes that both sides use the same rings.
`driver_buffers_served` proves that from the writes: the queue becomes ready exactly if the
device takes its size and its structures lie inside the memory, and then the device takes the
driver's buffers.
-/

namespace Ooows.Virtio

open Lib

/-! ## the driver's writes -/

/-- Writes of four bytes, one after the other, and the queues that `got_data` is called for. -/
def Dev.writes (d : Dev) : List (UInt64 × UInt32) → Except Fault (Dev × List UInt16)
  | [] => .ok (d, [])
  | (offset, data) :: rest => do
      let (d, call) ← d.mmioWrite offset 4 data.toUInt64
      let (d, calls) ← d.writes rest
      return (d, call.toList ++ calls)

/-- What `setup_virtq` writes to the device. -/
def setupVirtqWrites (nbufs : UInt32) (qnum : UInt16) : List (UInt64 × UInt32) :=
  [(0x30, qnum.toUInt32), (0x38, nbufs)]

/-- `commit_and_ready_vq`. -/
def commitAndReadyVq (vqIdx : UInt16) (desc avail used : UInt32) : List (UInt64 × UInt32) :=
  [(0x30, vqIdx.toUInt32), (0x80, desc), (0x90, avail), (0xa0, used), (0x44, 1)]

/-- The number of buffers of a fresh queue after a write to `REG_QUEUE_NUM`: one that is too
large is ignored. -/
def acceptedNum (nbufs : UInt32) : UInt32 := if nbufs.toNat < 32768 then nbufs else 0

/-- The queue as the driver describes it, with its ready bit. -/
def driverQueue (nbufs desc avail used : UInt32) (ready : Bool) : VirtQueue where
  numBufs := nbufs
  ready := ready
  availTailIdx := 0
  queueDescLow := desc
  queueDescHigh := 0
  queueDriverLow := avail
  queueDriverHigh := 0
  queueDeviceLow := used
  queueDeviceHigh := 0
  descTableGaddr := if ready then desc.toUInt64 else 0
  availGaddr := if ready then avail.toUInt64 else 0
  usedGaddr := if ready then used.toUInt64 else 0

variable {d : Dev} {q : UInt16} {vq : VirtQueue} {nbufs desc avail used : UInt32}

/-- **`ready_queue`** checks exactly whether the queue may be served. -/
theorem readied_driverQueue (desc avail used : UInt32) (hlt : nbufs.toNat < 32768) :
    (Dev.readied (driverQueue nbufs desc avail used false) =
        some (driverQueue nbufs desc avail used true) ∧
      QueueOk (driverQueue nbufs desc avail used true)) ∨
    Dev.readied (driverQueue nbufs desc avail used false) = none ∧
      ¬ QueueOk (driverQueue nbufs desc avail used true) := by
  have haddr (low : UInt32) : Dev.address 0 low = low.toUInt64 := by simp [Dev.address]
  cases h : Dev.readied (driverQueue nbufs desc avail used false) with
  | some vq =>
    have hsize : (driverQueue nbufs desc avail used false).size < 32768 := hlt
    have hok := queueOk_readied hsize h
    simp only [Dev.readied, Option.ite_none_left_eq_some, driverQueue, haddr] at h
    obtain ⟨-, -, -, -, heq⟩ := h
    cases heq
    exact .inl ⟨rfl, hok⟩
  | none =>
    refine .inr ⟨rfl, fun hok => ?_⟩
    obtain ⟨hpos, -, hdesc, havail, hused⟩ := hok
    have hne : nbufs ≠ 0 := fun hzero => by simp [VirtQueue.size, driverQueue, hzero] at hpos
    have hdescs : oob desc.toUInt64 (16 * nbufs.toUInt64) = false := by
      rw [oob_eq_false_iff, UInt64.mul_comm, ← UInt64.zero_add (nbufs.toUInt64 * 16),
        toNat_structure_size nbufs (by decide) (by decide)]
      exact (Nat.zero_add _).symm ▸ hdesc
    have havails : oob avail.toUInt64 (4 + nbufs.toUInt64 * 2) = false := by
      rw [oob_eq_false_iff, toNat_structure_size nbufs (by decide) (by decide)]
      exact havail
    have huseds : oob used.toUInt64 (4 + nbufs.toUInt64 * 8) = false := by
      rw [oob_eq_false_iff, toNat_structure_size nbufs (by decide) (by decide)]
      exact hused
    simp [Dev.readied, driverQueue, haddr, hne, hdescs, havails, huseds] at h

/-! ## the device under these writes -/

/-- The device with a queue selected, which is as given. -/
def Dev.atQueue (d : Dev) (q : UInt16) (vq : VirtQueue) : Dev :=
  { d with queueSel := q.toUInt32, vqs := Function.update d.vqs q.toNat vq }

theorem Dev.selected_atQueue (hq : q.toUInt32 < d.numQueues) :
    (d.atQueue q vq).selected = .ok vq := by
  have hsel : (d.atQueue q vq).queueSel < (d.atQueue q vq).numQueues := hq
  rw [Dev.selected, if_pos hsel]
  simp [Dev.atQueue]

theorem Dev.modifySelected_atQueue (hq : q.toUInt32 < d.numQueues)
    (f : VirtQueue → VirtQueue) :
    (d.atQueue q vq).modifySelected f = .ok (d.atQueue q (f vq)) := by
  rw [Dev.modifySelected, Dev.selected_atQueue hq]
  simp [Dev.atQueue, Except.map]

/-- `REG_QUEUE_SELECT`. -/
theorem Dev.write_select (hq : q.toUInt32 < d.numQueues) :
    d.mmioWrite 0x30 4 q.toUInt32.toUInt64 = .ok (d.atQueue q (d.vqs q.toNat), none) := by
  have hlt : q.toUInt64 < d.numQueues.toUInt64 := by
    simpa [UInt64.lt_iff_toNat_lt, UInt32.lt_iff_toNat_lt] using hq
  simp [Dev.mmioWrite, Dev.isConfigSpace, configSpaceStart, Dev.Reg.ofOffset, Dev.atQueue, hlt]

/-- The other registers. -/
theorem Dev.write_atQueue (hq : q.toUInt32 < d.numQueues) (x : UInt32) :
    (vq.numBufs = 0 → vq.ready = false → (d.atQueue q vq).mmioWrite 0x38 4 x.toUInt64 =
      .ok (d.atQueue q { vq with numBufs := acceptedNum x }, none)) ∧
    (d.atQueue q vq).mmioWrite 0x80 4 x.toUInt64 =
      .ok (d.atQueue q { vq with queueDescLow := x }, none) ∧
    (d.atQueue q vq).mmioWrite 0x90 4 x.toUInt64 =
      .ok (d.atQueue q { vq with queueDriverLow := x }, none) ∧
    (d.atQueue q vq).mmioWrite 0xa0 4 x.toUInt64 =
      .ok (d.atQueue q { vq with queueDeviceLow := x }, none) := by
  refine ⟨fun hzero hready => ?_, ?_, ?_, ?_⟩
  · have hmax : x.toUInt64 < maxVqSize ↔ x.toNat < 32768 := by
      simp [UInt64.lt_iff_toNat_lt, maxVqSize]
    by_cases hlt : x.toNat < 32768
    · simp [Dev.mmioWrite, Dev.isConfigSpace, configSpaceStart, Dev.Reg.ofOffset, acceptedNum,
        Dev.modifySelected_atQueue hq, Except.map, hmax, hlt, hready]
    · have hsame : { vq with numBufs := acceptedNum x } = vq := by
        rw [acceptedNum, if_neg hlt, ← hzero]
      rw [hsame]
      simp [Dev.mmioWrite, Dev.isConfigSpace, configSpaceStart, Dev.Reg.ofOffset, hmax, hlt]
  all_goals simp [Dev.mmioWrite, Dev.isConfigSpace, configSpaceStart, Dev.Reg.ofOffset,
    Dev.modifySelected_atQueue hq, Except.map]

/-- `REG_QUEUE_READY`. -/
theorem Dev.write_ready (hq : q.toUInt32 < d.numQueues) :
    (d.atQueue q vq).mmioWrite 0x44 4 (1 : UInt32).toUInt64 = .ok (match Dev.readied vq with
      | some vq => (d.atQueue q vq, some q)
      | none => (d.atQueue q vq, none)) := by
  simp [Dev.mmioWrite, Dev.isConfigSpace, configSpaceStart, Dev.Reg.ofOffset,
    Dev.readyQueue, Dev.selected_atQueue hq, Except.map]
  cases Dev.readied vq with
  | none => rfl
  | some vq => simp [Dev.atQueue]

theorem Dev.write_select_atQueue (hq : q.toUInt32 < d.numQueues) :
    (d.atQueue q vq).mmioWrite 0x30 4 q.toUInt32.toUInt64 = .ok (d.atQueue q vq, none) := by
  rw [Dev.write_select (show q.toUInt32 < (d.atQueue q vq).numQueues from hq)]
  simp [Dev.atQueue]

/-- **All writes for a queue** that nobody has used. -/
theorem Dev.writes_setup (nbufs desc avail used : UInt32) (hq : q.toUInt32 < d.numQueues)
    (hfresh : d.vqs q.toNat = .init) :
    d.writes (setupVirtqWrites nbufs q ++ commitAndReadyVq q desc avail used) =
      .ok (match Dev.readied (driverQueue (acceptedNum nbufs) desc avail used false) with
        | some vq => (d.atQueue q vq, [q])
        | none => (d.atQueue q (driverQueue (acceptedNum nbufs) desc avail used false), [])) := by
  have hzero : VirtQueue.init.numBufs = 0 := rfl
  have hready : VirtQueue.init.ready = false := rfl
  simp only [setupVirtqWrites, commitAndReadyVq, List.cons_append, List.nil_append, Dev.writes,
    Dev.write_select hq, hfresh, (Dev.write_atQueue hq nbufs).1 hzero hready,
    Dev.write_select_atQueue hq, (Dev.write_atQueue hq desc).2.1,
    (Dev.write_atQueue hq avail).2.2.1, (Dev.write_atQueue hq used).2.2.2, Dev.write_ready hq,
    bind, Except.bind, pure, Except.pure]
  cases hvq : Dev.readied (driverQueue (acceptedNum nbufs) desc avail used false) with
  | none => simp_all [driverQueue, VirtQueue.init]
  | some vq => simp_all [driverQueue, VirtQueue.init]

/-! ## what the device takes -/

/-- Taking buffers one after the other. -/
theorem Fifo.drain {s : Link} (hok : QueueOk vq) (h : Fifo q vq s) (uninit : UInt32) (m : Nat) :
    ∃ u, Run (LinkStep q vq) s (List.replicate m (.get uninit)) u ∧ Fifo q vq u ∧
      u.posted = s.posted ∧ u.got = s.posted.take (s.got.length + m) := by
  induction m with
  | zero => exact ⟨s, .refl, h, rfl, List.prefix_iff_eq_take.1 h.inOrder⟩
  | succ m ih =>
    obtain ⟨t, hrun, ht, hposted, hgot⟩ := ih
    obtain ⟨u, hstep, hu, hposted', hgot'⟩ := ht.get hok uninit
    refine ⟨u, ?_, hu, hposted'.trans hposted, ?_⟩
    · rw [List.replicate_succ']
      exact hrun.tail hstep
    · rw [hgot', hposted, hgot, List.length_take]
      rcases Nat.le_total (s.got.length + m) s.posted.length with hle | hle
      · rw [Nat.min_eq_left hle, Nat.add_assoc]
      · rw [Nat.min_eq_right hle, List.take_of_length_le (by omega),
          List.take_of_length_le (by omega)]

/-- Posting buffers before any is taken. -/
theorem Fifo.adds_first {s t : Link} {bufSz : UInt32} {acts : List LinkAct} (hok : QueueOk vq)
    (hapart : Apart vq) (hrun : Run (LinkStep q vq) s acts t)
    (hadds : ∀ a ∈ acts, ∃ buf, a = .add buf bufSz) (hs : Fifo q vq s) (hgot : s.got = []) :
    Fifo q vq t ∧ t.got = [] := by
  induction hrun with
  | refl => exact ⟨hs, hgot⟩
  | @tail t u acts a _ hstep ih =>
    obtain ⟨ht, hnone⟩ := ih fun a ha => hadds a (List.mem_append_left _ ha)
    obtain ⟨buf, rfl⟩ := hadds a (by simp)
    -- at most `vq.size` buffers are outstanding, so the counter has not wrapped
    have hlt : t.posted.length < 65536 := by
      have hbound := ht.linked.bound
      have hsize := hok.lt
      rw [hnone, List.length_nil] at hbound
      omega
    refine ⟨ht.step hok hapart ⟨postSafe_of_lt hlt hstep, hstep⟩, ?_⟩
    obtain ⟨-, hu⟩ := Option.ite_none_right_eq_some.1 hstep
    rw [← Option.some.inj hu]
    exact hnone

/-- The link after `setup_virtq`. -/
theorem Fifo.of_setupVirtq {mem : ByteMem} {bufSz : UInt32} {bufs : List UInt64}
    (hok : QueueOk vq) (hapart : Apart vq) (hready : d.readyVq q = some vq)
    (htail : vq.availTailIdx = 0) (hmem : d.mem = setupVirtq vq bufSz 0 bufs mem)
    (hidx : availIdx mem vq = 0) (hlen : bufs.length ≤ vq.size)
    (hin : ∀ buf ∈ bufs, Inside buf bufSz.toNat) :
    Fifo q vq ⟨d, bufs.map (·, bufSz), []⟩ := by
  have hstart : Fifo q vq ⟨{ d with mem := mem }, [], []⟩ := .start hready hidx htail
  obtain ⟨⟨dev, posted, got⟩, hrun, hdev, hposted, hgot⟩ :=
    @run_setupVirtq q vq { d with mem := mem } bufSz bufs hok hapart hidx hlen hin
  have hadds : ∀ a ∈ bufs.map (LinkAct.add · bufSz), ∃ buf, a = .add buf bufSz := by
    intro a ha
    obtain ⟨buf, -, rfl⟩ := List.mem_map.1 ha
    exact ⟨buf, rfl⟩
  have hfifo := (hstart.adds_first hok hapart hrun hadds rfl).1
  have hd : dev = d := hdev.trans (by rw [← hmem])
  subst hd hposted hgot
  exact hfifo

/-- **`ready_queue`** makes the queue ready exactly if it may be served. -/
theorem readied_acceptedNum (nbufs desc avail used : UInt32) :
    (Dev.readied (driverQueue (acceptedNum nbufs) desc avail used false) =
        some (driverQueue nbufs desc avail used true) ∧
      QueueOk (driverQueue nbufs desc avail used true)) ∨
    Dev.readied (driverQueue (acceptedNum nbufs) desc avail used false) = none ∧
      ¬ QueueOk (driverQueue nbufs desc avail used true) := by
  unfold acceptedNum
  split
  next hlt => exact readied_driverQueue desc avail used hlt
  next hge =>
    -- the number stays 0, and `ready_queue` refuses that
    refine .inr ⟨?_, fun hok => hge hok.lt⟩
    simp [Dev.readied, driverQueue]

/-- **The driver's buffers are served.**  Whatever addresses and sizes the driver chooses for
a queue that nobody has used, its writes change no other queue, and `got_data` is called,
once and for this queue, if and only if the queue has at least one and less than 32768 buffers
and its structures lie inside the memory; otherwise it does not become ready.  If it does, its
structures are apart and the driver has posted buffers inside the memory from a fresh ring on,
then the first `m` buffers that the device takes are the first `m` that the driver has posted. -/
theorem driver_buffers_served (nbufs desc avail used : UInt32) (hq : q.toUInt32 < d.numQueues)
    (hfresh : d.vqs q.toNat = .init) :
    ∃ d' calls, d.writes (setupVirtqWrites nbufs q ++ commitAndReadyVq q desc avail used) =
        .ok (d', calls) ∧
      (∀ i, i ≠ q.toNat → d'.vqs i = d.vqs i) ∧
      ((calls = [q] ∧ QueueOk (driverQueue nbufs desc avail used true) ∧
          ∀ (mem : ByteMem) (bufSz : UInt32) (bufs : List UInt64), bufs.length ≤ nbufs.toNat →
            Apart (driverQueue nbufs desc avail used true) →
            availIdx mem (driverQueue nbufs desc avail used true) = 0 →
            d.mem = setupVirtq (driverQueue nbufs desc avail used true) bufSz 0 bufs mem →
            (∀ buf ∈ bufs, Inside buf bufSz.toNat) → ∀ uninit m,
            ∃ u, Run (LinkStep q (driverQueue nbufs desc avail used true))
              ⟨d', bufs.map (·, bufSz), []⟩ (List.replicate m (.get uninit)) u ∧
              u.got = (bufs.map (·, bufSz)).take m) ∨
        (calls = [] ∧ ¬ QueueOk (driverQueue nbufs desc avail used true) ∧
          d'.readyVq q = none)) := by
  have hwrites := Dev.writes_setup nbufs desc avail used hq hfresh
  have hother (vq : VirtQueue) : ∀ i, i ≠ q.toNat → (d.atQueue q vq).vqs i = d.vqs i :=
    fun i hi => Function.update_of_ne hi _ _
  have hreadyVq (vq : VirtQueue) :
      (d.atQueue q vq).readyVq q = if vq.ready then some vq else none := by
    have hge : ¬ q.toUInt32 ≥ (d.atQueue q vq).numQueues := UInt32.not_le.2 hq
    rw [Dev.readyVq, if_neg hge]
    simp [Dev.atQueue]
  rcases readied_acceptedNum nbufs desc avail used with ⟨hvq, hok⟩ | ⟨hvq, hbad⟩
  · rw [hvq] at hwrites
    refine ⟨_, _, hwrites, hother _, .inl ⟨rfl, hok, ?_⟩⟩
    intro mem bufSz bufs hlen hapart hidx hmem hin uninit m
    have hready := hreadyVq (driverQueue nbufs desc avail used true)
    have hfifo := Fifo.of_setupVirtq hok hapart hready rfl hmem hidx hlen hin
    obtain ⟨u, hrun, -, -, hgot⟩ := hfifo.drain hok uninit m
    exact ⟨u, hrun, by simpa using hgot⟩
  · rw [hvq] at hwrites
    exact ⟨_, _, hwrites, hother _, .inr ⟨rfl, hbad, hreadyVq _⟩⟩

/-- A driver with two buffers. -/
theorem two_buffers_served : ∃ d' u,
    (Dev.init 1 0 0 0 (setupVirtq (driverQueue 2 0x100000 0x100400 0x100800 true) 0x100 0
      [0x101000, 0x101800] fun _ => 0)).writes
        (setupVirtqWrites 2 0 ++ commitAndReadyVq 0 0x100000 0x100400 0x100800) = .ok (d', [0]) ∧
    Run (LinkStep 0 (driverQueue 2 0x100000 0x100400 0x100800 true))
      ⟨d', [(0x101000, 0x100), (0x101800, 0x100)], []⟩ (List.replicate 3 (.get 0)) u ∧
    u.got = [(0x101000, 0x100), (0x101800, 0x100)] := by
  obtain ⟨d', calls, hwrites, -, ⟨rfl, -, hserved⟩ | ⟨-, hbad, -⟩⟩ :=
    @driver_buffers_served (Dev.init 1 0 0 0 (setupVirtq (driverQueue 2 0x100000 0x100400 0x100800
      true) 0x100 0 [0x101000, 0x101800] fun _ => 0)) 0 2 0x100000 0x100400 0x100800 (by decide) rfl
  · obtain ⟨u, hrun, hgot⟩ := hserved (fun _ => 0) 0x100 [0x101000, 0x101800] (by decide)
      (by decide) (by decide) rfl
      (List.forall_mem_cons.2 ⟨by decide, List.forall_mem_singleton.2 (by decide)⟩) 0 3
    exact ⟨d', u, hwrites, hrun, hgot⟩
  · exact absurd ⟨by decide, by decide, by decide, by decide, by decide⟩ hbad

end Ooows.Virtio
