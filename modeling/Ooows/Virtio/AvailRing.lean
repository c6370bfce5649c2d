import Ooows.Lib.CellQueue
import Ooows.Lib.Run
import Ooows.Virtio.Driver

/-!
# Ooows.Virtio.AvailRing

The available ring between driver and device, over whole runs.

`Link` is the pair of them with what was posted and what was handed out.  It refines the
queue of `Lib.CellQueue` whose cells are the ring's entries and whose slots are
`k % 65536 % n`: `add_buf` adds an entry, `get_buf` takes one (`Linked.add`, `Linked.get`).

Both sides count modulo 65536 and then reduce modulo `n`.  Where `n` does not divide
65536, the slot jumps when the counter wraps: the entry number 65536 goes to slot 0, which
may still hold an entry that was not taken.  So the link is first in, first out in every
run if and only if `n` divides 65536, and in general as long as no outstanding entry is
overwritten by another one (`PostSafe`).
-/

namespace Ooows.Virtio

open Lib

/-- A driver and a device on one queue. -/
structure Link where
  dev : Dev
  /-- Address and length of the buffers that the driver posted, oldest first. -/
  posted : List (UInt64 × UInt32)
  /-- Address and length of the buffers that `get_buf` handed out, oldest first. -/
  got : List (UInt64 × UInt32)

inductive LinkAct
  | add (buf : UInt64) (len : UInt32)
  | get (uninit : UInt32)
  /-- Driver or device store bytes outside the descriptor table and the available ring. -/
  | store (addr : Nat) (bytes : List UInt8)

/-- A block lies outside the descriptor table and the available ring. -/
def OutsideAvail (vq : VirtQueue) (addr len : Nat) : Prop :=
  (addr + len ≤ vq.descTableGaddr.toNat ∨ descAddr vq vq.size ≤ addr) ∧
    (addr + len ≤ vq.availGaddr.toNat ∨ ringAddr vq vq.size ≤ addr)

instance (vq : VirtQueue) (addr len : Nat) : Decidable (OutsideAvail vq addr len) :=
  inferInstanceAs (Decidable (_ ∧ _))

/-- The slot of the `k`-th posted buffer. -/
def availSlot (vq : VirtQueue) : Nat → Nat := CellQueue.wrapSlot 65536 vq.size

/-- The link as a queue in a store of cells. -/
def Link.queue (vq : VirtQueue) (s : Link) : CellQueue (UInt64 × UInt32) where
  cells := cell s.dev.mem vq
  posted := s.posted
  got := s.got

section

variable (vqIdx : UInt16) (vq : VirtQueue)

/-- One step on the queue with index `vqIdx`, whose rings are those of `vq`.  A buffer is
posted only if fewer than `n` are outstanding and it lies inside the guest's memory. -/
def Link.step (s : Link) : LinkAct → Option Link
  | .add buf len =>
    if s.posted.length < s.got.length + vq.size ∧ Inside buf len.toNat then
      some { s with
        dev := { s.dev with mem := addBuf s.dev.mem vq buf len }
        posted := s.posted ++ [(buf, len)] }
    else none
  | .get uninit => match s.dev.getBuf vqIdx uninit with
      | .ok (some vbuf, d) => some { s with dev := d, got := s.got ++ [(vbuf.guestAddr, vbuf.len)] }
      | .ok (none, d) => some { s with dev := d }
      | .error _ => none
  | .store addr bytes =>
    if OutsideAvail vq addr bytes.length then
      some { s with dev := { s.dev with mem := s.dev.mem.writeBytes addr bytes } }
    else none

/-- A step that overwrites no outstanding entry: every outstanding buffer in the slot of
the new one has its address and its length. -/
def PostSafe (s : Link) : LinkAct → Prop
  | .add buf len => (s.queue vq).Fresh (availSlot vq) (buf, len)
  | _ => True

instance (s : Link) : (a : LinkAct) → Decidable (PostSafe vq s a)
  | .add _ _ => inferInstanceAs (Decidable (CellQueue.Fresh _ _ _))
  | .get _ => isTrue trivial
  | .store _ _ => isTrue trivial

/-- **What holds in every run**: both indices count, at most `n` buffers are outstanding,
and the entry of every outstanding one holds some buffer that was posted. -/
structure Linked (s : Link) : Prop where
  ready : s.dev.readyVq vqIdx = some { vq with availTailIdx := UInt16.ofNat s.got.length }
  idx : availIdx s.dev.mem vq = s.posted.length % 65536
  le : s.got.length ≤ s.posted.length
  bound : s.posted.length ≤ s.got.length + vq.size
  inside : ∀ p ∈ s.posted, Inside p.1 p.2.toNat
  filled : ∀ j, s.got.length ≤ j → j < s.posted.length →
    ∃ p ∈ s.posted, cell s.dev.mem vq (availSlot vq j) = some p

end

variable {vqIdx : UInt16} {vq : VirtQueue} {s t u : Link} {buf : UInt64} {len : UInt32}

theorem availSlot_lt (hok : QueueOk vq) (k : Nat) : availSlot vq k < vq.size :=
  CellQueue.wrapSlot_lt hok.pos k

/-! ## one step -/

/-- **`add_buf` adds an entry.** -/
theorem Linked.add (hok : QueueOk vq) (hapart : Apart vq) (h : Linked vqIdx vq s)
    (hstep : s.step vqIdx vq (.add buf len) = some t) :
    Linked vqIdx vq t ∧ t.queue vq = (s.queue vq).push (availSlot vq) (buf, len) := by
  obtain ⟨⟨hroom, hin⟩, hstep⟩ := Option.ite_none_right_eq_some.1 hstep
  cases hstep
  have hslot : availIdx s.dev.mem vq % vq.size = availSlot vq s.posted.length := by
    rw [h.idx]
    rfl
  have hlt : availSlot vq s.posted.length < vq.size := availSlot_lt hok _
  have hcell : cell (addBuf s.dev.mem vq buf len) vq =
      Function.update (cell s.dev.mem vq) (availSlot vq s.posted.length) (some (buf, len)) := by
    rw [addBuf, hslot, cell_postAt hok hapart hlt]
  have hidx : availIdx (addBuf s.dev.mem vq buf len) vq = (s.posted.length + 1) % 65536 := by
    rw [addBuf, hslot, availIdx_postAt hapart hlt, h.idx]
    omega
  refine ⟨⟨h.ready, ?_, ?_, ?_, ?_, ?_⟩, ?_⟩
  · rw [hidx, List.length_append, List.length_singleton]
  · have hle := h.le
    rw [List.length_append, List.length_singleton]
    dsimp only
    omega
  · rw [List.length_append, List.length_singleton]
    exact hroom
  · intro p hp
    rcases List.mem_append.1 hp with hold | hnew
    · exact h.inside p hold
    · cases List.mem_singleton.1 hnew
      exact hin
  · intro j hj hj'
    dsimp only
    rw [hcell]
    by_cases heq : availSlot vq j = availSlot vq s.posted.length
    · rw [heq, Function.update_self]
      exact ⟨_, List.mem_append_right _ (List.mem_singleton_self _), rfl⟩
    · rw [List.length_append, List.length_singleton] at hj'
      have hne : j ≠ s.posted.length := fun hjk => heq (by rw [hjk])
      obtain ⟨p, hp, hold⟩ := h.filled j hj (by omega)
      exact ⟨p, List.mem_append_left _ hp, by rw [Function.update_of_ne heq, hold]⟩
  · unfold Link.queue CellQueue.push
    dsimp only
    rw [hcell]

/-- The link after `get_buf` handed out a buffer. -/
def Link.take (vqIdx : UInt16) (vq : VirtQueue) (s : Link) (p : UInt64 × UInt32) : Link where
  dev := s.dev.taken vqIdx { vq with availTailIdx := UInt16.ofNat s.got.length }
  posted := s.posted
  got := s.got ++ [p]

variable {p : UInt64 × UInt32}

theorem Linked.take (h : Linked vqIdx vq s)
    (hlt : s.got.length < s.posted.length) : Linked vqIdx vq (s.take vqIdx vq p) := by
  have hlen : (s.take vqIdx vq p).got.length = s.got.length + 1 := List.length_append
  have hbound := h.bound
  refine ⟨?_, h.idx, ?_, ?_, h.inside, ?_⟩
  · rw [hlen, UInt16.ofNat_add]
    exact readyVq_taken h.ready
  · rw [hlen]
    exact hlt
  · have hposted : (s.take vqIdx vq p).posted.length = s.posted.length := rfl
    rw [hlen, hposted]
    omega
  · intro j hj
    rw [hlen] at hj
    exact h.filled j (by omega)

/-- **`get_buf` takes an entry**, and returns nothing only if there is none. -/
theorem Linked.get (hok : QueueOk vq) (h : Linked vqIdx vq s) (uninit : UInt32) :
    ∃ t, s.step vqIdx vq (.get uninit) = some t ∧ Linked vqIdx vq t ∧
      (s.got.length = s.posted.length ∧ t = s ∨
        (s.queue vq).pop (availSlot vq) = some (t.queue vq)) := by
  have hget := getBuf_moveTail h.ready hok uninit
  have hle := h.le
  have hbound := h.bound
  have hlt := hok.lt
  -- at most `n` buffers are outstanding, so equal indices mean equal counts
  have hempty : UInt16.ofNat (availIdx s.dev.mem vq) = UInt16.ofNat s.got.length ↔
      s.got.length = s.posted.length := by
    rw [h.idx, ← UInt16.toNat_inj, UInt16.toNat_ofNat', UInt16.toNat_ofNat']
    omega
  have hslot : (UInt16.ofNat s.got.length).toNat % vq.size = availSlot vq s.got.length := by
    rw [UInt16.toNat_ofNat']
    rfl
  by_cases hnone : s.got.length = s.posted.length
  · rw [if_pos (hempty.2 hnone)] at hget
    refine ⟨s, ?_, h, .inl ⟨hnone, rfl⟩⟩
    unfold Link.step
    dsimp only
    rw [hget]
  · obtain ⟨⟨buf, len⟩, hp, hcell⟩ := h.filled s.got.length (Nat.le_refl _) (by omega)
    obtain ⟨flags, hbuf⟩ := bufAt_of_cell hok hcell (h.inside _ hp) uninit
    rw [if_neg (fun heq => hnone (hempty.1 heq)), hslot, hbuf] at hget
    refine ⟨s.take vqIdx vq (buf, len), ?_, h.take (by omega), .inr ?_⟩
    · unfold Link.step
      dsimp only
      rw [hget]
      rfl
    · exact CellQueue.pop_eq_some_iff.2 ⟨Nat.lt_of_le_of_ne hle hnone, _, hcell, rfl⟩

/-- Stores outside both structures do not matter. -/
theorem Linked.store {addr : Nat} {bytes : List UInt8} (h : Linked vqIdx vq s)
    (hstep : s.step vqIdx vq (.store addr bytes) = some t) :
    Linked vqIdx vq t ∧ t.queue vq = s.queue vq := by
  obtain ⟨⟨hdesc, hring⟩, hstep⟩ := Option.ite_none_right_eq_some.1 hstep
  cases hstep
  have hcell : cell (s.dev.mem.writeBytes addr bytes) vq = cell s.dev.mem vq := by
    funext i
    by_cases hi : i < vq.size
    · refine cell_congr (fun x hlo hhi => ByteMem.writeBytes_outside ?_)
        fun x hlo hhi => ByteMem.writeBytes_outside ?_
      all_goals
        unfold descAddr ringAddr at *
        omega
    · rw [cell_of_ge (Nat.not_lt.1 hi), cell_of_ge (Nat.not_lt.1 hi)]
  have hidx : availIdx (s.dev.mem.writeBytes addr bytes) vq = availIdx s.dev.mem vq := by
    refine ByteMem.load_congr fun x hlo hhi => ByteMem.writeBytes_outside ?_
    unfold ringAddr at hring
    omega
  refine ⟨⟨h.ready, hidx.trans h.idx, h.le, h.bound, h.inside, ?_⟩, ?_⟩
  · dsimp only
    rw [hcell]
    exact h.filled
  · unfold Link.queue
    dsimp only
    rw [hcell]

/-! ## runs -/

/-- The relation of `Link.step`. -/
abbrev LinkStep (vqIdx : UInt16) (vq : VirtQueue) (s : Link) (a : LinkAct) (t : Link) : Prop :=
  s.step vqIdx vq a = some t

variable {d : Dev}

theorem Linked.start (hready : d.readyVq vqIdx = some vq)
    (hidx : availIdx d.mem vq = 0) (htail : vq.availTailIdx = 0) :
    Linked vqIdx vq ⟨d, [], []⟩ := by
  refine ⟨?_, hidx, Nat.le_refl 0, Nat.zero_le _, fun p hp => (nomatch hp),
    fun j _ hj => (nomatch hj)⟩
  rw [hready]
  show some vq = some { vq with availTailIdx := 0 }
  rw [← htail]

/-- No outstanding entry was overwritten, and what was handed out is what was posted. -/
structure Fifo (vqIdx : UInt16) (vq : VirtQueue) (s : Link) : Prop where
  linked : Linked vqIdx vq s
  intact : (s.queue vq).Intact (availSlot vq)
  inOrder : (s.queue vq).InOrder

theorem Fifo.start (hready : d.readyVq vqIdx = some vq)
    (hidx : availIdx d.mem vq = 0) (htail : vq.availTailIdx = 0) : Fifo vqIdx vq ⟨d, [], []⟩ :=
  ⟨.start hready hidx htail, fun _ _ _ hx => (nomatch hx), List.nil_prefix⟩

/-- `get_buf` hands out the next buffer. -/
theorem Fifo.get (hok : QueueOk vq) (h : Fifo vqIdx vq s) (uninit : UInt32) :
    ∃ t, s.step vqIdx vq (.get uninit) = some t ∧ Fifo vqIdx vq t ∧
      t.posted = s.posted ∧ t.got = s.posted.take (s.got.length + 1) := by
  obtain ⟨t, hstep, hlinked, ⟨hnone, rfl⟩ | hpop⟩ := h.linked.get hok uninit
  · refine ⟨t, hstep, h, rfl, ?_⟩
    rw [List.take_of_length_le (by omega)]
    exact List.IsPrefix.eq_of_length h.inOrder hnone
  · exact ⟨t, hstep, ⟨hlinked, h.intact.pop hpop, h.intact.inOrder_pop h.inOrder hpop⟩,
      CellQueue.posted_pop hpop, h.intact.got_pop h.inOrder hpop⟩

variable {a : LinkAct}

theorem Fifo.step (hok : QueueOk vq) (hapart : Apart vq) (h : Fifo vqIdx vq s)
    (hstep : Guarded (PostSafe vq) (LinkStep vqIdx vq) s a t) : Fifo vqIdx vq t := by
  obtain ⟨hsafe, hstep⟩ := hstep
  cases a with
  | add buf len =>
    obtain ⟨hlinked, hpush⟩ := h.linked.add hok hapart hstep
    refine ⟨hlinked, ?_, ?_⟩
    · rw [hpush]
      exact h.intact.push_iff.2 hsafe
    · rw [hpush]
      exact h.inOrder.push
  | get uninit =>
    obtain ⟨t', hstep', hfifo, -⟩ := h.get hok uninit
    obtain rfl : t' = t := Option.some.inj (hstep'.symm.trans hstep)
    exact hfifo
  | store addr bytes =>
    obtain ⟨hlinked, hsame⟩ := h.linked.store hstep
    exact ⟨hlinked, hsame ▸ h.intact, hsame ▸ h.inOrder⟩

/-- **Draining the link** hands out what its cells hold. -/
theorem Linked.drain (hok : QueueOk vq) (uninit : UInt32) {m : Nat} (h : Linked vqIdx vq s)
    (hm : s.got.length + m = s.posted.length) :
    ∃ u, Run (LinkStep vqIdx vq) s (List.replicate m (.get uninit)) u ∧
      u.posted = s.posted ∧ u.got.map some = (s.queue vq).view (availSlot vq) := by
  induction m generalizing s with
  | zero =>
    have hall : (s.queue vq).got.length = (s.queue vq).posted.length := hm
    exact ⟨s, .refl, rfl, (CellQueue.view_of_length_eq hall).symm⟩
  | succ m ih =>
    obtain ⟨t, hstep, hlinked, ⟨hnone, -⟩ | hpop⟩ := h.get hok uninit
    · omega
    · have hgot : t.got.length = s.got.length + 1 := CellQueue.length_got_pop hpop
      have hposted : t.posted = s.posted := CellQueue.posted_pop hpop
      have hlen : t.got.length + m = t.posted.length := by
        rw [hgot, hposted]
        omega
      obtain ⟨u, hrun, hu, hview⟩ := ih hlinked hlen
      refine ⟨u, (Run.single hstep).append hrun, hu.trans hposted, ?_⟩
      rw [hview, CellQueue.view_pop hpop]

/-- **A buffer is posted safely** exactly if draining the link afterwards hands out what was
posted. -/
theorem Fifo.add_iff (hok : QueueOk vq) (hapart : Apart vq) (h : Fifo vqIdx vq s)
    (uninit : UInt32) (hstep : LinkStep vqIdx vq s (.add buf len) t) :
    (∃ u, Run (LinkStep vqIdx vq) t
      (List.replicate (t.posted.length - t.got.length) (.get uninit)) u ∧ u.got = u.posted) ↔
        PostSafe vq s (.add buf len) := by
  obtain ⟨hlinked, hpush⟩ := h.linked.add hok hapart hstep
  have horder : (t.queue vq).InOrder := hpush ▸ h.inOrder.push
  have hintact : (t.queue vq).Intact (availSlot vq) ↔ PostSafe vq s (.add buf len) := by
    rw [hpush]
    exact h.intact.push_iff
  have hle := hlinked.le
  obtain ⟨u, hrun, hposted, hgot⟩ := hlinked.drain hok uninit (Nat.add_sub_of_le hle)
  have hall : u.got = u.posted ↔ PostSafe vq s (.add buf len) := by
    rw [← hintact, ← CellQueue.view_eq_iff horder, ← hgot, hposted]
    exact (List.map_inj_right fun _ _ => Option.some.inj).symm
  constructor
  · rintro ⟨u', hrun', heq⟩
    obtain rfl : u = u' := hrun.unique hrun'
    exact hall.1 heq
  · intro hsafe
    exact ⟨u, hrun, hall.2 hsafe⟩

theorem run_addBufs (bufSz : UInt32) (bufs : List UInt64) (s : Link)
    (hroom : s.posted.length + bufs.length ≤ s.got.length + vq.size)
    (hin : ∀ buf ∈ bufs, Inside buf bufSz.toNat) :
    ∃ t, Run (LinkStep vqIdx vq) s (bufs.map fun buf => .add buf bufSz) t ∧
      t.dev = { s.dev with mem := bufs.foldl (fun mem buf => addBuf mem vq buf bufSz) s.dev.mem } ∧
      t.posted = s.posted ++ bufs.map (fun buf => (buf, bufSz)) ∧ t.got = s.got := by
  induction bufs generalizing s with
  | nil => exact ⟨s, .refl, rfl, (List.append_nil _).symm, rfl⟩
  | cons buf bufs ih =>
    rw [List.length_cons] at hroom
    have hstep : s.step vqIdx vq (.add buf bufSz) = some _ :=
      if_pos ⟨by omega, hin buf List.mem_cons_self⟩
    obtain ⟨t, hrun, hdev, hposted, hgot⟩ := ih
      { s with dev := { s.dev with mem := addBuf s.dev.mem vq buf bufSz }
               posted := s.posted ++ [(buf, bufSz)] }
      (by rw [List.length_append, List.length_singleton]; dsimp only; omega)
      fun buf' hmem => hin buf' (List.mem_cons_of_mem _ hmem)
    refine ⟨t, (Run.single hstep).append hrun, hdev, ?_, hgot⟩
    rw [hposted, List.append_assoc]
    rfl

/-- **`setup_virtq` is a run**, so what holds of every run holds of the driver's queues. -/
theorem run_setupVirtq {bufSz : UInt32} {bufs : List UInt64} (hok : QueueOk vq)
    (hapart : Apart vq) (hidx : availIdx d.mem vq = 0) (hlen : bufs.length ≤ vq.size)
    (hin : ∀ buf ∈ bufs, Inside buf bufSz.toNat) :
    ∃ t, Run (LinkStep vqIdx vq) ⟨d, [], []⟩ (bufs.map fun buf => .add buf bufSz) t ∧
      t.dev = { d with mem := setupVirtq vq bufSz 0 bufs d.mem } ∧
      t.posted = bufs.map (fun buf => (buf, bufSz)) ∧ t.got = [] := by
  rw [setupVirtq_eq hok hapart bufSz bufs hidx (by omega)]
  exact run_addBufs bufSz bufs ⟨d, [], []⟩ (by simpa using hlen) hin

/-! ## sizes that divide 65536 -/

theorem postSafe_of_slot_ne
    (h : ∀ j, j < s.posted.length → s.posted.length < j + vq.size →
      availSlot vq j ≠ availSlot vq s.posted.length)
    (hstep : LinkStep vqIdx vq s a t) : PostSafe vq s a := by
  cases a with
  | add buf len =>
    obtain ⟨⟨hroom, -⟩, -⟩ := Option.ite_none_right_eq_some.1 hstep
    exact CellQueue.fresh_of_slot_ne hroom h
  | get uninit => trivial
  | store addr bytes => trivial

theorem postSafe_of_dvd (hdvd : vq.size ∣ 65536) (hstep : LinkStep vqIdx vq s a t) :
    PostSafe vq s a :=
  postSafe_of_slot_ne (fun _ hj hlt => CellQueue.wrapSlot_ne_of_dvd hdvd hj hlt) hstep

/-- Before the counter wraps, every size is fine. -/
theorem postSafe_of_lt (hlt : s.posted.length < 65536)
    (hstep : LinkStep vqIdx vq s a t) : PostSafe vq s a :=
  postSafe_of_slot_ne (fun _ hj hjn => CellQueue.wrapSlot_ne_of_lt hlt hj hjn) hstep

theorem run_guarded_of_dvd {acts : List LinkAct} (hdvd : vq.size ∣ 65536)
    (hrun : Run (LinkStep vqIdx vq) s acts t) :
    Run (Guarded (PostSafe vq) (LinkStep vqIdx vq)) s acts t :=
  hrun.mono fun _ _ _ hstep => ⟨postSafe_of_dvd hdvd hstep, hstep⟩

/-! ## the other sizes -/

/-- Post a buffer and take it, `j` times. -/
def rounds (p : UInt64 × UInt32) (j : Nat) : List LinkAct :=
  (List.replicate j [LinkAct.add p.1 p.2, .get 0]).flatten

/-- Posting the same buffer again is safe. -/
theorem Fifo.add_same {k : Nat} (hok : QueueOk vq) (hapart : Apart vq)
    (hin : Inside p.1 p.2.toNat) (h : Fifo vqIdx vq s) (hposted : s.posted = List.replicate k p)
    (hroom : k < s.got.length + vq.size) :
    ∃ t, LinkStep vqIdx vq s (.add p.1 p.2) t ∧ Fifo vqIdx vq t ∧
      t.posted = List.replicate (k + 1) p ∧ t.got = s.got := by
  have hlen : s.posted.length = k := by rw [hposted, List.length_replicate]
  have hsafe : PostSafe vq s (.add p.1 p.2) := by
    intro j hj _ _
    show s.posted[j]? = some p
    have hj' : j < s.posted.length := hj
    rw [hposted, List.getElem?_replicate, if_pos (hlen ▸ hj')]
  have hstep : s.step vqIdx vq (.add p.1 p.2) = some _ := if_pos ⟨hlen ▸ hroom, hin⟩
  refine ⟨_, hstep, h.step hok hapart ⟨hsafe, hstep⟩, ?_, rfl⟩
  rw [List.replicate_succ', ← hposted]

theorem Fifo.rounds (hok : QueueOk vq) (hapart : Apart vq)
    (hin : Inside p.1 p.2.toNat) (h : Fifo vqIdx vq s) (hposted : s.posted = [])
    (hgot : s.got = []) (j : Nat) :
    ∃ t, Run (LinkStep vqIdx vq) s (rounds p j) t ∧ Fifo vqIdx vq t ∧
      t.posted = List.replicate j p ∧ t.got = List.replicate j p := by
  induction j with
  | zero => exact ⟨s, .refl, h, hposted, hgot⟩
  | succ j ih =>
    obtain ⟨t, hrun, ht, hpt, hgt⟩ := ih
    have hlen : t.got.length = j := by rw [hgt, List.length_replicate]
    have hpos := hok.pos
    obtain ⟨u, hadd, hu, hpu, hgu⟩ := ht.add_same hok hapart hin hpt (by omega)
    obtain ⟨v, hget, hv, hpv, hgv⟩ := hu.get hok 0
    refine ⟨v, ?_, hv, hpv.trans hpu, ?_⟩
    · have hacts : Virtio.rounds p (j + 1) = Virtio.rounds p j ++ [.add p.1 p.2] ++ [.get 0] := by
        rw [Virtio.rounds, List.replicate_succ', List.flatten_concat, Virtio.rounds,
          List.append_assoc]
        rfl
      rw [hacts]
      exact (hrun.tail hadd).tail hget
    · rw [hgv, hpu, hgu, hlen, List.take_replicate, Nat.min_self]

theorem Fifo.adds {k : Nat} (hok : QueueOk vq) (hapart : Apart vq)
    (hin : Inside p.1 p.2.toNat) (h : Fifo vqIdx vq s) (hposted : s.posted = List.replicate k p)
    (m : Nat) (hroom : k + m ≤ s.got.length + vq.size) :
    ∃ t, Run (LinkStep vqIdx vq) s (List.replicate m (.add p.1 p.2)) t ∧ Fifo vqIdx vq t ∧
      t.posted = List.replicate (k + m) p ∧ t.got = s.got := by
  induction m with
  | zero => exact ⟨s, .refl, h, hposted, rfl⟩
  | succ m ih =>
    obtain ⟨t, hrun, ht, hpt, hgt⟩ := ih (by omega)
    obtain ⟨u, hadd, hu, hpu, hgu⟩ := ht.add_same hok hapart hin hpt (by rw [hgt]; omega)
    rw [List.replicate_succ']
    exact ⟨u, hrun.tail hadd, hu, hpu, hgu.trans hgt⟩

/-- **An entry that is overtaken.**  If two entries less than `n` apart share a slot, a run
posts the second one while the first is outstanding, and the device gets the second one
in its place. -/
theorem overtaken {p q : UInt64 × UInt32} {j m : Nat} (hok : QueueOk vq)
    (hapart : Apart vq) (hstart : Fifo vqIdx vq ⟨d, [], []⟩) (hp : Inside p.1 p.2.toNat)
    (hq : Inside q.1 q.2.toNat) (hmn : m < vq.size)
    (hslot : availSlot vq j = availSlot vq (j + m)) :
    ∃ s, Run (LinkStep vqIdx vq) ⟨d, [], []⟩
      (rounds p j ++ List.replicate m (.add p.1 p.2) ++ [.add q.1 q.2] ++ [.get 0]) s ∧
      s.posted = List.replicate (j + m) p ++ [q] ∧ s.got = List.replicate j p ++ [q] := by
  obtain ⟨s, hrun, hs, hps, hgs⟩ := hstart.rounds hok hapart hp rfl rfl j
  have hgot : s.got.length = j := by rw [hgs, List.length_replicate]
  obtain ⟨t, hadds, ht, hpt, hgt⟩ := hs.adds hok hapart hp hps m (by omega)
  have hposted : t.posted.length = j + m := by rw [hpt, List.length_replicate]
  have hadd : t.step vqIdx vq (.add q.1 q.2) = some _ := if_pos ⟨by rw [hposted, hgt]; omega, hq⟩
  obtain ⟨hlinked, hpush⟩ := ht.linked.add hok hapart hadd
  obtain ⟨v, hget, -, ⟨hnone, -⟩ | hpop⟩ := hlinked.get hok 0
  · have hle := ht.linked.le
    dsimp only at hnone
    rw [List.length_append, List.length_singleton] at hnone
    omega
  · obtain ⟨-, x, hx, hv⟩ := CellQueue.pop_eq_some_iff.1 hpop
    -- the slot of the entry that is next is the one that was written last
    have hnext : availSlot vq t.got.length = availSlot vq (t.queue vq).posted.length := by
      show _ = availSlot vq t.posted.length
      rw [hgt, hgot, hposted, hslot]
    have hxq : x = q := by
      rw [hpush] at hx
      have hself : ((t.queue vq).push (availSlot vq) q).cells
          (availSlot vq (t.queue vq).posted.length) = some q := CellQueue.cells_push_self
      rw [← hnext] at hself
      exact Option.some.inj (hx.symm.trans hself)
    refine ⟨v, ((hrun.append hadds).tail hadd).tail hget, ?_, ?_⟩
    · have hvp : v.posted = t.posted ++ [q] := congrArg CellQueue.posted hv
      rw [hvp, hpt]
    · have hvg : v.got = t.got ++ [x] := congrArg CellQueue.got hv
      rw [hvg, hgt, hgs, hxq]

theorem not_prefix_of_overtaken {α : Type} {p q : α} {j m : Nat} (hpq : p ≠ q) (hm : 0 < m) :
    ¬ List.replicate j p ++ [q] <+: List.replicate (j + m) p ++ [q] := by
  rw [← List.replicate_append_replicate, List.append_assoc, List.prefix_append_right_inj]
  obtain ⟨k, rfl⟩ : ∃ k, m = k + 1 := ⟨m - 1, by omega⟩
  rw [List.replicate_succ, List.cons_append, List.cons_prefix_cons]
  exact fun hprefix => hpq hprefix.1.symm

/-- **A size that does not divide 65536** has a run in which a buffer is overtaken. -/
theorem exists_overtaken (hok : QueueOk vq) (hapart : Apart vq)
    (hstart : Fifo vqIdx vq ⟨d, [], []⟩) (hdvd : ¬ vq.size ∣ 65536) :
    ∃ acts s, Run (LinkStep vqIdx vq) ⟨d, [], []⟩ acts s ∧ ¬ s.got <+: s.posted := by
  have hm : 0 < 65536 % vq.size :=
    Nat.pos_of_ne_zero fun hzero => hdvd (Nat.dvd_of_mod_eq_zero hzero)
  have hmn : 65536 % vq.size < vq.size := Nat.mod_lt _ hok.pos
  have hle : 65536 % vq.size ≤ 65536 := Nat.mod_le _ _
  -- the last multiple of the size, and the count at which the index wraps
  have hslot : availSlot vq (65536 - 65536 % vq.size) =
      availSlot vq (65536 - 65536 % vq.size + 65536 % vq.size) := by
    rw [Nat.sub_add_cancel hle, availSlot, CellQueue.wrapSlot, CellQueue.wrapSlot, Nat.mod_self,
      Nat.zero_mod, Nat.mod_eq_of_lt (show 65536 - 65536 % vq.size < 65536 by omega)]
    exact Nat.mod_eq_zero_of_dvd (Nat.dvd_sub_mod 65536)
  obtain ⟨s, hrun, hposted, hgot⟩ := overtaken (p := (0x100000, 0)) (q := (0x100001, 0)) hok hapart
    hstart (by decide) (by decide) hmn hslot
  refine ⟨_, s, hrun, ?_⟩
  rw [hposted, hgot]
  exact not_prefix_of_overtaken (by decide) hm

/-- **The available ring is first in, first out**, in every run if and only if the size of
the queue divides 65536.  In general it is as long as buffers are posted safely: then
`get_buf` hands out the next buffer that was posted, and one more buffer is handed out
in its turn, after all others, exactly if it is posted safely. -/
theorem avail_ring_fifo_iff (hready : d.readyVq vqIdx = some vq) (hok : QueueOk vq)
    (hapart : Apart vq) (hidx : availIdx d.mem vq = 0) (htail : vq.availTailIdx = 0) :
    ((∀ acts s, Run (LinkStep vqIdx vq) ⟨d, [], []⟩ acts s → s.got <+: s.posted) ↔
      vq.size ∣ 65536) ∧
    ∀ acts s, Run (Guarded (PostSafe vq) (LinkStep vqIdx vq)) ⟨d, [], []⟩ acts s →
      s.got <+: s.posted ∧
      (∀ uninit, ∃ t, s.step vqIdx vq (.get uninit) = some t ∧
        t.got = s.posted.take (s.got.length + 1)) ∧
      ∀ buf len uninit t, s.step vqIdx vq (.add buf len) = some t →
        ((∃ u, Run (LinkStep vqIdx vq) t
          (List.replicate (t.posted.length - t.got.length) (.get uninit)) u ∧ u.got = u.posted) ↔
            PostSafe vq s (.add buf len)) := by
  have hstart : Fifo vqIdx vq ⟨d, [], []⟩ := .start hready hidx htail
  have hfifo : ∀ acts s, Run (Guarded (PostSafe vq) (LinkStep vqIdx vq)) ⟨d, [], []⟩ acts s →
      Fifo vqIdx vq s := fun acts s hrun =>
    hrun.invariant (fun _ _ _ h hstep => h.step hok hapart hstep) hstart
  refine ⟨⟨fun hall => ?_, fun hdvd acts s hrun => ?_⟩, fun acts s hrun => ?_⟩
  · by_contra hdvd
    obtain ⟨acts, s, hrun, hnot⟩ := exists_overtaken hok hapart hstart hdvd
    exact hnot (hall acts s hrun)
  · exact (hfifo acts s (run_guarded_of_dvd hdvd hrun)).inOrder
  · have h := hfifo acts s hrun
    refine ⟨h.inOrder, fun uninit => ?_, fun buf len uninit t hstep => ?_⟩
    · obtain ⟨t, hstep, -, -, hgot⟩ := h.get hok uninit
      exact ⟨t, hstep, hgot⟩
    · exact h.add_iff hok hapart uninit hstep

/-- A device with one ready queue, on which nothing was posted yet. -/
def idleDev (numBufs : UInt32) : Dev :=
  { Dev.init 1 0 0 0 (fun _ => 0) with vqs := fun _ => sampleQueue numBufs }

/-- Two buffers are posted and the first one is taken. -/
theorem avail_ring_fifo_two : ∃ s,
    Run (Guarded (PostSafe (sampleQueue 2)) (LinkStep 0 (sampleQueue 2))) ⟨idleDev 2, [], []⟩
      [.add 0x100c00 16, .add 0x100d00 32, .get 0] s ∧
    s.posted = [(0x100c00, 16), (0x100d00, 32)] ∧ s.got = [(0x100c00, 16)] ∧
    s.got <+: s.posted := by
  have hlists : (exec (fun s l => if PostSafe (sampleQueue 2) s l then
        s.step 0 (sampleQueue 2) l else none)
      ⟨idleDev 2, [], []⟩ [.add 0x100c00 16, .add 0x100d00 32, .get 0]).map
        (fun s => (s.posted, s.got)) =
      some ([(0x100c00, 16), (0x100d00, 32)], [(0x100c00, 16)]) := by
    decide +kernel
  obtain ⟨s, hs, hlists⟩ := Option.map_eq_some_iff.1 hlists
  have hrun := run_guarded_of_exec hs
  have hready : (idleDev 2).readyVq 0 = some (sampleQueue 2) := by decide +kernel
  have hok : QueueOk (sampleQueue 2) := by constructor <;> decide
  have hidx : availIdx (idleDev 2).mem (sampleQueue 2) = 0 := by decide +kernel
  have hfifo := (avail_ring_fifo_iff hready hok (by decide) hidx rfl).2 _ s hrun
  rw [Prod.mk.injEq] at hlists
  exact ⟨s, hrun, hlists.1, hlists.2, hfifo.1⟩

/-- A queue of 20 buffers.  65520 times a buffer is posted and taken; then seventeen are
posted, the last one with another address, and one is taken.  The last one has the number
65536 and the slot 0, as the one with the number 65520 that is next: the device gets the
address of the last one in its place. -/
theorem wrap_overtakes : ∃ s,
    Run (LinkStep 0 (sampleQueue 20)) ⟨idleDev 20, [], []⟩
      (rounds (0x100c00, 16) 65520 ++ List.replicate 16 (.add 0x100c00 16) ++
        [.add 0x100d00 16] ++ [.get 0]) s ∧
    s.posted = List.replicate 65536 (0x100c00, 16) ++ [(0x100d00, 16)] ∧
    s.got = List.replicate 65520 (0x100c00, 16) ++ [(0x100d00, 16)] ∧
    ¬ s.got <+: s.posted := by
  have hready : (idleDev 20).readyVq 0 = some (sampleQueue 20) := by decide +kernel
  have hok : QueueOk (sampleQueue 20) := by constructor <;> decide
  have hidx : availIdx (idleDev 20).mem (sampleQueue 20) = 0 := by decide +kernel
  have hstart : Fifo 0 (sampleQueue 20) ⟨idleDev 20, [], []⟩ := .start hready hidx rfl
  have hslot : availSlot (sampleQueue 20) 65520 = availSlot (sampleQueue 20) (65520 + 16) := by
    decide +kernel
  obtain ⟨s, hrun, hposted, hgot⟩ := overtaken (p := (0x100c00, 16)) (q := (0x100d00, 16)) hok
    (by decide) hstart (by decide) (by decide) (by decide) hslot
  refine ⟨s, hrun, hposted, hgot, ?_⟩
  rw [hposted, hgot]
  exact not_prefix_of_overtaken (by decide) (by decide)

end Ooows.Virtio
