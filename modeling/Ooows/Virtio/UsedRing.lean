import Ooows.Lib.CellQueue
import Ooows.Lib.Run
import Ooows.Virtio.Queue

/-!
# Ooows.Virtio.UsedRing

What the driver finds in the used ring while a device serves a queue.

The driver polls the index of the used ring, and reads which buffer came back and how
much was written to it from the slot `(j - 1) % n` of the `j`-th return.  `Reported` says
that it finds what the device returned.  The index is right in every run
(`Counted.step`).  The elements are not: `put_buf` computes the slot, and then stores the
element behind the ring, at the entry `num_bufs`.  So the driver reads what its slot held
before, and a return is reported only if the slot held the right element already; and
eight bytes behind the ring change unless they held that element, too (`PutSafe`).
-/

namespace Ooows.Virtio

open Lib

/-- A device that serves a queue. -/
structure Serving where
  dev : Dev
  /-- The buffers that `put_buf` took back, oldest first, each with the number of bytes
  the device wrote to it. -/
  puts : List (VirtBuf × UInt32)

/-- What happens while a queue is served. -/
inductive ServeAct
  | get (uninit : UInt32)
  | put (vbuf : VirtBuf) (written : UInt32)
  /-- The driver or the device stores bytes outside the used ring. -/
  | store (addr : Nat) (bytes : List UInt8)

/-- A block lies outside the used ring. -/
def OutsideUsed (vq : VirtQueue) (addr len : Nat) : Prop :=
  addr + len ≤ vq.usedGaddr.toNat ∨ usedElemAddr vq vq.size ≤ addr

instance (vq : VirtQueue) (addr len : Nat) : Decidable (OutsideUsed vq addr len) :=
  inferInstanceAs (Decidable (_ ∨ _))

section

variable (vqIdx : UInt16) (vq : VirtQueue)

/-- One step of serving the queue with index `vqIdx`, whose rings are those of `vq`. -/
def Serving.step (s : Serving) : ServeAct → Option Serving
  | .get uninit => match s.dev.getBuf vqIdx uninit with
      | .ok (_, d) => some { s with dev := d }
      | .error _ => none
  | .put vbuf written => match s.dev.putBuf vqIdx vbuf with
      | .ok (true, d) => some ⟨d, s.puts ++ [(vbuf, written)]⟩
      | .ok (false, d) => some { s with dev := d }
      | .error _ => none
  | .store addr bytes =>
    if OutsideUsed vq addr bytes.length then
      some { s with dev := { s.dev with mem := s.dev.mem.writeBytes addr bytes } }
    else none

/-- **The driver finds what was returned**: the index of the used ring counts the
returns, and the slots of the last `n` returns hold them. -/
structure Reported (s : Serving) : Prop where
  idx : usedIdx s.dev.mem vq = s.puts.length % 65536
  elems : ∀ j vbuf written, s.puts[j]? = some (vbuf, written) →
    s.puts.length ≤ j + vq.size → HoldsElem s.dev.mem vq (j % vq.size) vbuf.id written

/-- Nothing changed but the index and the slot of the next return. -/
def OnlyWrites (s t : Serving) : Prop :=
  ∀ x, ¬ (vq.usedGaddr.toNat + 2 ≤ x ∧ x < vq.usedGaddr.toNat + 4) →
    ¬ (usedElemAddr vq (s.puts.length % vq.size) ≤ x ∧
      x < usedElemAddr vq (s.puts.length % vq.size) + 8) →
    t.dev.mem x = s.dev.mem x

/-- A return that does no harm: if it is taken, its slot holds the element already, and so
do the eight bytes behind the ring. -/
def PutSafe (s : Serving) : ServeAct → Prop
  | .put vbuf written =>
    Accepts s.dev.mem (s.dev.vqs vqIdx.toNat) →
      HoldsElem s.dev.mem vq (s.puts.length % vq.size) vbuf.id written ∧
        HoldsElem s.dev.mem vq vq.size vbuf.id vbuf.nbytesWritten
  | _ => True

instance (s : Serving) : (a : ServeAct) → Decidable (PutSafe vqIdx vq s a)
  | .put _ _ => inferInstanceAs (Decidable (_ → _))
  | .get _ => isTrue trivial
  | .store _ _ => isTrue trivial

/-- The queue is still the one of the start, but for the tail index. -/
def Serves (d : Dev) : Prop :=
  ∃ tail, d.readyVq vqIdx = some { vq with availTailIdx := tail }

end

variable {vqIdx : UInt16} {vq : VirtQueue} {mem : ByteMem} {s t : Serving}

/-! ## the used ring after a return -/

theorem usedIdx_returned (vbuf : VirtBuf) :
    usedIdx (returned mem vq vbuf) vq = (usedIdx mem vq + 1) % 65536 := by
  rw [usedIdx, returned, ByteMem.load_store_self]
  omega

theorem holdsElem_congr {mem' : ByteMem} {i : Nat} {id : UInt16} {len : UInt32}
    (h : ∀ x, usedElemAddr vq i ≤ x → x < usedElemAddr vq i + 8 → mem x = mem' x) :
    HoldsElem mem vq i id len ↔ HoldsElem mem' vq i id len := by
  have hid : mem.load (usedElemAddr vq i) 4 = mem'.load (usedElemAddr vq i) 4 :=
    ByteMem.load_congr fun x hlo hhi => h x hlo (by omega)
  have hlen : mem.load (usedElemAddr vq i + 4) 4 = mem'.load (usedElemAddr vq i + 4) 4 :=
    ByteMem.load_congr fun x hlo hhi => h x (by omega) (by omega)
  rw [HoldsElem, HoldsElem, hid, hlen]

variable {vbuf : VirtBuf}

/-- `put_buf` touches the index and the entry behind the ring. -/
theorem returned_outside {x : Nat}
    (hidx : ¬ (vq.usedGaddr.toNat + 2 ≤ x ∧ x < vq.usedGaddr.toNat + 4))
    (hbehind : ¬ (usedElemAddr vq vq.size ≤ x ∧ x < usedElemAddr vq vq.size + 8)) :
    returned mem vq vbuf x = mem x := by
  rw [returned, ByteMem.store_outside (by omega), ByteMem.store_outside (by omega),
    ByteMem.store_outside (by omega)]

/-- The slots of the ring are not touched. -/
theorem holdsElem_returned {i : Nat} {id : UInt16} {len : UInt32} (hi : i < vq.size)
    (vbuf : VirtBuf) :
    HoldsElem (returned mem vq vbuf) vq i id len ↔ HoldsElem mem vq i id len := by
  refine holdsElem_congr fun x hlo hhi => returned_outside ?_ ?_
  all_goals
    unfold usedElemAddr at *
    omega

theorem holdsElem_behind (vbuf : VirtBuf) :
    HoldsElem (returned mem vq vbuf) vq vq.size vbuf.id vbuf.nbytesWritten := by
  have hid := vbuf.id.toNat_lt
  have hlen := vbuf.nbytesWritten.toNat_lt
  have hbehind : vq.usedGaddr.toNat + 2 + 2 ≤ usedElemAddr vq vq.size := by
    unfold usedElemAddr
    omega
  constructor
  · rw [returned, ByteMem.load_store_of_disjoint (by omega),
      ByteMem.load_store_of_disjoint (by omega), ByteMem.load_store_self]
    omega
  · rw [returned, ByteMem.load_store_of_disjoint (by omega), ByteMem.load_store_self]
    omega

/-- The entry behind the ring stays as it is only if it held the element. -/
theorem returned_behind_iff (vbuf : VirtBuf) :
    (∀ x, usedElemAddr vq vq.size ≤ x → x < usedElemAddr vq vq.size + 8 →
      returned mem vq vbuf x = mem x) ↔
        HoldsElem mem vq vq.size vbuf.id vbuf.nbytesWritten := by
  constructor
  · intro hsame
    exact (holdsElem_congr hsame).1 (holdsElem_behind vbuf)
  · rintro ⟨hid, hlen⟩ x hlo hhi
    have hidx : x < vq.usedGaddr.toNat + 2 ∨ vq.usedGaddr.toNat + 2 + 2 ≤ x := by
      unfold usedElemAddr at hlo
      omega
    rw [returned, ByteMem.store_outside hidx, ← hid, ByteMem.store_load, ← hlen,
      ByteMem.store_load]

/-! ## one step -/

/-- `get_buf` moves the tail index, and stores nothing. -/
theorem Serves.getBuf {d d' : Dev} {uninit : UInt32} {got : Option VirtBuf}
    (h : Serves vqIdx vq d) (hok : QueueOk vq) (hget : d.getBuf vqIdx uninit = .ok (got, d')) :
    Serves vqIdx vq d' ∧ d'.mem = d.mem := by
  obtain ⟨tail, hready⟩ := h
  obtain ⟨got', d'', heq, hd⟩ := getBuf_dev hready (hok.moveTail tail) uninit
  rw [heq] at hget
  cases hget
  cases hd with
  | inl hsame =>
    rw [hsame]
    exact ⟨⟨tail, hready⟩, rfl⟩
  | inr htaken =>
    rw [htaken]
    exact ⟨⟨tail + 1, readyVq_taken hready⟩, rfl⟩

/-- A return, as a step. -/
theorem step_put (h : Serves vqIdx vq s.dev) (hok : QueueOk vq) (vbuf : VirtBuf)
    (written : UInt32) :
    s.step vqIdx vq (.put vbuf written) =
      some (if Accepts s.dev.mem (s.dev.vqs vqIdx.toNat) then
        ⟨{ s.dev with mem := returned s.dev.mem vq vbuf }, s.puts ++ [(vbuf, written)]⟩ else s) := by
  obtain ⟨tail, hready⟩ := h
  have hput := putBuf_eq hready (hok.moveTail tail) vbuf
  rw [(readyVq_eq hready).2.1]
  unfold Serving.step
  dsimp only
  rw [hput]
  by_cases haccepts : Accepts s.dev.mem { vq with availTailIdx := tail }
  · rw [if_pos haccepts, if_pos haccepts]
    rfl
  · rw [if_neg haccepts, if_neg haccepts]

/-- A step that returns nothing: the used ring stays as it is. -/
structure Quiet (vq : VirtQueue) (s t : Serving) : Prop where
  puts : t.puts = s.puts
  mem : ∀ x, vq.usedGaddr.toNat ≤ x → x < usedElemAddr vq vq.size → t.dev.mem x = s.dev.mem x

/-- **Every step** keeps the queue, and is quiet or a return. -/
theorem step_cases {a : ServeAct} (h : Serves vqIdx vq s.dev) (hok : QueueOk vq)
    (hstep : s.step vqIdx vq a = some t) :
    Serves vqIdx vq t.dev ∧ (Quiet vq s t ∨ ∃ vbuf written,
      a = .put vbuf written ∧ Accepts s.dev.mem (s.dev.vqs vqIdx.toNat) ∧
        t.puts = s.puts ++ [(vbuf, written)] ∧ t.dev.mem = returned s.dev.mem vq vbuf) := by
  cases a with
  | get uninit =>
    unfold Serving.step at hstep
    dsimp only at hstep
    split at hstep
    next got d' hget =>
      cases hstep
      obtain ⟨hserves, hmem⟩ := h.getBuf hok hget
      exact ⟨hserves, .inl ⟨rfl, fun x _ _ => congrFun hmem x⟩⟩
    next => contradiction
  | put vbuf written =>
    rw [step_put h hok] at hstep
    split at hstep
    next haccepts =>
      cases hstep
      exact ⟨h, .inr ⟨vbuf, written, rfl, haccepts, rfl, rfl⟩⟩
    next =>
      cases hstep
      exact ⟨h, .inl ⟨rfl, fun _ _ _ => rfl⟩⟩
  | store addr bytes =>
    obtain ⟨hout, hstep⟩ := Option.ite_none_right_eq_some.1 hstep
    cases hstep
    refine ⟨h, .inl ⟨rfl, fun x hlo hhi => ByteMem.writeBytes_outside ?_⟩⟩
    unfold OutsideUsed at hout
    omega

/-! ## runs -/

/-- What holds in every run: the queue is served, and its index counts the returns. -/
structure Counted (vqIdx : UInt16) (vq : VirtQueue) (s : Serving) : Prop where
  serves : Serves vqIdx vq s.dev
  idx : usedIdx s.dev.mem vq = s.puts.length % 65536

theorem Quiet.usedIdx_eq (h : Quiet vq s t) : usedIdx t.dev.mem vq = usedIdx s.dev.mem vq := by
  refine ByteMem.load_congr fun x hlo hhi => h.mem x (by omega) ?_
  unfold usedElemAddr
  omega

theorem Quiet.holdsElem_iff {i : Nat} {id : UInt16} {len : UInt32} (h : Quiet vq s t)
    (hi : i < vq.size) : HoldsElem t.dev.mem vq i id len ↔ HoldsElem s.dev.mem vq i id len := by
  refine holdsElem_congr fun x hlo hhi => h.mem x ?_ ?_
  all_goals
    unfold usedElemAddr at *
    omega

theorem Counted.step {a : ServeAct} (hok : QueueOk vq) (h : Counted vqIdx vq s)
    (hstep : s.step vqIdx vq a = some t) : Counted vqIdx vq t := by
  obtain ⟨hserves, hquiet | ⟨vbuf, written, -, -, hputs, hmem⟩⟩ := step_cases h.serves hok hstep
  · exact ⟨hserves, by rw [hquiet.usedIdx_eq, hquiet.puts, h.idx]⟩
  · refine ⟨hserves, ?_⟩
    rw [hmem, usedIdx_returned, h.idx, hputs, List.length_append, List.length_singleton]
    omega

theorem Reported.quiet (hok : QueueOk vq) (h : Reported vq s) (hquiet : Quiet vq s t) :
    Reported vq t := by
  refine ⟨by rw [hquiet.usedIdx_eq, hquiet.puts, h.idx], fun j vbuf written hj hlast => ?_⟩
  rw [hquiet.puts] at hj hlast
  exact (hquiet.holdsElem_iff (Nat.mod_lt j hok.pos)).2 (h.elems j vbuf written hj hlast)

/-- **A return is reported** exactly if its slot held the element before. -/
theorem Reported.return_iff {written : UInt32} (hok : QueueOk vq)
    (h : Reported vq s) (hputs : t.puts = s.puts ++ [(vbuf, written)])
    (hmem : t.dev.mem = returned s.dev.mem vq vbuf) :
    Reported vq t ↔ HoldsElem s.dev.mem vq (s.puts.length % vq.size) vbuf.id written := by
  have hlen : t.puts.length = s.puts.length + 1 := by rw [hputs, List.length_append]; rfl
  have hslot : ∀ {j id len}, HoldsElem t.dev.mem vq (j % vq.size) id len ↔
      HoldsElem s.dev.mem vq (j % vq.size) id len := by
    intro j id len
    rw [hmem]
    exact holdsElem_returned (Nat.mod_lt j hok.pos) vbuf
  have hlast : t.puts[s.puts.length]? = some (vbuf, written) := by
    rw [hputs]
    exact List.getElem?_concat_length
  constructor
  · intro ht
    have hpos := hok.pos
    exact hslot.1 (ht.elems _ _ _ hlast (by omega))
  · intro hheld
    refine ⟨?_, fun j vbuf' written' hj hin => hslot.2 ?_⟩
    · rw [hmem, usedIdx_returned, h.idx, hlen]
      omega
    · rw [hputs] at hj
      rcases getElem?_concat hj with hold | ⟨rfl, heq⟩
      · exact h.elems j vbuf' written' hold (by omega)
      · cases heq
        exact hheld

/-- **Only the index and the slot change** exactly if the entry behind the ring held the
element before. -/
theorem onlyWrites_return_iff (hok : QueueOk vq)
    (hmem : t.dev.mem = returned s.dev.mem vq vbuf) :
    OnlyWrites vq s t ↔ HoldsElem s.dev.mem vq vq.size vbuf.id vbuf.nbytesWritten := by
  have hslot : s.puts.length % vq.size < vq.size := Nat.mod_lt _ hok.pos
  rw [← returned_behind_iff, OnlyWrites, hmem]
  constructor
  · intro honly x hlo hhi
    apply honly x
    all_goals
      unfold usedElemAddr at *
      omega
  · intro hbehind x hidx hx
    by_cases hin : usedElemAddr vq vq.size ≤ x ∧ x < usedElemAddr vq vq.size + 8
    · exact hbehind x hin.1 hin.2
    · exact returned_outside hidx hin

/-- What a step that returns a buffer does to the report. -/
theorem Reported.put_iff {written : UInt32} (hok : QueueOk vq)
    (hserves : Serves vqIdx vq s.dev) (h : Reported vq s)
    (hstep : s.step vqIdx vq (.put vbuf written) = some t) :
    (Reported vq t ∧ OnlyWrites vq s t) ↔ PutSafe vqIdx vq s (.put vbuf written) := by
  rw [step_put hserves hok] at hstep
  by_cases haccepts : Accepts s.dev.mem (s.dev.vqs vqIdx.toNat)
  · rw [if_pos haccepts] at hstep
    cases hstep
    rw [h.return_iff hok rfl rfl, onlyWrites_return_iff hok rfl]
    exact ⟨fun hheld _ => hheld, fun hsafe => hsafe haccepts⟩
  · rw [if_neg haccepts] at hstep
    cases hstep
    exact ⟨fun _ hacc => absurd hacc haccepts, fun _ => ⟨h, fun _ _ _ => rfl⟩⟩

theorem Reported.step {a : ServeAct} (hok : QueueOk vq) (hserves : Serves vqIdx vq s.dev)
    (h : Reported vq s)
    (hstep : Guarded (PutSafe vqIdx vq) (fun s a t => s.step vqIdx vq a = some t) s a t) :
    Reported vq t := by
  obtain ⟨hsafe, hstep⟩ := hstep
  obtain ⟨-, hquiet | ⟨vbuf, written, rfl, -, -, -⟩⟩ := step_cases hserves hok hstep
  · exact h.quiet hok hquiet
  · exact ((h.put_iff hok hserves hstep).2 hsafe).1

/-- **The used ring of a queue that is served.**  In every run its index counts the
returns.  As long as every return is safe, the driver finds what was returned, and a
return keeps that, and changes nothing else, exactly if it is safe. -/
theorem used_ring_reported_iff {d : Dev} (hready : d.readyVq vqIdx = some vq) (hok : QueueOk vq)
    (hzero : usedIdx d.mem vq = 0) :
    (∀ acts (s : Serving), Run (fun s a t => Serving.step vqIdx vq s a = some t) ⟨d, []⟩ acts s →
      usedIdx s.dev.mem vq = s.puts.length % 65536) ∧
    ∀ acts (s : Serving),
      Run (Guarded (PutSafe vqIdx vq) fun s a t => s.step vqIdx vq a = some t) ⟨d, []⟩ acts s →
        Reported vq s ∧ ∀ vbuf written t, s.step vqIdx vq (.put vbuf written) = some t →
          ((Reported vq t ∧ OnlyWrites vq s t) ↔ PutSafe vqIdx vq s (.put vbuf written)) := by
  have hstart : Counted vqIdx vq ⟨d, []⟩ := ⟨⟨vq.availTailIdx, hready⟩, hzero⟩
  constructor
  · intro acts s hrun
    exact (hrun.invariant (fun _ _ _ h hstep => h.step hok hstep) hstart).idx
  · intro acts s hrun
    have hnothing : Reported vq ⟨d, []⟩ := ⟨hzero, fun _ _ _ hj => nomatch hj⟩
    have hinv : Counted vqIdx vq s ∧ Reported vq s :=
      hrun.invariant (I := fun s => Counted vqIdx vq s ∧ Reported vq s)
        (fun _ _ _ h hstep => ⟨h.1.step hok hstep.2, h.2.step hok h.1.serves hstep⟩)
        ⟨hstart, hnothing⟩
    exact ⟨hinv.2, fun vbuf written t => hinv.2.put_iff hok hinv.1.serves⟩

/-- Memory in which the driver posted the descriptor `descId` of that queue, a buffer of
sixteen bytes. -/
def sampleMem (descId : UInt16) : ByteMem :=
  let mem : ByteMem := fun _ => 0
  let mem := mem.store (0x100000 + 16 * descId.toNat) 8 0x100c00
  let mem := mem.store (0x100000 + 16 * descId.toNat + 8) 4 16
  let mem := mem.store 0x100404 2 descId.toNat
  mem.store 0x100402 2 1

def sampleDev (numBufs : UInt32) (descId : UInt16) : Dev :=
  { Dev.init 1 0 0 0 (sampleMem descId) with vqs := fun _ => sampleQueue numBufs }

/-- The posted buffer, after the device wrote to it. -/
def sampleBuf (descId : UInt16) (nbytesWritten : UInt32) : VirtBuf :=
  ⟨0x100c00, 16, descId, 0, nbytesWritten⟩

theorem queueOk_sampleQueue : QueueOk (sampleQueue 2) := by
  constructor <;> decide

/-- The first buffer, given back with nothing written to it, is reported. -/
theorem used_ring_reported_first : ∃ s,
    Run (Guarded (PutSafe 0 (sampleQueue 2)) fun s a t => s.step 0 (sampleQueue 2) a = some t)
      ⟨sampleDev 2 0, []⟩ [.get 0, .put (sampleBuf 0 0) 0] s ∧
    s.puts = [(sampleBuf 0 0, 0)] ∧ Reported (sampleQueue 2) s := by
  have hputs : (exec (fun s l => if PutSafe 0 (sampleQueue 2) s l then
        s.step 0 (sampleQueue 2) l else none)
      ⟨sampleDev 2 0, []⟩ [.get 0, .put (sampleBuf 0 0) 0]).map (fun s => s.puts) =
      some [(sampleBuf 0 0, 0)] := by
    decide +kernel
  obtain ⟨s, hs, hputs⟩ := Option.map_eq_some_iff.1 hputs
  have hrun := run_guarded_of_exec hs
  have hready : (sampleDev 2 0).readyVq 0 = some (sampleQueue 2) := by decide +kernel
  have hzero : usedIdx (sampleDev 2 0).mem (sampleQueue 2) = 0 := by decide +kernel
  exact ⟨s, hrun, hputs, ((used_ring_reported_iff hready queueOk_sampleQueue hzero).2 _ s hrun).1⟩

/-- Buffer 1 is taken and given back with five bytes written to it: the index says that a
buffer came back, its slot still holds zeros, and the bytes behind the ring changed. -/
theorem return_not_reported : ∃ s t : Serving,
    (sampleDev 2 1).getBuf 0 5 = .ok (some (sampleBuf 1 5), s.dev) ∧
    Serving.step 0 (sampleQueue 2) ⟨sampleDev 2 1, []⟩ (.get 5) = some s ∧
    s.step 0 (sampleQueue 2) (.put (sampleBuf 1 5) 5) = some t ∧
    t.puts = [(sampleBuf 1 5, 5)] ∧ usedIdx t.dev.mem (sampleQueue 2) = 1 ∧
    HoldsElem t.dev.mem (sampleQueue 2) 0 0 0 ∧
    ¬ Reported (sampleQueue 2) t ∧ ¬ OnlyWrites (sampleQueue 2) s t := by
  have hready : (sampleDev 2 1).readyVq 0 = some (sampleQueue 2) := by decide +kernel
  have hget : (sampleDev 2 1).getBuf 0 5 =
      .ok (some (sampleBuf 1 5), (sampleDev 2 1).taken 0 (sampleQueue 2)) := by
    have hbuf : Dev.bufAt (sampleDev 2 1).mem (sampleQueue 2)
        (UInt16.ofNat ((sampleQueue 2).availTailIdx.toNat % (sampleQueue 2).size)) 5 =
        some (sampleBuf 1 5) := by decide +kernel
    rw [getBuf_eq hready queueOk_sampleQueue, if_neg (by decide +kernel), hbuf]
  have hserves : Serves 0 (sampleQueue 2) ((sampleDev 2 1).taken 0 (sampleQueue 2)) :=
    ⟨_, readyVq_taken hready⟩
  have hput := step_put (s := ⟨(sampleDev 2 1).taken 0 (sampleQueue 2), []⟩) hserves
    queueOk_sampleQueue (sampleBuf 1 5) 5
  rw [if_pos (by decide +kernel)] at hput
  refine ⟨_, _, hget, ?_, hput, rfl, by decide +kernel, by decide +kernel, ?_, ?_⟩
  · unfold Serving.step
    dsimp only
    rw [hget]
  · intro hreported
    exact absurd (hreported.elems 0 _ _ rfl (by decide +kernel)) (by decide +kernel)
  · intro honly
    have hbehind := (onlyWrites_return_iff queueOk_sampleQueue rfl).1 honly
    exact absurd hbehind (by decide +kernel)

end Ooows.Virtio
