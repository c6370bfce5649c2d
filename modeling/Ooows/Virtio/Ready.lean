import Ooows.Lib.Run
import Ooows.Virtio.Queue

/-!
# Ooows.Virtio.Ready

What a guest can and cannot do to the queues of a device with its registers.

The guest writes the registers in any order, makes a ready queue ready again with other
addresses, and changes its own memory at any time.  Whatever it does, a queue changes in
few ways: `Evolves` says which properties of a queue survive them, and `step_keeps` that
every step of a device keeps them, and never faults.  So in every state a ready queue may
be served (`QueueOk`), and it never changes its size again.
-/

namespace Ooows.Virtio

open Lib

/-- An access that the device bus passes on.  The length of a device's window is a 32-bit
number, and no access is longer than eight bytes. -/
structure MmioRequest where
  offset : UInt64
  size : UInt32
  data : UInt64
  inWindow : offset.toNat < 0x100000000
  size_le : size ≤ 8

/-! The accesses of the sample drivers. -/

theorem byteOffset_lt (offset : UInt8) : offset.toUInt64.toNat < 0x100000000 :=
  Nat.lt_trans offset.toNat_lt (by decide)

theorem halfOffset_lt (offset : UInt16) : offset.toUInt64.toNat < 0x100000000 :=
  Nat.lt_trans offset.toNat_lt (by decide)

theorem four_le_eight : (4 : UInt32) ≤ 8 := by decide

/-- What happens to a device.  `got_data` makes a device take buffers and give them back;
here it may do so at any time, from any queue and in any order. -/
inductive DevAct
  | read (r : MmioRequest)
  | write (r : MmioRequest)
  | get (vqIdx : UInt16) (uninit : UInt32)
  | put (vqIdx : UInt16) (vbuf : VirtBuf)
  | setConfigSpace (data : List UInt8)
  /-- The guest changes its memory. -/
  | guest (mem : ByteMem)

def Dev.step (d : Dev) : DevAct → Except Fault Dev
  | .read r => (d.mmioRead r.offset r.size).map fun _ => d
  | .write r => (d.mmioWrite r.offset r.size r.data).map Prod.fst
  | .get vqIdx uninit => (d.getBuf vqIdx uninit).map Prod.snd
  | .put vqIdx vbuf => (d.putBuf vqIdx vbuf).map Prod.snd
  | .setConfigSpace data => .ok ((d.setConfigSpace data).getD d)
  | .guest mem => .ok { d with mem := mem }

/-- **The invariant**: the selected queue exists, and every queue that is ready may be
served. -/
structure Ready (d : Dev) : Prop where
  sel : d.queueSel < d.numQueues
  config : d.configSpaceSize.toNat ≤ 0x400
  size : ∀ i, (d.vqs i).size < 32768
  queues : ∀ i, (d.vqs i).ready = true → QueueOk (d.vqs i)

/-! ## how a queue changes -/

/-- How a step may change a queue: if it may be served when it is ready, it still may, and
a ready queue stays ready and keeps its size. -/
structure Evolves (vq vq' : VirtQueue) : Prop where
  size : vq.size < 32768 → vq'.size < 32768
  ok : vq.size < 32768 → (vq.ready = true → QueueOk vq) → vq'.ready = true → QueueOk vq'
  kept : vq.ready = true → vq'.ready = true ∧ vq'.numBufs = vq.numBufs

variable {vq vq' : VirtQueue} {d d' : Dev}

/-- A change of other fields. -/
theorem Evolves.of_eq (hnum : vq'.numBufs = vq.numBufs) (hready : vq'.ready = vq.ready)
    (hdesc : vq'.descTableGaddr = vq.descTableGaddr) (havail : vq'.availGaddr = vq.availGaddr)
    (hused : vq'.usedGaddr = vq.usedGaddr) : Evolves vq vq' := by
  have hsize : vq'.size = vq.size := by rw [VirtQueue.size, VirtQueue.size, hnum]
  refine ⟨fun h => hsize ▸ h, fun _ hok hr => ?_, fun hr => ⟨hready.trans hr, hnum⟩⟩
  obtain ⟨hpos, hlt, hd, ha, hu⟩ := hok (hready ▸ hr)
  constructor
  · rwa [hsize]
  · rwa [hsize]
  · rwa [hsize, hdesc]
  · rwa [hsize, havail]
  · rwa [hsize, hused]

theorem Evolves.refl (vq : VirtQueue) : Evolves vq vq := .of_eq rfl rfl rfl rfl rfl

theorem Evolves.trans {vq'' : VirtQueue} (h : Evolves vq vq') (h' : Evolves vq' vq'') :
    Evolves vq vq'' where
  size hlt := h'.size (h.size hlt)
  ok hlt hok := h'.ok (h.size hlt) (h.ok hlt hok)
  kept hr := ⟨(h'.kept (h.kept hr).1).1, (h'.kept (h.kept hr).1).2.trans (h.kept hr).2⟩

/-- The number of buffers is set. -/
theorem Evolves.num {data : UInt64} (hdata : data < maxVqSize) (vq : VirtQueue) :
    Evolves vq (if vq.ready then vq else { vq with numBufs := data.toUInt32 }) := by
  by_cases hr : vq.ready = true
  · rw [if_pos hr]
    exact .refl vq
  · rw [if_neg hr]
    refine ⟨fun _ => ?_, fun _ _ hr' => absurd hr' hr, fun hr' => absurd hr' hr⟩
    have hlt : data.toNat < 32768 := UInt64.lt_iff_toNat_lt.1 hdata
    show data.toUInt32.toNat < 32768
    rw [UInt64.toNat_toUInt32]
    omega

/-- The sizes of the three structures do not wrap. -/
theorem toNat_structure_size (numBufs : UInt32) {c k : UInt64} (hc : c.toNat ≤ 16)
    (hk : k.toNat ≤ 16) :
    (c + numBufs.toUInt64 * k).toNat = c.toNat + k.toNat * numBufs.toNat := by
  have hnum := numBufs.toNat_lt
  have hmul : numBufs.toNat * k.toNat ≤ 2 ^ 32 * 16 := Nat.mul_le_mul hnum.le hk
  rw [UInt64.toNat_add, UInt64.toNat_mul, UInt32.toNat_toUInt64,
    Nat.mod_eq_of_lt (show numBufs.toNat * k.toNat < 2 ^ 64 by omega),
    Nat.mod_eq_of_lt (by omega), Nat.mul_comm]

/-- **`ready_queue`** makes ready what may be served. -/
theorem queueOk_readied (hlt : vq.size < 32768) (h : Dev.readied vq = some vq') : QueueOk vq' := by
  simp only [Dev.readied, Option.ite_none_left_eq_some, Bool.not_eq_true, oob_eq_false_iff] at h
  obtain ⟨hne, hdesc, havail, hused, heq⟩ := h
  have hzero : (16 * vq.numBufs.toUInt64).toNat = 16 * vq.size := by
    have hsize := toNat_structure_size vq.numBufs (c := 0) (k := 16) (by decide) (by decide)
    rw [UInt64.zero_add, UInt64.mul_comm] at hsize
    exact hsize.trans (Nat.zero_add _)
  rw [hzero] at hdesc
  rw [toNat_structure_size vq.numBufs (by decide) (by decide)] at havail hused
  rw [← Option.some.inj heq]
  have hpos : 0 < vq.size := Nat.pos_of_ne_zero fun hzero => hne (UInt32.toNat_inj.1 hzero)
  exact ⟨hpos, hlt, hdesc, havail, hused⟩

theorem Evolves.readied (h : Dev.readied vq = some vq') : Evolves vq vq' := by
  have hnum : vq'.numBufs = vq.numBufs ∧ vq'.ready = true := by
    simp only [Dev.readied, Option.ite_none_left_eq_some] at h
    obtain ⟨-, -, -, -, heq⟩ := h
    rw [← Option.some.inj heq]
    exact ⟨rfl, rfl⟩
  have hsize : vq'.size = vq.size := by rw [VirtQueue.size, VirtQueue.size, hnum.1]
  exact ⟨fun hlt => hsize ▸ hlt, fun hlt _ _ => queueOk_readied hlt h,
    fun _ => ⟨hnum.2, hnum.1⟩⟩

/-! ## how a device changes -/

/-- How a step may change a device. -/
structure Keeps (d d' : Dev) : Prop where
  queues : ∀ i, Evolves (d.vqs i) (d'.vqs i)
  sel : d.queueSel < d.numQueues → d'.queueSel < d'.numQueues
  config : d.configSpaceSize.toNat ≤ 0x400 → d'.configSpaceSize.toNat ≤ 0x400

theorem Keeps.of_vqs_eq (hvqs : d'.vqs = d.vqs)
    (hsel : d.queueSel < d.numQueues → d'.queueSel < d'.numQueues)
    (hconfig : d.configSpaceSize.toNat ≤ 0x400 → d'.configSpaceSize.toNat ≤ 0x400) :
    Keeps d d' :=
  ⟨fun _ => hvqs ▸ .refl _, hsel, hconfig⟩

theorem Keeps.refl (d : Dev) : Keeps d d := .of_vqs_eq rfl id id

theorem Keeps.trans {d'' : Dev} (h : Keeps d d') (h' : Keeps d' d'') : Keeps d d'' where
  queues i := (h.queues i).trans (h'.queues i)
  sel := h'.sel ∘ h.sel
  config := h'.config ∘ h.config

/-- One queue changes. -/
theorem Keeps.update {i : Nat} (h : Evolves (d.vqs i) vq) :
    Keeps d { d with vqs := Function.update d.vqs i vq } := by
  refine ⟨fun j => ?_, id, id⟩
  by_cases hj : j = i
  · subst hj
    dsimp only
    rw [Function.update_self]
    exact h
  · dsimp only
    rw [Function.update_of_ne hj]
    exact .refl _

theorem Ready.of_keeps (h : Ready d) (hkeeps : Keeps d d') : Ready d' where
  sel := hkeeps.sel h.sel
  config := hkeeps.config h.config
  size i := (hkeeps.queues i).size (h.size i)
  queues i := (hkeeps.queues i).ok (h.size i) (h.queues i)

theorem Ready.selected (h : Ready d) : d.selected = .ok (d.vqs d.queueSel.toNat) := if_pos h.sel

theorem Ready.modifySelected (h : Ready d) {f : VirtQueue → VirtQueue}
    (hf : ∀ vq, Evolves vq (f vq)) : ∃ d', d.modifySelected f = .ok d' ∧ Keeps d d' := by
  rw [Dev.modifySelected, h.selected]
  exact ⟨_, rfl, .update (hf _)⟩

theorem Ready.readyQueue (h : Ready d) : ∃ r, d.readyQueue = .ok r ∧ Keeps d r.1 := by
  rw [Dev.readyQueue, h.selected]
  cases hr : Dev.readied (d.vqs d.queueSel.toNat) with
  | none =>
    refine ⟨(d, false), ?_, .refl d⟩
    simp only [Except.map, hr]
  | some vq =>
    refine ⟨({ d with vqs := Function.update d.vqs d.queueSel.toNat vq }, true), ?_,
      .update (.readied hr)⟩
    simp only [Except.map, hr]

/-- Which accesses are to the configuration space; no sum wraps around. -/
theorem isConfigSpace_iff (h : Ready d) (r : MmioRequest) :
    d.isConfigSpace r.offset r.size = true ↔ 0x100 ≤ r.offset.toNat ∧
      r.offset.toNat + r.size.toNat ≤ 0x100 + d.configSpaceSize.toNat := by
  have hconfig := h.config
  have hwindow := r.inWindow
  have hsize : r.size.toNat ≤ 8 := UInt32.le_iff_toNat_le.1 r.size_le
  have hstart : configSpaceStart.toNat = 0x100 := rfl
  have hsum : (r.offset + r.size.toUInt64).toNat = r.offset.toNat + r.size.toNat := by
    rw [UInt64.toNat_add, UInt32.toNat_toUInt64]
    exact Nat.mod_eq_of_lt (by omega)
  have hend : (configSpaceStart + d.configSpaceSize.toUInt64).toNat =
      0x100 + d.configSpaceSize.toNat := by
    rw [UInt64.toNat_add, UInt32.toNat_toUInt64, hstart]
    exact Nat.mod_eq_of_lt (by omega)
  rw [Dev.isConfigSpace, Bool.and_eq_true, decide_eq_true_eq, decide_eq_true_eq, ge_iff_le,
    UInt64.le_iff_toNat_le, UInt64.le_iff_toNat_le, hsum, hend, hstart]

/-- Accesses to the configuration space stay inside it. -/
theorem Ready.copyOk (h : Ready d) (r : MmioRequest)
    (hconf : d.isConfigSpace r.offset r.size = true) : Dev.copyOk r.offset r.size = true := by
  obtain ⟨hlo, hhi⟩ := (isConfigSpace_iff h r).1 hconf
  have hconfig := h.config
  have hoff : (r.offset - configSpaceStart).toNat = r.offset.toNat - 0x100 :=
    UInt64.toNat_sub_of_le _ _ (UInt64.le_iff_toNat_le.2 hlo)
  rw [Dev.copyOk, Bool.and_eq_true, decide_eq_true_eq, decide_eq_true_eq, hoff]
  refine ⟨r.size_le, ?_⟩
  show _ ≤ 4096
  omega

/-! ## every step -/

theorem mmioRead_ok (h : Ready d) (r : MmioRequest) : ∃ v, d.mmioRead r.offset r.size = .ok v := by
  unfold Dev.mmioRead
  by_cases hconf : d.isConfigSpace r.offset r.size = true
  · rw [if_pos hconf, Dev.configSpaceRead, if_pos (h.copyOk r hconf)]
    exact ⟨_, rfl⟩
  · rw [if_neg hconf, h.selected]
    split <;> exact ⟨_, rfl⟩

theorem toUInt32_lt {data : UInt64} {n : UInt32} (h : data < n.toUInt64) : data.toUInt32 < n := by
  rw [UInt64.lt_iff_toNat_lt, UInt32.toNat_toUInt64] at h
  rw [UInt32.lt_iff_toNat_lt, UInt64.toNat_toUInt32]
  exact Nat.lt_of_le_of_lt (Nat.mod_le _ _) h

/-- **A register write** keeps the queues. -/
theorem mmioWrite_keeps (h : Ready d) (r : MmioRequest) :
    ∃ p, d.mmioWrite r.offset r.size r.data = .ok p ∧ Keeps d p.1 := by
  have hregister : ∀ {f : VirtQueue → VirtQueue}, (∀ vq, Evolves vq (f vq)) →
      ∃ p : Dev × Option UInt16, (d.modifySelected f).map (·, none) = .ok p ∧ Keeps d p.1 := by
    intro f hf
    obtain ⟨d', hd', hkeeps⟩ := h.modifySelected hf
    exact ⟨(d', none), by rw [hd']; rfl, hkeeps⟩
  unfold Dev.mmioWrite
  by_cases hconf : d.isConfigSpace r.offset r.size = true
  · rw [if_pos hconf, Dev.configSpaceWrite, if_pos (h.copyOk r hconf)]
    exact ⟨_, rfl, .of_vqs_eq rfl id id⟩
  · rw [if_neg hconf]
    cases Dev.Reg.ofOffset r.offset with
    | none => exact ⟨_, rfl, .refl d⟩
    | some reg =>
      cases reg with
      | deviceFeaturesSelect | driverFeatures | driverFeaturesSelect | intrAck =>
        exact ⟨_, rfl, .of_vqs_eq rfl id id⟩
      | queueSelect =>
        refine ⟨_, rfl, ?_⟩
        dsimp only
        split
        next hlt => exact .of_vqs_eq rfl (fun _ => toUInt32_lt hlt) id
        next => exact .refl d
      | queueNum =>
        dsimp only
        split
        next hlt => exact hregister (.num hlt)
        next => exact ⟨_, rfl, .refl d⟩
      | queueReady =>
        dsimp only
        split
        next =>
          obtain ⟨p, hp, hkeeps⟩ := h.readyQueue
          rw [hp]
          exact ⟨_, rfl, hkeeps⟩
        next => exact ⟨_, rfl, .refl d⟩
      | queueDescLow | queueDescHigh | queueDriverLow | queueDriverHigh | queueDeviceLow
      | queueDeviceHigh => exact hregister fun vq => .of_eq rfl rfl rfl rfl rfl
      | queueNotify | magicVal | deviceVers | subsysDevId | subsysVendId | deviceFeatures
      | queueNumMax | isr | deviceStatus => exact ⟨_, rfl, .refl d⟩

theorem Ready.queueOk {vqIdx : UInt16} (h : Ready d) (hready : d.readyVq vqIdx = some vq) :
    QueueOk vq := by
  obtain ⟨-, rfl, hr⟩ := readyVq_eq hready
  exact h.queues _ hr

theorem getBuf_keeps (h : Ready d) (vqIdx : UInt16) (uninit : UInt32) :
    ∃ p, d.getBuf vqIdx uninit = .ok p ∧ Keeps d p.2 := by
  cases hready : d.readyVq vqIdx with
  | none =>
    rw [Dev.getBuf, hready]
    exact ⟨_, rfl, .refl d⟩
  | some vq =>
    obtain ⟨-, hvq, -⟩ := readyVq_eq hready
    obtain ⟨got, d', hget, hd⟩ := getBuf_dev hready (h.queueOk hready) uninit
    refine ⟨(got, d'), hget, ?_⟩
    cases hd with
    | inl hsame =>
      rw [hsame]
      exact .refl d
    | inr htaken =>
      rw [htaken]
      refine .update ?_
      rw [hvq]
      exact .of_eq rfl rfl rfl rfl rfl

theorem putBuf_keeps (h : Ready d) (vqIdx : UInt16) (vbuf : VirtBuf) :
    ∃ p, d.putBuf vqIdx vbuf = .ok p ∧ Keeps d p.2 := by
  cases hready : d.readyVq vqIdx with
  | none =>
    rw [Dev.putBuf, hready]
    exact ⟨_, rfl, .refl d⟩
  | some vq =>
    refine ⟨_, putBuf_eq hready (h.queueOk hready) vbuf, ?_⟩
    split
    next => exact .of_vqs_eq rfl id id
    next => exact .refl d

theorem setConfigSpace_keeps (d : Dev) (data : List UInt8) :
    Keeps d ((d.setConfigSpace data).getD d) := by
  unfold Dev.setConfigSpace
  split
  next => exact .refl d
  next hle =>
    refine .of_vqs_eq rfl id fun _ => ?_
    have hlen : data.length ≤ 0x400 := Nat.not_lt.1 hle
    show (data.length.toUInt32).toNat ≤ 0x400
    rw [Nat.toUInt32, UInt32.toNat_ofNat']
    exact (Nat.mod_le _ _).trans hlen

/-- **Every step** succeeds and keeps the queues. -/
theorem step_keeps (h : Ready d) (a : DevAct) : ∃ d', d.step a = .ok d' ∧ Keeps d d' := by
  cases a with
  | read r =>
    obtain ⟨v, hv⟩ := mmioRead_ok h r
    exact ⟨d, by rw [Dev.step, hv]; rfl, .refl d⟩
  | write r =>
    obtain ⟨p, hp, hkeeps⟩ := mmioWrite_keeps h r
    exact ⟨p.1, by rw [Dev.step, hp]; rfl, hkeeps⟩
  | get vqIdx uninit =>
    obtain ⟨p, hp, hkeeps⟩ := getBuf_keeps h vqIdx uninit
    exact ⟨p.2, by rw [Dev.step, hp]; rfl, hkeeps⟩
  | put vqIdx vbuf =>
    obtain ⟨p, hp, hkeeps⟩ := putBuf_keeps h vqIdx vbuf
    exact ⟨p.2, by rw [Dev.step, hp]; rfl, hkeeps⟩
  | setConfigSpace data => exact ⟨_, rfl, setConfigSpace_keeps d data⟩
  | guest mem => exact ⟨_, rfl, .of_vqs_eq rfl id id⟩

/-! ## runs -/

/-- The relation of `Dev.step`. -/
abbrev DevStep (d : Dev) (a : DevAct) (d' : Dev) : Prop := d.step a = .ok d'

theorem ok_of_toOption {ε α : Type} {x : Except ε α} {a : α} (h : x.toOption = some a) :
    x = .ok a := by
  cases x with
  | error e => contradiction
  | ok b => exact congrArg Except.ok (Option.some.inj h)

/-- A run of a device, computed. -/
theorem devRun_of_exec {acts : List DevAct}
    (h : exec (fun d a => (Dev.step d a).toOption) d acts = some d') : Run DevStep d acts d' :=
  ((run_iff_exec _).2 h).mono fun _ _ _ hstep => ok_of_toOption hstep

theorem Ready.step {a : DevAct} (h : Ready d) (hstep : DevStep d a d') : Keeps d d' := by
  obtain ⟨d'', hd'', hkeeps⟩ := step_keeps h a
  obtain rfl : d'' = d' := Except.ok.inj (hd''.symm.trans hstep)
  exact hkeeps

/-- What a step keeps, a run keeps. -/
theorem Ready.run {acts : List DevAct} (h : Ready d) (hrun : Run DevStep d acts d') :
    Ready d' ∧ Keeps d d' :=
  hrun.invariant (I := fun d' => Ready d' ∧ Keeps d d')
    (fun _ _ _ hinv hstep =>
      ⟨hinv.1.of_keeps (hinv.1.step hstep), hinv.2.trans (hinv.1.step hstep)⟩) ⟨h, .refl d⟩

theorem Ready.init {numVqs : UInt32} (hpos : 0 < numVqs) (deviceId vendorId : UInt32)
    (deviceFeatures : UInt64) (mem : ByteMem) :
    Ready (Dev.init numVqs deviceId vendorId deviceFeatures mem) where
  sel := hpos
  config := Nat.le_refl _
  size _ := show VirtQueue.init.size < 32768 by decide
  queues _ hr := by contradiction

/-- **The queues of a device, whatever the guest does.**  In every state the selected queue
exists; a queue that is ready has between 1 and 32767 buffers and its structures lie inside
the guest's memory, and in every later state it is ready with the same number of buffers;
and no step faults. -/
theorem ready_queues_ok {numVqs : UInt32} (hpos : 0 < numVqs) (deviceId vendorId : UInt32)
    (deviceFeatures : UInt64) (mem : ByteMem) {acts : List DevAct} {d : Dev}
    (hrun : Run DevStep (Dev.init numVqs deviceId vendorId deviceFeatures mem) acts d) :
    d.queueSel < d.numQueues ∧
    (∀ i, (d.vqs i).ready = true → QueueOk (d.vqs i) ∧ ∀ acts' d', Run DevStep d acts' d' →
      (d'.vqs i).ready = true ∧ (d'.vqs i).numBufs = (d.vqs i).numBufs) ∧
    ∀ a fault, d.step a ≠ .error fault := by
  have hready : Ready d := ((Ready.init hpos deviceId vendorId deviceFeatures mem).run hrun).1
  refine ⟨hready.sel, fun i hr => ⟨hready.queues i hr, fun acts' d' hrun' => ?_⟩,
    fun a fault hfault => ?_⟩
  · exact ((hready.run hrun').2.queues i).kept hr
  · obtain ⟨d', hstep, -⟩ := step_keeps hready a
    rw [hstep] at hfault
    contradiction

/-- A write of four bytes to the register at an offset. -/
def writeReg (offset : UInt8) (data : UInt64) : DevAct :=
  .write ⟨offset.toUInt64, 4, data, byteOffset_lt offset, four_le_eight⟩

/-- What `setup_virtq` and `commit_and_ready_vq` write for a queue of two buffers. -/
def setupWrites : List DevAct :=
  [writeReg 0x30 0, writeReg 0x38 2, writeReg 0x80 0x100000, writeReg 0x90 0x100400,
    writeReg 0xa0 0x100800, writeReg 0x44 1]

theorem ready_queues_ok_setup : ∃ d,
    Run DevStep (Dev.init 1 0 0 0 fun _ => 0) setupWrites d ∧ d.vqs 0 = sampleQueue 2 ∧
    QueueOk (d.vqs 0) := by
  have hvq : (exec (fun d a => (Dev.step d a).toOption) (Dev.init 1 0 0 0 fun _ => 0)
      setupWrites).map (fun d => d.vqs 0) = some (sampleQueue 2) := by
    decide +kernel
  obtain ⟨d, hd, hvq⟩ := Option.map_eq_some_iff.1 hvq
  have hrun := devRun_of_exec hd
  have hready : (d.vqs 0).ready = true := by rw [hvq]; rfl
  exact ⟨d, hrun, hvq, ((ready_queues_ok (by decide) 0 0 0 _ hrun).2.1 0 hready).1⟩

end Ooows.Virtio
