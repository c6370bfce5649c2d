import Ooows.Lib.Run
import Ooows.Net.Interpreter
import Ooows.Net.NetDev

/-!
# Ooows.Net.Confinement

The network card while the firmware runs with the transmit offloads switched off.

The jobs that left the engine's queues are with the PHY or with the core, and
`NetDev.outstanding` collects them all.  `Confined` is the invariant of the card: the
engine's invariant for these jobs, and bounds for the packets and indices that the
PHY and the core hold.  There is one lemma per thread; together they make
`Confined.step`, and every run keeps the accesses of `Engine.log` in their memories
and the code as it was loaded.
-/

namespace Ooows.Net

open Lib

/-! ## jobs outside the engine -/

def PhyTx.jobs : PhyTx → List Job
  | .idle => []
  | .got job => [.fifo .tFifoWr job false]
  | .published job => [.fifo .tFifoWr job false]

def PhyRx.jobs : PhyRx → List Job
  | .idle => []
  | .got job _ => [.fifo .rFifoRd job false]
  | .sized job _ => [.fifo .rFifoRd job true]
  | .copied job => [.fifo .rFifoRd job true]

def Core.jobs : Core → List Job
  | .rxSize job => [.fifo .rxPkt job false]
  | .rxData job _ => [.fifo .rxPkt job false]
  | .rxDone job => [.fifo .rxPkt job false]
  | _ => []

namespace NetDev

/-- All jobs that were issued and are not finished. -/
def outstanding (s : NetDev) : List Job :=
  s.eng.jobs ++ (s.phyTx.jobs ++ (s.phyRx.jobs ++ s.core.jobs))

end NetDev

/-- A received packet fits the buffers of the receive ring. -/
def PhyRx.Fits : PhyRx → Prop
  | .got _ payload => payload.length ≤ 1514
  | .sized _ payload => payload.length ≤ 1514
  | _ => True

/-- A packet of the core fits its buffer, and that buffer is in the transmit pool. -/
def Core.Fits : Core → Prop
  | .txPkt size pktIdx => size.toNat ≤ 1518 ∧ pktIdx.toNat ≤ 244356
  | .txRing size pktIdx => size.toNat ≤ 1518 ∧ pktIdx.toNat ≤ 244356
  | .txPtr size pktIdx => size.toNat ≤ 1518 ∧ pktIdx.toNat ≤ 244356
  | .txSize size => size.toNat ≤ 1518
  | .rxData _ size => size.toNat ≤ 1518
  | _ => True

/-- **The invariant of the card.** -/
structure Confined (uninit : Nat → UInt8) (s : NetDev) : Prop where
  sound : Sound (Engine.codeWord Firmware.image uninit) s.eng s.outstanding
  codeLen : s.eng.codeLen = 1295
  phyRx : s.phyRx.Fits
  core : s.core.Fits
  txRingBufIdx : s.txRingBufIdx.toNat < 16
  ramPoolIdx : s.ramPoolIdx.toNat < 256

/-! The job of the PHY's receiver and that of the core, brought to the front. -/

theorem perm_second {J : Job} {eng tx core : List Job} :
    (eng ++ (tx ++ J :: core)).Perm (J :: (eng ++ (tx ++ core))) :=
  (List.perm_middle.append_left eng).trans List.perm_middle

theorem perm_third {J : Job} {eng tx rx : List Job} :
    (eng ++ (tx ++ (rx ++ [J]))).Perm (J :: (eng ++ (tx ++ (rx ++ [])))) :=
  (perm_second.append_left eng).trans List.perm_middle

/-- The CSR is not part of the rings. -/
theorem SoundAt.setCsr {code obj : Nat → UInt32} {cur : Ctx} {pc : Ctx → UInt32}
    {ready : Ctx → Bool} {lastAlu : UInt32} {log : List Event} {jobs : List Job}
    (h : SoundAt code obj cur pc ready lastAlu log jobs) (v : UInt32) :
    SoundAt code (Function.update obj 1024 v) cur pc ready lastAlu log jobs := by
  refine h.setWord (by decide) (fun j hj => ?_) (RingStep.update (fun j hj => by omega) v)
  rw [Function.update_of_ne (by omega), Function.update_of_ne (by omega)]
  exact h.slots j hj

/-- The size a transmit entry is published with. -/
theorem readySize_mem {size : UInt16} (h : size.toNat ≤ 1518) :
    (AVal.between (2 ^ 31) (2 ^ 31 + 1518)).Mem
      (0x80000000 ||| (size.toUInt32 &&& 0xFFFFFF)) := by
  have hmask : (size.toUInt32 &&& 0xFFFFFF).toNat = size.toNat := by
    rw [UInt32.toNat_and, UInt16.toNat_toUInt32]
    exact (Nat.and_two_pow_sub_one_eq_mod _ 24).trans (Nat.mod_eq_of_lt (by omega))
  have hready : (0x80000000 ||| (size.toUInt32 &&& 0xFFFFFF) : UInt32).toNat =
      2 ^ 31 * 1 + size.toNat := by
    rw [UInt32.toNat_or, hmask, Nat.two_pow_add_eq_or_of_lt (by omega)]
    rfl
  rw [AVal.mem_between, hready]
  omega

namespace Confined

variable {uninit : Nat → UInt8} {s t : NetDev}

/-! ## the engine -/

theorem interp (h : Confined uninit s) (hcsr : s.eng.csr &&& 0x14 = 0) (u : UInt64) :
    Confined uninit { s with eng := s.eng.interpreterStep u } := by
  obtain ⟨hsound, hlen⟩ := h.sound.interpreterStep u h.codeLen hcsr
  exact { h with sound := hsound, codeLen := hlen.trans h.codeLen }

theorem memory (h : Confined uninit s) {memory : MemOpcode} {eng : Engine}
    (heng : s.eng.workerStep memory = some eng) : Confined uninit { s with eng := eng } := by
  obtain ⟨hsound, hlen⟩ := h.sound.workerStep heng
  exact { h with sound := hsound, codeLen := hlen.trans h.codeLen }

/-! ## the PHY -/

theorem phyTxStep (h : Confined uninit s) (ht : s.phyTxStep = some t) : Confined uninit t := by
  unfold NetDev.phyTxStep at ht
  have hsound := h.sound
  unfold NetDev.outstanding at hsound
  split at ht
  next hphy =>
    split at ht
    next => contradiction
    next job rest hqueue =>
      cases ht
      rw [hphy] at hsound
      refine { h with sound := SoundAt.perm hsound ?_ }
      exact ((Engine.jobs_takeFifo hqueue).append_right _).trans List.perm_middle.symm
  next job hphy =>
    cases ht
    rw [hphy] at hsound
    obtain ⟨hstart, hsize⟩ := Sound.fifo_bounds (SoundAt.perm hsound List.perm_middle)
    have hsize := hsize (by decide)
    refine { h with sound := SoundAt.record hsound ?_ }
    show _ ≤ _
    omega
  next job hphy =>
    cases ht
    rw [hphy] at hsound
    have hdone := Sound.callback (SoundAt.perm hsound List.perm_middle)
      fun c k e hk hok => posts_fifo (fun ho => absurd ho (by decide)) k e hk hok
    refine { h with sound := ?_, codeLen := (callback_frame _ _).2.2.trans h.codeLen }
    rw [NetDev.outstanding, jobs_callback]
    exact hdone

theorem incomingPacket (h : Confined uninit s) (hidle : s.phyRx = .idle) (message : List UInt8) :
    Confined uninit (s.incomingPacket message) := by
  unfold NetDev.incomingPacket
  have hsound := h.sound
  unfold NetDev.outstanding at hsound
  rw [hidle] at hsound
  split
  next => exact h
  next job rest hqueue =>
    split
    next => exact h
    next =>
      split
      next => exact h
      next hmax =>
        split
        next => exact h
        next =>
          refine { h with sound := SoundAt.perm hsound ?_, phyRx := ?_ }
          · exact ((Engine.jobs_takeFifo hqueue).append_right _).trans perm_second.symm
          · show (message.drop 4).length ≤ 1514
            unfold maxMtu at hmax
            rw [List.length_drop]
            omega

theorem phyRxStep (h : Confined uninit s) (ht : s.phyRxStep = some t) : Confined uninit t := by
  unfold NetDev.phyRxStep at ht
  have hsound := h.sound
  have hfits := h.phyRx
  unfold NetDev.outstanding at hsound
  split at ht
  next => contradiction
  next job payload hphy =>
    cases ht
    rw [hphy] at hsound hfits
    have hlen : payload.length.toUInt32.toNat ≤ 1514 := by
      rw [Nat.toUInt32, UInt32.toNat_ofNat']
      exact (Nat.mod_le _ _).trans hfits
    refine { h with sound := ?_, phyRx := hfits }
    exact SoundAt.perm (Sound.setSize (SoundAt.perm hsound perm_second) hlen) perm_second.symm
  next job payload hphy =>
    cases ht
    rw [hphy] at hsound hfits
    obtain ⟨hstart, -⟩ := Sound.fifo_bounds (SoundAt.perm hsound perm_second)
    have hlen : payload.length ≤ 1514 := hfits
    refine { h with sound := SoundAt.record hsound ?_, phyRx := trivial }
    show _ ≤ _
    omega
  next job hphy =>
    cases ht
    rw [hphy] at hsound
    have hdone := Sound.callback (SoundAt.perm hsound perm_second)
      fun c k e hk hok => posts_fifo (fun _ => rfl) k e hk hok
    refine { h with
      sound := ?_, codeLen := (callback_frame _ _).2.2.trans h.codeLen, phyRx := trivial }
    rw [NetDev.outstanding, jobs_callback]
    exact hdone

/-! ## the core -/

theorem changeCsr (h : Confined uninit s) (newVal : Bool) (mask : UInt32) :
    Confined uninit { s with eng := s.eng.changeCsr newVal mask } := by
  cases newVal with
  | false => exact { h with sound := SoundAt.setCsr h.sound _ }
  | true => exact { h with sound := SoundAt.setCsr h.sound _ }

theorem control (h : Confined uninit s) (features : UInt64) (type : UInt8) (data : List UInt8) :
    Confined uninit { s with eng := NetDev.handleControl s.eng features type data } := by
  unfold NetDev.handleControl
  split
  next =>
    split
    next => exact { h with sound := h.sound }
    next => exact h
  next =>
    split
    next => exact h
    next feature mask _ =>
      split
      next => exact h.changeCsr _ mask
      next => exact h

theorem handleTx (h : Confined uninit s) (hidle : s.core = .idle) (size : Option UInt16) :
    Confined uninit (s.handleTx size) := by
  have hsound := h.sound
  unfold NetDev.outstanding at hsound
  rw [hidle] at hsound
  have hpool := h.ramPoolIdx
  cases size with
  | none => exact h
  | some size =>
    rw [NetDev.handleTx]
    split
    next => exact h
    next hmax =>
      refine { h with sound := hsound, core := ⟨Nat.not_lt.1 hmax, ?_⟩, ramPoolIdx := ?_ }
      · have hbase : (0x24000 : UInt32).toNat = 147456 := rfl
        have hstep : (380 : UInt32).toNat = 380 := rfl
        rw [NetDev.pktIdx, UInt32.toNat_add, UInt32.toNat_mul, UInt16.toNat_toUInt32, hbase, hstep,
          Nat.mod_eq_of_lt (a := s.ramPoolIdx.toNat * 380) (by omega), Nat.mod_eq_of_lt (by omega)]
        omega
      · exact Nat.mod_lt _ (by decide)

theorem handleRx (h : Confined uninit s) (hidle : s.core = .idle) (len : UInt32) :
    Confined uninit (s.handleRx len) := by
  have hsound := h.sound
  unfold NetDev.outstanding at hsound
  rw [hidle] at hsound
  unfold NetDev.handleRx
  split
  next => exact h
  next => exact { h with sound := hsound, core := trivial }

theorem ringWord_eq (s : NetDev) : s.ringWord = 2 + 2 * s.txRingBufIdx.toNat := by
  rw [NetDev.ringWord, Nat.mul_comm]

/-- The core's steps in a transmit request. -/
theorem coreStep_tx (h : Confined uninit s) {data : Option (List UInt8)}
    (hjobs : s.core.jobs = []) (hget : s.core ≠ .rxGet) (ht : s.coreStep data = some t) :
    Confined uninit t := by
  have hsound := h.sound
  have hfits := h.core
  have hidx := h.txRingBufIdx
  have hword := ringWord_eq s
  unfold NetDev.outstanding at hsound
  rw [hjobs] at hsound
  unfold NetDev.coreStep at ht
  cases hcore : s.core with
  | idle =>
    rw [hcore] at ht
    contradiction
  | txPkt size pktIdx =>
    rw [hcore] at ht hfits
    cases data with
    | none =>
      cases ht
      exact { h with sound := hsound, core := trivial }
    | some bytes =>
      dsimp only at ht
      split at ht
      next hlen =>
        cases ht
        refine { h with sound := SoundAt.record hsound ?_, core := hfits }
        obtain ⟨hsize, hptr⟩ := hfits
        show _ ≤ _
        omega
      next => contradiction
  | txRing size pktIdx =>
    rw [hcore] at ht hfits
    cases ht
    have hrecord := SoundAt.record hsound (show (Event.scratch s.ringWord).Ok from by
      show _ < _
      omega)
    split
    next => exact { h with sound := hrecord, core := trivial }
    next => exact { h with sound := hrecord, core := hfits }
  | txPtr size pktIdx =>
    rw [hcore] at ht hfits
    cases ht
    have hptr : PtrOk s.txRingBufIdx.toNat pktIdx := by
      rw [PtrOk, if_pos hidx]
      exact AVal.mem_between.2 ⟨Nat.zero_le _, hfits.2⟩
    have hrecord := SoundAt.record hsound (show (Event.scratch (s.ringWord + 1)).Ok from by
      show _ < _
      omega)
    have hk : s.ringWord + 1 = 3 + 2 * s.txRingBufIdx.toNat := by omega
    rw [hk] at hrecord ⊢
    obtain ⟨hslots, hring⟩ := SoundAt.slots_second hrecord hptr
    exact { h with sound := SoundAt.setWord hrecord (by omega) hslots hring, core := hfits.1 }
  | txSize size =>
    rw [hcore] at ht hfits
    cases ht
    have hrecord := SoundAt.record hsound (show (Event.scratch s.ringWord).Ok from by
      show _ < _
      omega)
    have hslot : SlotOk s.txRingBufIdx.toNat (0x80000000 ||| (size.toUInt32 &&& 0xFFFFFF))
        (s.eng.obj (3 + 2 * s.txRingBufIdx.toNat)) := by
      have hold := hsound.slots s.txRingBufIdx.toNat (by omega)
      rw [SlotOk, if_pos hidx] at hold ⊢
      exact ⟨.inr (readySize_mem hfits), hold.2⟩
    rw [hword] at hrecord ⊢
    refine { h with
      sound := SoundAt.setWord hrecord (by omega) (hrecord.slots_first hslot)
        (RingStep.update (fun j hj => by omega) _)
      core := trivial
      txRingBufIdx := ?_ }
    exact Nat.mod_lt _ (by decide)
  | rxGet => exact absurd hcore hget
  | rxSize job =>
    rw [hcore] at hjobs
    contradiction
  | rxData job size =>
    rw [hcore] at hjobs
    contradiction
  | rxDone job =>
    rw [hcore] at hjobs
    contradiction

/-- The core gives up a receive request: the job's context waits for ever. -/
theorem abandon (h : Confined uninit s) {job : FifoJob}
    (hjobs : s.core.jobs = [.fifo .rxPkt job false]) :
    Confined uninit { s with core := .idle } := by
  have hsound := h.sound
  unfold NetDev.outstanding at hsound
  rw [hjobs] at hsound
  exact { h with sound := SoundAt.drop (SoundAt.perm hsound perm_third), core := trivial }

/-- The core's steps in a receive request, once it has a job. -/
theorem coreStep_rx (h : Confined uninit s) {data : Option (List UInt8)} {job : FifoJob}
    (hjobs : s.core.jobs = [.fifo .rxPkt job false]) (ht : s.coreStep data = some t) :
    Confined uninit t := by
  have hsound := h.sound
  have hfits := h.core
  unfold NetDev.outstanding at hsound
  rw [hjobs] at hsound
  obtain ⟨hstart, hsize⟩ := Sound.fifo_bounds (SoundAt.perm hsound perm_third)
  unfold NetDev.coreStep at ht
  cases hcore : s.core with
  | rxSize job' =>
    rw [hcore] at ht hjobs
    cases hjobs
    cases data with
    | none =>
      cases ht
      exact h.abandon (by rw [hcore]; rfl)
    | some _ =>
      cases ht
      refine { h with sound := hsound, core := ?_ }
      show (s.eng.reg job.size).toUInt16.toNat ≤ 1518
      rw [UInt32.toNat_toUInt16]
      exact (Nat.mod_le _ _).trans (hsize (by decide))
  | rxData job' size =>
    rw [hcore] at ht hjobs hfits
    cases hjobs
    cases data with
    | none =>
      cases ht
      exact h.abandon (by rw [hcore]; rfl)
    | some _ =>
      cases ht
      refine { h with sound := SoundAt.record hsound ?_, core := trivial }
      have hlen : size.toNat ≤ 1518 := hfits
      show _ ≤ _
      omega
  | rxDone job' =>
    rw [hcore] at ht hjobs
    cases hjobs
    cases ht
    have hdone := Sound.callback (SoundAt.perm hsound perm_third)
      fun c k e hk hok => posts_fifo (fun ho => absurd ho (by decide)) k e hk hok
    refine { h with
      sound := ?_, codeLen := (callback_frame _ _).2.2.trans h.codeLen, core := trivial }
    rw [NetDev.outstanding, jobs_callback]
    exact hdone
  | _ =>
    rw [hcore] at hjobs
    contradiction

/-- The core takes a job for a receive request. -/
theorem coreStep_rxGet (h : Confined uninit s) {data : Option (List UInt8)}
    (hcore : s.core = .rxGet) (ht : s.coreStep data = some t) : Confined uninit t := by
  have hsound := h.sound
  unfold NetDev.outstanding at hsound
  unfold NetDev.coreStep at ht
  rw [hcore] at ht hsound
  dsimp only at ht
  split at ht
  next => contradiction
  next job rest hqueue =>
    cases ht
    refine { h with sound := SoundAt.perm hsound ?_, core := trivial }
    exact ((Engine.jobs_takeFifo hqueue).append_right _).trans perm_third.symm

theorem coreStep (h : Confined uninit s) {data : Option (List UInt8)}
    (ht : s.coreStep data = some t) : Confined uninit t := by
  cases hcore : s.core with
  | rxGet => exact h.coreStep_rxGet hcore ht
  | rxSize job => exact h.coreStep_rx (by rw [hcore]; rfl) ht
  | rxData job size => exact h.coreStep_rx (by rw [hcore]; rfl) ht
  | rxDone job => exact h.coreStep_rx (by rw [hcore]; rfl) ht
  | _ => exact h.coreStep_tx (by rw [hcore]; rfl) (by rw [hcore]; exact Core.noConfusion) ht

/-! ## the card -/

/-- **Every step keeps the invariant**, from a state with the offload bits clear. -/
theorem step (h : Confined uninit s) (hcsr : s.eng.csr &&& 0x14 = 0) {a : Act}
    (ht : s.step a = some t) : Confined uninit t := by
  cases a with
  | interp u =>
    cases ht
    exact h.interp hcsr u
  | memory memory =>
    obtain ⟨eng, heng, rfl⟩ := Option.map_eq_some_iff.1 ht
    exact h.memory heng
  | phyTx => exact h.phyTxStep ht
  | incoming message =>
    obtain ⟨hidle, ht⟩ := Option.ite_none_right_eq_some.1 ht
    cases ht
    exact h.incomingPacket hidle message
  | phyRx => exact h.phyRxStep ht
  | control features type data =>
    obtain ⟨-, ht⟩ := Option.ite_none_right_eq_some.1 ht
    cases ht
    exact h.control features type data
  | tx size =>
    obtain ⟨hidle, ht⟩ := Option.ite_none_right_eq_some.1 ht
    cases ht
    exact h.handleTx hidle size
  | rx len =>
    obtain ⟨hidle, ht⟩ := Option.ite_none_right_eq_some.1 ht
    cases ht
    exact h.handleRx hidle len
  | core data => exact h.coreStep ht

/-! ## the start -/

theorem slotOk_zero {j : Nat} : SlotOk j 0 0 := by
  unfold SlotOk
  split
  next => exact ⟨.inl (AVal.mem_between.2 (by decide)), AVal.mem_between.2 (by decide)⟩
  next => exact .inl (AVal.mem_const.2 rfl)

theorem top_mem_ann (c : Ctx) : AEnv.top ∈ ann c 0 := by
  revert c
  decide +kernel

theorem holds_top (obj : Nat → UInt32) (c : Ctx) : Holds obj c .top :=
  ⟨fun _ _ => trivial, fun hs => absurd hs Bool.false_ne_true⟩

theorem init (uninit : Nat → UInt8) (lastAlu : UInt32) (mac : List UInt8) (nic : UInt32) :
    Confined uninit (NetDev.init Firmware.image uninit lastAlu mac nic) where
  sound := by
    refine ⟨fun i _ => ?_, fun j hj => ?_, fun c _ => ?_, fun c => ?_, ?_, ?_⟩
    · show (if 1281 + i < 1281 then 0 else Engine.codeWord Firmware.image uninit (1281 + i - 1281)) = _
      rw [if_neg (by omega), Nat.add_sub_cancel_left]
    · show SlotOk j (if _ then _ else _) (if _ then _ else _)
      rw [if_pos (by omega), if_pos (by omega)]
      exact slotOk_zero
    · exact ⟨.top, top_mem_ann c, holds_top _ c, trivial, fun _ => rfl⟩
    · exact Nat.zero_le _
    · intro J hJ
      contradiction
    · intro ev hev
      contradiction
  codeLen := by
    obtain ⟨hlength, -⟩ := emit_spec Firmware.emit_program
    show Firmware.image.length.toUInt32 = 1295
    rw [hlength, Firmware.length_program]
    rfl
  phyRx := trivial
  core := trivial
  txRingBufIdx := show (0 : UInt16).toNat < 16 by decide
  ramPoolIdx := show (0 : UInt16).toNat < 256 by decide

end Confined

/-- The card takes steps while both transmit offload bits of the CSR are clear. -/
def OffloadsOff (s : NetDev) (_ : Act) : Prop := s.eng.csr &&& 0x14 = 0

instance (s : NetDev) (a : Act) : Decidable (OffloadsOff s a) :=
  inferInstanceAs (Decidable (_ = _))

/-- **Confinement of the firmware.**  In every run of the card with the transmit
offloads off, under every interleaving of its threads, every job moves at most two
words within the issuing context's own transfer bank, every access to scratch memory
and RAM is inside that memory, and `m_code` is as it was loaded. -/
theorem firmware_confined (uninit : Nat → UInt8) (lastAlu : UInt32) (mac : List UInt8)
    (nic : UInt32) {acts : List Act} {t : NetDev}
    (h : Run (Guarded OffloadsOff fun s a t => s.step a = some t)
      (NetDev.init Firmware.image uninit lastAlu mac nic) acts t) :
    (∀ ev ∈ t.eng.log, ev.Ok) ∧
      ∀ i < 1280, t.eng.code i =
        (NetDev.init Firmware.image uninit lastAlu mac nic).eng.code i := by
  have hinit := Confined.init uninit lastAlu mac nic
  have hconfined : Confined uninit t :=
    h.invariant (fun s a t hs hstep => hs.step hstep.1 hstep.2) hinit
  refine ⟨hconfined.sound.log, fun i hi => ?_⟩
  exact (hconfined.sound.code i hi).trans (hinit.sound.code i hi).symm

/-- The guest sends a packet of four bytes, the first context asks for a word of RAM
and the RAM worker fetches it. -/
def firstJob : List Act :=
  [Act.tx (some 4), .core (some [1, 2, 3, 4]), .core none, .core none, .core none] ++
    List.replicate 14 (Act.interp 0) ++ [Act.memory .ram, .memory .ram]

theorem firmware_confined_firstJob : ∃ t,
    Run (Guarded OffloadsOff fun s a t => s.step a = some t)
      (NetDev.init Firmware.image (fun _ => 0) 0 [] 1) firstJob t ∧
    t.eng.log = [.ram 589824 4, .scratch 2, .scratch 3, .scratch 2,
      .issue 0 .ram ⟨.read, 8192, 192, 1, some 0⟩, .ram 32768 4] ∧
    ∀ ev ∈ t.eng.log, ev.Ok := by
  have hlog : (exec (fun s l => if OffloadsOff s l then s.step l else none)
      (NetDev.init Firmware.image (fun _ => 0) 0 [] 1) firstJob).map (fun t => t.eng.log) =
      some [.ram 589824 4, .scratch 2, .scratch 3, .scratch 2,
        .issue 0 .ram ⟨.read, 8192, 192, 1, some 0⟩, .ram 32768 4] := by
    decide +kernel
  obtain ⟨t, ht, hlog⟩ := Option.map_eq_some_iff.1 hlog
  have hrun := run_guarded_of_exec ht
  exact ⟨t, hrun, hlog, (firmware_confined (fun _ => 0) 0 [] 1 hrun).1⟩

end Ooows.Net
