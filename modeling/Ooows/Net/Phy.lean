import Ooows.Lib.Run
import Ooows.Net.NetDev

/-!
# Ooows.Net.Phy

A frame on its way from one card to another.

`Phy::handle_tx` puts the sender's id before the frame and publishes both as one
message.  `incoming_packet` takes the id off again, but bounds the size before: the
message of a frame that `handleTx` accepts may be too long for it.
-/

namespace Ooows.Net

open Lib Lib.Bits

/-- The message that `Phy::handle_tx` publishes for a frame. -/
def phyMessage (nic : UInt32) (frame : List UInt8) : List UInt8 :=
  ByteMem.bytesOfNat 4 nic.toNat ++ frame

/-- `handleTx` accepts a frame: a card that serves no other request goes on with it. -/
def Accepts (frame : List UInt8) : Prop :=
  ∃ (s : NetDev) (size : UInt16), s.core = .idle ∧ size.toNat = frame.length ∧
    (s.handleTx (some size)).core ≠ .idle

/-- A card has a frame's job for its PHY, which has taken it: the frame lies in RAM where
the job says, and the job's register holds its size. -/
def Sends (s : NetDev) (frame : List UInt8) : Prop :=
  ∃ job, s.phyTx = .got job ∧ (s.eng.reg job.size).toNat = frame.length ∧
    s.eng.ram.readBytes (4 * job.start.toNat) frame.length = frame

/-- A card's firmware waits in `r_fifo_rd`, and its PHY for a message. -/
structure Listens (s : NetDev) (job : FifoJob) : Prop where
  idle : s.phyRx = .idle
  queue : ∃ rest, s.eng.fifoQueue .rFifoRd = job :: rest

/-- **A message brings a frame to a job**: `incoming_packet` goes through with it, and
then the frame lies in RAM where the job says and the job's register holds its size. -/
def Receives (s : NetDev) (job : FifoJob) (message frame : List UInt8) : Prop :=
  ∃ t, exec NetDev.step s [.incoming message, .phyRx, .phyRx, .phyRx] = some t ∧
    t.eng.ram.readBytes (4 * job.start.toNat) frame.length = frame ∧
    (t.eng.reg job.size).toNat = frame.length

/-! ## the sender -/

variable {frame : List UInt8}

theorem Accepts.length_le (h : Accepts frame) : frame.length ≤ maxMtu := by
  obtain ⟨s, size, hidle, hsize, hcore⟩ := h
  rw [← hsize]
  refine Nat.le_of_not_lt fun hlt => hcore ?_
  rw [NetDev.handleTx, if_pos hlt, hidle]

variable {s : NetDev}

theorem Sends.publishes (h : Sends s frame) :
    ∃ t, s.step .phyTx = some t ∧ t.published = s.published ++ [phyMessage s.nic frame] := by
  obtain ⟨job, hjob, hsize, hframe⟩ := h
  refine ⟨_, by simp only [NetDev.step, NetDev.phyTxStep, hjob]; rfl, ?_⟩
  simp only [hsize, hframe, phyMessage]

/-! ## the receiver -/

theorem length_phyMessage (nic : UInt32) (frame : List UInt8) :
    (phyMessage nic frame).length = 4 + frame.length := by
  rw [phyMessage, List.length_append, ByteMem.length_bytesOfNat]

theorem take_phyMessage (nic : UInt32) (frame : List UInt8) :
    ofBytes ((phyMessage nic frame).take 4) = nic.toNat := by
  rw [phyMessage, List.take_left' (ByteMem.length_bytesOfNat ..), ByteMem.ofBytes_bytesOfNat]
  exact Nat.mod_eq_of_lt nic.toNat_lt

theorem drop_phyMessage (nic : UInt32) (frame : List UInt8) : (phyMessage nic frame).drop 4 = frame := by
  rw [phyMessage, List.drop_left' (ByteMem.length_bytesOfNat ..)]

/-- A message that carries the card's own id is ignored. -/
theorem incomingPacket_own {message : List UInt8}
    (h : ofBytes (message.take 4) = s.nic.toNat) : s.incomingPacket message = s := by
  unfold NetDev.incomingPacket
  split
  next => rfl
  next =>
    split
    next => rfl
    next => rw [ite_self]

/-- What `incoming_packet` makes of another card's message. -/
theorem incomingPacket_phyMessage {job : FifoJob} {nic : UInt32}
    (h : Listens s job) (hnic : nic ≠ s.nic) (hframe : frame ≠ []) :
    (s.incomingPacket (phyMessage nic frame)).phyRx =
      if frame.length + 4 ≤ maxMtu then .got job frame else .idle := by
  obtain ⟨hidle, rest, hqueue⟩ := h
  have hpos : 0 < frame.length := List.length_pos_iff.2 hframe
  have hother : ofBytes ((phyMessage nic frame).take 4) ≠ s.nic.toNat := by
    rw [take_phyMessage]
    exact fun heq => hnic (UInt32.toNat_inj.1 heq)
  simp only [NetDev.incomingPacket, hqueue, length_phyMessage, hother, if_false]
  rw [if_neg (by omega)]
  by_cases hlength : frame.length + 4 ≤ maxMtu
  · rw [if_neg (by omega), if_pos hlength, drop_phyMessage]
  · rw [if_pos (by omega), if_neg hlength, hidle]

/-- The rest of `incoming_packet`. -/
theorem exec_phyRx {job : FifoJob} (h : s.phyRx = .got job frame)
    (hlength : frame.length < 2 ^ 32) : ∃ t, exec NetDev.step s [.phyRx, .phyRx, .phyRx] = some t ∧
      t.eng.ram.readBytes (4 * job.start.toNat) frame.length = frame ∧
      (t.eng.reg job.size).toNat = frame.length := by
  refine ⟨_, by simp only [exec, NetDev.step, NetDev.phyRxStep, h, Option.bind_some]; rfl, ?_, ?_⟩
  · cases job.callback <;> exact ByteMem.readBytes_writeBytes ..
  · have hreg : ((s.eng.setReg job.size frame.length.toUInt32).reg job.size).toNat = frame.length := by
      simpa [Engine.reg, Engine.setReg, Engine.setObj] using hlength
    cases job.callback <;> exact hreg

/-- **A frame survives the PHY just if it has at most 1514 bytes.**  For every frame that
`handleTx` accepts, every sender, and every receiver with another id whose firmware waits
for a packet: the sender publishes one message, and the receiver stores the frame and its
size exactly if the frame and the sender's id together are not longer than a frame may
be.  A message with the receiver's own id is ignored. -/
theorem frame_survives_iff {sender receiver : NetDev} {job : FifoJob}
    (haccepts : Accepts frame) (hframe : frame ≠ []) (hsend : Sends sender frame)
    (hwait : Listens receiver job) (hnic : sender.nic ≠ receiver.nic) :
    (∃ t message, sender.step .phyTx = some t ∧ t.published = sender.published ++ [message] ∧
      (Receives receiver job message frame ↔ frame.length ≤ 1514)) ∧
    ∀ message, ofBytes (message.take 4) = receiver.nic.toNat →
      receiver.incomingPacket message = receiver := by
  refine ⟨?_, fun message => incomingPacket_own⟩
  obtain ⟨t, hstep, hpublished⟩ := hsend.publishes
  refine ⟨t, _, hstep, hpublished, ?_⟩
  have hle := haccepts.length_le
  have hgot := incomingPacket_phyMessage hwait hnic hframe
  unfold Receives
  simp only [exec, NetDev.step, hwait.idle, if_true, Option.bind_some]
  by_cases hlength : frame.length ≤ 1514
  · rw [if_pos (show frame.length + 4 ≤ maxMtu from Nat.add_le_add_right hlength 4)] at hgot
    obtain ⟨u, hu, hstored⟩ := exec_phyRx hgot (by unfold maxMtu at hle; omega)
    exact iff_of_true ⟨u, hu, hstored⟩ hlength
  · rw [if_neg (show ¬ frame.length + 4 ≤ maxMtu by unfold maxMtu; omega)] at hgot
    refine iff_of_false ?_ hlength
    -- nothing was taken, so there is nothing to go on with
    rintro ⟨u, hu, -⟩
    simp [NetDev.phyRxStep, hgot] at hu

/-- A frame of zeros. -/
def zeroFrame (size : UInt16) : List UInt8 := List.replicate size.toNat 0

@[simp] theorem length_zeroFrame (size : UInt16) : (zeroFrame size).length = size.toNat :=
  List.length_replicate ..

/-- A card with nothing in its RAM, and a size in a register. -/
def zeroCard (nic : UInt32) (size : UInt16) : NetDev :=
  let s := NetDev.init [] (fun _ => 0) 0 [] nic
  { s with eng := { s.eng.setReg 0 size.toUInt32 with ram := fun _ => 0 } }

def zeroSender (size : UInt16) : NetDev := { zeroCard 1 size with phyTx := .got ⟨0, 0, none⟩ }

def zeroReceiver : NetDev :=
  let s := zeroCard 2 0
  { s with eng := { s.eng with fifoQueue := fun _ => [⟨0, 0, none⟩] } }

theorem sends_zeroSender (size : UInt16) : Sends (zeroSender size) (zeroFrame size) := by
  refine ⟨⟨0, 0, none⟩, rfl, ?_, ?_⟩
  · simp [zeroSender, zeroCard, Engine.reg, Engine.setReg, Engine.setObj]
  · simp [zeroSender, zeroCard, zeroFrame, ByteMem.readBytes, List.map_const']

theorem accepts_zeroFrame {size : UInt16} (h : size.toNat ≤ maxMtu) : Accepts (zeroFrame size) := by
  refine ⟨zeroCard 1 0, size, rfl, (length_zeroFrame size).symm, ?_⟩
  rw [NetDev.handleTx, if_neg (Nat.not_lt.2 h)]
  exact Core.noConfusion

theorem listens_zeroReceiver : Listens zeroReceiver ⟨0, 0, none⟩ := ⟨rfl, [], rfl⟩

theorem zeroFrame_ne_nil {size : UInt16} (h : 0 < size.toNat) : zeroFrame size ≠ [] :=
  List.ne_nil_of_length_pos (by rw [length_zeroFrame]; exact h)

theorem frame_survives_1514 : ∃ t message, (zeroSender 1514).step .phyTx = some t ∧
    t.published = [message] ∧ Receives zeroReceiver ⟨0, 0, none⟩ message (zeroFrame 1514) := by
  have haccepts : Accepts (zeroFrame 1514) := accepts_zeroFrame (by decide)
  obtain ⟨⟨t, message, hstep, hpublished, hiff⟩, -⟩ := frame_survives_iff haccepts
    (zeroFrame_ne_nil (by decide)) (sends_zeroSender 1514) listens_zeroReceiver (by decide)
  exact ⟨t, message, hstep, hpublished, hiff.2 (by rw [length_zeroFrame]; decide)⟩

/-- **The longest frames are lost**: a frame of 1515 bytes, which `handleTx` accepts, is
ignored by the card it comes to. -/
theorem frame_of_1515_lost : ∃ t message, Accepts (zeroFrame 1515) ∧
    (zeroSender 1515).step .phyTx = some t ∧ t.published = [message] ∧
    Listens zeroReceiver ⟨0, 0, none⟩ ∧ zeroReceiver.incomingPacket message = zeroReceiver ∧
    ¬ Receives zeroReceiver ⟨0, 0, none⟩ message (zeroFrame 1515) := by
  obtain ⟨t, hstep, hpublished⟩ := (sends_zeroSender 1515).publishes
  have hlong : (phyMessage (zeroSender 1515).nic (zeroFrame 1515)).length = 1519 := by
    rw [length_phyMessage, length_zeroFrame]
    rfl
  have hignored : zeroReceiver.incomingPacket (phyMessage (zeroSender 1515).nic (zeroFrame 1515)) =
      zeroReceiver := by
    simp only [NetDev.incomingPacket, hlong]
    rfl
  refine ⟨t, _, accepts_zeroFrame (by decide), hstep, hpublished, listens_zeroReceiver, hignored, ?_⟩
  rintro ⟨u, hu, -⟩
  simp only [exec, NetDev.step, listens_zeroReceiver.idle, if_true, Option.bind_some, hignored] at hu
  cases hu

end Ooows.Net
