import Ooows.Net.Requests
import Ooows.Ogx.Frame
import Ooows.P9.Device

/-!
# Ooows.BufferUse

What the three devices do with the buffers that `get_buf` gives them.

`VirtBuf` checks every access against the guest's memory and none against the buffer, and
`host_addr` checks nothing.  The network device looks at the length of a buffer only before
it receives a packet, the 9P device only before it looks at the size of a message, and the
O(OO)GX device never.  So a device stays in its buffer if the buffer is as long as what is
in it says, or if the guest's memory ends before that (`Use.Fits`).  Responses of the 9P
device are written under the buffer's length and always stay in it.
-/

namespace Ooows

open Lib Bits ByteMem Virtio

/-! ## the 9P device -/

namespace P9

/-- `handleTMesg`, as far as it concerns the buffer. -/
def touchTMesg (b : Buf) : Buf :=
  if b.vbuf.len.toNat < sizeofPkt then b
  else
    let size := b.readHost 0 4
    if ofBytes size.1 < sizeofPkt then size.2
    else (size.2.readHost 4 (ofBytes size.1 - 4)).2

/-- The `WRITE`s of a response, until one does not fit. -/
def writeBlocks (b : Buf) : Nat → List Bytes → Bool × Buf
  | _, [] => (true, b)
  | offset, block :: blocks =>
    if b.vbuf.len.toNat < offset + block.length then (false, b)
    else writeBlocks (b.writeHost offset block) (offset + block.length) blocks

/-- `SerializeTo` the buffer. -/
def writeRMesg (tag : UInt16) (m : RMesg) (b : Buf) : Bool × Buf :=
  writeBlocks b 0 (m.headerBlocks tag ++ m.bodyBlocks)

end P9

/-! ## the uses of a buffer -/

/-- What a device does with a buffer. -/
inductive Use
  /-- `NetDev::handleControl`. -/
  | control
  /-- `NetDev::handleTx`. -/
  | tx
  /-- `NetDev::handleRx`, for the packet that is taken from the queue. -/
  | rx (packet : List UInt8) (size : packet.length < 2 ^ 16)
  /-- `P9FsDev::handleTMesg`. -/
  | tmesg
  /-- A round of `P9FsDev::ResponseLoop`. -/
  | rmesg (tag : UInt16) (m : P9.RMesg)
  /-- `GuestDevice::ReadDriverMessage`. -/
  | driverMessage (uninit : UInt16)
  /-- A response in `GuestDevice::Execute`. -/
  | response (ciphertext : List UInt8) (size : ciphertext.length < 2 ^ 64)

def Use.run (b : Buf) : Use → Buf
  | .control => (Net.readControl b).2
  | .tx => (Net.readTx b).2
  | .rx packet _ => (Net.writeRx packet b).2
  | .tmesg => P9.touchTMesg b
  | .rmesg tag m => (P9.writeRMesg tag m b).2
  | .driverMessage uninit => (Ogx.readDriverMessage uninit b).2
  | .response ciphertext _ => Ogx.writeResponse ciphertext b

/-- The bytes of the guest's memory from the start of the buffer on. -/
def room (vbuf : VirtBuf) : Nat := 0x200000 - vbuf.guestAddr.toNat

/-- The buffer has that many bytes, or the guest's memory does not. -/
def Holds (vbuf : VirtBuf) (n : Nat) : Prop := n ≤ vbuf.len.toNat ∨ room vbuf < n

/-- The length at the start of the buffer. -/
def prefixed (mem : ByteMem) (vbuf : VirtBuf) (n : Nat) : Nat := mem.load vbuf.guestAddr.toNat n

/-- **Condition**: what is in the buffer, or is written to it, is no longer than the buffer. -/
def Use.Fits (mem : ByteMem) (vbuf : VirtBuf) : Use → Prop
  | .control => Holds vbuf 129
  | .tx => Holds vbuf 2 ∧ (prefixed mem vbuf 2 ≤ Net.maxMtu → Holds vbuf (2 + prefixed mem vbuf 2))
  | .rx packet _ => Net.maxMtu + 2 ≤ vbuf.len.toNat → Holds vbuf (2 + packet.length)
  | .tmesg => 7 ≤ vbuf.len.toNat → 7 ≤ prefixed mem vbuf 4 → prefixed mem vbuf 4 ≤ vbuf.len.toNat
  | .rmesg _ _ => True
  | .driverMessage uninit =>
    if 2 ≤ room vbuf then Holds vbuf 2 ∧ Holds vbuf (2 + prefixed mem vbuf 2)
    else Holds vbuf uninit.toNat
  | .response ciphertext _ => Holds vbuf 2 ∧ Holds vbuf (2 + ciphertext.length)

/-! ## blocks at the start of a buffer -/

variable {vbuf : VirtBuf} {mem : ByteMem} {b : Buf} {n : Nat}

theorem inside_iff (hin : Inside vbuf.guestAddr vbuf.len.toNat) :
    Inside vbuf.guestAddr n ↔ n ≤ room vbuf := by
  unfold Inside at hin ⊢
  rw [room]
  omega

theorem holds_iff (hin : Inside vbuf.guestAddr vbuf.len.toNat) :
    (Inside vbuf.guestAddr n → Block.In ⟨vbuf.guestAddr.toNat, n⟩ vbuf) ↔ Holds vbuf n := by
  rw [inside_iff hin, Block.in_iff, Holds]
  omega

/-- The block behind the two bytes with its length. -/
theorem holds_behind_iff (hin : Inside vbuf.guestAddr vbuf.len.toNat) (htwo : Holds vbuf 2) :
    (Inside (vbuf.guestAddr + 2) n → Block.In ⟨(vbuf.guestAddr + 2).toNat, n⟩ vbuf) ↔
      Holds vbuf (2 + n) := by
  unfold Inside at hin
  have hadd : (vbuf.guestAddr + 2).toNat = vbuf.guestAddr.toNat + 2 := by
    rw [UInt64.toNat_add, show (2 : UInt64).toNat = 2 from rfl]
    exact Nat.mod_eq_of_lt (by omega)
  rw [Holds, room] at htwo
  rw [Block.in_iff, Holds, room, Inside, hadd]
  omega

/-! ## reading and writing a frame -/

theorem readU_two (hroom : 2 ≤ room vbuf) (hin : Inside vbuf.guestAddr vbuf.len.toNat) :
    (Buf.fresh mem vbuf).readU 2 = (some (mem.readBytes vbuf.guestAddr.toNat 2),
      { (Buf.fresh mem vbuf).touch vbuf.guestAddr.toNat 2 with head := vbuf.guestAddr + 2 }) :=
  Buf.readU_of_inside ((inside_iff hin).2 hroom)

theorem readU_two_of_short (hroom : ¬ 2 ≤ room vbuf)
    (hin : Inside vbuf.guestAddr vbuf.len.toNat) :
    (Buf.fresh mem vbuf).readU 2 = (none, Buf.fresh mem vbuf) :=
  Buf.readU_of_not_inside (mt (inside_iff hin).1 hroom)

theorem prefixed_lt (mem : ByteMem) (vbuf : VirtBuf) : prefixed mem vbuf 2 < 2 ^ 16 := by
  have h := ofBytes_lt (mem.readBytes vbuf.guestAddr.toNat 2)
  rw [length_readBytes] at h
  exact h

theorem toNat_toUInt64_of_lt (h : n < 2 ^ 64) : n.toUInt64.toNat = n := by
  rw [Nat.toUInt64, UInt64.toNat_ofNat']
  exact Nat.mod_eq_of_lt h

theorem confined_control (hin : Inside vbuf.guestAddr vbuf.len.toNat) :
    (Net.readControl (.fresh mem vbuf)).2.Confined ↔ Holds vbuf 129 := by
  have hread : (Net.readControl (.fresh mem vbuf)).2 =
      ((Buf.fresh mem vbuf).readU Net.sizeofControlMsg).2 := by
    unfold Net.readControl
    rcases (Buf.fresh mem vbuf).readU Net.sizeofControlMsg with ⟨_ | _, _⟩ <;> rfl
  rw [hread, Buf.confined_readU, and_iff_right (Buf.confined_fresh mem vbuf)]
  exact holds_iff hin

/-- A length of two bytes, and then that many bytes. -/
theorem confined_frame (mem : ByteMem) (hroom : 2 ≤ room vbuf)
    (hin : Inside vbuf.guestAddr vbuf.len.toNat) (hn : n < 2 ^ 64) :
    (((Buf.fresh mem vbuf).readU 2).2.readU n.toUInt64).2.Confined ↔
      Holds vbuf 2 ∧ Holds vbuf (2 + n) := by
  rw [Buf.confined_readU, Buf.confined_readU, and_iff_right (Buf.confined_fresh mem vbuf),
    readU_two hroom hin, toNat_toUInt64_of_lt hn]
  have htwo : (Inside (Buf.fresh mem vbuf).head (2 : UInt64).toNat →
      Block.In ⟨(Buf.fresh mem vbuf).head.toNat, (2 : UInt64).toNat⟩ (Buf.fresh mem vbuf).vbuf) ↔
      Holds vbuf 2 := holds_iff hin
  rw [htwo]
  exact and_congr_right (holds_behind_iff hin)

theorem confined_two (hin : Inside vbuf.guestAddr vbuf.len.toNat) :
    ((Buf.fresh mem vbuf).readU 2).2.Confined ↔ Holds vbuf 2 := by
  rw [Buf.confined_readU, and_iff_right (Buf.confined_fresh mem vbuf)]
  exact holds_iff hin

theorem holds_of_short (hroom : ¬ 2 ≤ room vbuf) : Holds vbuf (2 + n) := .inr (by omega)

theorem confined_tx (hin : Inside vbuf.guestAddr vbuf.len.toNat) :
    (Net.readTx (.fresh mem vbuf)).2.Confined ↔ Holds vbuf 2 ∧
      (prefixed mem vbuf 2 ≤ Net.maxMtu → Holds vbuf (2 + prefixed mem vbuf 2)) := by
  by_cases hroom : 2 ≤ room vbuf
  · have htx : Net.readTx (.fresh mem vbuf) =
        if prefixed mem vbuf 2 > Net.maxMtu then (none, ((Buf.fresh mem vbuf).readU 2).2)
        else ((Buf.fresh mem vbuf).readU 2).2.readU (prefixed mem vbuf 2).toUInt64 := by
      unfold Net.readTx
      rw [readU_two hroom hin]
      rfl
    rw [htx]
    by_cases hlong : prefixed mem vbuf 2 > Net.maxMtu
    · rw [if_pos hlong, confined_two hin]
      exact ⟨fun h => ⟨h, fun hle => absurd hle (Nat.not_le.2 hlong)⟩, And.left⟩
    · have hlt := prefixed_lt mem vbuf
      rw [if_neg hlong, confined_frame mem hroom hin (by omega)]
      exact and_congr_right fun _ => ⟨fun h _ => h, fun h => h (Nat.not_lt.1 hlong)⟩
  · have htx : (Net.readTx (.fresh mem vbuf)).2 = .fresh mem vbuf := by
      unfold Net.readTx
      rw [readU_two_of_short hroom hin]
    rw [htx]
    exact ⟨fun _ => ⟨holds_of_short (n := 0) hroom, fun _ => holds_of_short hroom⟩,
      fun _ => Buf.confined_fresh mem vbuf⟩

theorem confined_driverMessage (uninit : UInt16) (hin : Inside vbuf.guestAddr vbuf.len.toNat) :
    (Ogx.readDriverMessage uninit (.fresh mem vbuf)).2.Confined ↔
      if 2 ≤ room vbuf then Holds vbuf 2 ∧ Holds vbuf (2 + prefixed mem vbuf 2)
      else Holds vbuf uninit.toNat := by
  unfold Ogx.readDriverMessage
  by_cases hroom : 2 ≤ room vbuf
  · have hlt := prefixed_lt mem vbuf
    rw [if_pos hroom, ← confined_frame mem hroom hin (by omega), readU_two hroom hin]
    rfl
  · have huninit := uninit.toNat_lt
    rw [if_neg hroom, readU_two_of_short hroom hin]
    dsimp only [Option.map_none, Option.getD_none]
    rw [Buf.confined_readU, and_iff_right (Buf.confined_fresh mem vbuf),
      toNat_toUInt64_of_lt (by omega)]
    exact holds_iff hin

theorem confined_response {ciphertext : List UInt8} (size : ciphertext.length < 2 ^ 64)
    (hin : Inside vbuf.guestAddr vbuf.len.toNat) :
    (Ogx.writeResponse ciphertext (.fresh mem vbuf)).Confined ↔
      Holds vbuf 2 ∧ Holds vbuf (2 + ciphertext.length) := by
  have hvbuf : ((Buf.fresh mem vbuf).writeAt 0 (bytesOfNat 2 ciphertext.length)).2.vbuf = vbuf := by
    unfold Buf.writeAt
    split <;> rfl
  have htwo : (Inside (vbuf.guestAddr + 0) 2 → Block.In ⟨(vbuf.guestAddr + 0).toNat, 2⟩ vbuf) ↔
      Holds vbuf 2 := by
    rw [UInt64.add_zero]
    exact holds_iff hin
  unfold Ogx.writeResponse Ogx.writeFrame
  dsimp only
  rw [Buf.confined_writeAt _ _ size, Buf.confined_writeAt _ _ (by rw [length_bytesOfNat]; decide),
    and_iff_right (Buf.confined_fresh mem vbuf), hvbuf, length_bytesOfNat]
  exact (and_congr_left' htwo).trans (and_congr_right (holds_behind_iff hin))

theorem confined_rx {packet : List UInt8} (size : packet.length < 2 ^ 16)
    (hin : Inside vbuf.guestAddr vbuf.len.toNat) :
    (Net.writeRx packet (.fresh mem vbuf)).2.Confined ↔
      (Net.maxMtu + 2 ≤ vbuf.len.toNat → Holds vbuf (2 + packet.length)) := by
  unfold Net.writeRx
  by_cases hlen : vbuf.len.toNat < Net.maxMtu + 2
  · rw [if_pos (show (Buf.fresh mem vbuf).vbuf.len.toNat < Net.maxMtu + 2 from hlen)]
    exact ⟨fun _ hle => absurd hle (Nat.not_le.2 hlen), fun _ => Buf.confined_fresh mem vbuf⟩
  · have htwo : Holds vbuf 2 := .inl (by omega)
    have hblock : (bytesOfNat 2 packet.length).length = 2 := length_bytesOfNat ..
    have hinside : Inside (Buf.fresh mem vbuf).head (bytesOfNat 2 packet.length).length := by
      rw [hblock]
      exact (inside_iff hin).2 (by unfold Inside at hin; rw [room]; omega)
    have hconf := Buf.confined_writeU (Buf.fresh mem vbuf) (by rw [hblock]; decide)
    rw [and_iff_right (Buf.confined_fresh mem vbuf), hblock] at hconf
    rw [if_neg (show ¬ (Buf.fresh mem vbuf).vbuf.len.toNat < Net.maxMtu + 2 from hlen)]
    rw [Buf.writeU_of_inside (by rw [hblock]; decide) hinside] at hconf ⊢
    dsimp only at hconf ⊢
    rw [Buf.confined_writeU _ (by omega), and_iff_right (hconf.2 ((holds_iff hin).2 htwo)), hblock]
    exact (holds_behind_iff hin htwo).trans ⟨fun h _ => h, fun h => h (Nat.not_lt.1 hlen)⟩

theorem confined_tmesg :
    (P9.touchTMesg (.fresh mem vbuf)).Confined ↔ (7 ≤ vbuf.len.toNat → 7 ≤ prefixed mem vbuf 4 →
      prefixed mem vbuf 4 ≤ vbuf.len.toNat) := by
  unfold P9.touchTMesg
  by_cases hlen : vbuf.len.toNat < 7
  · rw [if_pos (show (Buf.fresh mem vbuf).vbuf.len.toNat < P9.sizeofPkt from hlen)]
    exact ⟨fun _ hle => absurd hle (Nat.not_le.2 hlen), fun _ => Buf.confined_fresh mem vbuf⟩
  · rw [if_neg (show ¬ (Buf.fresh mem vbuf).vbuf.len.toNat < P9.sizeofPkt from hlen)]
    have hsize : ofBytes ((Buf.fresh mem vbuf).readHost 0 4).1 = prefixed mem vbuf 4 := rfl
    have hconf : ((Buf.fresh mem vbuf).readHost 0 4).2.Confined :=
      (Buf.confined_touch ..).2 ⟨Buf.confined_fresh mem vbuf,
        (Block.in_offset_iff vbuf 0 4).2 (.inr (by omega))⟩
    dsimp only
    rw [hsize]
    by_cases hsmall : prefixed mem vbuf 4 < 7
    · rw [if_pos (show prefixed mem vbuf 4 < P9.sizeofPkt from hsmall)]
      exact ⟨fun _ _ hle => absurd hle (Nat.not_le.2 hsmall), fun _ => hconf⟩
    · rw [if_neg (show ¬ prefixed mem vbuf 4 < P9.sizeofPkt from hsmall)]
      have hread := Buf.confined_touch ((Buf.fresh mem vbuf).readHost 0 4).2
        (vbuf.guestAddr.toNat + 4) (prefixed mem vbuf 4 - 4)
      refine hread.trans ((and_iff_right hconf).trans ((Block.in_offset_iff vbuf 4 _).trans ?_))
      omega

/-- Blocks that are written under the length of the buffer. -/
theorem confined_writeBlocks (offset : Nat) (blocks : List Bytes) (h : b.Confined) :
    (P9.writeBlocks b offset blocks).2.Confined := by
  induction blocks generalizing b offset with
  | nil => exact h
  | cons block blocks ih =>
    rw [P9.writeBlocks]
    split
    · exact h
    next hfits =>
      refine ih _ ?_
      have htouch := (Buf.confined_touch b (b.vbuf.guestAddr.toNat + offset) block.length).2
        ⟨h, (Block.in_offset_iff b.vbuf offset block.length).2 (.inr (Nat.not_lt.1 hfits))⟩
      exact htouch

/-! ## every use of every buffer -/

theorem confined_iff_fits (hin : Inside vbuf.guestAddr vbuf.len.toNat) (use : Use) :
    (use.run (.fresh mem vbuf)).Confined ↔ use.Fits mem vbuf := by
  cases use with
  | control => exact confined_control hin
  | tx => exact confined_tx hin
  | rx packet size => exact confined_rx size hin
  | tmesg => exact confined_tmesg
  | rmesg tag m =>
    exact iff_of_true (confined_writeBlocks 0 _ (Buf.confined_fresh mem vbuf)) trivial
  | driverMessage uninit => exact confined_driverMessage uninit hin
  | response ciphertext size => exact confined_response size hin

/-- **Devices and their buffers.**  For every buffer that `get_buf` returns to a device, in every
run, whatever is then in the guest's memory: each byte that is read or written on behalf of
the buffer lies in it exactly if what is there, or is to be written, fits. -/
theorem devices_stay_inside_iff {numVqs : UInt32} (hpos : 0 < numVqs) (deviceId vendorId : UInt32)
    (deviceFeatures : UInt64) (mem : ByteMem) {acts : List DevAct} {d d' : Virtio.Dev}
    (hrun : Run DevStep (Dev.init numVqs deviceId vendorId deviceFeatures mem) acts d)
    {vqIdx : UInt16} {uninit : UInt32} (hget : d.getBuf vqIdx uninit = .ok (some vbuf, d'))
    (now : ByteMem) (use : Use) :
    (use.run (.fresh now vbuf)).Confined ↔ use.Fits now vbuf := by
  obtain ⟨vq, hvq⟩ : ∃ vq, d.readyVq vqIdx = some vq := by
    refine Option.ne_none_iff_exists'.1 fun hnone => ?_
    rw [Dev.getBuf, hnone] at hget
    cases hget
  have hok : QueueOk vq :=
    ((Ready.init hpos deviceId vendorId deviceFeatures mem).run hrun).1.queueOk hvq
  obtain ⟨got, d'', hgot, -, hsome⟩ := getBuf_taken hvq hok uninit
  rw [hget] at hgot
  cases hgot
  exact confined_iff_fits (hsome vbuf rfl).1.inside use

/-- A packet that the guest sends from a buffer of 64 bytes. -/
theorem devices_stay_inside_iff_setup : ∃ d d' vbuf,
    Run DevStep (Dev.init 1 0 0 0 (postedMem 0)) setupWrites d ∧
    d.getBuf 0 0 = .ok (some vbuf, d') ∧ Use.tx.Fits (postedMem 0) vbuf ∧
    (Use.tx.run (.fresh (postedMem 0) vbuf)).Confined := by
  obtain ⟨d, d', hrun, -, hget⟩ :=
    setupWrites_gets 0 ⟨0x110000, 64, 0, 0, 0⟩ (by decide +kernel)
  have hfits : Use.tx.Fits (postedMem 0) ⟨0x110000, 64, 0, 0, 0⟩ :=
    ⟨.inl (by decide), fun _ => .inl (by decide)⟩
  exact ⟨d, d', _, hrun, hget, hfits,
    (devices_stay_inside_iff (by decide) 0 0 0 _ hrun hget (postedMem 0) .tx).2 hfits⟩

/-- **A control message** is read from a buffer of 64 bytes: all 129 bytes of it. -/
theorem control_leaves_buffer : ∃ d d' vbuf,
    Run DevStep (Dev.init 1 0 0 0 (postedMem 0)) setupWrites d ∧
    d.getBuf 0 0 = .ok (some vbuf, d') ∧ vbuf.len = 64 ∧
    (Use.control.run (.fresh d.mem vbuf)).touched = [⟨0x110000, 129⟩] ∧
    ¬ (Use.control.run (.fresh d.mem vbuf)).Confined := by
  obtain ⟨d, d', hrun, -, hget⟩ :=
    setupWrites_gets 0 ⟨0x110000, 64, 0, 0, 0⟩ (by decide +kernel)
  have hin : Inside 0x110000 64 := by decide
  have htouched : (Use.control.run (.fresh d.mem ⟨0x110000, 64, 0, 0, 0⟩)).touched =
      [⟨0x110000, 129⟩] := rfl
  refine ⟨d, d', _, hrun, hget, rfl, htouched, ?_⟩
  rw [confined_iff_fits hin .control]
  rintro (h | h) <;> exact absurd h (by decide)

end Ooows
