import Ooows.Virtio.Buffer

/-!
# Ooows.Ogx.Frame

Messages of the O(OO)GX device in the buffers of its two queues: two bytes with the length of
the ciphertext, and the ciphertext.

`ReadDriverMessage` and `Execute` ignore the results of `readU` and `write`.  A frame that is
not inside the guest's memory is read as zeros, and written in part or not at all.
-/

namespace Ooows.Ogx

open Lib Bits ByteMem Virtio

/-- `ReadDriverMessage` up to the call of `Decrypt`: the message.  `message_size` is not
initialised. -/
def readDriverMessage (uninit : UInt16) (b : Buf) : List UInt8 × Buf :=
  let size := b.readU 2
  let messageSize := (size.1.map ofBytes).getD uninit.toNat
  let message := size.2.readU messageSize.toUInt64
  (message.1.getD (List.replicate messageSize 0), message.2)

/-- The two `write`s of a response, and whether both succeed.  `ciphertext_size` has 16
bits. -/
def writeFrame (ciphertext : List UInt8) (b : Buf) : Bool × Buf :=
  let size := b.writeAt 0 (bytesOfNat 2 ciphertext.length)
  let body := size.2.writeAt 2 ciphertext
  (size.1 && body.1, body.2)

/-- `Execute`, as far as it concerns a response buffer. -/
def writeResponse (ciphertext : List UInt8) (b : Buf) : Buf := (writeFrame ciphertext b).2

/-- A frame inside the guest's memory is written. -/
theorem mem_writeFrame (mem : ByteMem) {vbuf : VirtBuf} {ciphertext : List UInt8}
    (hin : Inside vbuf.guestAddr (2 + ciphertext.length)) (hpos : 0 < ciphertext.length) :
    (writeFrame ciphertext (.fresh mem vbuf)).2.mem =
      mem.writeBytes vbuf.guestAddr.toNat (bytesOfNat 2 ciphertext.length ++ ciphertext) := by
  have hlen := hin.2.2
  have hsize : Inside (vbuf.guestAddr + 0) (bytesOfNat 2 ciphertext.length).length := by
    rw [length_bytesOfNat]
    exact hin.part (by decide) (Nat.add_le_add_left hpos 2 |> Nat.le_of_lt)
  have hbody : Inside (vbuf.guestAddr + 2) ciphertext.length := hin.part hpos (Nat.le_refl _)
  have htwo : (vbuf.guestAddr + 2).toNat = vbuf.guestAddr.toNat + 2 := hin.toNat_add (by decide)
  unfold writeFrame
  rw [Buf.writeAt_of_inside (b := .fresh mem vbuf) (by rw [length_bytesOfNat]; decide) hsize]
  dsimp only
  rw [Buf.writeAt_of_inside (by omega) hbody, writeBytes_append, length_bytesOfNat, ← htwo]
  simp [Buf.fresh, Buf.touch]

end Ooows.Ogx
