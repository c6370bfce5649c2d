import Ooows.Net.Assembler

/-!
# Ooows.Net.Firmware

The firmware of the network card, `examples/engine.uc`, statement by statement,
and what the assembler makes of it.

All four contexts start at the first instruction.  Context 0 receives packets
from the PHY into RAM and queues them in the receive ring, contexts 1 and 2 take
them from there to the core, and context 3 sends what the core puts into the
transmit ring.
-/

namespace Ooows.Net

/-- The labels of `engine.uc`. -/
inductive Label
  | rxThread
  | rxThreadLoop
  | nonRxThreads
  | packetProcessingFirst
  | packetProcessingSecond
  | packetProcessing
  | packetProcessingLoop
  | sendPktToCore
  | reallySendPktToCore
  | donePkt
  | txThread
  | txThreadLoop
  | startCrcLoop
  | doneMin
  | txCrc32RegularInc
  | appendCrcChecksum
  | ipChecksumOffloading
  | txPacket
  deriving DecidableEq, Repr

namespace Firmware

/-- `reg_n`. -/
def reg (n : UInt8) : Register := ⟨.relative, n⟩

/-- `write_n`. -/
def write (n : UInt8) : Register := ⟨.relative, 32 + n⟩

/-- `read_n`. -/
def read (n : UInt8) : Register := ⟨.relative, 48 + n⟩

/-- The register `--`. -/
def dontCare : Register := ⟨.absolute, 127⟩

/-- The statements of `engine.uc` without a label, with the operands it leaves out. -/
def immed (dst : Register) (ival : UInt16) : Statement Label :=
  ⟨none, .immediate .immed dst ival .noRot⟩

def alu (dst src1 : Register) (type : AluOp) (src2 : Register) : Statement Label :=
  ⟨none, .alu .alu dst src1 type src2 .left 0⟩

def aluShf (dst src1 : Register) (type : AluOp) (src2 : Register) (shift : Shift) (n : Fin 4) :
    Statement Label :=
  ⟨none, .alu .aluShf dst src1 type src2 shift n⟩

def branch (opcode : BranchOpcode) (src1 src2 : Register) (target : Label) : Statement Label :=
  ⟨none, .branch opcode src1 src2 (.label target)⟩

def ldFieldWClr (dst : Register) (mask : Fin 16) (src : Register) : Statement Label :=
  ⟨none, .load .ldFieldWClr dst mask src .noRot⟩

def memory (opcode : MemOpcode) (direction : Direction) (xferReg addr1 addr2 : Register)
    (count : Fin 16) : Statement Label :=
  ⟨none, .memory opcode direction xferReg addr1 addr2 count .ctxSwap⟩

/-- One byte of the checksum: it is taken out of a word of the packet, and the table is looked up.
The lowest byte needs no shift. -/
def crcByte (mask : Fin 16) (word : Register) (shift : UInt16) : List (Statement Label) :=
  [ldFieldWClr (reg 7) mask word] ++
    (if shift = 0 then [] else [immed (reg 8) shift, alu (reg 7) (reg 7) .aluShiftRight (reg 8)]) ++
    [alu (reg 8) (reg 7) .plusEight (reg 12),
      immed (reg 9) 8,
      alu (reg 12) (reg 12) .aluShiftRight (reg 9),
      memory .ram .read (read 4) (reg 6) (reg 8) 1,
      alu (reg 12) (reg 12) .xor (read 4)]

/-- `engine.uc`. -/
def engineUc : List (Statement Label) := [
  immed (reg 0) 0,
  branch .brNeqCtx (reg 0) dontCare .nonRxThreads,
  ⟨some .rxThread, .immediate .immed (reg 0) 0 .noRot⟩,
  immed (reg 6) 0,
  ⟨some .rxThreadLoop, .immediate .immed (reg 1) 0x2000 .noRot⟩,
  immed (reg 2) 1,
  immed (reg 7) 34,
  ⟨none, .immediate .immed (reg 8) 0x8000 .leftSixteen⟩,
  aluShf (reg 3) dontCare .second (reg 0) .left 3,
  aluShf (reg 3) dontCare .second (reg 3) .left 3,
  aluShf (reg 3) dontCare .second (reg 3) .left 3,
  immed (reg 4) 1,
  alu (reg 4) dontCare .second (reg 4),
  memory .ram .read (read 0) (reg 3) (reg 1) 0,
  immed (reg 4) 1,
  branch .brEq (read 0) (reg 4) .rxThreadLoop,
  alu (reg 3) (reg 3) .plus (reg 4),
  ⟨none, .fifo .rFifoRd (reg 5) (reg 3) (reg 1) .ctxSwap⟩,
  aluShf (reg 9) dontCare .second (reg 6) .left 1,
  alu (write 0) (reg 5) .xor (reg 8),
  alu (write 1) (reg 3) .plus (reg 1),
  immed (reg 4) 1,
  alu (reg 7) (reg 4) .plus (reg 7),
  memory .scratch .write (write 1) (reg 9) (reg 7) 1,
  alu (reg 7) (reg 7) .minus (reg 4),
  memory .scratch .write (write 0) (reg 9) (reg 7) 1,
  immed (reg 4) 1,
  alu (reg 6) (reg 6) .plusFour (reg 4),
  immed (reg 4) 1,
  alu (reg 0) (reg 0) .plusEight (reg 4),
  branch .br dontCare dontCare .rxThreadLoop,
  ⟨some .nonRxThreads, .immediate .immed (reg 0) 1 .noRot⟩,
  branch .brEqCtx (reg 0) dontCare .packetProcessingFirst,
  immed (reg 0) 2,
  branch .brEqCtx (reg 0) dontCare .packetProcessingSecond,
  immed (reg 0) 3,
  branch .brEqCtx (reg 0) dontCare .txThread,
  ⟨some .packetProcessingFirst, .immediate .immed (reg 0) 0 .noRot⟩,
  branch .br dontCare dontCare .packetProcessing,
  ⟨some .packetProcessingSecond, .immediate .immed (reg 0) 1 .noRot⟩,
  branch .br dontCare dontCare .packetProcessing,
  ⟨some .packetProcessing, .alu .alu (reg 1) dontCare .second (reg 0) .left 0⟩,
  immed (reg 2) 34,
  ⟨none, .immediate .immed (reg 3) 0x8000 .leftSixteen⟩,
  ⟨some .packetProcessingLoop, .alu .aluShf (reg 4) dontCare .second (reg 1) .left 1⟩,
  immed (reg 5) 2,
  alu (reg 5) dontCare .second (reg 5),
  memory .scratch .read (read 0) (reg 4) (reg 2) 0,
  alu (reg 5) (read 0) .and (reg 3),
  branch .brNeq (reg 5) (reg 3) .packetProcessingLoop,
  ldFieldWClr (reg 5) 0b0111 (read 0),
  immed (reg 6) 14,
  branch .brLess (reg 5) (reg 6) .donePkt,
  ⟨none, .csr (reg 8) 0⟩,
  immed (reg 6) 0x1,
  alu (reg 7) (reg 6) .and (reg 8),
  branch .brEq (reg 7) (reg 6) .sendPktToCore,
  ⟨none, .csr (reg 6) 1⟩,
  ⟨none, .csr (reg 7) 2⟩,
  immed (reg 9) 0,
  immed (reg 10) 2,
  alu (reg 10) dontCare .second (reg 10),
  memory .ram .read (read 2) (read 1) (reg 9) 0,
  ⟨none, .immediate .immed (reg 9) 0xffff .leftSixteen⟩,
  immed (reg 10) 0xffff,
  ⟨none, .load .ldField (reg 9) 0b0011 (reg 10) .noRot⟩,
  alu (reg 11) (reg 9) .xor (read 2),
  ldFieldWClr (reg 12) 0b0011 (read 3),
  alu (reg 13) (reg 10) .xor (reg 12),
  immed (reg 14) 0,
  alu (reg 15) (reg 14) .xor (reg 11),
  alu (reg 15) (reg 15) .xor (reg 13),
  branch .brEq (reg 14) (reg 15) .sendPktToCore,
  branch .brNeq (reg 6) (read 2) .donePkt,
  ldFieldWClr (reg 9) 0b0011 (read 3),
  branch .brNeq (reg 7) (reg 9) .donePkt,
  ⟨some .sendPktToCore, .csr (reg 6) 0⟩,
  immed (reg 7) 0x8,
  alu (reg 8) (reg 6) .and (reg 7),
  branch .brNeq (reg 8) (reg 7) .reallySendPktToCore,
  ⟨some .reallySendPktToCore, .immediate .immed (reg 6) 0 .noRot⟩,
  ⟨none, .fifo .rxPkt (reg 5) (read 1) (reg 6) .ctxSwap⟩,
  ⟨some .donePkt, .immediate .immed (reg 6) 1 .noRot⟩,
  alu (reg 7) (read 1) .minus (reg 6),
  immed (write 0) 0,
  memory .ram .write (write 0) (reg 7) (write 0) 1,
  memory .scratch .write (write 0) (reg 4) (reg 2) 1,
  immed (reg 6) 2,
  alu (reg 1) (reg 1) .plusFour (reg 6),
  branch .br dontCare dontCare .packetProcessingLoop,
  ⟨some .txThread, .immediate .immed (reg 0) 0 .noRot⟩,
  immed (reg 1) 2,
  ⟨none, .immediate .immed (reg 2) 0x8000 .leftSixteen⟩,
  ⟨some .txThreadLoop, .alu .aluShf (reg 5) dontCare .second (reg 0) .left 1⟩,
  memory .scratch .read (read 0) (reg 5) (reg 1) 2,
  alu (reg 3) (read 0) .and (reg 2),
  branch .brNeq (reg 3) (reg 2) .txThreadLoop,
  ldFieldWClr (reg 3) 0b0111 (read 0),
  ⟨none, .csr (reg 4) 0⟩,
  immed (reg 12) 0x10,
  alu (reg 6) (reg 12) .and (reg 4),
  branch .brNeq (reg 6) (reg 12) .ipChecksumOffloading,
  immed (reg 4) 2,
  ldFieldWClr (reg 4) 0b1111 (reg 3),
  immed (reg 12) 0,
  alu (reg 12) dontCare .bitNotSecond (reg 12),
  ⟨some .startCrcLoop, .immediate .immed (reg 6) 2 .noRot⟩,
  alu (reg 6) (reg 4) .aluShiftRight (reg 6),
  immed (reg 7) 0,
  branch .brLessEq (reg 6) (reg 7) .appendCrcChecksum,
  immed (reg 7) 8,
  branch .brGreaterEq (reg 4) (reg 7) .doneMin,
  alu (reg 7) dontCare .second (reg 6),
  ⟨some .doneMin, .alu .aluShf (reg 8) (reg 3) .minus (reg 4) .right 2⟩,
  aluShf dontCare dontCare .second (reg 7) .right 2,
  memory .ram .read (read 2) (read 1) (reg 8) 0,
  immed (reg 6) 0x400] ++
  crcByte 0b1000 (read 2) 24 ++ crcByte 0b0100 (read 2) 16 ++ crcByte 0b0010 (read 2) 8 ++
  crcByte 0b0001 (read 2) 0 ++
  crcByte 0b1000 (read 3) 24 ++ crcByte 0b0100 (read 3) 16 ++ crcByte 0b0010 (read 3) 8 ++
  crcByte 0b0001 (read 3) 0 ++ [
  immed (reg 15) 7,
  branch .brGreaterEq (reg 4) (reg 15) .txCrc32RegularInc,
  immed (reg 15) 0,
  alu (reg 4) dontCare .second (reg 15),
  branch .br dontCare dontCare .startCrcLoop,
  ⟨some .txCrc32RegularInc, .immediate .immed (reg 15) 8 .noRot⟩,
  alu (reg 4) (reg 4) .minus (reg 15),
  branch .br dontCare dontCare .startCrcLoop,
  ⟨some .appendCrcChecksum, .immediate .immed (reg 6) 0 .noRot⟩,
  alu (reg 6) dontCare .bitNotSecond (reg 6),
  alu (reg 12) (reg 12) .xor (reg 6),
  aluShf (reg 6) dontCare .second (reg 3) .right 2,
  alu (write 0) dontCare .second (reg 12),
  memory .ram .write (write 0) (read 1) (reg 6) 1,
  immed (reg 12) 4,
  alu (reg 3) (reg 3) .plus (reg 12),
  ⟨some .ipChecksumOffloading, .csr (reg 4) 0⟩,
  immed (reg 12) 0x4,
  alu (reg 6) (reg 12) .and (reg 4),
  branch .brNeq (reg 6) (reg 12) .txPacket,
  immed (reg 6) 3,
  alu (reg 12) (read 1) .plus (reg 6),
  immed (reg 6) 0,
  memory .ram .read (read 2) (reg 12) (reg 6) 1,
  ldFieldWClr (reg 6) 0b1100 (read 2),
  ldFieldWClr (reg 7) 0b0100 (reg 6),
  ⟨none, .immediate .immed (reg 8) 0xF0 .leftSixteen⟩,
  alu (reg 7) (reg 7) .and (reg 8),
  ⟨none, .immediate .immed (reg 8) 0x40 .leftSixteen⟩,
  alu (reg 9) (reg 8) .xor (reg 7),
  immed (reg 10) 0,
  branch .brNeq (reg 10) (reg 9) .txPacket,
  ldFieldWClr (reg 7) 0b0100 (reg 6),
  ⟨none, .immediate .immed (reg 8) 0x0F .leftSixteen⟩,
  alu (reg 7) (reg 7) .and (reg 8),
  immed (reg 8) 16,
  alu dontCare (reg 7) .aluShiftRight (reg 8),
  immed (reg 8) 1,
  memory .ram .read (read 11) (reg 12) (reg 8) 0,
  immed (reg 8) 16,
  alu (reg 7) (reg 6) .aluShiftRight (reg 8),
  ldFieldWClr (reg 9) 0b0011 (read 11),
  alu (reg 7) (reg 7) .plus (reg 9),
  ldFieldWClr (reg 9) 0b1100 (read 11),
  alu (reg 9) (reg 9) .aluShiftRight (reg 8),
  alu (reg 7) (reg 7) .plus (reg 9),
  ldFieldWClr (reg 9) 0b0011 (read 12),
  alu (reg 7) (reg 7) .plus (reg 9),
  ldFieldWClr (reg 9) 0b1100 (read 12),
  alu (reg 9) (reg 9) .aluShiftRight (reg 8),
  alu (reg 7) (reg 7) .plus (reg 9),
  ldFieldWClr (reg 9) 0b0011 (read 13),
  alu (reg 7) (reg 7) .plus (reg 9),
  ldFieldWClr (reg 9) 0b1100 (read 13),
  alu (reg 9) (reg 9) .aluShiftRight (reg 8),
  alu (reg 7) (reg 7) .plus (reg 9),
  ldFieldWClr (reg 9) 0b0011 (read 14),
  alu (reg 7) (reg 7) .plus (reg 9),
  ldFieldWClr (reg 9) 0b1100 (read 14),
  alu (reg 9) (reg 9) .aluShiftRight (reg 8),
  alu (reg 7) (reg 7) .plus (reg 9),
  ldFieldWClr (reg 9) 0b0011 (read 15),
  alu (reg 7) (reg 7) .plus (reg 9),
  ldFieldWClr (reg 9) 0b1100 (read 15),
  alu (reg 9) (reg 9) .aluShiftRight (reg 8),
  alu (reg 7) (reg 7) .plus (reg 9),
  ldFieldWClr (reg 9) 0b1100 (reg 7),
  alu (reg 9) (reg 9) .aluShiftRight (reg 8),
  alu (reg 7) (reg 7) .plusSixteen (reg 9),
  ⟨none, .load .ldField (reg 7) 0b1100 (read 13) .noRot⟩,
  ldFieldWClr (write 5) 0b1111 (reg 7),
  immed (reg 10) 3,
  immed (reg 11) 1,
  alu (reg 11) dontCare .second (reg 11),
  memory .ram .write (write 5) (reg 12) (reg 10) 0,
  ⟨some .txPacket, .immediate .immed (reg 4) 0 .noRot⟩,
  ⟨none, .fifo .tFifoWr (reg 3) (read 1) (reg 4) .ctxSwap⟩,
  alu (write 0) dontCare .second (reg 3),
  memory .scratch .write (write 0) (reg 5) (reg 1) 1,
  immed (reg 4) 1,
  alu (reg 0) (reg 0) .plusFour (reg 4),
  branch .br dontCare dontCare .txThreadLoop]

/-- The instructions of the firmware, with the targets of their branches. -/
def program : List (Instruction Nat) := (resolve engineUc).getD []

/-- The bytes of `net-firmware`. -/
def image : List UInt8 := (assemble engineUc).getD []

theorem resolve_engineUc : resolve engineUc = some program := by
  have hsome : (resolve engineUc).isSome := by decide +kernel
  obtain ⟨insts, hinsts⟩ := Option.isSome_iff_exists.1 hsome
  rw [program, hinsts, Option.getD_some]

theorem length_program : program.length = 259 := by decide +kernel

theorem emit_program : emit program = some image := by
  have hsome : (assemble engineUc).isSome := by decide +kernel
  have hknown : generateOpcodes engineUc = some engineUc := if_pos (by decide +kernel)
  obtain ⟨bytes, hbytes⟩ := Option.isSome_iff_exists.1 hsome
  rw [image, hbytes, Option.getD_some, ← hbytes, assemble, hknown, Option.bind_some,
    resolve_engineUc, Option.bind_some]

end Firmware

end Ooows.Net
