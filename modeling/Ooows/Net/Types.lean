import Ooows.Lib.Bits

/-!
# Ooows.Net.Types

The instruction set of the network card's microengine.

An instruction is five bytes; the engine reads it through a union of packed
bit-field structures, whose first field lies in the lowest bits.  `decode` is
that view: it picks the structure by the opcode, in the order in which
`interpret_instruction` tests it, and reads the structure's fields.

The constructors of each enumeration stand in the order of the source, so that
`ctorIdx` is the number of an enumerator, counted from the first of its group.
-/

namespace Ooows.Net

open Lib.Bits

/-! The widths of instruction fields, so that their numerals have one reading everywhere. -/

instance neZeroSixteen : NeZero 16 := ⟨by decide⟩

instance neZeroPage : NeZero 4096 := ⟨by decide⟩

/-! ## enumerations -/

/-- `reg_ref_type`. -/
inductive RefType
  | relative
  | absolute
  deriving DecidableEq, Repr

/-- Opcodes `ALU` to `DBL_SHF`. -/
inductive AluOpcode
  | alu
  | aluShf
  | dblShf
  deriving DecidableEq, Repr

/-- Opcodes `BR` to `BR_NOT_SIGNAL`. -/
inductive BranchOpcode
  | br
  | brEq
  | brNeq
  | brLess
  | brLessEq
  | brGreater
  | brGreaterEq
  | brEqCount
  | brNeqCount
  | brBset
  | brBclr
  | brEqByte
  | brNeqByte
  | brEqCtx
  | brNeqCtx
  | brInpState
  | brNotSignal
  deriving DecidableEq, Repr

/-- Opcodes `RX_PKT`, `R_FIFO_RD` and `T_FIFO_WR`. -/
inductive FifoOpcode
  | rxPkt
  | rFifoRd
  | tFifoWr
  deriving DecidableEq, Repr

/-- Opcodes `SCRATCH` and `RAM`. -/
inductive MemOpcode
  | scratch
  | ram
  deriving DecidableEq, Repr

/-- Opcodes `IMMED` to `IMMED_W1`. -/
inductive ImmedOpcode
  | immed
  | immedB0
  | immedB1
  | immedB2
  | immedB3
  | immedW0
  | immedW1
  deriving DecidableEq, Repr

/-- Opcodes `LD_FIELD` and `LD_FIELD_W_CLR`. -/
inductive LoadOpcode
  | ldField
  | ldFieldWClr
  deriving DecidableEq, Repr

/-- `alu_ops_type`; the last value of the four-bit field has no name. -/
inductive AluOp
  | plus
  | minus
  | backwardsMinus
  | second
  | bitNotSecond
  | and
  | or
  | xor
  | plusCarry
  | aluShiftLeft
  | aluShiftRight
  | plusIfSign
  | plusFour
  | plusEight
  | plusSixteen
  | unnamed
  deriving DecidableEq, Repr

/-- `direction_type`. -/
inductive Direction
  | read
  | write
  deriving DecidableEq, Repr

/-- `token_type`; the last value of the two-bit field has no name. -/
inductive Token
  | noToken
  | ctxSwap
  | sigDone
  | unnamed
  deriving DecidableEq, Repr

/-- `rot_type`. -/
inductive Rot
  | noRot
  | anotherNoRot
  | leftEight
  | leftSixteen
  deriving DecidableEq, Repr

/-- `shift_type`. -/
inductive Shift
  | left
  | right
  deriving DecidableEq, Repr

/-! ## instructions -/

/-- A register operand. -/
structure Register where
  type : RefType
  number : UInt8
  deriving DecidableEq, Repr

/-- The instructions the engine acts on; `τ` is what a branch names as its target. -/
inductive Instruction (τ : Type)
  | alu (opcode : AluOpcode) (dst src1 : Register) (type : AluOp) (src2 : Register)
      (shift : Shift) (numShift : Fin 4)
  | immediate (opcode : ImmedOpcode) (dst : Register) (ival : UInt16) (rot : Rot)
  | memory (opcode : MemOpcode) (direction : Direction) (xferReg addr1 addr2 : Register)
      (count : Fin 16) (token : Token)
  | branch (opcode : BranchOpcode) (src1 src2 : Register) (target : τ)
  | load (opcode : LoadOpcode) (dst : Register) (mask : Fin 16) (src : Register) (rot : Rot)
  | fifo (opcode : FifoOpcode) (size addr1 addr2 : Register) (token : Token)
  | nop
  | ctxArb
  | csr (dst : Register) (csrNum : UInt16)
  deriving DecidableEq, Repr

/-! ## decoding -/

/-- A register operand: one bit of type, then eight of number. -/
def registerField (n off : Nat) : Register :=
  ⟨RefType.ofNat (bitField n off 1), UInt8.ofNat (bitField n (off + 1) 8)⟩

/-- `alu_inst`. -/
def aluInst (n : Nat) : Instruction (Fin 4096) :=
  .alu (AluOpcode.ofNat (bitField n 0 6)) (registerField n 6) (registerField n 15)
    (AluOp.ofNat (bitField n 24 4)) (registerField n 28) (Shift.ofNat (bitField n 37 1))
    (Fin.ofNat 4 (bitField n 38 2))

/-- `immediate_inst`. -/
def immediateInst (n : Nat) : Instruction (Fin 4096) :=
  .immediate (ImmedOpcode.ofNat (bitField n 0 6 - 29)) (registerField n 6)
    (UInt16.ofNat (bitField n 15 16)) (Rot.ofNat (bitField n 31 2))

/-- `memory_inst`. -/
def memoryInst (n : Nat) : Instruction (Fin 4096) :=
  .memory (MemOpcode.ofNat (bitField n 0 6 - 26)) (Direction.ofNat (bitField n 6 1))
    (registerField n 7) (registerField n 16) (registerField n 25)
    (Fin.ofNat 16 (bitField n 34 4)) (Token.ofNat (bitField n 38 2))

/-- `branch_inst`. -/
def branchInst (n : Nat) : Instruction (Fin 4096) :=
  .branch (BranchOpcode.ofNat (bitField n 0 6 - 3)) (registerField n 6) (registerField n 15)
    (Fin.ofNat 4096 (bitField n 24 12))

/-- `load_inst`. -/
def loadInst (n : Nat) : Instruction (Fin 4096) :=
  .load (LoadOpcode.ofNat (bitField n 0 6 - 36)) (registerField n 6)
    (Fin.ofNat 16 (bitField n 15 4)) (registerField n 19) (Rot.ofNat (bitField n 28 2))

/-- `fifo_inst`. -/
def fifoInst (opcode : FifoOpcode) (n : Nat) : Instruction (Fin 4096) :=
  .fifo opcode (registerField n 6) (registerField n 15) (registerField n 24)
    (Token.ofNat (bitField n 33 2))

/-- `csr_inst`. -/
def csrInst (n : Nat) : Instruction (Fin 4096) :=
  .csr (registerField n 6) (UInt16.ofNat (bitField n 15 16))

/-- The instruction in five bytes; `none` for the opcodes that do nothing. -/
def decode (n : Nat) : Option (Instruction (Fin 4096)) :=
  let opcode := bitField n 0 6
  if opcode ≤ 2 then some (aluInst n)
  else if 29 ≤ opcode ∧ opcode ≤ 35 then some (immediateInst n)
  else if opcode = 26 ∨ opcode = 27 then some (memoryInst n)
  else if 3 ≤ opcode ∧ opcode ≤ 19 then some (branchInst n)
  else if opcode = 36 ∨ opcode = 37 then some (loadInst n)
  else if opcode = 28 then some (fifoInst .tFifoWr n)
  else if opcode = 25 then some (fifoInst .rFifoRd n)
  else if opcode = 24 then some (fifoInst .rxPkt n)
  else if opcode = 40 then some .nop
  else if opcode = 39 then some .ctxArb
  else if opcode = 21 then some (csrInst n)
  else none

end Ooows.Net
