import Ooows.Net.Assembler

/-!
# Ooows.Net.Encoding

The binary format of instructions, which is written down twice.

`assembler.py` has the numbers of opcodes and other enumerators as constants, a table
that gives every opcode its instruction type, and a format string for each type.
`types.hpp` has enumerations and, for each type, a structure of bit-fields, which lie
one after the other from the lowest bit on.  This module translates both sides on their
own; `encoding_agrees` compares them.
-/

namespace Ooows.Net

open Lib.Bits

/-! ## numbers -/

/-- `opcode_type`, in the order of `types.hpp`: `ctorIdx` is the engine's number. -/
inductive Opcode
  | alu | aluShf | dblShf
  | br | brEq | brNeq | brLess | brLessEq | brGreater | brGreaterEq | brEqCount | brNeqCount
  | brBset | brBclr | brEqByte | brNeqByte | brEqCtx | brNeqCtx | brInpState | brNotSignal | rtn
  | csr | fastWr | localCsrRd | rxPkt | rFifoRd | scratch | ram | tFifoWr
  | immed | immedB0 | immedB1 | immedB2 | immedB3 | immedW0 | immedW1
  | ldField | ldFieldWClr | loadAddr
  | ctxArb | nop | hash1x48 | hash2x48 | hash3x48 | hash1x64 | hash2x64 | hash3x64
  deriving DecidableEq, Repr

/-- The assembler's numbers of opcodes. -/
def Opcode.num : Opcode → Nat
  | alu => 0 | aluShf => 1 | dblShf => 2
  | br => 3 | brEq => 4 | brNeq => 5 | brLess => 6 | brLessEq => 7 | brGreater => 8
  | brGreaterEq => 9 | brEqCount => 10 | brNeqCount => 11 | brBset => 12 | brBclr => 13
  | brEqByte => 14 | brNeqByte => 15 | brEqCtx => 16 | brNeqCtx => 17 | brInpState => 18
  | brNotSignal => 19 | rtn => 20
  | csr => 21 | fastWr => 22 | localCsrRd => 23 | rxPkt => 24 | rFifoRd => 25 | scratch => 26
  | ram => 27 | tFifoWr => 28
  | immed => 29 | immedB0 => 30 | immedB1 => 31 | immedB2 => 32 | immedB3 => 33 | immedW0 => 34
  | immedW1 => 35
  | ldField => 36 | ldFieldWClr => 37 | loadAddr => 38
  | ctxArb => 39 | nop => 40 | hash1x48 => 41 | hash2x48 => 42 | hash3x48 => 43 | hash1x64 => 44
  | hash2x64 => 45 | hash3x64 => 46

/-- `RELATIVE` and `ABSOLUTE`. -/
def RefType.num : RefType → Nat
  | relative => 0 | absolute => 1

/-- `NO_ROT` to `LEFT_SIXTEEN`. -/
def Rot.num : Rot → Nat
  | noRot => 0 | anotherNoRot => 1 | leftEight => 2 | leftSixteen => 3

/-- `NO_TOKEN`, `CTX_SWAP` and `SIG_DONE`; the number that is left has no name. -/
def Token.num : Token → Nat
  | noToken => 0 | ctxSwap => 1 | sigDone => 2 | unnamed => 3

/-- `READ` and `WRITE`. -/
def Direction.num : Direction → Nat
  | read => 0 | write => 1

/-- `SHIFT_LEFT` and `SHIFT_RIGHT`. -/
def Shift.num : Shift → Nat
  | left => 0 | right => 1

/-- `PLUS` to `PLUS_SIXTEEN`; the number that is left has no name. -/
def AluOp.num : AluOp → Nat
  | plus => 0 | minus => 1 | backwardsMinus => 2 | second => 3 | bitNotSecond => 4 | and => 5
  | or => 6 | xor => 7 | plusCarry => 8 | aluShiftLeft => 9 | aluShiftRight => 10
  | plusIfSign => 11 | plusFour => 12 | plusEight => 13 | plusSixteen => 14 | unnamed => 15

/-- The assembler numbers an enumeration as the engine does: below a bound, and each value with a
number of its own. -/
structure Numbers {α : Type} (num idx : α → Nat) (bound : Nat) : Prop where
  eq : ∀ x, num x = idx x
  lt : ∀ x, num x < bound
  inj : Function.Injective idx

theorem Opcode.numbers : Numbers Opcode.num Opcode.ctorIdx 64 where
  eq o := by cases o <;> rfl
  lt o := by cases o <;> decide
  inj := Function.LeftInverse.injective Opcode.ofNat_ctorIdx

theorem RefType.numbers : Numbers RefType.num RefType.ctorIdx 2 where
  eq r := by cases r <;> rfl
  lt r := by cases r <;> decide
  inj := Function.LeftInverse.injective RefType.ofNat_ctorIdx

theorem Rot.numbers : Numbers Rot.num Rot.ctorIdx 4 where
  eq r := by cases r <;> rfl
  lt r := by cases r <;> decide
  inj := Function.LeftInverse.injective Rot.ofNat_ctorIdx

theorem Token.numbers : Numbers Token.num Token.ctorIdx 4 where
  eq t := by cases t <;> rfl
  lt t := by cases t <;> decide
  inj := Function.LeftInverse.injective Token.ofNat_ctorIdx

theorem Direction.numbers : Numbers Direction.num Direction.ctorIdx 2 where
  eq d := by cases d <;> rfl
  lt d := by cases d <;> decide
  inj := Function.LeftInverse.injective Direction.ofNat_ctorIdx

theorem Shift.numbers : Numbers Shift.num Shift.ctorIdx 2 where
  eq s := by cases s <;> rfl
  lt s := by cases s <;> decide
  inj := Function.LeftInverse.injective Shift.ofNat_ctorIdx

theorem AluOp.numbers : Numbers AluOp.num AluOp.ctorIdx 16 where
  eq o := by cases o <;> rfl
  lt o := by cases o <;> decide
  inj := Function.LeftInverse.injective AluOp.ofNat_ctorIdx

/-! ## formats -/

/-- `_INSTRUCTION_TYPES`, and the structures of `types.hpp`. -/
inductive InstructionType
  | immediate | alu | memory | branch | load | fifo | noArg | csr
  deriving DecidableEq, Repr

/-- `_OPCODES`; some opcodes have no entry. -/
def Opcode.instructionType : Opcode → Option InstructionType
  | alu | aluShf | dblShf => some .alu
  | immed | immedB0 | immedB1 | immedB2 | immedB3 | immedW0 | immedW1 => some .immediate
  | scratch | ram => some .memory
  | br | brEq | brNeq | brLess | brLessEq | brGreater | brGreaterEq | brEqCount | brNeqCount
  | brBset | brBclr | brEqByte | brNeqByte | brEqCtx | brNeqCtx | brInpState | brNotSignal
  | rtn => some .branch
  | ldField | ldFieldWClr => some .load
  | csr => some .csr
  | rxPkt | rFifoRd | tFifoWr => some .fifo
  | nop | ctxArb => some .noArg
  | _ => none

/-- The format strings: the widths of the values, and of the padding. -/
def InstructionType.format : InstructionType → List Nat × List Nat
  | immediate => ([6, 1, 8, 16, 2], [7])
  | alu => ([6, 1, 8, 1, 8, 4, 1, 8, 1, 2], [])
  | memory => ([6, 1, 1, 8, 1, 8, 1, 8, 4, 2], [])
  | branch => ([6, 1, 8, 1, 8, 12], [4])
  | load => ([6, 1, 8, 4, 1, 8, 2], [10])
  | fifo => ([6, 1, 8, 1, 8, 1, 8, 2], [5])
  | noArg => ([6], [34])
  | csr => ([6, 1, 8, 16], [9])

/-- The widths of the bit-fields of a structure; without arguments only the opcode is
looked at. -/
def InstructionType.bitFields : InstructionType → List Nat
  | immediate => [6, 1, 8, 16, 2]
  | alu => [6, 1, 8, 1, 8, 4, 1, 8, 1, 2]
  | memory => [6, 1, 1, 8, 1, 8, 1, 8, 4, 2]
  | branch => [6, 1, 8, 1, 8, 12]
  | load => [6, 1, 8, 4, 1, 8, 2]
  | fifo => [6, 1, 8, 1, 8, 1, 8, 2]
  | noArg => [6]
  | csr => [6, 1, 8, 16]

/-- Which structure `interpret_instruction` passes on; `none` where it knows no opcode. -/
def dispatch (opcode : Nat) : Option InstructionType :=
  if opcode ≤ Opcode.dblShf.ctorIdx then some .alu
  else if Opcode.immed.ctorIdx ≤ opcode ∧ opcode ≤ Opcode.immedW1.ctorIdx then some .immediate
  else if opcode = Opcode.scratch.ctorIdx ∨ opcode = Opcode.ram.ctorIdx then some .memory
  else if Opcode.br.ctorIdx ≤ opcode ∧ opcode ≤ Opcode.brNotSignal.ctorIdx then some .branch
  else if opcode = Opcode.ldField.ctorIdx ∨ opcode = Opcode.ldFieldWClr.ctorIdx then some .load
  else if opcode = Opcode.tFifoWr.ctorIdx ∨ opcode = Opcode.rFifoRd.ctorIdx ∨
      opcode = Opcode.rxPkt.ctorIdx then some .fifo
  else if opcode = Opcode.nop.ctorIdx then some .noArg
  else if opcode = Opcode.ctxArb.ctorIdx then some .noArg
  else if opcode = Opcode.csr.ctorIdx then some .csr
  else none

/-! ## instructions -/

/-- The opcodes of an instruction type. -/
def OpcodeOf (t : InstructionType) : Type := { o : Opcode // o.instructionType = some t }

/-- The assembler's named tuples, once labels are resolved.  Every field is of a type that
has just the values of its width. -/
inductive AsmInst
  | immediate (opcode : OpcodeOf .immediate) (dst : Register) (ival : UInt16) (rot : Rot)
  | alu (opcode : OpcodeOf .alu) (dst src1 : Register) (type : AluOp) (src2 : Register)
      (shift : Shift) (numShift : Fin 4)
  | memory (opcode : OpcodeOf .memory) (direction : Direction) (xfer addr1 addr2 : Register)
      (count : Fin 16) (token : Token)
  | branch (opcode : OpcodeOf .branch) (src1 src2 : Register) (target : Fin 4096)
  | load (opcode : OpcodeOf .load) (dst : Register) (mask : Fin 16) (src : Register) (rot : Rot)
  | fifo (opcode : OpcodeOf .fifo) (size addr1 addr2 : Register) (token : Token)
  | noArg (opcode : OpcodeOf .noArg)
  | csr (opcode : OpcodeOf .csr) (dst : Register) (csrNum : UInt16)

namespace AsmInst

def type : AsmInst → InstructionType
  | immediate .. => .immediate
  | alu .. => .alu
  | memory .. => .memory
  | branch .. => .branch
  | load .. => .load
  | fifo .. => .fifo
  | noArg .. => .noArg
  | csr .. => .csr

def opcode : AsmInst → Opcode
  | immediate o .. | alu o .. | memory o .. | branch o .. | load o .. | fifo o .. | noArg o
  | csr o .. => o.val

theorem instructionType_opcode (i : AsmInst) : i.opcode.instructionType = some i.type := by
  cases i with
  | _ o => exact o.property

/-- The values given to `bitstruct.pack`. -/
def values : AsmInst → List Nat
  | immediate o dst ival rot =>
    [o.val.num, dst.type.num, dst.number.toNat, ival.toNat, rot.num]
  | alu o dst src1 type src2 shift numShift =>
    [o.val.num, dst.type.num, dst.number.toNat, src1.type.num, src1.number.toNat, type.num,
      src2.type.num, src2.number.toNat, shift.num, numShift.val]
  | memory o direction xfer addr1 addr2 count token =>
    [o.val.num, direction.num, xfer.type.num, xfer.number.toNat, addr1.type.num,
      addr1.number.toNat, addr2.type.num, addr2.number.toNat, count.val, token.num]
  | branch o src1 src2 target =>
    [o.val.num, src1.type.num, src1.number.toNat, src2.type.num, src2.number.toNat, target.val]
  | load o dst mask src rot =>
    [o.val.num, dst.type.num, dst.number.toNat, mask.val, src.type.num, src.number.toNat, rot.num]
  | fifo o size addr1 addr2 token =>
    [o.val.num, size.type.num, size.number.toNat, addr1.type.num, addr1.number.toNat,
      addr2.type.num, addr2.number.toNat, token.num]
  | noArg o => [o.val.num]
  | csr o dst csrNum => [o.val.num, dst.type.num, dst.number.toNat, csrNum.toNat]

/-- The values of the bit-fields that stand for the same instruction in the engine. -/
def fieldValues : AsmInst → List Nat
  | immediate o dst ival rot =>
    [o.val.ctorIdx, dst.type.ctorIdx, dst.number.toNat, ival.toNat, rot.ctorIdx]
  | alu o dst src1 type src2 shift numShift =>
    [o.val.ctorIdx, dst.type.ctorIdx, dst.number.toNat, src1.type.ctorIdx, src1.number.toNat,
      type.ctorIdx, src2.type.ctorIdx, src2.number.toNat, shift.ctorIdx, numShift.val]
  | memory o direction xfer addr1 addr2 count token =>
    [o.val.ctorIdx, direction.ctorIdx, xfer.type.ctorIdx, xfer.number.toNat, addr1.type.ctorIdx,
      addr1.number.toNat, addr2.type.ctorIdx, addr2.number.toNat, count.val, token.ctorIdx]
  | branch o src1 src2 target =>
    [o.val.ctorIdx, src1.type.ctorIdx, src1.number.toNat, src2.type.ctorIdx, src2.number.toNat,
      target.val]
  | load o dst mask src rot =>
    [o.val.ctorIdx, dst.type.ctorIdx, dst.number.toNat, mask.val, src.type.ctorIdx,
      src.number.toNat, rot.ctorIdx]
  | fifo o size addr1 addr2 token =>
    [o.val.ctorIdx, size.type.ctorIdx, size.number.toNat, addr1.type.ctorIdx, addr1.number.toNat,
      addr2.type.ctorIdx, addr2.number.toNat, token.ctorIdx]
  | noArg o => [o.val.ctorIdx]
  | csr o dst csrNum => [o.val.ctorIdx, dst.type.ctorIdx, dst.number.toNat, csrNum.toNat]

/-- The fields of the format string with their values, padding included. -/
def fields (i : AsmInst) : List (Nat × Nat) :=
  i.type.format.1.zip i.values ++ i.type.format.2.map (·, 0)

/-- `to_binary`; `none` when `bitstruct.pack` refuses a value that is too wide. -/
def toBinary (i : AsmInst) : Option (List UInt8) :=
  if ∀ f ∈ i.fields, f.2 < 2 ^ f.1 then some (bytesOf msbByte 5 (pack i.fields)) else none

/-- The bytes `main` writes for an instruction. -/
def output (i : AsmInst) : Option (List UInt8) := i.toBinary.map changeEndianessOfEachByte

/-! ## reading back -/

/-- Both sides number everything alike. -/
theorem values_eq (i : AsmInst) : i.values = i.fieldValues := by
  cases i <;> simp only [values, fieldValues, Opcode.numbers.eq, RefType.numbers.eq, Rot.numbers.eq,
    Token.numbers.eq, Direction.numbers.eq, Shift.numbers.eq, AluOp.numbers.eq]

/-- The format strings and the structures have the same widths. -/
theorem format_eq (t : InstructionType) : t.format.1 = t.bitFields := by
  cases t <;> rfl

theorem length_values (i : AsmInst) : i.values.length = i.type.format.1.length := by
  cases i <;> rfl

theorem map_fst_fields (i : AsmInst) :
    i.fields.map Prod.fst = i.type.bitFields ++ i.type.format.2 := by
  rw [fields, List.map_append, List.map_fst_zip (by rw [length_values]), format_eq, List.map_map]
  exact congrArg (i.type.bitFields ++ ·) (List.map_id _)

theorem map_snd_fields (i : AsmInst) :
    i.fields.map Prod.snd = i.fieldValues ++ i.type.format.2.map fun _ => 0 := by
  rw [fields, List.map_append, List.map_snd_zip (by rw [length_values]), values_eq, List.map_map]
  rfl

/-- Every value fits its field. -/
theorem fields_fit (i : AsmInst) : ∀ f ∈ i.fields, f.2 < 2 ^ f.1 := by
  have hbyte : ∀ n : UInt8, n.toNat < 256 := UInt8.toNat_lt
  have hword : ∀ n : UInt16, n.toNat < 65536 := UInt16.toNat_lt
  cases i <;>
    simp only [fields, type, InstructionType.format, values, List.zip_cons_cons, List.zip_nil_left,
      List.map_cons, List.map_nil, List.cons_append, List.nil_append, List.forall_mem_cons,
      List.not_mem_nil, false_imp_iff, implies_true, Nat.reducePow, Nat.zero_lt_succ, Fin.is_lt,
      Opcode.numbers.lt, RefType.numbers.lt, Rot.numbers.lt, Token.numbers.lt,
      Direction.numbers.lt, Shift.numbers.lt, AluOp.numbers.lt, hbyte, hword, and_self]

theorem length_pack_fields (i : AsmInst) : (pack i.fields).length = 40 := by
  cases i <;> simp [fields, type, InstructionType.format, values, pack]

theorem output_eq (i : AsmInst) : i.output = some (bytesOf lsbByte 5 (pack i.fields)) := by
  rw [output, toBinary, if_pos i.fields_fit, Option.map_some, changeEndianessOfEachByte,
    map_reverseByte_bytesOf i.length_pack_fields]

/-- **The engine's structure reads the assembler's values.** -/
theorem unpack_output {i : AsmInst} {bytes : List UInt8} (h : i.output = some bytes) :
    unpack (ofBytes bytes) 0 i.type.bitFields = i.fieldValues := by
  rw [output_eq] at h
  cases h
  have hread := unpack_pack i.fields i.fields_fit
  rw [map_fst_fields, map_snd_fields, unpack_append] at hread
  have hlength : i.type.bitFields.length = i.fieldValues.length := by
    rw [← format_eq, ← values_eq, length_values]
  rw [ofBytes_bytesOf i.length_pack_fields]
  exact (List.append_inj hread (by rw [length_unpack, hlength])).1

/-- The first bit-field is the opcode, in every structure. -/
theorem opcode_output {i : AsmInst} {bytes : List UInt8} (h : i.output = some bytes) :
    bitField (ofBytes bytes) 0 6 = i.opcode.ctorIdx := by
  have hread := unpack_output h
  cases i <;> exact (List.cons.inj hread).1

end AsmInst

/-! ## different instructions -/

theorem OpcodeOf.eq_iff {t : InstructionType} {o o' : OpcodeOf t} : o = o' ↔ o.val = o'.val :=
  Subtype.ext_iff

theorem Register.eq_iff {r r' : Register} : r = r' ↔ r.type = r'.type ∧ r.number = r'.number := by
  cases r
  cases r'
  rw [Register.mk.injEq]

namespace AsmInst

/-- Within a structure the bit-fields determine the instruction. -/
theorem eq_of_fieldValues {i j : AsmInst} (htype : i.type = j.type)
    (h : i.fieldValues = j.fieldValues) : i = j := by
  cases i <;> cases j <;> first | contradiction | skip
  all_goals
    simp only [fieldValues, List.cons.injEq, Opcode.numbers.inj.eq_iff, RefType.numbers.inj.eq_iff,
      Rot.numbers.inj.eq_iff, Token.numbers.inj.eq_iff, Direction.numbers.inj.eq_iff,
      Shift.numbers.inj.eq_iff, AluOp.numbers.inj.eq_iff, UInt8.toNat_inj, UInt16.toNat_inj, Fin.val_inj] at h
    simp only [immediate.injEq, alu.injEq, memory.injEq, branch.injEq, load.injEq, fifo.injEq,
      noArg.injEq, csr.injEq, Register.eq_iff, OpcodeOf.eq_iff, h, and_self]

/-- **Different instructions have different bytes.** -/
theorem output_injective : Function.Injective output := by
  intro i j h
  have hopcode : i.opcode = j.opcode := by
    rw [← Opcode.numbers.inj.eq_iff, ← opcode_output i.output_eq,
      ← opcode_output (h ▸ i.output_eq)]
  -- the opcode decides which structure the rest is read by
  have htype : i.type = j.type := by
    rw [← Option.some_inj, ← instructionType_opcode, ← instructionType_opcode, hopcode]
  refine eq_of_fieldValues htype ?_
  rw [← unpack_output i.output_eq, ← unpack_output (h ▸ i.output_eq), htype]

end AsmInst

/-! ## the instructions of the model -/

def AluOpcode.asm : AluOpcode → OpcodeOf .alu
  | alu => ⟨.alu, rfl⟩
  | aluShf => ⟨.aluShf, rfl⟩
  | dblShf => ⟨.dblShf, rfl⟩

def ImmedOpcode.asm : ImmedOpcode → OpcodeOf .immediate
  | immed => ⟨.immed, rfl⟩
  | immedB0 => ⟨.immedB0, rfl⟩
  | immedB1 => ⟨.immedB1, rfl⟩
  | immedB2 => ⟨.immedB2, rfl⟩
  | immedB3 => ⟨.immedB3, rfl⟩
  | immedW0 => ⟨.immedW0, rfl⟩
  | immedW1 => ⟨.immedW1, rfl⟩

def MemOpcode.asm : MemOpcode → OpcodeOf .memory
  | scratch => ⟨.scratch, rfl⟩
  | ram => ⟨.ram, rfl⟩

def BranchOpcode.asm : BranchOpcode → OpcodeOf .branch
  | br => ⟨.br, rfl⟩
  | brEq => ⟨.brEq, rfl⟩
  | brNeq => ⟨.brNeq, rfl⟩
  | brLess => ⟨.brLess, rfl⟩
  | brLessEq => ⟨.brLessEq, rfl⟩
  | brGreater => ⟨.brGreater, rfl⟩
  | brGreaterEq => ⟨.brGreaterEq, rfl⟩
  | brEqCount => ⟨.brEqCount, rfl⟩
  | brNeqCount => ⟨.brNeqCount, rfl⟩
  | brBset => ⟨.brBset, rfl⟩
  | brBclr => ⟨.brBclr, rfl⟩
  | brEqByte => ⟨.brEqByte, rfl⟩
  | brNeqByte => ⟨.brNeqByte, rfl⟩
  | brEqCtx => ⟨.brEqCtx, rfl⟩
  | brNeqCtx => ⟨.brNeqCtx, rfl⟩
  | brInpState => ⟨.brInpState, rfl⟩
  | brNotSignal => ⟨.brNotSignal, rfl⟩

def LoadOpcode.asm : LoadOpcode → OpcodeOf .load
  | ldField => ⟨.ldField, rfl⟩
  | ldFieldWClr => ⟨.ldFieldWClr, rfl⟩

def FifoOpcode.asm : FifoOpcode → OpcodeOf .fifo
  | rxPkt => ⟨.rxPkt, rfl⟩
  | rFifoRd => ⟨.rFifoRd, rfl⟩
  | tFifoWr => ⟨.tFifoWr, rfl⟩

/-- The assembler's tuple for an instruction the engine acts on. -/
def Instruction.asm : Instruction (Fin 4096) → AsmInst
  | .alu opcode dst src1 type src2 shift numShift =>
    .alu opcode.asm dst src1 type src2 shift numShift
  | .immediate opcode dst ival rot => .immediate opcode.asm dst ival rot
  | .memory opcode direction xferReg addr1 addr2 count token =>
    .memory opcode.asm direction xferReg addr1 addr2 count token
  | .branch opcode src1 src2 target => .branch opcode.asm src1 src2 target
  | .load opcode dst mask src rot => .load opcode.asm dst mask src rot
  | .fifo opcode size addr1 addr2 token => .fifo opcode.asm size addr1 addr2 token
  | .nop => .noArg ⟨.nop, rfl⟩
  | .ctxArb => .noArg ⟨.ctxArb, rfl⟩
  | .csr dst csrNum => .csr ⟨.csr, rfl⟩ dst csrNum

/-- Its fields are those the assembler of the model packs. -/
theorem Instruction.fields_asm (inst : Instruction (Fin 4096)) :
    inst.asm.fields = (inst.mapTarget Fin.val).fields := by
  cases inst <;>
    simp [Instruction.asm, AsmInst.fields, AsmInst.type, AsmInst.values, InstructionType.format,
      Instruction.mapTarget, Instruction.fields, Register.fields, RefType.numbers.eq, Rot.numbers.eq,
      Token.numbers.eq, Direction.numbers.eq, Shift.numbers.eq, AluOp.numbers.eq, Opcode.num]
  case alu opcode _ _ _ _ _ _ => cases opcode <;> rfl
  case immediate opcode _ _ _ => cases opcode <;> rfl
  case memory opcode _ _ _ _ _ _ => cases opcode <;> rfl
  case branch opcode _ _ _ => cases opcode <;> rfl
  case load opcode _ _ _ _ => cases opcode <;> rfl
  case fifo opcode _ _ _ _ => cases opcode <;> rfl

theorem Instruction.assembled_mapTarget (inst : Instruction (Fin 4096)) :
    (inst.mapTarget Fin.val).assembled = inst := by
  cases inst <;> simp [Instruction.assembled, Instruction.mapTarget]

/-- **The engine executes the instruction that was assembled.** -/
theorem Instruction.decode_output (inst : Instruction (Fin 4096)) :
    ∃ bytes, inst.asm.output = some bytes ∧ decode (ofBytes bytes) = some inst := by
  have hbinary : toBinary (inst.mapTarget Fin.val) = inst.asm.toBinary := by
    rw [toBinary, AsmInst.toBinary, fields_asm]
  obtain ⟨binary, hsome, -⟩ := Option.map_eq_some_iff.1 inst.asm.output_eq
  have hdecode := decode_toBinary (hbinary.trans hsome)
  rw [assembled_mapTarget] at hdecode
  exact ⟨_, Option.map_eq_some_iff.2 ⟨binary, hsome, rfl⟩, hdecode⟩

/-- The engine sorts opcodes as the assembler does, but for `RTN`. -/
theorem dispatch_opcode (o : Opcode) :
    dispatch o.ctorIdx = if o = .rtn then none else o.instructionType := by
  cases o <;> rfl

/-- **The assembler's encoding and the engine's decoding agree.**  For every instruction of
every type, with any values of its fields, the assembler writes five bytes, in which the
structure of its type reads exactly these values, and which the engine passes on as that
structure; only `RTN`, which the assembler packs as a branch, it does not know.  No two
instructions have the same bytes, and what the engine of this model decodes is the
instruction that was assembled. -/
theorem encoding_agrees :
    (∀ i : AsmInst, ∃ bytes, i.output = some bytes ∧ bytes.length = 5 ∧
      unpack (ofBytes bytes) 0 i.type.bitFields = i.fieldValues ∧
      dispatch (bitField (ofBytes bytes) 0 6) = if i.opcode = .rtn then none else some i.type) ∧
    Function.Injective AsmInst.output ∧
    ∀ inst : Instruction (Fin 4096), ∃ bytes,
      inst.asm.output = some bytes ∧ decode (ofBytes bytes) = some inst := by
  refine ⟨fun i => ⟨_, i.output_eq, ?_, AsmInst.unpack_output i.output_eq, ?_⟩,
    AsmInst.output_injective, Instruction.decode_output⟩
  · exact length_bytesOf ..
  · rw [AsmInst.opcode_output i.output_eq, dispatch_opcode, i.instructionType_opcode]

end Ooows.Net
