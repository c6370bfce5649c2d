import Ooows.Net.Types

/-!
# Ooows.Net.Assembler

`assembler.py` after parsing: labels are collected and resolved, and every
instruction is packed into five bytes.

`bitstruct.pack` with `'<'` lays out every field with its least significant bit
first and then fills bytes from their most significant bit on; the assembler
afterwards reverses each byte.  `decode_toBinary` says that what comes out is
what the engine's bit-fields read.
-/

namespace Ooows.Net

open Lib.Bits

/-- What a branch names: a label, or a number as it stands. -/
inductive Target (ι : Type)
  | label (name : ι)
  | literal (n : Nat)
  deriving DecidableEq, Repr

/-- A statement of a source program; `ι` are the label names, in upper case. -/
structure Statement (ι : Type) where
  label : Option ι
  inst : Instruction (Target ι)

/-- Change the target of a branch. -/
def Instruction.mapTarget {τ τ' : Type} (f : τ → τ') : Instruction τ → Instruction τ'
  | .alu opcode dst src1 type src2 shift numShift =>
    .alu opcode dst src1 type src2 shift numShift
  | .immediate opcode dst ival rot => .immediate opcode dst ival rot
  | .memory opcode direction xferReg addr1 addr2 count token =>
    .memory opcode direction xferReg addr1 addr2 count token
  | .branch opcode src1 src2 target => .branch opcode src1 src2 (f target)
  | .load opcode dst mask src rot => .load opcode dst mask src rot
  | .fifo opcode size addr1 addr2 token => .fifo opcode size addr1 addr2 token
  | .nop => .nop
  | .ctxArb => .ctxArb
  | .csr dst csrNum => .csr dst csrNum

/-- The grammar's name for the instruction is a key of `OPCODES`: `br_!signal` is not, the table has
`BR!SIGNAL`. -/
def Instruction.known {τ : Type} : Instruction τ → Bool
  | .branch .brNotSignal _ _ _ => false
  | _ => true

section Labels

variable {ι : Type} [DecidableEq ι]

/-- `GenerateOpcodes`; `none` for the `KeyError`. -/
def generateOpcodes (source : List (Statement ι)) : Option (List (Statement ι)) :=
  if source.all (·.inst.known) then some source else none

/-- `extract_labels`, from statement `i` on; `none` when a label is defined twice. -/
def extractLabels (i : Nat) : List (Statement ι) → List (ι × Nat) → Option (List (ι × Nat))
  | [], labels => some labels
  | s :: rest, labels =>
    match s.label with
    | none => extractLabels (i + 1) rest labels
    | some name =>
      if (labels.lookup name).isSome then none
      else extractLabels (i + 1) rest (labels ++ [(name, i)])

/-- `resolve_targets`; `none` when a label is not defined.  A branch to a number
does not reach `to_return`. -/
def resolveTargets (labels : List (ι × Nat)) : List (Statement ι) → Option (List (Instruction Nat))
  | [] => some []
  | s :: rest =>
    match s.inst with
    | .branch opcode src1 src2 (.label name) =>
      (labels.lookup name).bind fun target =>
        (resolveTargets labels rest).map (.branch opcode src1 src2 target :: ·)
    | .branch _ _ _ (.literal _) => resolveTargets labels rest
    | inst => (resolveTargets labels rest).map (inst.mapTarget (fun _ => 0) :: ·)

end Labels

/-! ## the binary -/

/-- The two fields of a register operand. -/
def Register.fields (r : Register) : List (Nat × Nat) :=
  [(1, r.type.ctorIdx), (8, r.number.toNat)]

/-- The widths and values given to `bitstruct.pack`, padding included. -/
def Instruction.fields : Instruction Nat → List (Nat × Nat)
  | .alu opcode dst src1 type src2 shift numShift =>
    [(6, opcode.ctorIdx)] ++ dst.fields ++ src1.fields ++ [(4, type.ctorIdx)] ++
      src2.fields ++ [(1, shift.ctorIdx), (2, numShift.val)]
  | .immediate opcode dst ival rot =>
    [(6, 29 + opcode.ctorIdx)] ++ dst.fields ++ [(16, ival.toNat), (2, rot.ctorIdx), (7, 0)]
  | .memory opcode direction xferReg addr1 addr2 count token =>
    [(6, 26 + opcode.ctorIdx), (1, direction.ctorIdx)] ++ xferReg.fields ++ addr1.fields ++
      addr2.fields ++ [(4, count.val), (2, token.ctorIdx)]
  | .branch opcode src1 src2 target =>
    [(6, 3 + opcode.ctorIdx)] ++ src1.fields ++ src2.fields ++ [(12, target), (4, 0)]
  | .load opcode dst mask src rot =>
    [(6, 36 + opcode.ctorIdx)] ++ dst.fields ++ [(4, mask.val)] ++ src.fields ++
      [(2, rot.ctorIdx), (10, 0)]
  | .fifo opcode size addr1 addr2 token =>
    [(6, match opcode with | .rxPkt => 24 | .rFifoRd => 25 | .tFifoWr => 28)] ++
      size.fields ++ addr1.fields ++ addr2.fields ++ [(2, token.ctorIdx), (5, 0)]
  | .nop => [(6, 40), (34, 0)]
  | .ctxArb => [(6, 39), (34, 0)]
  | .csr dst csrNum => [(6, 21)] ++ dst.fields ++ [(16, csrNum.toNat), (9, 0)]

/-- `change_endianess_of_each_byte`. -/
def changeEndianessOfEachByte (binary : List UInt8) : List UInt8 := binary.map reverseByte

/-- `to_binary`; `none` when `bitstruct.pack` refuses a value that is too wide. -/
def toBinary (inst : Instruction Nat) : Option (List UInt8) :=
  if ∀ f ∈ inst.fields, f.2 < 2 ^ f.1 then some (bytesOf msbByte 5 (pack inst.fields)) else none

/-- The output for a list of resolved instructions. -/
def emit : List (Instruction Nat) → Option (List UInt8)
  | [] => some []
  | inst :: rest =>
    (toBinary inst).bind fun binary =>
      (emit rest).map (changeEndianessOfEachByte binary ++ ·)

/-- The instructions of a program, with their targets. -/
def resolve {ι : Type} [DecidableEq ι] (source : List (Statement ι)) :
    Option (List (Instruction Nat)) :=
  (extractLabels 0 source []).bind fun labels => resolveTargets labels source

/-- `main`: from the parsed source to the bytes of the firmware. -/
def assemble {ι : Type} [DecidableEq ι] (source : List (Statement ι)) : Option (List UInt8) :=
  (generateOpcodes source).bind fun source => (resolve source).bind emit

/-! ## decoding what was assembled -/

/-- The instruction as the engine sees it. -/
def Instruction.assembled (inst : Instruction Nat) : Instruction (Fin 4096) :=
  inst.mapTarget (Fin.ofNat 4096)

theorem length_pack_fields (inst : Instruction Nat) : (pack inst.fields).length = 40 := by
  cases inst <;> simp [Instruction.fields, Register.fields, pack]

theorem registerField_eq {n off : Nat} {r : Register}
    (h : bitField n off 1 = r.type.ctorIdx ∧ bitField n (off + 1) 8 = r.number.toNat) :
    registerField n off = r := by
  rw [registerField, h.1, h.2, RefType.ofNat_ctorIdx, UInt8.ofNat_toNat]

theorem AluOpcode.ctorIdx_lt (o : AluOpcode) : o.ctorIdx < 3 := by cases o <;> decide
theorem ImmedOpcode.ctorIdx_lt (o : ImmedOpcode) : o.ctorIdx < 7 := by cases o <;> decide
theorem MemOpcode.ctorIdx_lt (o : MemOpcode) : o.ctorIdx < 2 := by cases o <;> decide
theorem BranchOpcode.ctorIdx_lt (o : BranchOpcode) : o.ctorIdx < 17 := by cases o <;> decide
theorem LoadOpcode.ctorIdx_lt (o : LoadOpcode) : o.ctorIdx < 2 := by cases o <;> decide

/-- A number whose bit-fields are the fields of an instruction decodes to it. -/
theorem decode_of_fields {inst : Instruction Nat} {n : Nat}
    (h : unpack n 0 (inst.fields.map Prod.fst) = inst.fields.map Prod.snd) :
    decode n = some inst.assembled := by
  cases inst <;>
    simp only [Instruction.fields, Register.fields, List.cons_append, List.nil_append,
      List.map_cons, List.map_nil, unpack, List.cons.injEq, Nat.reduceAdd] at h
  case alu opcode dst src1 type src2 shift numShift =>
    obtain ⟨hop, hd, hd', h₁, h₁', htype, h₂, h₂', hshift, hnum, -⟩ := h
    have hlt := opcode.ctorIdx_lt
    have hinst : aluInst n = .alu opcode dst src1 type src2 shift numShift := by
      rw [aluInst, hop, AluOpcode.ofNat_ctorIdx, registerField_eq ⟨hd, hd'⟩,
        registerField_eq ⟨h₁, h₁'⟩, htype, AluOp.ofNat_ctorIdx, registerField_eq ⟨h₂, h₂'⟩,
        hshift, Shift.ofNat_ctorIdx, hnum, Fin.ofNat_val_eq_self]
    simp only [decode, hop]
    rw [if_pos (by omega), hinst]
    rfl
  case immediate opcode dst ival rot =>
    obtain ⟨hop, hd, hd', hival, hrot, -⟩ := h
    have hlt := opcode.ctorIdx_lt
    have hinst : immediateInst n = .immediate opcode dst ival rot := by
      rw [immediateInst, hop, Nat.add_sub_cancel_left, ImmedOpcode.ofNat_ctorIdx,
        registerField_eq ⟨hd, hd'⟩, hival, UInt16.ofNat_toNat, hrot, Rot.ofNat_ctorIdx]
    simp only [decode, hop]
    rw [if_neg (by omega), if_pos (by omega), hinst]
    rfl
  case memory opcode direction xferReg addr1 addr2 count token =>
    obtain ⟨hop, hdir, hx, hx', h₁, h₁', h₂, h₂', hcount, htoken, -⟩ := h
    have hlt := opcode.ctorIdx_lt
    have hinst : memoryInst n = .memory opcode direction xferReg addr1 addr2 count token := by
      rw [memoryInst, hop, Nat.add_sub_cancel_left, MemOpcode.ofNat_ctorIdx, hdir,
        Direction.ofNat_ctorIdx, registerField_eq ⟨hx, hx'⟩, registerField_eq ⟨h₁, h₁'⟩,
        registerField_eq ⟨h₂, h₂'⟩, hcount, Fin.ofNat_val_eq_self, htoken, Token.ofNat_ctorIdx]
    simp only [decode, hop]
    rw [if_neg (by omega), if_neg (by omega), if_pos (by omega), hinst]
    rfl
  case branch opcode src1 src2 target =>
    obtain ⟨hop, h₁, h₁', h₂, h₂', htarget, -⟩ := h
    have hlt := opcode.ctorIdx_lt
    have hinst : branchInst n = .branch opcode src1 src2 (Fin.ofNat 4096 target) := by
      rw [branchInst, hop, Nat.add_sub_cancel_left, BranchOpcode.ofNat_ctorIdx,
        registerField_eq ⟨h₁, h₁'⟩, registerField_eq ⟨h₂, h₂'⟩, htarget]
    simp only [decode, hop]
    rw [if_neg (by omega), if_neg (by omega), if_neg (by omega), if_pos (by omega), hinst]
    rfl
  case load opcode dst mask src rot =>
    obtain ⟨hop, hd, hd', hmask, hs, hs', hrot, -⟩ := h
    have hlt := opcode.ctorIdx_lt
    have hinst : loadInst n = .load opcode dst mask src rot := by
      rw [loadInst, hop, Nat.add_sub_cancel_left, LoadOpcode.ofNat_ctorIdx,
        registerField_eq ⟨hd, hd'⟩, hmask, Fin.ofNat_val_eq_self, registerField_eq ⟨hs, hs'⟩,
        hrot, Rot.ofNat_ctorIdx]
    simp only [decode, hop]
    rw [if_neg (by omega), if_neg (by omega), if_neg (by omega), if_neg (by omega),
      if_pos (by omega), hinst]
    rfl
  case fifo opcode size addr1 addr2 token =>
    obtain ⟨hop, hs, hs', h₁, h₁', h₂, h₂', htoken, -⟩ := h
    have hinst : ∀ o, fifoInst o n = .fifo o size addr1 addr2 token := by
      intro o
      rw [fifoInst, registerField_eq ⟨hs, hs'⟩, registerField_eq ⟨h₁, h₁'⟩,
        registerField_eq ⟨h₂, h₂'⟩, htoken, Token.ofNat_ctorIdx]
    cases opcode <;> simp [decode, hop, hinst, Instruction.assembled, Instruction.mapTarget]
  case nop => simp [decode, h, Instruction.assembled, Instruction.mapTarget]
  case ctxArb => simp [decode, h, Instruction.assembled, Instruction.mapTarget]
  case csr dst csrNum =>
    obtain ⟨hop, hd, hd', hnum, -⟩ := h
    have hinst : csrInst n = .csr dst csrNum := by
      rw [csrInst, registerField_eq ⟨hd, hd'⟩, hnum, UInt16.ofNat_toNat]
    simp [decode, hop, hinst, Instruction.assembled, Instruction.mapTarget]

/-- **The engine reads what the assembler wrote**. -/
theorem decode_toBinary {inst : Instruction Nat} {binary : List UInt8}
    (h : toBinary inst = some binary) :
    decode (ofBytes (changeEndianessOfEachByte binary)) = some inst.assembled := by
  unfold toBinary at h
  split at h
  next hwide =>
    cases h
    rw [changeEndianessOfEachByte, map_reverseByte_bytesOf (length_pack_fields inst),
      ofBytes_bytesOf (length_pack_fields inst)]
    exact decode_of_fields (unpack_pack _ hwide)
  next => contradiction

theorem length_changeEndianess {inst : Instruction Nat} {binary : List UInt8}
    (h : toBinary inst = some binary) : (changeEndianessOfEachByte binary).length = 5 := by
  unfold toBinary at h
  split at h
  next =>
    cases h
    simp [changeEndianessOfEachByte]
  next => contradiction

/-- **Layout of the firmware**: five bytes for each instruction, in order. -/
theorem emit_spec {insts : List (Instruction Nat)} {image : List UInt8}
    (h : emit insts = some image) :
    image.length = 5 * insts.length ∧ ∀ pc inst, insts[pc]? = some inst →
      decode (ofBytes ((image.drop (5 * pc)).take 5)) = some inst.assembled := by
  induction insts generalizing image with
  | nil =>
    cases h
    exact ⟨rfl, by simp⟩
  | cons first rest ih =>
    simp only [emit, Option.bind_eq_some_iff, Option.map_eq_some_iff] at h
    obtain ⟨binary, hbinary, tail, htail, rfl⟩ := h
    obtain ⟨hlength, hrest⟩ := ih htail
    have hfive : (changeEndianessOfEachByte binary).length = 5 := length_changeEndianess hbinary
    constructor
    · rw [List.length_append, hfive, hlength, List.length_cons]
      omega
    · intro pc inst hget
      cases pc with
      | zero =>
        cases hget
        rw [Nat.mul_zero, List.drop_zero, ← hfive, List.take_left]
        exact decode_toBinary hbinary
      | succ pc =>
        have hdrop : (changeEndianessOfEachByte binary ++ tail).drop (5 * (pc + 1)) =
            tail.drop (5 * pc) := by
          rw [Nat.mul_add, Nat.mul_one, Nat.add_comm, ← hfive, ← List.drop_drop,
            List.drop_left]
        rw [hdrop]
        exact hrest pc inst hget

end Ooows.Net
