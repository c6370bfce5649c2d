import Ooows.HyperO.Fetch
import Ooows.Bus.Pio

/-!
# Ooows.HyperO.Emulation

`handle_mmio` and `handle_pio` of the hyper-o stubs: the instruction behind an exit is
disassembled, and its access is sent to the device bus.

The disassembler is a parameter.  Of its answer the code uses the mnemonic, the length and
two operands; `op->reg` is a member of a union, so for an operand that is not a register
it reads as whatever register has the number that stands there.

`get_reg_offset` knows the low bytes, words and double words of the general registers.  For
every other name it returns -1, and `regs[-1]` is the member in front of the registers.
-/

namespace Ooows.HyperO

open Lib Bus

/-! ## operands -/

/-- The general registers, in the order of `struct ooo_regs`. -/
inductive Gpr
  | rax | rcx | rdx | rbx | rsp | rbp | rsi | rdi
  | r8 | r9 | r10 | r11 | r12 | r13 | r14 | r15
  deriving DecidableEq, Repr

def Gpr.index : Gpr → Int
  | .rax => 0 | .rcx => 1 | .rdx => 2 | .rbx => 3 | .rsp => 4 | .rbp => 5 | .rsi => 6 | .rdi => 7
  | .r8 => 8 | .r9 => 9 | .r10 => 10 | .r11 => 11 | .r12 => 12 | .r13 => 13 | .r14 => 14
  | .r15 => 15

/-- The register names of an instruction: the low byte, word, double word and quad word of a general
register, the four high bytes, the segment and vector registers by number and size, and everything
else. -/
inductive X86Reg
  | low8 (g : Gpr)
  | ah | ch | dh | bh
  | r16 (g : Gpr)
  | r32 (g : Gpr)
  | r64 (g : Gpr)
  | ext (number bytes : Nat)
  | other
  deriving DecidableEq, Repr

/-- `get_reg_offset`. -/
def getRegOffset : X86Reg → Int
  | .low8 g => g.index
  | .r16 g => g.index
  | .r32 g => g.index
  | _ => -1

/-- What kind of operand `cs_x86_op` is; `asReg` is what its `reg` reads as. -/
inductive OpKind
  | reg (r : X86Reg)
  | imm (value : Int) (asReg : X86Reg)
  | mem (asReg : X86Reg)
  deriving DecidableEq, Repr

/-- `cs_x86_op`. -/
structure X86Op where
  kind : OpKind
  size : Nat
  deriving DecidableEq, Repr

/-- `op->reg`. -/
def X86Op.reg (op : X86Op) : X86Reg :=
  match op.kind with
  | .reg r => r
  | .imm _ r => r
  | .mem r => r

/-- `cs_insn`. -/
structure Insn where
  mnemonic : List Char
  size : UInt64
  /-- `operands[0]`. -/
  op0 : X86Op
  /-- `operands[1]`. -/
  op1 : X86Op
  deriving DecidableEq, Repr

/-- `cs_disasm` on the bytes it gets, `none` when it finds no instruction. -/
abbrev Capstone := List UInt8 → Option Insn

/-! ## parts of words -/

/-- The low `n` bytes. -/
def lowBytes (x : UInt64) (n : Nat) : UInt64 := UInt64.ofNat (x.toNat % 256 ^ n)

/-- `memcpy` of `n` bytes of `v` to the low end of `x`. -/
def copyLow (x : UInt64) (v n : Nat) : UInt64 :=
  UInt64.ofNat (x.toNat / 256 ^ n * 256 ^ n + v % 256 ^ n)

@[simp] theorem copyLow_mod (x : UInt64) (v n : Nat) : copyLow x (v % 256 ^ n) n = copyLow x v n := by
  rw [copyLow, Nat.mod_mod, copyLow]


/-! ## memory-mapped accesses -/

structure MmioRequest where
  physAddr : UInt64
  data : UInt64
  len : Nat
  isWrite : Bool
  deriving DecidableEq, Repr

/-- The devices with their channels, and the APICs, which the bus asks first. -/
structure MmioBus (σ : Type) where
  apicAccess : UInt64 → Bool
  /-- The result, the state and `*data` after the access. -/
  apicMmio : σ → MmioRequest → Int × σ × UInt64
  devicelist : List DeviceNode
  channelForDevice : DeviceNode → Option (σ → MmioRequest → σ × Option UInt32)

/-- The result, the devices and `*data` after the access. -/
def MmioBus.dbusHandleMmioAccess {σ : Type} (bus : MmioBus σ) (s : σ) (physAddr data : UInt64)
    (len : Nat) (isWrite : Bool) : Int × σ × UInt64 :=
  if bus.apicAccess physAddr then bus.apicMmio s ⟨physAddr, data, len, isWrite⟩
  else match deviceForAddr bus.devicelist physAddr with
    | none => (-1, s, data)
    | some devnode =>
      match bus.channelForDevice devnode with
      | none => (-1, s, data)
      | some device =>
        match device s ⟨physAddr, lowBytes data 4, len, isWrite⟩ with
        | (s, none) => (-1, s, data)
        | (s, some value) =>
          if isWrite then (0, s, data)
          else if len = 1 then (0, s, (value &&& 0xff).toUInt64)
          else if len = 2 then (0, s, copyLow data (value &&& 0xffff).toNat 2)
          else if len = 4 then (0, s, copyLow data value.toNat 4)
          else (-1, s, data)

section

variable {σ : Type} (capstone : Capstone) (mem : ByteMem)

/-- `handle_mmio`: the result, the devices and the state; `none` is a failed assertion. -/
def handleMmio (bus : MmioBus σ) (s : σ) (st : OooState) : Option (Int × σ × OooState) :=
  match capstone (fetch mem st) with
  | none => some (-1, s, st)
  | some insn =>
    if ['m', 'o', 'v'].isPrefixOf insn.mnemonic then
      if st.isWrite then
        let offset := getRegOffset insn.op1.reg
        if insn.op1.size ≤ 8 then
          let r := bus.dbusHandleMmioAccess s st.physAddr
            (lowBytes (st.regs offset) insn.op1.size) insn.op1.size true
          some (r.1, r.2.1, updateRip st insn.size)
        else none
      else
        let offset := getRegOffset insn.op0.reg
        if insn.op0.size ≤ 8 then
          let r := bus.dbusHandleMmioAccess s st.physAddr 0 insn.op0.size false
          some (r.1, r.2.1, updateRip
            (st.setReg offset (copyLow (st.regs offset) r.2.2.toNat insn.op0.size)) insn.size)
        else none
    else none

/-! ## port accesses -/

/-- The local variable `data` as the bytes the bus gets a pointer to. -/
def dataBytes (data : UInt64) : ByteMem := ByteMem.store (fun _ => 0) 0 8 data.toNat

/-- `dbusHandlePioAccess` on a local variable, with count 0: the result, the devices and the
variable. -/
def pioAccess (bus : DeviceBus σ) (s : σ) (port : UInt16) (data : UInt64) (direction : UInt8)
    (size : Nat) : Int × σ × UInt64 :=
  let r := bus.dbusHandlePioAccess s port (dataBytes data) 0 direction (UInt8.ofNat size) 0
  (r.1, r.2.1, UInt64.ofNat (r.2.2.load 0 8))

/-- The port of an operand: an immediate, or `DX` for every register. -/
def pioPort (st : OooState) (op : X86Op) : UInt16 :=
  match op.kind with
  | .imm value _ => UInt16.ofNat (value % 2 ^ 16).toNat
  | .reg _ => (st.regs rdx).toUInt16
  | .mem _ => 0

/-- The direction `handle_pio` reads off the mnemonic; what it does not know stays at 0. -/
def pioDirection (mnemonic : List Char) : UInt8 :=
  if ['o', 'u', 't'].isPrefixOf mnemonic then ioDirectionOut
  else if ['i', 'n'].isPrefixOf mnemonic then ioDirectionIn
  else 0

/-- `handle_pio`. -/
def handlePio (bus : DeviceBus σ) (s : σ) (st : OooState) : Option (Int × σ × OooState) :=
  match capstone (fetch mem st) with
  | none => some (-1, s, st)
  | some insn =>
    let direction := pioDirection insn.mnemonic
    if direction = ioDirectionOut then
      if insn.op1.size ≤ 8 then
        let r := pioAccess bus s (pioPort st insn.op0) (lowBytes (st.regs rax) insn.op1.size)
          direction insn.op1.size
        some (r.1, r.2.1, updateRip st insn.size)
      else none
    else if insn.op0.size ≤ 8 then
      let r := pioAccess bus s (pioPort st insn.op1) 0 direction insn.op0.size
      some (r.1, r.2.1, updateRip
        (st.setReg rax (copyLow (st.regs rax) r.2.2.toNat insn.op0.size)) insn.size)
    else none

end

/-! ## registers as the instructions mean them -/

namespace X86Reg

/-- The size of a register in bytes. -/
def size : X86Reg → Nat
  | .low8 _ => 1
  | .ah => 1
  | .ch => 1
  | .dh => 1
  | .bh => 1
  | .r16 _ => 2
  | .r32 _ => 4
  | .r64 _ => 8
  | .ext _ bytes => bytes
  | .other => 0

/-- The second byte of a word. -/
def highByte (x : UInt64) : Nat := x.toNat / 256 % 256

/-- The word with another second byte. -/
def setHighByte (x : UInt64) (v : Nat) : UInt64 :=
  UInt64.ofNat (x.toNat / 65536 * 65536 + v % 256 * 256 + x.toNat % 256)

/-- The contents of a general register. -/
def read (regs : Int → UInt64) : X86Reg → Nat
  | .low8 g => (regs g.index).toNat % 256 ^ 1
  | .ah => highByte (regs Gpr.rax.index)
  | .ch => highByte (regs Gpr.rcx.index)
  | .dh => highByte (regs Gpr.rdx.index)
  | .bh => highByte (regs Gpr.rbx.index)
  | .r16 g => (regs g.index).toNat % 256 ^ 2
  | .r32 g => (regs g.index).toNat % 256 ^ 4
  | .r64 g => (regs g.index).toNat
  | .ext .. => 0
  | .other => 0

/-- Assign to a general register.  In 64-bit mode (`long`) a double word clears the upper half. -/
def write (long : Bool) (st : OooState) (v : Nat) : X86Reg → OooState
  | .low8 g => st.setReg g.index (copyLow (st.regs g.index) v 1)
  | .ah => st.setReg Gpr.rax.index (setHighByte (st.regs Gpr.rax.index) v)
  | .ch => st.setReg Gpr.rcx.index (setHighByte (st.regs Gpr.rcx.index) v)
  | .dh => st.setReg Gpr.rdx.index (setHighByte (st.regs Gpr.rdx.index) v)
  | .bh => st.setReg Gpr.rbx.index (setHighByte (st.regs Gpr.rbx.index) v)
  | .r16 g => st.setReg g.index (copyLow (st.regs g.index) v 2)
  | .r32 g =>
    if long then st.setReg g.index (UInt64.ofNat (v % 256 ^ 4))
    else st.setReg g.index (copyLow (st.regs g.index) v 4)
  | .r64 g => st.setReg g.index (UInt64.ofNat v)
  | .ext .. => st
  | .other => st

/-- The names `get_reg_offset` knows. -/
def Known (r : X86Reg) : Prop := getRegOffset r ≠ -1

instance (r : X86Reg) : Decidable r.Known := inferInstanceAs (Decidable (_ ≠ _))

/-- The low bytes at the offset of a known register are its contents. -/
theorem lowBytes_known {r : X86Reg} (h : r.Known) (regs : Int → UInt64) :
    lowBytes (regs (getRegOffset r)) r.size = UInt64.ofNat (r.read regs) := by
  cases r with
  | low8 g => rfl
  | r16 g => rfl
  | r32 g => rfl
  | ah => exact absurd rfl h
  | ch => exact absurd rfl h
  | dh => exact absurd rfl h
  | bh => exact absurd rfl h
  | r64 g => exact absurd rfl h
  | ext number bytes => exact absurd rfl h
  | other => exact absurd rfl h

/-- Copying to the offset of a known register assigns to it, but for the upper half that a double
word clears in 64-bit mode. -/
theorem setReg_known {r : X86Reg} (h : r.Known) {long : Bool} (hlong : long = true → r.size ≠ 4)
    (st : OooState) (v : Nat) :
    st.setReg (getRegOffset r) (copyLow (st.regs (getRegOffset r)) v r.size) =
      r.write long st v := by
  cases r with
  | low8 g => rfl
  | r16 g => rfl
  | r32 g =>
    cases long with
    | false => rfl
    | true => exact absurd rfl (hlong rfl)
  | ah => exact absurd rfl h
  | ch => exact absurd rfl h
  | dh => exact absurd rfl h
  | bh => exact absurd rfl h
  | r64 g => exact absurd rfl h
  | ext number bytes => exact absurd rfl h
  | other => exact absurd rfl h

/-- A register with an offset has at most four bytes. -/
theorem size_le_of_known {r : X86Reg} (h : r.Known) : r.size ≤ 4 := by
  cases r <;> first | exact absurd rfl h | simp [size]

/-- No assignment reaches the member in front of the registers. -/
theorem write_neg_one (long : Bool) (st : OooState) (v : Nat) (r : X86Reg) :
    (r.write long st v).regs (-1) = st.regs (-1) := by
  have hindex : ∀ g : Gpr, (-1 : Int) ≠ g.index := by
    intro g
    cases g <;> decide
  cases r <;> simp only [write]
  case r32 g => split <;> simp [OooState.setReg, hindex]
  all_goals simp [OooState.setReg, hindex]

end X86Reg

/-! ## string operands -/

/-- The addresses behind the string operands, and the address size in bytes. -/
structure Strings where
  /-- The place of `DS:SI`. -/
  source : UInt64 → Nat
  /-- The place of `ES:DI`. -/
  dest : UInt64 → Nat
  addrSize : Nat
  pos : 0 < addrSize

def rsi : Int := 6
def rdi : Int := 7
def rflags : Int := 17

/-- The next index; the direction flag turns it around. -/
def advance (st : OooState) (r : Int) (addrSize n : Nat) : OooState :=
  let x := if (st.regs rflags).toNat.testBit 10 then st.regs r - UInt64.ofNat n
    else st.regs r + UInt64.ofNat n
  st.setReg r (copyLow (st.regs r) x.toNat addrSize)

theorem advance_of_ne {r r' : Int} (h : r' ≠ r) (st : OooState) (addrSize n : Nat) :
    (advance st r addrSize n).regs r' = st.regs r' :=
  Function.update_of_ne h _ _

/-- From 0 an index moves. -/
theorem advance_ne_zero (st : OooState) (r : Int) {addrSize n : Nat} (hflags : st.regs rflags = 0)
    (hr : st.regs r = 0) (haddr : 0 < addrSize) (hpos : 0 < n) (hn : n < 256) :
    (advance st r addrSize n).regs r ≠ 0 := by
  have hone : 256 ^ 1 ≤ 256 ^ addrSize := Nat.pow_le_pow_right (by decide) haddr
  have hnat : (UInt64.ofNat n).toNat = n := by
    rw [UInt64.toNat_ofNat']
    omega
  have hval : (advance st r addrSize n).regs r = UInt64.ofNat n := by
    simp [advance, OooState.setReg, hflags, hr, copyLow, hnat, Nat.mod_eq_of_lt (show n < 256 ^ addrSize by omega)]
  rw [hval]
  intro hzero
  rw [hzero] at hnat
  exact absurd hnat (by simp; omega)

end Ooows.HyperO
