import Ooows.HyperO.Emulation

/-!
# Ooows.HyperO.PortIo

`handle_pio` against the meaning of the instructions it emulates.

`PioInsn` are `in`, `out`, `ins` and `outs` with their ports, sizes and repeat prefix, and
`PioInsn.run` is what they do: `out` and `in` exchange one datum between the accumulator and
the port, `outs` and `ins` between memory at `SI` or `DI` and the port, advancing the index,
as often as `CX` says if repeated.

* `PioInsn.pio_right_iff_supported`: the instructions that are emulated as they are meant,
  whatever the registers, the memory and the devices, are `in` and `out`, except that in
  64-bit mode a double word has to clear the upper half of `rax`.
* `handlePio_string`: the string forms begin with `in` and `out` as well.  They exchange the
  accumulator instead of memory and leave the index alone, and a repeated `outs` has a
  mnemonic with neither beginning and becomes a read from port 0.
-/

namespace Ooows.HyperO

open Lib Bus

/-! ## the instructions -/

inductive PioForm
  | inp
  | out
  | ins
  | outs
  deriving DecidableEq, Repr

inductive PioPort
  | imm (port : UInt8)
  | dx
  deriving DecidableEq, Repr

/-- The size of the datum. -/
inductive PioSize
  | byte
  | word
  | dword
  deriving DecidableEq, Repr

def PioSize.bytes : PioSize → Nat
  | .byte => 1
  | .word => 2
  | .dword => 4

/-- The letter that a string form's mnemonic ends with. -/
def PioSize.letter : PioSize → Char
  | .byte => 'b'
  | .word => 'w'
  | .dword => 'd'

/-- `al`, `ax` or `eax`. -/
def PioSize.accumulator : PioSize → X86Reg
  | .byte => .low8 .rax
  | .word => .r16 .rax
  | .dword => .r32 .rax

structure PioInsn where
  form : PioForm
  port : PioPort
  size : PioSize
  rep : Bool
  length : UInt64
  deriving DecidableEq, Repr

namespace PioInsn

variable {σ : Type} (bus : DeviceBus σ) (long : Bool) (strings : Strings) (i : PioInsn)

/-- The port of an instruction. -/
def portOf (st : OooState) : UInt16 :=
  match i.port with
  | .imm port => port.toUInt16
  | .dx => (st.regs rdx).toUInt16

/-- One transfer: the devices, the registers and the memory after it. -/
def transfer (m : σ × OooState × ByteMem) : σ × OooState × ByteMem :=
  let (s, st, mem) := m
  let n := i.size.bytes
  match i.form with
  | .out =>
    ((pioAccess bus s (i.portOf st) (UInt64.ofNat (i.size.accumulator.read st.regs)) ioDirectionOut
      n).2.1, st, mem)
  | .inp =>
    let r := pioAccess bus s (i.portOf st) 0 ioDirectionIn n
    (r.2.1, i.size.accumulator.write long st (r.2.2.toNat % 256 ^ n), mem)
  | .outs =>
    ((pioAccess bus s (i.portOf st) (UInt64.ofNat (mem.load (strings.source (st.regs rsi)) n))
      ioDirectionOut n).2.1, advance st rsi strings.addrSize n, mem)
  | .ins =>
    let r := pioAccess bus s (i.portOf st) 0 ioDirectionIn n
    (r.2.1, advance st rdi strings.addrSize n,
      mem.store (strings.dest (st.regs rdi)) n (r.2.2.toNat % 256 ^ n))

/-- The instruction is a string form. -/
def isString : Bool := i.form = .ins || i.form = .outs

/-- A transfer for each count left in `CX`. -/
def transfers : Nat → σ × OooState × ByteMem → σ × OooState × ByteMem
  | 0, m => m
  | k + 1, m =>
    let (s, st, mem) := i.transfer bus long strings m
    transfers k
      (s, st.setReg rcx (copyLow (st.regs rcx) (st.regs rcx - 1).toNat strings.addrSize), mem)

/-- **What a port instruction means**: one transfer, or with a repeat prefix of a string form as many
as the count register says, and then the instruction pointer advances. -/
def run (s : σ) (st : OooState) (mem : ByteMem) : σ × OooState × ByteMem :=
  let (s, st, mem) :=
    if i.rep && i.isString then
      i.transfers bus long strings (lowBytes (st.regs rcx) strings.addrSize).toNat (s, st, mem)
    else i.transfer bus long strings (s, st, mem)
  (s, updateRip st i.length, mem)

/-- The mnemonic as the disassembler writes it. -/
def mnemonic : List Char :=
  let name := match i.form with
    | .inp => ['i', 'n']
    | .out => ['o', 'u', 't']
    | .ins => ['i', 'n', 's', i.size.letter]
    | .outs => ['o', 'u', 't', 's', i.size.letter]
  if i.rep then ['r', 'e', 'p', ' '] ++ name else name

end PioInsn

/-- The operand of a port. -/
def IsPortOp (port : PioPort) (op : X86Op) : Prop :=
  match port with
  | .imm port => ∃ r, op = ⟨.imm port.toNat r, 1⟩
  | .dx => op = ⟨.reg (.r16 .rdx), 2⟩

/-- What a correct disassembler says about an instruction: `out` and `outs` have the port first,
`in` and `ins` the datum. -/
structure PioDecodes (insn : Insn) (i : PioInsn) : Prop where
  mnemonic : insn.mnemonic = i.mnemonic
  size : insn.size = i.length
  out : i.form = .out → IsPortOp i.port insn.op0 ∧ insn.op1 = ⟨.reg i.size.accumulator, i.size.bytes⟩
  inp : i.form = .inp → insn.op0 = ⟨.reg i.size.accumulator, i.size.bytes⟩ ∧ IsPortOp i.port insn.op1
  outs : i.form = .outs → insn.op0 = ⟨.reg (.r16 .rdx), 2⟩ ∧ ∃ r, insn.op1 = ⟨.mem r, i.size.bytes⟩
  ins : i.form = .ins → (∃ r, insn.op0 = ⟨.mem r, i.size.bytes⟩) ∧ insn.op1 = ⟨.reg (.r16 .rdx), 2⟩

/-! ## the emulation -/

namespace PioInsn

/-- The instructions that exist: only string forms are repeated, and their port is `DX`. -/
def WellFormed (i : PioInsn) : Prop :=
  (i.rep = true → i.isString = true) ∧ (i.isString = true → i.port = .dx)

/-- **The instruction is emulated as it is meant**: whatever the registers, the memory and the devices,
if the disassembler decodes it correctly. -/
def Right (long : Bool) (i : PioInsn) : Prop :=
  ∀ (σ : Type) (bus : DeviceBus σ) (strings : Strings) (capstone : Capstone) (insn : Insn) (s : σ)
    (st : OooState) (mem : ByteMem), PioDecodes insn i → capstone (fetch mem st) = some insn →
    ∃ ret s' st', handlePio capstone mem bus s st = some (ret, s', st') ∧
      i.run bus long strings s st mem = (s', st', mem)

/-- The instructions that are emulated: `in` and `out`, but in 64-bit mode no `in` of a double
word. -/
def Supported (long : Bool) (i : PioInsn) : Prop :=
  i.rep = false ∧ (i.form = .out ∨ i.form = .inp ∧ (long = true → i.size ≠ .dword))

end PioInsn

theorem pioPort_of_isPortOp {i : PioInsn} {op : X86Op} (h : IsPortOp i.port op) (st : OooState) :
    pioPort st op = i.portOf st := by
  unfold IsPortOp at h
  unfold PioInsn.portOf
  cases hport : i.port with
  | imm port =>
    simp only [hport] at h ⊢
    obtain ⟨r, rfl⟩ := h
    have hlt : port.toNat < 2 ^ 8 := port.toNat_lt
    show UInt16.ofNat ((port.toNat : Int) % 2 ^ 16).toNat = port.toUInt16
    rw [← UInt16.toNat_inj, UInt16.toNat_ofNat', UInt8.toNat_toUInt16]
    omega
  | dx =>
    simp only [hport] at h ⊢
    rw [h]
    rfl

theorem accumulator_known (size : PioSize) : size.accumulator.Known := by
  cases size <;> decide

theorem size_accumulator (size : PioSize) : size.accumulator.size = size.bytes := by
  cases size <;> rfl

theorem getRegOffset_accumulator (size : PioSize) : getRegOffset size.accumulator = rax := by
  cases size <;> rfl

theorem bytes_le (size : PioSize) : size.bytes ≤ 8 := by
  cases size <;> decide

theorem PioInsn.right_of_supported {long : Bool} {i : PioInsn} (hs : i.Supported long) :
    i.Right long := by
  intro σ bus strings capstone insn s st mem hd hdec
  obtain ⟨hrep, hform | ⟨hform, hlong⟩⟩ := hs
  · obtain ⟨hport, hop⟩ := hd.out hform
    have hdir : pioDirection insn.mnemonic = ioDirectionOut := by
      rw [hd.mnemonic, PioInsn.mnemonic, hform, hrep]
      rfl
    have hle : insn.op1.size ≤ 8 := by
      rw [hop]
      exact bytes_le _
    have hdata : lowBytes (st.regs rax) i.size.bytes =
        UInt64.ofNat (i.size.accumulator.read st.regs) := by
      rw [← X86Reg.lowBytes_known (accumulator_known _), getRegOffset_accumulator, size_accumulator]
    rw [handlePio, hdec]
    simp only [hdir, if_true, hle]
    refine ⟨_, _, _, rfl, ?_⟩
    rw [PioInsn.run, hrep, Bool.false_and, if_neg (by simp), PioInsn.transfer, hform, hd.size, hop,
      pioPort_of_isPortOp hport, hdata]
  · obtain ⟨hop, hport⟩ := hd.inp hform
    have hdir : pioDirection insn.mnemonic = ioDirectionIn := by
      rw [hd.mnemonic, PioInsn.mnemonic, hform, hrep]
      rfl
    have hle : insn.op0.size ≤ 8 := by
      rw [hop]
      exact bytes_le _
    have hlong' : long = true → i.size.accumulator.size ≠ 4 := by
      intro h
      have := hlong h
      cases hsize : i.size <;> simp_all [PioSize.accumulator, X86Reg.size]
    rw [handlePio, hdec]
    simp only [hdir, show ¬ ioDirectionIn = ioDirectionOut by decide, if_false, if_true, hle]
    refine ⟨_, _, _, rfl, ?_⟩
    rw [PioInsn.run, hrep, Bool.false_and, if_neg (by simp), PioInsn.transfer, hform, hd.size, hop,
      pioPort_of_isPortOp hport]
    have hwrite := X86Reg.setReg_known (accumulator_known i.size) hlong' st
      ((pioAccess bus s (i.portOf st) 0 ioDirectionIn i.size.bytes).2.2.toNat % 256 ^ i.size.bytes)
    rw [getRegOffset_accumulator, size_accumulator, copyLow_mod] at hwrite
    rw [hwrite]

/-! ## devices and guests -/

/-- A device at every port up to 255 that keeps its requests and answers `0x5a`. -/
def portRecorder : DeviceBus (List IoportRequest) where
  devicelist := [⟨[], [⟨0, 256⟩], []⟩]
  channelForDevice _ := some fun s r => (s ++ [r], some 0x5a)

/-- Memory with `0x41` everywhere, in the segments of `SI` and `DI`. -/
def flatStrings : Strings := ⟨UInt64.toNat, UInt64.toNat, 2, Nat.two_pos⟩

/-- A guest with `0x42` in `al` and 8 in `dx`. -/
def atPort : OooState where
  mode := modeReal
  ripGpa := 0
  physAddr := 0
  isWrite := false
  regs r := if r = rax then 0x42 else if r = rdx then 8 else if r = rcx then 2 else 0

/-- A guest with the same word in all registers. -/
def constGuest (x : UInt64) : OooState := ⟨modeReal, 0, 0, false, fun _ => x⟩

namespace PioInsn

variable {long : Bool} {i : PioInsn}

/-! ## right instructions are supported -/

/-- The operand of a port as a disassembler may present it. -/
def portOp : PioPort → X86Op
  | .imm port => ⟨.imm port.toNat .other, 1⟩
  | .dx => ⟨.reg (.r16 .rdx), 2⟩

/-- The instruction as a disassembler may present it. -/
def present (i : PioInsn) : Insn :=
  match i.form with
  | .out => ⟨i.mnemonic, i.length, portOp i.port, ⟨.reg i.size.accumulator, i.size.bytes⟩⟩
  | .inp => ⟨i.mnemonic, i.length, ⟨.reg i.size.accumulator, i.size.bytes⟩, portOp i.port⟩
  | .outs => ⟨i.mnemonic, i.length, portOp .dx, ⟨.mem .other, i.size.bytes⟩⟩
  | .ins => ⟨i.mnemonic, i.length, ⟨.mem .other, i.size.bytes⟩, portOp .dx⟩

theorem isPortOp_portOp (port : PioPort) : IsPortOp port (portOp port) := by
  cases port with
  | imm port => exact ⟨.other, rfl⟩
  | dx => rfl

theorem decodes_present (i : PioInsn) : PioDecodes i.present i := by
  constructor
  · cases h : i.form <;> simp [present, h]
  · cases h : i.form <;> simp [present, h]
  · intro h
    simp [present, h, isPortOp_portOp]
  · intro h
    simp [present, h, isPortOp_portOp]
  · intro h
    simp [present, h, portOp]
  · intro h
    simp [present, h, portOp]

/-- A repeated form is no right instruction: with a count of 0 nothing is to be done, and the code
accesses a port. -/
theorem Right.not_rep (h : i.Right long) (hwf : i.WellFormed) : i.rep = false := by
  by_contra hrep
  rw [Bool.not_eq_false] at hrep
  have hstring := hwf.1 hrep
  obtain ⟨ret, s', st', hrun, hmean⟩ := h _ portRecorder flatStrings (fun _ => some i.present)
    i.present [] (constGuest 0) (fun _ => 0) (decodes_present i) rfl
  have hnone : s' = [] := by
    have hcount : (lowBytes ((constGuest 0).regs rcx) flatStrings.addrSize).toNat = 0 := rfl
    rw [run, hrep, hstring, Bool.and_self, if_pos rfl, hcount] at hmean
    exact (congrArg Prod.fst hmean).symm
  have hone : s'.length = 1 := by
    obtain ⟨form, port, size, rep, length⟩ := i
    dsimp only at hrep
    subst hrep
    cases form with
    | inp => exact absurd hstring (by simp [isString])
    | out => exact absurd hstring (by simp [isString])
    | ins =>
      cases size <;>
        exact congrArg (fun r => r.elim 0 fun r => r.2.1.length) hrun.symm
    | outs =>
      cases size <;>
        exact congrArg (fun r => r.elim 0 fun r => r.2.1.length) hrun.symm
  rw [hnone] at hone
  contradiction

/-- A string form is no right instruction: its index stays. -/
theorem Right.not_string (h : i.Right long) (hrep : i.rep = false) : i.isString = false := by
  by_contra hstring
  rw [Bool.not_eq_false] at hstring
  obtain ⟨ret, s', st', hrun, hmean⟩ := h _ portRecorder flatStrings (fun _ => some i.present)
    i.present [] (constGuest 0) (fun _ => 0) (decodes_present i) rfl
  have hbytes : 0 < i.size.bytes ∧ i.size.bytes < 256 := by
    cases i.size <;> decide
  rw [run, hrep, Bool.false_and, if_neg (by simp), transfer] at hmean
  obtain ⟨form, port, size, rep, length⟩ := i
  dsimp only at hrep hbytes
  subst hrep
  cases form with
  | inp => exact absurd hstring (by simp [isString])
  | out => exact absurd hstring (by simp [isString])
  | ins =>
    have hstay : st'.regs rdi = 0 := by
      cases size <;> exact congrArg (fun r => r.elim 0 fun r => r.2.2.regs rdi) hrun.symm
    have hmove : st'.regs rdi = (advance (constGuest 0) rdi 2 size.bytes).regs rdi :=
      (congrArg (fun r => r.2.1.regs rdi) hmean).symm
    rw [hmove] at hstay
    exact advance_ne_zero (constGuest 0) _ rfl rfl (by decide) hbytes.1 hbytes.2 hstay
  | outs =>
    have hstay : st'.regs rsi = 0 := by
      cases size <;> exact congrArg (fun r => r.elim 0 fun r => r.2.2.regs rsi) hrun.symm
    have hmove : st'.regs rsi = (advance (constGuest 0) rsi 2 size.bytes).regs rsi :=
      (congrArg (fun r => r.2.1.regs rsi) hmean).symm
    rw [hmove] at hstay
    exact advance_ne_zero (constGuest 0) _ rfl rfl (by decide) hbytes.1 hbytes.2 hstay

/-- Without devices a read finds what the variable held. -/
theorem pioAccess_noDevice (port : UInt16) (direction : UInt8) (n : Nat) :
    pioAccess (⟨[], fun _ => none⟩ : DeviceBus Unit) () port 0 direction n = (-1, (), 0) := by
  have hload : (dataBytes 0).load 0 8 = 0 := by decide
  show ((-1 : Int), (), UInt64.ofNat ((dataBytes 0).load 0 8)) = (-1, (), 0)
  rw [hload]
  rfl

/-- A right `in` of a double word is not one in 64-bit mode: it would have to clear the upper half. -/
theorem Right.size_ne_dword (h : i.Right true) (hrep : i.rep = false) (hform : i.form = .inp) :
    i.size ≠ .dword := by
  intro hsize
  obtain ⟨ret, s', st', hrun, hmean⟩ := h Unit ⟨[], fun _ => none⟩ flatStrings
    (fun _ => some i.present) i.present () (constGuest 0x100000000) (fun _ => 0) (decodes_present i) rfl
  have hop : i.present.op0 = ⟨.reg (.r32 .rax), 4⟩ := by
    rw [((decodes_present i).inp hform).1, hsize]
    rfl
  have hdir : pioDirection i.present.mnemonic = ioDirectionIn := by
    rw [(decodes_present i).mnemonic, mnemonic, hform, hrep]
    rfl
  rw [handlePio] at hrun
  simp only [hdir, show ¬ ioDirectionIn = ioDirectionOut by decide, if_false, hop,
    show 4 ≤ 8 by decide, if_true, pioAccess_noDevice, Option.some.injEq, Prod.mk.injEq] at hrun
  rw [run, hrep, Bool.false_and, if_neg (by simp), transfer, hform, hsize] at hmean
  simp only [pioAccess_noDevice, Prod.mk.injEq] at hmean
  have hregs := congrArg (fun st => st.regs rax) (hrun.2.2.trans hmean.2.1.symm)
  exact absurd hregs (show copyLow 0x100000000 0 4 ≠ UInt64.ofNat (0 % 256 ^ 4 % 256 ^ 4) by decide)

/-- **The emulated port instructions**: an instruction is emulated as it is meant, for all registers,
memory and devices, exactly if it is supported. -/
theorem pio_right_iff_supported (long : Bool) (i : PioInsn) (hwf : i.WellFormed) :
    i.Right long ↔ i.Supported long := by
  refine ⟨fun h => ?_, right_of_supported⟩
  have hrep := h.not_rep hwf
  have hstring := h.not_string hrep
  refine ⟨hrep, ?_⟩
  cases hform : i.form with
  | out => exact .inl rfl
  | inp =>
    refine .inr ⟨rfl, ?_⟩
    rintro rfl
    exact h.size_ne_dword hrep hform
  | ins => simp [isString, hform] at hstring
  | outs => simp [isString, hform] at hstring

end PioInsn

/-- `out dx, al`. -/
theorem pio_right_out :
    ∃ ret st, handlePio (fun _ => some (PioInsn.present ⟨.out, .dx, .byte, false, 1⟩))
        (fun _ => 0x41) portRecorder [] atPort = some (ret, [⟨8, 1, 1, 0x42, 0⟩], st) := by
  have hright : PioInsn.Right false ⟨.out, .dx, .byte, false, 1⟩ :=
    (PioInsn.pio_right_iff_supported false _ ⟨by decide, by decide⟩).2 ⟨rfl, .inl rfl⟩
  obtain ⟨ret, s, st, hrun, hmean⟩ := hright _ portRecorder flatStrings
    (fun _ => some (PioInsn.present ⟨.out, .dx, .byte, false, 1⟩)) _ [] atPort (fun _ => 0x41)
    (PioInsn.decodes_present _) rfl
  have hs : [⟨8, 1, 1, 0x42, 0⟩] = s := congrArg Prod.fst hmean
  exact ⟨ret, st, hs ▸ hrun⟩

/-- `outsb` with `0x41` at `SI` sends `al`, which is `0x42`.  `insb` leaves memory alone and
overwrites `al`.  `rep outsb` with count 2 reads a word from port 0. -/
theorem handlePio_string :
    ((handlePio (fun _ => some ⟨['o', 'u', 't', 's', 'b'], 1, ⟨.reg (.r16 .rdx), 2⟩,
          ⟨.mem .other, 1⟩⟩) (fun _ => 0x41) portRecorder [] atPort).map (·.2.1) =
          some [⟨8, 1, 1, 0x42, 0⟩] ∧
        (PioInsn.run portRecorder false flatStrings ⟨.outs, .dx, .byte, false, 1⟩ [] atPort
          fun _ => 0x41).1 = [⟨8, 1, 1, 0x41, 0⟩]) ∧
      ((handlePio (fun _ => some ⟨['i', 'n', 's', 'b'], 1, ⟨.mem .other, 1⟩,
          ⟨.reg (.r16 .rdx), 2⟩⟩) (fun _ => 0x41) portRecorder [] atPort).map (·.2.2.regs rax) =
          some 0x5a ∧
        (PioInsn.run portRecorder false flatStrings ⟨.ins, .dx, .byte, false, 1⟩ [] atPort
          fun _ => 0x41).2.1.regs rax = 0x42 ∧
        (PioInsn.run portRecorder false flatStrings ⟨.ins, .dx, .byte, false, 1⟩ [] atPort
          fun _ => 0x41).2.2 0 = 0x5a) ∧
      (handlePio (fun _ => some ⟨['r', 'e', 'p', ' ', 'o', 'u', 't', 's', 'b'], 2,
          ⟨.reg (.r16 .rdx), 2⟩, ⟨.mem .other, 1⟩⟩) (fun _ => 0x41) portRecorder [] atPort).map
          (·.2.1) = some [⟨0, 0, 2, 0, 0⟩] ∧
        (PioInsn.run portRecorder false flatStrings ⟨.outs, .dx, .byte, true, 2⟩ [] atPort
          fun _ => 0x41).1 = [⟨8, 1, 1, 0x41, 0⟩, ⟨8, 1, 1, 0x41, 0⟩] := by
  decide

end Ooows.HyperO
