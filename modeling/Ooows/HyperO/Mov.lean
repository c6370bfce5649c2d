import Mathlib.Tactic.IntervalCases
import Ooows.HyperO.Emulation

/-!
# Ooows.HyperO.Mov

`handle_mmio` against the meaning of the instructions it emulates.

`MovInsn` are the instructions whose mnemonic begins with `mov`: moves between memory and a
register or an immediate, with and without a conversion, and the string moves.
`MovInsn.run` is what they do, with the memory operand that faulted on the device bus.  A
disassembler that decodes correctly presents them as `Decodes` says.

* `MovInsn.right_iff_supported`: the instructions that are emulated as they are meant,
  whatever the registers and the devices, are the plain moves of a register that
  `get_reg_offset` knows, except that in 64-bit mode a load of a double word has to clear
  the upper half of its register.
* `handleMmio_high_byte`: the high bytes, like every other name without an offset, are
  looked for in front of the registers, `movzx` reads as many bytes as its destination has,
  and an immediate is taken for a register.
-/

namespace Ooows.HyperO

open Lib Bus

/-! ## the instructions -/

inductive MovKind
  | mov
  /-- A move of the accumulator with an address of eight bytes. -/
  | movabs
  /-- A store that bypasses the caches. -/
  | movnti
  /-- The bytes are swapped. -/
  | movbe
  | movzx
  | movsx
  | movsxd
  /-- From memory to memory, advancing `SI` and `DI`. -/
  | movs
  /-- `movd`, `movq`, `movaps`, `movdqu` and so on: the low end of a vector register, the rest of
  which a load clears. -/
  | vec (suffix : List Char)
  deriving DecidableEq, Repr

/-- The operand that is not the memory operand on the bus. -/
inductive MovForm
  | load (dst : X86Reg)
  | store (src : X86Reg)
  | storeImm (value : Int)
  /-- A string move, with the device at its destination or at its source. -/
  | string (toDevice : Bool)
  deriving DecidableEq, Repr

structure MovInsn where
  kind : MovKind
  form : MovForm
  /-- The size of the memory operand in bytes. -/
  memSize : Nat
  length : UInt64
  deriving DecidableEq, Repr

/-- What the instructions can touch besides `ooo_regs`: the other registers and memory. -/
structure Rest where
  ext : Nat → Nat
  mem : ByteMem

namespace MovInsn

/-- What follows `mov`. -/
def suffix (i : MovInsn) : List Char :=
  match i.kind with
  | .mov => []
  | .movabs => ['a', 'b', 's']
  | .movnti => ['n', 't', 'i']
  | .movbe => ['b', 'e']
  | .movzx => ['z', 'x']
  | .movsx => ['s', 'x']
  | .movsxd => ['s', 'x', 'd']
  | .movs => ['s', if i.memSize = 1 then 'b' else if i.memSize = 2 then 'w'
      else if i.memSize = 4 then 'd' else 'q']
  | .vec suffix => suffix

/-- The instruction writes to the bus. -/
def isStore (i : MovInsn) : Bool :=
  match i.form with
  | .load _ => false
  | .store _ => true
  | .storeImm _ => true
  | .string toDevice => toDevice

/-- The forms of a load: the conversions read less than their destination has, `movbe` has no byte
form, and `movabs` and `movsxd` belong to 64-bit mode. -/
def LoadFormed (long : Bool) (kind : MovKind) (memSize : Nat) (dst : X86Reg) : Prop :=
  match kind with
  | .mov => memSize = dst.size
  | .movabs => long = true ∧ memSize = dst.size
  | .movbe => 2 ≤ memSize ∧ memSize = dst.size
  | .movzx => memSize < dst.size
  | .movsx => memSize < dst.size
  | .movsxd => long = true ∧ memSize = 4 ∧ (dst.size = 4 ∨ dst.size = 8)
  | .vec _ => ∃ number bytes, dst = .ext number bytes ∧ memSize ≤ bytes
  | .movnti => False
  | .movs => False

/-- The forms of a store. -/
def StoreFormed (long : Bool) (kind : MovKind) (memSize : Nat) (src : X86Reg) : Prop :=
  match kind with
  | .mov => memSize = src.size
  | .movabs => long = true ∧ memSize = src.size
  | .movnti => memSize = src.size
  | .movbe => 2 ≤ memSize ∧ memSize = src.size
  | .vec _ => ∃ number bytes, src = .ext number bytes ∧ memSize ≤ bytes
  | _ => False

/-- The instructions that exist. -/
def WellFormed (long : Bool) (i : MovInsn) : Prop :=
  0 < i.memSize ∧
    match i.form with
    | .load dst => LoadFormed long i.kind i.memSize dst
    | .store src => StoreFormed long i.kind i.memSize src
    | .storeImm _ => i.kind = .mov ∧ i.memSize ≤ 8
    | .string _ => i.kind = .movs ∧ i.memSize ≤ 8

/-- The `n` bytes of `v` in the opposite order. -/
def swapBytes (n v : Nat) : Nat := Bits.ofBytes (ByteMem.bytesOfNat n v).reverse

/-- What becomes of the `n` bytes of `v` on the way to a destination of `m` bytes. -/
def convert (kind : MovKind) (n m v : Nat) : Nat :=
  match kind with
  | .movbe => swapBytes n v
  | .movsx | .movsxd => if v < 256 ^ n / 2 then v else v + (256 ^ m - 256 ^ n)
  | _ => v

/-- The contents of a register. -/
def value (st : OooState) (rest : Rest) : X86Reg → Nat
  | .ext number bytes => rest.ext number % 256 ^ bytes
  | r => r.read st.regs

/-- Assign to a register. -/
def assign (long : Bool) (st : OooState) (rest : Rest) (v : Nat) : X86Reg → OooState × Rest
  | .ext number bytes => (st, { rest with ext := Function.update rest.ext number (v % 256 ^ bytes) })
  | r => (r.write long st v, rest)

/-- **What a move means**, with the operand that faulted at `mmio.phys_addr` on the bus: a store sends
the source's bytes, a load assigns what the device answers to the destination, a string move takes the
other side from memory and advances both indices, and the instruction pointer advances.  Nothing else
changes. -/
def run {σ : Type} (bus : MmioBus σ) (long : Bool) (strings : Strings) (i : MovInsn) (s : σ)
    (st : OooState) (rest : Rest) : σ × OooState × Rest :=
  match i.form with
  | .load dst =>
    let r := bus.dbusHandleMmioAccess s st.physAddr 0 i.memSize false
    let a := assign long st rest
      (convert i.kind i.memSize dst.size (r.2.2.toNat % 256 ^ i.memSize)) dst
    (r.2.1, updateRip a.1 i.length, a.2)
  | .store src =>
    let v := convert i.kind i.memSize i.memSize (value st rest src % 256 ^ i.memSize)
    ((bus.dbusHandleMmioAccess s st.physAddr (UInt64.ofNat v) i.memSize true).2.1,
      updateRip st i.length, rest)
  | .storeImm value =>
    let v := (value % 256 ^ i.memSize).toNat
    ((bus.dbusHandleMmioAccess s st.physAddr (UInt64.ofNat v) i.memSize true).2.1,
      updateRip st i.length, rest)
  | .string toDevice =>
    let moved := advance (advance st rsi strings.addrSize i.memSize) rdi strings.addrSize i.memSize
    if toDevice then
      let v := rest.mem.load (strings.source (st.regs rsi)) i.memSize
      ((bus.dbusHandleMmioAccess s st.physAddr (UInt64.ofNat v) i.memSize true).2.1,
        updateRip moved i.length, rest)
    else
      let r := bus.dbusHandleMmioAccess s st.physAddr 0 i.memSize false
      let v := r.2.2.toNat % 256 ^ i.memSize
      (r.2.1, updateRip moved i.length,
        { rest with mem := rest.mem.store (strings.dest (st.regs rdi)) i.memSize v })

end MovInsn

/-- What a correct disassembler says about an instruction. -/
structure Decodes (insn : Insn) (i : MovInsn) : Prop where
  mnemonic : insn.mnemonic = ['m', 'o', 'v'] ++ i.suffix
  size : insn.size = i.length
  load : ∀ dst, i.form = .load dst →
    insn.op0 = ⟨.reg dst, dst.size⟩ ∧ ∃ r, insn.op1 = ⟨.mem r, i.memSize⟩
  store : ∀ src, i.form = .store src →
    (∃ r, insn.op0 = ⟨.mem r, i.memSize⟩) ∧ insn.op1 = ⟨.reg src, src.size⟩
  storeImm : ∀ value, i.form = .storeImm value →
    (∃ r, insn.op0 = ⟨.mem r, i.memSize⟩) ∧ ∃ r, insn.op1 = ⟨.imm value r, i.memSize⟩
  string : ∀ toDevice, i.form = .string toDevice →
    (∃ r, insn.op0 = ⟨.mem r, i.memSize⟩) ∧ ∃ r, insn.op1 = ⟨.mem r, i.memSize⟩

namespace MovInsn

/-- **The instruction is emulated as it is meant**: whatever the registers, the memory and the devices,
if the disassembler decodes it correctly and the exit reports the direction of its access. -/
def Right (long : Bool) (i : MovInsn) : Prop :=
  ∀ (σ : Type) (bus : MmioBus σ) (strings : Strings) (capstone : Capstone) (insn : Insn) (s : σ)
    (st : OooState) (rest : Rest), Decodes insn i → capstone (fetch rest.mem st) = some insn →
    st.isWrite = i.isStore →
    ∃ ret s' st', handleMmio capstone rest.mem bus s st = some (ret, s', st') ∧
      i.run bus long strings s st rest = (s', st', rest)

/-- The instructions that are emulated: plain moves of a register that `get_reg_offset` knows, but
in 64-bit mode no loads of a double word. -/
def Supported (long : Bool) (i : MovInsn) : Prop :=
  match i.form with
  | .load dst => (i.kind = .mov ∨ i.kind = .movabs) ∧ dst.Known ∧ (long = true → dst.size ≠ 4)
  | .store src => (i.kind = .mov ∨ i.kind = .movabs ∨ i.kind = .movnti) ∧ src.Known
  | .storeImm _ => False
  | .string _ => False

end MovInsn

/-! ## what the code does with a decoded instruction -/

section

variable {σ : Type} {capstone : Capstone} {mem : ByteMem} {insn : Insn} {i : MovInsn} {s : σ}
  {st : OooState}

theorem handleMmio_read (bus : MmioBus σ) (hdec : capstone (fetch mem st) = some insn)
    (hd : Decodes insn i) (hdir : st.isWrite = false) :
    handleMmio capstone mem bus s st =
      if insn.op0.size ≤ 8 then
        some ((bus.dbusHandleMmioAccess s st.physAddr 0 insn.op0.size false).1,
          (bus.dbusHandleMmioAccess s st.physAddr 0 insn.op0.size false).2.1,
          updateRip (st.setReg (getRegOffset insn.op0.reg)
            (copyLow (st.regs (getRegOffset insn.op0.reg))
              (bus.dbusHandleMmioAccess s st.physAddr 0 insn.op0.size false).2.2.toNat
              insn.op0.size)) i.length)
      else none := by
  have hmov : ['m', 'o', 'v'].isPrefixOf insn.mnemonic := by simp [hd.mnemonic]
  rw [handleMmio, hdec]
  simp only [hmov, hdir, if_true, if_false, Bool.false_eq_true, hd.size]

theorem handleMmio_write (bus : MmioBus σ) (hdec : capstone (fetch mem st) = some insn)
    (hd : Decodes insn i) (hdir : st.isWrite = true) :
    handleMmio capstone mem bus s st =
      if insn.op1.size ≤ 8 then
        some ((bus.dbusHandleMmioAccess s st.physAddr
            (lowBytes (st.regs (getRegOffset insn.op1.reg)) insn.op1.size) insn.op1.size true).1,
          (bus.dbusHandleMmioAccess s st.physAddr
            (lowBytes (st.regs (getRegOffset insn.op1.reg)) insn.op1.size) insn.op1.size true).2.1,
          updateRip st i.length)
      else none := by
  have hmov : ['m', 'o', 'v'].isPrefixOf insn.mnemonic := by simp [hd.mnemonic]
  rw [handleMmio, hdec]
  simp only [hmov, hdir, if_true, hd.size]

end

namespace MovInsn

variable {long : Bool} {i : MovInsn} {st : OooState} {rest : Rest}

/-! ## supported instructions are right -/

theorem assign_known {r : X86Reg} (h : r.Known) (v : Nat) :
    assign long st rest v r = (r.write long st v, rest) := by
  cases r <;> first | rfl | exact absurd rfl h

theorem assign_neg_one (r : X86Reg) (v : Nat) :
    (assign long st rest v r).1.regs (-1) = st.regs (-1) := by
  unfold assign
  split
  · rfl
  · exact X86Reg.write_neg_one _ _ _ _

theorem value_known {r : X86Reg} (h : r.Known) :
    value st rest r % 256 ^ r.size = r.read st.regs := by
  cases r <;> first | exact absurd rfl h | exact Nat.mod_mod _ _

theorem right_of_supported (hwf : i.WellFormed long) (hs : i.Supported long) : i.Right long := by
  intro σ bus strings capstone insn s st rest hd hdec hdir
  obtain ⟨-, hwf⟩ := hwf
  unfold Supported at hs
  unfold isStore at hdir
  unfold run
  cases hform : i.form with
  | load dst =>
    simp only [hform] at hs hwf hdir ⊢
    obtain ⟨hkind, hknown, hlong⟩ := hs
    obtain ⟨hop, -⟩ := hd.load dst hform
    have hle := X86Reg.size_le_of_known hknown
    have hsize : i.memSize = dst.size := by
      rcases hkind with hkind | hkind
      · rw [hkind] at hwf
        exact hwf
      · rw [hkind] at hwf
        exact hwf.2
    have hconv : ∀ v, convert i.kind i.memSize dst.size v = v := by
      rcases hkind with hkind | hkind <;> simp [hkind, convert]
    rw [handleMmio_read bus hdec hd hdir, hop, if_pos (show dst.size ≤ 8 by omega)]
    refine ⟨_, _, _, rfl, ?_⟩
    rw [hconv, assign_known hknown, hsize, ← X86Reg.setReg_known hknown hlong, copyLow_mod]
    rfl
  | store src =>
    simp only [hform] at hs hwf hdir ⊢
    obtain ⟨hkind, hknown⟩ := hs
    obtain ⟨-, hop⟩ := hd.store src hform
    have hle := X86Reg.size_le_of_known hknown
    have hsize : i.memSize = src.size := by
      rcases hkind with hkind | hkind | hkind
      · rw [hkind] at hwf
        exact hwf
      · rw [hkind] at hwf
        exact hwf.2
      · rw [hkind] at hwf
        exact hwf
    have hconv : ∀ v, convert i.kind i.memSize i.memSize v = v := by
      rcases hkind with hkind | hkind | hkind <;> simp [hkind, convert]
    rw [handleMmio_write bus hdec hd hdir, hop, if_pos (show src.size ≤ 8 by omega)]
    refine ⟨_, _, _, rfl, ?_⟩
    rw [hconv, hsize, value_known hknown, ← X86Reg.lowBytes_known hknown]
    rfl
  | storeImm value =>
    rw [hform] at hs
    exact hs.elim
  | string toDevice =>
    rw [hform] at hs
    exact hs.elim

/-! ## right instructions are supported -/

/-- The instruction as a disassembler may present it. -/
def present (i : MovInsn) : Insn :=
  match i.form with
  | .load dst => ⟨['m', 'o', 'v'] ++ i.suffix, i.length, ⟨.reg dst, dst.size⟩, ⟨.mem .other, i.memSize⟩⟩
  | .store src => ⟨['m', 'o', 'v'] ++ i.suffix, i.length, ⟨.mem .other, i.memSize⟩, ⟨.reg src, src.size⟩⟩
  | .storeImm value =>
    ⟨['m', 'o', 'v'] ++ i.suffix, i.length, ⟨.mem .other, i.memSize⟩, ⟨.imm value .other, i.memSize⟩⟩
  | .string _ =>
    ⟨['m', 'o', 'v'] ++ i.suffix, i.length, ⟨.mem .other, i.memSize⟩, ⟨.mem .other, i.memSize⟩⟩

theorem decodes_present (i : MovInsn) : Decodes i.present i := by
  constructor
  · cases h : i.form <;> simp [present, h]
  · cases h : i.form <;> simp [present, h]
  · intro dst h
    simp [present, h]
  · intro src h
    simp [present, h]
  · intro value h
    simp [present, h]
  · intro toDevice h
    simp [present, h]

/-- A bus that records every access whole and answers with a given word. -/
def probe (answer : UInt64) : MmioBus (List MmioRequest) where
  apicAccess _ := true
  apicMmio s r := (0, s ++ [r], answer)
  devicelist := []
  channelForDevice _ := none

/-- A guest with given registers that faulted at address 0. -/
def probed (isWrite : Bool) (regs : Int → UInt64) : OooState := ⟨0, 0, 0, isWrite, regs⟩

theorem probe_access (answer : UInt64) (s : List MmioRequest) (a d : UInt64) (n : Nat) (w : Bool) :
    (probe answer).dbusHandleMmioAccess s a d n w = (0, s ++ [⟨a, d, n, w⟩], answer) := rfl

/-- The instruction pointer is not among the general registers. -/
theorem regs_updateRip (st : OooState) (n : UInt64) {r : Int} (h : r ≠ rip) :
    (updateRip st n).regs r = st.regs r := by
  simp [updateRip, OooState.setReg, h]

theorem index_ne_rip (g : Gpr) : g.index ≠ rip := by
  cases g <;> decide

variable {dst src : X86Reg}

/-- What a right load says about one access. -/
theorem Right.load (h : i.Right long) (hform : i.form = .load dst) (answer : UInt64)
    (regs : Int → UInt64) (strings : Strings) (rest : Rest) :
    dst.size ≤ 8 ∧ i.memSize = dst.size ∧
      ∀ r, r ≠ rip →
        ((probed false regs).setReg (getRegOffset dst)
            (copyLow (regs (getRegOffset dst)) answer.toNat dst.size)).regs r =
          (assign long (probed false regs) rest (convert i.kind i.memSize dst.size
            (answer.toNat % 256 ^ i.memSize)) dst).1.regs r := by
  obtain ⟨ret, s', st', hrun, hmean⟩ := h _ (probe answer) strings (fun _ => some i.present) i.present
    [] (probed false regs) rest (decodes_present i) rfl (by simp [isStore, hform, probed])
  have hop : i.present.op0 = ⟨.reg dst, dst.size⟩ := ((decodes_present i).load dst hform).1
  rw [handleMmio_read _ rfl (decodes_present i) rfl, hop] at hrun
  dsimp only at hrun
  split at hrun
  next hle =>
    simp only [probe_access, Option.some.injEq, Prod.mk.injEq] at hrun
    obtain ⟨-, rfl, rfl⟩ := hrun
    simp only [run, hform, probe_access, Prod.mk.injEq, List.nil_append, List.cons.injEq,
      MmioRequest.mk.injEq, and_true, true_and] at hmean
    refine ⟨hle, hmean.1, fun r hr => ?_⟩
    have hregs := congrArg (fun st => st.regs r) hmean.2.1
    simp only [regs_updateRip _ _ hr] at hregs
    exact hregs.symm
  · contradiction

/-- What a right store says about one access. -/
theorem Right.store (h : i.Right long) (hform : i.form = .store src) (regs : Int → UInt64)
    (strings : Strings) (rest : Rest) :
    src.size ≤ 8 ∧ src.size = i.memSize ∧
      lowBytes (regs (getRegOffset src)) src.size =
        UInt64.ofNat (convert i.kind i.memSize i.memSize
          (value (probed true regs) rest src % 256 ^ i.memSize)) := by
  obtain ⟨ret, s', st', hrun, hmean⟩ := h _ (probe 0) strings (fun _ => some i.present) i.present
    [] (probed true regs) rest (decodes_present i) rfl (by simp [isStore, hform, probed])
  have hop : i.present.op1 = ⟨.reg src, src.size⟩ := ((decodes_present i).store src hform).2
  rw [handleMmio_write _ rfl (decodes_present i) rfl, hop] at hrun
  dsimp only at hrun
  split at hrun
  next hle =>
    simp only [probe_access, Option.some.injEq, Prod.mk.injEq] at hrun
    obtain ⟨-, rfl, rfl⟩ := hrun
    simp only [run, hform, probe_access, Prod.mk.injEq, List.nil_append, List.cons.injEq,
      MmioRequest.mk.injEq, and_true, true_and] at hmean
    exact ⟨hle, hmean.2.symm, hmean.1.symm⟩
  · contradiction

/-- Two strings at the start of memory, and nothing in the other registers. -/
def anyStrings : Strings := ⟨fun _ => 0, fun _ => 0, 2, by decide⟩

theorem copyLow_ones_ne_zero {n : Nat} (hpos : 0 < n) (hle : n ≤ 8) :
    copyLow 0 (0xffffffffffffffff : UInt64).toNat n ≠ 0 := by
  interval_cases n <;> decide

/-- A right load has a register with an offset for its destination: otherwise the answer is copied in
front of the registers. -/
theorem Right.known_load (h : i.Right long) (hform : i.form = .load dst) (hpos : 0 < i.memSize) :
    dst.Known := by
  intro hoff
  obtain ⟨hle, hsize, hregs⟩ := h.load hform 0xffffffffffffffff (fun _ => 0) anyStrings
    ⟨fun _ => 0, fun _ => 0⟩
  have hfront := hregs (-1) (by decide)
  rw [assign_neg_one, hoff] at hfront
  simp only [OooState.setReg, Function.update_self] at hfront
  exact copyLow_ones_ne_zero (by omega) hle hfront

theorem convert_zero (kind : MovKind) {n : Nat} (hpos : 0 < n) (hle : n ≤ 8) (m : Nat) :
    convert kind n m 0 = 0 := by
  cases kind <;> simp only [convert]
  case movbe => interval_cases n <;> decide
  all_goals
    rw [if_pos]
    interval_cases n <;> decide

/-- A right load of a double word is not one in 64-bit mode: it would have to clear the upper half. -/
theorem Right.size_ne_four (h : i.Right long) (hform : i.form = .load dst) (hpos : 0 < i.memSize)
    (hlong : long = true) : dst.size ≠ 4 := by
  intro hfour
  subst hlong
  have hknown := h.known_load hform hpos
  obtain ⟨hle, hsize, hregs⟩ := h.load hform 0 (fun _ => 0x100000000) anyStrings
    ⟨fun _ => 0, fun _ => 0⟩
  rw [assign_known hknown, UInt64.toNat_zero, Nat.zero_mod, convert_zero _ hpos (by omega)] at hregs
  cases dst with
  | r32 g =>
    have hg := hregs g.index (index_ne_rip g)
    simp only [getRegOffset, X86Reg.write, if_true, OooState.setReg, Function.update_self] at hg
    exact absurd hg (show copyLow 0x100000000 0 4 ≠ UInt64.ofNat (0 % 256 ^ 4) by decide)
  | ext number bytes => exact hknown rfl
  | _ => exact absurd hfour (by simp [X86Reg.size])

/-- A right load does not swap bytes. -/
theorem Right.load_ne_movbe (h : i.Right long) (hform : i.form = .load dst) (htwo : 2 ≤ i.memSize) :
    i.kind ≠ .movbe := by
  intro hkind
  have hknown := h.known_load hform (by omega)
  obtain ⟨hle, hsize, hregs⟩ := h.load hform 1 (fun _ => 0) anyStrings ⟨fun _ => 0, fun _ => 0⟩
  have hlong := h.size_ne_four hform (by omega)
  rw [assign_known hknown, hsize, hkind] at hregs
  cases dst with
  | low8 g =>
    rw [hsize] at htwo
    exact absurd htwo (show ¬ 2 ≤ 1 by decide)
  | r16 g =>
    have hg := hregs g.index (index_ne_rip g)
    simp only [getRegOffset, X86Reg.write, OooState.setReg, Function.update_self] at hg
    exact absurd hg (show copyLow 0 1 2 ≠ copyLow 0 (swapBytes 2 (1 % 256 ^ 2)) 2 by decide)
  | r32 g =>
    cases long with
    | true => exact hlong rfl rfl
    | false =>
      have hg := hregs g.index (index_ne_rip g)
      simp only [getRegOffset, X86Reg.write, Bool.false_eq_true, if_false, OooState.setReg,
        Function.update_self] at hg
      exact absurd hg (show copyLow 0 1 4 ≠ copyLow 0 (swapBytes 4 (1 % 256 ^ 4)) 4 by decide)
  | _ => exact hknown rfl

theorem supported_of_right_load (h : i.Right long) (hform : i.form = .load dst)
    (hwf : i.WellFormed long) : i.Supported long := by
  obtain ⟨hpos, hwf⟩ := hwf
  have hknown := h.known_load hform hpos
  have hfour := h.size_ne_four hform hpos
  obtain ⟨-, hsize, -⟩ := h.load hform 0 (fun _ => 0) anyStrings ⟨fun _ => 0, fun _ => 0⟩
  rw [Supported, hform]
  simp only [hform] at hwf
  refine ⟨?_, hknown, hfour⟩
  cases hkind : i.kind with
  | mov => exact .inl rfl
  | movabs => exact .inr rfl
  | movbe =>
    rw [hkind] at hwf
    exact absurd hkind (h.load_ne_movbe hform hwf.1)
  | movsxd =>
    rw [hkind] at hwf
    have hwide := hwf.2.1
    exact absurd (show dst.size = 4 by omega) (hfour hwf.1)
  | vec suffix =>
    rw [hkind] at hwf
    obtain ⟨number, bytes, rfl, -⟩ := hwf
    exact absurd rfl hknown
  | movzx =>
    rw [hkind] at hwf
    exact absurd hwf (show ¬ i.memSize < dst.size by omega)
  | movsx =>
    rw [hkind] at hwf
    exact absurd hwf (show ¬ i.memSize < dst.size by omega)
  | movnti =>
    rw [hkind] at hwf
    exact hwf.elim
  | movs =>
    rw [hkind] at hwf
    exact hwf.elim

/-- Registers full of ones, and 0 in front of them. -/
def ones (r : Int) : UInt64 := if r = -1 then 0 else 0xffffffffffffffff

/-- A register without an offset, read from registers full of ones. -/
theorem value_ones (hoff : getRegOffset src = -1) (hpos : 0 < src.size) (hle : src.size ≤ 8) :
    value (probed true ones) ⟨fun _ => 256 ^ 8 - 1, fun _ => 0⟩ src % 256 ^ src.size =
      256 ^ src.size - 1 := by
  cases src with
  | ext number bytes =>
    simp only [X86Reg.size] at hpos hle
    simp only [value, X86Reg.size]
    interval_cases bytes <;> decide
  | other => exact absurd hpos (by decide)
  | low8 g => cases g <;> exact absurd hoff (by decide)
  | r16 g => cases g <;> exact absurd hoff (by decide)
  | r32 g => cases g <;> exact absurd hoff (by decide)
  | r64 g => cases g <;> decide
  | _ => decide

/-- A right store has a register with an offset for its source. -/
theorem Right.known_store (h : i.Right long) (hform : i.form = .store src) (hpos : 0 < i.memSize)
    (hkind : StoreFormed long i.kind i.memSize src) : src.Known := by
  intro hoff
  obtain ⟨hle, hsize, hdata⟩ := h.store hform ones anyStrings ⟨fun _ => 256 ^ 8 - 1, fun _ => 0⟩
  rw [← hsize, value_ones hoff (by omega) hle, hoff] at hdata
  rw [← hsize] at hkind hpos
  have hzero : lowBytes (ones (-1)) src.size = 0 := by
    generalize src.size = n at hle hpos
    interval_cases n <;> decide
  rw [hzero] at hdata
  generalize src.size = n at hle hpos hdata hkind
  cases hk : i.kind <;> rw [hk] at hdata hkind <;> simp only [convert] at hdata
  case movbe => interval_cases n <;> exact absurd hdata (by decide)
  case movsx => exact hkind.elim
  case movsxd => exact hkind.elim
  all_goals interval_cases n <;> exact absurd hdata (by decide)

theorem supported_of_right_store (h : i.Right long) (hform : i.form = .store src)
    (hwf : i.WellFormed long) : i.Supported long := by
  obtain ⟨hpos, hwf⟩ := hwf
  simp only [hform] at hwf
  have hknown := h.known_store hform hpos hwf
  obtain ⟨-, hsize, hdata⟩ := h.store hform (fun _ => 1) anyStrings ⟨fun _ => 0, fun _ => 0⟩
  rw [Supported, hform]
  refine ⟨?_, hknown⟩
  cases hkind : i.kind with
  | mov => exact .inl rfl
  | movabs => exact .inr (.inl rfl)
  | movnti => exact .inr (.inr rfl)
  | movbe =>
    -- the 1 of the register would have to be sent as the highest byte
    rw [hkind] at hwf hdata
    rw [← hsize] at hwf hdata
    rw [value_known hknown] at hdata
    cases src with
    | low8 g => exact absurd hwf.1 (show ¬ 2 ≤ 1 by decide)
    | r16 g =>
      exact absurd hdata (show lowBytes 1 2 ≠ UInt64.ofNat (swapBytes 2 (1 % 256 ^ 2)) by decide)
    | r32 g =>
      exact absurd hdata (show lowBytes 1 4 ≠ UInt64.ofNat (swapBytes 4 (1 % 256 ^ 4)) by decide)
    | _ => exact absurd rfl hknown
  | vec suffix =>
    rw [hkind] at hwf
    obtain ⟨number, bytes, rfl, -⟩ := hwf
    exact absurd rfl hknown
  | movzx =>
    rw [hkind] at hwf
    exact hwf.elim
  | movsx =>
    rw [hkind] at hwf
    exact hwf.elim
  | movsxd =>
    rw [hkind] at hwf
    exact hwf.elim
  | movs =>
    rw [hkind] at hwf
    exact hwf.elim

/-- No store of an immediate is right: what is sent depends on a register. -/
theorem not_right_storeImm {v : Int} (hform : i.form = .storeImm v) (hpos : 0 < i.memSize)
    (hle : i.memSize ≤ 8) : ¬ i.Right long := by
  intro h
  have hsent : ∀ x : UInt64, lowBytes x i.memSize = UInt64.ofNat (v % 256 ^ i.memSize).toNat := by
    intro x
    obtain ⟨ret, s', st', hrun, hmean⟩ := h _ (probe 0) anyStrings (fun _ => some i.present) i.present
      [] (probed true fun _ => x) ⟨fun _ => 0, fun _ => 0⟩ (decodes_present i) rfl
      (by simp [isStore, hform, probed])
    have hop : i.present.op1 = ⟨.imm v .other, i.memSize⟩ := by simp [present, hform]
    rw [handleMmio_write _ rfl (decodes_present i) rfl, hop, if_pos hle] at hrun
    simp only [probe_access, Option.some.injEq, Prod.mk.injEq] at hrun
    obtain ⟨-, rfl, rfl⟩ := hrun
    simp only [run, hform, probe_access, Prod.mk.injEq, List.nil_append, List.cons.injEq,
      MmioRequest.mk.injEq, and_true, true_and] at hmean
    exact hmean.symm
  have hsame : lowBytes 0 i.memSize = lowBytes 1 i.memSize := (hsent 0).trans (hsent 1).symm
  generalize i.memSize = n at hpos hle hsame
  interval_cases n <;> exact absurd hsame (by decide)

/-- No string move is right: the indices stay. -/
theorem not_right_string {toDevice : Bool} (hform : i.form = .string toDevice) (hpos : 0 < i.memSize)
    (hle : i.memSize ≤ 8) : ¬ i.Right long := by
  intro h
  obtain ⟨ret, s', st', hrun, hmean⟩ := h _ (probe 0) anyStrings (fun _ => some i.present) i.present
    [] (probed toDevice fun _ => 0) ⟨fun _ => 0, fun _ => 0⟩ (decodes_present i) rfl
    (by simp [isStore, hform, probed])
  have hstay : st'.regs rsi = 0 := by
    cases toDevice with
    | true =>
      have hop : i.present.op1 = ⟨.mem .other, i.memSize⟩ := by simp [present, hform]
      rw [handleMmio_write _ rfl (decodes_present i) rfl, hop, if_pos hle] at hrun
      simp only [Option.some.injEq, Prod.mk.injEq] at hrun
      rw [← hrun.2.2, regs_updateRip _ _ (by decide)]
      rfl
    | false =>
      have hop : i.present.op0 = ⟨.mem .other, i.memSize⟩ := by simp [present, hform]
      rw [handleMmio_read _ rfl (decodes_present i) rfl, hop, if_pos hle] at hrun
      simp only [Option.some.injEq, Prod.mk.injEq] at hrun
      rw [← hrun.2.2, regs_updateRip _ _ (by decide)]
      rfl
  have hst : st' = updateRip (advance (advance (probed toDevice fun _ => 0) rsi anyStrings.addrSize
      i.memSize) rdi anyStrings.addrSize i.memSize) i.length := by
    rw [run, hform] at hmean
    cases toDevice <;> exact (congrArg (fun p => p.2.1) hmean).symm
  rw [hst, regs_updateRip _ _ (by decide), advance_of_ne (by decide)] at hstay
  exact advance_ne_zero (probed toDevice fun _ => 0) rsi rfl rfl anyStrings.pos hpos
    (by omega) hstay

/-- **The emulated moves**: an instruction is emulated as it is meant, for all registers, memory and
devices, exactly if it is supported. -/
theorem right_iff_supported (long : Bool) (i : MovInsn) (hwf : i.WellFormed long) :
    i.Right long ↔ i.Supported long := by
  refine ⟨fun h => ?_, right_of_supported hwf⟩
  cases hform : i.form with
  | load dst => exact supported_of_right_load h hform hwf
  | store src => exact supported_of_right_store h hform hwf
  | storeImm v =>
    obtain ⟨hpos, hwf⟩ := hwf
    simp only [hform] at hwf
    exact absurd h (not_right_storeImm hform hpos hwf.2)
  | string toDevice =>
    obtain ⟨hpos, hwf⟩ := hwf
    simp only [hform] at hwf
    exact absurd h (not_right_string hform hpos hwf.2)

end MovInsn

/-! ## instructions -/

/-- A device from `0x1000` on that keeps its requests and answers `0x11223344`. -/
def recorder : MmioBus (List MmioRequest) where
  apicAccess _ := false
  apicMmio s _ := (0, s, 0)
  devicelist := [⟨[], [], [⟨0x1000, 0x1000⟩]⟩]
  channelForDevice _ := some fun s r => (s ++ [r], some 0x11223344)

/-- A guest that faulted at `0x1000` with `0x1234` in `rax`. -/
def faulted (isWrite : Bool) : OooState where
  mode := modeProtected
  ripGpa := 0
  physAddr := 0x1000
  isWrite := isWrite
  regs r := if r = rax then 0x1234 else 0

/-- No other registers and no memory. -/
def noRest : Rest := ⟨fun _ => 0, fun _ => 0⟩

/-- `mov [0x1000], ax`. -/
theorem right_of_supported_word :
    ∃ ret st, handleMmio (fun _ => some (MovInsn.present ⟨.mov, .store (.r16 .rax), 2, 3⟩))
        noRest.mem recorder [] (faulted true) = some (ret, [⟨0x1000, 0x1234, 2, true⟩], st) := by
  have hright : MovInsn.Right false ⟨.mov, .store (.r16 .rax), 2, 3⟩ :=
    (MovInsn.right_iff_supported false _ ⟨by decide, rfl⟩).2 ⟨.inl rfl, by decide⟩
  obtain ⟨ret, s, st, hrun, hmean⟩ := hright _ recorder MovInsn.anyStrings
    (fun _ => some (MovInsn.present ⟨.mov, .store (.r16 .rax), 2, 3⟩)) _ [] (faulted true) noRest
    (MovInsn.decodes_present _) rfl rfl
  have hs : [⟨0x1000, 0x1234, 2, true⟩] = s := congrArg Prod.fst hmean
  exact ⟨ret, st, hs ▸ hrun⟩

/-- `mov [0x1000], ah` with `0x12` in `ah` sends the byte 0 from in front of the registers.
`movzx eax, byte ptr [0x1000]` reads four bytes.  `mov byte ptr [0x1000], 5` sends the byte of the
register with the number 5. -/
theorem handleMmio_high_byte :
    ((handleMmio (fun _ => some ⟨['m', 'o', 'v'], 2, ⟨.mem .other, 1⟩, ⟨.reg .ah, 1⟩⟩)
          (fun _ => 0) recorder [] (faulted true)).map (·.2.1) = some [⟨0x1000, 0, 1, true⟩] ∧
        (MovInsn.run recorder false MovInsn.anyStrings ⟨.mov, .store .ah, 1, 2⟩ [] (faulted true)
          noRest).1 = [⟨0x1000, 0x12, 1, true⟩]) ∧
      ((handleMmio
          (fun _ => some ⟨['m', 'o', 'v', 'z', 'x'], 3, ⟨.reg (.r32 .rax), 4⟩, ⟨.mem .other, 1⟩⟩)
          (fun _ => 0) recorder [] (faulted false)).map (·.2.1) = some [⟨0x1000, 0, 4, false⟩] ∧
        (MovInsn.run recorder false MovInsn.anyStrings ⟨.movzx, .load (.r32 .rax), 1, 3⟩ []
          (faulted false) noRest).1 = [⟨0x1000, 0, 1, false⟩]) ∧
      ((handleMmio
          (fun _ => some ⟨['m', 'o', 'v'], 3, ⟨.mem .other, 1⟩, ⟨.imm 5 (.low8 .rbx), 1⟩⟩)
          (fun _ => 0) recorder [] (faulted true)).map (·.2.1) = some [⟨0x1000, 0, 1, true⟩] ∧
        (MovInsn.run recorder false MovInsn.anyStrings ⟨.mov, .storeImm 5, 1, 3⟩ [] (faulted true)
          noRest).1 = [⟨0x1000, 5, 1, true⟩]) := by
  decide

end Ooows.HyperO
