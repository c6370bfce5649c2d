import Ooows.Net.Isolation
import Mathlib.Data.Nat.Digits.Defs

/-!
# Ooows.Net.LongAddition

Numbers of several words, added with the carry flag.

The microcode adds two words and leaves the carry for the next addition; loads and
immediates in between do not touch it.  The engine fetches the program from `m_code`
and executes it in one context: `Runs` says that it is about to, `interpreterStep_spec`
is one instruction.  `column_value` then is one word of the sum, and by induction over
the words `columns_value` is the whole of it.
-/

namespace Ooows.Net

/-! ## the microcode -/

/-- The operands of an `alu` instruction; it does not look at the shift. -/
structure LimbAdd where
  dst : Register
  src1 : Register
  src2 : Register
  shift : Shift
  numShift : Fin 4
  deriving DecidableEq, Repr

def LimbAdd.inst (l : LimbAdd) (type : AluOp) : Instruction (Fin 4096) :=
  .alu .alu l.dst l.src1 type l.src2 l.shift l.numShift

/-- The destination of an immediate or load instruction. -/
def fillerDst : Instruction (Fin 4096) → Option Register
  | .immediate _ dst _ _ => some dst
  | .load _ dst _ _ _ => some dst
  | _ => none

/-- The addition of a word, and what stands before it. -/
structure Column where
  fillers : List (Instruction (Fin 4096))
  limb : LimbAdd

def Column.program (col : Column) : List (Instruction (Fin 4096)) :=
  col.fillers ++ [col.limb.inst .plusCarry]

/-- `alu +` on the first word, `alu +carry` on the others. -/
def longAddition (first : LimbAdd) (cols : List Column) : List (Instruction (Fin 4096)) :=
  first.inst .plus :: cols.flatMap Column.program

/-! ## the engine -/

/-- The interpreter goes round `n` times; `uninit` is what it finds uninitialised. -/
def Engine.steps : Nat → (Nat → UInt64) → Engine → Engine
  | 0, _, s => s
  | n + 1, uninit, s => steps n (fun k => uninit (k + 1)) (s.interpreterStep (uninit 0))

/-- The engine is about to execute `insts` in its current context. -/
structure Runs (s : Engine) (pc : Nat) (insts : List (Instruction (Fin 4096))) : Prop where
  notDone : s.done = false
  ready : s.ctxReady s.currentCtx = true
  pc_eq : (s.pcCtx s.currentCtx).toNat = pc
  fits : pc + insts.length ≤ s.codeLen.toNat
  code : ∀ k, k < insts.length → s.fetch (pc + k) = insts[k]?

theorem absoluteRegister_lt (c : Ctx) (r : Register) : Engine.absoluteRegister c r < 256 := by
  have h := r.number.toNat_lt
  unfold Engine.absoluteRegister
  cases r.type with
  | absolute => exact h
  | relative =>
    simp only
    split
    · exact Nat.mod_lt _ (by decide)
    · split <;> exact Nat.mod_lt _ (by decide)

/-- Only a register changes. -/
structure Assigns (s t : Engine) (d : Nat) : Prop where
  currentCtx : t.currentCtx = s.currentCtx
  done : t.done = s.done
  ctxReady : t.ctxReady = s.ctxReady
  pcCtx : t.pcCtx = s.pcCtx
  codeLen : t.codeLen = s.codeLen
  code : t.code = s.code
  reg : ∀ r, r ≠ d → t.reg r = s.reg r

section Step

variable {s t : Engine} {pc d : Nat} {inst : Instruction (Fin 4096)}
  {rest : List (Instruction (Fin 4096))}

theorem assigns_setReg (s : Engine) (hd : d < 256) (v : UInt32) : Assigns s (s.setReg d v) d := by
  refine ⟨rfl, rfl, rfl, rfl, rfl, funext fun i => ?_, fun r hr => ?_⟩
  · exact Function.update_of_ne (by omega) ..
  · exact Function.update_of_ne (by omega) ..

theorem Assigns.trans {u : Engine} (h : Assigns s t d) (h' : Assigns t u d) : Assigns s u d where
  currentCtx := h'.currentCtx.trans h.currentCtx
  done := h'.done.trans h.done
  ctxReady := h'.ctxReady.trans h.ctxReady
  pcCtx := h'.pcCtx.trans h.pcCtx
  codeLen := h'.codeLen.trans h.codeLen
  code := h'.code.trans h.code
  reg r hr := (h'.reg r hr).trans (h.reg r hr)

theorem assigns_load (s : Engine) (hd : d < 256) (opcode : LoadOpcode) (mask : Fin 16) (src : Nat)
    (rot : Rot) : Assigns s (s.interpretLoad opcode d mask src rot) d := by
  cases opcode with
  | ldField => exact assigns_setReg s hd _
  | ldFieldWClr => exact (assigns_setReg s hd 0).trans (assigns_setReg _ hd _)

theorem fetch_congr (h : t.code = s.code) (k : Nat) : t.fetch k = s.fetch k := by
  unfold Engine.fetch Engine.codeByte
  rw [h]

/-- The engine as it executes the instruction at its program counter. -/
def Engine.atNext (s : Engine) : Engine := s.setPc (s.pcCtx s.currentCtx + 1)

/-- **One instruction** of the program. -/
theorem Runs.interpreterStep_eq (h : Runs s pc (inst :: rest)) (uninit : UInt64) :
    s.interpreterStep uninit = s.atNext.interpretInstruction uninit (some inst) := by
  have hfits := h.fits
  have hpc : ¬ s.pcCtx s.currentCtx ≥ s.codeLen := by
    rw [ge_iff_le, UInt32.le_iff_toNat_le, h.pc_eq]
    simp only [List.length_cons] at hfits
    omega
  have hfetch : s.fetch (s.pcCtx s.currentCtx).toNat = some inst := by
    have hcode := h.code 0 (by simp)
    rw [h.pc_eq]
    exact hcode
  rw [Engine.interpreterStep, h.notDone, if_neg Bool.false_ne_true, h.ready, if_pos rfl]
  change (if s.pcCtx s.currentCtx ≥ s.codeLen then _ else
    s.atNext.interpretInstruction uninit (s.fetch (s.pcCtx s.currentCtx).toNat)) = _
  rw [if_neg hpc, hfetch]

/-- The rest of the program is what the engine is about to execute next. -/
theorem Runs.next (h : Runs s pc (inst :: rest)) (ht : Assigns s.atNext t d) :
    Runs t (pc + 1) rest ∧ t.currentCtx = s.currentCtx := by
  have hfits := h.fits
  have hlen := s.codeLen.toNat_lt
  simp only [List.length_cons] at hfits
  have hctx : t.currentCtx = s.currentCtx := ht.currentCtx
  refine ⟨⟨ht.done.trans h.notDone, ?_, ?_, ?_, fun k hk => ?_⟩, hctx⟩
  · rw [ht.ctxReady, hctx]
    exact h.ready
  · rw [ht.pcCtx, hctx]
    simp only [Engine.atNext, Engine.setPc, Function.update_self, UInt32.toNat_add, h.pc_eq,
      UInt32.toNat_one]
    omega
  · rw [ht.codeLen]
    change pc + 1 + rest.length ≤ s.codeLen.toNat
    omega
  · have hcode := h.code (k + 1) (by simpa using hk)
    rw [fetch_congr ht.code, Nat.add_assoc, Nat.add_comm 1 k]
    exact hcode

/-- **An immediate or a load** keeps the carry, and all registers but one. -/
theorem Runs.filler (h : Runs s pc (inst :: rest)) {dst : Register}
    (hdst : fillerDst inst = some dst) (uninit : UInt64) :
    Runs (s.interpreterStep uninit) (pc + 1) rest ∧
      (s.interpreterStep uninit).currentCtx = s.currentCtx ∧
      (s.interpreterStep uninit).carry = s.carry ∧
      ∀ r, r ≠ Engine.absoluteRegister s.currentCtx dst →
        (s.interpreterStep uninit).reg r = s.reg r := by
  have hlt := absoluteRegister_lt s.currentCtx dst
  rw [h.interpreterStep_eq]
  have hassign : Assigns s.atNext (s.atNext.interpretInstruction uninit (some inst))
      (Engine.absoluteRegister s.currentCtx dst) ∧
      (s.atNext.interpretInstruction uninit (some inst)).carry = s.carry := by
    cases inst with
    | immediate opcode dst' ival rot =>
      cases hdst
      have heq : s.atNext.interpretInstruction uninit (some (.immediate opcode dst ival rot)) =
          s.atNext.setReg (Engine.absoluteRegister s.currentCtx dst) _ :=
        interpretImmediate_eq ..
      rw [heq]
      exact ⟨assigns_setReg s.atNext hlt _, rfl⟩
    | load opcode dst' mask src rot =>
      cases hdst
      refine ⟨assigns_load s.atNext hlt opcode mask _ rot, ?_⟩
      cases opcode <;> rfl
    | _ => cases hdst
  obtain ⟨hassign, hcarry⟩ := hassign
  exact ⟨(h.next hassign).1, (h.next hassign).2, hcarry, hassign.reg⟩

/-- The carry flag is bit 32 of a sum. -/
theorem carry_of_lt {result : UInt64} (h : result.toNat < 2 ^ 33) :
    result.toUInt32.toNat + 2 ^ 32 * (decide (result &&& 0x100000000 ≠ 0)).toNat =
      result.toNat := by
  have hand : (result &&& 0x100000000).toNat = (result.toNat.testBit 32).toNat * 2 ^ 32 := by
    rw [UInt64.toNat_and]
    exact Nat.and_two_pow result.toNat 32
  have hbit : result.toNat.testBit 32 = decide (result.toNat / 2 ^ 32 = 1) := by
    rw [Nat.testBit_eq_decide_div_mod_eq, Nat.mod_eq_of_lt (by omega)]
  have hflag : result &&& 0x100000000 ≠ 0 ↔ result.toNat / 2 ^ 32 = 1 := by
    rw [ne_eq, ← UInt64.toNat_inj, hand, hbit]
    simp
  rw [decide_eq_decide.2 hflag, UInt64.toNat_toUInt32]
  by_cases hone : result.toNat / 2 ^ 32 = 1
  · rw [decide_eq_true hone, Bool.toNat_true]
    omega
  · rw [decide_eq_false hone, Bool.toNat_false]
    omega

/-- What an addition takes over from the one before. -/
def carryIn (s : Engine) (type : AluOp) : Nat := if type = .plusCarry then s.carry.toNat else 0

/-- The sum of two words and the carry needs 33 bits. -/
theorem toNat_aluResult (s : Engine) (uninit : UInt64) (a b : UInt32) {type : AluOp}
    (htype : type = .plus ∨ type = .plusCarry) :
    (s.aluResult uninit a b type).toNat = a.toNat + b.toNat + carryIn s type ∧
      a.toNat + b.toNat + carryIn s type < 2 ^ 33 := by
  have ha := a.toNat_lt
  have hb := b.toNat_lt
  rcases htype with rfl | rfl
  · simp only [Engine.aluResult, carryIn, UInt64.toNat_add, UInt32.toNat_toUInt64, reduceCtorEq,
      if_false]
    omega
  · have hcarry : s.carry.toNat < 2 := Bool.toNat_lt _
    have hword : s.carry.toNat.toUInt64.toNat = s.carry.toNat := by
      cases s.carry <;> rfl
    simp only [Engine.aluResult, carryIn, UInt64.toNat_add, UInt32.toNat_toUInt64, if_true, hword]
    omega

/-- **The addition of a word**: what does not fit in the destination is in the carry. -/
theorem Runs.limb {l : LimbAdd} {type : AluOp} (h : Runs s pc (l.inst type :: rest))
    (htype : type = .plus ∨ type = .plusCarry) (uninit : UInt64) :
    Runs (s.interpreterStep uninit) (pc + 1) rest ∧
      (s.interpreterStep uninit).currentCtx = s.currentCtx ∧
      (∀ r, r ≠ Engine.absoluteRegister s.currentCtx l.dst →
        (s.interpreterStep uninit).reg r = s.reg r) ∧
      ((s.interpreterStep uninit).reg (Engine.absoluteRegister s.currentCtx l.dst)).toNat +
          2 ^ 32 * (s.interpreterStep uninit).carry.toNat =
        (s.reg (Engine.absoluteRegister s.currentCtx l.src1)).toNat +
          (s.reg (Engine.absoluteRegister s.currentCtx l.src2)).toNat + carryIn s type := by
  obtain ⟨hresult, hsum⟩ := toNat_aluResult s.atNext uninit
    (s.atNext.reg (Engine.absoluteRegister s.currentCtx l.src1))
    (s.atNext.reg (Engine.absoluteRegister s.currentCtx l.src2)) htype
  have hassign : Assigns s.atNext (s.atNext.interpretInstruction uninit (some (l.inst type)))
      (Engine.absoluteRegister s.currentCtx l.dst) :=
    ⟨rfl, rfl, rfl, rfl, rfl, (assigns_setReg _ (absoluteRegister_lt ..) _).code,
      (assigns_setReg _ (absoluteRegister_lt ..) _).reg⟩
  rw [h.interpreterStep_eq]
  refine ⟨(h.next hassign).1, (h.next hassign).2, hassign.reg, ?_⟩
  rw [← hresult] at hsum
  refine Eq.trans ?_ ((carry_of_lt hsum).trans hresult)
  congr 2
  exact Function.update_self ..

end Step

/-! ## the sum -/

/-- The number in some registers, the lowest word first. -/
def wordsOf (s : Engine) (regs : List Nat) : Nat :=
  Nat.ofDigits (2 ^ 32) (regs.map fun r => (s.reg r).toNat)

theorem wordsOf_cons (s : Engine) (r : Nat) (regs : List Nat) :
    wordsOf s (r :: regs) = (s.reg r).toNat + 2 ^ 32 * wordsOf s regs := by
  simp [wordsOf, Nat.ofDigits_cons]

theorem wordsOf_congr {s t : Engine} {regs : List Nat} (h : ∀ r ∈ regs, t.reg r = s.reg r) :
    wordsOf t regs = wordsOf s regs := by
  rw [wordsOf, List.map_congr_left fun r hr => by rw [h r hr], wordsOf]

theorem wordsOf_lt (s : Engine) (regs : List Nat) : wordsOf s regs < 2 ^ (32 * regs.length) := by
  induction regs with
  | nil => simp [wordsOf]
  | cons r regs ih =>
    have hr := (s.reg r).toNat_lt
    rw [wordsOf_cons, List.length_cons, Nat.mul_succ, Nat.pow_add]
    omega

namespace LimbAdd

def dstIn (c : Ctx) (l : LimbAdd) : Nat := Engine.absoluteRegister c l.dst
def src1In (c : Ctx) (l : LimbAdd) : Nat := Engine.absoluteRegister c l.src1
def src2In (c : Ctx) (l : LimbAdd) : Nat := Engine.absoluteRegister c l.src2

/-- The registers of a word of the addition. -/
def regs (c : Ctx) (l : LimbAdd) : List Nat := [l.dstIn c, l.src1In c, l.src2In c]

/-- The destination of a word holds nothing that a later one reads or writes. -/
def Before (c : Ctx) (l l' : LimbAdd) : Prop := l.dstIn c ∉ l'.regs c

instance (c : Ctx) (l l' : LimbAdd) : Decidable (l.Before c l') :=
  inferInstanceAs (Decidable (_ ∉ _))

end LimbAdd

/-- Immediates and loads, to none of the given registers. -/
def Elsewhere (c : Ctx) (regs : List Nat) (insts : List (Instruction (Fin 4096))) : Prop :=
  ∀ inst ∈ insts, ∃ dst, fillerDst inst = some dst ∧ Engine.absoluteRegister c dst ∉ regs

section Run

variable {c : Ctx} {s : Engine} {pc : Nat} {rest : List (Instruction (Fin 4096))}
  {regs : List Nat}

theorem steps_add (m n : Nat) (uninit : Nat → UInt64) (s : Engine) :
    Engine.steps (m + n) uninit s =
      Engine.steps n (fun k => uninit (m + k)) (Engine.steps m uninit s) := by
  induction m generalizing uninit s with
  | zero => simp [Engine.steps]
  | succ m ih =>
    rw [Nat.succ_add]
    simp only [Engine.steps, ih, Nat.succ_add]

/-- **Fillers** keep the carry and the registers of the addition. -/
theorem fillers_keep {fillers : List (Instruction (Fin 4096))} (hs : Elsewhere c regs fillers)
    (h : Runs s pc (fillers ++ rest)) (hc : s.currentCtx = c) (uninit : Nat → UInt64) :
    let t := Engine.steps fillers.length uninit s
    Runs t (pc + fillers.length) rest ∧ t.currentCtx = c ∧ t.carry = s.carry ∧
      ∀ r ∈ regs, t.reg r = s.reg r := by
  induction fillers generalizing s pc uninit with
  | nil => exact ⟨h, hc, rfl, fun _ _ => rfl⟩
  | cons inst fillers ih =>
    obtain ⟨dst, hdst, hnot⟩ := hs inst List.mem_cons_self
    obtain ⟨hnext, hctx, hcarry, hreg⟩ := h.filler hdst (uninit 0)
    obtain ⟨hruns, hctx', hcarry', hreg'⟩ := ih
      (fun i hi => hs i (List.mem_cons_of_mem inst hi)) hnext (hctx.trans hc)
      (fun k => uninit (k + 1))
    refine ⟨?_, hctx', hcarry'.trans hcarry, fun r hr => (hreg' r hr).trans (hreg r ?_)⟩
    · have hlen : pc + (inst :: fillers).length = pc + 1 + fillers.length := by
        rw [List.length_cons]
        omega
      rw [hlen]
      exact hruns
    · rintro rfl
      exact hnot (hc ▸ hr)

/-- **One word of the sum**, with what stands before it. -/
theorem column_value {col : Column} (hs : Elsewhere c regs col.fillers)
    (hsub : col.limb.regs c ⊆ regs) (h : Runs s pc (col.program ++ rest)) (hc : s.currentCtx = c)
    (uninit : Nat → UInt64) :
    let t := Engine.steps col.program.length uninit s
    Runs t (pc + col.program.length) rest ∧ t.currentCtx = c ∧
      (∀ r ∈ regs, r ≠ col.limb.dstIn c → t.reg r = s.reg r) ∧
      (t.reg (col.limb.dstIn c)).toNat + 2 ^ 32 * t.carry.toNat =
        (s.reg (col.limb.src1In c)).toNat + (s.reg (col.limb.src2In c)).toNat +
          s.carry.toNat := by
  have hlen : col.program.length = col.fillers.length + 1 := by simp [Column.program]
  have hprogram : col.program ++ rest = col.fillers ++ (col.limb.inst .plusCarry :: rest) := by
    simp [Column.program]
  rw [hprogram] at h
  obtain ⟨hruns, hctx, hcarry, hreg⟩ := fillers_keep hs h hc uninit
  obtain ⟨hruns', hctx', hreg', hvalue⟩ := hruns.limb (.inr rfl) (uninit col.fillers.length)
  rw [hlen, steps_add]
  simp only [Engine.steps, Nat.add_zero]
  rw [hctx] at hctx' hreg' hvalue
  refine ⟨hruns', hctx', fun r hr hne => (hreg' r hne).trans (hreg r hr), hvalue.trans ?_⟩
  have h1 : col.limb.src1In c ∈ regs := hsub (by simp [LimbAdd.regs])
  have h2 : col.limb.src2In c ∈ regs := hsub (by simp [LimbAdd.regs])
  rw [← hreg _ h1, ← hreg _ h2, ← hcarry]
  rfl

/-- `t` holds the sum of the words in `s` and of a carry. -/
def Sums (c : Ctx) (s t : Engine) (limbs : List LimbAdd) (carry : Nat) : Prop :=
  wordsOf t (limbs.map (LimbAdd.dstIn c)) + 2 ^ (32 * limbs.length) * t.carry.toNat =
    wordsOf s (limbs.map (LimbAdd.src1In c)) + wordsOf s (limbs.map (LimbAdd.src2In c)) + carry

/-- The lowest word and the others are the whole sum: a later word neither reads nor
writes the destination of the lowest. -/
theorem Sums.cons {m t : Engine} {l : LimbAdd} {limbs : List LimbAdd} {carry : Nat}
    (hbefore : ∀ l' ∈ limbs, l.Before c l') (hsub : ∀ l' ∈ l :: limbs, l'.regs c ⊆ regs)
    (hreg : ∀ r ∈ regs, r ≠ l.dstIn c → m.reg r = s.reg r)
    (hvalue : (m.reg (l.dstIn c)).toNat + 2 ^ 32 * m.carry.toNat =
      (s.reg (l.src1In c)).toNat + (s.reg (l.src2In c)).toNat + carry)
    (hreg' : ∀ r ∈ regs, (∀ l' ∈ limbs, r ≠ l'.dstIn c) → t.reg r = m.reg r)
    (hsums : Sums c m t limbs m.carry.toNat) : Sums c s t (l :: limbs) carry := by
  have hlater : ∀ l' ∈ limbs, ∀ r ∈ l'.regs c, r ≠ l.dstIn c := by
    rintro l' hmem r hr rfl
    exact hbefore l' hmem hr
  have hdst : t.reg (l.dstIn c) = m.reg (l.dstIn c) :=
    hreg' _ (hsub l List.mem_cons_self (by simp [LimbAdd.regs]))
      fun l' hmem => (hlater l' hmem _ (by simp [LimbAdd.regs])).symm
  have hsame : ∀ f : LimbAdd → Nat, (∀ l', f l' ∈ l'.regs c) →
      wordsOf m (limbs.map f) = wordsOf s (limbs.map f) := by
    refine fun f hf => wordsOf_congr fun r hr => ?_
    obtain ⟨l', hmem, rfl⟩ := List.mem_map.1 hr
    exact hreg _ (hsub l' (List.mem_cons_of_mem l hmem) (hf l')) (hlater l' hmem _ (hf l'))
  have hpow : 2 ^ (32 * (l :: limbs).length) = 2 ^ 32 * 2 ^ (32 * limbs.length) := by
    rw [List.length_cons, ← Nat.pow_add]
    congr 1
    omega
  unfold Sums at hsums ⊢
  rw [hsame (LimbAdd.src1In c) (by simp [LimbAdd.regs]),
    hsame (LimbAdd.src2In c) (by simp [LimbAdd.regs])] at hsums
  rw [hpow, Nat.mul_assoc]
  simp only [List.map_cons, wordsOf_cons, hdst]
  omega

/-- **The words of the sum**, from a carry on. -/
theorem columns_value {cols : List Column} (hs : ∀ col ∈ cols, Elsewhere c regs col.fillers)
    (hsub : ∀ l ∈ cols.map Column.limb, l.regs c ⊆ regs)
    (hbefore : (cols.map Column.limb).Pairwise (LimbAdd.Before c))
    (h : Runs s pc (cols.flatMap Column.program)) (hc : s.currentCtx = c)
    (uninit : Nat → UInt64) :
    let t := Engine.steps (cols.flatMap Column.program).length uninit s
    (∀ r ∈ regs, (∀ l ∈ cols.map Column.limb, r ≠ l.dstIn c) → t.reg r = s.reg r) ∧
      Sums c s t (cols.map Column.limb) s.carry.toNat := by
  induction cols generalizing s pc uninit with
  | nil => exact ⟨fun _ _ _ => rfl, by simp [Sums, wordsOf, Engine.steps]⟩
  | cons col cols ih =>
    rw [List.flatMap_cons] at h
    rw [List.map_cons] at hsub hbefore
    rw [List.pairwise_cons] at hbefore
    obtain ⟨hruns, hctx, hreg, hvalue⟩ :=
      column_value (hs col List.mem_cons_self) (hsub _ List.mem_cons_self) h hc uninit
    obtain ⟨hreg', hsums⟩ := ih (fun col' hmem => hs col' (List.mem_cons_of_mem col hmem))
      (fun l hl => hsub l (List.mem_cons_of_mem _ hl)) hbefore.2 hruns hctx
      (fun k => uninit (col.program.length + k))
    simp only [List.flatMap_cons, List.length_append, steps_add, List.map_cons]
    refine ⟨fun r hr hne => ?_, hsums.cons hbefore.1 hsub hreg hvalue hreg'⟩
    rw [hreg' r hr fun l hl => hne l (List.mem_cons_of_mem _ hl),
      hreg r hr (hne _ List.mem_cons_self)]

end Run

/-- **Addition of numbers of any length**: the engine that executes `alu +` and then
`alu +carry` on the words of two numbers, with immediates and loads to other registers in
between, leaves the sum in the destinations and what does not fit in the carry. -/
theorem long_addition (s : Engine) (pc : Nat) (first : LimbAdd) (cols : List Column)
    (uninit : Nat → UInt64) (h : Runs s pc (longAddition first cols))
    (hbefore : (first :: cols.map Column.limb).Pairwise (LimbAdd.Before s.currentCtx))
    (hs : ∀ col ∈ cols, Elsewhere s.currentCtx
      ((first :: cols.map Column.limb).flatMap (LimbAdd.regs s.currentCtx)) col.fillers) :
    let limbs := first :: cols.map Column.limb
    let t := Engine.steps (longAddition first cols).length uninit s
    let a := wordsOf s (limbs.map (LimbAdd.src1In s.currentCtx))
    let b := wordsOf s (limbs.map (LimbAdd.src2In s.currentCtx))
    wordsOf t (limbs.map (LimbAdd.dstIn s.currentCtx)) = (a + b) % 2 ^ (32 * limbs.length) ∧
      t.carry.toNat = (a + b) / 2 ^ (32 * limbs.length) := by
  intro limbs t a b
  have hsub : ∀ l ∈ limbs, l.regs s.currentCtx ⊆ limbs.flatMap (LimbAdd.regs s.currentCtx) :=
    fun l hl r hr => List.mem_flatMap.2 ⟨l, hl, hr⟩
  rw [List.pairwise_cons] at hbefore
  obtain ⟨hruns, hctx, hreg, hvalue⟩ := h.limb (.inl rfl) (uninit 0)
  obtain ⟨hreg', hsums⟩ := columns_value hs (fun l hl => hsub l (List.mem_cons_of_mem _ hl))
    hbefore.2 hruns hctx (fun k => uninit (k + 1))
  -- the first word takes over no carry
  have hall : Sums s.currentCtx s t limbs 0 :=
    hsums.cons hbefore.1 hsub (fun r _ hne => hreg r hne) hvalue hreg'
  have hlt : wordsOf t (limbs.map (LimbAdd.dstIn s.currentCtx)) < 2 ^ (32 * limbs.length) := by
    have hwords := wordsOf_lt t (limbs.map (LimbAdd.dstIn s.currentCtx))
    rwa [List.length_map] at hwords
  have hsum : a + b = wordsOf t (limbs.map (LimbAdd.dstIn s.currentCtx)) +
      2 ^ (32 * limbs.length) * t.carry.toNat := hall.symm
  rw [hsum, Nat.add_mul_mod_self_left, Nat.mod_eq_of_lt hlt,
    Nat.add_mul_div_left _ _ (by positivity), Nat.div_eq_of_lt hlt, Nat.zero_add]
  exact ⟨rfl, rfl⟩

/-! ## an addition of two words -/

/-- Register `d` gets the sum of registers `a` and `b` of the context. -/
def limbOf (d a b : UInt8) : LimbAdd :=
  ⟨⟨.relative, d⟩, ⟨.relative, a⟩, ⟨.relative, b⟩, .left, 0⟩

/-- Registers 3 and 0, and 4 and 1, with an immediate in between. -/
def twoColumns : List Column := [⟨[.immediate .immed ⟨.relative, 6⟩ 5 .noRot], limbOf 5 3 4⟩]

/-- The program in `m_code`, and the numbers `2 ^ 64 - 1` and 1 in the registers. -/
def twoWords : Engine :=
  (((Engine.init [0, 1, 0, 32, 0, 29, 131, 2, 0, 0, 128, 2, 3, 136, 0] (fun _ => 0) 0 []).setReg 0
    0xffffffff).setReg 3 0xffffffff).setReg 1 1

theorem runs_twoWords : Runs twoWords 0 (longAddition (limbOf 2 0 1) twoColumns) where
  notDone := rfl
  ready := rfl
  pc_eq := rfl
  fits := by decide
  code := by
    have hcode : ∀ k : Fin 3, twoWords.fetch (0 + k.val) =
        (longAddition (limbOf 2 0 1) twoColumns)[k.val]? := by
      decide +kernel
    exact fun k hk => hcode ⟨k, hk⟩

theorem elsewhere_twoColumns :
    ∀ col ∈ twoColumns, Elsewhere twoWords.currentCtx ((limbOf 2 0 1 ::
      twoColumns.map Column.limb).flatMap (LimbAdd.regs twoWords.currentCtx)) col.fillers := by
  intro col hcol inst hinst
  rw [twoColumns, List.mem_singleton] at hcol
  subst hcol
  rw [List.mem_singleton] at hinst
  subst hinst
  exact ⟨_, rfl, by decide⟩

/-- `2 ^ 64 - 1` and 1: all words of the sum are zero, and the carry is set. -/
theorem long_addition_two :
    wordsOf (Engine.steps 3 (fun _ => 0) twoWords) [2, 5] = 0 ∧
      (Engine.steps 3 (fun _ => 0) twoWords).carry.toNat = 1 := by
  obtain ⟨hsum, hcarry⟩ := long_addition twoWords 0 (limbOf 2 0 1) twoColumns (fun _ => 0)
    runs_twoWords (by decide) elsewhere_twoColumns
  exact ⟨hsum.trans (by decide), hcarry.trans (by decide)⟩

end Ooows.Net
