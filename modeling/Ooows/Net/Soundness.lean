import Ooows.Net.Analysis
import Mathlib.Data.Nat.Bitwise

/-!
# Ooows.Net.Soundness

The abstract interpretation describes what the interpreter does.

* `AVal.mem_alu` and its companions: the operations on abstract values contain the
  results of the engine's.
* `Holds`: an environment describes the registers of a context.
* `step_sound`: an instruction that stays in its context leads to one of the
  successors of `AEnv.step`, and changes no register of another context.
-/

namespace Ooows.Net

open Lib Lib.Strided

/-! ## values -/

theorem xor_two_pow {a i : Nat} (h : a < 2 ^ i) : a ^^^ 2 ^ i = a + 2 ^ i := by
  apply Nat.eq_of_testBit_eq
  intro j
  rw [Nat.testBit_xor, Nat.testBit_two_pow, Nat.add_comm]
  rcases Nat.lt_trichotomy j i with hj | rfl | hj
  · have hne : i ≠ j := by omega
    rw [Nat.testBit_two_pow_add_gt hj]
    simp [hne]
  · rw [Nat.testBit_two_pow_add_eq]
    simp
  · have hlt : a < 2 ^ j := Nat.lt_of_lt_of_le h (Nat.pow_le_pow_right (by decide) (by omega))
    have hsum : 2 ^ i + a < 2 ^ j := by
      have hpow := Nat.pow_le_pow_right (show 0 < 2 by decide) (show i + 1 ≤ j by omega)
      rw [Nat.pow_succ] at hpow
      omega
    rw [Nat.testBit_lt_two_pow hlt, Nat.testBit_lt_two_pow hsum]
    simp
    omega

namespace AVal

variable {a b v : UInt32} {A B : AVal} {r r' : Strided}

theorem Mem.of_le (h : A.Mem v) (hle : A.le B = true) : B.Mem v := by
  cases A <;> cases B <;> simp_all [le, Mem]
  exact Strided.Mem.of_le h hle

theorem mem_const {c : Nat} : (const c).Mem v ↔ v.toNat = c := Strided.mem_const

theorem mem_between {lo hi : Nat} : (between lo hi).Mem v ↔ lo ≤ v.toNat ∧ v.toNat ≤ hi :=
  Strided.mem_between

theorem mem_ofRange (h : r.hi < 2 ^ 32 → r.Mem v.toNat) : (ofRange r).Mem v := by
  unfold ofRange
  split
  next hr => exact h hr
  next => trivial

theorem const?_eq {c : Nat} (h : A.const? = some c) (hv : A.Mem v) : v.toNat = c := by
  cases A with
  | range r =>
    simp only [const?] at h
    split at h
    next heq =>
      cases h
      obtain ⟨h₁, h₂, -⟩ := hv
      omega
    next => contradiction
  | _ => contradiction

theorem mem_and_ready (ha : r.Mem a.toNat) (hb : b.toNat = 2 ^ 31) :
    (if r.hi < 2 ^ 31 then const 0 else if 2 ^ 31 ≤ r.lo then const (2 ^ 31) else .top).Mem
      (a &&& b) := by
  have hand : (a &&& b).toNat = (a.toNat.testBit 31).toNat * 2 ^ 31 := by
    rw [UInt32.toNat_and, hb, Nat.and_two_pow]
  have hlt := a.toNat_lt
  obtain ⟨hlo, hhi, -⟩ := ha
  split
  next h =>
    rw [mem_const, hand, Nat.testBit_lt_two_pow (by omega)]
    rfl
  next =>
    split
    next h =>
      have hbit : a.toNat.testBit 31 = true := by
        rw [Nat.testBit_eq_decide_div_mod_eq, decide_eq_true_eq]
        omega
      rw [mem_const, hand, hbit]
      rfl
    next => trivial

theorem mem_and_csr {m : UInt32} (hb : csr.Mem b) (hm : m &&& 0x14 = m) : (const 0).Mem (m &&& b) := by
  have hzero : m &&& b = 0 := by
    rw [← hm, UInt32.and_assoc, UInt32.and_comm 0x14 b, show b &&& 0x14 = 0 from hb, UInt32.and_zero]
  rw [hzero]
  exact mem_const.2 rfl

theorem toNat_and_le (c : UInt32) : (a &&& c).toNat ≤ c.toNat := by
  rw [UInt32.toNat_and]
  exact Nat.and_le_right

/-- **ALU operations**. -/
theorem mem_alu (s : Engine) (uninit : UInt64) (type : AluOp) (ha : A.Mem a) (hb : B.Mem b) :
    (alu type A B).Mem (s.aluResult uninit a b type).toUInt32 := by
  cases type
  case second => simpa [Engine.aluResult, alu] using hb
  case plusFour =>
    simp only [Engine.aluResult, alu, UInt32.toUInt32_toUInt64]
    exact mem_between.2 ⟨Nat.zero_le _, toNat_and_le _⟩
  case plusEight =>
    simp only [Engine.aluResult, alu, UInt32.toUInt32_toUInt64]
    exact mem_between.2 ⟨Nat.zero_le _, toNat_and_le _⟩
  case plus =>
    cases A <;> cases B <;> try trivial
    next r r' =>
      have hsum : (s.aluResult uninit a b .plus).toUInt32 = a + b := by simp [Engine.aluResult]
      rw [hsum]
      refine mem_ofRange fun hr => ?_
      have hadd := Strided.Mem.add ha hb
      have hle := hadd.2.1
      rw [UInt32.toNat_add, Nat.mod_eq_of_lt (by omega)]
      exact hadd
  case minus =>
    cases A <;> cases B <;> try trivial
    next r r' =>
      simp only [Engine.aluResult, alu, UInt32.toUInt32_toUInt64]
      split
      next h =>
        obtain ⟨hconst, hle, -⟩ := h
        have hb' : b.toNat = r'.lo := by
          obtain ⟨h₁, h₂, -⟩ := hb
          omega
        have hba : b ≤ a := UInt32.le_iff_toNat_le.2 (by have := ha.1; omega)
        show (r.sub r'.lo).Mem (a - b).toNat
        rw [UInt32.toNat_sub_of_le _ _ hba, hb']
        exact Strided.Mem.sub ha (by omega)
      next => trivial
  case xor =>
    cases A <;> cases B <;> try trivial
    next r r' =>
      simp only [Engine.aluResult, alu, UInt32.toUInt32_toUInt64]
      split
      next h =>
        obtain ⟨rfl, hlow⟩ := h
        have hb' := Strided.mem_const.1 hb
        have hxor : (a ^^^ b).toNat = a.toNat + b.toNat := by
          have hle := ha.2.1
          rw [UInt32.toNat_xor, hb', xor_two_pow (by omega)]
        show (r.add _).Mem (a ^^^ b).toNat
        rw [hxor]
        exact Strided.Mem.add ha hb
      next => trivial
  case and =>
    cases A <;> cases B <;> try trivial
    next r =>
      simp only [Engine.aluResult, alu, UInt32.toUInt32_toUInt64]
      split
      next h =>
        have hm : a &&& 0x14 = a := by
          rcases h with rfl | rfl
          · rw [← UInt32.toNat_inj, UInt32.toNat_and, Strided.mem_const.1 ha]
            rfl
          · rw [← UInt32.toNat_inj, UInt32.toNat_and, Strided.mem_const.1 ha]
            rfl
        exact mem_and_csr hb hm
      next => trivial
    next r r' =>
      simp only [Engine.aluResult, alu, UInt32.toUInt32_toUInt64]
      split
      next h =>
        subst h
        exact mem_and_ready ha (Strided.mem_const.1 hb)
      next => trivial
  all_goals trivial

/-- The shift of `ALU_SHF`. -/
theorem mem_shift (ha : A.Mem a) (numShift : Fin 4) (direction : Shift) :
    (A.shift numShift.val direction).Mem (Engine.shiftBy a numShift direction) := by
  cases direction with
  | right => cases A <;> trivial
  | left =>
    cases A with
    | top => trivial
    | csr => trivial
    | range r =>
      refine mem_ofRange fun hr => ?_
      have hscale := Strided.Mem.scale ha (2 ^ numShift.val)
      have hle := hscale.2.1
      have hshift : (Engine.shiftBy a numShift .left).toNat = a.toNat * 2 ^ numShift.val := by
        have hn : numShift.val.toUInt32.toNat % 32 = numShift.val := by
          have := numShift.isLt
          rw [Nat.toUInt32, UInt32.toNat_ofNat']
          omega
        rw [Engine.shiftBy, UInt32.toNat_shiftLeft, hn, Nat.shiftLeft_eq,
          Nat.mod_eq_of_lt (by omega)]
      rw [hshift]
      exact hscale

/-- `ld_field_w_clr` of the three low bytes. -/
theorem mem_lowBytes (ha : A.Mem a) : A.lowBytes.Mem (a &&& 0xffffff) := by
  cases A with
  | range r =>
    simp only [lowBytes]
    split
    next h =>
      have hmod : (a &&& 0xffffff).toNat = a.toNat % 2 ^ 24 := by
        rw [UInt32.toNat_and, show (0xffffff : UInt32).toNat = 2 ^ 24 - 1 from rfl,
          Nat.and_two_pow_sub_one_eq_mod]
      show (r.rem (2 ^ 24)).Mem (a &&& 0xffffff).toNat
      rw [hmod]
      exact Strided.Mem.rem ha h
    next => trivial
  | _ => trivial

end AVal

/-! ## registers of a context -/

/-- The index of a context's register number `r`. -/
def ownReg (c : Ctx) (r : Nat) : Nat :=
  if r < 32 then r + 32 * c.val
  else if r < 48 then r + 96 + 16 * c.val
  else r + 144 + 16 * c.val

/-- Its place in the object. -/
def ownWord (c : Ctx) (r : Nat) : Nat := 1025 + ownReg c r

theorem ownReg_lt {r : Nat} (c : Ctx) (hr : r < 64) : ownReg c r < 256 := by
  have := c.isLt
  unfold ownReg
  split
  · omega
  · split <;> omega

theorem ownReg_inj {c c' : Ctx} {r r' : Nat} (hr : r < 64) (hr' : r' < 64)
    (h : ownReg c r = ownReg c' r') : c = c' ∧ r = r' := by
  have hc := c.isLt
  have hc' := c'.isLt
  have hpair : c.val = c'.val ∧ r = r' := by
    unfold ownReg at h
    split at h <;> split at h <;> (try split at h) <;> (try split at h) <;> omega
  exact ⟨Fin.ext hpair.1, hpair.2⟩

theorem ownWord_inj {c c' : Ctx} {r r' : Nat} (hr : r < 64) (hr' : r' < 64)
    (h : ownWord c r = ownWord c' r') : c = c' ∧ r = r' :=
  ownReg_inj hr hr' (Nat.add_left_cancel h)

theorem ne_ownWord {i r : Nat} (c : Ctx) (hi : i < 1025) : i ≠ ownWord c r := by
  unfold ownWord
  omega

theorem own_lt {r : Register} {n : Nat} (h : AEnv.own r = some n) : n < 64 := by
  unfold AEnv.own at h
  split at h
  next hr =>
    cases h
    exact hr.2
  next => contradiction

theorem absoluteRegister_own {r : Register} {n : Nat} (c : Ctx) (h : AEnv.own r = some n) :
    Engine.absoluteRegister c r = ownReg c n := by
  have hc := c.isLt
  unfold AEnv.own at h
  split at h
  next hr =>
    cases h
    obtain ⟨htype, hnum⟩ := hr
    simp only [Engine.absoluteRegister, htype, ownReg]
    split
    · omega
    · split <;> omega
  next => contradiction

/-! ## environments -/

/-- The environment describes the registers of a context. -/
structure Holds (obj : Nat → UInt32) (c : Ctx) (e : AEnv) : Prop where
  regs : ∀ r < 64, (e.get r).Mem (obj (ownWord c r))
  slot : e.slot = true →
    ∃ j < 16, (obj (ownWord c 9)).toNat = 2 * j ∧ rxPtr.Mem (obj (35 + 2 * j))

theorem get_set (e : AEnv) (r r' : Nat) (v : AVal) :
    (e.set r v).get r' = if r' = r then v else e.get r' := by
  unfold AEnv.get AEnv.set
  rw [List.lookup_cons]
  by_cases h : r' = r
  · simp [h]
  · rw [show (r' == r) = false by simpa using h, if_neg h]

theorem get_drop (e : AEnv) (n count r : Nat) :
    (e.drop n count).get r = .top ∨
      (¬ (n ≤ r ∧ r < n + count) ∧ (e.drop n count).get r = e.get r) := by
  unfold AEnv.get AEnv.drop
  dsimp only
  induction e.regs with
  | nil => exact .inl rfl
  | cons p ps ih =>
    obtain ⟨r', v⟩ := p
    rw [List.filter_cons, List.lookup_cons]
    by_cases hin : n ≤ r' ∧ r' < n + count
    · rw [if_neg (by simpa using hin)]
      by_cases hr : r = r'
      · subst hr
        rcases ih with h | h
        · exact .inl h
        · exact absurd hin h.1
      · rwa [show (r == r') = false by simpa using hr]
    · rw [if_pos (by rw [decide_eq_false hin]; rfl), List.lookup_cons]
      by_cases hr : r = r'
      · subst hr
        exact .inr ⟨hin, by simp⟩
      · rwa [show (r == r') = false by simpa using hr]

namespace Holds

variable {obj obj' : Nat → UInt32} {c : Ctx} {e e' : AEnv}

theorem of_le (h : Holds obj c e) (hle : e.le e' = true) : Holds obj c e' := by
  unfold AEnv.le at hle
  simp only [Bool.and_eq_true, List.all_eq_true] at hle
  obtain ⟨⟨hregs, -⟩, hslot⟩ := hle
  refine ⟨?_, ?_⟩
  · intro r hr
    cases hget : e'.regs.lookup r with
    | none =>
      rw [AEnv.get, hget]
      trivial
    | some v =>
      obtain ⟨front, back, hmem, -⟩ := List.lookup_eq_some_iff.1 hget
      have hin : (r, v) ∈ e'.regs := by
        rw [hmem]
        simp
      exact (h.regs r hr).of_le (hregs _ hin)
  · intro hs
    rw [hs] at hslot
    exact h.slot (by simpa using hslot)

theorem operand (h : Holds obj c e) (r : Register) :
    (e.operand r).Mem (obj (1025 + Engine.absoluteRegister c r)) := by
  unfold AEnv.operand
  split
  next n hn =>
    rw [absoluteRegister_own c hn]
    exact h.regs n (own_lt hn)
  next => trivial

/-- An environment still holds if the context's registers are the same and no pointer
was taken from the receive ring. -/
theorem frame (h : Holds obj c e) (hregs : ∀ r < 64, obj' (ownWord c r) = obj (ownWord c r))
    (hptr : ∀ j < 16, rxPtr.Mem (obj (35 + 2 * j)) → rxPtr.Mem (obj' (35 + 2 * j))) :
    Holds obj' c e := by
  refine ⟨fun r hr => hregs r hr ▸ h.regs r hr, fun hs => ?_⟩
  obtain ⟨j, hj, hreg, hmem⟩ := h.slot hs
  exact ⟨j, hj, by rw [hregs 9 (by decide), hreg], hptr j hj hmem⟩

theorem set (h : Holds obj c e) {r : Nat} (hr : r < 64) {v : AVal} {x : UInt32} (hx : v.Mem x) :
    Holds (Function.update obj (ownWord c r) x) c (e.set r v) := by
  refine ⟨?_, ?_⟩
  · intro r' hr'
    rw [get_set]
    by_cases he : r' = r
    · subst he
      simpa using hx
    · have hne : ownWord c r' ≠ ownWord c r := fun hw => he (ownWord_inj hr' hr hw).2
      rw [if_neg he, Function.update_of_ne hne]
      exact h.regs r' hr'
  · intro hs
    simp only [AEnv.set, Bool.and_eq_true, bne_iff_ne, ne_eq] at hs
    obtain ⟨j, hj, hreg, hmem⟩ := h.slot hs.1
    have hne : ownWord c 9 ≠ ownWord c r := fun hw => hs.2 (ownWord_inj (by decide) hr hw).2.symm
    have hring : 35 + 2 * j ≠ ownWord c r := ne_ownWord c (by omega)
    exact ⟨j, hj, by rwa [Function.update_of_ne hne], by rwa [Function.update_of_ne hring]⟩

theorem drop (h : Holds obj c e) (n count : Nat) : Holds obj c (e.drop n count) := by
  refine ⟨fun r hr => ?_, h.slot⟩
  rcases get_drop e n count r with hget | ⟨-, hget⟩
  · rw [hget]
    trivial
  · rw [hget]
    exact h.regs r hr

theorem setLast (h : Holds obj c e) (v : AVal) : Holds obj c { e with last := v } :=
  ⟨h.regs, h.slot⟩

end Holds

/-! ## instructions that stay -/

/-- The engine outside of what an instruction of context `c` may change. -/
structure Stays (s t : Engine) (c : Ctx) : Prop where
  currentCtx : t.currentCtx = s.currentCtx
  ctxReady : t.ctxReady = s.ctxReady
  codeLen : t.codeLen = s.codeLen
  done : t.done = s.done
  memQueue : t.memQueue = s.memQueue
  serving : t.serving = s.serving
  fifoQueue : t.fifoQueue = s.fifoQueue
  log : t.log = s.log
  pcCtx : ∀ c' ≠ c, t.pcCtx c' = s.pcCtx c'
  obj : ∀ i, (∀ r < 64, i ≠ ownWord c r) → t.obj i = s.obj i

/-- An instruction that stays led to a described successor. -/
def Follows (s t : Engine) (c : Ctx) (next : List (Nat × AEnv)) : Prop :=
  Stays s t c ∧ ∃ p ∈ next,
    (t.pcCtx c).toNat = p.1 ∧ Holds t.obj c p.2 ∧ p.2.last.Mem t.lastAlu

section

variable {s : Engine} {c : Ctx} {e : AEnv} {pc : Nat}

variable {dst : Register}

theorem setReg_obj {d : Nat} (hd : AEnv.own dst = some d) (x : UInt32) :
    (s.setReg (Engine.absoluteRegister c dst) x).obj =
      Function.update s.obj (ownWord c d) x := by
  rw [Engine.setReg, Engine.setObj, absoluteRegister_own c hd, ownWord]

theorem stays_setReg {d : Nat} (hd : AEnv.own dst = some d) (x : UInt32) :
    Stays s (s.setReg (Engine.absoluteRegister c dst) x) c where
  currentCtx := rfl
  ctxReady := rfl
  codeLen := rfl
  done := rfl
  memQueue := rfl
  serving := rfl
  fifoQueue := rfl
  log := rfl
  pcCtx _ _ := rfl
  obj i hi := by rw [setReg_obj hd, Function.update_of_ne (hi d (own_lt hd))]

/-- Assigning a described value to a register. -/
theorem follows_assign {v : AVal} {next : List (Nat × AEnv)} {x : UInt32}
    (hpc : (s.pcCtx c).toNat = pc + 1) (h : Holds s.obj c e) (hlast : e.last.Mem s.lastAlu)
    (hx : v.Mem x) (hnext : (e.assign dst v).map (fun e => [(pc + 1, e)]) = some next) :
    Follows s (s.setReg (Engine.absoluteRegister c dst) x) c next := by
  simp only [AEnv.assign, Option.map_map, Option.map_eq_some_iff] at hnext
  obtain ⟨d, hd, rfl⟩ := hnext
  refine ⟨stays_setReg hd x, _, List.mem_singleton_self _, hpc, ?_, hlast⟩
  rw [setReg_obj hd]
  exact h.set (own_lt hd) hx

/-- The same for an instruction that also sets `m_last_alu`. -/
theorem follows_alu {v : AVal} {next : List (Nat × AEnv)} {x : UInt32}
    {carry sign : Bool} (hpc : (s.pcCtx c).toNat = pc + 1) (h : Holds s.obj c e) (hx : v.Mem x)
    (hnext : (e.assign dst v).map (fun e => [(pc + 1, { e with last := v })]) = some next) :
    Follows s { ({ s with carry := carry, sign := sign } : Engine).setReg
      (Engine.absoluteRegister c dst) x with lastAlu := x } c next := by
  simp only [AEnv.assign, Option.map_map, Option.map_eq_some_iff] at hnext
  obtain ⟨d, hd, rfl⟩ := hnext
  have hobj := setReg_obj (s := s) (c := c) hd x
  refine ⟨?_, _, List.mem_singleton_self _, hpc, ?_, hx⟩
  · exact ⟨rfl, rfl, rfl, rfl, rfl, rfl, rfl, rfl, fun _ _ => rfl, (stays_setReg hd x).obj⟩
  · exact hobj ▸ (h.set (own_lt hd) hx).setLast v

theorem stays_refl (s : Engine) (c : Ctx) : Stays s s c :=
  ⟨rfl, rfl, rfl, rfl, rfl, rfl, rfl, rfl, fun _ _ => rfl, fun _ _ => rfl⟩

/-- The value of `ld_field` and `ld_field_w_clr`, when the abstract one is not `top`. -/
theorem follows_load {opcode : LoadOpcode} {dst src : Register} {mask : Fin 16} {rot : Rot}
    {next : List (Nat × AEnv)} (hpc : (s.pcCtx c).toNat = pc + 1) (h : Holds s.obj c e)
    (hlast : e.last.Mem s.lastAlu)
    (hnext : e.step c pc (.load opcode dst mask src rot) = some next) :
    Follows s (s.interpretLoad opcode (Engine.absoluteRegister c dst) mask
      (Engine.absoluteRegister c src) rot) c next := by
  simp only [AEnv.step] at hnext
  cases hd : AEnv.own dst with
  | none => simp [AEnv.assign, hd] at hnext
  | some d =>
    cases opcode with
    | ldField =>
      exact follows_assign hpc h hlast (by simp [AVal.Mem]) hnext
    | ldFieldWClr =>
      have hclear : ∀ x, ((s.setReg (Engine.absoluteRegister c dst) 0).setReg
          (Engine.absoluteRegister c dst) x) = s.setReg (Engine.absoluteRegister c dst) x := by
        intro x
        simp [Engine.setReg, Engine.setObj]
      simp only [Engine.interpretLoad, hclear]
      refine follows_assign hpc h hlast ?_ hnext
      split
      next hmask =>
        obtain ⟨-, rfl, rfl, hne⟩ := hmask
        cases hs : AEnv.own src with
        | none =>
          rw [AEnv.operand, hs]
          trivial
        | some n =>
          rw [hs, hd] at hne
          have hsrc : (s.setReg (Engine.absoluteRegister c dst) 0).reg
              (Engine.absoluteRegister c src) = s.reg (Engine.absoluteRegister c src) := by
            have hreg : ownReg c n ≠ ownReg c d := fun hr =>
              hne (congrArg some (ownReg_inj (own_lt hs) (own_lt hd) hr).2)
            rw [absoluteRegister_own c hs, absoluteRegister_own c hd]
            simp [Engine.reg, Engine.setReg, Engine.setObj, hreg]
          have hzero : (s.setReg (Engine.absoluteRegister c dst) 0).reg
              (Engine.absoluteRegister c dst) = 0 := by
            simp [Engine.reg, Engine.setReg, Engine.setObj]
          rw [hsrc, hzero, show Engine.bytemaskToBitmask (7 : Fin 16).val = 0xffffff by decide,
            UInt32.zero_and, UInt32.zero_xor]
          exact AVal.mem_lowBytes (h.operand src)
      next => trivial

/-- The condition of a branch, when the abstract one is known. -/
theorem gotoTarget_of_cond {src1 src2 : Register} {opcode : BranchOpcode} {taken : Bool}
    (hc : s.currentCtx = c) (h : Holds s.obj c e)
    (hcond : AEnv.cond c (e.operand src1) (e.operand src2) opcode = some taken) :
    s.gotoTarget (Engine.absoluteRegister c src1) (Engine.absoluteRegister c src2) opcode =
      taken := by
  have h₁ := h.operand src1
  have h₂ := h.operand src2
  have hctx : s.currentCtx.val.toUInt32.toNat = c.val := by
    have := c.isLt
    rw [hc, Nat.toUInt32, UInt32.toNat_ofNat']
    omega
  cases opcode <;>
    simp only [AEnv.cond, Option.bind_eq_some_iff, Option.map_eq_some_iff, Option.some.injEq,
      reduceCtorEq] at hcond
  case br => exact hcond
  case brEq =>
    obtain ⟨a, ha, b, hb, rfl⟩ := hcond
    rw [← AVal.const?_eq ha h₁, ← AVal.const?_eq hb h₂]
    exact decide_eq_decide.2 UInt32.toNat_inj.symm
  case brNeq =>
    obtain ⟨a, ha, b, hb, rfl⟩ := hcond
    rw [← AVal.const?_eq ha h₁, ← AVal.const?_eq hb h₂]
    exact decide_eq_decide.2 (not_congr UInt32.toNat_inj.symm)
  case brEqCtx =>
    obtain ⟨a, ha, rfl⟩ := hcond
    rw [← AVal.const?_eq ha h₁, ← hctx]
    exact decide_eq_decide.2 UInt32.toNat_inj.symm
  case brNeqCtx =>
    obtain ⟨a, ha, rfl⟩ := hcond
    rw [← AVal.const?_eq ha h₁, ← hctx]
    exact decide_eq_decide.2 (not_congr UInt32.toNat_inj.symm)

theorem follows_branch {opcode : BranchOpcode} {src1 src2 : Register} {target : Fin 4096}
    {next : List (Nat × AEnv)} (hc : s.currentCtx = c) (hpc : (s.pcCtx c).toNat = pc + 1)
    (h : Holds s.obj c e) (hlast : e.last.Mem s.lastAlu)
    (hnext : e.step c pc (.branch opcode src1 src2 target) = some next) :
    Follows s (s.interpretBranch opcode (Engine.absoluteRegister c src1)
      (Engine.absoluteRegister c src2) target) c next := by
  have hjump : (target.val, e) ∈ next → Follows s (s.setPc target.val.toUInt32) c next := by
    intro hmem
    refine ⟨⟨rfl, rfl, rfl, rfl, rfl, rfl, rfl, rfl, ?_, fun _ _ => rfl⟩, _, hmem, ?_, h, hlast⟩
    · intro c' hc'
      simp [Engine.setPc, hc, hc']
    · have := target.isLt
      simp only [Engine.setPc, hc, Function.update_self, Nat.toUInt32, UInt32.toNat_ofNat']
      omega
  have hfall : (pc + 1, e) ∈ next → Follows s s c next := fun hmem =>
    ⟨stays_refl s c, _, hmem, hpc, h, hlast⟩
  simp only [AEnv.step] at hnext
  unfold Engine.interpretBranch
  split at hnext
  next hcond =>
    cases hnext
    rw [if_pos (gotoTarget_of_cond hc h hcond)]
    exact hjump (List.mem_singleton_self _)
  next hcond =>
    cases hnext
    rw [if_neg (by simp [gotoTarget_of_cond hc h hcond])]
    exact hfall (List.mem_singleton_self _)
  next =>
    cases hnext
    split
    · exact hjump (by simp)
    · exact hfall (by simp)

/-- **An instruction that stays** in its context leads to a successor of `AEnv.step`. -/
theorem step_sound {inst : Instruction (Fin 4096)} {next : List (Nat × AEnv)} (uninit : UInt64)
    (hc : s.currentCtx = c) (hpc : (s.pcCtx c).toNat = pc + 1) (hcsr : s.csr &&& 0x14 = 0)
    (h : Holds s.obj c e) (hlast : e.last.Mem s.lastAlu) (hnext : e.step c pc inst = some next) :
    Follows s (s.interpretInstruction uninit (some inst)) c next := by
  cases inst with
  | alu opcode dst src1 type src2 shift numShift =>
    subst hc
    have hv := AVal.mem_alu s uninit type (h.operand src1) (h.operand src2)
    cases opcode with
    | alu => exact follows_alu hpc h hv hnext
    | aluShf => exact follows_alu hpc h (AVal.mem_shift hv numShift shift) hnext
    | dblShf => simp [AEnv.step] at hnext
  | immediate opcode dst ival rot =>
    cases opcode with
    | immed =>
      subst hc
      exact follows_assign hpc h hlast (AVal.mem_const.2 rfl) hnext
    | _ => simp [AEnv.step] at hnext
  | memory opcode direction xferReg addr1 addr2 count token => simp [AEnv.step] at hnext
  | branch opcode src1 src2 target =>
    subst hc
    exact follows_branch rfl hpc h hlast hnext
  | load opcode dst mask src rot =>
    subst hc
    exact follows_load hpc h hlast hnext
  | fifo opcode size addr1 addr2 token => simp [AEnv.step] at hnext
  | nop =>
    cases hnext
    exact ⟨stays_refl s c, _, List.mem_singleton_self _, hpc, h, hlast⟩
  | ctxArb => simp [AEnv.step] at hnext
  | csr dst csrNum =>
    subst hc
    refine follows_assign hpc h hlast ?_ hnext
    by_cases hnum : csrNum = 0
    · rw [if_pos hnum, if_pos hnum]
      exact hcsr
    · simp [hnum, AVal.Mem]

end

end Ooows.Net
