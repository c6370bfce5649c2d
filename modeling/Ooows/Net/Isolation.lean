import Ooows.Lib.Run
import Ooows.Net.Firmware
import Ooows.Net.Soundness

/-!
# Ooows.Net.Isolation

What the other contexts can do to a context's computation.

Each context has its own registers, but the carry and sign flags are kept once for the
engine and survive a swap.  `Watched` follows one context: what it writes to its registers,
how its branches go, and whether the flags still are as the context left them.

The abstract model is the context alone on the engine (`solo`).  Whatever the other
contexts do with registers of their own, every run shows a part of what the context does
alone (`Follows.step`), as long as the context looks at the flags only while they are its
own; so what two runs show agrees as far as both get.
-/

namespace Ooows.Net

open Lib

/-! ## what is compared -/

/-- What an instruction shows: a value written to one of the context's registers, or how
a branch goes. -/
inductive Obs
  | write (reg : UInt8) (v : UInt32)
  | branch (taken : Bool)
  deriving DecidableEq, Repr

/-- A context-relative reference to a register of the context. -/
def Register.Own (r : Register) : Prop := r.type = .relative ∧ r.number.toNat < 64

instance (r : Register) : Decidable r.Own := inferInstanceAs (Decidable (_ ∧ _))

namespace Instruction

/-- `alu`, `immediate`, `load` and branch instructions on registers of the context, and
`ctx_arb`.  The operands of `br` are not looked at. -/
def Plain {τ : Type} : Instruction τ → Prop
  | .alu _ dst src1 _ src2 _ _ => dst.Own ∧ src1.Own ∧ src2.Own
  | .immediate _ dst _ _ => dst.Own
  | .load _ dst _ src _ => dst.Own ∧ src.Own
  | .branch opcode src1 src2 _ => opcode = .br ∨ (src1.Own ∧ src2.Own)
  | .nop | .ctxArb => True
  | .memory .. | .fifo .. | .csr .. => False

instance {τ : Type} (inst : Instruction τ) : Decidable inst.Plain := by
  unfold Plain
  cases inst <;> infer_instance

/-- The instruction sets the carry and the sign flag. -/
def setsFlags {τ : Type} : Instruction τ → Bool
  | .alu opcode .. => decide (opcode ≠ .dblShf)
  | _ => false

end Instruction

namespace Engine

/-- The interpreter's next turn executes an instruction. -/
def runs (s : Engine) : Bool :=
  !s.done && s.ctxReady s.currentCtx && decide (s.pcCtx s.currentCtx < s.codeLen)

/-- The instruction at the current context's program counter. -/
def next (s : Engine) : Option (Instruction (Fin 4096)) := s.fetch (s.pcCtx s.currentCtx).toNat

/-- What an instruction shows that leads from `s` to `t`. -/
def shows (s t : Engine) : Option (Instruction (Fin 4096)) → List Obs
  | some (.alu opcode dst ..) =>
    if opcode = .dblShf then []
    else [.write dst.number (t.reg (absoluteRegister s.currentCtx dst))]
  | some (.immediate _ dst ..) => [.write dst.number (t.reg (absoluteRegister s.currentCtx dst))]
  | some (.load .ldField dst ..) =>
    [.write dst.number (t.reg (absoluteRegister s.currentCtx dst))]
  | some (.load .ldFieldWClr dst ..) =>
    [.write dst.number 0, .write dst.number (t.reg (absoluteRegister s.currentCtx dst))]
  | some (.branch opcode src1 src2 _) =>
    [.branch (s.gotoTarget (absoluteRegister s.currentCtx src1)
      (absoluteRegister s.currentCtx src2) opcode)]
  | _ => []

/-- The result of an instruction depends on its context only: it looks at no flag that is
another's, shifts by less than a word, and its result is assigned. -/
def Determined (s : Engine) (own : Bool) : Instruction (Fin 4096) → Prop
  | .alu opcode _ _ type src2 _ _ => opcode ≠ .dblShf →
      match type with
      | .plusCarry | .plusIfSign => own = true
      | .aluShiftLeft | .aluShiftRight => s.reg (absoluteRegister s.currentCtx src2) < 32
      | .unnamed => False
      | _ => True
  | _ => True

instance (s : Engine) (own : Bool) (inst : Instruction (Fin 4096)) :
    Decidable (s.Determined own inst) := by
  unfold Determined
  cases inst <;> try infer_instance
  case alu type _ _ _ => cases type <;> infer_instance

end Engine

/-! ## a context among others -/

/-- A run in which one context is watched. -/
structure Watched where
  eng : Engine
  /-- The flags are as the context left them. -/
  own : Bool
  /-- What the context's instructions have shown. -/
  trace : List Obs

namespace Watched

/-- The interpreter's next turn; `uninit` is what it may find where nothing was assigned. -/
def step (c : Ctx) (w : Watched) (uninit : UInt64) : Watched :=
  let eng := w.eng.interpreterStep uninit
  if w.eng.runs then
    { eng := eng
      own := if w.eng.next.any Instruction.setsFlags then decide (w.eng.currentCtx = c) else w.own
      trace := if w.eng.currentCtx = c then w.trace ++ w.eng.shows eng w.eng.next else w.trace }
  else { w with eng := eng }

/-- All contexts execute plain instructions only, and the watched one those of a program. -/
def Legal (c : Ctx) (prog : Nat → Option (Instruction (Fin 4096))) (w : Watched)
    (_ : UInt64) : Prop :=
  w.eng.runs = true → (∀ inst ∈ w.eng.next, inst.Plain) ∧
    (w.eng.currentCtx = c → w.eng.next = prog (w.eng.pcCtx c).toNat)

/-- The watched context's instructions depend on nothing else. -/
def Undisturbed (c : Ctx) (w : Watched) (_ : UInt64) : Prop :=
  w.eng.runs = true → w.eng.currentCtx = c → ∀ inst ∈ w.eng.next, w.eng.Determined w.own inst

instance (c : Ctx) (prog : Nat → Option (Instruction (Fin 4096))) (w : Watched) (u : UInt64) :
    Decidable (w.Legal c prog u) := by
  have := Option.decidableForallMem w.eng.next (p := fun inst => inst.Plain)
  exact inferInstanceAs (Decidable (_ → _ ∧ (_ → _)))

instance (c : Ctx) (w : Watched) (u : UInt64) : Decidable (w.Undisturbed c u) := by
  have := Option.decidableForallMem w.eng.next (p := fun inst => w.eng.Determined w.own inst)
  exact inferInstanceAs (Decidable (_ → _ → _))

def Isolated (c : Ctx) (prog : Nat → Option (Instruction (Fin 4096))) (w : Watched)
    (u : UInt64) : Prop :=
  w.Legal c prog u ∧ w.Undisturbed c u

instance (c : Ctx) (prog : Nat → Option (Instruction (Fin 4096))) (w : Watched) (u : UInt64) :
    Decidable (w.Isolated c prog u) := inferInstanceAs (Decidable (_ ∧ _))

/-- The start of a run. -/
def start (s : Engine) : Watched := ⟨s, true, []⟩

end Watched

/-! ## a context alone -/

/-- Two engines agree on a context: its registers and its program counter. -/
structure Agree (c : Ctx) (s v : Engine) : Prop where
  regs : ∀ r : Register, r.Own →
    s.reg (Engine.absoluteRegister c r) = v.reg (Engine.absoluteRegister c r)
  pc : s.pcCtx c = v.pcCtx c

/-- The engine is with a context. -/
def Engine.alone (v : Engine) (c : Ctx) : Engine := { v with currentCtx := c }

/-- The context executes its program, alone. -/
def solo (c : Ctx) (prog : Nat → Option (Instruction (Fin 4096))) (v : Engine) : Engine :=
  ((v.alone c).setPc (v.pcCtx c + 1)).interpretInstruction 0 (prog (v.pcCtx c).toNat)

/-- What its next instruction shows. -/
def soloShows (c : Ctx) (prog : Nat → Option (Instruction (Fin 4096))) (v : Engine) : List Obs :=
  (v.alone c).shows (solo c prog v) (prog (v.pcCtx c).toNat)

/-- What the context shows alone, in a number of instructions. -/
def soloTrace (c : Ctx) (prog : Nat → Option (Instruction (Fin 4096))) (v : Engine) (n : Nat) :
    List Obs :=
  (List.range n).flatMap fun i => soloShows c prog ((solo c prog)^[i] v)

/-! ## one instruction -/

/-- The step from `s` to `t` stores one register and leaves the program counters alone. -/
structure Writes (s t : Engine) (i : Nat) (x : UInt32) : Prop where
  reg : ∀ j, t.reg j = if j = i then x else s.reg j
  pcCtx : t.pcCtx = s.pcCtx

theorem writes_setReg (s : Engine) (i : Nat) (x : UInt32) : Writes s (s.setReg i x) i x := by
  refine ⟨fun j => ?_, rfl⟩
  unfold Engine.reg Engine.setReg Engine.setObj
  by_cases h : j = i
  · rw [if_pos h, h]
    exact Function.update_self ..
  · rw [if_neg h]
    exact Function.update_of_ne (fun heq => h (Nat.add_left_cancel heq)) ..

/-- What an ALU instruction stores of its result. -/
def aluStored (result : UInt64) (opcode : AluOpcode) (shift : Shift) (numShift : Fin 4) : UInt32 :=
  if opcode = .alu then result.toUInt32 else Engine.shiftBy result.toUInt32 numShift shift

theorem writes_alu (s : Engine) (uninit : UInt64) {opcode : AluOpcode} (hopcode : opcode ≠ .dblShf)
    (dst src1 : Nat) (type : AluOp) (src2 : Nat) (shift : Shift) (numShift : Fin 4) :
    let result := s.aluResult uninit (s.reg src1) (s.reg src2) type
    let t := s.interpretAlu uninit opcode dst src1 type src2 shift numShift
    Writes s t dst (aluStored result opcode shift numShift) ∧
      t.carry = decide (result &&& 0x100000000 ≠ 0) ∧
      t.sign = decide (result &&& 0x80000000 ≠ 0) ∧ t.done = s.done := by
  have hw := writes_setReg s dst
  cases opcode with
  | alu => exact ⟨⟨(hw _).reg, rfl⟩, rfl, rfl, rfl⟩
  | aluShf => exact ⟨⟨(hw _).reg, rfl⟩, rfl, rfl, rfl⟩
  | dblShf => exact absurd rfl hopcode

/-- What an immediate instruction stores. -/
def immediateStored (opcode : ImmedOpcode) (orig : UInt32) (ival : UInt16) (rot : Rot) : UInt32 :=
  let byte : UInt32 := ival.toUInt32 &&& 0xff
  let word : UInt32 := ival.toUInt32 &&& 0xffff
  match opcode with
  | .immed => Engine.performRot ival.toUInt32 rot
  | .immedB0 => (orig &&& 0xffffff00) + byte
  | .immedB1 => (orig &&& 0xffff00ff : UInt32) + (byte <<< 8 : UInt32)
  | .immedB2 => (orig &&& 0xff00ffff : UInt32) + (byte <<< 16 : UInt32)
  | .immedB3 => (orig &&& 0x00ffffff : UInt32) + (byte <<< 24 : UInt32)
  | .immedW0 => (orig &&& 0xffff0000) + word
  | .immedW1 => (orig &&& 0x0000ffff : UInt32) + (word <<< 16 : UInt32)

theorem interpretImmediate_eq (s : Engine) (opcode : ImmedOpcode) (dst : Nat) (ival : UInt16)
    (rot : Rot) : s.interpretImmediate opcode dst ival rot =
      s.setReg dst (immediateStored opcode (s.reg dst) ival rot) := by
  cases opcode <;> rfl

/-- What a load instruction stores, from the destination and the source as it reads them. -/
def loadStored (orig src : UInt32) (mask : Fin 16) (rot : Rot) : UInt32 :=
  (orig &&& ~~~ Engine.bytemaskToBitmask mask.val) ^^^
    (Engine.performRot src rot &&& Engine.bytemaskToBitmask mask.val)

theorem writes_load (s : Engine) (opcode : LoadOpcode) (dst : Nat) (mask : Fin 16) (src : Nat)
    (rot : Rot) : Writes s (s.interpretLoad opcode dst mask src rot) dst
      (match opcode with
        | .ldField => loadStored (s.reg dst) (s.reg src) mask rot
        | .ldFieldWClr => loadStored 0 (if src = dst then 0 else s.reg src) mask rot) := by
  cases opcode with
  | ldField => exact writes_setReg s dst _
  | ldFieldWClr =>
    have hclear := (writes_setReg s dst 0).reg
    have heq : s.interpretLoad .ldFieldWClr dst mask src rot = (s.setReg dst 0).setReg dst
        (loadStored 0 (if src = dst then 0 else s.reg src) mask rot) := by
      change (s.setReg dst 0).setReg dst
        (loadStored ((s.setReg dst 0).reg dst) ((s.setReg dst 0).reg src) mask rot) = _
      rw [hclear dst, if_pos rfl, hclear src]
    refine ⟨fun j => ?_, rfl⟩
    rw [heq, (writes_setReg ..).reg, hclear j]
    by_cases hj : j = dst
    · rw [if_pos hj, if_pos hj]
    · rw [if_neg hj, if_neg hj, if_neg hj]

namespace Agree

variable {c : Ctx} {s v s' v' : Engine}

theorem writes (h : Agree c s v) {i : Nat} {x : UInt32} (hs : Writes s s' i x)
    (hv : Writes v v' i x) : Agree c s' v' := by
  refine ⟨fun r hr => ?_, ?_⟩
  · rw [hs.reg, hv.reg, h.regs r hr]
  · rw [hs.pcCtx, hv.pcCtx, h.pc]

theorem setPc (h : Agree c s v) (hs : s.currentCtx = c) (hv : v.currentCtx = c) (pc : UInt32) :
    Agree c (s.setPc pc) (v.setPc pc) := by
  refine ⟨h.regs, ?_⟩
  simp only [Engine.setPc, hs, hv, Function.update_self]

/-- The ALU's result, where it depends on the context only. -/
theorem aluResult {a b : UInt32} {type : AluOp} {own : Bool}
    (hflags : own = true → s.carry = v.carry ∧ s.sign = v.sign)
    (hdet : match type with
      | .plusCarry | .plusIfSign => own = true
      | .aluShiftLeft | .aluShiftRight => b < 32
      | .unnamed => False
      | _ => True) (uninit uninit' : UInt64) :
    s.aluResult uninit a b type = v.aluResult uninit' a b type := by
  cases type with
  | plusCarry => rw [Engine.aluResult, Engine.aluResult, (hflags hdet).1]
  | plusIfSign => rw [Engine.aluResult, Engine.aluResult, (hflags hdet).2]
  | aluShiftLeft => rw [Engine.aluResult, Engine.aluResult, if_pos hdet, if_pos hdet]
  | aluShiftRight => rw [Engine.aluResult, Engine.aluResult, if_pos hdet, if_pos hdet]
  | unnamed => exact hdet.elim
  | _ => rfl

/-- How a branch goes. -/
theorem gotoTarget (h : Agree c s v) (hs : s.currentCtx = c) (hv : v.currentCtx = c)
    {opcode : BranchOpcode} {src1 src2 : Register}
    (hplain : opcode = .br ∨ (src1.Own ∧ src2.Own)) :
    s.gotoTarget (Engine.absoluteRegister c src1) (Engine.absoluteRegister c src2) opcode =
      v.gotoTarget (Engine.absoluteRegister c src1) (Engine.absoluteRegister c src2) opcode := by
  rcases hplain with rfl | ⟨h1, h2⟩
  · rfl
  · cases opcode <;> simp only [Engine.gotoTarget, h.regs _ h1, h.regs _ h2, hs, hv]

/-- **An instruction of the context does the same on both engines**, and shows the same. -/
theorem instruction (h : Agree c s v) (hs : s.currentCtx = c) (hv : v.currentCtx = c) {own : Bool}
    (hflags : own = true → s.carry = v.carry ∧ s.sign = v.sign) {inst : Instruction (Fin 4096)}
    (hplain : inst.Plain) (hdet : s.Determined own inst) (uninit uninit' : UInt64) :
    let s' := s.interpretInstruction uninit (some inst)
    let v' := v.interpretInstruction uninit' (some inst)
    Agree c s' v' ∧ s.shows s' (some inst) = v.shows v' (some inst) ∧
      (inst.setsFlags = true ∨ own = true → s'.carry = v'.carry ∧ s'.sign = v'.sign) := by
  have hown : false = true ∨ own = true → s.carry = v.carry ∧ s.sign = v.sign :=
    fun hor => hflags (hor.resolve_left Bool.noConfusion)
  cases inst with
  | alu opcode dst src1 type src2 shift numShift =>
    obtain ⟨-, h1, h2⟩ := hplain
    by_cases hopcode : opcode = .dblShf
    · subst hopcode
      exact ⟨h, rfl, hown⟩
    · have hresult : s.aluResult uninit (s.reg (Engine.absoluteRegister c src1))
          (s.reg (Engine.absoluteRegister c src2)) type = v.aluResult uninit'
          (v.reg (Engine.absoluteRegister c src1)) (v.reg (Engine.absoluteRegister c src2)) type := by
        rw [← h.regs _ h1, ← h.regs _ h2]
        exact aluResult hflags (hs ▸ hdet hopcode) uninit uninit'
      obtain ⟨hws, hcs, hss, -⟩ := writes_alu s uninit hopcode (Engine.absoluteRegister c dst)
        (Engine.absoluteRegister c src1) type (Engine.absoluteRegister c src2) shift numShift
      obtain ⟨hwv, hcv, hsv, -⟩ := writes_alu v uninit' hopcode (Engine.absoluteRegister c dst)
        (Engine.absoluteRegister c src1) type (Engine.absoluteRegister c src2) shift numShift
      simp only [Engine.interpretInstruction, Engine.shows, hs, hv, if_neg hopcode]
      rw [hresult] at hws hcs hss
      refine ⟨h.writes hws hwv, ?_, fun _ => ⟨hcs.trans hcv.symm, hss.trans hsv.symm⟩⟩
      rw [hws.reg, hwv.reg, if_pos rfl, if_pos rfl]
  | immediate opcode dst ival rot =>
    have hws := writes_setReg s (Engine.absoluteRegister c dst)
      (immediateStored opcode (s.reg (Engine.absoluteRegister c dst)) ival rot)
    have hwv := writes_setReg v (Engine.absoluteRegister c dst)
      (immediateStored opcode (v.reg (Engine.absoluteRegister c dst)) ival rot)
    simp only [Engine.interpretInstruction, Engine.shows, interpretImmediate_eq, hs, hv]
    rw [h.regs dst hplain] at hws ⊢
    refine ⟨h.writes hws hwv, ?_, hown⟩
    rw [hws.reg, hwv.reg, if_pos rfl, if_pos rfl]
  | load opcode dst mask src rot =>
    obtain ⟨hdst, hsrc⟩ := hplain
    have hws := writes_load s opcode (Engine.absoluteRegister c dst) mask
      (Engine.absoluteRegister c src) rot
    have hwv := writes_load v opcode (Engine.absoluteRegister c dst) mask
      (Engine.absoluteRegister c src) rot
    rw [h.regs dst hdst, h.regs src hsrc] at hws
    simp only [Engine.interpretInstruction, hs, hv]
    refine ⟨h.writes hws hwv, ?_, ?_⟩
    · cases opcode <;>
        simp only [Engine.shows, hs, hv, hws.reg, hwv.reg, if_true]
    · cases opcode <;> exact hown
  | branch opcode src1 src2 target =>
    have hgoto := h.gotoTarget hs hv hplain
    simp only [Engine.interpretInstruction, Engine.interpretBranch, Engine.shows, hs, hv, hgoto]
    split
    next => exact ⟨h.setPc hs hv _, trivial, hown⟩
    next => exact ⟨h, trivial, hown⟩
  | nop => exact ⟨h, rfl, hown⟩
  | ctxArb => exact ⟨⟨h.regs, h.pc⟩, rfl, hown⟩
  | memory | fifo | csr => exact hplain.elim

end Agree

/-! ## another context's instruction -/

/-- The registers of two contexts are different ones. -/
theorem absoluteRegister_ne {c c' : Ctx} (hne : c ≠ c') {r r' : Register} (hr : r.Own)
    (hr' : r'.Own) : Engine.absoluteRegister c r ≠ Engine.absoluteRegister c' r' := by
  rw [absoluteRegister_own c (if_pos hr), absoluteRegister_own c' (if_pos hr')]
  exact fun heq => hne (ownReg_inj hr.2 hr'.2 heq).1

/-- What a plain instruction leaves alone: another context's registers and program
counter, and the flags unless it sets them. -/
theorem plain_frame {s : Engine} {c : Ctx} (hc : c ≠ s.currentCtx) {inst : Instruction (Fin 4096)}
    (hplain : inst.Plain) (uninit : UInt64) :
    let t := s.interpretInstruction uninit (some inst)
    (∀ r : Register, r.Own →
      t.reg (Engine.absoluteRegister c r) = s.reg (Engine.absoluteRegister c r)) ∧
    t.pcCtx c = s.pcCtx c ∧
    (inst.setsFlags = false → t.carry = s.carry ∧ t.sign = s.sign) := by
  have hkept : ∀ {t : Engine} {dst : Register} {x : UInt32}, dst.Own →
      Writes s t (Engine.absoluteRegister s.currentCtx dst) x → (∀ r : Register, r.Own →
        t.reg (Engine.absoluteRegister c r) = s.reg (Engine.absoluteRegister c r)) ∧
      t.pcCtx c = s.pcCtx c := by
    intro t dst x hdst hw
    refine ⟨fun r hr => ?_, by rw [hw.pcCtx]⟩
    rw [hw.reg, if_neg (absoluteRegister_ne hc hr hdst)]
  cases inst with
  | alu opcode dst src1 type src2 shift numShift =>
    by_cases hopcode : opcode = .dblShf
    · subst hopcode
      exact ⟨fun _ _ => rfl, rfl, fun _ => ⟨rfl, rfl⟩⟩
    · obtain ⟨hregs, hpc⟩ := hkept hplain.1 (writes_alu s uninit hopcode
        (Engine.absoluteRegister s.currentCtx dst) (Engine.absoluteRegister s.currentCtx src1) type
        (Engine.absoluteRegister s.currentCtx src2) shift numShift).1
      refine ⟨hregs, hpc, fun hset => ?_⟩
      exact absurd hset (by simp [Instruction.setsFlags, hopcode])
  | immediate opcode dst ival rot =>
    simp only [Engine.interpretInstruction, interpretImmediate_eq]
    obtain ⟨hregs, hpc⟩ := hkept hplain (writes_setReg s _
      (immediateStored opcode (s.reg (Engine.absoluteRegister s.currentCtx dst)) ival rot))
    exact ⟨hregs, hpc, fun _ => ⟨rfl, rfl⟩⟩
  | load opcode dst mask src rot =>
    obtain ⟨hregs, hpc⟩ := hkept hplain.1 (writes_load s opcode
      (Engine.absoluteRegister s.currentCtx dst) mask (Engine.absoluteRegister s.currentCtx src) rot)
    refine ⟨hregs, hpc, fun _ => ?_⟩
    cases opcode <;> exact ⟨rfl, rfl⟩
  | branch opcode src1 src2 target =>
    simp only [Engine.interpretInstruction, Engine.interpretBranch]
    split
    next => exact ⟨fun _ _ => rfl, Function.update_of_ne hc .., fun _ => ⟨rfl, rfl⟩⟩
    next => exact ⟨fun _ _ => rfl, rfl, fun _ => ⟨rfl, rfl⟩⟩
  | nop => exact ⟨fun _ _ => rfl, rfl, fun _ => ⟨rfl, rfl⟩⟩
  | ctxArb => exact ⟨fun _ _ => rfl, rfl, fun _ => ⟨rfl, rfl⟩⟩
  | memory | fifo | csr => exact hplain.elim

/-! ## a turn of the interpreter -/

theorem interpreterStep_of_runs {s : Engine} (h : s.runs = true) (uninit : UInt64) :
    s.interpreterStep uninit =
      (s.setPc (s.pcCtx s.currentCtx + 1)).interpretInstruction uninit s.next := by
  simp only [Engine.runs, Bool.and_eq_true, Bool.not_eq_true', decide_eq_true_eq] at h
  obtain ⟨⟨hdone, hready⟩, hpc⟩ := h
  simp only [Engine.interpreterStep, hdone, hready, if_true, Bool.false_eq_true, if_false]
  exact if_neg (UInt32.not_le.2 hpc)

/-- A turn that executes nothing. -/
theorem interpreterStep_of_not_runs {s t : Engine} {uninit : UInt64} (h : s.runs = false)
    (ht : s.interpreterStep uninit = t) : t.obj = s.obj ∧ t.carry = s.carry ∧ t.sign = s.sign ∧
      (t.done = false → s.done = false ∧ t.pcCtx = s.pcCtx) := by
  unfold Engine.interpreterStep at ht
  split at ht
  next =>
    subst ht
    exact ⟨rfl, rfl, rfl, fun hdone => ⟨hdone, rfl⟩⟩
  next hdone =>
    split at ht
    next hready =>
      have hstop : s.pcCtx s.currentCtx ≥ s.codeLen := by
        simpa [Engine.runs, hdone, hready] using h
      have ht := (if_pos hstop).symm.trans ht
      subst ht
      exact ⟨rfl, rfl, rfl, fun hd => Bool.noConfusion hd⟩
    next =>
      subst ht
      exact ⟨rfl, rfl, rfl, fun hd => ⟨hd, rfl⟩⟩

theorem shows_setPc (s t : Engine) (pc : UInt32) (inst : Option (Instruction (Fin 4096))) :
    (s.setPc pc).shows t inst = s.shows t inst := by
  cases inst with
  | none => rfl
  | some inst =>
    cases inst with
    | branch opcode => cases opcode <;> rfl
    | load opcode => cases opcode <;> rfl
    | alu | immediate | memory | fifo | nop | ctxArb | csr => rfl

/-- **The watched context is where it would be alone**: its registers, its program counter
while the engine is not done, and the flags while they are its own. -/
structure AsAlone (c : Ctx) (w : Watched) (v : Engine) : Prop where
  regs : ∀ r : Register, r.Own →
    w.eng.reg (Engine.absoluteRegister c r) = v.reg (Engine.absoluteRegister c r)
  pc : w.eng.done = false → w.eng.pcCtx c = v.pcCtx c
  flags : w.own = true → w.eng.carry = v.carry ∧ w.eng.sign = v.sign

namespace AsAlone

variable {c : Ctx} {prog : Nat → Option (Instruction (Fin 4096))} {w : Watched} {v : Engine}
  {uninit : UInt64}

theorem of_not_runs (h : AsAlone c w v) (hruns : w.eng.runs = false) :
    AsAlone c (w.step c uninit) v ∧ (w.step c uninit).trace = w.trace := by
  obtain ⟨hobj, hcarry, hsign, hpc⟩ := interpreterStep_of_not_runs hruns
    (rfl : w.eng.interpreterStep uninit = _)
  simp only [Watched.step, hruns, Bool.false_eq_true, if_false]
  refine ⟨⟨fun r hr => ?_, fun hdone => ?_, fun hown => ?_⟩, trivial⟩
  · rw [Engine.reg, hobj]
    exact h.regs r hr
  · obtain ⟨hd, heq⟩ := hpc hdone
    rw [heq]
    exact h.pc hd
  · rw [hcarry, hsign]
    exact h.flags hown

theorem step_of_runs (hruns : w.eng.runs = true) : w.step c uninit =
    { eng := (w.eng.setPc (w.eng.pcCtx w.eng.currentCtx + 1)).interpretInstruction uninit w.eng.next
      own := if w.eng.next.any Instruction.setsFlags then decide (w.eng.currentCtx = c) else w.own
      trace := if w.eng.currentCtx = c then w.trace ++ w.eng.shows
          ((w.eng.setPc (w.eng.pcCtx w.eng.currentCtx + 1)).interpretInstruction uninit w.eng.next)
          w.eng.next
        else w.trace } := by
  rw [Watched.step, if_pos hruns, interpreterStep_of_runs hruns]

theorem done_of_runs {s : Engine} (h : s.runs = true) : s.done = false := by
  simp only [Engine.runs, Bool.and_eq_true, Bool.not_eq_true'] at h
  exact h.1.1

/-- Another context's turn. -/
theorem of_other (h : AsAlone c w v) (hruns : w.eng.runs = true) (hne : c ≠ w.eng.currentCtx)
    (hplain : ∀ inst ∈ w.eng.next, inst.Plain) :
    AsAlone c (w.step c uninit) v ∧ (w.step c uninit).trace = w.trace := by
  have hpc := h.pc (done_of_runs hruns)
  have hpc' : (w.eng.setPc (w.eng.pcCtx w.eng.currentCtx + 1)).pcCtx c = v.pcCtx c :=
    (Function.update_of_ne hne ..).trans hpc
  rw [step_of_runs hruns]
  simp only [Ne.symm hne, if_false, decide_false]
  cases hnext : w.eng.next with
  | none => exact ⟨⟨h.regs, fun _ => hpc', h.flags⟩, trivial⟩
  | some inst =>
    obtain ⟨hregs, hpcs, hflags⟩ := plain_frame
      (s := w.eng.setPc (w.eng.pcCtx w.eng.currentCtx + 1)) hne (hplain inst hnext) uninit
    refine ⟨⟨fun r hr => (hregs r hr).trans (h.regs r hr), fun _ => hpcs.trans hpc', fun hown => ?_⟩,
      trivial⟩
    cases hset : inst.setsFlags with
    | true => simp [hset] at hown
    | false =>
      obtain ⟨hcarry, hsign⟩ := hflags hset
      simp only [Option.any_some, hset, Bool.false_eq_true, if_false] at hown
      exact ⟨hcarry.trans (h.flags hown).1, hsign.trans (h.flags hown).2⟩

/-- The context's own turn. -/
theorem of_own (h : AsAlone c w v) (hruns : w.eng.runs = true) (hc : w.eng.currentCtx = c)
    (hplain : ∀ inst ∈ w.eng.next, inst.Plain) (hprog : w.eng.next = prog (w.eng.pcCtx c).toNat)
    (hdet : ∀ inst ∈ w.eng.next, w.eng.Determined w.own inst) :
    AsAlone c (w.step c uninit) (solo c prog v) ∧
      (w.step c uninit).trace = w.trace ++ soloShows c prog v := by
  have hpc := h.pc (done_of_runs hruns)
  have halone : Agree c w.eng (v.alone c) := ⟨h.regs, hpc⟩
  have hagree := halone.setPc hc rfl (w.eng.pcCtx c + 1)
  rw [step_of_runs hruns]
  simp only [hc, if_true, decide_true, soloShows, solo, ← hpc, ← hprog]
  cases hnext : w.eng.next with
  | none => exact ⟨⟨hagree.regs, fun _ => hagree.pc, h.flags⟩, rfl⟩
  | some inst =>
    obtain ⟨hagree', hshows, hflags⟩ := hagree.instruction hc rfl h.flags (hplain inst hnext)
      (hdet inst hnext) uninit 0
    rw [shows_setPc, shows_setPc] at hshows
    refine ⟨⟨hagree'.regs, fun _ => hagree'.pc, fun hown => hflags ?_⟩, by rw [hshows]⟩
    cases hset : inst.setsFlags with
    | true => exact .inl rfl
    | false =>
      simp only [Option.any_some, hset, Bool.false_eq_true, if_false] at hown
      exact .inr hown

/-- **A turn of the interpreter either shows nothing of the context or what it does next
alone.** -/
theorem step (h : AsAlone c w v) (hlegal : w.Legal c prog uninit)
    (hundisturbed : w.Undisturbed c uninit) :
    (AsAlone c (w.step c uninit) v ∧ (w.step c uninit).trace = w.trace) ∨
    (AsAlone c (w.step c uninit) (solo c prog v) ∧
      (w.step c uninit).trace = w.trace ++ soloShows c prog v) := by
  cases hruns : w.eng.runs with
  | false => exact .inl (h.of_not_runs hruns)
  | true =>
    obtain ⟨hplain, hprog⟩ := hlegal hruns
    by_cases hc : w.eng.currentCtx = c
    · exact .inr (h.of_own hruns hc hplain (hprog hc) (hundisturbed hruns hc))
    · exact .inl (h.of_other hruns (Ne.symm hc) hplain)

end AsAlone

/-! ## whole runs -/

theorem soloTrace_succ (c : Ctx) (prog : Nat → Option (Instruction (Fin 4096))) (v : Engine)
    (n : Nat) : soloTrace c prog v (n + 1) =
      soloTrace c prog v n ++ soloShows c prog ((solo c prog)^[n] v) := by
  simp [soloTrace, List.range_succ]

theorem soloTrace_le (c : Ctx) (prog : Nat → Option (Instruction (Fin 4096))) (v : Engine)
    {m n : Nat} (h : m ≤ n) : soloTrace c prog v m <+: soloTrace c prog v n := by
  induction h with
  | refl => exact List.prefix_refl _
  | step _ ih =>
    rw [soloTrace_succ]
    exact ih.trans (List.prefix_append ..)

/-- **Every run shows what the context does alone**, up to some point. -/
theorem trace_eq_soloTrace {c : Ctx} {prog : Nat → Option (Instruction (Fin 4096))} {w t : Watched}
    {v : Engine} {uninits : List UInt64} (hw : AsAlone c w v) (htrace : w.trace = [])
    (h : Run (Guarded (Watched.Isolated c prog) fun w u w' => w' = w.step c u)
      w uninits t) : ∃ n, t.trace = soloTrace c prog v n := by
  have hinv : ∃ n, AsAlone c t ((solo c prog)^[n] v) ∧ t.trace = soloTrace c prog v n := by
    refine h.invariant (I := fun t => ∃ n, AsAlone c t ((solo c prog)^[n] v) ∧
      t.trace = soloTrace c prog v n) ?_ ⟨0, hw, htrace⟩
    rintro t u t' ⟨n, halone, htrace⟩ ⟨⟨hlegal, hundisturbed⟩, rfl⟩
    rcases halone.step hlegal hundisturbed with ⟨hnext, heq⟩ | ⟨hnext, heq⟩
    · exact ⟨n, hnext, heq.trans htrace⟩
    · refine ⟨n + 1, ?_, ?_⟩
      · rw [Function.iterate_succ_apply']
        exact hnext
      · rw [soloTrace_succ, heq, htrace]
  obtain ⟨n, -, heq⟩ := hinv
  exact ⟨n, heq⟩

/-- **Contexts do not disturb each other's computation**, as long as a context looks at
the carry and sign flags only while they are its own, and at no result that was never
assigned.  For any two runs of plain instructions that start with the same flags, and the
same registers and program counter of a context, and in which the context has the same
program: what it writes to its registers and how its branches go is the same in both, as
far as both get. -/
theorem contexts_isolated {c : Ctx} {prog : Nat → Option (Instruction (Fin 4096))}
    {s₁ s₂ : Engine} (hagree : Agree c s₁ s₂) (hcarry : s₁.carry = s₂.carry)
    (hsign : s₁.sign = s₂.sign) {uninits₁ uninits₂ : List UInt64} {w₁ w₂ : Watched}
    (h₁ : Run (Guarded (Watched.Isolated c prog) fun w u w' => w' = w.step c u)
      (.start s₁) uninits₁ w₁)
    (h₂ : Run (Guarded (Watched.Isolated c prog) fun w u w' => w' = w.step c u)
      (.start s₂) uninits₂ w₂) :
    w₁.trace <+: w₂.trace ∨ w₂.trace <+: w₁.trace := by
  have hfirst : AsAlone c (.start s₁) s₁ := ⟨fun _ _ => rfl, fun _ => rfl, fun _ => ⟨rfl, rfl⟩⟩
  have hsecond : AsAlone c (.start s₂) s₁ :=
    ⟨fun r hr => (hagree.regs r hr).symm, fun _ => hagree.pc.symm, fun _ => ⟨hcarry.symm, hsign.symm⟩⟩
  obtain ⟨m, hm⟩ := trace_eq_soloTrace hfirst rfl h₁
  obtain ⟨n, hn⟩ := trace_eq_soloTrace hsecond rfl h₂
  rw [hm, hn]
  rcases Nat.le_total m n with hle | hle
  · exact .inl (soloTrace_le c prog s₁ hle)
  · exact .inr (soloTrace_le c prog s₁ hle)

/-- `br!=ctx` to instruction 3, `ctx_arb`, an ALU instruction, and for the other contexts
an addition and `ctx_arb`. -/
def flagsImage (type : AluOp) : List UInt8 := (emit [
  .branch .brNeqCtx (Firmware.reg 0) (Firmware.reg 0) 3,
  .ctxArb,
  .alu .alu (Firmware.reg 1) (Firmware.reg 2) type (Firmware.reg 3) .left 0,
  .alu .alu (Firmware.reg 1) (Firmware.reg 2) .plus (Firmware.reg 3) .left 0,
  .ctxArb]).getD []

/-- The engine with this image, and two registers of context 3. -/
def flagsEngine (type : AluOp) (reg2 reg3 : UInt32) : Engine :=
  ((Engine.init (flagsImage type) (fun _ => 0) 0 []).setReg (ownReg 3 2) reg2).setReg
    (ownReg 3 3) reg3

/-- Instruction 2 for context 0, and the others as loaded. -/
def flagsProgram (type : AluOp) (pc : Nat) : Option (Instruction (Fin 4096)) :=
  (flagsEngine type 0 0).fetch pc

theorem agree_flagsEngine (type : AluOp) (reg2 reg3 : UInt32) :
    Agree 0 (flagsEngine type reg2 reg3) (flagsEngine type 0 0) := by
  refine ⟨fun r hr => ?_, rfl⟩
  have hne : ∀ n < 64, Engine.absoluteRegister 0 r ≠ ownReg 3 n := by
    intro n hn
    rw [absoluteRegister_own 0 (if_pos hr)]
    exact fun heq => absurd (ownReg_inj hr.2 hn heq).1 (by decide)
  simp only [flagsEngine, (writes_setReg ..).reg, if_neg (hne 2 (by decide)),
    if_neg (hne 3 (by decide))]

theorem run_of_exec {c : Ctx} {ok : Watched → UInt64 → Prop} [∀ w u, Decidable (ok w u)]
    {s : Engine} {uninits : List UInt64} {t : Watched}
    (h : exec (fun w u => if ok w u then some (w.step c u) else none) (.start s) uninits = some t) :
    Run (Guarded ok fun w u w' => w' = w.step c u) (.start s) uninits t :=
  (run_guarded_of_exec h).mono fun _ _ _ hstep => ⟨hstep.1, (Option.some.inj hstep.2).symm⟩

theorem contexts_isolated_plus : ∃ w₁ w₂,
    Run (Guarded (Watched.Isolated 0 (flagsProgram .plus)) fun w u w' => w' = w.step 0 u)
      (.start (flagsEngine .plus 0xffffffff 1)) (List.replicate 12 0) w₁ ∧
    Run (Guarded (Watched.Isolated 0 (flagsProgram .plus)) fun w u w' => w' = w.step 0 u)
      (.start (flagsEngine .plus 0 0)) (List.replicate 12 0) w₂ ∧
    (w₁.trace <+: w₂.trace ∨ w₂.trace <+: w₁.trace) := by
  have hone : (exec (fun (w : Watched) u =>
      if w.Isolated 0 (flagsProgram .plus) u then some (w.step 0 u) else none)
      (.start (flagsEngine .plus 0xffffffff 1)) (List.replicate 12 0)).isSome = true := by
    decide +kernel
  have hzero : (exec (fun (w : Watched) u =>
      if w.Isolated 0 (flagsProgram .plus) u then some (w.step 0 u) else none)
      (.start (flagsEngine .plus 0 0)) (List.replicate 12 0)).isSome = true := by
    decide +kernel
  obtain ⟨w₁, hw₁⟩ := Option.isSome_iff_exists.1 hone
  obtain ⟨w₂, hw₂⟩ := Option.isSome_iff_exists.1 hzero
  have hagree := agree_flagsEngine .plus 0xffffffff 1
  have hrun₁ := run_of_exec hw₁
  have hrun₂ := run_of_exec hw₂
  exact ⟨w₁, w₂, hrun₁, hrun₂, contexts_isolated hagree rfl rfl hrun₁ hrun₂⟩

/-- **The carry of another context comes through**: two runs that differ only in two
registers of context 3 add a different carry in context 0. -/
theorem carry_of_other_context : ∃ w₁ w₂,
    Agree 0 (flagsEngine .plusCarry 0xffffffff 1) (flagsEngine .plusCarry 0 0) ∧
    Run (Guarded (Watched.Legal 0 (flagsProgram .plusCarry)) fun w u w' => w' = w.step 0 u)
      (.start (flagsEngine .plusCarry 0xffffffff 1)) (List.replicate 12 0) w₁ ∧
    Run (Guarded (Watched.Legal 0 (flagsProgram .plusCarry)) fun w u w' => w' = w.step 0 u)
      (.start (flagsEngine .plusCarry 0 0)) (List.replicate 12 0) w₂ ∧
    w₁.trace = [.branch false, .write 1 1] ∧ w₂.trace = [.branch false, .write 1 0] := by
  have hone : (exec (fun (w : Watched) u =>
      if w.Legal 0 (flagsProgram .plusCarry) u then some (w.step 0 u) else none)
      (.start (flagsEngine .plusCarry 0xffffffff 1)) (List.replicate 12 0)).any
      (fun w => decide (w.trace = [.branch false, .write 1 1])) = true := by
    decide +kernel
  have hzero : (exec (fun (w : Watched) u =>
      if w.Legal 0 (flagsProgram .plusCarry) u then some (w.step 0 u) else none)
      (.start (flagsEngine .plusCarry 0 0)) (List.replicate 12 0)).any
      (fun w => decide (w.trace = [.branch false, .write 1 0])) = true := by
    decide +kernel
  obtain ⟨w₁, hw₁, htrace₁⟩ := (Option.any_eq_true _ _).1 hone
  obtain ⟨w₂, hw₂, htrace₂⟩ := (Option.any_eq_true _ _).1 hzero
  exact ⟨w₁, w₂, agree_flagsEngine .., run_of_exec hw₁, run_of_exec hw₂,
    of_decide_eq_true htrace₁, of_decide_eq_true htrace₂⟩

end Ooows.Net
