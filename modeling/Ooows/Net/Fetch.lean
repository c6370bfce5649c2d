import Ooows.Net.Interpreter
import Ooows.Net.Schedule

/-!
# Ooows.Net.Fetch

Which instructions the interpreter executes.

`m_code_len` is the length of the image in bytes, but the program counters that
`interpreter_loop` compares it with count instructions of five bytes.  A program counter
between the two bounds is not stopped, and what lies there in `m_code` was never loaded.
No instruction computes a program counter: one that is executed leads to the next index or,
if it is a branch, to its target.  `Closed` says of an instruction that neither lies between
the bounds.
-/

namespace Ooows.Net

open Lib

namespace Sched

/-- The index of the instruction that the interpreter's thread executes next. -/
def executes (s : Sched) : Option Nat :=
  if s.phase = .run ∧ s.eng.pcCtx s.eng.currentCtx < s.eng.codeLen then
    some (s.eng.pcCtx s.eng.currentCtx).toNat
  else none

/-- An image was loaded and no instruction executed; registers and memory are arbitrary. -/
structure Loaded (image : List UInt8) (s : Sched) : Prop where
  phase : s.phase = .look
  done : s.eng.done = false
  codeLen : s.eng.codeLen = image.length.toUInt32
  code : ∀ k < image.length, s.eng.codeByte k = image.getD k 0
  pcCtx : ∀ c, s.eng.pcCtx c = 0

/-- A program counter names a loaded instruction, or is one that stops the engine. -/
def Within (image : List UInt8) (pc : UInt32) : Prop :=
  pc.toNat < image.length / 5 ∨ image.length ≤ pc.toNat

instance (image : List UInt8) (pc : UInt32) : Decidable (Within image pc) :=
  inferInstanceAs (Decidable (_ ∨ _))

/-- The instruction at an index leads to loaded instructions only, or stops the engine: it is not
the last one, unless it always branches, and a branch has its target not between the bounds. -/
def Closed (image : List UInt8) (pc : Nat) : Option (Instruction (Fin 4096)) → Prop
  | some (.branch opcode _ _ target) =>
    (target.val < image.length / 5 ∨ image.length ≤ target.val) ∧
      (opcode ≠ .br → pc + 1 < image.length / 5)
  | _ => pc + 1 < image.length / 5

instance (image : List UInt8) (pc : Nat) (inst : Option (Instruction (Fin 4096))) :
    Decidable (Closed image pc inst) := by
  unfold Closed
  split <;> infer_instance

/-- The instruction that is executed next, as it is in `m_code`, is closed. -/
def RunsClosed (image : List UInt8) (s : Sched) : SchedAct → Prop
  | .interp _ => ∀ pc ∈ s.executes, Closed image pc (s.eng.fetch pc)
  | _ => True

instance (image : List UInt8) (s : Sched) (a : SchedAct) : Decidable (RunsClosed image s a) :=
  match a with
  | .interp _ => inferInstanceAs (Decidable (∀ pc ∈ s.executes, _))
  | .memory _ | .take _ | .serve _ _ _ | .finish _ | .ring _ _ | .csr _ _ | .mac _ => .isTrue trivial

theorem Loaded.init (image : List UInt8) (uninit : Nat → UInt8) (lastAlu : UInt32)
    (mac : List UInt8) : Loaded image (init image uninit lastAlu mac) where
  phase := rfl
  done := rfl
  codeLen := rfl
  code k hk := by
    have hcode : (Sched.init image uninit lastAlu mac).eng.code (k / 4) =
        Engine.codeWord image uninit (k / 4) := by
      simp [Sched.init, Engine.init, Engine.code]
    exact codeByte_eq hcode hk
  pcCtx _ := rfl

/-! ## program counters -/

/-- An instruction moves the program counter of its own context only. -/
theorem pcCtx_interpretInstruction {s : Engine} {inst : Option (Instruction (Fin 4096))}
    (h : inst.bind s.issueOf = none) (uninit : UInt64) :
    (∀ c ≠ s.currentCtx, (s.interpretInstruction uninit inst).pcCtx c = s.pcCtx c) ∧
      (s.interpretInstruction uninit inst).codeLen = s.codeLen ∧
      (s.interpretInstruction uninit inst).done = s.done := by
  cases inst with
  | none => exact ⟨fun _ _ => rfl, rfl, rfl⟩
  | some inst =>
    cases inst with
    | memory =>
      rw [interpretInstruction_invalid h]
      exact ⟨fun _ _ => rfl, rfl, rfl⟩
    | fifo => cases h
    | alu opcode => cases opcode <;> exact ⟨fun _ _ => rfl, rfl, rfl⟩
    | immediate opcode => cases opcode <;> exact ⟨fun _ _ => rfl, rfl, rfl⟩
    | branch opcode src1 src2 target =>
      simp only [Engine.interpretInstruction, Engine.interpretBranch]
      split
      next => exact ⟨fun c hc => Function.update_of_ne hc .., rfl, rfl⟩
      next => exact ⟨fun _ _ => rfl, rfl, rfl⟩
    | load opcode => cases opcode <;> exact ⟨fun _ _ => rfl, rfl, rfl⟩
    | nop | ctxArb | csr => exact ⟨fun _ _ => rfl, rfl, rfl⟩

/-- It stays where it is, but for a branch, which may go to its target, and always does if it is
unconditional. -/
theorem pcCtx_own {s : Engine} {inst : Option (Instruction (Fin 4096))}
    (h : inst.bind s.issueOf = none) (uninit : UInt64) :
    ((s.interpretInstruction uninit inst).pcCtx s.currentCtx = s.pcCtx s.currentCtx ∧
      ∀ src1 src2 target, inst ≠ some (.branch .br src1 src2 target)) ∨
    ∃ opcode src1 src2 target, inst = some (.branch opcode src1 src2 target) ∧
      (s.interpretInstruction uninit inst).pcCtx s.currentCtx = target.val.toUInt32 := by
  cases inst with
  | none => exact .inl ⟨rfl, by simp⟩
  | some inst =>
    cases inst with
    | memory =>
      rw [interpretInstruction_invalid h]
      exact .inl ⟨rfl, by simp⟩
    | fifo => cases h
    | alu opcode => cases opcode <;> exact .inl ⟨rfl, by simp⟩
    | immediate opcode => cases opcode <;> exact .inl ⟨rfl, by simp⟩
    | branch opcode src1 src2 target =>
      simp only [Engine.interpretInstruction, Engine.interpretBranch]
      split
      next => exact .inr ⟨opcode, src1, src2, target, rfl, Function.update_self ..⟩
      next hstay =>
        refine .inl ⟨rfl, fun _ _ _ heq => ?_⟩
        cases heq
        exact hstay rfl
    | load opcode => cases opcode <;> exact .inl ⟨rfl, by simp⟩
    | nop | ctxArb | csr => exact .inl ⟨rfl, by simp⟩

theorem executes_eq_some {s : Sched} {pc : Nat} : s.executes = some pc ↔
    s.phase = .run ∧ s.eng.pcCtx s.eng.currentCtx < s.eng.codeLen ∧
      (s.eng.pcCtx s.eng.currentCtx).toNat = pc := by
  rw [executes, Option.ite_none_right_eq_some, Option.some.injEq, and_assoc]

/-! ## the invariant -/

/-- While the engine runs, all program counters are within the image. -/
structure Bounded (image : List UInt8) (s : Sched) : Prop where
  codeLen : s.eng.codeLen.toNat = image.length
  pcCtx : s.eng.done = true ∨ ∀ c, Within image (s.eng.pcCtx c)
  look : s.eng.done = true → s.phase = .look

variable {image : List UInt8}

theorem Bounded.within {s : Sched} (h : Bounded image s) (hrun : s.phase = .run)
    (c : Ctx) : Within image (s.eng.pcCtx c) := by
  refine h.pcCtx.resolve_left (fun hdone => ?_) c
  cases hrun.symm.trans (h.look hdone)

/-- The program counter of the context that moved is within the image, and so are the
others'. -/
theorem within_of_moved {s t : Engine} (h : ∀ c, Within image (s.pcCtx c))
    (hother : ∀ c ≠ s.currentCtx, t.pcCtx c = s.pcCtx c)
    (hown : Within image (t.pcCtx s.currentCtx)) (c : Ctx) : Within image (t.pcCtx c) := by
  by_cases hc : c = s.currentCtx
  · rw [hc]
    exact hown
  · rw [hother c hc]
    exact h c

/-- The next index of an instruction that does not branch. -/
theorem within_next {pc : UInt32}
    (h : pc.toNat + 1 < image.length / 5) (hlength : image.length ≤ 5120) :
    Within image (pc + 1) := by
  have hadd : (pc + 1).toNat = pc.toNat + 1 := by
    rw [UInt32.toNat_add]
    exact Nat.mod_eq_of_lt (show pc.toNat + 1 < 2 ^ 32 by omega)
  exact .inl (hadd ▸ h)

/-- A branch that is closed leads to a target that is. -/
theorem within_target {target : Fin 4096}
    (h : target.val < image.length / 5 ∨ image.length ≤ target.val) :
    Within image target.val.toUInt32 := by
  have hval : target.val.toUInt32.toNat = target.val :=
    UInt32.toNat_ofNat_of_lt' (Nat.lt_trans target.isLt (by decide))
  rw [Within, hval]
  exact h

/-- **Where a closed instruction leads.** -/
theorem Closed.within {s : Engine} {pc : UInt32}
    {inst : Option (Instruction (Fin 4096))} (h : Closed image pc.toNat inst)
    (hlength : image.length ≤ 5120) (hissue : inst.bind s.issueOf = none)
    (hpc : s.pcCtx s.currentCtx = pc + 1) (uninit : UInt64) :
    Within image ((s.interpretInstruction uninit inst).pcCtx s.currentCtx) := by
  rcases pcCtx_own hissue uninit with ⟨hstays, hnot⟩ | ⟨opcode, src1, src2, target, rfl, hgoes⟩
  · rw [hstays, hpc]
    refine within_next ?_ hlength
    cases inst with
    | none => exact h
    | some inst =>
      cases inst with
      | branch opcode src1 src2 target =>
        exact h.2 fun hbr => hnot src1 src2 target (hbr ▸ rfl)
      | _ => exact h
  · rw [hgoes]
    exact within_target h.1

/-- An instruction that issues a job does not branch. -/
theorem Closed.next {s : Engine} {pc : Nat}
    {inst : Option (Instruction (Fin 4096))} {issue : Issue} (h : Closed image pc inst)
    (hissue : inst.bind s.issueOf = some issue) : pc + 1 < image.length / 5 := by
  obtain ⟨inst, rfl, hsome⟩ := Option.bind_eq_some_iff.1 hissue
  cases inst with
  | memory => exact h
  | fifo => exact h
  | alu | immediate | branch | load | nop | ctxArb | csr => cases hsome

theorem Bounded.turn {s t : Sched} {uninit : UInt64} (h : Bounded image s)
    (hlength : image.length ≤ 5120) (hclosed : RunsClosed image s (.interp uninit))
    (ht : s.interp uninit = some t) : Bounded image t := by
  have hexecuted : s.phase = .run → s.eng.pcCtx s.eng.currentCtx < s.eng.codeLen →
      Closed image (s.eng.pcCtx s.eng.currentCtx).toNat
        (s.eng.fetch (s.eng.pcCtx s.eng.currentCtx).toNat) :=
    fun hrun hpc => hclosed _ (executes_eq_some.2 ⟨hrun, hpc, rfl⟩)
  cases turn_of_interp ht with
  | pass hphase => exact ⟨h.codeLen, h.pcCtx, fun _ => hphase⟩
  | find hphase hdone =>
    refine ⟨h.codeLen, h.pcCtx, fun hdone' => ?_⟩
    cases hdone.symm.trans hdone'
  | stop => exact ⟨h.codeLen, .inl rfl, fun _ => rfl⟩
  | @mark eng issue hphase hpc heng hissue =>
    subst heng
    refine ⟨h.codeLen, .inr ?_, fun hdone => ?_⟩
    · refine within_of_moved (h.within hphase) (fun c hc => Function.update_of_ne hc ..) ?_
      have hnext : (s.eng.setPc (s.eng.pcCtx s.eng.currentCtx + 1)).pcCtx s.eng.currentCtx =
          s.eng.pcCtx s.eng.currentCtx + 1 := Function.update_self ..
      show Within image ((s.eng.setPc (s.eng.pcCtx s.eng.currentCtx + 1)).pcCtx _)
      rw [hnext]
      exact within_next ((hexecuted hphase hpc).next hissue) hlength
    · cases hphase.symm.trans (h.look hdone)
  | @execute eng hphase hpc heng hissue =>
    subst heng
    obtain ⟨hother, hlen, hdone⟩ := pcCtx_interpretInstruction hissue uninit
    refine ⟨hlen ▸ h.codeLen, .inr ?_, fun _ => rfl⟩
    refine within_of_moved (h.within hphase) (fun c hc => ?_) ?_
    · exact (hother c hc).trans (Function.update_of_ne hc ..)
    · exact (hexecuted hphase hpc).within hlength hissue (Function.update_self ..) uninit
  | @put issue hphase =>
    refine ⟨?_, ?_, fun hdone => ?_⟩
    · cases issue <;> exact h.codeLen
    · cases issue <;> exact h.pcCtx
    · have hs : s.eng.done = true := by cases issue <;> exact hdone
      cases hphase.symm.trans (h.look hs)
  | swap hphase => exact ⟨h.codeLen, h.pcCtx, fun _ => rfl⟩

theorem Bounded.step {s t : Sched} {a : SchedAct} (h : Bounded image s)
    (hlength : image.length ≤ 5120) (hc : s.Contained a) (hclosed : RunsClosed image s a)
    (ht : s.step a = some t) : Bounded image t := by
  by_cases ha : ∃ uninit, a = .interp uninit
  · obtain ⟨uninit, rfl⟩ := ha
    exact h.turn hlength hclosed ht
  · obtain ⟨hphase, -, hpc, hlen, hdone⟩ := step_control hc ht fun uninit hu => ha ⟨uninit, hu⟩
    exact ⟨hlen ▸ h.codeLen, by rw [hdone, hpc]; exact h.pcCtx, by rw [hdone, hphase]; exact h.look⟩

theorem Bounded.loaded {s : Sched} (hlength : image.length ≤ 5120)
    (hwhole : image = [] ∨ 5 ≤ image.length) (h : Loaded image s) : Bounded image s := by
  refine ⟨?_, .inr fun c => ?_, fun _ => h.phase⟩
  · rw [h.codeLen, UInt32.toNat_ofNat_of_lt']
    exact Nat.lt_of_le_of_lt hlength (by decide)
  · rw [h.pcCtx c, Within]
    rcases hwhole with rfl | hlen
    · exact .inr (Nat.zero_le _)
    · exact .inl (Nat.div_pos hlen (by decide))

/-- A program counter that is not one of the program stops the engine. -/
theorem Bounded.stops {s : Sched} (h : Bounded image s) (hrun : s.phase = .run)
    (hpc : image.length / 5 ≤ (s.eng.pcCtx s.eng.currentCtx).toNat) (uninit : UInt64) :
    ∃ t, s.interp uninit = some t ∧ t.eng.done = true := by
  have hstop : s.eng.codeLen ≤ s.eng.pcCtx s.eng.currentCtx := by
    rw [UInt32.le_iff_toNat_le, h.codeLen]
    exact (h.within hrun _).resolve_left (Nat.not_lt.2 hpc)
  refine ⟨{ s with
    eng := { s.eng.setPc (s.eng.pcCtx s.eng.currentCtx + 1) with done := true }
    phase := .look }, ?_, rfl⟩
  simp only [interp, hrun]
  exact if_pos hstop

/-- **The interpreter executes loaded instructions only**, in every run in which no worker
leaves its memory and each instruction that is executed is closed.  The image holds a whole
instruction or none, and the registers and memories are arbitrary at the start. -/
theorem executes_loaded {s t : Sched} {acts : List SchedAct}
    (hlength : image.length ≤ 5120) (hwhole : image = [] ∨ 5 ≤ image.length)
    (hs : Loaded image s)
    (h : Run (Guarded (fun s a => s.Contained a ∧ RunsClosed image s a)
      fun s a t => s.step a = some t) s acts t) :
    (∀ pc, t.executes = some pc → pc < image.length / 5) ∧
    (t.phase = .run → image.length / 5 ≤ (t.eng.pcCtx t.eng.currentCtx).toNat →
      ∀ uninit, ∃ u, t.step (.interp uninit) = some u ∧ u.eng.done = true) := by
  have hinv : Bounded image t :=
    h.invariant (fun _ _ _ hb hstep => hb.step hlength hstep.1.1 hstep.1.2 hstep.2)
      (.loaded hlength hwhole hs)
  refine ⟨fun pc hpc => ?_, fun hrun hout uninit => hinv.stops hrun hout uninit⟩
  obtain ⟨hrun, hlt, rfl⟩ := executes_eq_some.1 hpc
  refine Nat.lt_of_not_le fun hout => ?_
  -- such a program counter would have stopped the engine
  rw [UInt32.lt_iff_toNat_lt, hinv.codeLen] at hlt
  exact (hinv.within hrun _).elim (Nat.not_lt.2 hout) (Nat.not_le.2 hlt)

/-- A branch to itself. -/
def spin : List UInt8 := (emit [.branch .br Firmware.dontCare Firmware.dontCare 0]).getD []

theorem executes_loaded_spin : ∃ t,
    exec step (init spin (fun _ => 0) 0 []) (List.replicate 3 (.interp 0)) = some t ∧
    t.executes = some 0 ∧ 0 < spin.length / 5 := by
  have hexec : (exec (fun s a => if s.Contained a ∧ RunsClosed spin s a then s.step a else none)
      (init spin (fun _ => 0) 0 []) (List.replicate 3 (.interp 0))).any
      (fun t => t.executes = some 0) = true := by
    decide +kernel
  obtain ⟨t, ht, hpc⟩ := (Option.any_eq_true _ _).1 hexec
  have hrun := run_guarded_of_exec ht
  refine ⟨t, (run_iff_exec step).1 (hrun.mono fun _ _ _ hstep => hstep.2), by simpa using hpc, ?_⟩
  exact (executes_loaded (by decide +kernel) (.inr (by decide +kernel)) (.init ..) hrun).1 0
    (by simpa using hpc)

/-- A `nop`. -/
def oneNop : List UInt8 := (emit [.nop]).getD []

/-- **The engine runs off the end of the program**: behind a single `nop`, the only
instruction of its image, it executes instruction 1, of which no byte was loaded. -/
theorem executes_behind_nop : ∃ t,
    exec step (init oneNop (fun _ => 0xff) 0 []) (List.replicate 3 (.interp 0)) = some t ∧
    oneNop.length / 5 = 1 ∧ t.executes = some 1 ∧ t.eng.codeByte 5 = 0xff := by
  have hexec : (exec step (init oneNop (fun _ => 0xff) 0 []) (List.replicate 3 (.interp 0))).any
      (fun t => decide (oneNop.length / 5 = 1 ∧ t.executes = some 1 ∧ t.eng.codeByte 5 = 0xff)) =
        true := by
    decide +kernel
  obtain ⟨t, ht, hend⟩ := (Option.any_eq_true _ _).1 hexec
  exact ⟨t, ht, of_decide_eq_true hend⟩

end Sched

end Ooows.Net
