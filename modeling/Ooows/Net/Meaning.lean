import Ooows.Net.Interpreter
import Ooows.Net.Layout
import Ooows.Net.LongAddition

/-!
# Ooows.Net.Meaning

What a microcode program means, read off its source, and that the assembled image means the
same.

The source machine has no code in memory: a program counter is the number of a statement, and
a branch goes to the statement that has its label.  It is undefined where a program leaves
its last statement, and where a transfer leaves scratch memory or the registers; what the
engine does then depends on the bytes around the code.  As long as it is defined, the engine
with the assembled image goes through the same states (`assembled_runs_source`), whatever
the workers and the other threads do in between.
-/

namespace Ooows.Net

open Lib Lib.Bits

variable {ι : Type} [DecidableEq ι]

/-! ## the source -/

/-- The statement that a target names. -/
def Target.place (source : List (Statement ι)) : Target ι → Option Nat
  | .label name => source.findIdx? fun s => s.label = some name
  | .literal n => some n

/-- The instruction with its target in place. -/
def Instruction.placed (source : List (Statement ι)) :
    Instruction (Target ι) → Option (Instruction (Fin 4096))
  | .branch opcode src1 src2 target =>
    (target.place source).bind fun n =>
      if h : n < 4096 then some (.branch opcode src1 src2 ⟨n, h⟩) else none
  | inst => some (inst.mapTarget fun _ => 0)

def sourceInst (source : List (Statement ι)) (pc : Nat) : Option (Instruction (Fin 4096)) :=
  source[pc]?.bind fun s => s.inst.placed source

/-! ## the two machines -/

/-- A turn of the interpreter, a step of a worker, or what the host, the PHY and the core
make of the engine. -/
inductive EngineAct
  | turn (uninit : UInt64)
  | worker (memory : MemOpcode)
  | peer (t : Engine)

def Engine.act (s : Engine) : EngineAct → Option Engine
  | .turn uninit => some (s.interpreterStep uninit)
  | .worker memory => s.workerStep memory
  | .peer t => some t

/-- The word that a worker transfers next is a word of its memory, and goes to or comes from
a register. -/
def Engine.TransferOk (s : Engine) (memory : MemOpcode) : Prop :=
  ∀ p ∈ s.serving memory, p.2 < p.1.count.toNat → p.1.startReg + p.2 < 256 ∧
    (memory = .scratch → (p.1.memOffset + p.2.toUInt32).toNat < 1024)

instance (s : Engine) (memory : MemOpcode) : Decidable (s.TransferOk memory) :=
  inferInstanceAs (Decidable (∀ p ∈ s.serving memory, _))

/-- The other threads leave the code alone. -/
def Engine.KeepsCode (s t : Engine) : Prop :=
  t.codeLen = s.codeLen ∧ ∀ i < 1280, t.code i = s.code i

instance (s t : Engine) : Decidable (s.KeepsCode t) := inferInstanceAs (Decidable (_ ∧ _))

/-- The machine that runs the source; `none` where the source has no meaning. -/
def sourceAct (source : List (Statement ι)) (s : Engine) : EngineAct → Option Engine
  | .turn uninit =>
    if s.done then some s
    else if s.ctxReady s.currentCtx then
      (sourceInst source (s.pcCtx s.currentCtx).toNat).map fun inst =>
        s.atNext.interpretInstruction uninit (some inst)
    else some s.nextContext
  | .worker memory => if s.TransferOk memory then s.workerStep memory else none
  | .peer t => if s.KeepsCode t then some t else none

/-! ## what keeps the code -/

namespace Engine.KeepsCode

variable {s t u : Engine}

theorem refl (s : Engine) : s.KeepsCode s := ⟨rfl, fun _ _ => rfl⟩

theorem trans (h : s.KeepsCode t) (h' : t.KeepsCode u) : s.KeepsCode u :=
  ⟨h'.1.trans h.1, fun i hi => (h'.2 i hi).trans (h.2 i hi)⟩

theorem setObj (s : Engine) {k : Nat} (hk : k < 1281) (v : UInt32) : s.KeepsCode (s.setObj k v) :=
  ⟨rfl, fun i _ => Function.update_of_ne (show 1281 + i ≠ k by omega) ..⟩

theorem setReg (s : Engine) {r : Nat} (hr : r < 256) (v : UInt32) : s.KeepsCode (s.setReg r v) :=
  setObj s (by omega) v

theorem swapOut (s : Engine) (token : Token) : s.KeepsCode (s.swapOut token) := by
  cases token <;> exact refl s

/-- No instruction writes to the code. -/
theorem interpretInstruction (s : Engine) (uninit : UInt64) (inst : Instruction (Fin 4096)) :
    s.KeepsCode (s.interpretInstruction uninit (some inst)) := by
  have hreg := fun r => absoluteRegister_lt s.currentCtx r
  cases inst with
  | alu opcode dst src1 type src2 shift numShift =>
    cases opcode with
    | alu | aluShf => exact setReg s (hreg dst) _
    | dblShf => exact refl s
  | immediate opcode dst ival rot => cases opcode <;> exact setReg s (hreg dst) _
  | memory opcode direction xferReg addr1 addr2 count token =>
    dsimp only [Engine.interpretInstruction, Engine.interpretMemory]
    generalize (if count = 0 then s.lastAlu.toUInt8 else count.val.toUInt8) = n
    cases direction with
    | read | write =>
      dsimp only
      split
      next => exact trans (refl s) (swapOut _ token)
      next => exact refl s
  | branch opcode src1 src2 target =>
    dsimp only [Engine.interpretInstruction, Engine.interpretBranch]
    split <;> exact refl s
  | load opcode dst mask src rot =>
    cases opcode with
    | ldField => exact setReg s (hreg dst) _
    | ldFieldWClr => exact (setReg s (hreg dst) 0).trans (setReg _ (hreg dst) _)
  | fifo opcode size addr1 addr2 token => exact trans (refl s) (swapOut _ token)
  | nop | ctxArb => exact refl s
  | csr dst csrNum => exact setReg s (hreg dst) _

/-- A worker that stays in its memory and the registers does not either. -/
theorem workerStep {memory : MemOpcode} (hok : s.TransferOk memory)
    (h : s.workerStep memory = some t) : s.KeepsCode t := by
  unfold Engine.workerStep at h
  split at h
  next =>
    split at h
    next => cases h
    next => cases h; exact refl s
  next job i hserving =>
    split at h
    next hi =>
      cases h
      obtain ⟨hreg, hscratch⟩ := hok (job, i) hserving hi
      dsimp only [Engine.transfer]
      cases job.direction with
      | read => exact setReg s hreg _
      | write =>
        cases memory with
        | scratch => exact setObj s (Nat.lt_trans (hscratch rfl) (by decide)) _
        | ram => exact refl s
    next =>
      cases h
      cases job.callback <;> exact refl s

end Engine.KeepsCode

/-! ## the image -/

/-- The code is the image. -/
def Engine.Holds (image : List UInt8) (s : Engine) : Prop :=
  s.codeLen.toNat = image.length ∧ ∀ k < image.length, s.codeByte k = image.getD k 0

theorem Engine.Holds.init {image : List UInt8} (hsize : image.length ≤ 5120) (uninit : Nat → UInt8)
    (lastAlu : UInt32) (mac : List UInt8) : (Engine.init image uninit lastAlu mac).Holds image := by
  refine ⟨UInt32.toNat_ofNat_of_lt' (Nat.lt_of_le_of_lt hsize (by decide)), fun k hk => ?_⟩
  have hcode : (Engine.init image uninit lastAlu mac).code (k / 4) =
      Engine.codeWord image uninit (k / 4) := by
    simp [Engine.init, Engine.code]
  exact codeByte_eq hcode hk

theorem Engine.Holds.keep {image : List UInt8} {s t : Engine} (hsize : image.length ≤ 5120)
    (h : s.Holds image) (hkeeps : s.KeepsCode t) : t.Holds image := by
  refine ⟨hkeeps.1 ▸ h.1, fun k hk => ?_⟩
  rw [← h.2 k hk, Engine.codeByte, Engine.codeByte, hkeeps.2 (k / 4) (by omega)]

/-- The engine reads the bytes of the image. -/
theorem Engine.Holds.fetch {image : List UInt8} {s : Engine} {pc : Nat} (h : s.Holds image)
    (hpc : 5 * pc + 5 ≤ image.length) :
    s.fetch pc = decode (ofBytes ((image.drop (5 * pc)).take 5)) := by
  have hbytes : ((List.range 5).map fun i => s.codeByte (5 * pc + i)) =
      (image.drop (5 * pc)).take 5 := by
    refine List.ext_getElem (by simp; omega) fun i h₁ h₂ => ?_
    simp only [List.length_map, List.length_range] at h₁
    have hk : 5 * pc + i < image.length := by omega
    rw [List.getElem_map, List.getElem_range, h.2 _ hk, List.getElem_take, List.getElem_drop,
      List.getD_eq_getElem _ _ hk]
  rw [Engine.fetch, hbytes]

/-- A target that is placed is the one that the assembler found. -/
theorem means_of_place {source : List (Statement ι)} {target : Target ι} {n : Nat}
    (h : target.place source = some n) : target.Means source n := by
  cases target with
  | literal m => exact (Option.some.inj h).symm
  | label name =>
    obtain ⟨hn, hlabel, -⟩ := List.findIdx?_eq_some_iff_getElem.1 h
    exact ⟨source[n], List.getElem?_eq_getElem hn, of_decide_eq_true hlabel⟩

/-- A label names one statement. -/
theorem Means.unique {source : List (Statement ι)} {target : Target ι} {m n : Nat}
    (hnodup : (source.filterMap Statement.label).Nodup) (hm : target.Means source m)
    (hn : target.Means source n) : m = n := by
  cases target with
  | literal k => exact Eq.trans hm (Eq.symm hn)
  | label name =>
    have hlookup := (lookup_definitions hnodup).2 hm
    exact Option.some.inj (hlookup.symm.trans ((lookup_definitions hnodup).2 hn))

/-- What the assembler wrote for a statement is what the statement means. -/
theorem placed_of_resolves {source : List (Statement ι)} {inst : Instruction (Target ι)}
    {i j : Instruction (Fin 4096)} (hnodup : (source.filterMap Statement.label).Nodup)
    (hi : inst.placed source = some i)
    (hj : inst.Resolves (fun target n => target.Means source n) j) : i = j := by
  cases inst with
  | branch opcode src1 src2 target =>
    obtain ⟨n, rfl, hn⟩ := hj
    simp only [Instruction.placed, Option.bind_eq_some_iff, Option.dite_none_right_eq_some] at hi
    obtain ⟨m, hm, hlt, hi⟩ := hi
    obtain rfl : m = n.val := Means.unique hnodup (means_of_place hm) hn
    exact (Option.some.inj hi).symm
  | _ =>
    cases hi
    exact hj.symm

section

variable {source : List (Statement ι)} {image : List UInt8} {s t : Engine}

theorem fetch_of_sourceInst (hassemble : assemble source = some image) (hliteral : NoLiteral source)
    (h : s.Holds image) {pc : Nat} {inst : Instruction (Fin 4096)}
    (hinst : sourceInst source pc = some inst) : s.fetch pc = some inst ∧ pc < s.codeLen.toNat := by
  have hlaid := laidOut_of_noLiteral hassemble hliteral
  obtain ⟨stmt, hstmt, hplaced⟩ := Option.bind_eq_some_iff.1 hinst
  obtain ⟨inst', hdecode, hresolves⟩ := hlaid.inst pc stmt hstmt
  have hpc := (List.getElem?_eq_some_iff.1 hstmt).1
  have hlength := hlaid.length
  rw [h.fetch (by omega), hdecode,
    placed_of_resolves (assemble_eq_some.1 hassemble).2.1 hplaced hresolves, h.1]
  exact ⟨rfl, by omega⟩

/-- **One step** of the source machine is one of the engine. -/
theorem act_of_sourceAct (hassemble : assemble source = some image) (hliteral : NoLiteral source)
    (hsize : image.length ≤ 5120) (h : s.Holds image) {a : EngineAct}
    (hstep : sourceAct source s a = some t) : s.act a = some t ∧ t.Holds image := by
  cases a with
  | turn uninit =>
    simp only [sourceAct] at hstep
    rw [Engine.act, Engine.interpreterStep]
    split at hstep
    next hdone =>
      cases hstep
      rw [if_pos hdone]
      exact ⟨rfl, h⟩
    next hdone =>
      rw [if_neg hdone]
      split at hstep
      next hready =>
        obtain ⟨inst, hinst, rfl⟩ := Option.map_eq_some_iff.1 hstep
        obtain ⟨hfetch, hlt⟩ := fetch_of_sourceInst hassemble hliteral h hinst
        have hcode : s.atNext.fetch (s.pcCtx s.currentCtx).toNat = some inst := hfetch
        have hpc : ¬ s.pcCtx s.currentCtx ≥ s.codeLen := by
          rw [ge_iff_le, UInt32.le_iff_toNat_le]
          omega
        refine ⟨?_, h.keep hsize (.trans (.refl s) (.interpretInstruction s.atNext uninit inst))⟩
        rw [if_pos hready]
        change some (if s.pcCtx s.currentCtx ≥ s.codeLen then _ else
          s.atNext.interpretInstruction uninit (s.atNext.fetch (s.pcCtx s.currentCtx).toNat)) = _
        rw [if_neg hpc, hcode]
      next hready =>
        cases hstep
        rw [if_neg hready]
        exact ⟨rfl, h.keep hsize (.refl s)⟩
  | worker memory =>
    obtain ⟨hok, hstep⟩ := Option.ite_none_right_eq_some.1 hstep
    exact ⟨hstep, h.keep hsize (.workerStep hok hstep)⟩
  | peer u =>
    obtain ⟨hok, hstep⟩ := Option.ite_none_right_eq_some.1 hstep
    cases hstep
    exact ⟨rfl, h.keep hsize hok⟩

/-- **The assembled image runs as its source says.**  For every program without numeric
targets, and for every order of turns of the interpreter, steps of the workers and actions
of other threads, the engine goes where the source machine goes. -/
theorem assembled_runs_source (hassemble : assemble source = some image)
    (hliteral : NoLiteral source) (hsize : image.length ≤ 5120) {uninit : Nat → UInt8}
    {lastAlu : UInt32} {mac : List UInt8} {acts : List EngineAct}
    (hrun : exec (sourceAct source) (Engine.init image uninit lastAlu mac) acts = some t) :
    exec Engine.act (Engine.init image uninit lastAlu mac) acts = some t := by
  have hsim : ∀ s : Engine, s.Holds image → exec (sourceAct source) s acts = some t →
      exec Engine.act s acts = some t := by
    clear hrun
    induction acts with
    | nil => exact fun _ _ h => h
    | cons a acts ih =>
      intro s hs hrun
      obtain ⟨u, hu, hrest⟩ := Option.bind_eq_some_iff.1 hrun
      obtain ⟨hact, hholds⟩ := act_of_sourceAct hassemble hliteral hsize hs hu
      rw [exec, hact]
      exact ih u hholds hrest
  exact hsim _ (.init hsize uninit lastAlu mac) hrun

end

/-- `loop: immed[reg_0, 7]`, `br[loop]`. -/
def loopSource : List (Statement Unit) := [
  ⟨some (), .immediate .immed (Firmware.reg 0) 7 .noRot⟩,
  ⟨none, .branch .br Firmware.dontCare Firmware.dontCare (.label ())⟩]

/-- Three turns of the loop, with a look of the RAM worker at a job of the host. -/
theorem assembled_runs_source_loop : ∃ image t,
    assemble loopSource = some image ∧
    exec Engine.act (Engine.init image (fun _ => 0) 0 [])
      [.turn 0, .turn 0, .peer { Engine.init image (fun _ => 0) 0 [] with
        memQueue := fun _ => [⟨.read, 0, 192, 1, none⟩] }, .worker .ram, .worker .ram, .turn 0] =
      some t := by
  have himage : assemble loopSource = some ((assemble loopSource).getD []) := by decide +kernel
  have hsome : (exec (sourceAct loopSource)
      (Engine.init ((assemble loopSource).getD []) (fun _ => 0) 0 [])
      [.turn 0, .turn 0, .peer { Engine.init ((assemble loopSource).getD []) (fun _ => 0) 0 [] with
        memQueue := fun _ => [⟨.read, 0, 192, 1, none⟩] }, .worker .ram, .worker .ram,
        .turn 0]).isSome = true := by
    decide +kernel
  obtain ⟨t, ht⟩ := Option.isSome_iff_exists.1 hsome
  exact ⟨_, t, himage, assembled_runs_source himage
    (by simp [NoLiteral, loopSource, Instruction.target?]) (by decide +kernel) ht⟩

end Ooows.Net
