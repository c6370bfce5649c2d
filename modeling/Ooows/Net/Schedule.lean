import Ooows.Lib.Wakeup
import Ooows.Lib.Run
import Ooows.Net.Queues
import Mathlib.Data.List.Perm.Basic

/-!
# Ooows.Net.Schedule

The microengine's threads, at the grain at which they see each other.

An instruction that issues a job does so in several steps: it marks its context as not
ready, puts the job into its queue and goes on to the next context, while the workers
and the FIFO peers (the PHY and the core) are already at the job.  `Sched` has the
interpreter's thread in these phases; `interpreterStep_phases` says that together they
are a step of `Engine.interpreterStep`.

A peer takes a job, may store a size into the job's register and a packet into RAM, and
calls the job's callback once.

Behind `m_code` lie the ready flags and `m_code_len`, and no worker checks an offset.
The scratch worker therefore sees them as words 2561 and 2562.  What lies further behind
is not modelled, and neither is what lies behind RAM: a run whose transfers stay before
(`Contained`) does not touch it.
-/

namespace Ooows.Net

open Lib Lib.Wakeup

/-- A job on its way to its queue. -/
inductive Issue
  | mem (memory : MemOpcode) (job : MemoryJob)
  | fifo (opcode : FifoOpcode) (job : FifoJob)
  deriving DecidableEq, Repr

/-- The context that the job's callback wakes. -/
def Issue.owner : Issue → Option Ctx
  | .mem _ job => job.callback
  | .fifo _ job => job.callback

/-- Where the interpreter's thread is. -/
inductive Phase
  /-- In `thread_ready_to_run`, or before it. -/
  | look
  /-- A context that is ready was found. -/
  | run
  /-- A job is to be put into its queue; its owner is marked. -/
  | put (issue : Issue)
  /-- The job is in its queue. -/
  | swap
  deriving DecidableEq, Repr

structure Sched where
  eng : Engine
  phase : Phase
  /-- The jobs the peers have taken and not finished. -/
  taken : List FifoJob

inductive SchedAct
  | interp (uninit : UInt64)
  | memory (memory : MemOpcode)
  /-- A peer takes a job, -/
  | take (opcode : FifoOpcode)
  /-- stores a size into the register of a job it has, and a packet into RAM, -/
  | serve (n : Nat) (size : UInt32) (ram : ByteMem)
  /-- and calls its callback. -/
  | finish (n : Nat)
  /-- The core stores a word into the transmit ring. -/
  | ring (word : Fin 1024) (v : UInt32)
  | csr (newVal : Bool) (mask : UInt32)
  | mac (newMac : List UInt8)

namespace Engine

/-! ## issuing a job -/

/-- The job that an instruction issues. -/
def issueOf (s : Engine) : Instruction (Fin 4096) → Option Issue
  | .memory opcode direction xferReg addr1 addr2 count token =>
    let xferReg := absoluteRegister s.currentCtx xferReg
    let count := if count = 0 then s.lastAlu.toUInt8 else count.val.toUInt8
    let valid := match direction with
      | .read => isMemoryReadRegister xferReg
      | .write => isMemoryWriteRegister xferReg
    if valid then
      some (.mem opcode ⟨direction,
        s.reg (absoluteRegister s.currentCtx addr1) + s.reg (absoluteRegister s.currentCtx addr2),
        xferReg, count, s.callbackFor token⟩)
    else none
  | .fifo opcode size addr1 addr2 token =>
    some (.fifo opcode ⟨absoluteRegister s.currentCtx size,
      s.reg (absoluteRegister s.currentCtx addr1) + s.reg (absoluteRegister s.currentCtx addr2),
      s.callbackFor token⟩)
  | _ => none

/-- Mark the owner of a job as not ready. -/
def disable (s : Engine) (owner : Option Ctx) : Engine :=
  { s with ctxReady := sleep s.ctxReady owner }

/-- Put a job into its queue. -/
def put (s : Engine) : Issue → Engine
  | .mem memory job =>
    { s.record (.issue s.currentCtx memory job) with
      memQueue := Function.update s.memQueue memory (s.memQueue memory ++ [job]) }
  | .fifo opcode job =>
    { s with fifoQueue := Function.update s.fifoQueue opcode (s.fifoQueue opcode ++ [job]) }

/-! ## the words behind the code -/

/-- Word 2561 counted from `m_scratch`: `m_ctx_ready`. -/
def flagsWord (s : Engine) : UInt32 :=
  UInt32.ofNat (Lib.Bits.ofBytes ((List.finRange 4).map fun c => (s.ctxReady c).toUInt8))

/-- A word of the object, from `m_scratch` to `m_code_len`. -/
def objWord (s : Engine) (k : Nat) : UInt32 :=
  if k = 2561 then s.flagsWord else if k = 2562 then s.codeLen else s.obj k

def setObjWord (s : Engine) (k : Nat) (v : UInt32) : Engine :=
  if k = 2561 then { s with ctxReady := fun c => decide (v.toNat / 256 ^ c.val % 256 ≠ 0) }
  else if k = 2562 then { s with codeLen := v }
  else s.setObj k v

/-- The body of the loop of `handle_scratch`, behind the code. -/
def transferBehind (s : Engine) (job : MemoryJob) (i k : Nat) : Engine :=
  match job.direction with
  | .write => s.setObjWord k (s.reg (job.startReg + i))
  | .read => s.setReg (job.startReg + i) (s.objWord k)

/-- `workerStep`, with the words behind the code. -/
def workerStepObj (s : Engine) (memory : MemOpcode) : Option Engine :=
  match memory, s.serving memory with
  | .scratch, some (job, i) =>
    let k := (job.memOffset + i.toUInt32).toNat
    if i < job.count.toNat ∧ 2561 ≤ k then
      let s := s.record (.scratch k)
      some { s.transferBehind job i k with
        serving := Function.update s.serving .scratch (some (job, i + 1)) }
    else s.workerStep .scratch
  | memory, _ => s.workerStep memory

end Engine

namespace Sched

/-! ## the system -/

/-- The interpreter's thread. -/
def interp (s : Sched) (uninit : UInt64) : Option Sched :=
  match s.phase with
  | .look =>
    if s.eng.done then none
    else if s.eng.ctxReady s.eng.currentCtx then some { s with phase := .run }
    else some { s with eng := s.eng.nextContext }
  | .run =>
    let currentPc := s.eng.pcCtx s.eng.currentCtx
    let eng := s.eng.setPc (currentPc + 1)
    if currentPc ≥ eng.codeLen then
      some { s with eng := { eng with done := true }, phase := .look }
    else
      let inst := eng.fetch currentPc.toNat
      match inst.bind eng.issueOf with
      | some issue => some { s with eng := eng.disable issue.owner, phase := .put issue }
      | none => some { s with eng := eng.interpretInstruction uninit inst, phase := .look }
  | .put issue =>
    some { s with
      eng := s.eng.put issue
      phase := if issue.owner = none then .look else .swap }
  | .swap => some { s with eng := s.eng.nextContext, phase := .look }

def step (s : Sched) : SchedAct → Option Sched
  | .interp uninit => s.interp uninit
  | .memory memory => (s.eng.workerStepObj memory).map fun eng => { s with eng := eng }
  | .take opcode =>
    match s.eng.fifoQueue opcode with
    | [] => none
    | job :: rest =>
      some { s with
        eng := { s.eng with fifoQueue := Function.update s.eng.fifoQueue opcode rest }
        taken := s.taken ++ [job] }
  | .serve n size ram =>
    s.taken[n]?.map fun job => { s with eng := { s.eng.setReg job.size size with ram := ram } }
  | .finish n =>
    s.taken[n]?.map fun job =>
      { s with eng := s.eng.callback job.callback, taken := s.taken.eraseIdx n }
  | .ring word v => some { s with eng := s.eng.setObj word.val v }
  | .csr newVal mask => some { s with eng := s.eng.changeCsr newVal mask }
  | .mac newMac => some { s with eng := { s.eng with mac := newMac } }

/-- The engine once its constructor is through. -/
def init (image : List UInt8) (uninit : Nat → UInt8) (lastAlu : UInt32) (mac : List UInt8) :
    Sched where
  eng := Engine.init image uninit lastAlu mac
  phase := .look
  taken := []

/-- The worker's next transfer stays before the ready flags, or inside RAM. -/
def Contained (s : Sched) : SchedAct → Prop
  | .memory memory =>
    match s.eng.serving memory with
    | none => True
    | some (job, i) => i < job.count.toNat →
        (job.memOffset + i.toUInt32).toNat < match memory with
          | .scratch => 2561
          | .ram => 2 ^ 21
  | _ => True

instance (s : Sched) (a : SchedAct) : Decidable (s.Contained a) := by
  unfold Contained
  split
  · split <;> infer_instance
  · infer_instance

/-! ## the phases make a step -/

/-- What the interpreter's thread does next. -/
inductive Turn (s : Sched) (uninit : UInt64) : Sched → Prop
  | pass (hphase : s.phase = .look) (hready : s.eng.ctxReady s.eng.currentCtx = false) :
      Turn s uninit { s with eng := s.eng.nextContext }
  | find (hphase : s.phase = .look) (hdone : s.eng.done = false)
      (hready : s.eng.ctxReady s.eng.currentCtx = true) :
      Turn s uninit { s with phase := .run }
  | stop (hphase : s.phase = .run) (hpc : s.eng.codeLen ≤ s.eng.pcCtx s.eng.currentCtx) :
      Turn s uninit { s with
        eng := { s.eng.setPc (s.eng.pcCtx s.eng.currentCtx + 1) with done := true }
        phase := .look }
  | mark {eng : Engine} {issue : Issue} (hphase : s.phase = .run)
      (hpc : s.eng.pcCtx s.eng.currentCtx < s.eng.codeLen)
      (heng : eng = s.eng.setPc (s.eng.pcCtx s.eng.currentCtx + 1))
      (hissue : (eng.fetch (s.eng.pcCtx s.eng.currentCtx).toNat).bind eng.issueOf = some issue) :
      Turn s uninit { s with eng := eng.disable issue.owner, phase := .put issue }
  | execute {eng : Engine} (hphase : s.phase = .run)
      (hpc : s.eng.pcCtx s.eng.currentCtx < s.eng.codeLen)
      (heng : eng = s.eng.setPc (s.eng.pcCtx s.eng.currentCtx + 1))
      (hissue : (eng.fetch (s.eng.pcCtx s.eng.currentCtx).toNat).bind eng.issueOf = none) :
      Turn s uninit { s with
        eng := eng.interpretInstruction uninit (eng.fetch (s.eng.pcCtx s.eng.currentCtx).toNat)
        phase := .look }
  | put {issue : Issue} (hphase : s.phase = .put issue) :
      Turn s uninit { s with
        eng := s.eng.put issue, phase := if issue.owner = none then .look else .swap }
  | swap (hphase : s.phase = .swap) :
      Turn s uninit { s with eng := s.eng.nextContext, phase := .look }

variable {s t : Sched}

theorem turn_of_interp {uninit : UInt64} (h : s.interp uninit = some t) :
    Turn s uninit t := by
  unfold interp at h
  split at h
  next hphase =>
    split at h
    next => contradiction
    next hdone =>
      split at h
      next hready =>
        cases h
        exact .find hphase (Bool.not_eq_true _ ▸ hdone) hready
      next hready =>
        cases h
        exact .pass hphase (Bool.not_eq_true _ ▸ hready)
  next hphase =>
    dsimp only at h
    split at h
    next hpc =>
      cases h
      exact .stop hphase hpc
    next hpc =>
      split at h
      next issue hissue =>
        cases h
        exact .mark hphase (UInt32.not_le.1 hpc) rfl hissue
      next hissue =>
        cases h
        exact .execute hphase (UInt32.not_le.1 hpc) rfl hissue
  next issue hphase =>
    cases h
    exact .put hphase
  next hphase =>
    cases h
    exact .swap hphase

/-! ## the jobs under way -/

/-- The owner of the job that the interpreter is about to put into a queue. -/
def phaseOwners : Phase → List (Option Ctx)
  | .put issue => [issue.owner]
  | _ => []

/-- The owners of all jobs that are being issued, queued or served. -/
def owners (s : Sched) : List (Option Ctx) :=
  phaseOwners s.phase ++ (s.eng.jobs.map Job.ctx ++ s.taken.map FifoJob.callback)

/-- What a step may do to the ready flags and the jobs. -/
inductive Moves (s t : Sched) : Prop
  | quiet (hready : t.eng.ctxReady = s.eng.ctxReady) (howners : t.owners.Perm s.owners)
  | issue (owner : Option Ctx) (hphase : s.phase = .run) (hput : t.phase ≠ .run)
      (hcur : ∀ c, owner = some c → c = s.eng.currentCtx)
      (hready : t.eng.ctxReady = sleep s.eng.ctxReady owner)
      (howners : t.owners.Perm (owner :: s.owners))
  | finish (owner : Option Ctx) (hready : t.eng.ctxReady = wake s.eng.ctxReady owner)
      (howners : s.owners.Perm (owner :: t.owners))

theorem ctxReady_callback (s : Engine) (owner : Option Ctx) :
    (s.callback owner).ctxReady = wake s.ctxReady owner := by
  cases owner <;> rfl

theorem ctxReady_transfer (s : Engine) (memory : MemOpcode) (job : MemoryJob) (i : Nat) :
    (s.transfer memory job i).ctxReady = s.ctxReady := by
  cases hdir : job.direction with
  | read => rw [transfer_read hdir]; rfl
  | write => rw [transfer_write hdir]; cases memory <;> rfl

theorem jobs_changeCsr (s : Engine) (newVal : Bool) (mask : UInt32) :
    (s.changeCsr newVal mask).jobs = s.jobs ∧
      (s.changeCsr newVal mask).ctxReady = s.ctxReady := by
  cases newVal <;> exact ⟨rfl, rfl⟩

/-- A job comes from the context that issues it. -/
theorem owner_of_issueOf {s : Engine} {inst : Instruction (Fin 4096)} {issue : Issue}
    (h : s.issueOf inst = some issue) {c : Ctx} (hc : issue.owner = some c) : c = s.currentCtx := by
  have hcallback : ∀ token, s.callbackFor token = some c → c = s.currentCtx := by
    intro token htoken
    cases token <;> cases htoken
    rfl
  cases inst with
  | memory opcode direction xferReg addr1 addr2 count token =>
    obtain ⟨-, hsome⟩ := Option.ite_none_right_eq_some.1 h
    cases hsome
    exact hcallback token hc
  | fifo opcode size addr1 addr2 token =>
    cases h
    exact hcallback token hc
  | alu | immediate | branch | load | nop | ctxArb | csr => cases h

/-- A memory instruction whose register is not valid does nothing. -/
theorem interpretInstruction_invalid {s : Engine} {opcode : MemOpcode} {direction : Direction}
    {xferReg addr1 addr2 : Register} {count : Fin 16} {token : Token}
    (h : s.issueOf (.memory opcode direction xferReg addr1 addr2 count token) = none)
    (uninit : UInt64) : s.interpretInstruction uninit
      (some (.memory opcode direction xferReg addr1 addr2 count token)) = s := by
  have hinvalid : ¬ _ := fun hvalid => Option.some_ne_none _ ((if_pos hvalid).symm.trans h)
  exact if_neg hinvalid

/-- An instruction that issues no job changes no flag and no queue. -/
theorem interpretInstruction_frame {s : Engine} {inst : Option (Instruction (Fin 4096))}
    (h : inst.bind s.issueOf = none) (uninit : UInt64) :
    (s.interpretInstruction uninit inst).ctxReady = s.ctxReady ∧
      (s.interpretInstruction uninit inst).jobs = s.jobs := by
  cases inst with
  | none => exact ⟨rfl, rfl⟩
  | some inst =>
    cases inst with
    | memory =>
      rw [interpretInstruction_invalid h]
      exact ⟨rfl, rfl⟩
    | fifo => cases h
    | alu opcode => cases opcode <;> exact ⟨rfl, rfl⟩
    | immediate opcode => cases opcode <;> exact ⟨rfl, rfl⟩
    | branch opcode src1 src2 target =>
      simp only [Engine.interpretInstruction, Engine.interpretBranch]
      split <;> exact ⟨rfl, rfl⟩
    | load opcode => cases opcode <;> exact ⟨rfl, rfl⟩
    | nop | ctxArb | csr => exact ⟨rfl, rfl⟩

theorem jobs_put (s : Engine) (issue : Issue) :
    ((s.put issue).jobs.map Job.ctx).Perm (issue.owner :: s.jobs.map Job.ctx) := by
  cases issue with
  | mem memory job =>
    have hperm : (s.put (.mem memory job)).jobs.Perm (.mem memory job 0 :: s.jobs) :=
      Engine.jobs_issueMem rfl rfl rfl
    exact hperm.map Job.ctx
  | fifo opcode job =>
    have hperm : (s.put (.fifo opcode job)).jobs.Perm (.fifo opcode job false :: s.jobs) :=
      Engine.jobs_issueFifo rfl rfl rfl
    exact hperm.map Job.ctx

theorem moves_of_turn {uninit : UInt64} (h : Turn s uninit t) : Moves s t := by
  cases h with
  | pass hphase => exact .quiet rfl (by simp only [owners, hphase]; exact .refl _)
  | find hphase => exact .quiet rfl (by simp only [owners, hphase]; exact .refl _)
  | stop hphase => exact .quiet rfl (by simp only [owners, hphase]; exact .refl _)
  | swap hphase => exact .quiet rfl (by simp only [owners, hphase]; exact .refl _)
  | execute hphase hpc heng hissue =>
    obtain ⟨hready, hjobs⟩ := interpretInstruction_frame hissue uninit
    subst heng
    refine .quiet hready ?_
    simp only [owners, hphase, hjobs]
    exact .refl _
  | @mark eng issue hphase hpc heng hissue =>
    obtain ⟨inst, -, hinst⟩ := Option.bind_eq_some_iff.1 hissue
    subst heng
    refine .issue issue.owner hphase Phase.noConfusion (fun c hc => owner_of_issueOf hinst hc) rfl ?_
    simp only [owners, hphase]
    exact .refl _
  | @put issue hphase =>
    refine .quiet (by cases issue <;> rfl) ?_
    have hnone : phaseOwners (if issue.owner = none then .look else .swap) = [] := by
      split <;> rfl
    simp only [owners, hnone, hphase]
    exact (jobs_put s.eng issue).append_right _

variable {memory : MemOpcode}

/-- What a worker's step changes: not the jobs, but for one that is done. -/
theorem workerStep_cases {s t : Engine} (h : s.workerStep memory = some t) :
    (t.ctxReady = s.ctxReady ∧ (t.jobs.map Job.ctx).Perm (s.jobs.map Job.ctx)) ∨
    ∃ owner, t.ctxReady = wake s.ctxReady owner ∧
      (s.jobs.map Job.ctx).Perm (owner :: t.jobs.map Job.ctx) := by
  unfold Engine.workerStep at h
  split at h
  next hidle =>
    split at h
    next => contradiction
    next job queue hqueue =>
      cases h
      refine .inl ⟨rfl, .map _ ?_⟩
      exact Engine.jobs_takeMem hidle hqueue rfl rfl rfl
  next job i hserving =>
    obtain ⟨others, hold, hnew⟩ := Engine.jobs_serving hserving
    split at h
    next =>
      have ht := Option.some.inj h
      obtain ⟨hq, hs, hf, -⟩ := transfer_frame s memory job i
      have hperm := hnew t (some (job, i + 1)) (by rw [← ht]; exact hq) (by rw [← ht, ← hs])
        (by rw [← ht]; exact hf)
      have hctx : List.Perm (List.map Job.ctx (.mem memory job (i + 1) :: others))
          (s.jobs.map Job.ctx) := (hold.map Job.ctx).symm
      refine .inl ⟨?_, (hperm.map _).trans hctx⟩
      rw [← ht]
      exact ctxReady_transfer s memory job i
    next =>
      have ht := Option.some.inj h
      obtain ⟨hq, hf, -⟩ := callback_frame s job.callback
      rw [callback_serving] at ht
      have hperm := hnew t none (by rw [← ht]; exact hq) (by rw [← ht]) (by rw [← ht]; exact hf)
      refine .inr ⟨job.callback, ?_, (hold.map _).trans ((hperm.map _).symm.cons _)⟩
      rw [← ht]
      exact ctxReady_callback s job.callback

theorem moves_of_worker {s : Sched} {eng : Engine}
    (h : s.eng.workerStep memory = some eng) : Moves s { s with eng := eng } := by
  rcases workerStep_cases h with ⟨hready, hjobs⟩ | ⟨owner, hready, hjobs⟩
  · exact .quiet hready ((hjobs.append_right _).append_left _)
  · refine .finish owner hready (((hjobs.append_right _).append_left _).trans ?_)
    exact List.perm_middle

/-- Inside its memory, a worker's step is the engine's. -/
theorem workerStepObj_of_contained {s : Sched}
    (h : s.Contained (.memory memory)) : s.eng.workerStepObj memory = s.eng.workerStep memory := by
  cases memory with
  | ram => rfl
  | scratch =>
    unfold Engine.workerStepObj
    cases hserving : s.eng.serving .scratch with
    | none => rfl
    | some p =>
      simp only [Contained, hserving] at h
      exact if_neg fun hbehind => Nat.not_le.2 (h hbehind.1) hbehind.2

variable {a : SchedAct}

theorem moves_of_step (hc : s.Contained a) (h : s.step a = some t) :
    Moves s t := by
  cases a with
  | interp uninit => exact moves_of_turn (turn_of_interp h)
  | memory memory =>
    rw [step, workerStepObj_of_contained hc, Option.map_eq_some_iff] at h
    obtain ⟨eng, heng, rfl⟩ := h
    exact moves_of_worker heng
  | take opcode =>
    simp only [step] at h
    split at h
    next => contradiction
    next job rest hqueue =>
      cases h
      refine .quiet rfl (.append_left _ ?_)
      have hperm := (Engine.jobs_takeFifo hqueue).map Job.ctx
      rw [List.map_append]
      refine .trans ?_ (hperm.append_right _).symm
      rw [← List.append_assoc]
      exact List.perm_append_comm
  | serve n size ram =>
    obtain ⟨job, -, rfl⟩ := Option.map_eq_some_iff.1 h
    exact .quiet rfl (.refl _)
  | finish n =>
    obtain ⟨job, hjob, rfl⟩ := Option.map_eq_some_iff.1 h
    refine .finish job.callback (ctxReady_callback _ _) ?_
    obtain ⟨hn, rfl⟩ := List.getElem?_eq_some_iff.1 hjob
    have hperm := (List.getElem_cons_eraseIdx_perm hn).symm.map FifoJob.callback
    simp only [owners, jobs_callback]
    refine ((hperm.append_left _).append_left _).trans ?_
    rw [List.map_cons, ← List.append_assoc, ← List.append_assoc]
    exact List.perm_middle
  | ring word v => cases h; exact .quiet rfl (.refl _)
  | csr newVal mask =>
    cases h
    obtain ⟨hjobs, hready⟩ := jobs_changeCsr s.eng newVal mask
    refine .quiet hready ?_
    simp only [owners, hjobs]
    exact .refl _
  | mac newMac => cases h; exact .quiet rfl (.refl _)

/-! ## what other threads leave alone -/

theorem workerStep_control {s t : Engine} (h : s.workerStep memory = some t) :
    t.currentCtx = s.currentCtx ∧ t.pcCtx = s.pcCtx ∧ t.codeLen = s.codeLen ∧ t.done = s.done := by
  unfold Engine.workerStep at h
  split at h
  next =>
    split at h
    next => contradiction
    next =>
      cases h
      exact ⟨rfl, rfl, rfl, rfl⟩
  next job i hserving =>
    split at h
    next =>
      cases h
      cases hdir : job.direction with
      | read => rw [transfer_read hdir]; exact ⟨rfl, rfl, rfl, rfl⟩
      | write => rw [transfer_write hdir]; cases memory <;> exact ⟨rfl, rfl, rfl, rfl⟩
    next =>
      cases h
      cases job.callback <;> exact ⟨rfl, rfl, rfl, rfl⟩

/-- Only the interpreter's thread changes where it is. -/
theorem step_control (hc : s.Contained a) (h : s.step a = some t)
    (ha : ∀ uninit, a ≠ .interp uninit) :
    t.phase = s.phase ∧ t.eng.currentCtx = s.eng.currentCtx ∧ t.eng.pcCtx = s.eng.pcCtx ∧
      t.eng.codeLen = s.eng.codeLen ∧ t.eng.done = s.eng.done := by
  cases a with
  | interp uninit => exact absurd rfl (ha uninit)
  | memory memory =>
    rw [step, workerStepObj_of_contained hc, Option.map_eq_some_iff] at h
    obtain ⟨eng, heng, rfl⟩ := h
    exact ⟨rfl, workerStep_control heng⟩
  | take opcode =>
    simp only [step] at h
    split at h
    next => contradiction
    next =>
      cases h
      exact ⟨rfl, rfl, rfl, rfl, rfl⟩
  | serve n size ram =>
    obtain ⟨job, -, rfl⟩ := Option.map_eq_some_iff.1 h
    exact ⟨rfl, rfl, rfl, rfl, rfl⟩
  | finish n =>
    obtain ⟨job, -, rfl⟩ := Option.map_eq_some_iff.1 h
    cases job.callback <;> exact ⟨rfl, rfl, rfl, rfl, rfl⟩
  | ring word v => cases h; exact ⟨rfl, rfl, rfl, rfl, rfl⟩
  | csr newVal mask => cases h; cases newVal <;> exact ⟨rfl, rfl, rfl, rfl, rfl⟩
  | mac newMac => cases h; exact ⟨rfl, rfl, rfl, rfl, rfl⟩

/-! ## the invariant -/

/-- **The scheduling invariant**: a context is not ready just while exactly one job will
wake it, and the context whose instruction is executed is ready. -/
structure Scheduled (s : Sched) : Prop where
  balanced : Balanced s.eng.ctxReady s.owners
  run : s.phase = .run → s.eng.ctxReady s.eng.currentCtx = true

/-- Only a look at a ready context leads to an instruction. -/
theorem run_of_step (hc : s.Contained a) (h : s.step a = some t)
    (ht : t.phase = .run) : (s.phase = .run ∧ t.eng.currentCtx = s.eng.currentCtx) ∨
      t.eng.ctxReady t.eng.currentCtx = true := by
  by_cases ha : ∃ uninit, a = .interp uninit
  · obtain ⟨uninit, rfl⟩ := ha
    cases turn_of_interp h with
    | pass hphase => exact absurd (hphase.symm.trans ht) Phase.noConfusion
    | find hphase hdone hready => exact .inr hready
    | put hphase =>
      simp only at ht
      split at ht <;> cases ht
    | stop | mark | execute | swap => cases ht
  · obtain ⟨hphase, hcur, -⟩ := step_control hc h fun uninit hu => ha ⟨uninit, hu⟩
    exact .inl ⟨hphase ▸ ht, hcur⟩

theorem Scheduled.step (hs : Scheduled s) (hc : s.Contained a)
    (h : s.step a = some t) : Scheduled t := by
  cases moves_of_step hc h with
  | quiet hready howners =>
    refine ⟨hready ▸ hs.balanced.perm howners.symm, fun ht => ?_⟩
    rcases run_of_step hc h ht with ⟨hrun, hcur⟩ | hcur
    · rw [hready, hcur]
      exact hs.run hrun
    · exact hcur
  | issue owner hphase hput hcur hready howners =>
    refine ⟨?_, fun ht => absurd ht hput⟩
    have hissue := hs.balanced.issue fun c hc => hcur c hc ▸ hs.run hphase
    exact hready ▸ hissue.perm howners.symm
  | finish owner hready howners =>
    refine ⟨hready ▸ (hs.balanced.perm howners).finish, fun ht => ?_⟩
    rcases run_of_step hc h ht with ⟨hrun, hcur⟩ | hcur
    · rw [hready, hcur]
      exact wake_of_ready (hs.run hrun) owner
    · exact hcur

theorem Scheduled.init (image : List UInt8) (uninit : Nat → UInt8) (lastAlu : UInt32)
    (mac : List UInt8) : Scheduled (init image uninit lastAlu mac) :=
  ⟨.nil fun _ => rfl, Phase.noConfusion⟩

/-- **Scheduling of the contexts.**  In every run, of any microcode, in which no worker
leaves its memory: a context is marked not ready if and only if exactly one job that it
issued with `ctx_swap` is being issued, queued or served, it never has two, and the
interpreter executes instructions of ready contexts only. -/
theorem contexts_scheduled {image : List UInt8} {uninit : Nat → UInt8} {lastAlu : UInt32}
    {mac : List UInt8} {acts : List SchedAct} {t : Sched}
    (h : Run (Guarded Contained fun s a t => s.step a = some t) (init image uninit lastAlu mac)
      acts t) :
    (∀ c, t.eng.ctxReady c = false ↔ wakes c t.owners = 1) ∧ (∀ c, wakes c t.owners ≤ 1) ∧
      (t.phase = .run → t.eng.ctxReady t.eng.currentCtx = true) := by
  have hinv : Scheduled t :=
    h.invariant (fun _ _ _ hs hstep => hs.step hstep.1 hstep.2) (.init image uninit lastAlu mac)
  exact ⟨hinv.balanced.asleep_iff, hinv.balanced.wakes_le_one, hinv.run⟩

/-- `r_fifo_rd` with `ctx_swap`. -/
def waitForPacket : List UInt8 :=
  (emit [.fifo .rFifoRd (Firmware.reg 0) (Firmware.reg 1) (Firmware.reg 2) .ctxSwap]).getD []

theorem contexts_scheduled_waiting : ∃ t,
    exec step (init waitForPacket (fun _ => 0) 0 []) (List.replicate 4 (.interp 0)) = some t ∧
    t.eng.ctxReady 0 = false ∧ wakes 0 t.owners = 1 := by
  have hexec : (exec (fun s a => if s.Contained a then s.step a else none)
      (init waitForPacket (fun _ => 0) 0 []) (List.replicate 4 (.interp 0))).any
      (fun t => !t.eng.ctxReady 0) = true := by
    decide +kernel
  obtain ⟨t, ht, hready⟩ := (Option.any_eq_true _ _).1 hexec
  have hrun := run_guarded_of_exec ht
  refine ⟨t, (run_iff_exec step).1 (hrun.mono fun _ _ _ hstep => hstep.2), by simpa using hready, ?_⟩
  exact ((contexts_scheduled hrun).1 0).1 (by simpa using hready)

/-- `immed[reg_0, 2561]`, `immed[reg_1, 0]`, `scratch[write, write_0, reg_0, reg_1, 1]`. -/
def storeFlags : List UInt8 := (emit [
  .immediate .immed (Firmware.reg 0) 2561 .noRot,
  .immediate .immed (Firmware.reg 1) 0 .noRot,
  .memory .scratch .write (Firmware.write 0) (Firmware.reg 0) (Firmware.reg 1) 1 .noToken]).getD []

/-- **A store to scratch memory takes all contexts out**: a word behind the code, stored
from one register, clears the ready flags, and there is no job to set them again. -/
theorem flags_stored : ∃ t, exec step (init storeFlags (fun _ => 0) 0 [])
      (List.replicate 7 (.interp 0) ++ List.replicate 2 (.memory .scratch)) = some t ∧
    t.eng.log = [.issue 0 .scratch ⟨.write, 2561, 128, 1, none⟩, .scratch 2561] ∧
    (∀ c, t.eng.ctxReady c = false) ∧ t.owners = [none] := by
  have hexec : (exec step (init storeFlags (fun _ => 0) 0 [])
      (List.replicate 7 (.interp 0) ++ List.replicate 2 (.memory .scratch))).any
      (fun t => decide (t.eng.log = [.issue 0 .scratch ⟨.write, 2561, 128, 1, none⟩,
          .scratch 2561] ∧ (∀ c, t.eng.ctxReady c = false) ∧ t.owners = [none])) = true := by
    decide +kernel
  obtain ⟨t, ht, hend⟩ := (Option.any_eq_true _ _).1 hexec
  exact ⟨t, ht, of_decide_eq_true hend⟩

end Sched

end Ooows.Net
