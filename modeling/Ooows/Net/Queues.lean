import Ooows.Net.Jobs

/-!
# Ooows.Net.Queues

The jobs in the engine's own queues, and the workers that serve them.

`Engine.jobs` lists what the queues and the two workers hold.  A step changes one
queue or one worker; `jobs_perm_mem` and `jobs_perm_fifo` say so up to the order of
the list, which the invariant does not depend on.  `Sound.workerStep`: a worker that
takes a job, transfers a word or finishes keeps the invariant.
-/

namespace Ooows.Net

open Lib

/-! ## the jobs in the engine's queues -/

namespace Engine

/-- The jobs of a worker. -/
def memJobs (s : Engine) (memory : MemOpcode) : List Job :=
  (s.serving memory).toList.map (fun p => .mem memory p.1 p.2) ++
    (s.memQueue memory).map fun job => .mem memory job 0

/-- The jobs in a FIFO's queue. -/
def fifoJobs (s : Engine) (opcode : FifoOpcode) : List Job :=
  (s.fifoQueue opcode).map fun job => .fifo opcode job false

/-- The jobs the engine holds. -/
def jobs (s : Engine) : List Job :=
  s.memJobs .scratch ++ s.memJobs .ram ++
    (s.fifoJobs .tFifoWr ++ s.fifoJobs .rFifoRd ++ s.fifoJobs .rxPkt)

/-- Only one worker's jobs change. -/
theorem jobs_perm_mem (s : Engine) (memory : MemOpcode) : ∃ others, ∀ t : Engine,
    (∀ m ≠ memory, t.memQueue m = s.memQueue m ∧ t.serving m = s.serving m) →
    t.fifoQueue = s.fifoQueue → t.jobs.Perm (t.memJobs memory ++ others) := by
  cases memory with
  | scratch =>
    refine ⟨s.memJobs .ram ++ (s.fifoJobs .tFifoWr ++ s.fifoJobs .rFifoRd ++ s.fifoJobs .rxPkt),
      fun t hm hf => ?_⟩
    obtain ⟨hq, hs⟩ := hm .ram (by decide)
    simp only [jobs, fifoJobs, memJobs, hf, hq, hs, List.append_assoc]
    exact .refl _
  | ram =>
    refine ⟨s.memJobs .scratch ++
      (s.fifoJobs .tFifoWr ++ s.fifoJobs .rFifoRd ++ s.fifoJobs .rxPkt), fun t hm hf => ?_⟩
    obtain ⟨hq, hs⟩ := hm .scratch (by decide)
    have hother : t.memJobs .scratch = s.memJobs .scratch := by simp only [memJobs, hq, hs]
    have hfifo : ∀ opcode, t.fifoJobs opcode = s.fifoJobs opcode := by
      simp only [fifoJobs, hf, implies_true]
    rw [jobs, hother, hfifo, hfifo, hfifo, ← List.append_assoc (t.memJobs .ram)]
    exact List.perm_append_comm.append_right _

/-- Only one FIFO's queue changes. -/
theorem jobs_perm_fifo (s : Engine) (opcode : FifoOpcode) : ∃ others, ∀ t : Engine,
    t.memQueue = s.memQueue → t.serving = s.serving →
    (∀ o ≠ opcode, t.fifoQueue o = s.fifoQueue o) →
    t.jobs.Perm (t.fifoJobs opcode ++ others) := by
  have hmem : ∀ t : Engine, t.memQueue = s.memQueue → t.serving = s.serving →
      t.memJobs .scratch ++ t.memJobs .ram = s.memJobs .scratch ++ s.memJobs .ram := by
    intro t hq hs
    simp only [memJobs, hq, hs]
  have hfifo : ∀ (t : Engine) (o : FifoOpcode), t.fifoQueue o = s.fifoQueue o →
      t.fifoJobs o = s.fifoJobs o := by
    intro t o ho
    simp only [fifoJobs, ho]
  generalize s.memJobs .scratch ++ s.memJobs .ram = mem at hmem
  cases opcode with
  | tFifoWr =>
    refine ⟨mem ++ (s.fifoJobs .rFifoRd ++ s.fifoJobs .rxPkt), fun t hq hs hf => ?_⟩
    rw [jobs, hmem t hq hs, hfifo t .rFifoRd (hf _ (by decide)),
      hfifo t .rxPkt (hf _ (by decide)), List.append_assoc (t.fifoJobs _)]
    exact List.perm_append_comm_assoc _ _ _
  | rFifoRd =>
    refine ⟨mem ++ (s.fifoJobs .tFifoWr ++ s.fifoJobs .rxPkt), fun t hq hs hf => ?_⟩
    rw [jobs, hmem t hq hs, hfifo t .tFifoWr (hf _ (by decide)),
      hfifo t .rxPkt (hf _ (by decide)), List.append_assoc (s.fifoJobs _)]
    exact ((List.perm_append_comm_assoc _ _ _).append_left mem).trans
      (List.perm_append_comm_assoc _ _ _)
  | rxPkt =>
    refine ⟨mem ++ (s.fifoJobs .tFifoWr ++ s.fifoJobs .rFifoRd), fun t hq hs hf => ?_⟩
    rw [jobs, hmem t hq hs, hfifo t .tFifoWr (hf _ (by decide)),
      hfifo t .rFifoRd (hf _ (by decide)), ← List.append_assoc]
    exact List.perm_append_comm

theorem jobs_issueMem {s t : Engine} {memory : MemOpcode} {job : MemoryJob}
    (hq : t.memQueue = Function.update s.memQueue memory (s.memQueue memory ++ [job]))
    (hs : t.serving = s.serving) (hf : t.fifoQueue = s.fifoQueue) :
    t.jobs.Perm (.mem memory job 0 :: s.jobs) := by
  obtain ⟨others, hothers⟩ := jobs_perm_mem s memory
  have hnew := hothers t (fun m hm => ⟨by rw [hq, Function.update_of_ne hm], by rw [hs]⟩) hf
  have hold := hothers s (fun _ _ => ⟨rfl, rfl⟩) rfl
  have hjobs : t.memJobs memory = s.memJobs memory ++ [.mem memory job 0] := by
    simp [memJobs, hq, hs]
  rw [hjobs, List.append_assoc] at hnew
  exact hnew.trans (List.perm_middle.trans (hold.symm.cons _))

theorem jobs_issueFifo {s t : Engine} {opcode : FifoOpcode} {job : FifoJob}
    (hf : t.fifoQueue = Function.update s.fifoQueue opcode (s.fifoQueue opcode ++ [job]))
    (hq : t.memQueue = s.memQueue) (hs : t.serving = s.serving) :
    t.jobs.Perm (.fifo opcode job false :: s.jobs) := by
  obtain ⟨others, hothers⟩ := jobs_perm_fifo s opcode
  have hnew := hothers t hq hs fun o ho => by rw [hf, Function.update_of_ne ho]
  have hold := hothers s rfl rfl fun _ _ => rfl
  have hjobs : t.fifoJobs opcode = s.fifoJobs opcode ++ [.fifo opcode job false] := by
    simp [fifoJobs, hf]
  rw [hjobs, List.append_assoc] at hnew
  exact hnew.trans (List.perm_middle.trans (hold.symm.cons _))

/-- The first job of a FIFO's queue is taken out. -/
theorem jobs_takeFifo {s : Engine} {opcode : FifoOpcode} {job : FifoJob} {rest : List FifoJob}
    (hjob : s.fifoQueue opcode = job :: rest) :
    s.jobs.Perm (.fifo opcode job false ::
      jobs { s with fifoQueue := Function.update s.fifoQueue opcode rest }) := by
  obtain ⟨others, hothers⟩ := jobs_perm_fifo s opcode
  have hnew := hothers { s with fifoQueue := Function.update s.fifoQueue opcode rest } rfl rfl
    fun o ho => Function.update_of_ne ho _ _
  have hold := hothers s rfl rfl fun _ _ => rfl
  have hjobs : s.fifoJobs opcode = .fifo opcode job false ::
      fifoJobs { s with fifoQueue := Function.update s.fifoQueue opcode rest } opcode := by
    simp [fifoJobs, hjob]
  rw [hjobs, List.cons_append] at hold
  exact hold.trans (hnew.symm.cons _)

/-- A worker takes the first job of its queue. -/
theorem jobs_takeMem {s t : Engine} {memory : MemOpcode} {job : MemoryJob} {rest : List MemoryJob}
    (hidle : s.serving memory = none) (hjob : s.memQueue memory = job :: rest)
    (hq : t.memQueue = Function.update s.memQueue memory rest)
    (hs : t.serving = Function.update s.serving memory (some (job, 0)))
    (hf : t.fifoQueue = s.fifoQueue) : t.jobs.Perm s.jobs := by
  obtain ⟨others, hothers⟩ := jobs_perm_mem s memory
  have hnew := hothers t (fun m hm => ⟨by rw [hq, Function.update_of_ne hm],
    by rw [hs, Function.update_of_ne hm]⟩) hf
  have hold := hothers s (fun _ _ => ⟨rfl, rfl⟩) rfl
  have hjobs : t.memJobs memory = s.memJobs memory := by
    simp [memJobs, hq, hs, hidle, hjob]
  rw [hjobs] at hnew
  exact hnew.trans hold.symm

/-- What a worker serves changes. -/
theorem jobs_serving {s : Engine} {memory : MemOpcode} {job : MemoryJob} {i : Nat}
    (hserving : s.serving memory = some (job, i)) : ∃ others,
    s.jobs.Perm (.mem memory job i :: others) ∧
    ∀ (t : Engine) (p : Option (MemoryJob × Nat)), t.memQueue = s.memQueue →
      t.serving = Function.update s.serving memory p → t.fifoQueue = s.fifoQueue →
      t.jobs.Perm (p.toList.map (fun p => .mem memory p.1 p.2) ++ others) := by
  obtain ⟨others, hothers⟩ := jobs_perm_mem s memory
  refine ⟨(s.memQueue memory).map (fun job => .mem memory job 0) ++ others, ?_,
    fun t p hq hs hf => ?_⟩
  · have hold := hothers s (fun _ _ => ⟨rfl, rfl⟩) rfl
    rwa [memJobs, hserving] at hold
  · have hnew := hothers t (fun m hm => ⟨by rw [hq], by rw [hs, Function.update_of_ne hm]⟩) hf
    rwa [memJobs, hq, hs, Function.update_self, List.append_assoc] at hnew

end Engine

/-! ## the workers -/

theorem transfer_frame (s : Engine) (memory : MemOpcode) (job : MemoryJob) (i : Nat) :
    (s.transfer memory job i).memQueue = s.memQueue ∧
    (s.transfer memory job i).serving = s.serving ∧
    (s.transfer memory job i).fifoQueue = s.fifoQueue ∧
    (s.transfer memory job i).codeLen = s.codeLen := by
  cases hdir : job.direction with
  | read =>
    rw [transfer_read hdir]
    exact ⟨rfl, rfl, rfl, rfl⟩
  | write =>
    rw [transfer_write hdir]
    cases memory <;> exact ⟨rfl, rfl, rfl, rfl⟩

theorem callback_frame (s : Engine) (callback : Option Ctx) :
    (s.callback callback).memQueue = s.memQueue ∧ (s.callback callback).fifoQueue = s.fifoQueue ∧
    (s.callback callback).codeLen = s.codeLen := by
  cases callback <;> exact ⟨rfl, rfl, rfl⟩

theorem jobs_callback (s : Engine) (callback : Option Ctx) :
    (s.callback callback).jobs = s.jobs := by
  cases callback <;> rfl

theorem callback_serving (s : Engine) (serving : MemOpcode → Option (MemoryJob × Nat))
    (callback : Option Ctx) : { s with serving := serving }.callback callback =
      { s.callback callback with serving := serving } := by
  cases callback <;> rfl

theorem Sound.transfer {code : Nat → UInt32} {s : Engine} {memory : MemOpcode} {job : MemoryJob}
    {i : Nat} {rest : List Job} (h : Sound code s (.mem memory job i :: rest))
    (hi : i < job.count.toNat) :
    Sound code (s.transfer memory job i) (.mem memory job (i + 1) :: rest) := by
  cases memory with
  | scratch => exact h.transfer_scratch hi
  | ram => exact h.transfer_ram hi

/-- **The workers keep the invariant.** -/
theorem Sound.workerStep {code : Nat → UInt32} {s t : Engine} {memory : MemOpcode} {rest : List Job}
    (h : Sound code s (s.jobs ++ rest)) (ht : s.workerStep memory = some t) :
    Sound code t (t.jobs ++ rest) ∧ t.codeLen = s.codeLen := by
  unfold Engine.workerStep at ht
  split at ht
  next hidle =>
    split at ht
    next => contradiction
    next job queue hqueue =>
      cases ht
      refine ⟨SoundAt.perm h (.append_right rest (.symm ?_)), rfl⟩
      exact Engine.jobs_takeMem hidle hqueue rfl rfl rfl
  next job i hserving =>
    obtain ⟨others, hold, hnew⟩ := Engine.jobs_serving hserving
    have hhead : Sound code s (.mem memory job i :: (others ++ rest)) :=
      SoundAt.perm h (hold.append_right rest)
    split at ht
    next hi =>
      have ht := Option.some.inj ht
      obtain ⟨hq, hs, hf, hlen⟩ := transfer_frame s memory job i
      have hperm := hnew t (some (job, i + 1)) (by rw [← ht]; exact hq) (by rw [← ht, ← hs])
        (by rw [← ht]; exact hf)
      subst ht
      exact ⟨SoundAt.perm (hhead.transfer hi) (hperm.append_right rest).symm, hlen⟩
    next hi =>
      have ht := Option.some.inj ht
      have hdone : Sound code (s.callback job.callback) (others ++ rest) :=
        hhead.callback fun c k e hk hok => posts_mem (Nat.not_lt.1 hi) k e hk hok
      obtain ⟨hq, hf, hlen⟩ := callback_frame s job.callback
      rw [callback_serving] at ht
      have hperm := hnew t none (by rw [← ht]; exact hq) (by rw [← ht]) (by rw [← ht]; exact hf)
      subst ht
      exact ⟨SoundAt.perm hdone (hperm.append_right rest).symm, hlen⟩

end Ooows.Net
