import Ooows.Net.Soundness

/-!
# Ooows.Net.Jobs

The invariant of the microengine while the firmware runs, and what each kind of
step does to it.

`Sound code s jobs` speaks of the engine `s` and of the list `jobs` of all jobs that
were issued and are not finished, wherever they are queued or served:

* a context that is ready is at an instruction whose annotation describes it;
* a context that is not ready has at most one job, and a ready one none;
* every job is harmless (`Kind.Ok`) and leaves its context, when it is done, at an
  annotated instruction;
* both rings hold what `SlotOk` says, the code is unchanged, and every access so far
  was inside its memory.

The only facts that tie registers and scratch memory together concern the second
words of the rings.  They survive every step since these words are only ever
overwritten with pointers (`RingStep`).
-/

namespace Ooows.Net

open Lib

/-- A job that was issued and is not finished. -/
inductive Job
  | mem (memory : MemOpcode) (job : MemoryJob) (done : Nat)
  | fifo (opcode : FifoOpcode) (job : FifoJob) (sized : Bool)
  deriving DecidableEq, Repr

/-- The context that waits for a job. -/
def Job.ctx : Job → Option Ctx
  | .mem _ job _ => job.callback
  | .fifo _ job _ => job.callback

/-- **An access or a job is confined**: a job moves at most two words, its registers
lie in the issuing context's own bank, and every access is inside its memory. -/
def Event.Ok : Event → Prop
  | .issue ctx memory job =>
    job.count.toNat ≤ 2 ∧
    (match job.direction with
      | .read => 192 + 16 * ctx.val ≤ job.startReg ∧
          job.startReg + job.count.toNat ≤ 192 + 16 * ctx.val + 16
      | .write => 128 + 16 * ctx.val ≤ job.startReg ∧
          job.startReg + job.count.toNat ≤ 128 + 16 * ctx.val + 16) ∧
    (match memory with
      | .scratch => job.memOffset.toNat + job.count.toNat ≤ 1024
      | .ram => job.memOffset.toNat + job.count.toNat ≤ 2 ^ 21)
  | .scratch offset => offset < 1024
  | .ram start length => start + length ≤ 2 ^ 23

/-! ## the rings -/

/-- What the second word of ring entry `j` may be overwritten with: entries 0 to 15
are the transmit ring, 16 to 31 the receive ring. -/
def PtrOk (j : Nat) (w : UInt32) : Prop := if j < 16 then txPtr.Mem w else rxPtr.Mem w

/-- A ring entry: words `2 + 2 * j` and `3 + 2 * j` of the scratch memory. -/
def SlotOk (j : Nat) (v w : UInt32) : Prop :=
  if j < 16 then
    ((AVal.between 0 1518).Mem v ∨ (AVal.between (2 ^ 31) (2 ^ 31 + 1518)).Mem v) ∧ txPtr.Mem w
  else
    (AVal.const 0).Mem v ∨ (AVal.between (2 ^ 31) (2 ^ 31 + 1514)).Mem v ∧ rxPtr.Mem w

theorem SlotOk.second {j : Nat} {v w w' : UInt32} (h : SlotOk j v w) (hw : PtrOk j w') :
    SlotOk j v w' := by
  unfold SlotOk at h ⊢
  unfold PtrOk at hw
  split
  next hj =>
    rw [if_pos hj] at h hw
    exact ⟨h.1, hw⟩
  next hj =>
    rw [if_neg hj] at h hw
    exact h.imp_right fun h => ⟨h.1, hw⟩

/-- Second words only change into pointers. -/
def RingStep (obj obj' : Nat → UInt32) : Prop :=
  ∀ j < 32, obj' (3 + 2 * j) = obj (3 + 2 * j) ∨ PtrOk j (obj' (3 + 2 * j))

variable {obj obj' : Nat → UInt32}

theorem RingStep.refl (obj : Nat → UInt32) : RingStep obj obj := fun _ _ => .inl rfl

theorem RingStep.slotOk (h : RingStep obj obj') {j : Nat} (hj : j < 32) {v : UInt32}
    (hs : SlotOk j v (obj (3 + 2 * j))) : SlotOk j v (obj' (3 + 2 * j)) := by
  rcases h j hj with heq | hptr
  · rwa [heq]
  · exact hs.second hptr

theorem RingStep.rxPtr (h : RingStep obj obj') {j : Nat} (hj : j < 16)
    (hs : rxPtr.Mem (obj (35 + 2 * j))) : rxPtr.Mem (obj' (35 + 2 * j)) := by
  have hword : 3 + 2 * (j + 16) = 35 + 2 * j := by omega
  have hstep := h (j + 16) (by omega)
  rw [hword, PtrOk, if_neg (by omega)] at hstep
  rcases hstep with heq | hptr
  · rwa [heq]
  · exact hptr

/-- A write that misses the second words. -/
theorem RingStep.update {i : Nat} (h : ∀ j < 32, i ≠ 3 + 2 * j) (v : UInt32) :
    RingStep obj (Function.update obj i v) :=
  fun j hj => .inl (Function.update_of_ne (h j hj).symm _ _)

variable {c : Ctx} {e : AEnv}

theorem Holds.ringStep (h : Holds obj c e)
    (hregs : ∀ r < 64, obj' (ownWord c r) = obj (ownWord c r)) (hring : RingStep obj obj') :
    Holds obj' c e :=
  h.frame hregs fun _ hj => hring.rxPtr hj

/-! ## jobs -/

/-- A job is of the given kind: what it may touch, and what it has achieved so far. -/
def Kind.Ok (obj : Nat → UInt32) (c : Ctx) : Kind → Job → Prop
  | .ramRead n count, .mem .ram job _ =>
    job.direction = .read ∧ job.startReg = ownReg c n ∧ 48 ≤ n ∧ n + count ≤ 64 ∧
      job.count.toNat = count ∧ job.memOffset.toNat + count ≤ 2 ^ 21
  | .ramWrite, .mem .ram job _ =>
    job.direction = .write ∧ job.memOffset.toNat + job.count.toNat ≤ 2 ^ 21
  | .slotRead n rx, .mem .scratch job done =>
    job.direction = .read ∧ job.startReg = ownReg c n ∧ 48 ≤ n ∧ n + 2 ≤ 64 ∧
      job.count.toNat = 2 ∧ ∃ j, (if rx then 16 ≤ j ∧ j < 32 else j < 16) ∧
        job.memOffset.toNat = 2 + 2 * j ∧
        (done = 1 → SlotOk j (obj (ownWord c n)) (obj (3 + 2 * j))) ∧
        (2 ≤ done → SlotOk j (obj (ownWord c n)) (obj (ownWord c (n + 1))))
  | .ptrWrite n, .mem .scratch job done =>
    job.direction = .write ∧ job.startReg = ownReg c n ∧ n < 64 ∧ job.count.toNat = 1 ∧
      rxPtr.Mem (obj (ownWord c n)) ∧ ∃ j < 16, (obj (ownWord c 9)).toNat = 2 * j ∧
        job.memOffset.toNat = 35 + 2 * j ∧ (1 ≤ done → rxPtr.Mem (obj (35 + 2 * j)))
  | .sizeWrite n, .mem .scratch job _ =>
    job.direction = .write ∧ job.startReg = ownReg c n ∧ n < 64 ∧ job.count.toNat = 1 ∧
      ∃ j < 32, job.memOffset.toNat = 2 + 2 * j ∧ SlotOk j (obj (ownWord c n)) (obj (3 + 2 * j))
  | .transmit n, .fifo .tFifoWr job _ =>
    job.size = ownReg c n ∧ n < 64 ∧ 4 * job.start.toNat + 1518 ≤ 2 ^ 23 ∧
      (obj (ownWord c n)).toNat ≤ 1518
  | .receive n, .fifo .rFifoRd job sized =>
    job.size = ownReg c n ∧ n < 64 ∧ 4 * job.start.toNat + 1518 ≤ 2 ^ 23 ∧
      (sized = true → (obj (ownWord c n)).toNat ≤ 1514)
  | .deliver n, .fifo .rxPkt job _ =>
    job.size = ownReg c n ∧ n < 64 ∧ 4 * job.start.toNat + 1518 ≤ 2 ^ 23 ∧
      (obj (ownWord c n)).toNat ≤ 1518
  | _, _ => False

theorem Kind.Ok.frame {k : Kind} {J : Job} (h : k.Ok obj c J)
    (hregs : ∀ r < 64, obj' (ownWord c r) = obj (ownWord c r)) (hring : RingStep obj obj') :
    k.Ok obj' c J := by
  cases k <;> cases J <;> rename_i op job done <;> cases op <;> try contradiction
  case ramRead.mem.ram => exact h
  case ramWrite.mem.ram => exact h
  case slotRead.mem.scratch n rx =>
    obtain ⟨h₁, h₂, h₃, h₄, h₅, j, hj, hoff, hone, htwo⟩ := h
    have hj32 : j < 32 := by
      cases rx <;> simp at hj <;> omega
    refine ⟨h₁, h₂, h₃, h₄, h₅, j, hj, hoff, fun hd => ?_, fun hd => ?_⟩
    · rw [hregs n (by omega)]
      exact hring.slotOk hj32 (hone hd)
    · rw [hregs n (by omega), hregs (n + 1) (by omega)]
      exact htwo hd
  case ptrWrite.mem.scratch n =>
    obtain ⟨h₁, h₂, h₃, h₄, hptr, j, hj, hnine, hoff, hdone⟩ := h
    refine ⟨h₁, h₂, h₃, h₄, ?_, j, hj, ?_, hoff, fun hd => hring.rxPtr hj (hdone hd)⟩
    · rwa [hregs n h₃]
    · rwa [hregs 9 (by decide)]
  case sizeWrite.mem.scratch n =>
    obtain ⟨h₁, h₂, h₃, h₄, j, hj, hoff, hslot⟩ := h
    refine ⟨h₁, h₂, h₃, h₄, j, hj, hoff, ?_⟩
    rw [hregs n h₃]
    exact hring.slotOk hj hslot
  case transmit.fifo.tFifoWr n =>
    obtain ⟨h₁, h₂, h₃, h₄⟩ := h
    exact ⟨h₁, h₂, h₃, by rwa [hregs n h₂]⟩
  case receive.fifo.rFifoRd n =>
    obtain ⟨h₁, h₂, h₃, h₄⟩ := h
    exact ⟨h₁, h₂, h₃, by rwa [hregs n h₂]⟩
  case deliver.fifo.rxPkt n =>
    obtain ⟨h₁, h₂, h₃, h₄⟩ := h
    exact ⟨h₁, h₂, h₃, by rwa [hregs n h₂]⟩

/-- A context waits for a job, which will leave it at an annotated instruction. -/
def Waits (obj : Nat → UInt32) (pc : Ctx → UInt32) (J : Job) : Prop :=
  ∃ (c : Ctx) (k : Kind) (e : AEnv), J.ctx = some c ∧ Holds obj c (k.frame e) ∧
    (∀ e' ∈ k.posts e, covered c (pc c).toNat e' = true) ∧ k.Ok obj c J

theorem Waits.frame {pc pc' : Ctx → UInt32} {J : Job} (h : Waits obj pc J)
    (hregs : ∀ c, J.ctx = some c → ∀ r < 64, obj' (ownWord c r) = obj (ownWord c r))
    (hpc : ∀ c, J.ctx = some c → pc' c = pc c) (hring : RingStep obj obj') : Waits obj' pc' J := by
  obtain ⟨c, k, e, hc, hholds, hposts, hok⟩ := h
  exact ⟨c, k, e, hc, hholds.ringStep (hregs c hc) hring, hpc c hc ▸ hposts,
    hok.frame (hregs c hc) hring⟩

/-! ## the invariant -/

/-- The jobs that a context waits for. -/
def jobsOf (c : Ctx) (jobs : List Job) : Nat := jobs.countP fun J => J.ctx = some c

/-- `Sound`, in the parts of the engine it depends on. -/
structure SoundAt (code : Nat → UInt32) (obj : Nat → UInt32) (cur : Ctx) (pc : Ctx → UInt32)
    (ready : Ctx → Bool) (lastAlu : UInt32) (log : List Event) (jobs : List Job) : Prop where
  code : ∀ i < 1280, obj (1281 + i) = code i
  slots : ∀ j < 32, SlotOk j (obj (2 + 2 * j)) (obj (3 + 2 * j))
  ctxs : ∀ c, ready c = true → ∃ e ∈ ann c (pc c).toNat,
    Holds obj c e ∧ e.last.Mem lastAlu ∧ (c ≠ cur → e.last = .top)
  count : ∀ c, jobsOf c jobs ≤ if ready c then 0 else 1
  waits : ∀ J ∈ jobs, Waits obj pc J
  log : ∀ ev ∈ log, ev.Ok

/-- **The invariant of the engine**, for the jobs under way. -/
def Sound (code : Nat → UInt32) (s : Engine) (jobs : List Job) : Prop :=
  SoundAt code s.obj s.currentCtx s.pcCtx s.ctxReady s.lastAlu s.log jobs

theorem jobsOf_cons (c : Ctx) (J : Job) (jobs : List Job) :
    jobsOf c (J :: jobs) = jobsOf c jobs + if J.ctx = some c then 1 else 0 := by
  simp [jobsOf, List.countP_cons]

theorem ctx_ne_of_jobsOf {jobs : List Job} (h : jobsOf c jobs = 0) {J : Job}
    (hJ : J ∈ jobs) : J.ctx ≠ some c := by
  simpa using List.countP_eq_zero.1 h J hJ

theorem exists_ann_of_covered {pc : Nat} (hcov : covered c pc e = true) :
    ∃ e' ∈ ann c pc, e.le e' = true := by
  simpa [covered] using hcov

theorem last_of_le {e e' : AEnv} (h : e.le e' = true) {v : UInt32} (hv : e.last.Mem v) :
    e'.last.Mem v := by
  simp only [AEnv.le, Bool.and_eq_true] at h
  exact hv.of_le h.1.2

theorem last_top_of_le {e e' : AEnv} (h : e.le e' = true) (hlast : e.last = .top) :
    e'.last = .top := by
  simp only [AEnv.le, Bool.and_eq_true, hlast] at h
  cases he : e'.last <;> simp_all [AVal.le]

namespace SoundAt

variable {code : Nat → UInt32} {cur : Ctx} {pc : Ctx → UInt32} {ready : Ctx → Bool}
  {lastAlu : UInt32} {log : List Event} {jobs rest : List Job} {J : Job} {c : Ctx}

theorem perm (h : SoundAt code obj cur pc ready lastAlu log jobs) {jobs' : List Job}
    (hp : jobs.Perm jobs') : SoundAt code obj cur pc ready lastAlu log jobs' where
  code := h.code
  slots := h.slots
  ctxs := h.ctxs
  count c := by
    have hc := h.count c
    rwa [jobsOf, hp.countP_eq] at hc
  waits J hJ := h.waits J (hp.mem_iff.2 hJ)
  log := h.log

/-- A record of a confined access. -/
theorem record (h : SoundAt code obj cur pc ready lastAlu log jobs) {ev : Event} (hev : ev.Ok) :
    SoundAt code obj cur pc ready lastAlu (log ++ [ev]) jobs :=
  { h with
    log := by
      intro ev' hmem
      rcases List.mem_append.1 hmem with hold | hnew
      · exact h.log ev' hold
      · rw [List.mem_singleton.1 hnew]
        exact hev }

/-- A job that is given up. -/
theorem drop (h : SoundAt code obj cur pc ready lastAlu log (J :: rest)) :
    SoundAt code obj cur pc ready lastAlu log rest :=
  { h with
    count := fun c => by
      have hc := h.count c
      rw [jobsOf_cons] at hc
      omega
    waits := fun J' hJ' => h.waits J' (List.mem_cons_of_mem J hJ') }

/-- The first of the jobs is the only one of its context, which is not ready. -/
theorem head (h : SoundAt code obj cur pc ready lastAlu log (J :: rest)) (hJ : J.ctx = some c) :
    ready c = false ∧ jobsOf c rest = 0 := by
  have hc := h.count c
  rw [jobsOf_cons, if_pos hJ] at hc
  cases hr : ready c with
  | true =>
    rw [hr] at hc
    simp at hc
  | false =>
    rw [hr] at hc
    simp only [Bool.false_eq_true, if_false] at hc
    exact ⟨rfl, by omega⟩

/-- **The first job makes progress**: registers of its own context may change, and
ring entries as far as they stay sound. -/
theorem progress (h : SoundAt code obj cur pc ready lastAlu log (J :: rest)) (J' : Job)
    (hJ : J.ctx = some c) (hJ' : J'.ctx = some c)
    (hcode : ∀ i < 1280, obj' (1281 + i) = obj (1281 + i))
    (hslots : ∀ j < 32, SlotOk j (obj' (2 + 2 * j)) (obj' (3 + 2 * j)))
    (hregs : ∀ c' ≠ c, ∀ r < 64, obj' (ownWord c' r) = obj (ownWord c' r))
    (hring : RingStep obj obj') (hwaits : Waits obj' pc J') :
    SoundAt code obj' cur pc ready lastAlu log (J' :: rest) := by
  obtain ⟨hready, hrest⟩ := h.head hJ
  refine ⟨fun i hi => (hcode i hi).trans (h.code i hi), hslots, ?_, ?_, ?_, h.log⟩
  · intro c' hc'
    have hne : c' ≠ c := by
      rintro rfl
      rw [hready] at hc'
      contradiction
    obtain ⟨e, he, hholds, hlast⟩ := h.ctxs c' hc'
    exact ⟨e, he, hholds.ringStep (hregs c' hne) hring, hlast⟩
  · intro c'
    have hcount := h.count c'
    rwa [jobsOf_cons, hJ, ← hJ', ← jobsOf_cons] at hcount
  · intro K hK
    rcases List.mem_cons.1 hK with rfl | hK
    · exact hwaits
    · refine (h.waits K (List.mem_cons_of_mem J hK)).frame ?_ (fun _ _ => rfl) hring
      intro c' hc'
      refine hregs c' ?_
      rintro rfl
      exact ctx_ne_of_jobsOf hrest hK hc'

/-- **The first job is done**: its context goes on where the annotation describes it. -/
theorem finish (h : SoundAt code obj cur pc ready lastAlu log (J :: rest)) (hJ : J.ctx = some c)
    (hdone : ∀ (k : Kind) (e : AEnv), Holds obj c (k.frame e) → k.Ok obj c J →
      ∃ e' ∈ k.posts e, Holds obj c e' ∧ e'.last = .top) :
    SoundAt code obj cur pc (Function.update ready c true) lastAlu log rest := by
  obtain ⟨-, hrest⟩ := h.head hJ
  obtain ⟨c', k, e, hc', hholds, hposts, hok⟩ := h.waits J List.mem_cons_self
  obtain rfl : c' = c := Option.some.inj (hc'.symm.trans hJ)
  obtain ⟨e', he', hh, hlast⟩ := hdone k e hholds hok
  obtain ⟨e'', he'', hle⟩ := exists_ann_of_covered (hposts e' he')
  refine ⟨h.code, h.slots, ?_, ?_, h.drop.waits, h.log⟩
  · intro d hd
    by_cases hdc : d = c'
    · subst hdc
      have htop := last_top_of_le hle hlast
      exact ⟨e'', he'', hh.of_le hle, by rw [htop]; trivial, fun _ => htop⟩
    · rw [Function.update_of_ne hdc] at hd
      exact h.ctxs d hd
  · intro d
    by_cases hdc : d = c'
    · subst hdc
      rw [hrest]
      exact Nat.zero_le _
    · rw [Function.update_of_ne hdc]
      exact h.drop.count d

/-- A word of scratch memory outside of the rings' second words, or the CSR. -/
theorem setWord (h : SoundAt code obj cur pc ready lastAlu log jobs) {i : Nat} {v : UInt32}
    (hi : i < 1025) (hslots : ∀ j < 32,
      SlotOk j (Function.update obj i v (2 + 2 * j)) (Function.update obj i v (3 + 2 * j)))
    (hring : RingStep obj (Function.update obj i v)) :
    SoundAt code (Function.update obj i v) cur pc ready lastAlu log jobs := by
  have hregs : ∀ c r, Function.update obj i v (ownWord c r) = obj (ownWord c r) := by
    intro c r
    exact Function.update_of_ne (ne_ownWord c hi).symm _ _
  refine ⟨fun k hk => ?_, hslots, ?_, h.count, ?_, h.log⟩
  · rw [Function.update_of_ne (by omega)]
    exact h.code k hk
  · intro c hc
    obtain ⟨e, he, hholds, hlast⟩ := h.ctxs c hc
    exact ⟨e, he, hholds.ringStep (fun r _ => hregs c r) hring, hlast⟩
  · intro J hJ
    exact (h.waits J hJ).frame (fun c _ r _ => hregs c r) (fun _ _ => rfl) hring

/-- The first word of a ring entry. -/
theorem slots_first (h : SoundAt code obj cur pc ready lastAlu log jobs) {j : Nat} {v : UInt32}
    (hv : SlotOk j v (obj (3 + 2 * j))) : ∀ j' < 32,
      SlotOk j' (Function.update obj (2 + 2 * j) v (2 + 2 * j'))
        (Function.update obj (2 + 2 * j) v (3 + 2 * j')) := by
  intro j' hj'
  rw [Function.update_of_ne (show 3 + 2 * j' ≠ 2 + 2 * j by omega)]
  by_cases he : j' = j
  · subst he
    rwa [Function.update_self]
  · rw [Function.update_of_ne (by omega)]
    exact h.slots j' hj'

/-- The second word of a ring entry. -/
theorem slots_second (h : SoundAt code obj cur pc ready lastAlu log jobs) {j : Nat} {v : UInt32}
    (hv : PtrOk j v) : (∀ j' < 32,
      SlotOk j' (Function.update obj (3 + 2 * j) v (2 + 2 * j'))
        (Function.update obj (3 + 2 * j) v (3 + 2 * j'))) ∧
      RingStep obj (Function.update obj (3 + 2 * j) v) := by
  constructor
  · intro j' hj'
    rw [Function.update_of_ne (show 2 + 2 * j' ≠ 3 + 2 * j by omega)]
    by_cases he : j' = j
    · subst he
      rw [Function.update_self]
      exact (h.slots j' hj').second hv
    · rw [Function.update_of_ne (by omega)]
      exact h.slots j' hj'
  · intro j' hj'
    by_cases he : j' = j
    · subst he
      rw [Function.update_self]
      exact .inr hv
    · exact .inl (Function.update_of_ne (by omega) _ _)

/-- A change of one register of the first job's context. -/
theorem progressReg (h : SoundAt code obj cur pc ready lastAlu log (J :: rest)) (J' : Job)
    (hJ : J.ctx = some c) (hJ' : J'.ctx = some c) {r : Nat} (hr : r < 64) {v : UInt32}
    (hwaits : Waits (Function.update obj (ownWord c r) v) pc J') :
    SoundAt code (Function.update obj (ownWord c r) v) cur pc ready lastAlu log (J' :: rest) := by
  have hother : ∀ i, (i < 1025 ∨ 1281 ≤ i) → Function.update obj (ownWord c r) v i = obj i := by
    intro i hi
    have := ownReg_lt c hr
    refine Function.update_of_ne ?_ _ _
    unfold ownWord
    omega
  refine h.progress J' hJ hJ' (fun i _ => hother _ (.inr (by omega))) ?_ ?_ ?_ hwaits
  · intro j hj
    rw [hother _ (.inl (by omega)), hother _ (.inl (by omega))]
    exact h.slots j hj
  · intro c' hc' r' hr'
    exact Function.update_of_ne (fun hw => hc' (ownWord_inj hr' hr hw).1) _ _
  · intro j hj
    exact .inl (hother _ (.inl (by omega)))

/-- The first job makes progress that changes nothing but the job. -/
theorem advance (h : SoundAt code obj cur pc ready lastAlu log (J :: rest)) (J' : Job)
    (hJ : J.ctx = some c) (hJ' : J'.ctx = some c) (hwaits : Waits obj pc J') :
    SoundAt code obj cur pc ready lastAlu log (J' :: rest) :=
  h.progress J' hJ hJ' (fun _ _ => rfl) h.slots (fun _ _ _ _ => rfl) (RingStep.refl obj) hwaits

end SoundAt

/-! ## the workers -/

theorem Holds.havoc (h : Holds obj c e) {r : Nat} (hr : r < 64)
    (htop : e.get r = .top) (hslot : e.slot = true → r ≠ 9) (x : UInt32) :
    Holds (Function.update obj (ownWord c r) x) c e := by
  refine ⟨?_, ?_⟩
  · intro r' hr'
    by_cases he : r' = r
    · subst he
      rw [htop]
      trivial
    · rw [Function.update_of_ne fun hw => he (ownWord_inj hr' hr hw).2]
      exact h.regs r' hr'
  · intro hs
    obtain ⟨j, hj, hnine, hptr⟩ := h.slot hs
    have hne : ownWord c 9 ≠ ownWord c r := fun hw =>
      hslot hs (ownWord_inj (by decide) hr hw).2.symm
    have hring : 35 + 2 * j ≠ ownWord c r := ne_ownWord c (by omega)
    exact ⟨j, hj, by rwa [Function.update_of_ne hne], by rwa [Function.update_of_ne hring]⟩

theorem get_drop_of_mem {n count r : Nat} (h : n ≤ r ∧ r < n + count) :
    (e.drop n count).get r = .top := by
  rcases get_drop e n count r with htop | ⟨hnot, -⟩
  · exact htop
  · exact absurd h hnot

theorem ownReg_add {n i : Nat} (c : Ctx) (hn : 48 ≤ n) : ownReg c n + i = ownReg c (n + i) := by
  unfold ownReg
  rw [if_neg (by omega), if_neg (by omega), if_neg (by omega), if_neg (by omega)]
  omega

/-- The word of its memory that a job is at. -/
theorem toNat_offset {job : MemoryJob} {i bound : Nat} (hi : i < job.count.toNat)
    (hb : job.memOffset.toNat + job.count.toNat ≤ bound) (hbound : bound ≤ 2 ^ 21) :
    (job.memOffset + i.toUInt32).toNat = job.memOffset.toNat + i := by
  rw [UInt32.toNat_add, Nat.toUInt32, UInt32.toNat_ofNat']
  omega

section Workers

variable {code : Nat → UInt32} {s : Engine} {job : MemoryJob} {i : Nat} {rest : List Job}

theorem transfer_read {memory : MemOpcode} (hdir : job.direction = .read) :
    s.transfer memory job i =
      (s.record (Engine.accessOf (job.memOffset + i.toUInt32).toNat memory)).setReg
        (job.startReg + i) (s.memWord (job.memOffset + i.toUInt32).toNat memory) := by
  rw [Engine.transfer, hdir]
  cases memory <;> rfl

theorem transfer_write {memory : MemOpcode} (hdir : job.direction = .write) :
    s.transfer memory job i =
      (s.record (Engine.accessOf (job.memOffset + i.toUInt32).toNat memory)).setMemWord
        (job.memOffset + i.toUInt32).toNat (s.reg (job.startReg + i)) memory := by
  rw [Engine.transfer, hdir]
  rfl

theorem accessOf_ram_ok (hi : i < job.count.toNat)
    (hoff : job.memOffset.toNat + job.count.toNat ≤ 2 ^ 21) :
    (Engine.accessOf (job.memOffset + i.toUInt32).toNat .ram).Ok := by
  rw [toNat_offset hi hoff (Nat.le_refl _)]
  show 4 * (job.memOffset.toNat + i) + 4 ≤ 2 ^ 23
  omega

/-- **A word of RAM** is transferred. -/
theorem Sound.transfer_ram (h : Sound code s (.mem .ram job i :: rest)) (hi : i < job.count.toNat) :
    Sound code (s.transfer .ram job i) (.mem .ram job (i + 1) :: rest) := by
  obtain ⟨c, k, e, hc, hholds, hposts, hok⟩ := h.waits _ List.mem_cons_self
  cases k <;> try contradiction
  case ramRead n count =>
    obtain ⟨hdir, hstart, hn, hbank, rfl, hoff⟩ := id hok
    have hword : 1025 + (job.startReg + i) = ownWord c (n + i) := by
      rw [hstart, ownReg_add c hn, ownWord]
    have hframe : (Kind.frame e (.ramRead n job.count.toNat)).get (n + i) = .top :=
      get_drop_of_mem ⟨by omega, by omega⟩
    rw [transfer_read hdir, Engine.setReg, hword]
    exact (SoundAt.record h (accessOf_ram_ok hi hoff)).progressReg (.mem .ram job (i + 1)) hc hc
      (by omega) ⟨c, .ramRead n job.count.toNat, e, hc,
        hholds.havoc (by omega) hframe (by omega) _, hposts, hok⟩
  case ramWrite =>
    obtain ⟨hdir, hoff⟩ := id hok
    rw [transfer_write hdir]
    exact (SoundAt.record h (accessOf_ram_ok hi hoff)).advance (.mem .ram job (i + 1)) hc hc
      ⟨c, .ramWrite, e, hc, hholds, hposts, hok⟩

/-- A ring entry's words are read one after the other. -/
theorem Sound.transfer_slotRead {n : Nat} {rx : Bool}
    (h : Sound code s (.mem .scratch job i :: rest)) (hi : i < job.count.toNat)
    (hc : job.callback = some c) (hholds : Holds s.obj c (Kind.frame e (.slotRead n rx)))
    (hposts : ∀ e' ∈ Kind.posts e (.slotRead n rx), covered c (s.pcCtx c).toNat e' = true)
    (hok : Kind.Ok s.obj c (.slotRead n rx) (.mem .scratch job i)) :
    Sound code (s.transfer .scratch job i) (.mem .scratch job (i + 1) :: rest) := by
  obtain ⟨hdir, hstart, hn, hbank, hcount, j, hj, hoff, hone, -⟩ := hok
  have hj32 : j < 32 := by
    cases rx <;> simp at hj <;> omega
  have hk : (job.memOffset + i.toUInt32).toNat = 2 + 2 * j + i := by
    rw [toNat_offset hi (show _ ≤ 1024 by omega) (by decide), hoff]
  have hev : (Engine.accessOf (2 + 2 * j + i) .scratch).Ok := by
    show 2 + 2 * j + i < 1024
    omega
  have hword : 1025 + (job.startReg + i) = ownWord c (n + i) := by
    rw [hstart, ownReg_add c hn, ownWord]
  have hframe : (Kind.frame e (.slotRead n rx)).get (n + i) = .top :=
    get_drop_of_mem ⟨by omega, by omega⟩
  rw [transfer_read hdir, Engine.setReg, hword, hk]
  refine (SoundAt.record h hev).progressReg (.mem .scratch job (i + 1)) hc hc (by omega)
    ⟨c, .slotRead n rx, e, hc, hholds.havoc (by omega) hframe (by omega) _, hposts,
      hdir, hstart, hn, hbank, hcount, j, hj, hoff, ?_, ?_⟩
  · -- the first word is read: it and the second word are an entry
    intro hd
    obtain rfl : i = 0 := by omega
    have hthird : 3 + 2 * j ≠ ownWord c n := ne_ownWord c (by omega)
    rw [Nat.add_zero, Nat.add_zero, Function.update_self, Function.update_of_ne hthird]
    exact h.slots j hj32
  · intro hd
    obtain rfl : i = 1 := by omega
    have hne : ownWord c n ≠ ownWord c (n + 1) := fun hw =>
      absurd (ownWord_inj (by omega) (by omega) hw).2 (by omega)
    rw [Function.update_self, Function.update_of_ne hne]
    have hthird : 2 + 2 * j + 1 = 3 + 2 * j := by omega
    simpa only [Engine.memWord, Engine.scratch, hthird] using hone rfl

/-- **A word of scratch memory** is transferred. -/
theorem Sound.transfer_scratch (h : Sound code s (.mem .scratch job i :: rest))
    (hi : i < job.count.toNat) :
    Sound code (s.transfer .scratch job i) (.mem .scratch job (i + 1) :: rest) := by
  obtain ⟨c, k, e, hc, hholds, hposts, hok⟩ := h.waits _ List.mem_cons_self
  cases k <;> try contradiction
  case slotRead n rx => exact h.transfer_slotRead hi hc hholds hposts hok
  case ptrWrite n =>
    obtain ⟨hdir, hstart, hn, hcount, hptr, j, hj, hnine, hoff, -⟩ := hok
    obtain rfl : i = 0 := by omega
    have hk : (job.memOffset + (0 : Nat).toUInt32).toNat = 3 + 2 * (j + 16) := by
      rw [toNat_offset hi (show _ ≤ 1024 by omega) (by decide), hoff]
      omega
    have hev : (Engine.accessOf (3 + 2 * (j + 16)) .scratch).Ok := by
      show 3 + 2 * (j + 16) < 1024
      omega
    have hval : s.reg (job.startReg + 0) = s.obj (ownWord c n) := by
      rw [Nat.add_zero, hstart]
      rfl
    have hpok : PtrOk (j + 16) (s.obj (ownWord c n)) := by
      rw [PtrOk, if_neg (by omega)]
      exact hptr
    obtain ⟨hslots, hring⟩ := SoundAt.slots_second h hpok
    have hregs : ∀ r, Function.update s.obj (3 + 2 * (j + 16)) (s.obj (ownWord c n)) (ownWord c r) =
        s.obj (ownWord c r) := by
      intro r
      exact Function.update_of_ne (ne_ownWord c (by omega)).symm _ _
    rw [transfer_write hdir, hk, hval]
    refine ((SoundAt.record h hev).setWord (by omega) hslots hring).advance
      (.mem .scratch job 1) hc hc ⟨c, .ptrWrite n, e, hc, hholds.ringStep (fun r _ => hregs r) hring,
        hposts, hdir, hstart, hn, hcount, ?_, j, hj, ?_, hoff, fun _ => ?_⟩
    · rwa [hregs]
    · rwa [hregs]
    · rwa [show 35 + 2 * j = 3 + 2 * (j + 16) by omega, Function.update_self]
  case sizeWrite n =>
    obtain ⟨hdir, hstart, hn, hcount, j, hj, hoff, hslot⟩ := hok
    obtain rfl : i = 0 := by omega
    have hk : (job.memOffset + (0 : Nat).toUInt32).toNat = 2 + 2 * j := by
      rw [toNat_offset hi (show _ ≤ 1024 by omega) (by decide), hoff]
      rfl
    have hev : (Engine.accessOf (2 + 2 * j) .scratch).Ok := by
      show 2 + 2 * j < 1024
      omega
    have hval : s.reg (job.startReg + 0) = s.obj (ownWord c n) := by
      rw [Nat.add_zero, hstart]
      rfl
    have hring : RingStep s.obj (Function.update s.obj (2 + 2 * j) (s.obj (ownWord c n))) :=
      RingStep.update (fun j' _ => by omega) _
    have hregs : ∀ r, Function.update s.obj (2 + 2 * j) (s.obj (ownWord c n)) (ownWord c r) =
        s.obj (ownWord c r) := by
      intro r
      exact Function.update_of_ne (ne_ownWord c (by omega)).symm _ _
    rw [transfer_write hdir, hk, hval]
    refine ((SoundAt.record h hev).setWord (by omega) (SoundAt.slots_first h hslot) hring).advance
      (.mem .scratch job 1) hc hc ⟨c, .sizeWrite n, e, hc,
        hholds.ringStep (fun r _ => hregs r) hring, hposts, hdir, hstart, hn, hcount, j, hj, hoff, ?_⟩
    rw [hregs]
    exact hring.slotOk hj hslot

end Workers

/-! ## finished jobs -/

theorem Holds.learn (h : Holds obj c e) {r : Nat} (hr : r < 64) {v : AVal}
    (hv : v.Mem (obj (ownWord c r))) : Holds obj c (e.set r v) := by
  have hset := h.set hr hv
  rwa [Function.update_eq_self] at hset

/-- A ring entry was read. -/
theorem posts_slotRead {n : Nat} {rx : Bool} {j : Nat}
    (h : Holds obj c (Kind.frame e (.slotRead n rx))) (hn : n + 2 ≤ 64)
    (hj : if rx then 16 ≤ j ∧ j < 32 else j < 16)
    (hslot : SlotOk j (obj (ownWord c n)) (obj (ownWord c (n + 1)))) :
    ∃ e' ∈ Kind.posts e (.slotRead n rx), Holds obj c e' ∧ e'.last = .top := by
  have hboth : ∀ v w : AVal, v.Mem (obj (ownWord c n)) → w.Mem (obj (ownWord c (n + 1))) →
      Holds obj c (((Kind.frame e (.slotRead n rx)).set (n + 1) w).set n v) :=
    fun v w hv hw => (h.learn (by omega) hw).learn (by omega) hv
  unfold SlotOk at hslot
  cases rx with
  | true =>
    simp only [if_true] at hj
    rw [if_neg (by omega)] at hslot
    rcases hslot with hzero | ⟨hready, hptr⟩
    · exact ⟨_, List.mem_cons_self, hboth _ _ hzero trivial, rfl⟩
    · exact ⟨_, List.mem_cons_of_mem _ List.mem_cons_self, hboth _ _ hready hptr, rfl⟩
  | false =>
    simp only [Bool.false_eq_true, if_false] at hj
    rw [if_pos hj] at hslot
    obtain ⟨hidle | hready, hptr⟩ := hslot
    · exact ⟨_, List.mem_cons_self, hboth _ _ hidle hptr, rfl⟩
    · exact ⟨_, List.mem_cons_of_mem _ List.mem_cons_self, hboth _ _ hready hptr, rfl⟩

/-- A memory job that has moved all its words. -/
theorem posts_mem {memory : MemOpcode} {job : MemoryJob} {i : Nat}
    (hi : job.count.toNat ≤ i) (k : Kind) (e : AEnv) (h : Holds obj c (k.frame e))
    (hok : k.Ok obj c (.mem memory job i)) :
    ∃ e' ∈ k.posts e, Holds obj c e' ∧ e'.last = .top := by
  cases k <;> cases memory <;> try contradiction
  case ramRead.ram => exact ⟨_, List.mem_singleton_self _, h, rfl⟩
  case ramWrite.ram => exact ⟨_, List.mem_singleton_self _, h, rfl⟩
  case sizeWrite.scratch => exact ⟨_, List.mem_singleton_self _, h, rfl⟩
  case ptrWrite.scratch n =>
    obtain ⟨-, -, -, hcount, -, j, hj, hnine, -, hdone⟩ := hok
    exact ⟨_, List.mem_singleton_self _,
      ⟨h.regs, fun _ => ⟨j, hj, hnine, hdone (by omega)⟩⟩, rfl⟩
  case slotRead.scratch n rx =>
    obtain ⟨-, -, -, hn, hcount, j, hj, -, -, htwo⟩ := hok
    exact posts_slotRead h hn hj (htwo (by omega))

/-- A FIFO job; one that receives must have its size. -/
theorem posts_fifo {opcode : FifoOpcode} {job : FifoJob} {sized : Bool}
    (hsized : opcode = .rFifoRd → sized = true) (k : Kind) (e : AEnv)
    (h : Holds obj c (k.frame e)) (hok : k.Ok obj c (.fifo opcode job sized)) :
    ∃ e' ∈ k.posts e, Holds obj c e' ∧ e'.last = .top := by
  cases k <;> cases opcode <;> try contradiction
  case transmit.tFifoWr => exact ⟨_, List.mem_singleton_self _, h, rfl⟩
  case deliver.rxPkt => exact ⟨_, List.mem_singleton_self _, h, rfl⟩
  case receive.rFifoRd n =>
    obtain ⟨-, hn, -, hsize⟩ := hok
    exact ⟨_, List.mem_singleton_self _,
      h.learn hn (AVal.mem_between.2 ⟨Nat.zero_le _, hsize (hsized rfl)⟩), rfl⟩

section Finish

variable {code : Nat → UInt32} {s : Engine} {rest : List Job}

/-- **A job's callback** is run. -/
theorem Sound.callback {J : Job} (h : Sound code s (J :: rest))
    (hdone : ∀ (c : Ctx) (k : Kind) (e : AEnv), Holds s.obj c (k.frame e) → k.Ok s.obj c J →
      ∃ e' ∈ k.posts e, Holds s.obj c e' ∧ e'.last = .top) :
    Sound code (s.callback J.ctx) rest := by
  obtain ⟨c, -, -, hc, -⟩ := h.waits J List.mem_cons_self
  rw [hc]
  exact SoundAt.finish h hc (hdone c)

variable {job : FifoJob}

/-- **The size of a received packet** is stored. -/
theorem Sound.setSize (h : Sound code s (.fifo .rFifoRd job false :: rest)) {v : UInt32}
    (hv : v.toNat ≤ 1514) :
    Sound code (s.setReg job.size v) (.fifo .rFifoRd job true :: rest) := by
  obtain ⟨c, k, e, hc, hholds, hposts, hok⟩ := h.waits _ List.mem_cons_self
  cases k <;> try contradiction
  case receive n =>
    obtain ⟨hsize, hn, hstart, -⟩ := hok
    have hframe : (Kind.frame e (.receive n)).get n = .top :=
      get_drop_of_mem ⟨Nat.le_refl _, by omega⟩
    have hslot : (Kind.frame e (.receive n)).slot = true → n ≠ 9 := by
      intro hs
      simp only [Kind.frame, Bool.and_eq_true, bne_iff_ne, ne_eq] at hs
      exact hs.2
    have hword : 1025 + job.size = ownWord c n := by rw [hsize, ownWord]
    rw [Engine.setReg, hword]
    refine SoundAt.progressReg h (.fifo .rFifoRd job true) hc hc hn
      ⟨c, .receive n, e, hc, hholds.havoc hn hframe hslot v, hposts, hsize, hn, hstart, fun _ => ?_⟩
    rwa [Function.update_self]

/-- Where a FIFO job's packet lies, and for a packet on its way out how long it is. -/
theorem Sound.fifo_bounds {opcode : FifoOpcode} {sized : Bool}
    (h : Sound code s (.fifo opcode job sized :: rest)) :
    4 * job.start.toNat + 1518 ≤ 2 ^ 23 ∧
      (opcode ≠ .rFifoRd → (s.reg job.size).toNat ≤ 1518) := by
  obtain ⟨c, k, e, -, -, -, hok⟩ := h.waits _ List.mem_cons_self
  cases k <;> cases opcode <;> try contradiction
  case transmit.tFifoWr n =>
    obtain ⟨hsize, hn, hstart, hlen⟩ := hok
    refine ⟨hstart, fun _ => ?_⟩
    rw [Engine.reg, hsize]
    exact hlen
  case receive.rFifoRd n => exact ⟨hok.2.2.1, fun hne => absurd rfl hne⟩
  case deliver.rxPkt n =>
    obtain ⟨hsize, hn, hstart, hlen⟩ := hok
    refine ⟨hstart, fun _ => ?_⟩
    rw [Engine.reg, hsize]
    exact hlen

end Finish

end Ooows.Net
