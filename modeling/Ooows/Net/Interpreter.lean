import Ooows.Net.Queues

/-!
# Ooows.Net.Interpreter

The interpreter keeps the invariant.

`fetch_program`: as long as the code is unchanged, the engine executes the
instructions of the firmware.  `ann_next`: the annotation of an instruction leads to
annotated instructions; this is where the firmware is checked.  An instruction either
stays in its context or issues a job; `Sound.interpreterStep` puts both together.
-/

namespace Ooows.Net

open Lib Lib.Bits

/-! ## the firmware -/

theorem codeByte_eq {image : List UInt8} {uninit : Nat → UInt8} {s : Engine} {k : Nat}
    (hcode : s.code (k / 4) = Engine.codeWord image uninit (k / 4)) (hk : k < image.length) :
    s.codeByte k = image.getD k 0 := by
  have hlt := ofBytes_lt ((List.range 4).map fun j =>
    image.getD (4 * (k / 4) + j) (uninit (4 * (k / 4) + j)))
  simp only [List.length_map, List.length_range] at hlt
  have hj : k % 4 < 4 := Nat.mod_lt _ (by decide)
  have hkj : 4 * (k / 4) + k % 4 = k := Nat.div_add_mod k 4
  rw [Engine.codeByte, hcode, Engine.codeWord, UInt32.toNat_ofNat_of_lt' hlt, ofBytes_digit]
  simp [List.getD_eq_getElem?_getD, hj, hkj, hk]

/-- **The engine executes the firmware** while `m_code` is as it was loaded. -/
theorem fetch_program {uninit : Nat → UInt8} {s : Engine} {pc : Nat} {inst : Instruction Nat}
    (hcode : ∀ i < 1280, s.code i = Engine.codeWord Firmware.image uninit i)
    (hinst : Firmware.program[pc]? = some inst) : s.fetch pc = some inst.assembled := by
  obtain ⟨hlength, hspec⟩ := emit_spec Firmware.emit_program
  have hpc : pc < 259 := by
    have := (List.getElem?_eq_some_iff.1 hinst).1
    rwa [Firmware.length_program] at this
  rw [Firmware.length_program] at hlength
  have hbytes : ((List.range 5).map fun i => s.codeByte (5 * pc + i)) =
      (Firmware.image.drop (5 * pc)).take 5 := by
    refine List.ext_getElem (by simp; omega) fun i h₁ h₂ => ?_
    simp only [List.length_map, List.length_range] at h₁
    have hk : 5 * pc + i < Firmware.image.length := by omega
    rw [List.getElem_map, List.getElem_range, codeByte_eq (hcode _ (by omega)) hk,
      List.getElem_take, List.getElem_drop, List.getD_eq_getElem _ _ hk]
  rw [Engine.fetch, hbytes]
  exact hspec pc inst hinst

theorem length_rowsFrom (c : Ctx) (pc : Nat) (insts : List (Instruction Nat)) (fall : List AEnv) :
    (rowsFrom c pc insts fall).length = insts.length := by
  induction insts generalizing pc fall with
  | nil => rfl
  | cons inst rest ih => simp [rowsFrom, ih]

/-- From an annotated instruction every path leads to annotated ones. -/
theorem ann_next {c : Ctx} {pc : Nat} {e : AEnv} (he : e ∈ ann c pc) :
    ∃ inst next, Firmware.program[pc]? = some inst ∧
      successors c pc inst.assembled e = some next ∧ ∀ p ∈ next, covered c p.1 p.2 = true := by
  have hpc : pc < 259 := by
    by_contra hge
    have hnil : ann c pc = [] := by
      rw [ann, List.getD_eq_default]
      rw [rows, length_rowsFrom, Firmware.length_program]
      omega
    rw [hnil] at he
    contradiction
  obtain ⟨inst, hinst⟩ : ∃ inst, Firmware.program[pc]? = some inst := by
    rw [← Firmware.length_program] at hpc
    exact ⟨_, List.getElem?_eq_getElem hpc⟩
  have hcheck : checkAt c pc (Firmware.program.getD pc .nop) = true :=
    List.all_eq_true.1 (check_all c) pc (List.mem_range.2 hpc)
  rw [List.getD_eq_getElem?_getD, hinst, Option.getD_some] at hcheck
  have hat := List.all_eq_true.1 hcheck e he
  cases hs : successors c pc inst.assembled e with
  | none =>
    rw [hs] at hat
    exact absurd hat Bool.false_ne_true
  | some next =>
    rw [hs] at hat
    exact ⟨inst, next, hinst, hs, List.all_eq_true.1 hat⟩

/-! ## what the interpreter does to the invariant -/

namespace SoundAt

variable {code obj obj' : Nat → UInt32} {cur : Ctx} {pc pc' : Ctx → UInt32} {ready : Ctx → Bool}
  {lastAlu lastAlu' : UInt32} {log : List Event} {jobs : List Job}

theorem jobsOf_cur (h : SoundAt code obj cur pc ready lastAlu log jobs) (hready : ready cur = true) :
    jobsOf cur jobs = 0 := by
  have hc := h.count cur
  rw [hready] at hc
  simpa using hc

/-- The current context executes an instruction and stays. -/
theorem follow (h : SoundAt code obj cur pc ready lastAlu log jobs) (hready : ready cur = true)
    (hobj : ∀ i, (∀ r < 64, i ≠ ownWord cur r) → obj' i = obj i)
    (hpc : ∀ c ≠ cur, pc' c = pc c) {e : AEnv} (he : e ∈ ann cur (pc' cur).toNat)
    (hholds : Holds obj' cur e) (hlast : e.last.Mem lastAlu') :
    SoundAt code obj' cur pc' ready lastAlu' log jobs := by
  have hlow : ∀ i < 1025, obj' i = obj i := fun i hi => hobj i fun r _ => ne_ownWord cur hi
  have hregs : ∀ c ≠ cur, ∀ r < 64, obj' (ownWord c r) = obj (ownWord c r) := by
    intro c hc r hr
    exact hobj _ fun r' hr' hw => hc (ownWord_inj hr hr' hw).1
  have hring : RingStep obj obj' := fun j _ => .inl (hlow _ (by omega))
  refine ⟨fun i hi => ?_, fun j hj => ?_, fun c hc => ?_, h.count, fun J hJ => ?_, h.log⟩
  · rw [hobj, h.code i hi]
    intro r hr
    have := ownReg_lt cur hr
    unfold ownWord
    omega
  · rw [hlow _ (by omega), hlow _ (by omega)]
    exact h.slots j hj
  · by_cases hcur : c = cur
    · subst hcur
      exact ⟨e, he, hholds, hlast, fun hne => absurd rfl hne⟩
    · obtain ⟨e', he', hh, -, htop⟩ := h.ctxs c hc
      refine ⟨e', hpc c hcur ▸ he', hh.ringStep (hregs c hcur) hring, ?_, htop⟩
      rw [htop hcur]
      trivial
  · have hne : ∀ c, J.ctx = some c → c ≠ cur := by
      rintro c hc rfl
      exact ctx_ne_of_jobsOf (h.jobsOf_cur hready) hJ hc
    exact (h.waits J hJ).frame (fun c hc => hregs c (hne c hc)) (fun c hc => hpc c (hne c hc)) hring

/-- The current context issues a job and is swapped out. -/
theorem issue (h : SoundAt code obj cur pc ready lastAlu log jobs) (hready : ready cur = true)
    {J : Job} (hJ : J.ctx = some cur) (hpc : ∀ c ≠ cur, pc' c = pc c) (hwaits : Waits obj pc' J)
    (cur' : Ctx) :
    SoundAt code obj cur' pc' (Function.update ready cur false) lastAlu log (J :: jobs) := by
  refine ⟨h.code, h.slots, fun c hc => ?_, fun c => ?_, fun K hK => ?_, h.log⟩
  · have hcur : c ≠ cur := by
      rintro rfl
      rw [Function.update_self] at hc
      contradiction
    rw [Function.update_of_ne hcur] at hc
    obtain ⟨e, he, hh, hlast, htop⟩ := h.ctxs c hc
    exact ⟨e, hpc c hcur ▸ he, hh, hlast, fun _ => htop hcur⟩
  · by_cases hcur : c = cur
    · subst hcur
      rw [jobsOf_cons, h.jobsOf_cur hready, if_pos hJ, Function.update_self]
      exact Nat.le_refl _
    · rw [jobsOf_cons, if_neg (by rw [hJ]; simpa using Ne.symm hcur), Function.update_of_ne hcur]
      exact h.count c
  · rcases List.mem_cons.1 hK with rfl | hK
    · exact hwaits
    · have hne : ∀ c, K.ctx = some c → c ≠ cur := by
        rintro c hc rfl
        exact ctx_ne_of_jobsOf (h.jobsOf_cur hready) hK hc
      exact (h.waits K hK).frame (fun _ _ _ _ => rfl) (fun c hc => hpc c (hne c hc))
        (RingStep.refl obj)

/-- The interpreter looks at the next context. -/
theorem next (h : SoundAt code obj cur pc ready lastAlu log jobs) (hready : ready cur = false)
    (cur' : Ctx) : SoundAt code obj cur' pc ready lastAlu log jobs :=
  { h with
    ctxs := fun c hc => by
      have hcur : c ≠ cur := by
        rintro rfl
        rw [hready] at hc
        contradiction
      obtain ⟨e, he, hh, hlast, htop⟩ := h.ctxs c hc
      exact ⟨e, he, hh, hlast, fun _ => htop hcur⟩ }

end SoundAt

/-! ## jobs the firmware issues -/

theorem Holds.kindFrame {obj : Nat → UInt32} {c : Ctx} {e : AEnv} (h : Holds obj c e) (k : Kind) :
    Holds obj c (k.frame e) := by
  cases k
  case ramRead n count => exact (h.drop n count).setLast _
  case slotRead n rx => exact (h.drop n 2).setLast _
  case receive n =>
    have hd := h.drop n 1
    exact ⟨hd.regs, fun hs => hd.slot (by simp only [Kind.frame, Bool.and_eq_true] at hs; exact hs.1)⟩
  all_goals exact h.setLast _

section Issue

variable {s : Engine} {c : Ctx} {e : AEnv} {addr1 addr2 : Register}

/-- The offset the engine computes. -/
def offsetOf (s : Engine) (c : Ctx) (addr1 addr2 : Register) : UInt32 :=
  s.reg (Engine.absoluteRegister c addr1) + s.reg (Engine.absoluteRegister c addr2)

theorem offset_mem (h : Holds s.obj c e) {off : Strided} (hoff : e.offset addr1 addr2 = some off) :
    off.Mem (offsetOf s c addr1 addr2).toNat := by
  have h₁ := h.operand addr1
  have h₂ := h.operand addr2
  unfold AEnv.offset at hoff
  split at hoff
  next r r' hr hr' =>
    split at hoff
    next hlt =>
      cases hoff
      rw [hr] at h₁
      rw [hr'] at h₂
      have hadd := Strided.Mem.add h₁ h₂
      have hle := hadd.2.1
      rw [offsetOf, Engine.reg, Engine.reg, UInt32.toNat_add, Nat.mod_eq_of_lt (by omega)]
      exact hadd
    next => contradiction
  next => contradiction

/-- The number of words of a job. -/
def countOf (s : Engine) (count : Fin 16) : UInt8 :=
  if count = 0 then s.lastAlu.toUInt8 else count.val.toUInt8

theorem toNat_countOf {count : Fin 16} {k : Nat} (hlast : e.last.Mem s.lastAlu)
    (hk : e.count count = some k) (hle : k ≤ 2) : (countOf s count).toNat = k := by
  unfold AEnv.count at hk
  unfold countOf
  split at hk
  next hzero =>
    have := AVal.const?_eq hk hlast
    rw [if_pos hzero, UInt32.toNat_toUInt8]
    omega
  next hne =>
    cases hk
    rw [if_neg hne, Nat.toUInt8, UInt8.toNat_ofNat']
    omega

theorem fromNine_spec (h : Holds s.obj c e) {k : Nat} (hk : e.fromNine addr1 addr2 k = true)
    (hlt : k < 2 ^ 31) :
    ∃ j < 16, (s.obj (ownWord c 9)).toNat = 2 * j ∧ (offsetOf s c addr1 addr2).toNat = k + 2 * j := by
  simp only [AEnv.fromNine, Bool.and_eq_true, decide_eq_true_eq] at hk
  obtain ⟨⟨hown, hnine⟩, hconst⟩ := hk
  obtain ⟨-, hhi, j, hj⟩ := (h.regs 9 (by decide)).of_le hnine
  have hk' := AVal.mem_const.1 ((h.operand addr2).of_le hconst)
  simp only at hhi hj
  refine ⟨j, by omega, by omega, ?_⟩
  rw [offsetOf, Engine.reg, Engine.reg, absoluteRegister_own c hown, UInt32.toNat_add, hk']
  rw [ownWord] at hj hhi
  omega

/-- What may be written to the first word of a ring entry. -/
theorem sizeOk_spec (h : Holds s.obj c e)
    (hslots : ∀ j < 32, SlotOk j (s.obj (2 + 2 * j)) (s.obj (3 + 2 * j))) {off : Strided}
    (hoff : off.Mem (offsetOf s c addr1 addr2).toNat) {n : Nat} (hn : n < 64)
    (hok : e.sizeOk addr1 addr2 off (e.get n) = true) :
    ∃ j < 32, (offsetOf s c addr1 addr2).toNat = 2 + 2 * j ∧
      SlotOk j (s.obj (ownWord c n)) (s.obj (3 + 2 * j)) := by
  have hv := h.regs n hn
  simp only [AEnv.sizeOk, Bool.or_eq_true, Bool.and_eq_true] at hok
  rcases hok with (⟨htx, hsize⟩ | ⟨hrx, hzero⟩) | ⟨⟨hslot, hnine⟩, hready⟩
  · obtain ⟨hlo, hhi, j, hj⟩ := Strided.Mem.of_le hoff htx
    simp only at hlo hhi hj
    have hentry := hslots j (by omega)
    rw [SlotOk, if_pos (by omega)] at hentry
    refine ⟨j, by omega, by omega, ?_⟩
    rw [SlotOk, if_pos (by omega)]
    exact ⟨.inl (hv.of_le hsize), hentry.2⟩
  · obtain ⟨hlo, hhi, j, hj⟩ := Strided.Mem.of_le hoff hrx
    simp only at hlo hhi hj
    refine ⟨j + 16, by omega, by omega, ?_⟩
    rw [SlotOk, if_neg (by omega)]
    exact .inl (hv.of_le hzero)
  · obtain ⟨j, hj, hreg, hoff'⟩ := fromNine_spec h hnine (by decide)
    obtain ⟨j', -, hreg', hptr⟩ := h.slot hslot
    obtain rfl : j' = j := by omega
    refine ⟨j' + 16, by omega, by omega, ?_⟩
    rw [SlotOk, if_neg (by omega), show 3 + 2 * (j' + 16) = 35 + 2 * j' by omega]
    exact .inr ⟨hv.of_le hready, hptr⟩

/-- The job of a memory instruction that swaps out. -/
def memJob (s : Engine) (c : Ctx) (direction : Direction) (xferReg addr1 addr2 : Register)
    (count : Fin 16) : MemoryJob :=
  ⟨direction, offsetOf s c addr1 addr2, Engine.absoluteRegister c xferReg, countOf s count, some c⟩

/-- The job of a FIFO instruction that swaps out. -/
def fifoJob (s : Engine) (c : Ctx) (size addr1 addr2 : Register) : FifoJob :=
  ⟨Engine.absoluteRegister c size, offsetOf s c addr1 addr2, some c⟩

/-- A memory job may be issued: the engine accepts its registers, it is of kind `k`,
and it is confined. -/
def Issuable (s : Engine) (c : Ctx) (k : Kind) (memory : MemOpcode) (job : MemoryJob) : Prop :=
  (match job.direction with
    | .read => Engine.isMemoryReadRegister job.startReg
    | .write => Engine.isMemoryWriteRegister job.startReg) = true ∧
  k.Ok s.obj c (.mem memory job 0) ∧ (Event.issue c memory job).Ok

variable {xferReg size : Register} {count : Fin 16} {k : Kind}

theorem readRegister_ok {n : Nat} (c : Ctx) (hlo : 48 ≤ n) {w : Nat} (hhi : n + w ≤ 64)
    (hlt : n < 64) :
    Engine.isMemoryReadRegister (ownReg c n) = true ∧ 192 + 16 * c.val ≤ ownReg c n ∧
      ownReg c n + w ≤ 192 + 16 * c.val + 16 := by
  have hreg : ownReg c n = n + 144 + 16 * c.val := by
    rw [ownReg, if_neg (by omega), if_neg (by omega)]
  simp only [Engine.isMemoryReadRegister, decide_eq_true_eq]
  omega

theorem writeRegister_ok {n : Nat} (c : Ctx) (hlo : 32 ≤ n) {w : Nat} (hhi : n + w ≤ 48)
    (hlt : n < 48) :
    Engine.isMemoryWriteRegister (ownReg c n) = true ∧ 128 + 16 * c.val ≤ ownReg c n ∧
      ownReg c n + w ≤ 128 + 16 * c.val + 16 := by
  have hreg : ownReg c n = n + 96 + 16 * c.val := by
    rw [ownReg, if_neg (by omega), if_pos hlt]
  simp only [Engine.isMemoryWriteRegister, decide_eq_true_eq]
  omega

theorem issuable_ram_read (h : Holds s.obj c e) (hlast : e.last.Mem s.lastAlu)
    (hk : e.kindOf (.memory .ram .read xferReg addr1 addr2 count .ctxSwap) = some k) :
    Issuable s c k .ram (memJob s c .read xferReg addr1 addr2 count) := by
  simp only [AEnv.kindOf, Option.bind_eq_some_iff] at hk
  obtain ⟨n, hn, w, hw, off, hoff, hk⟩ := hk
  split at hk
  next hb =>
    cases hk
    have hreg := absoluteRegister_own c hn
    have hcount := toNat_countOf hlast hw hb.2.2.1
    have hhi := (offset_mem h hoff).2.1
    obtain ⟨hvalid, hlo, htop⟩ := readRegister_ok c hb.1 hb.2.1 (own_lt hn)
    refine ⟨?_, ⟨rfl, hreg, hb.1, hb.2.1, hcount, ?_⟩, ?_, ⟨?_, ?_⟩, ?_⟩ <;>
      simp only [memJob, hreg, hcount]
    all_goals omega
  next => contradiction

theorem issuable_ram_write (h : Holds s.obj c e) (hlast : e.last.Mem s.lastAlu)
    (hk : e.kindOf (.memory .ram .write xferReg addr1 addr2 count .ctxSwap) = some k) :
    Issuable s c k .ram (memJob s c .write xferReg addr1 addr2 count) := by
  simp only [AEnv.kindOf, Option.bind_eq_some_iff] at hk
  obtain ⟨n, hn, w, hw, off, hoff, hk⟩ := hk
  split at hk
  next hb =>
    cases hk
    have hreg := absoluteRegister_own c hn
    have hcount := toNat_countOf hlast hw hb.2.2.2.1
    have hhi := (offset_mem h hoff).2.1
    obtain ⟨hvalid, hlo, htop⟩ := writeRegister_ok c hb.1 hb.2.2.1 hb.2.1
    refine ⟨?_, ⟨rfl, ?_⟩, ?_, ⟨?_, ?_⟩, ?_⟩ <;> simp only [memJob, hreg, hcount]
    all_goals omega
  next => contradiction

theorem issuable_scratch_read (h : Holds s.obj c e) (hlast : e.last.Mem s.lastAlu)
    (hk : e.kindOf (.memory .scratch .read xferReg addr1 addr2 count .ctxSwap) = some k) :
    Issuable s c k .scratch (memJob s c .read xferReg addr1 addr2 count) := by
  simp only [AEnv.kindOf, Option.bind_eq_some_iff] at hk
  obtain ⟨n, hn, w, hw, off, hoff, hk⟩ := hk
  split at hk
  next hb =>
    obtain ⟨hlo, hhi, rfl⟩ := hb
    have hreg := absoluteRegister_own c hn
    have hcount := toNat_countOf hlast hw (Nat.le_refl 2)
    have hmem := offset_mem h hoff
    obtain ⟨hvalid, hbank, htop⟩ := readRegister_ok c hlo hhi (own_lt hn)
    -- the two rings differ only in where their entries are
    have hissue : ∀ (rx : Bool) (j : Nat), (if rx then 16 ≤ j ∧ j < 32 else j < 16) →
        (offsetOf s c addr1 addr2).toNat = 2 + 2 * j →
        Issuable s c (.slotRead n rx) .scratch (memJob s c .read xferReg addr1 addr2 count) := by
      intro rx j hj hj'
      have hlt : j < 32 := by
        cases rx <;> simp only [Bool.false_eq_true, if_false, if_true] at hj <;> omega
      have hnone : ¬ (0 = 1) ∧ ¬ (2 ≤ 0) := by decide
      refine ⟨?_, ⟨rfl, hreg, hlo, hhi, hcount, j, hj, hj', fun hd => absurd hd hnone.1,
        fun hd => absurd hd hnone.2⟩, ?_, ⟨?_, ?_⟩, ?_⟩ <;> simp only [memJob, hreg, hcount]
      all_goals omega
    split at hk
    next htx =>
      cases hk
      obtain ⟨hl, hh, j, hj⟩ := hmem.of_le htx
      simp only at hl hh hj
      exact hissue false j (show j < 16 by omega) (by omega)
    next =>
      split at hk
      next hrx =>
        cases hk
        obtain ⟨hl, hh, j, hj⟩ := hmem.of_le hrx
        simp only at hl hh hj
        exact hissue true (j + 16) (show _ ∧ _ by omega) (by omega)
      next => contradiction
  next => contradiction

theorem issuable_scratch_write (h : Holds s.obj c e) (hlast : e.last.Mem s.lastAlu)
    (hslots : ∀ j < 32, SlotOk j (s.obj (2 + 2 * j)) (s.obj (3 + 2 * j)))
    (hk : e.kindOf (.memory .scratch .write xferReg addr1 addr2 count .ctxSwap) = some k) :
    Issuable s c k .scratch (memJob s c .write xferReg addr1 addr2 count) := by
  simp only [AEnv.kindOf, Option.bind_eq_some_iff] at hk
  obtain ⟨n, hn, w, hw, off, hoff, hk⟩ := hk
  split at hk
  next hb =>
    obtain ⟨hlo, hhi, rfl⟩ := hb
    have hlt := own_lt hn
    have hreg := absoluteRegister_own c hn
    have hcount := toNat_countOf hlast hw (by decide)
    obtain ⟨hvalid, hbank, htop⟩ := writeRegister_ok c hlo hhi hhi
    split at hk
    next hptr =>
      cases hk
      rw [Bool.and_eq_true] at hptr
      obtain ⟨j, hj, hnine, hj'⟩ := fromNine_spec h hptr.1 (by decide)
      refine ⟨?_, ⟨rfl, hreg, hlt, hcount, (h.regs n hlt).of_le hptr.2, j, hj, hnine, hj',
        fun hd => absurd hd (by decide)⟩, ?_, ⟨?_, ?_⟩, ?_⟩ <;> simp only [memJob, hreg, hcount]
      all_goals omega
    next =>
      split at hk
      next hsize =>
        cases hk
        obtain ⟨j, hj, hj', hslot⟩ := sizeOk_spec h hslots (offset_mem h hoff) hlt hsize
        refine ⟨?_, ⟨rfl, hreg, hlt, hcount, j, hj, hj', hslot⟩, ?_, ⟨?_, ?_⟩, ?_⟩ <;>
          simp only [memJob, hreg, hcount]
        all_goals omega
      next => contradiction
  next => contradiction

/-- **A memory instruction the analysis accepts issues a confined job.** -/
theorem issuable_memory {memory : MemOpcode} {direction : Direction} (h : Holds s.obj c e)
    (hlast : e.last.Mem s.lastAlu)
    (hslots : ∀ j < 32, SlotOk j (s.obj (2 + 2 * j)) (s.obj (3 + 2 * j)))
    (hk : e.kindOf (.memory memory direction xferReg addr1 addr2 count .ctxSwap) = some k) :
    Issuable s c k memory (memJob s c direction xferReg addr1 addr2 count) := by
  cases memory <;> cases direction
  case scratch.read => exact issuable_scratch_read h hlast hk
  case scratch.write => exact issuable_scratch_write h hlast hslots hk
  case ram.read => exact issuable_ram_read h hlast hk
  case ram.write => exact issuable_ram_write h hlast hk

theorem ok_fifo {opcode : FifoOpcode} (h : Holds s.obj c e)
    (hk : e.kindOf (.fifo opcode size addr1 addr2 .ctxSwap) = some k) :
    k.Ok s.obj c (.fifo opcode (fifoJob s c size addr1 addr2) false) := by
  simp only [AEnv.kindOf, Option.bind_eq_some_iff] at hk
  obtain ⟨n, hn, off, hoff, hk⟩ := hk
  have hlt := own_lt hn
  have hreg := absoluteRegister_own c hn
  have hhi := (offset_mem h hoff).2.1
  split at hk
  next hb =>
    have hbound : 4 * (offsetOf s c addr1 addr2).toNat + 1518 ≤ 2 ^ 23 := by omega
    cases opcode with
    | tFifoWr =>
      dsimp only at hk
      split at hk
      next hsize =>
        cases hk
        exact ⟨hreg, hlt, hbound, (AVal.mem_between.1 ((h.regs n hlt).of_le hsize)).2⟩
      next => contradiction
    | rFifoRd =>
      cases hk
      exact ⟨hreg, hlt, hbound, fun hf => absurd hf Bool.false_ne_true⟩
    | rxPkt =>
      dsimp only at hk
      split at hk
      next hsize =>
        cases hk
        exact ⟨hreg, hlt, hbound, (AVal.mem_between.1 ((h.regs n hlt).of_le hsize)).2⟩
      next => contradiction
  next => contradiction

end Issue

/-! ## one instruction -/

section Instruction

variable {code : Nat → UInt32} {s : Engine} {c : Ctx} {e : AEnv} {pc : Nat} {rest : List Job}
  {inst : Instruction (Fin 4096)} {next : List (Nat × AEnv)}

/-- What the posts of a kind cover. -/
theorem waits_of_kind {obj : Nat → UInt32} {pc' : Ctx → UInt32} {J : Job} {k : Kind}
    (hJ : J.ctx = some c) (h : Holds obj c e) (hok : k.Ok obj c J) (hpc : (pc' c).toNat = pc + 1)
    (hcov : ∀ p ∈ (k.posts e).map fun e => (pc + 1, e), covered c p.1 p.2 = true) :
    Waits obj pc' J := by
  refine ⟨c, k, e, hJ, h.kindFrame k, fun e' he' => ?_, hok⟩
  rw [hpc]
  exact hcov (pc + 1, e') (List.mem_map_of_mem he')

theorem pcCtx_setPc (s : Engine) (v : UInt32) :
    (s.setPc v).pcCtx = Function.update s.pcCtx s.currentCtx v := rfl

/-- An instruction that stays in its context. -/
theorem Sound.stay (uninit : UInt64) (h : Sound code s (s.jobs ++ rest))
    (hc : s.currentCtx = c) (hready : s.ctxReady c = true) (hcsr : s.csr &&& 0x14 = 0)
    {v : UInt32} (hv : v.toNat = pc + 1) (hholds : Holds s.obj c e) (hlast : e.last.Mem s.lastAlu)
    (hstep : e.step c pc inst = some next) (hcov : ∀ p ∈ next, covered c p.1 p.2 = true) :
    let t := (s.setPc v).interpretInstruction uninit (some inst)
    Sound code t (t.jobs ++ rest) ∧ t.codeLen = s.codeLen := by
  intro t
  subst hc
  have hpc : ((s.setPc v).pcCtx s.currentCtx).toNat = pc + 1 := by
    rw [pcCtx_setPc, Function.update_self, hv]
  obtain ⟨hstays, p, hp, hpt, hht, hlt⟩ : Follows (s.setPc v) t s.currentCtx next :=
    step_sound uninit rfl hpc hcsr hholds hlast hstep
  obtain ⟨e', he', hle⟩ := exists_ann_of_covered (hcov p hp)
  have hjobs : t.jobs = s.jobs := by
    simp only [Engine.jobs, Engine.memJobs, Engine.fifoJobs, hstays.memQueue, hstays.serving,
      hstays.fifoQueue]
    rfl
  have hother : ∀ c ≠ s.currentCtx, t.pcCtx c = s.pcCtx c := by
    intro c hne
    rw [hstays.pcCtx c hne, pcCtx_setPc, Function.update_of_ne hne]
  have hsound := SoundAt.follow h hready hstays.obj hother (hpt ▸ he') (hht.of_le hle)
    (last_of_le hle hlt)
  refine ⟨?_, hstays.codeLen⟩
  rw [Sound, hjobs, hstays.currentCtx, hstays.ctxReady, hstays.log]
  exact hsound

/-- A memory instruction that swaps out. -/
theorem Sound.issueMem (uninit : UInt64) {memory : MemOpcode} {direction : Direction}
    {xferReg addr1 addr2 : Register} {count : Fin 16} {k : Kind}
    (h : Sound code s (s.jobs ++ rest)) (hc : s.currentCtx = c) (hready : s.ctxReady c = true)
    {v : UInt32} (hv : v.toNat = pc + 1) (hholds : Holds s.obj c e) (hlast : e.last.Mem s.lastAlu)
    (hk : e.kindOf (.memory memory direction xferReg addr1 addr2 count .ctxSwap) = some k)
    (hcov : ∀ p ∈ (k.posts e).map fun e => (pc + 1, e), covered c p.1 p.2 = true) :
    let t := (s.setPc v).interpretInstruction uninit
      (some (.memory memory direction xferReg addr1 addr2 count .ctxSwap))
    Sound code t (t.jobs ++ rest) ∧ t.codeLen = s.codeLen := by
  subst hc
  obtain ⟨hvalid, hok, hev⟩ := issuable_memory hholds hlast h.slots hk
  generalize hjob : memJob s s.currentCtx direction xferReg addr1 addr2 count = job at hvalid hok hev
  have ht : (s.setPc v).interpretInstruction uninit
      (some (.memory memory direction xferReg addr1 addr2 count .ctxSwap)) =
      Engine.swapOut { (s.setPc v).record (.issue s.currentCtx memory job) with
        memQueue := Function.update s.memQueue memory (s.memQueue memory ++ [job]) } .ctxSwap := by
    subst hjob
    exact if_pos hvalid
  rw [ht]
  refine ⟨?_, rfl⟩
  have hpc : ∀ c ≠ s.currentCtx, Function.update s.pcCtx s.currentCtx v c = s.pcCtx c :=
    fun c hne => Function.update_of_ne hne _ _
  have hJ : (Job.mem memory job 0).ctx = some s.currentCtx := by
    subst hjob
    rfl
  have hwaits : Waits s.obj (Function.update s.pcCtx s.currentCtx v) (.mem memory job 0) :=
    waits_of_kind hJ hholds hok (by rw [Function.update_self, hv]) hcov
  have hsound := (SoundAt.issue h hready hJ hpc hwaits (s.currentCtx + 1)).record hev
  refine hsound.perm (.symm (.append_right rest (Engine.jobs_issueMem (s := s) ?_ ?_ ?_)))
  all_goals rfl

/-- A FIFO instruction that swaps out. -/
theorem Sound.issueFifo (uninit : UInt64) {opcode : FifoOpcode} {size addr1 addr2 : Register}
    {k : Kind} (h : Sound code s (s.jobs ++ rest)) (hc : s.currentCtx = c)
    (hready : s.ctxReady c = true) {v : UInt32} (hv : v.toNat = pc + 1) (hholds : Holds s.obj c e)
    (hk : e.kindOf (.fifo opcode size addr1 addr2 .ctxSwap) = some k)
    (hcov : ∀ p ∈ (k.posts e).map fun e => (pc + 1, e), covered c p.1 p.2 = true) :
    let t := (s.setPc v).interpretInstruction uninit (some (.fifo opcode size addr1 addr2 .ctxSwap))
    Sound code t (t.jobs ++ rest) ∧ t.codeLen = s.codeLen := by
  subst hc
  refine ⟨?_, rfl⟩
  have hpc : ∀ c ≠ s.currentCtx, Function.update s.pcCtx s.currentCtx v c = s.pcCtx c :=
    fun c hne => Function.update_of_ne hne _ _
  have hwaits : Waits s.obj (Function.update s.pcCtx s.currentCtx v)
      (.fifo opcode (fifoJob s s.currentCtx size addr1 addr2) false) :=
    waits_of_kind rfl hholds (ok_fifo hholds hk) (by rw [Function.update_self, hv]) hcov
  have hsound := SoundAt.issue h hready rfl hpc hwaits (s.currentCtx + 1)
  refine hsound.perm (.symm (.append_right rest (Engine.jobs_issueFifo (s := s) ?_ ?_ ?_)))
  all_goals rfl

/-- Instructions that swap out move words or packets. -/
theorem swaps_cases (h : swaps inst = true) :
    (∃ memory direction xferReg addr1 addr2 count,
      inst = .memory memory direction xferReg addr1 addr2 count .ctxSwap) ∨
    ∃ opcode size addr1 addr2, inst = .fifo opcode size addr1 addr2 .ctxSwap := by
  cases inst with
  | memory memory direction xferReg addr1 addr2 count token =>
    obtain rfl : token = .ctxSwap := of_decide_eq_true h
    exact .inl ⟨memory, direction, xferReg, addr1, addr2, count, rfl⟩
  | fifo opcode size addr1 addr2 token =>
    obtain rfl : token = .ctxSwap := of_decide_eq_true h
    exact .inr ⟨opcode, size, addr1, addr2, rfl⟩
  | _ => exact absurd h Bool.false_ne_true

theorem Sound.instruction (uninit : UInt64) (h : Sound code s (s.jobs ++ rest))
    (hc : s.currentCtx = c) (hready : s.ctxReady c = true) (hcsr : s.csr &&& 0x14 = 0)
    {v : UInt32} (hv : v.toNat = pc + 1) (hholds : Holds s.obj c e) (hlast : e.last.Mem s.lastAlu)
    (hsucc : successors c pc inst e = some next) (hcov : ∀ p ∈ next, covered c p.1 p.2 = true) :
    let t := (s.setPc v).interpretInstruction uninit (some inst)
    Sound code t (t.jobs ++ rest) ∧ t.codeLen = s.codeLen := by
  rw [successors] at hsucc
  split at hsucc
  next hswaps =>
    obtain ⟨k, hk, rfl⟩ := Option.map_eq_some_iff.1 hsucc
    obtain ⟨memory, direction, xferReg, addr1, addr2, count, rfl⟩ | ⟨opcode, size, addr1, addr2, rfl⟩ :=
      swaps_cases hswaps
    · exact h.issueMem uninit hc hready hv hholds hlast hk hcov
    · exact h.issueFifo uninit hc hready hv hholds hk hcov
  next => exact h.stay uninit hc hready hcsr hv hholds hlast hsucc hcov

end Instruction

/-- **The interpreter keeps the invariant**, as long as the transmit offload bits of
the CSR are clear. -/
theorem Sound.interpreterStep {uninit : Nat → UInt8} {s : Engine} {rest : List Job} (u : UInt64)
    (h : Sound (Engine.codeWord Firmware.image uninit) s (s.jobs ++ rest))
    (hlen : s.codeLen = 1295) (hcsr : s.csr &&& 0x14 = 0) :
    Sound (Engine.codeWord Firmware.image uninit) (s.interpreterStep u)
      ((s.interpreterStep u).jobs ++ rest) ∧ (s.interpreterStep u).codeLen = s.codeLen := by
  unfold Engine.interpreterStep
  split
  next => exact ⟨h, rfl⟩
  next =>
    split
    next hready =>
      obtain ⟨e, he, hholds, hlast, -⟩ := h.ctxs _ hready
      obtain ⟨inst, next, hinst, hsucc, hcov⟩ := ann_next he
      have hpc : (s.pcCtx s.currentCtx).toNat < 259 := by
        rw [← Firmware.length_program]
        exact (List.getElem?_eq_some_iff.1 hinst).1
      have hin : ¬ s.pcCtx s.currentCtx ≥ (s.setPc (s.pcCtx s.currentCtx + 1)).codeLen := by
        have hlen' : (s.setPc (s.pcCtx s.currentCtx + 1)).codeLen = 1295 := hlen
        rw [hlen', ge_iff_le, UInt32.le_iff_toNat_le]
        have : (1295 : UInt32).toNat = 1295 := rfl
        omega
      have hv : (s.pcCtx s.currentCtx + 1).toNat = (s.pcCtx s.currentCtx).toNat + 1 := by
        rw [UInt32.toNat_add]
        have : (1 : UInt32).toNat = 1 := rfl
        omega
      have hfetch : (s.setPc (s.pcCtx s.currentCtx + 1)).fetch (s.pcCtx s.currentCtx).toNat =
          some inst.assembled := fetch_program h.code hinst
      dsimp only
      rw [if_neg hin, hfetch]
      exact h.instruction u rfl hready hcsr hv hholds hlast hsucc hcov
    next hready => exact ⟨SoundAt.next h (Bool.eq_false_iff.2 hready) _, rfl⟩

end Ooows.Net
