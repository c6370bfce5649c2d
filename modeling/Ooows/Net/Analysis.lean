import Ooows.Lib.Strided
import Ooows.Net.Firmware
import Ooows.Net.Microengine

/-!
# Ooows.Net.Analysis

An abstract interpretation of the firmware.

* `AVal` describes the value of a register, `AEnv` the registers of one context at
  one instruction.
* `AEnv.step` follows an instruction that stays in its context; `AEnv.kindOf`
  classifies the job of an instruction that swaps out, and `Kind.posts` says in
  which environments the context may find itself once the job is done.
* `cuts` annotates the labels, as loop invariants; `rows` fills in the instructions
  between them, and `check` tests that the annotation is closed under every
  instruction.

The environment at an instruction is a list of alternatives.  Two are needed after
a ring entry was read: either it was not ready, or its second word is a pointer.
-/

namespace Ooows.Net

open Lib

/-- What is known of a register. -/
inductive AVal
  | top
  /-- The CSR, with both transmit offload bits clear. -/
  | csr
  | range (r : Strided)
  deriving DecidableEq, Repr

namespace AVal

def Mem (v : UInt32) : AVal → Prop
  | .top => True
  | .csr => v &&& 0x14 = 0
  | .range r => r.Mem v.toNat

def le : AVal → AVal → Bool
  | _, .top => true
  | .csr, .csr => true
  | .range r, .range r' => r.le r'
  | _, _ => false

def const (c : Nat) : AVal := .range (.const c)

def between (lo hi : Nat) : AVal := .range (.between lo hi)

/-- A range, if it fits into a register. -/
def ofRange (r : Strided) : AVal := if r.hi < 2 ^ 32 then .range r else .top

/-- ALU operations, as far as the firmware needs them. -/
def alu : AluOp → AVal → AVal → AVal
  | .second, _, v => v
  | .plus, .range r, .range r' => ofRange (r.add r')
  | .minus, .range r, .range r' =>
    if r'.lo = r'.hi ∧ r'.hi ≤ r.lo ∧ r.hi < 2 ^ 32 then .range (r.sub r'.lo) else .top
  | .xor, .range r, .range r' =>
    -- setting the ready bit
    if r' = .const (2 ^ 31) ∧ r.hi < 2 ^ 31 then .range (r.add r') else .top
  | .and, .range r, .range r' =>
    -- testing the ready bit
    if r' = .const (2 ^ 31) then
      if r.hi < 2 ^ 31 then const 0
      else if 2 ^ 31 ≤ r.lo then const (2 ^ 31) else .top
    else .top
  | .and, .range r, .csr => if r = .const 0x4 ∨ r = .const 0x10 then const 0 else .top
  | .plusFour, _, _ => between 0 15
  | .plusEight, _, _ => between 0 255
  | _, _, _ => .top

/-- The shift of `ALU_SHF`. -/
def shift (numShift : Nat) : Shift → AVal → AVal
  | .left, .range r => ofRange (r.scale (2 ^ numShift))
  | _, _ => .top

/-- The three low bytes. -/
def lowBytes : AVal → AVal
  | .range r => if r.lo / 2 ^ 24 = r.hi / 2 ^ 24 then .range (r.rem (2 ^ 24)) else .top
  | _ => .top

/-- The value of a constant. -/
def const? : AVal → Option Nat
  | .range r => if r.lo = r.hi then some r.lo else none
  | _ => none

end AVal

/-- What is known of a context's registers, numbered as in its instructions: general
registers from 0, write registers from 32, read registers from 48. -/
structure AEnv where
  regs : List (Nat × AVal)
  /-- `m_last_alu`. -/
  last : AVal
  /-- The receive ring's entry number `reg_9 / 2` holds a pointer. -/
  slot : Bool
  deriving DecidableEq, Repr

/-- Pointers in the receive ring. -/
def rxPtr : AVal := .between 8193 138753

/-- Pointers in the transmit ring. -/
def txPtr : AVal := .between 0 244356

/-- What becomes of the issuing context when a job is done. -/
inductive Kind
  /-- Words of RAM are read into registers from `n` on. -/
  | ramRead (n count : Nat)
  | ramWrite
  /-- An entry of a ring is read into registers `n` and `n + 1`. -/
  | slotRead (n : Nat) (rx : Bool)
  /-- A pointer is written to the receive ring's entry number `reg_9 / 2`. -/
  | ptrWrite (n : Nat)
  /-- The first word of an entry is written. -/
  | sizeWrite (n : Nat)
  | transmit (n : Nat)
  /-- The size of a packet comes back in register `n`. -/
  | receive (n : Nat)
  | deliver (n : Nat)
  deriving DecidableEq, Repr

namespace AEnv

/-- Nothing is known. -/
def top : AEnv := ⟨[], .top, false⟩

def get (e : AEnv) (r : Nat) : AVal := (e.regs.lookup r).getD .top

def set (e : AEnv) (r : Nat) (v : AVal) : AEnv :=
  ⟨(r, v) :: e.regs, e.last, e.slot && r != 9⟩

/-- Forget registers `n` to `n + count - 1`. -/
def drop (e : AEnv) (n count : Nat) : AEnv :=
  ⟨e.regs.filter fun p => !(decide (n ≤ p.1 ∧ p.1 < n + count)), e.last, e.slot⟩

def le (e e' : AEnv) : Bool :=
  e'.regs.all (fun p => (e.get p.1).le (e'.get p.1)) && e.last.le e'.last && (!e'.slot || e.slot)

/-- The number of a register operand that belongs to the context. -/
def own (r : Register) : Option Nat :=
  if r.type = .relative ∧ r.number.toNat < 64 then some r.number.toNat else none

def operand (e : AEnv) (r : Register) : AVal :=
  match own r with
  | some n => e.get n
  | none => .top

/-- Whether a branch is taken, if that is known. -/
def cond (c : Ctx) (v v' : AVal) : BranchOpcode → Option Bool
  | .br => some true
  | .brEq => v.const?.bind fun a => v'.const?.map fun b => decide (a = b)
  | .brNeq => v.const?.bind fun a => v'.const?.map fun b => decide (a ≠ b)
  | .brEqCtx => v.const?.map fun a => decide (a = c.val)
  | .brNeqCtx => v.const?.map fun a => decide (a ≠ c.val)
  | _ => none

/-- Assign to a register of the context. -/
def assign (e : AEnv) (dst : Register) (v : AVal) : Option AEnv :=
  (own dst).map fun d => e.set d v

/-- The instructions that may follow, and what is known there; `none` for an
instruction that is not followed here. -/
def step (c : Ctx) (pc : Nat) (e : AEnv) : Instruction (Fin 4096) → Option (List (Nat × AEnv))
  | .alu .alu dst src1 type src2 _ _ =>
    let v := AVal.alu type (e.operand src1) (e.operand src2)
    (e.assign dst v).map fun e => [(pc + 1, { e with last := v })]
  | .alu .aluShf dst src1 type src2 shift numShift =>
    let v := (AVal.alu type (e.operand src1) (e.operand src2)).shift numShift.val shift
    (e.assign dst v).map fun e => [(pc + 1, { e with last := v })]
  | .immediate .immed dst ival rot =>
    (e.assign dst (.const (Engine.performRot ival.toUInt32 rot).toNat)).map fun e => [(pc + 1, e)]
  | .load opcode dst mask src rot =>
    let v := if opcode = .ldFieldWClr ∧ mask = 7 ∧ rot = .noRot ∧ own src ≠ own dst then
      (e.operand src).lowBytes else .top
    (e.assign dst v).map fun e => [(pc + 1, e)]
  | .csr dst csrNum =>
    (e.assign dst (if csrNum = 0 then .csr else .top)).map fun e => [(pc + 1, e)]
  | .branch opcode src1 src2 target =>
    match cond c (e.operand src1) (e.operand src2) opcode with
    | some true => some [(target.val, e)]
    | some false => some [(pc + 1, e)]
    | none => some [(target.val, e), (pc + 1, e)]
  | .nop => some [(pc + 1, e)]
  | _ => none

/-- The sum of two registers as an offset. -/
def offset (e : AEnv) (addr1 addr2 : Register) : Option Strided :=
  match e.operand addr1, e.operand addr2 with
  | .range r, .range r' => if (r.add r').hi < 2 ^ 32 then some (r.add r') else none
  | _, _ => none

/-- The number of words of a transfer. -/
def count (e : AEnv) (count : Fin 16) : Option Nat :=
  if count = 0 then e.last.const? else some count.val

/-- An offset is `reg_9` plus a constant. -/
def fromNine (e : AEnv) (addr1 addr2 : Register) (c : Nat) : Bool :=
  own addr1 = some 9 && (e.get 9).le (.range ⟨0, 30, 2⟩) && (e.operand addr2).le (.const c)

/-- The first word of an entry may be written: what goes there and where. -/
def sizeOk (e : AEnv) (addr1 addr2 : Register) (off : Strided) (v : AVal) : Bool :=
  off.le ⟨2, 32, 2⟩ && v.le (.between 0 1518) ||
  off.le ⟨34, 64, 2⟩ && v.le (.const 0) ||
  e.slot && e.fromNine addr1 addr2 34 && v.le (.between (2 ^ 31) (2 ^ 31 + 1514))

/-- The job of an instruction that swaps out; `none` if it may do harm. -/
def kindOf (e : AEnv) : Instruction (Fin 4096) → Option Kind
  | .memory .ram .read xferReg addr1 addr2 count .ctxSwap =>
    (own xferReg).bind fun n => (e.count count).bind fun k => (e.offset addr1 addr2).bind fun off =>
      if 48 ≤ n ∧ n + k ≤ 64 ∧ k ≤ 2 ∧ off.hi + k ≤ 2 ^ 21 then some (.ramRead n k) else none
  | .memory .ram .write xferReg addr1 addr2 count .ctxSwap =>
    (own xferReg).bind fun n => (e.count count).bind fun k => (e.offset addr1 addr2).bind fun off =>
      if 32 ≤ n ∧ n < 48 ∧ n + k ≤ 48 ∧ k ≤ 2 ∧ off.hi + k ≤ 2 ^ 21 then some .ramWrite
      else none
  | .memory .scratch .read xferReg addr1 addr2 count .ctxSwap =>
    (own xferReg).bind fun n => (e.count count).bind fun k => (e.offset addr1 addr2).bind fun off =>
      if 48 ≤ n ∧ n + 2 ≤ 64 ∧ k = 2 then
        if off.le ⟨2, 32, 2⟩ then some (.slotRead n false)
        else if off.le ⟨34, 64, 2⟩ then some (.slotRead n true) else none
      else none
  | .memory .scratch .write xferReg addr1 addr2 count .ctxSwap =>
    (own xferReg).bind fun n => (e.count count).bind fun k => (e.offset addr1 addr2).bind fun off =>
      if 32 ≤ n ∧ n + 1 ≤ 48 ∧ k = 1 then
        if e.fromNine addr1 addr2 35 && (e.get n).le rxPtr then some (.ptrWrite n)
        else if e.sizeOk addr1 addr2 off (e.get n) then some (.sizeWrite n) else none
      else none
  | .fifo opcode size addr1 addr2 .ctxSwap =>
    (own size).bind fun n => (e.offset addr1 addr2).bind fun off =>
      if 4 * off.hi + 1518 ≤ 2 ^ 23 then
        match opcode with
        | .tFifoWr => if (e.get n).le (.between 0 1518) then some (.transmit n) else none
        | .rFifoRd => some (.receive n)
        | .rxPkt => if (e.get n).le (.between 0 1518) then some (.deliver n) else none
      else none
  | _ => none

end AEnv

namespace Kind

/-- What stays known while the job is under way. -/
def frame (e : AEnv) : Kind → AEnv
  | .ramRead n count => { e.drop n count with last := .top }
  | .slotRead n _ => { e.drop n 2 with last := .top }
  | .receive n => { e.drop n 1 with last := .top, slot := e.slot && n != 9 }
  | _ => { e with last := .top }

/-- What may be known once the job is done. -/
def posts (e : AEnv) (k : Kind) : List AEnv :=
  let f := k.frame e
  match k with
  | .slotRead n true =>
    [(f.set (n + 1) .top).set n (.const 0),
      (f.set (n + 1) rxPtr).set n (.between (2 ^ 31) (2 ^ 31 + 1514))]
  | .slotRead n false =>
    [(f.set (n + 1) txPtr).set n (.between 0 1518),
      (f.set (n + 1) txPtr).set n (.between (2 ^ 31) (2 ^ 31 + 1518))]
  | .ptrWrite _ => [{ f with slot := true }]
  | .receive n => [f.set n (.between 0 1514)]
  | _ => [f]

end Kind

/-! ## the annotation -/

/-- An instruction swaps its context out. -/
def swaps : Instruction (Fin 4096) → Bool
  | .memory _ _ _ _ _ _ token => token = .ctxSwap
  | .fifo _ _ _ _ token => token = .ctxSwap
  | _ => false

/-- Where control goes from an instruction, and what is known there. -/
def successors (c : Ctx) (pc : Nat) (inst : Instruction (Fin 4096)) (e : AEnv) :
    Option (List (Nat × AEnv)) :=
  if swaps inst then (e.kindOf inst).map fun k => (k.posts e).map fun e => (pc + 1, e)
  else e.step c pc inst

/-- The program counter of a label. -/
def labelPc (l : Label) : Nat :=
  (((extractLabels 0 Firmware.engineUc []).getD []).lookup l).getD 0

/-- Registers with values. -/
def env (regs : List (Nat × AVal)) : AEnv := ⟨regs, .top, false⟩

/-- What holds at the labels a context reaches. -/
def cuts (c : Ctx) : List (Nat × List AEnv) :=
  let rxLoop := [(0, AVal.between 0 255), (6, .between 0 15)]
  let pktLoop := [(1, AVal.between 0 15), (2, .const 34), (3, .const (2 ^ 31))]
  let pkt := (4, AVal.range ⟨0, 30, 2⟩) :: (49, rxPtr) :: pktLoop
  let txLoop := [(0, AVal.between 0 15), (1, .const 2), (2, .const (2 ^ 31))]
  let tx := (3, AVal.between 0 1518) :: (5, .range ⟨0, 30, 2⟩) :: (49, txPtr) :: txLoop
  (0, [.top]) ::
  (if c = 0 then [(labelPc .rxThreadLoop, [env rxLoop])]
  else (labelPc .nonRxThreads, [.top]) ::
    if c = 3 then
      [(labelPc .txThread, [.top]), (labelPc .txThreadLoop, [env txLoop]),
        (labelPc .ipChecksumOffloading, [env tx]), (labelPc .txPacket, [env tx])]
    else
      [(labelPc .packetProcessingFirst, [.top]), (labelPc .packetProcessingSecond, [.top]),
        (labelPc .packetProcessing, [env [(0, .between 0 1)]]),
        (labelPc .packetProcessingLoop, [env pktLoop]),
        (labelPc .sendPktToCore, [env ((5, .between 0 1514) :: pkt)]),
        (labelPc .reallySendPktToCore, [env ((5, .between 0 1514) :: pkt)]),
        (labelPc .donePkt, [env pkt])])

/-- The environments at each instruction from `pc` on, given those that fall through. -/
def rowsFrom (c : Ctx) (pc : Nat) : List (Instruction Nat) → List AEnv → List (List AEnv)
  | [], _ => []
  | inst :: rest, fall =>
    let here := ((cuts c).lookup pc).getD fall
    let next := here.flatMap fun e =>
      (((successors c pc inst.assembled e).getD []).filter fun p => p.1 = pc + 1).map Prod.snd
    here :: rowsFrom c (pc + 1) rest next

def rows (c : Ctx) : List (List AEnv) := rowsFrom c 0 Firmware.program []

/-- What is known at an instruction. -/
def ann (c : Ctx) (pc : Nat) : List AEnv := (rows c).getD pc []

/-- An environment is described by the annotation of an instruction. -/
def covered (c : Ctx) (pc : Nat) (e : AEnv) : Bool := (ann c pc).any e.le

/-- The annotation of one instruction leads to annotated ones. -/
def checkAt (c : Ctx) (pc : Nat) (inst : Instruction Nat) : Bool :=
  (ann c pc).all fun e => match successors c pc inst.assembled e with
    | none => false
    | some next => next.all fun p => covered c p.1 p.2

/-- The annotation is closed under the instructions of the firmware. -/
def check (c : Ctx) : Bool :=
  (List.range 259).all fun pc => checkAt c pc (Firmware.program.getD pc .nop)

/-- The closure test along the rows: what falls through is looked up in the next row. -/
def checkFrom (c : Ctx) (pc : Nat) : List (List AEnv) → List (Instruction Nat) → Bool
  | here :: below, inst :: rest =>
    (here.all fun e => match successors c pc inst.assembled e with
      | none => false
      | some next => next.all fun p =>
        if p.1 = pc + 1 then (below.headD []).any p.2.le else covered c p.1 p.2) &&
    checkFrom c (pc + 1) below rest
  | _, _ => true

/-- Walking along the rows tests each instruction. -/
theorem checkAt_of_checkFrom {c : Ctx} {insts : List (Instruction Nat)} {l : List (List AEnv)}
    {pc i : Nat} {inst : Instruction Nat} (hl : ∀ i, l.getD i [] = ann c (pc + i))
    (hcheck : checkFrom c pc l insts = true) (hi : insts[i]? = some inst) :
    checkAt c (pc + i) inst = true := by
  induction insts generalizing l pc i with
  | nil => simp at hi
  | cons first rest ih =>
    cases l with
    | nil =>
      -- behind the last row nothing is annotated
      rw [checkAt, ← hl i, List.getD_nil, List.all_nil]
    | cons here below =>
      have hbelow : ∀ i, below.getD i [] = ann c (pc + 1 + i) := fun i => by
        rw [Nat.add_right_comm, Nat.add_assoc, ← hl (i + 1), List.getD_cons_succ]
      rw [checkFrom, Bool.and_eq_true] at hcheck
      cases i with
      | succ i =>
        rw [← Nat.add_assoc, Nat.add_right_comm]
        exact ih hbelow hcheck.2 hi
      | zero =>
        obtain rfl : first = inst := Option.some.inj hi
        have hhere : ann c pc = here := (hl 0).symm
        have hnext : below.headD [] = ann c (pc + 1) := by
          rw [← hbelow 0]
          cases below <;> rfl
        rw [Nat.add_zero, checkAt, hhere, ← hcheck.1]
        refine congrArg _ (funext fun e => ?_)
        cases successors c pc first.assembled e with
        | none => rfl
        | some next =>
          refine congrArg (List.all next) (funext fun p => ?_)
          split
          · next hp => rw [covered, hp, hnext]
          · rfl

theorem checkFrom_rows : ∀ c : Ctx, checkFrom c 0 (rows c) Firmware.program = true := by
  decide +kernel

/-- **The annotation is closed** under the instructions of the firmware. -/
theorem check_all (c : Ctx) : check c = true := by
  refine List.all_eq_true.2 fun pc hpc => ?_
  rw [List.mem_range, ← Firmware.length_program] at hpc
  have hrow := checkAt_of_checkFrom (l := rows c) (fun i => by rw [Nat.zero_add, ann])
    (checkFrom_rows c) (List.getElem?_eq_getElem hpc)
  rw [Nat.zero_add] at hrow
  rwa [List.getD_eq_getElem _ _ hpc]

end Ooows.Net
