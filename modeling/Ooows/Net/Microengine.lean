import Ooows.Net.Types
import Ooows.Lib.ByteMem
import Mathlib.Logic.Function.Basic

/-!
# Ooows.Net.Microengine

The microengine: interpreter, scratch memory and RAM workers.

The members `m_scratch`, `m_csr`, `m_registers` and `m_code` follow each other in
the object, and neither the interpreter nor the workers check an index.  They are
therefore one memory of words, `Engine.obj`, counted from the start of `m_scratch`:
a transfer that runs past the registers lands in the code.  What follows `m_code`
(the ready flags, the queues) is not part of it: a word stored there is kept in
`obj` and has no other effect.

The interpreter executes an instruction in one step, the workers transfer one
word in a step.  `Engine.log` records the memory jobs that were issued and every
access to scratch memory and RAM; nothing reads it.
-/

namespace Ooows.Net

open Lib Lib.Bits

abbrev Ctx := Fin 4

/-- `memory_job`; the callback marks the context it names as ready. -/
structure MemoryJob where
  direction : Direction
  memOffset : UInt32
  /-- Index into `m_registers`. -/
  startReg : Nat
  count : UInt8
  callback : Option Ctx
  deriving DecidableEq, Repr

/-- `fifo_job`. -/
structure FifoJob where
  /-- Index of the register that holds the size. -/
  size : Nat
  /-- The word of RAM where the packet starts. -/
  start : UInt32
  callback : Option Ctx
  deriving DecidableEq, Repr

/-- What is recorded about memory. -/
inductive Event
  | issue (ctx : Ctx) (memory : MemOpcode) (job : MemoryJob)
  /-- A word of scratch memory. -/
  | scratch (offset : Nat)
  /-- Bytes of RAM. -/
  | ram (start length : Nat)
  deriving DecidableEq, Repr

structure Engine where
  /-- The words of the object from `m_scratch` on. -/
  obj : Nat → UInt32
  /-- `m_ram`, by bytes. -/
  ram : ByteMem
  currentCtx : Ctx
  pcCtx : Ctx → UInt32
  ctxReady : Ctx → Bool
  codeLen : UInt32
  done : Bool
  mac : List UInt8
  carry : Bool
  sign : Bool
  lastAlu : UInt32
  /-- `m_scratch_queue` and `m_ram_queue`. -/
  memQueue : MemOpcode → List MemoryJob
  /-- The job a worker is at, and how many words it has transferred. -/
  serving : MemOpcode → Option (MemoryJob × Nat)
  /-- `m_tx_queue`, `m_rx_queue` and `m_pkt_in_queue`, by the instruction that fills them. -/
  fifoQueue : FifoOpcode → List FifoJob
  log : List Event

/-- `crc32_tab`. -/
def crc32Tab : List UInt32 := [
  0x00000000, 0x77073096, 0xee0e612c, 0x990951ba, 0x076dc419, 0x706af48f, 0xe963a535, 0x9e6495a3,
  0x0edb8832, 0x79dcb8a4, 0xe0d5e91e, 0x97d2d988, 0x09b64c2b, 0x7eb17cbd, 0xe7b82d07, 0x90bf1d91,
  0x1db71064, 0x6ab020f2, 0xf3b97148, 0x84be41de, 0x1adad47d, 0x6ddde4eb, 0xf4d4b551, 0x83d385c7,
  0x136c9856, 0x646ba8c0, 0xfd62f97a, 0x8a65c9ec, 0x14015c4f, 0x63066cd9, 0xfa0f3d63, 0x8d080df5,
  0x3b6e20c8, 0x4c69105e, 0xd56041e4, 0xa2677172, 0x3c03e4d1, 0x4b04d447, 0xd20d85fd, 0xa50ab56b,
  0x35b5a8fa, 0x42b2986c, 0xdbbbc9d6, 0xacbcf940, 0x32d86ce3, 0x45df5c75, 0xdcd60dcf, 0xabd13d59,
  0x26d930ac, 0x51de003a, 0xc8d75180, 0xbfd06116, 0x21b4f4b5, 0x56b3c423, 0xcfba9599, 0xb8bda50f,
  0x2802b89e, 0x5f058808, 0xc60cd9b2, 0xb10be924, 0x2f6f7c87, 0x58684c11, 0xc1611dab, 0xb6662d3d,
  0x76dc4190, 0x01db7106, 0x98d220bc, 0xefd5102a, 0x71b18589, 0x06b6b51f, 0x9fbfe4a5, 0xe8b8d433,
  0x7807c9a2, 0x0f00f934, 0x9609a88e, 0xe10e9818, 0x7f6a0dbb, 0x086d3d2d, 0x91646c97, 0xe6635c01,
  0x6b6b51f4, 0x1c6c6162, 0x856530d8, 0xf262004e, 0x6c0695ed, 0x1b01a57b, 0x8208f4c1, 0xf50fc457,
  0x65b0d9c6, 0x12b7e950, 0x8bbeb8ea, 0xfcb9887c, 0x62dd1ddf, 0x15da2d49, 0x8cd37cf3, 0xfbd44c65,
  0x4db26158, 0x3ab551ce, 0xa3bc0074, 0xd4bb30e2, 0x4adfa541, 0x3dd895d7, 0xa4d1c46d, 0xd3d6f4fb,
  0x4369e96a, 0x346ed9fc, 0xad678846, 0xda60b8d0, 0x44042d73, 0x33031de5, 0xaa0a4c5f, 0xdd0d7cc9,
  0x5005713c, 0x270241aa, 0xbe0b1010, 0xc90c2086, 0x5768b525, 0x206f85b3, 0xb966d409, 0xce61e49f,
  0x5edef90e, 0x29d9c998, 0xb0d09822, 0xc7d7a8b4, 0x59b33d17, 0x2eb40d81, 0xb7bd5c3b, 0xc0ba6cad,
  0xedb88320, 0x9abfb3b6, 0x03b6e20c, 0x74b1d29a, 0xead54739, 0x9dd277af, 0x04db2615, 0x73dc1683,
  0xe3630b12, 0x94643b84, 0x0d6d6a3e, 0x7a6a5aa8, 0xe40ecf0b, 0x9309ff9d, 0x0a00ae27, 0x7d079eb1,
  0xf00f9344, 0x8708a3d2, 0x1e01f268, 0x6906c2fe, 0xf762575d, 0x806567cb, 0x196c3671, 0x6e6b06e7,
  0xfed41b76, 0x89d32be0, 0x10da7a5a, 0x67dd4acc, 0xf9b9df6f, 0x8ebeeff9, 0x17b7be43, 0x60b08ed5,
  0xd6d6a3e8, 0xa1d1937e, 0x38d8c2c4, 0x4fdff252, 0xd1bb67f1, 0xa6bc5767, 0x3fb506dd, 0x48b2364b,
  0xd80d2bda, 0xaf0a1b4c, 0x36034af6, 0x41047a60, 0xdf60efc3, 0xa867df55, 0x316e8eef, 0x4669be79,
  0xcb61b38c, 0xbc66831a, 0x256fd2a0, 0x5268e236, 0xcc0c7795, 0xbb0b4703, 0x220216b9, 0x5505262f,
  0xc5ba3bbe, 0xb2bd0b28, 0x2bb45a92, 0x5cb36a04, 0xc2d7ffa7, 0xb5d0cf31, 0x2cd99e8b, 0x5bdeae1d,
  0x9b64c2b0, 0xec63f226, 0x756aa39c, 0x026d930a, 0x9c0906a9, 0xeb0e363f, 0x72076785, 0x05005713,
  0x95bf4a82, 0xe2b87a14, 0x7bb12bae, 0x0cb61b38, 0x92d28e9b, 0xe5d5be0d, 0x7cdcefb7, 0x0bdbdf21,
  0x86d3d2d4, 0xf1d4e242, 0x68ddb3f8, 0x1fda836e, 0x81be16cd, 0xf6b9265b, 0x6fb077e1, 0x18b74777,
  0x88085ae6, 0xff0f6a70, 0x66063bca, 0x11010b5c, 0x8f659eff, 0xf862ae69, 0x616bffd3, 0x166ccf45,
  0xa00ae278, 0xd70dd2ee, 0x4e048354, 0x3903b3c2, 0xa7672661, 0xd06016f7, 0x4969474d, 0x3e6e77db,
  0xaed16a4a, 0xd9d65adc, 0x40df0b66, 0x37d83bf0, 0xa9bcae53, 0xdebb9ec5, 0x47b2cf7f, 0x30b5ffe9,
  0xbdbdf21c, 0xcabac28a, 0x53b39330, 0x24b4a3a6, 0xbad03605, 0xcdd70693, 0x54de5729, 0x23d967bf,
  0xb3667a2e, 0xc4614ab8, 0x5d681b02, 0x2a6f2b94, 0xb40bbe37, 0xc30c8ea1, 0x5a05df1b, 0x2d02ef8d]

namespace Engine

/-! ## the object's memory -/

/-- `m_scratch[i]`. -/
def scratch (s : Engine) (i : Nat) : UInt32 := s.obj i

/-- `m_csr`. -/
def csr (s : Engine) : UInt32 := s.obj 1024

/-- `m_registers[r]`. -/
def reg (s : Engine) (r : Nat) : UInt32 := s.obj (1025 + r)

/-- The words of `m_code`. -/
def code (s : Engine) (i : Nat) : UInt32 := s.obj (1281 + i)

/-- Byte `k` of `m_code`. -/
def codeByte (s : Engine) (k : Nat) : UInt8 :=
  UInt8.ofNat ((s.code (k / 4)).toNat / 256 ^ (k % 4))

def setObj (s : Engine) (i : Nat) (v : UInt32) : Engine :=
  { s with obj := Function.update s.obj i v }

def setReg (s : Engine) (r : Nat) (v : UInt32) : Engine := s.setObj (1025 + r) v

/-- `m_code[pc]`, as an instruction. -/
def fetch (s : Engine) (pc : Nat) : Option (Instruction (Fin 4096)) :=
  decode (ofBytes ((List.range 5).map fun i => s.codeByte (5 * pc + i)))

def record (s : Engine) (e : Event) : Engine := { s with log := s.log ++ [e] }

/-- A job's callback. -/
def callback (s : Engine) : Option Ctx → Engine
  | none => s
  | some c => { s with ctxReady := Function.update s.ctxReady c true }

/-- `change_csr`. -/
def changeCsr (s : Engine) (newVal : Bool) (mask : UInt32) : Engine :=
  if newVal then s.setObj 1024 (s.csr ||| mask) else s.setObj 1024 (s.csr &&& ~~~mask)

/-! ## helper functions -/

def nextContext (s : Engine) : Engine := { s with currentCtx := s.currentCtx + 1 }

/-- `absolute_register`. -/
def absoluteRegister (ctx : Ctx) (r : Register) : Nat :=
  let reg := r.number.toNat
  match r.type with
  | .absolute => reg
  | .relative =>
    if reg < 32 then (reg + ctx.val * 32) % 1024 % 256
    else if reg < 48 then ((reg - 32 + 128) % 256 + ctx.val * 16) % 1024 % 256
    else ((reg - 48 + 192) % 256 + ctx.val * 16) % 1024 % 256

/-- `is_memory_read_register`; the count is not looked at. -/
def isMemoryReadRegister (reg : Nat) : Bool := decide (192 ≤ reg ∧ reg < 256)

/-- `is_memory_write_register`; the count is not looked at. -/
def isMemoryWriteRegister (reg : Nat) : Bool := decide (128 ≤ reg ∧ reg < 192)

/-- `perform_rot`. -/
def performRot (val : UInt32) : Rot → UInt32
  | .leftEight => val <<< 8
  | .leftSixteen => val <<< 16
  | _ => val

/-- One turn of the loop of `bytemask_to_bitmask`. -/
def bitmaskStep (m : UInt32 × Nat) : UInt32 × Nat :=
  let bitmask := m.1 >>> 8
  (if m.2 % 2 = 1 then bitmask ^^^ 0xff000000 else bitmask, m.2 / 2)

/-- `bytemask_to_bitmask`. -/
def bytemaskToBitmask (bytemask : Nat) : UInt32 :=
  (bitmaskStep (bitmaskStep (bitmaskStep (bitmaskStep (0, bytemask))))).1

/-! ## instructions -/

/-- The value an ALU operation computes, in 64 bits.  `uninit` is what a result that
is never assigned, or a shift by more than 31, leaves behind. -/
def aluResult (s : Engine) (uninit : UInt64) (a b : UInt32) : AluOp → UInt64
  | .plus => a.toUInt64 + b.toUInt64
  | .minus => (a - b).toUInt64
  | .backwardsMinus => (b - a).toUInt64
  | .second => b.toUInt64
  | .bitNotSecond => (~~~b).toUInt64
  | .and => (a &&& b).toUInt64
  | .or => (a ||| b).toUInt64
  | .xor => (a ^^^ b).toUInt64
  | .plusCarry => a.toUInt64 + b.toUInt64 + s.carry.toNat.toUInt64
  | .aluShiftLeft => if b < 32 then (a <<< b).toUInt64 else uninit
  | .aluShiftRight => if b < 32 then (a >>> b).toUInt64 else uninit
  | .plusIfSign => if s.sign then a.toUInt64 + b.toUInt64 else b.toUInt64
  | .plusFour => ((a + b) &&& 0xF).toUInt64
  | .plusEight => ((a + b) &&& 0xFF).toUInt64
  | .plusSixteen => ((a + b) &&& 0xFFFF).toUInt64
  | .unnamed => uninit

/-- The shift of `ALU_SHF`. -/
def shiftBy (v : UInt32) (numShift : Fin 4) : Shift → UInt32
  | .left => v <<< numShift.val.toUInt32
  | .right => v >>> numShift.val.toUInt32

/-- `interpret_alu_instruction`. -/
def interpretAlu (s : Engine) (uninit : UInt64) (opcode : AluOpcode) (dst src1 : Nat)
    (type : AluOp) (src2 : Nat) (shift : Shift) (numShift : Fin 4) : Engine :=
  let result := s.aluResult uninit (s.reg src1) (s.reg src2) type
  let flagged := { s with
    carry := decide (result &&& 0x100000000 ≠ 0), sign := decide (result &&& 0x80000000 ≠ 0) }
  let assign (v : UInt32) : Engine := { flagged.setReg dst v with lastAlu := v }
  match opcode with
  | .alu => assign result.toUInt32
  | .aluShf => assign (shiftBy result.toUInt32 numShift shift)
  | .dblShf => s

/-- `interpret_immediate_instruction`. -/
def interpretImmediate (s : Engine) (opcode : ImmedOpcode) (dst : Nat) (ival : UInt16)
    (rot : Rot) : Engine :=
  let orig := s.reg dst
  let byte : UInt32 := ival.toUInt32 &&& 0xff
  let word : UInt32 := ival.toUInt32 &&& 0xffff
  match opcode with
  | .immed => s.setReg dst (performRot ival.toUInt32 rot)
  | .immedB0 => s.setReg dst ((orig &&& 0xffffff00) + byte)
  | .immedB1 => s.setReg dst ((orig &&& 0xffff00ff : UInt32) + (byte <<< 8 : UInt32))
  | .immedB2 => s.setReg dst ((orig &&& 0xff00ffff : UInt32) + (byte <<< 16 : UInt32))
  | .immedB3 => s.setReg dst ((orig &&& 0x00ffffff : UInt32) + (byte <<< 24 : UInt32))
  | .immedW0 => s.setReg dst ((orig &&& 0xffff0000) + word)
  | .immedW1 => s.setReg dst ((orig &&& 0x0000ffff : UInt32) + (word <<< 16 : UInt32))

/-- Take the current context out until its job's callback. -/
def swapOut (s : Engine) : Token → Engine
  | .ctxSwap =>
    nextContext { s with ctxReady := Function.update s.ctxReady s.currentCtx false }
  | _ => s

/-- The callback a job gets. -/
def callbackFor (s : Engine) : Token → Option Ctx
  | .ctxSwap => some s.currentCtx
  | _ => none

/-- `interpret_memory_instruction`. -/
def interpretMemory (s : Engine) (opcode : MemOpcode) (direction : Direction)
    (xferReg addr1 addr2 : Nat) (count : Fin 16) (token : Token) : Engine :=
  -- a count of zero is an indirect reference: the last value through the ALU
  let count := if count = 0 then s.lastAlu.toUInt8 else count.val.toUInt8
  let valid := match direction with
    | .read => isMemoryReadRegister xferReg
    | .write => isMemoryWriteRegister xferReg
  if valid then
    let job : MemoryJob := ⟨direction, s.reg addr1 + s.reg addr2, xferReg, count,
      s.callbackFor token⟩
    swapOut { s.record (.issue s.currentCtx opcode job) with
      memQueue := Function.update s.memQueue opcode (s.memQueue opcode ++ [job]) } token
  else s

/-- The condition of a branch; the ones that are not implemented never jump. -/
def gotoTarget (s : Engine) (src1 src2 : Nat) : BranchOpcode → Bool
  | .br => true
  | .brEq => s.reg src1 = s.reg src2
  | .brNeq => s.reg src1 ≠ s.reg src2
  | .brLess => (s.reg src1).toInt32 < (s.reg src2).toInt32
  | .brLessEq => (s.reg src1).toInt32 ≤ (s.reg src2).toInt32
  | .brGreater => (s.reg src1).toInt32 > (s.reg src2).toInt32
  | .brGreaterEq => (s.reg src1).toInt32 ≥ (s.reg src2).toInt32
  | .brEqCtx => s.reg src1 = s.currentCtx.val.toUInt32
  | .brNeqCtx => s.reg src1 ≠ s.currentCtx.val.toUInt32
  | _ => false

def setPc (s : Engine) (pc : UInt32) : Engine :=
  { s with pcCtx := Function.update s.pcCtx s.currentCtx pc }

/-- `interpret_branch_instruction`. -/
def interpretBranch (s : Engine) (opcode : BranchOpcode) (src1 src2 : Nat)
    (target : Fin 4096) : Engine :=
  if s.gotoTarget src1 src2 opcode then s.setPc target.val.toUInt32 else s

/-- `interpret_load_instruction`; the destination is cleared before the source is read. -/
def interpretLoad (s : Engine) (opcode : LoadOpcode) (dst : Nat) (mask : Fin 16) (src : Nat)
    (rot : Rot) : Engine :=
  let s := match opcode with
    | .ldField => s
    | .ldFieldWClr => s.setReg dst 0
  let bitmask := bytemaskToBitmask mask.val
  s.setReg dst ((s.reg dst &&& ~~~bitmask) ^^^ (performRot (s.reg src) rot &&& bitmask))

/-- The little-endian number in some bytes of `m_mac`. -/
def macWord (s : Engine) (off n : Nat) : UInt32 :=
  UInt32.ofNat (ofBytes ((List.range n).map fun i => s.mac.getD (off + i) 0))

/-- `interpret_csr_instruction`. -/
def interpretCsr (s : Engine) (dst : Nat) (csrNum : UInt16) : Engine :=
  s.setReg dst
    (if csrNum = 0 then s.csr
    else if csrNum = 1 then s.macWord 0 4
    else if csrNum = 2 then s.macWord 4 2
    else s.reg dst)

/-- `interpret_fifo_instruction`. -/
def interpretFifo (s : Engine) (opcode : FifoOpcode) (size addr1 addr2 : Nat)
    (token : Token) : Engine :=
  let job : FifoJob := ⟨size, s.reg addr1 + s.reg addr2, s.callbackFor token⟩
  swapOut { s with
    fifoQueue := Function.update s.fifoQueue opcode (s.fifoQueue opcode ++ [job]) } token

/-- `interpret_instruction`. -/
def interpretInstruction (s : Engine) (uninit : UInt64) :
    Option (Instruction (Fin 4096)) → Engine
  | none => s
  | some (.alu opcode dst src1 type src2 shift numShift) =>
    s.interpretAlu uninit opcode (absoluteRegister s.currentCtx dst)
      (absoluteRegister s.currentCtx src1) type (absoluteRegister s.currentCtx src2)
      shift numShift
  | some (.immediate opcode dst ival rot) =>
    s.interpretImmediate opcode (absoluteRegister s.currentCtx dst) ival rot
  | some (.memory opcode direction xferReg addr1 addr2 count token) =>
    s.interpretMemory opcode direction (absoluteRegister s.currentCtx xferReg)
      (absoluteRegister s.currentCtx addr1) (absoluteRegister s.currentCtx addr2) count token
  | some (.branch opcode src1 src2 target) =>
    s.interpretBranch opcode (absoluteRegister s.currentCtx src1)
      (absoluteRegister s.currentCtx src2) target
  | some (.load opcode dst mask src rot) =>
    s.interpretLoad opcode (absoluteRegister s.currentCtx dst) mask
      (absoluteRegister s.currentCtx src) rot
  | some (.fifo opcode size addr1 addr2 token) =>
    s.interpretFifo opcode (absoluteRegister s.currentCtx size)
      (absoluteRegister s.currentCtx addr1) (absoluteRegister s.currentCtx addr2) token
  | some .nop => s
  | some .ctxArb => s.nextContext
  | some (.csr dst csrNum) => s.interpretCsr (absoluteRegister s.currentCtx dst) csrNum

/-- One turn of `thread_ready_to_run` or of `interpreter_loop`. -/
def interpreterStep (s : Engine) (uninit : UInt64) : Engine :=
  if s.done then s
  else if s.ctxReady s.currentCtx then
    let currentPc := s.pcCtx s.currentCtx
    let s := s.setPc (currentPc + 1)
    if currentPc ≥ s.codeLen then { s with done := true }
    else s.interpretInstruction uninit (s.fetch currentPc.toNat)
  else s.nextContext

/-! ## the workers -/

/-- Word `k` of a worker's memory. -/
def memWord (s : Engine) (k : Nat) : MemOpcode → UInt32
  | .scratch => s.scratch k
  | .ram => UInt32.ofNat (s.ram.load (4 * k) 4)

/-- Store a word into a worker's memory. -/
def setMemWord (s : Engine) (k : Nat) (v : UInt32) : MemOpcode → Engine
  | .scratch => s.setObj k v
  | .ram => { s with ram := s.ram.store (4 * k) 4 v.toNat }

/-- The access to word `k`. -/
def accessOf (k : Nat) : MemOpcode → Event
  | .scratch => .scratch k
  | .ram => .ram (4 * k) 4

/-- The body of the loops of `handle_scratch` and `handle_ram`. -/
def transfer (s : Engine) (memory : MemOpcode) (job : MemoryJob) (i : Nat) : Engine :=
  let k := (job.memOffset + i.toUInt32).toNat
  let s := s.record (accessOf k memory)
  match job.direction with
  | .write => s.setMemWord k (s.reg (job.startReg + i)) memory
  | .read => s.setReg (job.startReg + i) (s.memWord k memory)

/-- `handle_scratch` and `handle_ram`: take a job, transfer a word, or finish the
job.  `none` while the queue is empty. -/
def workerStep (s : Engine) (memory : MemOpcode) : Option Engine :=
  match s.serving memory with
  | none =>
    match s.memQueue memory with
    | [] => none
    | job :: rest =>
      some { s with
        memQueue := Function.update s.memQueue memory rest
        serving := Function.update s.serving memory (some (job, 0)) }
  | some (job, i) =>
    if i < job.count.toNat then
      let s := s.transfer memory job i
      some { s with serving := Function.update s.serving memory (some (job, i + 1)) }
    else
      some ({ s with serving := Function.update s.serving memory none }.callback job.callback)

/-! ## the constructor -/

/-- Word `i` of `m_code` once the firmware is loaded; the array is not initialised
where the firmware does not reach. -/
def codeWord (image : List UInt8) (uninit : Nat → UInt8) (i : Nat) : UInt32 :=
  UInt32.ofNat (ofBytes ((List.range 4).map fun j =>
    image.getD (4 * i + j) (uninit (4 * i + j))))

/-- `Microengine`, for a firmware image that fits; RAM comes zeroed. -/
def init (image : List UInt8) (uninit : Nat → UInt8) (lastAlu : UInt32) (mac : List UInt8) :
    Engine where
  obj i := if i < 1281 then 0 else codeWord image uninit (i - 1281)
  ram := ByteMem.writeBytes (fun _ => 0) (4 * 0x400)
    (crc32Tab.flatMap fun w => ByteMem.bytesOfNat 4 w.toNat)
  currentCtx := 0
  pcCtx _ := 0
  ctxReady _ := true
  codeLen := image.length.toUInt32
  done := false
  mac := mac
  carry := false
  sign := false
  lastAlu := lastAlu
  memQueue _ := []
  serving _ := none
  fifoQueue _ := []
  log := []

end Engine

end Ooows.Net
