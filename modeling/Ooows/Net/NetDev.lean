import Ooows.Net.Microengine

/-!
# Ooows.Net.NetDev

The network card as a whole: the microengine, the PHY that exchanges packets with
the MQTT broker, and the core that serves the guest's requests.

Each thread has its own actions, and a run is any interleaving of them:

* `interp`: the interpreter, one instruction (or one look at a context that is not
  ready);
* `memory`: the scratch and the RAM worker, one word;
* `phyTx`, `incoming`, `phyRx`: `Phy::handle_tx` and `incoming_packet`;
* `control`, `tx`, `rx`, `core`: the core, which holds a lock and so serves one
  request at a time.

The guest's buffers are not part of the model: an action carries what a read from
one gives, or that it fails.
-/

namespace Ooows.Net

open Lib Lib.Bits

/-- `MAX_ETHERNET_SIZE` and `MAX_MTU`. -/
def maxMtu : Nat := 1518

/-- Where `incoming_packet` is. -/
inductive PhyRx
  | idle
  /-- A job was taken; the packet is the payload without the sender's id. -/
  | got (job : FifoJob) (payload : List UInt8)
  | sized (job : FifoJob) (payload : List UInt8)
  | copied (job : FifoJob)
  deriving DecidableEq, Repr

/-- Where `Phy::handle_tx` is. -/
inductive PhyTx
  | idle
  | got (job : FifoJob)
  | published (job : FifoJob)
  deriving DecidableEq, Repr

/-- Where the core is in `handleTx` or `handleRx`. -/
inductive Core
  | idle
  /-- `new_pkt` was called, the packet is to be copied. -/
  | txPkt (size : UInt16) (pktIdx : UInt32)
  /-- `add_to_tx_ring_buf` is to look whether the entry is free, -/
  | txRing (size : UInt16) (pktIdx : UInt32)
  /-- to store the pointer, -/
  | txPtr (size : UInt16) (pktIdx : UInt32)
  /-- and to store the size. -/
  | txSize (size : UInt16)
  | rxGet
  | rxSize (job : FifoJob)
  | rxData (job : FifoJob) (size : UInt16)
  | rxDone (job : FifoJob)
  deriving DecidableEq, Repr

structure NetDev where
  eng : Engine
  nic : UInt32
  phyTx : PhyTx
  phyRx : PhyRx
  core : Core
  txRingBufIdx : UInt16
  ramPoolIdx : UInt16
  /-- Messages handed to `mosquitto_publish`. -/
  published : List (List UInt8)
  /-- Packets written to the guest's receive buffers. -/
  received : List (List UInt8)

inductive Act
  | interp (uninit : UInt64)
  | memory (memory : MemOpcode)
  | phyTx
  | incoming (message : List UInt8)
  | phyRx
  /-- A control message of some type, with its data, under the driver's features. -/
  | control (features : UInt64) (type : UInt8) (data : List UInt8)
  /-- A transmit buffer; `none` when its header cannot be read. -/
  | tx (size : Option UInt16)
  /-- A receive buffer of some length. -/
  | rx (len : UInt32)
  /-- The core goes on; the data is what the next access to the guest's buffer
  gives, `none` when that access fails. -/
  | core (data : Option (List UInt8))
  deriving DecidableEq, Repr

namespace NetDev

/-! ## the PHY -/

/-- `incoming_packet` up to taking a job. -/
def incomingPacket (s : NetDev) (message : List UInt8) : NetDev :=
  match s.eng.fifoQueue .rFifoRd with
  | [] => s
  | job :: rest =>
    if message.length ≤ 4 then s
    else if message.length > maxMtu then s
    else if ofBytes (message.take 4) = s.nic.toNat then s
    else { s with
      eng := { s.eng with fifoQueue := Function.update s.eng.fifoQueue .rFifoRd rest }
      phyRx := .got job (message.drop 4) }

/-- The rest of `incoming_packet`. -/
def phyRxStep (s : NetDev) : Option NetDev :=
  match s.phyRx with
  | .idle => none
  | .got job payload =>
    some { s with
      eng := s.eng.setReg job.size payload.length.toUInt32
      phyRx := .sized job payload }
  | .sized job payload =>
    let start := 4 * job.start.toNat
    let eng := s.eng.record (.ram start payload.length)
    some { s with
      eng := { eng with ram := eng.ram.writeBytes start payload }
      phyRx := .copied job }
  | .copied job => some { s with eng := s.eng.callback job.callback, phyRx := .idle }

/-- `Phy::handle_tx`. -/
def phyTxStep (s : NetDev) : Option NetDev :=
  match s.phyTx with
  | .idle =>
    match s.eng.fifoQueue .tFifoWr with
    | [] => none
    | job :: rest =>
      some { s with
        eng := { s.eng with fifoQueue := Function.update s.eng.fifoQueue .tFifoWr rest }
        phyTx := .got job }
  | .got job =>
    let start := 4 * job.start.toNat
    let size := (s.eng.reg job.size).toNat
    let message := ByteMem.bytesOfNat 4 s.nic.toNat ++ s.eng.ram.readBytes start size
    some { s with
      eng := s.eng.record (.ram start size)
      phyTx := .published job
      published := s.published ++ [message] }
  | .published job => some { s with eng := s.eng.callback job.callback, phyTx := .idle }

/-! ## the core -/

/-- `handleControl`: which feature a type needs, and the CSR bit it changes. -/
def csrControl : Nat → Option (UInt64 × UInt32)
  | 1 => some (0x1, 0x4)
  | 2 => some (0x2, 0x2)
  | 3 => some (0x4, 0x1)
  | 4 => some (0x10, 0x8)
  | 5 => some (0x20, 0x10)
  | _ => none

/-- `handleControl`, for a message that could be read. -/
def handleControl (eng : Engine) (features : UInt64) (type : UInt8) (data : List UInt8) :
    Engine :=
  if type = 0 then
    if features &&& 0x8 ≠ 0 then { eng with mac := data.take 6 } else eng
  else match csrControl type.toNat with
    | none => eng
    | some (feature, mask) =>
      if features &&& feature ≠ 0 then eng.changeCsr (decide (data.getD 0 0 ≠ 0)) mask
      else eng

/-- `new_pkt`: the word of RAM where the next packet goes. -/
def pktIdx (s : NetDev) : UInt32 := 0x24000 + s.ramPoolIdx.toUInt32 * 380

/-- `handleTx` up to `new_pkt`. -/
def handleTx (s : NetDev) : Option UInt16 → NetDev
  | none => s
  | some size =>
    if size.toNat > maxMtu then s
    else { s with
      core := .txPkt size s.pktIdx
      ramPoolIdx := (s.ramPoolIdx + 1) % 256 }

/-- `handleRx` up to taking a job; the message is preceded by its size. -/
def handleRx (s : NetDev) (len : UInt32) : NetDev :=
  if len.toNat < maxMtu + 2 then s else { s with core := .rxGet }

/-- The scratch word of the current entry of the transmit ring. -/
def ringWord (s : NetDev) : Nat := 2 + s.txRingBufIdx.toNat * 2

/-- The core's next step in the request it serves. -/
def coreStep (s : NetDev) (data : Option (List UInt8)) : Option NetDev :=
  match s.core with
  | .idle => none
  | .txPkt size pktIdx =>
    match data with
    | none => some { s with core := .idle }
    | some bytes =>
      if bytes.length = size.toNat then
        let start := 4 * pktIdx.toNat
        let eng := s.eng.record (.ram start bytes.length)
        some { s with
          eng := { eng with ram := eng.ram.writeBytes start bytes }
          core := .txRing size pktIdx }
      else none
  | .txRing size pktIdx =>
    let k := s.ringWord
    some { s with
      eng := s.eng.record (.scratch k)
      core := if s.eng.scratch k &&& 0x80000000 ≠ 0 then .idle else .txPtr size pktIdx }
  | .txPtr size pktIdx =>
    let k := s.ringWord + 1
    some { s with
      eng := (s.eng.record (.scratch k)).setObj k pktIdx
      core := .txSize size }
  | .txSize size =>
    let k := s.ringWord
    some { s with
      eng := (s.eng.record (.scratch k)).setObj k
        (0x80000000 ||| (size.toUInt32 &&& 0xFFFFFF))
      core := .idle
      txRingBufIdx := (s.txRingBufIdx + 1) % 16 }
  | .rxGet =>
    match s.eng.fifoQueue .rxPkt with
    | [] => none
    | job :: rest =>
      some { s with
        eng := { s.eng with fifoQueue := Function.update s.eng.fifoQueue .rxPkt rest }
        core := .rxSize job }
  | .rxSize job =>
    -- an error leaves without the callback
    match data with
    | none => some { s with core := .idle }
    | some _ => some { s with core := .rxData job (s.eng.reg job.size).toUInt16 }
  | .rxData job size =>
    match data with
    | none => some { s with core := .idle }
    | some _ =>
      let start := 4 * job.start.toNat
      some { s with
        eng := s.eng.record (.ram start size.toNat)
        core := .rxDone job
        received := s.received ++ [s.eng.ram.readBytes start size.toNat] }
  | .rxDone job => some { s with eng := s.eng.callback job.callback, core := .idle }

/-! ## the system -/

/-- One step of one of the threads; `none` when it cannot take it now. -/
def step (s : NetDev) : Act → Option NetDev
  | .interp uninit => some { s with eng := s.eng.interpreterStep uninit }
  | .memory memory => (s.eng.workerStep memory).map fun eng => { s with eng := eng }
  | .phyTx => s.phyTxStep
  | .incoming message => if s.phyRx = .idle then some (s.incomingPacket message) else none
  | .phyRx => s.phyRxStep
  | .control features type data =>
    if s.core = .idle then some { s with eng := handleControl s.eng features type data }
    else none
  | .tx size => if s.core = .idle then some (s.handleTx size) else none
  | .rx len => if s.core = .idle then some (s.handleRx len) else none
  | .core data => s.coreStep data

/-- `NetDev`, for a firmware image. -/
def init (image : List UInt8) (uninit : Nat → UInt8) (lastAlu : UInt32) (mac : List UInt8)
    (nic : UInt32) : NetDev where
  eng := Engine.init image uninit lastAlu mac
  nic := nic
  phyTx := .idle
  phyRx := .idle
  core := .idle
  txRingBufIdx := 0
  ramPoolIdx := 0
  published := []
  received := []

end NetDev

end Ooows.Net
