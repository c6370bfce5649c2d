import Ooows.Virtio.MemoryManager
import Mathlib.Logic.Function.Basic

/-!
# Ooows.Virtio.Device

`MMIOVirtioDev`: the registers by which a guest sets up its virtqueues, and the two
operations by which a device takes buffers and gives them back.

`got_data` is what each device makes of a notification, so it is not part of the model:
`mmioWrite` says that a device is to be notified, and what the device then does is a
sequence of `getBuf` and `putBuf`.

What must never happen is explicit as a `Fault`: a queue index outside `m_vqs`, a copy
outside the configuration space, a division by zero, and the exception of `avail_empty`
and `used_full`.
-/

namespace Ooows.Virtio

open Lib

inductive Fault
  /-- `m_vqs` is accessed outside its bounds. -/
  | badQueue
  /-- A `memcpy` leaves `m_config_space`, or the eight bytes of a value. -/
  | badCopy
  | divByZero
  /-- `std::out_of_range`. -/
  | outOfRange
  deriving DecidableEq, Repr

/-- `CONFIG_SPACE_START`. -/
def configSpaceStart : UInt64 := 0x100

/-- `CONFIG_SPACE_MAX`. -/
def configSpaceMax : Nat := 0x400

/-- `sizeof(m_config_space)`: the array has words, its size is used as a number of bytes. -/
def sizeofConfigSpace : Nat := 4 * configSpaceMax

/-- `MAX_VQ_SIZE`. -/
def maxVqSize : UInt64 := 32768

structure VirtQueue where
  numBufs : UInt32
  ready : Bool
  availTailIdx : UInt16
  queueDescLow : UInt32
  queueDescHigh : UInt32
  queueDriverLow : UInt32
  queueDriverHigh : UInt32
  queueDeviceLow : UInt32
  queueDeviceHigh : UInt32
  descTableGaddr : UInt64
  availGaddr : UInt64
  usedGaddr : UInt64
  deriving DecidableEq, Repr

/-- A queue as `calloc` leaves it. -/
def VirtQueue.init : VirtQueue := ⟨0, false, 0, 0, 0, 0, 0, 0, 0, 0, 0, 0⟩

/-- `VirtBuf`. -/
structure VirtBuf where
  guestAddr : UInt64
  len : UInt32
  id : UInt16
  flags : UInt16
  nbytesWritten : UInt32
  deriving DecidableEq, Repr

structure Dev where
  deviceId : UInt32
  vendorId : UInt32
  deviceFeatures : UInt64
  deviceFeaturesSel : Bool
  driverFeatures : UInt64
  driverFeaturesSel : Bool
  queueSel : UInt32
  isr : UInt32
  isrAck : UInt32
  status : UInt8
  configSpace : ByteMem
  configSpaceSize : UInt32
  numQueues : UInt32
  vqs : Nat → VirtQueue
  /-- The guest's system memory. -/
  mem : ByteMem

namespace Dev

/-- `MMIOVirtioDev`, for a device that sets its ids and its features. -/
def init (numVqs deviceId vendorId : UInt32) (deviceFeatures : UInt64) (mem : ByteMem) : Dev where
  deviceId := deviceId
  vendorId := vendorId
  deviceFeatures := deviceFeatures
  deviceFeaturesSel := false
  driverFeatures := 0
  driverFeaturesSel := false
  queueSel := 0
  isr := 0
  isrAck := 0
  status := 1
  configSpace _ := 0
  configSpaceSize := 0x400
  numQueues := numVqs
  vqs _ := .init
  mem := mem

/-! ## registers -/

/-- The registers that are read or written. -/
inductive Reg
  | magicVal
  | deviceVers
  | subsysDevId
  | subsysVendId
  | deviceFeatures
  | deviceFeaturesSelect
  | driverFeatures
  | driverFeaturesSelect
  | queueSelect
  | queueNumMax
  | queueNum
  | queueReady
  | queueNotify
  | isr
  | intrAck
  | deviceStatus
  | queueDescLow
  | queueDescHigh
  | queueDriverLow
  | queueDriverHigh
  | queueDeviceLow
  | queueDeviceHigh
  deriving DecidableEq, Repr

/-- The register at an offset. -/
def Reg.ofOffset (offset : UInt64) : Option Reg :=
  match offset.toNat with
  | 0x0 => some .magicVal
  | 0x4 => some .deviceVers
  | 0x8 => some .subsysDevId
  | 0xc => some .subsysVendId
  | 0x10 => some .deviceFeatures
  | 0x14 => some .deviceFeaturesSelect
  | 0x20 => some .driverFeatures
  | 0x24 => some .driverFeaturesSelect
  | 0x30 => some .queueSelect
  | 0x34 => some .queueNumMax
  | 0x38 => some .queueNum
  | 0x44 => some .queueReady
  | 0x50 => some .queueNotify
  | 0x60 => some .isr
  | 0x64 => some .intrAck
  | 0x70 => some .deviceStatus
  | 0x80 => some .queueDescLow
  | 0x84 => some .queueDescHigh
  | 0x90 => some .queueDriverLow
  | 0x94 => some .queueDriverHigh
  | 0xa0 => some .queueDeviceLow
  | 0xa4 => some .queueDeviceHigh
  | _ => none

/-- An access is to the configuration space. -/
def isConfigSpace (d : Dev) (offset : UInt64) (size : UInt32) : Bool :=
  offset ≥ configSpaceStart && offset + size.toUInt64 ≤ configSpaceStart + d.configSpaceSize.toUInt64

/-- `set_config_space`; `none` is its error. -/
def setConfigSpace (d : Dev) (data : List UInt8) : Option Dev :=
  if data.length > configSpaceMax then none
  else some { d with
    configSpace := d.configSpace.writeBytes 0 data, configSpaceSize := data.length.toUInt32 }

/-- A copy between a value and the configuration space stays inside both. -/
def copyOk (offset : UInt64) (size : UInt32) : Bool :=
  size ≤ 8 && decide ((offset - configSpaceStart).toNat + size.toNat ≤ sizeofConfigSpace)

/-- `config_space_read`. -/
def configSpaceRead (d : Dev) (offset : UInt64) (size : UInt32) : Except Fault UInt64 :=
  if copyOk offset size then
    .ok (UInt64.ofNat (d.configSpace.load (offset - configSpaceStart).toNat size.toNat))
  else .error .badCopy

/-- `config_space_write`. -/
def configSpaceWrite (d : Dev) (offset data : UInt64) (size : UInt32) : Except Fault Dev :=
  if copyOk offset size then
    .ok { d with
      configSpace := d.configSpace.store (offset - configSpaceStart).toNat size.toNat data.toNat }
  else .error .badCopy

/-- `get_device_feature_bits`. -/
def getDeviceFeatureBits (d : Dev) : UInt32 :=
  if d.deviceFeaturesSel then d.deviceFeatures.toUInt32 else (d.deviceFeatures >>> 32).toUInt32

/-- `m_vqs[m_queue_sel]`. -/
def selected (d : Dev) : Except Fault VirtQueue :=
  if d.queueSel < d.numQueues then .ok (d.vqs d.queueSel.toNat) else .error .badQueue

/-- Change the selected queue. -/
def modifySelected (d : Dev) (f : VirtQueue → VirtQueue) : Except Fault Dev :=
  d.selected.map fun vq => { d with vqs := Function.update d.vqs d.queueSel.toNat (f vq) }

/-- `mmio_read`. -/
def mmioRead (d : Dev) (offset : UInt64) (size : UInt32) : Except Fault UInt32 :=
  if d.isConfigSpace offset size then (d.configSpaceRead offset size).map UInt64.toUInt32
  else match Reg.ofOffset offset with
    | some .magicVal => .ok 0x74726976
    | some .deviceVers => .ok 2
    | some .subsysDevId => .ok d.deviceId
    | some .subsysVendId => .ok d.vendorId
    | some .deviceFeatures => .ok d.getDeviceFeatureBits
    | some .queueNumMax => d.selected.map fun vq => if vq.ready then maxVqSize.toUInt32 else 0
    | some .queueReady => d.selected.map fun vq => vq.ready.toNat.toUInt32
    | some .isr => .ok d.isr
    | some .deviceStatus => .ok d.status.toUInt32
    | _ => .ok 0

/-- The 64-bit address in two registers. -/
def address (high low : UInt32) : UInt64 := (high.toUInt64 <<< 32) ||| low.toUInt64

/-- The checks of `ready_queue`, and the queue it makes ready. -/
def readied (vq : VirtQueue) : Option VirtQueue :=
  let descTableAddr := address vq.queueDescHigh vq.queueDescLow
  let availAddr := address vq.queueDriverHigh vq.queueDriverLow
  let usedAddr := address vq.queueDeviceHigh vq.queueDeviceLow
  if vq.numBufs = 0 then none
  else if oob descTableAddr (16 * vq.numBufs.toUInt64) then none
  else if oob availAddr (4 + vq.numBufs.toUInt64 * 2) then none
  else if oob usedAddr (4 + vq.numBufs.toUInt64 * 8) then none
  else some { vq with
    descTableGaddr := descTableAddr, availGaddr := availAddr, usedGaddr := usedAddr, ready := true }

/-- `ready_queue`; `true` if it returns 0. -/
def readyQueue (d : Dev) : Except Fault (Dev × Bool) :=
  d.selected.map fun vq => match readied vq with
    | none => (d, false)
    | some vq => ({ d with vqs := Function.update d.vqs d.queueSel.toNat vq }, true)

/-- `mmio_write`, and the queue that `got_data` is called for. -/
def mmioWrite (d : Dev) (offset : UInt64) (size : UInt32) (data : UInt64) :
    Except Fault (Dev × Option UInt16) :=
  if d.isConfigSpace offset size then (d.configSpaceWrite offset data size).map (·, none)
  else match Reg.ofOffset offset with
    | some .deviceFeaturesSelect => .ok ({ d with deviceFeaturesSel := decide (data ≠ 0) }, none)
    | some .driverFeatures =>
      let low : UInt64 := data &&& 0xffffffff
      let features : UInt64 := if d.driverFeaturesSel then
          (d.driverFeatures &&& 0x00000000ffffffff : UInt64) ||| (low <<< 32 : UInt64)
        else (d.driverFeatures &&& 0xffffffff00000000 : UInt64) ||| low
      .ok ({ d with driverFeatures := features }, none)
    | some .driverFeaturesSelect => .ok ({ d with driverFeaturesSel := decide (data ≠ 0) }, none)
    | some .queueSelect =>
      .ok (if data < d.numQueues.toUInt64 then { d with queueSel := data.toUInt32 } else d, none)
    | some .queueNum =>
      if data < maxVqSize then
        -- the number of buffers of a ready queue cannot be changed
        (d.modifySelected fun vq => if vq.ready then vq else { vq with numBufs := data.toUInt32 }).map
          fun d => (d, none)
      else .ok (d, none)
    | some .queueReady =>
      if data ≠ 0 then
        d.readyQueue.map fun r => (r.1, if r.2 then some d.queueSel.toUInt16 else none)
      else .ok (d, none)
    | some .queueNotify => .ok (d, some data.toUInt16)
    | some .intrAck => .ok ({ d with isrAck := data.toUInt32 }, none)
    | some .queueDescLow =>
      (d.modifySelected fun vq => { vq with queueDescLow := data.toUInt32 }).map (·, none)
    | some .queueDescHigh =>
      (d.modifySelected fun vq => { vq with queueDescHigh := data.toUInt32 }).map (·, none)
    | some .queueDriverLow =>
      (d.modifySelected fun vq => { vq with queueDriverLow := data.toUInt32 }).map (·, none)
    | some .queueDriverHigh =>
      (d.modifySelected fun vq => { vq with queueDriverHigh := data.toUInt32 }).map (·, none)
    | some .queueDeviceLow =>
      (d.modifySelected fun vq => { vq with queueDeviceLow := data.toUInt32 }).map (·, none)
    | some .queueDeviceHigh =>
      (d.modifySelected fun vq => { vq with queueDeviceHigh := data.toUInt32 }).map (·, none)
    | _ => .ok (d, none)

/-! ## buffers -/

/-- `avail_empty`. -/
def availEmpty (d : Dev) (vq : VirtQueue) : Except Fault Bool :=
  match readX16 d.mem (vq.availGaddr + 2) with
  | none => .error .outOfRange
  | some availHeadIdx => .ok (decide (availHeadIdx = vq.availTailIdx))

/-- `used_full`. -/
def usedFull (d : Dev) (vq : VirtQueue) : Except Fault Bool :=
  match readX16 d.mem (vq.usedGaddr + 2) with
  | none => .error .outOfRange
  | some usedHeadIdx => .ok (decide (usedHeadIdx = vq.availTailIdx))

/-- A 16-bit index modulo the number of buffers. -/
def wrapIdx (idx : UInt16) (vq : VirtQueue) : Except Fault UInt16 :=
  if vq.numBufs = 0 then .error .divByZero else .ok (idx.toUInt32 % vq.numBufs).toUInt16

/-- The queue with some index, if it is ready. -/
def readyVq (d : Dev) (vqIdx : UInt16) : Option VirtQueue :=
  if vqIdx.toUInt32 ≥ d.numQueues then none
  else if (d.vqs vqIdx.toNat).ready then some (d.vqs vqIdx.toNat) else none

/-- `VirtqDesc`; nothing reads its `next`. -/
structure VirtqDesc where
  addr : UInt64
  len : UInt32
  flags : UInt16
  deriving DecidableEq, Repr

/-- `MemoryManager::read` of a descriptor. -/
def readDesc (mem : ByteMem) (guestAddr : UInt64) : Option VirtqDesc :=
  if oob guestAddr 16 then none
  else some ⟨UInt64.ofNat (mem.load guestAddr.toNat 8), UInt32.ofNat (mem.load (guestAddr.toNat + 8) 4),
    UInt16.ofNat (mem.load (guestAddr.toNat + 12) 2)⟩

/-- The buffer of entry `i` of the available ring, if it passes the checks of `get_buf`;
`uninit` is what `m_nbytes_written` of a new `VirtBuf` holds. -/
def bufAt (mem : ByteMem) (vq : VirtQueue) (i : UInt16) (uninit : UInt32) : Option VirtBuf :=
  match readX16 mem (vq.availGaddr + 4 + 2 * i.toUInt64) with
  | none => none
  | some descId =>
    if descId.toUInt32 > vq.numBufs then none
    else match readDesc mem (vq.descTableGaddr + 16 * descId.toUInt64) with
      | none => none
      | some desc =>
        if oob desc.addr desc.len.toUInt64 then none
        else some ⟨desc.addr, desc.len, descId, desc.flags, uninit⟩

/-- `get_buf`. -/
def getBuf (d : Dev) (vqIdx : UInt16) (uninit : UInt32) : Except Fault (Option VirtBuf × Dev) :=
  match d.readyVq vqIdx with
  | none => .ok (none, d)
  | some vq => do
      if ← d.availEmpty vq then return (none, d)
      let i ← wrapIdx vq.availTailIdx vq
      match bufAt d.mem vq i uninit with
      | none => return (none, d)
      | some vbuf =>
        let vq := { vq with availTailIdx := vq.availTailIdx + 1 }
        return (some vbuf, { d with vqs := Function.update d.vqs vqIdx.toNat vq })

/-- What `put_buf` stores: the element goes to the entry `num_bufs`, and `head_idx`
moves on.  `true` if both stores succeed. -/
def returnBuf (mem : ByteMem) (vq : VirtQueue) (headIdx : UInt16) (vbuf : VirtBuf) :
    Bool × ByteMem :=
  let usedElem := ByteMem.bytesOfNat 4 vbuf.id.toNat ++ ByteMem.bytesOfNat 4 vbuf.nbytesWritten.toNat
  match write mem (vq.usedGaddr + 4 + 8 * vq.numBufs.toUInt64) usedElem with
  | none => (false, mem)
  | some mem =>
    match writeX16 mem (vq.usedGaddr + 2) (headIdx + 1) with
    | none => (false, mem)
    | some mem => (true, mem)

/-- `put_buf`; `true` if it returns 0. -/
def putBuf (d : Dev) (vqIdx : UInt16) (vbuf : VirtBuf) : Except Fault (Bool × Dev) :=
  match d.readyVq vqIdx with
  | none => .ok (false, d)
  | some vq => do
      if ← d.usedFull vq then return (false, d)
      match readX16 d.mem (vq.usedGaddr + 2) with
      | none => return (false, d)
      | some headIdx =>
        -- the index modulo `num_bufs` is computed and not used
        let _ ← wrapIdx headIdx vq
        let result := returnBuf d.mem vq headIdx vbuf
        return (result.1, { d with mem := result.2 })

end Dev

end Ooows.Virtio
