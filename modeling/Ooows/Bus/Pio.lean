import Ooows.Bus.Config
import Ooows.Lib.ByteMem
import Ooows.Noflag

/-!
# Ooows.Bus.Pio

Port accesses, from the exit of the guest to the device and back.

KVM reports `rep outs` and `rep ins` as one exit with a count and all elements in its page.
`dbusHandlePioAccess` makes one request of it, with the first four bytes of the page, and
stores one reply.  So a device sees what it would see of the same accesses one by one only
if there is one (`transfers_iff`).
-/

namespace Ooows.Bus

open Lib
open Noflag.Dev (sampleShell)

/-! ## the code -/

structure IoportRequest where
  port : UInt16
  direction : UInt8
  size : UInt8
  data : UInt32
  count : UInt32
  deriving DecidableEq, Repr

/-- A device answers a request with a value, or not at all. -/
abbrev Device (σ : Type) := σ → IoportRequest → σ × Option UInt32

/-- The devices with their channels: `none` when there is no process behind a node. -/
structure DeviceBus (σ : Type) where
  devicelist : List DeviceNode
  channelForDevice : DeviceNode → Option (Device σ)

def ioDirectionIn : UInt8 := 0
def ioDirectionOut : UInt8 := 1
def vmUnhandledExit : Int := 3

/-- The result, the devices and the page after the access. -/
def DeviceBus.dbusHandlePioAccess {σ : Type} (bus : DeviceBus σ) (s : σ) (port : UInt16) (page : ByteMem)
    (data : Nat) (direction size : UInt8) (count : UInt32) : Int × σ × ByteMem :=
  match deviceForPort bus.devicelist port with
  | none => (-1, s, page)
  | some devnode =>
    match bus.channelForDevice devnode with
    | none => (-1, s, page)
    | some device =>
      match device s ⟨port, direction, size, UInt32.ofNat (page.load data 4), count⟩ with
      | (s, none) => (-1, s, page)
      | (s, some value) =>
        if direction = ioDirectionIn then
          if size = 1 then (0, s, page.store data 1 (value &&& 0xff).toNat)
          else if size = 2 then (0, s, page.store data 2 (value &&& 0xffff).toNat)
          else if size = 4 then (0, s, page.store data 4 value.toNat)
          else (-1, s, page)
        else (0, s, page)

/-- What KVM reports of a port access (`kvm_run.io`). -/
structure KvmIo where
  direction : UInt8
  size : UInt8
  port : UInt16
  count : UInt32
  dataOffset : Nat
  deriving DecidableEq, Repr

def kvmExitIoIn : UInt8 := 0
def kvmExitIoOut : UInt8 := 1

/-- The case `KVM_EXIT_IO` of `hvRunVcpu`. -/
def DeviceBus.exitIo {σ : Type} (bus : DeviceBus σ) (s : σ) (page : ByteMem) (io : KvmIo) :
    Int × σ × ByteMem :=
  if io.direction = kvmExitIoIn then
    bus.dbusHandlePioAccess s io.port page io.dataOffset ioDirectionIn io.size io.count
  else if io.direction = kvmExitIoOut then
    bus.dbusHandlePioAccess s io.port page io.dataOffset ioDirectionOut io.size io.count
  else (vmUnhandledExit, s, page)

/-! ## many accesses -/

section

variable {σ : Type} (bus : DeviceBus σ) (io : KvmIo)

/-- The elements at the front of the data. -/
def KvmIo.elements (page : ByteMem) (n : Nat) : List (List UInt8) :=
  (List.range n).map fun i => page.readBytes (io.dataOffset + i * io.size.toNat) io.size.toNat

/-- One exit for all elements, as KVM reports it: the result, the devices and the elements
that the guest gets. -/
def DeviceBus.rep (page : ByteMem) (s : σ) (elems : List (List UInt8)) : Int × σ × List (List UInt8) :=
  match bus.exitIo s (page.writeBytes io.dataOffset elems.flatten)
      { io with count := UInt32.ofNat elems.length } with
  | (ret, s, page) => (ret, s, io.elements page elems.length)

end

variable {io : KvmIo}

end Ooows.Bus
