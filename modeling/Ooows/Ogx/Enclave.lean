import Ooows.Lib.Run
import Mathlib.Logic.Function.Basic

/-!
# Ooows.Ogx.Enclave

The enclaves of the O(OO)GX device.

An enclave has three regions of memory.  `execute` loads a payload's code and data,
runs it and cleans the regions on some of the ways out.  What a payload does is
outside the model: a call carries a function from the regions it finds to the value it
returns and the data and stack regions it leaves.

The mutex of an enclave makes its calls atomic.  Calls on different enclaves share only
the global `unprivileged`, which the first call that gets past the size checks sets for
good.  `main` schedules the flag enclave's payload and serves the guest without waiting
for it, so the first call may be the guest's: `unprivileged` is unset in `Device.start`,
and the flag enclave's call is one of those that follow.
-/

namespace Ooows.Ogx

open Lib

/-- `ENCLAVE_REGION_SIZE`. -/
def regionSize : Nat := 65536

/-- `NUM_ENCLAVES`. -/
def numEnclaves : Nat := 8

/-- The contents of a memory region. -/
abbrev Region := Fin regionSize → UInt8

/-- A region after `memset` with zero. -/
def zeroed : Region := fun _ => 0

/-- `memcpy` to the start of a region. -/
def memcpy (r : Region) (bytes : List UInt8) : Region := fun i => bytes.getD i.val (r i)

/-- The byte at an offset. -/
def byteAt (r : Region) (k : Nat) : UInt8 := if h : k < regionSize then r ⟨k, h⟩ else 0

/-- `memmem` over a whole region: do the bytes occur? -/
def memmem (r : Region) (needle : List UInt8) : Bool :=
  (List.range (regionSize + 1 - needle.length)).any fun i =>
    (List.range needle.length).all fun j => byteAt r (i + j) = needle.getD j 0

/-- The instructions that unprivileged code must not hold: `wrpkru`, `syscall`,
`sysenter` and `int 0x80`. -/
def illegalInstructions : List (List UInt8) :=
  [[0x0f, 0x01, 0xef], [0x0f, 0x05], [0x0f, 0x34], [0xcd, 0x80]]

def hasIllegalInstruction (code : Region) : Bool := illegalInstructions.any (memmem code)

/-- What running the code does: the value returned, the data and the stack region. -/
abbrev Payload := (code data stack : Region) → Int32 × Region × Region

/-- The arguments of `Execute`, and what the code does when it is run. -/
structure Call where
  code : List UInt8
  data : List UInt8
  payload : Payload

structure Enclave where
  code : Region
  data : Region
  stack : Region
  /-- `flag_`: the mapped page of the secret, in enclave 0. -/
  flag : Option (Vector UInt8 4096)

/-- The offset of `exit_` in the data region. -/
def exitOffset : Fin regionSize := ⟨0x1024, by decide⟩

/-- The message of a size error. -/
def sizeExceeded (region : String) (size : Nat) : String :=
  s!"enclave {region} region size exceeded: {size} > {regionSize}"

namespace Enclave

/-- `Enclave(id, flag_path)`. -/
def init (id : Nat) (flag : Vector UInt8 4096) : Enclave where
  code := zeroed
  data := zeroed
  stack := zeroed
  flag := if id = 0 then some flag else none

/-- The data region before the payload's own data is loaded: the secret is put there in
enclave 0, and nothing is cleared. -/
def baseData (e : Enclave) : Region :=
  match e.flag with
  | none => e.data
  | some page => memcpy e.data page.toList

/-- `Execute`: the vector returned or the exception thrown, the enclave, and
`unprivileged`. -/
def execute (e : Enclave) (unprivileged : Bool) (call : Call) :
    Except String (List UInt8) × Enclave × Bool :=
  if call.code.length > regionSize then
    (.error (sizeExceeded "code" call.code.length), e, unprivileged)
  else
    let e := { e with code := memcpy zeroed call.code }
    if call.data.length > regionSize then
      (.error (sizeExceeded "data" call.data.length), e, unprivileged)
    else
      let e := { e with data := memcpy e.baseData call.data }
      if unprivileged && hasIllegalInstruction e.code then
        (.error "found illegal instruction, aborting load", { e with code := zeroed }, unprivileged)
      else
        let e := { e with data := Function.update e.data exitOffset 0 }
        let (result, data, stack) := call.payload e.code e.data e.stack
        let cleaned := { e with code := zeroed, data := zeroed, stack := zeroed }
        if 0 < result ∧ result < 128 then
          (.ok ((List.range result.toNatClampNeg).map (byteAt data)), cleaned, true)
        else if result < 0 then
          -- the exception is caught below the clean-up
          (.ok [], { e with data := data, stack := stack }, true)
        else
          (.ok [], cleaned, true)

end Enclave

/-- The device: its enclaves, and the global flag. -/
structure Device where
  enclaves : Fin numEnclaves → Enclave
  unprivileged : Bool

namespace Device

/-- A load event: `OnLoadEvent`, and the call it schedules. -/
def load (d : Device) (id : Nat) (call : Call) : Except String (List UInt8) × Device :=
  if h : id < numEnclaves then
    let (result, e, unprivileged) := (d.enclaves ⟨id, h⟩).execute d.unprivileged call
    (result, ⟨Function.update d.enclaves ⟨id, h⟩ e, unprivileged⟩)
  else
    (.error s!"invalid enclave ID in load event: {id} >= {numEnclaves}", d)

def step (d : Device) (load : Nat × Call) (t : Device) : Prop := (d.load load.1 load.2).2 = t

end Device

/-- The flag enclave's binary, which fits its region. -/
structure FlagEnclave where
  code : List UInt8
  fits : code.length ≤ regionSize
  payload : Payload

/-- The device when `main` begins to serve the guest. -/
def Device.start (secret : Vector UInt8 4096) : Device := ⟨fun id => .init id.val secret, false⟩

end Ooows.Ogx
