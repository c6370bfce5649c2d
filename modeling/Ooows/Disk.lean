import Ooows.Lib.ByteMem
import Ooows.Lib.Run

/-!
# Ooows.Disk

The disk controller, `devices-bin/ooowsdisk.py`, with the memory manager of `pyutils`.

A transfer is meant to copy the sectors if both ranges are there, and to do nothing
otherwise (`Controller.transfer`).  The code has no range check for a read: what it gets of
the image, which may be less than the sectors, goes to memory, and an exception ends the
device where the slice of the memory is too short for it.  A write checks the range of the
image, with `<` where it should be `<=`, and takes as many bytes as the memory has.
`Transfers` says when all of this makes no difference, which is exactly when a request is
served as it is meant to be (`ioPortAccess_eq_iff`).
-/

namespace Ooows.Disk

open Lib ByteMem

/-! ## guest memory -/

structure MemRange where
  startAddr : Nat
  size : Nat
  deriving DecidableEq, Repr

def MemRange.endAddr (r : MemRange) : Nat := r.startAddr + r.size

/-- The mappings of `RAM_FD` and `SYS_FD`.  They share no address, so that what they hold is one
memory, by guest address. -/
def memranges : List MemRange := [⟨0x0, 0xA0000⟩, ⟨0x100000, 0x100000⟩]

/-- The exceptions that end the device. -/
inductive Exn
  | seek
  | memory
  | index
  | type
  deriving DecidableEq, Repr

/-- The range that the loops of `MemoryManager` stop at. -/
def rangeFor (addr : Nat) : Option MemRange :=
  memranges.find? fun r => r.startAddr ≤ addr && addr < r.endAddr

/-- `MemoryManager.read`; `none` is its `-1`.  A slice ends with the mapping. -/
def ramRead (mem : ByteMem) (srcAddr size : Nat) : Option (List UInt8) :=
  (rangeFor srcAddr).map fun r => mem.readBytes srcAddr (min size (r.endAddr - srcAddr))

/-- `MemoryManager.write`.  A slice takes only as many bytes as it has. -/
def ramWrite (mem : ByteMem) (destAddr : Nat) (data : List UInt8) : Except Exn ByteMem :=
  match rangeFor destAddr with
  | none => .ok mem
  | some r =>
    if destAddr + data.length ≤ r.endAddr then .ok (mem.writeBytes destAddr data)
    else .error .index

/-! ## the controller -/

/-- The image's size, and the largest offset and number of bytes that the host takes.  It takes
those of the image. -/
structure Host where
  filesize : Nat
  maxSeek : Nat
  maxBytes : Nat
  seeks : filesize ≤ maxSeek
  reads : filesize ≤ maxBytes

structure Controller where
  file : ByteMem
  mem : ByteMem
  sector : UInt32
  destAddr : UInt32
  sectorCount : UInt32
  sectorSize : UInt32
  irqs : Nat

/-- `__init__`. -/
def Controller.init (file mem : ByteMem) : Controller := ⟨file, mem, 0, 0, 0, 512, 0⟩

inductive Port
  | sector
  | destAddr
  | sectorSize
  | sectorCnt
  | doRead
  | doWrite
  | other
  deriving DecidableEq, Repr

def Port.ofValue (port : UInt16) : Port :=
  if port = 0x90 then .sector
  else if port = 0x91 then .destAddr
  else if port = 0x92 then .sectorSize
  else if port = 0x93 then .sectorCnt
  else if port = 0x94 then .doRead
  else if port = 0x95 then .doWrite
  else .other

structure IoPortRequest where
  port : UInt16
  direction : UInt8
  data : UInt32
  deriving DecidableEq, Repr

def ioDirRead : UInt8 := 0
def ioDirWrite : UInt8 := 1

variable (host : Host)

namespace Controller

def assertIrq (c : Controller) : Controller := { c with irqs := c.irqs + 1 }

/-- Where the sectors are in the image, and how many bytes they have. -/
def off (c : Controller) : Nat := c.sectorSize.toNat * c.sector.toNat

def size (c : Controller) : Nat := c.sectorSize.toNat * c.sectorCount.toNat

def addr (c : Controller) : Nat := c.destAddr.toNat

def ioPortRead (c : Controller) (r : IoPortRequest) : UInt32 :=
  match Port.ofValue r.port with
  | .sector => c.sector
  | .destAddr => c.destAddr
  | .sectorSize => c.sectorSize
  | .sectorCnt => c.sectorCount
  | _ => 0

/-- The case `OOOWS_DO_READ`.  A file gives what there is of it. -/
def doRead (c : Controller) : Except Exn Controller := do
  if host.maxSeek < c.off then throw .seek
  if host.maxBytes < c.size then throw .memory
  let data := c.file.readBytes c.off (min c.size (host.filesize - c.off))
  let mem ← ramWrite c.mem c.addr data
  return { c with mem }

/-- The case `OOOWS_DO_WRITE`.  To write `-1` is a `TypeError`. -/
def doWrite (c : Controller) : Except Exn Controller := do
  if c.off + c.size < host.filesize then
    if host.maxSeek < c.off then throw .seek
    match ramRead c.mem c.addr c.size with
    | none => throw .type
    | some data => return { c with file := c.file.writeBytes c.off data }.assertIrq
  else return c.assertIrq

def ioPortWrite (c : Controller) (r : IoPortRequest) : Except Exn Controller :=
  match Port.ofValue r.port with
  | .sector => .ok { c with sector := r.data }
  | .destAddr => .ok { c with destAddr := r.data }
  | .sectorSize => .ok { c with sectorSize := r.data }
  | .sectorCnt => .ok { c with sectorCount := r.data }
  | .doRead => c.doRead host
  | .doWrite => c.doWrite host
  | .other => .ok c

/-- The value that is sent back, and the controller.  An exception ends the main loop. -/
def ioPortAccess (c : Controller) (r : IoPortRequest) : Except Exn (UInt32 × Controller) :=
  if r.direction = ioDirRead then .ok (c.ioPortRead r, c)
  else if r.direction = ioDirWrite then (c.ioPortWrite host r).map fun c => (0, c)
  else .ok (0, c)

end Controller

/-! ## what a transfer is for -/

/-- The bytes from `addr` on are in one range. -/
def Mapped (addr n : Nat) : Prop := ∃ r ∈ memranges, r.startAddr ≤ addr ∧ addr + n ≤ r.endAddr

instance (addr n : Nat) : Decidable (Mapped addr n) :=
  inferInstanceAs (Decidable (∃ r ∈ memranges, r.startAddr ≤ addr ∧ addr + n ≤ r.endAddr))

/-- Both ranges of a transfer are there. -/
def Controller.InRange (c : Controller) : Prop :=
  c.off + c.size ≤ host.filesize ∧ Mapped c.addr c.size

instance (c : Controller) : Decidable (c.InRange host) :=
  inferInstanceAs (Decidable (_ ∧ _))

/-- The sectors copied, if both ranges are there. -/
def Controller.transferRead (c : Controller) : Controller :=
  if c.InRange host then
    { c with mem := c.mem.writeBytes c.addr (c.file.readBytes c.off c.size) }
  else c

def Controller.transferWrite (c : Controller) : Controller :=
  if c.InRange host then
    { c with file := c.file.writeBytes c.off (c.mem.readBytes c.addr c.size) }
  else c

/-- A request to a disk whose transfers are exact or have no effect. -/
def Controller.transfer (c : Controller) (r : IoPortRequest) : UInt32 × Controller :=
  if r.direction = ioDirRead then (c.ioPortRead r, c)
  else if r.direction = ioDirWrite then
    match Port.ofValue r.port with
    | .sector => (0, { c with sector := r.data })
    | .destAddr => (0, { c with destAddr := r.data })
    | .sectorSize => (0, { c with sectorSize := r.data })
    | .sectorCnt => (0, { c with sectorCount := r.data })
    | .doRead => (0, c.transferRead host)
    | .doWrite => (0, (c.transferWrite host).assertIrq)
    | .other => (0, c)
  else (0, c)

/-- The number of bytes that a read gets of the image. -/
def Controller.available (c : Controller) : Nat := min c.size (host.filesize - c.off)

/-- **Condition** for a read: the sectors are in the image, and the memory for them does not end
in the middle; or they are not, the host takes their numbers, and there is no memory to write
to, or it has room for what there is of the image and holds it already. -/
def Controller.ReadTransfers (c : Controller) : Prop :=
  if c.off + c.size ≤ host.filesize then rangeFor c.addr = none ∨ Mapped c.addr c.size
  else c.off ≤ host.maxSeek ∧ c.size ≤ host.maxBytes ∧
    (rangeFor c.addr = none ∨ Mapped c.addr (c.available host) ∧
      c.mem.readBytes c.addr (c.available host) = c.file.readBytes c.off (c.available host))

/-- **Condition** for a write: sectors before the end of the image have memory for all of them, or
the image holds already what there is of it; and sectors that end with the image have no memory,
or the image holds it already. -/
def Controller.WriteTransfers (c : Controller) : Prop :=
  (c.off + c.size < host.filesize → ∃ r ∈ rangeFor c.addr, c.addr + c.size ≤ r.endAddr ∨
    c.file.readBytes c.off (r.endAddr - c.addr) = c.mem.readBytes c.addr (r.endAddr - c.addr)) ∧
  (c.off + c.size = host.filesize → Mapped c.addr c.size →
    c.file.readBytes c.off c.size = c.mem.readBytes c.addr c.size)

def Transfers (c : Controller) (r : IoPortRequest) : Prop :=
  r.direction = ioDirWrite →
    match Port.ofValue r.port with
    | .doRead => c.ReadTransfers host
    | .doWrite => c.WriteTransfers host
    | _ => True

/-! ## ranges -/

variable {host} {addr n : Nat} {range : MemRange} {c c' : Controller} {r : IoPortRequest}
  {rs : List IoPortRequest}

theorem mapped_iff_cases :
    Mapped addr n ↔ addr + n ≤ 0xA0000 ∨ 0x100000 ≤ addr ∧ addr + n ≤ 0x200000 := by
  simp [Mapped, memranges, MemRange.endAddr]

/-- A range holds what does not run over its end. -/
theorem mapped_iff_of_rangeFor (h : rangeFor addr = some range) :
    Mapped addr n ↔ addr + n ≤ range.endAddr := by
  have hmem := List.mem_of_find?_eq_some h
  have hin := List.find?_some h
  rw [mapped_iff_cases]
  simp only [Bool.and_eq_true, decide_eq_true_eq] at hin
  simp only [memranges, List.mem_cons, List.not_mem_nil, or_false] at hmem
  rcases hmem with rfl | rfl
  · simp only [MemRange.endAddr] at hin ⊢
    omega
  · simp only [MemRange.endAddr] at hin ⊢
    omega

/-- Outside the ranges only an empty range is mapped. -/
theorem eq_zero_of_mapped (h : rangeFor addr = none) (hmapped : Mapped addr n) : n = 0 := by
  have hout := List.find?_eq_none.1 h
  obtain ⟨range, hrange, hle, hend⟩ := hmapped
  have hnot := hout range hrange
  simp only [Bool.and_eq_true, decide_eq_true_eq] at hnot
  omega

theorem ramWrite_of_none (mem : ByteMem) (data : List UInt8) (h : rangeFor addr = none) :
    ramWrite mem addr data = .ok mem := by
  rw [ramWrite, h]

theorem ramWrite_of_mapped (mem : ByteMem) {data : List UInt8} (h : Mapped addr data.length) :
    ramWrite mem addr data = .ok (mem.writeBytes addr data) := by
  cases hrange : rangeFor addr with
  | none =>
    have hnil := List.eq_nil_of_length_eq_zero (eq_zero_of_mapped hrange h)
    rw [ramWrite_of_none mem data hrange, hnil, writeBytes_nil]
  | some range =>
    simp only [ramWrite, hrange]
    exact if_pos ((mapped_iff_of_rangeFor hrange).1 h)

/-- A write over the end of a range ends the device. -/
theorem ramWrite_of_not_mapped (mem : ByteMem) {data : List UInt8}
    (hrange : rangeFor addr = some range) (h : ¬ Mapped addr data.length) :
    ramWrite mem addr data = .error .index := by
  simp only [ramWrite, hrange]
  exact if_neg fun hle => h ((mapped_iff_of_rangeFor hrange).2 hle)

/-! ## transfers -/

/-- A read that the host takes writes what there is of the image. -/
theorem doRead_eq (hseek : c.off ≤ host.maxSeek) (hbytes : c.size ≤ host.maxBytes) :
    c.doRead host = (ramWrite c.mem c.addr (c.file.readBytes c.off (c.available host))).map
      fun mem => { c with mem } := by
  simp only [Controller.doRead, if_neg (Nat.not_lt.2 hseek), if_neg (Nat.not_lt.2 hbytes)]
  rfl

/-- Only the memory is compared. -/
theorem withMem_eq_iff {mem : ByteMem} : { c with mem := mem } = c ↔ mem = c.mem :=
  ⟨congrArg Controller.mem, fun h => h ▸ rfl⟩

/-- Only the image is compared. -/
theorem withFile_eq_iff {file : ByteMem} :
    ({ c with file := file } : Controller).assertIrq = c.assertIrq ↔ file = c.file :=
  ⟨congrArg Controller.file, fun h => h ▸ rfl⟩

/-- A read inside the image. -/
theorem doRead_eq_iff_inside (hin : c.off + c.size ≤ host.filesize) :
    c.doRead host = .ok (c.transferRead host) ↔
      rangeFor c.addr = none ∨ Mapped c.addr c.size := by
  have hseeks := host.seeks
  have hreads := host.reads
  have havailable : c.available host = c.size := Nat.min_eq_left (by omega)
  rw [doRead_eq (by omega) (by omega), havailable, Controller.transferRead]
  cases hrange : rangeFor c.addr with
  | none =>
    refine iff_of_true ?_ (.inl rfl)
    rw [ramWrite_of_none _ _ hrange]
    split
    next hboth =>
      rw [eq_zero_of_mapped hrange hboth.2]
      exact congrArg (fun mem => Except.ok { c with mem }) (writeBytes_nil c.mem c.addr).symm
    next => rfl
  | some range =>
    by_cases hmapped : Mapped c.addr c.size
    · refine iff_of_true ?_ (.inr hmapped)
      rw [ramWrite_of_mapped _ (by rwa [length_readBytes]), if_pos ⟨hin, hmapped⟩]
      rfl
    · refine iff_of_false ?_ (by simp [hmapped])
      rw [ramWrite_of_not_mapped _ hrange (by rwa [length_readBytes])]
      exact nofun

/-- A read over the end of the image. -/
theorem doRead_eq_iff_over (hout : ¬ c.off + c.size ≤ host.filesize)
    (hseek : c.off ≤ host.maxSeek) (hbytes : c.size ≤ host.maxBytes) :
    c.doRead host = .ok (c.transferRead host) ↔
      rangeFor c.addr = none ∨ Mapped c.addr (c.available host) ∧
        c.mem.readBytes c.addr (c.available host) =
          c.file.readBytes c.off (c.available host) := by
  rw [doRead_eq hseek hbytes, Controller.transferRead, if_neg fun hrange => hout hrange.1]
  cases hrange : rangeFor c.addr with
  | none =>
    refine iff_of_true ?_ (.inl rfl)
    rw [ramWrite_of_none _ _ hrange]
    rfl
  | some range =>
    by_cases hmapped : Mapped c.addr (c.available host)
    · have hiff := writeBytes_eq_self_iff c.mem c.addr
        (c.file.readBytes c.off (c.available host))
      rw [length_readBytes] at hiff
      rw [ramWrite_of_mapped _ (by rwa [length_readBytes])]
      simp [Except.map, withMem_eq_iff, hiff, hmapped]
    · refine iff_of_false ?_ (by simp [hmapped])
      rw [ramWrite_of_not_mapped _ hrange (by rwa [length_readBytes])]
      exact nofun

theorem doRead_eq_iff : c.doRead host = .ok (c.transferRead host) ↔ c.ReadTransfers host := by
  unfold Controller.ReadTransfers
  split
  next hin => exact doRead_eq_iff_inside hin
  next hout =>
    by_cases htakes : c.off ≤ host.maxSeek ∧ c.size ≤ host.maxBytes
    · simp only [doRead_eq_iff_over hout htakes.1 htakes.2, htakes.1, htakes.2, true_and]
    · -- the host does not take the numbers
      refine iff_of_false ?_ fun h => htakes ⟨h.1, h.2.1⟩
      unfold Controller.doRead
      by_cases hseek : host.maxSeek < c.off
      · rw [if_pos hseek]
        exact nofun
      · have hbytes : host.maxBytes < c.size :=
          Nat.lt_of_not_le fun hle => htakes ⟨Nat.not_lt.1 hseek, hle⟩
        rw [if_neg hseek, if_pos hbytes]
        exact nofun

/-- A write before the end of the image. -/
theorem doWrite_eq_iff_before (hlt : c.off + c.size < host.filesize) :
    c.doWrite host = .ok (c.transferWrite host).assertIrq ↔
      ∃ r ∈ rangeFor c.addr, c.addr + c.size ≤ r.endAddr ∨
        c.file.readBytes c.off (r.endAddr - c.addr) =
          c.mem.readBytes c.addr (r.endAddr - c.addr) := by
  have hseeks := host.seeks
  have hseek : ¬ host.maxSeek < c.off := by omega
  unfold Controller.doWrite Controller.transferWrite
  rw [if_pos hlt, if_neg hseek, ramRead]
  cases hrange : rangeFor c.addr with
  | none =>
    refine iff_of_false (by exact nofun) ?_
    rintro ⟨_, hnone, -⟩
    contradiction
  | some range =>
    have hmapped : Mapped c.addr c.size ↔ c.addr + c.size ≤ range.endAddr :=
      mapped_iff_of_rangeFor hrange
    simp only [Option.map_some, Option.mem_some_iff, exists_eq_left']
    by_cases hfits : c.addr + c.size ≤ range.endAddr
    · refine iff_of_true ?_ (.inl hfits)
      rw [Nat.min_eq_left (by omega), if_pos ⟨Nat.le_of_lt hlt, hmapped.2 hfits⟩]
      rfl
    · have hiff := writeBytes_eq_self_iff c.file c.off
        (c.mem.readBytes c.addr (range.endAddr - c.addr))
      rw [length_readBytes] at hiff
      rw [Nat.min_eq_right (by omega), if_neg fun hboth => hfits (hmapped.1 hboth.2)]
      simp only [hfits, false_or, ← hiff]
      exact (Except.ok.injEq _ _).to_iff.trans withFile_eq_iff

theorem doWrite_eq_iff :
    c.doWrite host = .ok (c.transferWrite host).assertIrq ↔ c.WriteTransfers host := by
  unfold Controller.WriteTransfers
  by_cases hlt : c.off + c.size < host.filesize
  · have hne : c.off + c.size ≠ host.filesize := Nat.ne_of_lt hlt
    simp [doWrite_eq_iff_before hlt, hlt, hne]
  · unfold Controller.doWrite Controller.transferWrite
    rw [if_neg hlt]
    by_cases hrange : c.InRange host
    · -- the sectors end with the image
      have hend : c.off + c.size = host.filesize := Nat.le_antisymm hrange.1 (Nat.not_lt.1 hlt)
      have hiff := writeBytes_eq_self_iff c.file c.off
        (c.mem.readBytes c.addr c.size)
      rw [length_readBytes] at hiff
      rw [if_pos hrange]
      simp only [hend, hrange.2, Nat.lt_irrefl, false_implies, true_and, forall_const, ← hiff]
      exact (Except.ok.injEq _ _).to_iff.trans (eq_comm.trans withFile_eq_iff)
    · rw [if_neg hrange]
      refine iff_of_true rfl ⟨fun h => absurd h hlt, fun hend hmapped => ?_⟩
      exact absurd ⟨Nat.le_of_eq hend, hmapped⟩ hrange

/-- **A request is served as it is meant to be exactly if it meets the condition.** -/
theorem ioPortAccess_eq_iff :
    c.ioPortAccess host r = .ok (c.transfer host r) ↔ Transfers host c r := by
  unfold Controller.ioPortAccess Controller.transfer Transfers
  by_cases hread : r.direction = ioDirRead
  · have hne : ¬ ioDirRead = ioDirWrite := by decide
    simp [hread, hne]
  · by_cases hwrite : r.direction = ioDirWrite
    · rw [if_neg hread, if_neg hread, if_pos hwrite, if_pos hwrite, Controller.ioPortWrite]
      cases hport : Port.ofValue r.port with
      | doRead =>
        simp only [hwrite, forall_const, ← doRead_eq_iff]
        cases c.doRead host <;> simp [Except.map]
      | doWrite =>
        simp only [hwrite, forall_const, ← doWrite_eq_iff]
        cases c.doWrite host <;> simp [Except.map]
      | _ => simp [Except.map]
    · simp [hread, hwrite]

/-- A request and its answer. -/
def DiskStep (host : Host) (c : Controller) (l : IoPortRequest × UInt32) (c' : Controller) : Prop :=
  c.ioPortAccess host l.1 = .ok (l.2, c')

def TransferStep (host : Host) (c : Controller) (l : IoPortRequest × UInt32) (c' : Controller) :
    Prop :=
  c.transfer host l.1 = (l.2, c')

/-- **Disk transfers are exact or have no effect.**  Every run of requests that meet the
condition is a run of a disk whose transfers copy the sectors if both ranges are there and
change nothing otherwise; and whatever the image, the memory and the registers are, a further
request is served like that exactly if it meets the condition. -/
theorem disk_transfers {ls : List (IoPortRequest × UInt32)}
    (h : Run (Guarded (fun c l => Transfers host c l.1) (DiskStep host)) c ls c') :
    Run (TransferStep host) c ls c' ∧
      ∀ r, c'.ioPortAccess host r = .ok (c'.transfer host r) ↔ Transfers host c' r := by
  refine ⟨h.mono fun s l t hstep => ?_, fun r => ioPortAccess_eq_iff⟩
  obtain ⟨htransfers, hstep⟩ := hstep
  exact Except.ok.inj ((ioPortAccess_eq_iff.2 htransfers).symm.trans hstep)

/-- An image of two sectors. -/
def twoSectors : Host := ⟨1024, 2 ^ 62, 2 ^ 30, by decide, by decide⟩

/-- The first of two sectors is read. -/
theorem disk_transfers_first_sector :
    ∃ c, Run (TransferStep twoSectors) (.init (fun _ => 1) fun _ => 0) [(⟨0x93, 1, 1⟩, 0)] c ∧
      c.ioPortAccess twoSectors ⟨0x94, 1, 0⟩ =
        .ok (0, { c with mem := c.mem.writeBytes 0 (c.file.readBytes 0 512) }) := by
  have hset : Transfers twoSectors (.init (fun _ => 1) fun _ => 0) ⟨0x93, 1, 1⟩ := fun _ => trivial
  have hstep : DiskStep twoSectors (.init (fun _ => 1) fun _ => 0) (⟨0x93, 1, 1⟩, 0)
      ⟨fun _ => 1, fun _ => 0, 0, 0, 1, 512, 0⟩ := rfl
  obtain ⟨hrun, hnext⟩ := disk_transfers (.tail .refl ⟨hset, hstep⟩)
  have hread : Transfers twoSectors ⟨fun _ => 1, fun _ => 0, 0, 0, 1, 512, 0⟩ ⟨0x94, 1, 0⟩ := by
    intro _
    refine (if_pos (by decide)).mpr (.inr ?_)
    decide
  refine ⟨_, hrun, ((hnext _).2 hread).trans ?_⟩
  exact congrArg (fun c => Except.ok (0, c)) (if_pos (by decide))

/-- A write of the last sector is not done, and a read that runs over the end of memory ends
the device. -/
theorem disk_loses_last_sector :
    (∃ (host : Host) (c : Controller), c.InRange host ∧ c.file c.off ≠ c.mem c.addr ∧
      c.ioPortAccess host ⟨0x95, 1, 0⟩ = .ok (0, c.assertIrq)) ∧
    ∃ (host : Host) (c : Controller), ¬ c.InRange host ∧
      c.ioPortAccess host ⟨0x94, 1, 0⟩ = .error .index := by
  refine ⟨⟨twoSectors, ⟨fun _ => 0, fun _ => 1, 1, 0, 1, 512, 0⟩, ?_, by decide, rfl⟩,
    ⟨twoSectors, ⟨fun _ => 0, fun _ => 1, 0, 0x9ffff, 1, 2, 0⟩, ?_, rfl⟩⟩
  · decide
  · decide

end Ooows.Disk
