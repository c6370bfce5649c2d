import Mathlib.Algebra.Group.Nat.Defs
import Mathlib.Logic.Function.Basic

/-!
# Ooows.HyperO.Ept

The extended page tables of the hyper-o kernel module: `ept_map`, `ept_unmap`,
`guest_to_host`, the two range loops over them, and the `OOO_MAP`, `OOO_UNMAP`
and `mmap` calls that run these loops.

`vm->pt` is kept as the flat array C makes of it: the entry `pt[pd][pt]` has
index `512 * pd + pt`, and an index from `128 * 512` on is past the end of the
array, in the memory of the virtual CPUs.  Every write is recorded by its index
(`Vm.writes`).

The range loops are stated by the number of iterations they have made, so that
what is proved about them also covers a loop that is still running.

What the page tables of a process hold for an address is the hardware's view
(`Walk.frame`); what `userspace_virt_to_phys` makes of it is the module's, and the
two differ where the module does not know a kind of page.
-/

namespace Ooows.HyperO

/-! ## the kernel around the module -/

/-- What a process's page tables hold for an address. -/
inductive Walk
  /-- An upper level has no entry. -/
  | missing
  /-- A 1 GiB page from frame `pfn` on; to `pud_bad` that is no entry either. -/
  | gigantic (pfn : UInt64)
  /-- A 2 MiB page from frame `pfn` on.  Nothing stops `userspace_virt_to_phys` from taking
  the page itself for a table: `entry` is the frame number it finds in its contents. -/
  | huge (pfn entry : UInt64)
  /-- The last level's entry; nobody looks whether it is present. -/
  | pte (pfn : UInt64) (present : Bool)
  deriving DecidableEq, Repr

/-- The frame the processor finds for the address. -/
def Walk.frame (address : UInt64) : Walk → Option UInt64
  | .missing => none
  | .gigantic pfn => some (pfn + (address >>> 12 &&& 0x3ffff))
  | .huge pfn _ => some (pfn + (address >>> 12 &&& 0x1ff))
  | .pte pfn present => if present then some pfn else none

/-- The kernel's direct map of the 64 TiB of RAM x86-64 Linux supports.  `virt_to_phys` is
right for it; of other kernel addresses nothing is assumed. -/
structure Kernel where
  virtToPhys : UInt64 → UInt64
  /-- `PAGE_OFFSET`. -/
  pageOffset : UInt64
  /-- Physical address of `vm`, which `kzalloc` takes from the direct map. -/
  vmPhys : UInt64
  direct : ∀ pa, pa.toNat < 2 ^ 46 → virtToPhys (pa + pageOffset) = pa
  vm_aligned : vmPhys.toNat % 4096 = 0
  vm_ram : vmPhys.toNat + 0x200000 ≤ 2 ^ 46

/-- `phys_to_virt`. -/
def Kernel.physToVirt (k : Kernel) (pa : UInt64) : UInt64 := pa + k.pageOffset

/-- Address of `vm`, whose first member is `memory`. -/
def Kernel.vm (k : Kernel) : UInt64 := k.physToVirt k.vmPhys

/-- The calling process's page tables at the time of a call; the kernel's half is in them
too, and a page that can be reached is in RAM. -/
structure User where
  walk : UInt64 → Walk
  ram : ∀ address f, (walk address).frame address = some f → f.toNat < 2 ^ 34

/-- The frame an address has in the process's address space. -/
def User.frame (user : User) (address : UInt64) : Option UInt64 :=
  (user.walk address).frame address

/-- `userspace_virt_to_phys`. -/
def userspaceVirtToPhys (user : User) (address : UInt64) : UInt64 :=
  match user.walk address with
  | .missing | .gigantic _ => 0
  | .huge _ entry => entry <<< 12
  | .pte pfn _ => pfn <<< 12

/-! ## entries -/

/-- `EPT_PTE`. -/
structure EptPte where
  read : Bool
  write : Bool
  execute : Bool
  eptMemoryType : BitVec 3
  ignorePAT : Bool
  ignored1 : Bool
  accessedFlag : Bool
  dirtyFlag : Bool
  executeForUserMode : Bool
  ignored2 : Bool
  physicalAddress : BitVec 36
  reserved : BitVec 4
  ignored3 : BitVec 11
  suppressVE : Bool
  deriving DecidableEq, Repr

namespace EptPte

/-- The entry whose `all` is 0. -/
def zero : EptPte :=
  ⟨false, false, false, 0, false, false, false, false, false, false, 0, 0, 0, false⟩

/-- The processor uses an entry if any of its access bits is set. -/
def present (e : EptPte) : Bool := e.read || e.write || e.execute

/-- The fields `ept_map` writes; the others keep what they had. -/
def mapTo (e : EptPte) (hostPpi : UInt64) : EptPte :=
  { e with
    accessedFlag := false
    dirtyFlag := false
    eptMemoryType := 6
    execute := true
    executeForUserMode := true
    ignorePAT := true
    physicalAddress := BitVec.ofNat 36 hostPpi.toNat
    read := true
    suppressVE := false
    write := true }

end EptPte

structure Vm where
  /-- `pt`, and the memory after it, by flat index. -/
  pt : Nat → EptPte
  /-- Indices of the entries written so far, oldest first. -/
  writes : List Nat

namespace Vm

/-- `vm_alloc` zeroes `pt`; what is after it is the virtual CPUs' business. -/
def init (vcpus : Nat → EptPte) : Vm :=
  ⟨fun i => if i < 128 * 512 then .zero else vcpus i, []⟩

/-- Write one entry. -/
def set (vm : Vm) (i : Nat) (e : EptPte) : Vm :=
  ⟨Function.update vm.pt i e, vm.writes ++ [i]⟩

/-! ## indices -/

/-- `guest_p_idx`. -/
def pIdx (gpa : UInt64) : Nat := gpa.toNat / 4096

/-- One of the indices above the page directory is not zero. -/
def tooHigh (gpa : UInt64) : Bool :=
  pIdx gpa / 512 / 512 / 512 / 512 ≠ 0 || pIdx gpa / 512 / 512 / 512 % 512 ≠ 0 ||
    pIdx gpa / 512 / 512 % 512 ≠ 0

/-- The entry `ept_map` writes. -/
def mapIdx (gpa : UInt64) : Nat := 512 * (pIdx gpa / 512 % 512) + pIdx gpa % 512

/-- The entry `ept_unmap` and `guest_to_host` use: their `guest_pd_idx` divides by
512 once more than `ept_map`'s. -/
def unmapIdx (gpa : UInt64) : Nat := 512 * (pIdx gpa / 512 / 512 % 512) + pIdx gpa % 512

/-! ## operations -/

/-- `ept_map`; `none` is `false`. -/
def eptMap (k : Kernel) (vm : Vm) (gpa hostVa : UInt64) : Option Vm :=
  if tooHigh gpa then none
  else some (vm.set (mapIdx gpa) ((vm.pt (mapIdx gpa)).mapTo (k.virtToPhys hostVa / 4096)))

/-- `ept_unmap`. -/
def eptUnmap (vm : Vm) (gpa : UInt64) : Vm :=
  if tooHigh gpa then vm else vm.set (unmapIdx gpa) .zero

/-- `guest_to_host`.  `PhysicalAddress` is a bit-field of 36 bits and the shift is made in
these: of the frame number only the low 24 bits are left. -/
def guestToHost (k : Kernel) (vm : Vm) (gpa : UInt64) : UInt64 :=
  if tooHigh gpa then 0
  else
    k.physToVirt (UInt64.ofNat ((vm.pt (unmapIdx gpa)).physicalAddress <<< 12).toNat) +
      (gpa &&& 0xfff)

/-- The host address `ept_map_range` maps for offset `i`: kernel addresses are
taken as they are, user addresses go through the caller's page tables. -/
def hostVaAt (k : Kernel) (user : User) (base i : UInt64) : UInt64 :=
  if base >>> 63 ≠ 0 then base + i else k.physToVirt (userspaceVirtToPhys user (base + i))

/-- `ept_map_range` after at most `n` more iterations from offset `i`: what it has returned,
if it has, and the tables. -/
def mapRange (k : Kernel) (user : User) (gpa base size : UInt64) :
    Nat → UInt64 → Vm → Option Bool × Vm
  | 0, _, vm => (none, vm)
  | n + 1, i, vm =>
    if i ≤ size then
      match vm.eptMap k (gpa + i) (hostVaAt k user base i) with
      | none => (some false, vm)
      | some vm => mapRange k user gpa base size n (i + 4096) vm
    else (some true, vm)

/-- `ept_unmap_range` after at most `n` more iterations: whether it has returned, and the
tables. -/
def unmapRange (gpa size : UInt64) : Nat → UInt64 → Vm → Bool × Vm
  | 0, _, vm => (false, vm)
  | n + 1, i, vm =>
    if i < size then unmapRange gpa size n (i + 4096) (vm.eptUnmap (gpa + i)) else (true, vm)

/-- `&vm->memory + gpa`: a pointer to the whole array, so `gpa` counts arrays. -/
def mapped (k : Kernel) (gpa : UInt64) : UInt64 := k.vm + 0x200000 * gpa

/-- The part of `device_mmap` that writes page tables, after at most `n`
iterations of its loop.  The other branch only reads them. -/
def deviceMmap (k : Kernel) (user : User) (pgoff vmasize : UInt64) (n : Nat) (vm : Vm) : Vm :=
  let gpa := pgoff <<< 12
  if gpa > 0x200000 then vm
  else if k.virtToPhys (vm.guestToHost k gpa) ≠ 0 then vm
  else (mapRange k user gpa (mapped k gpa) vmasize n 0 vm).2

end Vm

end Ooows.HyperO
