import Ooows.HyperO.Vmexit
import Ooows.Lib.ByteMem

/-!
# Ooows.HyperO.Fetch

Where the exiting instruction is.

`vmexit_handle` reports `rip_gpa`, and `handle_pio` and `handle_mmio` copy 16 bytes
from there for the disassembler.  `instructionAddress` is where the processor finds
the instruction: at `16 * CS + RIP` in real mode, at `RIP` in protected mode without
paging (with flat segments), and at the translation of `RIP` with paging.

The code joins `CS << 4` and `RIP` with a bitwise or, which is the sum only where the
two have no bit in common, and does not translate (`ripGpa_iff`).
-/

namespace Ooows.HyperO

open Lib

/-- The guest's modes. -/
inductive GuestMode
  | realMode
  | protectedMode
  | pagingMode
  deriving DecidableEq, Repr

/-- The mode that the bits of `CR0` stand for; paging needs protection. -/
def GuestMode.ofCr0 (cr0 : UInt64) : Option GuestMode :=
  if pagingEnable cr0 then
    if protectionEnable cr0 then some .pagingMode else none
  else if protectionEnable cr0 then some .protectedMode else some .realMode

/-- The guest-physical address of the instruction at `CS:RIP`; `translate` is the walk of the
guest's page tables. -/
def instructionAddress (translate : UInt64 → Option UInt64) (mode : GuestMode) (cs rip : UInt64) :
    Option UInt64 :=
  match mode with
  | .realMode => some (16 * cs + rip)
  | .protectedMode => some rip
  | .pagingMode => translate rip

/-- The guest's memory at the first 16 bytes from `CS:RIP` on. -/
def instructionBytes (mem : ByteMem) (translate : UInt64 → Option UInt64) (mode : GuestMode)
    (cs rip : UInt64) : List (Option UInt8) :=
  (List.range 16).map fun i =>
    (instructionAddress translate mode cs (rip + UInt64.ofNat i)).map fun a => mem a.toNat

/-- The copy `handle_pio` and `handle_mmio` make; `mem` is what stands from `guest_mem` on. -/
def fetch (mem : ByteMem) (s : OooState) : List UInt8 := mem.readBytes s.ripGpa.toNat 16

/-- The condition on an address: in real mode `16 * CS` and `RIP` have no bit in common, with paging
`RIP` is mapped to itself. -/
def Direct (translate : UInt64 → Option UInt64) (mode : GuestMode) (cs rip : UInt64) : Prop :=
  match mode with
  | .realMode => (cs <<< 4) &&& rip = 0
  | .protectedMode => True
  | .pagingMode => translate rip = some rip

/-! ## what vmexit_handle reports -/

theorem or_eq_add_iff (x y : UInt64) : x ||| y = x + y ↔ x &&& y = 0 := by
  have hsum := Bits.or_add_and x.toNat y.toNat
  have hor : (x ||| y).toNat = x.toNat ||| y.toNat := UInt64.toNat_or x y
  have hand : (x &&& y).toNat = x.toNat &&& y.toNat := UInt64.toNat_and x y
  have hlt := (x ||| y).toNat_lt
  have hlt' := (x &&& y).toNat_lt
  rw [← UInt64.toNat_inj, ← UInt64.toNat_inj, UInt64.toNat_add, UInt64.toNat_zero]
  omega

theorem shiftLeft_four (cs : UInt64) : cs <<< 4 = 16 * cs := by
  rw [← UInt64.toNat_inj, UInt64.toNat_shiftLeft, UInt64.toNat_mul, Nat.shiftLeft_eq,
    show (4 : UInt64).toNat % 64 = 4 from rfl, show (16 : UInt64).toNat = 16 from rfl]
  omega

/-- The address `get_guest_rip` computes for each mode. -/
def joined (mode : GuestMode) (cs rip : UInt64) : UInt64 :=
  match mode with
  | .realMode => (cs <<< 4) ||| rip
  | .protectedMode => rip
  | .pagingMode => rip

variable {v : Vmcs} {mode : GuestMode} {translate : UInt64 → Option UInt64}

theorem instructionAddress_eq_joined_iff (cs rip : UInt64) :
    instructionAddress translate mode cs rip = some (joined mode cs rip) ↔
      Direct translate mode cs rip := by
  cases mode with
  | realMode =>
    rw [instructionAddress, joined, Direct, Option.some_inj, ← shiftLeft_four, eq_comm]
    exact or_eq_add_iff _ _
  | protectedMode => simp [instructionAddress, joined, Direct]
  | pagingMode => rfl

theorem getGuestRip_eq (hcr0 : v.fails .guestCr0 = false) (hcs : v.fails .guestCsSelector = false)
    (hmode : GuestMode.ofCr0 (v.value .guestCr0) = some mode) (s : OooState) :
    getGuestRip v s = some (joined mode (v.value .guestCsSelector) (s.regs rip)) := by
  unfold getGuestRip getGuestMode
  unfold GuestMode.ofCr0 at hmode
  rw [hcr0, hcs]
  cases hpg : pagingEnable (v.value .guestCr0) <;>
    cases hpe : protectionEnable (v.value .guestCr0) <;>
    simp only [hpg, hpe, if_true, if_false, Bool.false_eq_true, Option.some.injEq, reduceCtorEq]
      at hmode <;> subst hmode <;> rfl

/-- The exit handlers leave `rip_gpa` alone. -/
theorem ripGpa_handleReason (v : Vmcs) (vcpu : Vcpu) (reason : Nat) :
    (handleReason v vcpu reason).2.ripGpa = vcpu.state.ripGpa := by
  unfold handleReason
  repeat' split
  all_goals rfl

/-- What `vmexit_handle` reports as `rip_gpa`. -/
theorem vmexitHandle_ripGpa (h : ∀ f, v.fails f = false)
    (hmode : GuestMode.ofCr0 (v.value .guestCr0) = some mode) (vcpu : Vcpu) :
    ∃ ret s, vmexitHandle v vcpu = some (ret, s) ∧
      s.ripGpa = joined mode (v.value .guestCsSelector) (v.value .guestRip) := by
  obtain ⟨m, hm⟩ := Option.isSome_iff_exists.1 (getGuestMode_isSome (h .guestCr0))
  have hrip : (stopped v vcpu.state m).regs rip = v.value .guestRip := by
    simp [stopped, OooState.setReg]
  have hloc : locate v vcpu.state = some { stopped v vcpu.state m with
      ripGpa := joined mode (v.value .guestCsSelector) (v.value .guestRip) } := by
    rw [locate, hm, Option.bind_some, getGuestRip_eq (h _) (h _) hmode, Option.map_some, hrip]
  have hreads : readFails v = false := by simp [readFails, h]
  rw [vmexitHandle, hloc, Option.map_some, hreads, if_neg (by simp)]
  exact ⟨_, _, rfl, ripGpa_handleReason _ _ _⟩

/-! ## the instruction -/

theorem joined_add {cs rip : UInt64} (h : Direct translate mode cs rip) (i : UInt64)
    (hpaging : mode = .pagingMode → translate (rip + i) = some (rip + i)) :
    instructionAddress translate mode cs (rip + i) = some (joined mode cs rip + i) := by
  cases mode with
  | realMode =>
    have hsum : (cs <<< 4) ||| rip = cs <<< 4 + rip := (or_eq_add_iff _ _).2 h
    rw [instructionAddress, joined, hsum, shiftLeft_four, UInt64.add_assoc]
  | protectedMode => rfl
  | pagingMode => exact hpaging rfl

/-- **Locating the instruction**: `vmexit_handle` returns for every mode, selector and instruction
pointer, and the `rip_gpa` it reports is the address of the instruction at `CS:RIP` exactly if the
address is direct.  If with paging the 16 bytes from `RIP` on are all mapped to themselves and the
address space does not end within them, these are the bytes the disassembler gets. -/
theorem ripGpa_iff (v : Vmcs) (vcpu : Vcpu) (mode : GuestMode) (translate : UInt64 → Option UInt64)
    (mem : ByteMem) (h : ∀ f, v.fails f = false)
    (hmode : GuestMode.ofCr0 (v.value .guestCr0) = some mode) :
    ∃ ret s, vmexitHandle v vcpu = some (ret, s) ∧
      (instructionAddress translate mode (v.value .guestCsSelector) (v.value .guestRip) =
          some s.ripGpa ↔
        Direct translate mode (v.value .guestCsSelector) (v.value .guestRip)) ∧
      (Direct translate mode (v.value .guestCsSelector) (v.value .guestRip) →
        (mode = .pagingMode → ∀ i < 16, translate (v.value .guestRip + UInt64.ofNat i) =
          some (v.value .guestRip + UInt64.ofNat i)) →
        s.ripGpa.toNat + 16 ≤ 2 ^ 64 →
        instructionBytes mem translate mode (v.value .guestCsSelector) (v.value .guestRip) =
          (fetch mem s).map some) := by
  obtain ⟨ret, s, hrun, hgpa⟩ := vmexitHandle_ripGpa h hmode vcpu
  refine ⟨ret, s, hrun, by rw [hgpa]; exact instructionAddress_eq_joined_iff _ _, ?_⟩
  intro hdirect hpaging hend
  rw [instructionBytes, fetch, ByteMem.readBytes, List.map_map]
  refine List.map_congr_left fun i hi => ?_
  have hlt : i < 16 := List.mem_range.1 hi
  have hnat : (UInt64.ofNat i).toNat = i := by
    rw [UInt64.toNat_ofNat']
    omega
  have hsum : (s.ripGpa + UInt64.ofNat i).toNat = s.ripGpa.toNat + i := by
    rw [UInt64.toNat_add, hnat]
    omega
  rw [joined_add hdirect _ fun hm => hpaging hm i hlt, ← hgpa, Option.map_some, hsum]
  rfl

/-- A guest that stopped for an HLT in real mode at `CS:RIP`. -/
def haltedAt (cs rip : UInt64) : Vmcs where
  value
    | .vmExitReason => 12
    | .guestCsSelector => cs
    | .guestRip => rip
    | _ => 0
  fails _ := false

/-- At `1000:0020` the two parts have no bit in common. -/
theorem ripGpa_iff_disjoint :
    ∃ ret s, vmexitHandle (haltedAt 0x1000 0x20) exampleVcpu = some (ret, s) ∧ s.ripGpa = 0x10020 := by
  obtain ⟨ret, s, hrun, hiff, -⟩ := ripGpa_iff (haltedAt 0x1000 0x20) exampleVcpu .realMode some
    (fun _ => 0) (fun _ => rfl) rfl
  have haddr := hiff.2 (show ((0x1000 : UInt64) <<< 4) &&& 0x20 = 0 by decide)
  exact ⟨ret, s, hrun, (Option.some.inj haddr).symm⟩

/-- At `0001:0010`, which is address `0x20`, address `0x10` is reported. -/
theorem ripGpa_not_sum :
    ∃ ret s, vmexitHandle (haltedAt 1 0x10) exampleVcpu = some (ret, s) ∧
      instructionAddress some .realMode 1 0x10 = some 0x20 ∧ s.ripGpa = 0x10 :=
  ⟨_, _, rfl, rfl, rfl⟩

end Ooows.HyperO
