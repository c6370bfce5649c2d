import Mathlib.Algebra.Group.Nat.Defs
import Mathlib.Algebra.Ring.Int.Defs
import Mathlib.Data.Nat.Bitwise
import Mathlib.Logic.Function.Basic
import Ooows.Lib.Bits

/-!
# Ooows.HyperO.Vmexit

One virtual CPU of the hyper-o kernel module: `get_guest_mode`, `get_guest_rip`,
`vmexit_handle`, `vcpu_run` and the loop of the `OOO_RUN` ioctl.

What the processor does is the environment of the model (`Hw`): how the entry
instruction ends, and what each `vmread` stores and whether it fails.  A failing
`vmread` stores whatever was in its register, so its value is not lost.  `panic`
stops the machine and is `none`.

`int`, `__u64` and `long` are different types in the code, and the value that
`vcpu_run` returns passes through all three (`toInt`, `toU64`, `toLong`).

* `vcpuRun_ret`: what one call returns.  A failed entry is the negated error, so
  error 1 is taken for a handled exit and error 0 for an exit reason.
* `Hw.report` is what the ioctl ought to make of a call, and `oooRun_reports` says
  for which calls it does, and what that means for the loop.
-/

namespace Ooows.HyperO

open Lib

/-! ## the processor -/

/-- The VMCS fields the functions below read. -/
inductive Field
  | vmInstructionError
  | vmExitReason
  | exitQualification
  | guestLinearAddress
  | guestPhysicalAddress
  | guestCsSelector
  | guestCr0
  | guestRsp
  | guestRip
  deriving DecidableEq, Repr

/-- What `vmread` of each field stores, and whether the instruction fails. -/
structure Vmcs where
  value : Field → UInt64
  fails : Field → Bool

/-- How `vmlaunch` or `vmresume` ends. -/
inductive Entry
  /-- In a VM exit, with the guest's registers as `vm_entrypoint` finds them. -/
  | exit (regs : Int → UInt64)
  /-- In the next instruction with the carry flag set. -/
  | failInvalid
  /-- In the next instruction with the zero flag set. -/
  | failValid

/-- The instruction ends in a VM exit. -/
def Entry.isExit : Entry → Bool
  | .exit _ => true
  | .failInvalid => false
  | .failValid => false

/-- The processor during one call of `vcpu_run`. -/
structure Hw where
  /-- `vmptrst`, `vmptrld` and the `vmwrite` of `GUEST_RSP` succeed. -/
  prepared : Bool
  before : Vmcs
  entry : Entry
  after : Vmcs
  /-- `vmclear` succeeds. -/
  cleared : Bool

/-! ## the virtual CPU -/

/-- The members of `ooo_state_t` that are used.  `regs` is the array of words the code makes of
`struct ooo_regs`: 0 to 15 are the general registers, -1 is the member `fart` in front of it. -/
structure OooState where
  mode : UInt8
  ripGpa : UInt64
  /-- `mmio.phys_addr`. -/
  physAddr : UInt64
  /-- `mmio.is_write`. -/
  isWrite : Bool
  regs : Int → UInt64

def rax : Int := 0
def rcx : Int := 1
def rdx : Int := 2
def rbx : Int := 3
def rsp : Int := 4
def rip : Int := 16

namespace OooState

/-- Assign to one register. -/
def setReg (s : OooState) (r : Int) (x : UInt64) : OooState :=
  { s with regs := Function.update s.regs r x }

end OooState

structure Vcpu where
  state : OooState
  guestCpuId : UInt8
  launched : Bool

def modeReal : UInt8 := 0
def modeProtected : UInt8 := 1
def modePaging : UInt8 := 2

/-- `CR0.PE`. -/
def protectionEnable (cr0 : UInt64) : Bool := cr0.toNat.testBit 0

/-- `CR0.PG`. -/
def pagingEnable (cr0 : UInt64) : Bool := cr0.toNat.testBit 31

/-- `get_guest_mode`, as stored in the byte `mode`: -1 is 255. -/
def getGuestMode (v : Vmcs) : Option UInt8 :=
  if v.fails .guestCr0 then none
  else
    match protectionEnable (v.value .guestCr0), pagingEnable (v.value .guestCr0) with
    | false, false => some modeReal
    | true, false => some modeProtected
    | true, true => some modePaging
    | false, true => some 255

/-- `get_guest_rip`. -/
def getGuestRip (v : Vmcs) (s : OooState) : Option UInt64 :=
  (getGuestMode v).bind fun mode =>
    if mode = modeReal then
      if v.fails .guestCsSelector then none
      else some ((v.value .guestCsSelector <<< 4) ||| s.regs rip)
    else some (s.regs rip)

/-! ## exits -/

/-- `OOO_VMEXIT_HANDLED`. -/
def oooVmexitHandled : Int := -1

def exitCpuid : Nat := 10
def exitHlt : Nat := 12
def exitRdmsr : Nat := 31
def exitWrmsr : Nat := 32
def exitEptViolation : Nat := 48

/-- `exit_info.bits.exit_reason`: the low 16 bits. -/
def exitReason (flags : UInt64) : Nat := flags.toNat % 2 ^ 16

/-- `exit_info.bits.vm_entry_failure`, which the code does not look at. -/
def vmEntryFailure (flags : UInt64) : Bool := flags.toNat.testBit 31

/-- `update_rip`. -/
def updateRip (s : OooState) (instrSize : UInt64) : OooState := s.setReg rip (s.regs rip + instrSize)

/-- The words `CPUID` leaves in the registers. -/
def oooWord : UInt64 := 0x4f4f4f4f4f4f4f4f

/-- What `RDMSR` returns: the APIC base, with the bootstrap bit on processor 0, and 0 for every
other register. -/
def rdmsrValue (rcx : UInt64) (guestCpuId : UInt8) : UInt64 :=
  if rcx = 0x1b then
    (0xfee00000 ||| 0x800) ||| (if guestCpuId = 0 then 0x100 else 0)
  else 0

/-- The `switch` of `vmexit_handle`. -/
def handleReason (v : Vmcs) (vcpu : Vcpu) (reason : Nat) : Int × OooState :=
  let s := vcpu.state
  if reason = exitCpuid then
    (oooVmexitHandled, updateRip
      ((((s.setReg rax oooWord).setReg rbx oooWord).setReg rcx oooWord).setReg rdx oooWord) 2)
  else if reason = exitHlt then (reason, updateRip s 1)
  else if reason = exitEptViolation then
    (reason, { s with
      physAddr := v.value .guestPhysicalAddress
      isWrite := (v.value .exitQualification).toNat.testBit 1 })
  else if reason = exitRdmsr then
    (oooVmexitHandled,
      updateRip ((s.setReg rdx 0).setReg rax (rdmsrValue (s.regs rcx) vcpu.guestCpuId)) 2)
  else if reason = exitWrmsr then (oooVmexitHandled, updateRip s 2)
  else (reason, s)

/-- The state with the guest's `rip` and mode. -/
def stopped (v : Vmcs) (s : OooState) (mode : UInt8) : OooState :=
  { s.setReg rip (v.value .guestRip) with mode := mode }

/-- The first part of `vmexit_handle`: it stores the instruction pointer, the mode and `rip_gpa`. -/
def locate (v : Vmcs) (s : OooState) : Option OooState :=
  (getGuestMode v).bind fun mode =>
    (getGuestRip v (stopped v s mode)).map fun gpa => { stopped v s mode with ripGpa := gpa }

/-- One of the reads whose results `vmexit_handle` collects in `ret` fails. -/
def readFails (v : Vmcs) : Bool :=
  v.fails .vmExitReason || v.fails .guestRip || v.fails .guestLinearAddress ||
    v.fails .guestPhysicalAddress

/-- `vmexit_handle`. -/
def vmexitHandle (v : Vmcs) (vcpu : Vcpu) : Option (Int × OooState) :=
  (locate v vcpu.state).map fun s =>
    if readFails v then (-1, s)
    else handleReason v { vcpu with state := s } (exitReason (v.value .vmExitReason))

/-! ## entries -/

/-- Conversion to `int`. -/
def toInt (n : Int) : Int := (n + 2 ^ 31) % 2 ^ 32 - 2 ^ 31

/-- Conversion to `__u64`. -/
def toU64 (n : Int) : UInt64 := UInt64.ofNat (n % 2 ^ 64).toNat

/-- Conversion of a `__u64` to `long`. -/
def toLong (i : UInt64) : Int := if i.toNat < 2 ^ 63 then i.toNat else i.toNat - 2 ^ 64

/-- `_vmlaunch`; after a failure `xor rax, rax` sets the zero flag before the flags are looked at. -/
def vmlaunch : Entry → Int
  | .exit _ => 0
  | .failInvalid => -2
  | .failValid => -2

/-- `_vmresume`. -/
def vmresume : Entry → Int
  | .exit _ => 0
  | .failInvalid => -1
  | .failValid => -2

/-- The registers after an exit: `vm_entrypoint` saves the general ones but `rsp`. -/
def savedRegs (s : OooState) : Entry → Int → UInt64
  | .exit regs, r => if 0 ≤ r ∧ r < 16 ∧ r ≠ rsp then regs r else s.regs r
  | _, r => s.regs r

/-- The state after an exit, with the stack pointer from the VMCS. -/
def exited (hw : Hw) (s : OooState) : OooState :=
  { s with regs := savedRegs s hw.entry }.setReg rsp (hw.after.value .guestRsp)

/-- What the entry wrapper returns. -/
def enter (hw : Hw) (vcpu : Vcpu) : Int :=
  if vcpu.launched then vmresume hw.entry else vmlaunch hw.entry

/-- `vcpu_run`. -/
def vcpuRun (hw : Hw) (vcpu : Vcpu) : Option (Int × Vcpu) :=
  if hw.prepared then
    (getGuestRip hw.before vcpu.state).bind fun _ =>
      if enter hw vcpu < 0 then
        -- whether this read fails is not looked at
        some (toInt (-(hw.after.value .vmInstructionError).toNat), vcpu)
      else if hw.after.fails .guestRsp then none
      else
        (vmexitHandle hw.after { vcpu with state := exited hw vcpu.state, launched := true }).bind
          fun r => if hw.cleared then some (r.1, { vcpu with state := r.2, launched := false })
            else none
  else none

/-! ## the ioctl -/

/-- How the ioctl stands after the calls of `vcpu_run` it was given. -/
inductive Ran
  | looping
  | panicked
  | returned (r : Int)
  deriving DecidableEq, Repr

/-- What the `OOO_RUN` case of `device_ioctl_pinned` makes of a value of `vcpu_run`: `none` is
another round.  `copyOut` says whether `copy_to_user` succeeds. -/
def oooStep (copyOut : Bool) (ret : Int) : Option Int :=
  let i := toU64 ret
  if i = toU64 oooVmexitHandled then none
  -- `i` has no sign, so the second branch is never taken
  else if copyOut then some (toLong (if 0 ≤ i then i else 0x1000 ||| -i))
  else some (-22)

/-- The `OOO_RUN` case behind `copy_from_user`. -/
def oooRun (copyOut : Bool) : List Hw → Vcpu → Ran × Vcpu
  | [], vcpu => (.looping, vcpu)
  | hw :: hws, vcpu =>
    match vcpuRun hw vcpu with
    | none => (.panicked, vcpu)
    | some (ret, vcpu) =>
      match oooStep copyOut ret with
      | none => oooRun copyOut hws vcpu
      | some r => (.returned r, vcpu)

/-! ## conversions -/

theorem toNat_toU64 (n : Int) : ((toU64 n).toNat : Int) = n % 2 ^ 64 := by
  rw [toU64, UInt64.toNat_ofNat']
  omega

/-- What fits into a `long` survives the way through `__u64`. -/
theorem toLong_toU64 {n : Int} (h : -2 ^ 63 ≤ n) (h' : n < 2 ^ 63) : toLong (toU64 n) = n := by
  have hnat := toNat_toU64 n
  unfold toLong
  split <;> omega

theorem toU64_inj {m n : Int} (hm : -2 ^ 63 ≤ m) (hm' : m < 2 ^ 63) (hn : -2 ^ 63 ≤ n)
    (hn' : n < 2 ^ 63) (h : toU64 m = toU64 n) : m = n := by
  rw [← toLong_toU64 hm hm', h, toLong_toU64 hn hn']

/-- An `int` other than the marker is returned as it is. -/
theorem oooStep_true {n : Int} (h : -2 ^ 31 ≤ n) (h' : n < 2 ^ 31) :
    oooStep true n = if n = oooVmexitHandled then none else some n := by
  have hpos : (0 : UInt64) ≤ toU64 n := UInt64.zero_le
  rw [oooStep]
  by_cases hmark : n = oooVmexitHandled
  · simp [hmark]
  · have hne : toU64 n ≠ toU64 oooVmexitHandled := fun heq =>
      hmark (toU64_inj (by omega) (by omega) (by decide) (by decide) heq)
    simp [hmark, hne, hpos, toLong_toU64 (show -2 ^ 63 ≤ n by omega) (show n < 2 ^ 63 by omega)]

/-- Setting bit 12 adds 4096 or nothing. -/
theorem toNat_or_4096 (e : UInt64) : (0x1000 ||| e).toNat =
    if e.toNat / 4096 % 2 = 1 then e.toNat else e.toNat + 4096 := by
  have hand : (0x1000 : UInt64).toNat &&& e.toNat = 4096 * (e.toNat / 4096 % 2) := by
    rw [show (0x1000 : UInt64).toNat = 2 ^ 12 from rfl, Nat.two_pow_and,
      Nat.testBit_eq_decide_div_mod_eq]
    rcases Nat.mod_two_eq_zero_or_one (e.toNat / 4096) with h | h <;> simp [h]
  have hsum := Bits.or_add_and (0x1000 : UInt64).toNat e.toNat
  rw [UInt64.toNat_or]
  rw [show (0x1000 : UInt64).toNat = 4096 from rfl] at hsum hand ⊢
  split <;> omega

/-- The negated error is never the error with bit 12. -/
theorem toInt_neg_ne (e : UInt64) : toInt (-e.toNat) ≠ toLong (0x1000 ||| e) := by
  have hlt := e.toNat_lt
  unfold toInt toLong
  rw [toNat_or_4096]
  split <;> split <;> omega

/-! ## one call of vcpu_run -/

/-- What the ioctl has to do after a call. -/
inductive Report
  /-- Another round. -/
  | loop
  | reason (n : Nat)
  | entryError (e : UInt64)
  /-- The entry failed while the guest state was loaded; there is no instruction error. -/
  | entryFailure
  | readError
  deriving DecidableEq, Repr

/-- It did: an exit reason is returned as it is, an instruction error with bit 12 set, a failing read
as some error code, and a failed entry never as an exit reason. -/
def Report.Met : Report → Option Int → Prop
  | .loop, r => r = none
  | .reason n, r => r = some (n : Int)
  | .entryError e, r => r = some (toLong (0x1000 ||| e))
  | .entryFailure, r => ∃ x, r = some x ∧ (x < 0 ∨ 2 ^ 16 ≤ x)
  | .readError, r => ∃ x, r = some x ∧ x < 0

namespace Hw

/-- The basic exit reason. -/
def reason (hw : Hw) : Nat := exitReason (hw.after.value .vmExitReason)

/-- The exits that `vmexit_handle` handles itself. -/
def handled (hw : Hw) : Bool :=
  hw.reason = exitCpuid || hw.reason = exitRdmsr || hw.reason = exitWrmsr

/-- The instruction error behind a failed entry instruction. -/
def error (hw : Hw) : UInt64 := hw.after.value .vmInstructionError

/-- A read that the call makes after an exit fails; the qualification is read for EPT violations. -/
def exitReadFails (hw : Hw) : Bool :=
  readFails hw.after || (hw.reason = exitEptViolation && hw.after.fails .exitQualification)

/-- **What a call has to be reported as.** -/
def report (hw : Hw) : Report :=
  if hw.entry.isExit then
    if hw.exitReadFails then .readError
    else if vmEntryFailure (hw.after.value .vmExitReason) then .entryFailure
    else if hw.handled then .loop
    else .reason hw.reason
  else if hw.after.fails .vmInstructionError then .readError
  else .entryError hw.error

/-- The condition: the entry succeeds and every read after the exit does too.  A failing entry is
never reported as such; if its error cannot be read either, the number that stands in its place may
happen to be taken for an error code. -/
def Reported (hw : Hw) : Prop :=
  if hw.entry.isExit then
    hw.exitReadFails = false ∧ vmEntryFailure (hw.after.value .vmExitReason) = false
  else hw.after.fails .vmInstructionError = true ∧ toInt (-hw.error.toNat) < -1

instance (hw : Hw) : Decidable hw.Reported := by
  unfold Reported
  infer_instance

/-- The value of `vcpu_run`. -/
def ret (hw : Hw) : Int :=
  if hw.entry.isExit then
    if readFails hw.after || hw.handled then oooVmexitHandled else hw.reason
  else toInt (-hw.error.toNat)

end Hw

variable {hw : Hw} {v : Vmcs} {vcpu vcpu' : Vcpu} {s : OooState}

theorem getGuestMode_isSome (h : v.fails .guestCr0 = false) : (getGuestMode v).isSome := by
  rw [getGuestMode, h]
  cases protectionEnable (v.value .guestCr0) <;> cases pagingEnable (v.value .guestCr0) <;> rfl

/-- What the `switch` returns: the marker for the handled exits, and otherwise the reason. -/
theorem handleReason_fst (v : Vmcs) (vcpu : Vcpu) (reason : Nat) :
    (handleReason v vcpu reason).1 =
      if reason = exitCpuid || reason = exitRdmsr || reason = exitWrmsr then oooVmexitHandled
      else reason := by
  unfold handleReason
  by_cases h₁ : reason = exitCpuid
  · simp [h₁]
  by_cases h₂ : reason = exitHlt
  · simp [h₂, exitCpuid, exitHlt, exitRdmsr, exitWrmsr]
  by_cases h₃ : reason = exitEptViolation
  · simp [h₃, exitCpuid, exitHlt, exitEptViolation, exitRdmsr, exitWrmsr]
  by_cases h₄ : reason = exitRdmsr
  · simp [h₄, exitCpuid, exitHlt, exitEptViolation, exitRdmsr]
  by_cases h₅ : reason = exitWrmsr
  · simp [h₅, exitCpuid, exitHlt, exitEptViolation, exitRdmsr, exitWrmsr]
  simp [h₁, h₂, h₃, h₄, h₅]

/-- What `vmexit_handle` returns when it does not panic. -/
theorem vmexitHandle_fst {r : Int × OooState} (h : vmexitHandle v vcpu = some r) :
    r.1 = if readFails v then -1
      else (handleReason v vcpu (exitReason (v.value .vmExitReason))).1 := by
  obtain ⟨s, -, rfl⟩ := Option.map_eq_some_iff.1 h
  by_cases hreads : readFails v
  · rw [if_pos hreads, if_pos hreads]
  · rw [if_neg hreads, if_neg hreads, handleReason_fst, handleReason_fst]

theorem enter_of_exit (h : hw.entry.isExit) (vcpu : Vcpu) : enter hw vcpu = 0 := by
  rw [enter]
  cases he : hw.entry with
  | exit regs => split <;> rfl
  | failInvalid => simp [he, Entry.isExit] at h
  | failValid => simp [he, Entry.isExit] at h

theorem enter_of_fails (h : ¬ hw.entry.isExit) (vcpu : Vcpu) : enter hw vcpu < 0 := by
  rw [enter]
  cases he : hw.entry with
  | exit regs => simp [he, Entry.isExit] at h
  | failInvalid => split <;> decide
  | failValid => split <;> decide

/-- What `vcpu_run` returns when it does not panic. -/
theorem vcpuRun_ret {ret : Int} (h : vcpuRun hw vcpu = some (ret, vcpu')) : ret = hw.ret := by
  unfold vcpuRun at h
  split at h
  · obtain ⟨gpa, -, h⟩ := Option.bind_eq_some_iff.1 h
    by_cases he : hw.entry.isExit
    · rw [enter_of_exit he, if_neg (by decide)] at h
      split at h
      · contradiction
      obtain ⟨r, hr, h⟩ := Option.bind_eq_some_iff.1 h
      split at h
      · obtain ⟨rfl, -⟩ := Prod.mk.inj (Option.some.inj h)
        rw [vmexitHandle_fst hr, handleReason_fst, Hw.ret, if_pos he]
        cases readFails hw.after <;> rfl
      · contradiction
    · rw [if_pos (enter_of_fails he vcpu)] at h
      obtain ⟨rfl, -⟩ := Prod.mk.inj (Option.some.inj h)
      rw [Hw.ret, if_neg he]
      rfl
  · contradiction

theorem ret_bounds (hw : Hw) : -2 ^ 31 ≤ hw.ret ∧ hw.ret < 2 ^ 31 := by
  have hlt : hw.reason < 2 ^ 16 := Nat.mod_lt _ (by decide)
  unfold Hw.ret toInt oooVmexitHandled
  split
  · split <;> omega
  · omega

/-! ## the loop -/

/-- An exit is reported as it has to be exactly if its reads and its entry succeeded. -/
theorem met_exit_iff (he : hw.entry.isExit) :
    hw.report.Met (oooStep true hw.ret) ↔
      hw.exitReadFails = false ∧ vmEntryFailure (hw.after.value .vmExitReason) = false := by
  have hlt : hw.reason < 2 ^ 16 := Nat.mod_lt _ (by decide)
  have hreason : (hw.reason : Int) ≠ oooVmexitHandled := by
    unfold oooVmexitHandled
    omega
  rw [oooStep_true (ret_bounds hw).1 (ret_bounds hw).2, Hw.report, if_pos he, Hw.ret, if_pos he]
  cases hread : hw.exitReadFails with
  | true =>
    -- another round, or the reason 48 of an exit whose qualification could not be read
    refine iff_of_false ?_ (by simp)
    rintro ⟨x, hx, hneg⟩
    split at hx
    · contradiction
    · have hval := Option.some.inj hx
      omega
  | false =>
    have hcollected : readFails hw.after = false := by
      rw [Hw.exitReadFails, Bool.or_eq_false_iff] at hread
      exact hread.1
    rw [hcollected, Bool.false_or]
    cases hfail : vmEntryFailure (hw.after.value .vmExitReason) with
    | true =>
      refine iff_of_false ?_ (by simp)
      rintro ⟨x, hx, hout⟩
      cases hh : hw.handled with
      | true => simp [hh] at hx
      | false =>
        simp only [hh, Bool.false_eq_true, if_false, if_neg hreason, Option.some.injEq] at hx
        omega
    | false =>
      refine iff_of_true ?_ ⟨rfl, rfl⟩
      cases hh : hw.handled with
      | true => simp [Report.Met]
      | false => simp [Report.Met, hreason]

/-- A failed entry instruction is reported as an error by accident only. -/
theorem met_failed_iff (he : ¬ hw.entry.isExit) :
    hw.report.Met (oooStep true hw.ret) ↔
      hw.after.fails .vmInstructionError = true ∧ toInt (-hw.error.toNat) < -1 := by
  rw [oooStep_true (ret_bounds hw).1 (ret_bounds hw).2, Hw.report, if_neg he, Hw.ret, if_neg he]
  cases hread : hw.after.fails .vmInstructionError with
  | true =>
    rw [if_pos rfl]
    constructor
    · rintro ⟨x, hx, hneg⟩
      split at hx
      · contradiction
      next hne =>
        have hval := Option.some.inj hx
        unfold oooVmexitHandled at hne
        exact ⟨rfl, by omega⟩
    · rintro ⟨-, hlt⟩
      refine ⟨_, if_neg ?_, by omega⟩
      unfold oooVmexitHandled
      omega
  | false =>
    refine iff_of_false ?_ (by simp)
    rw [if_neg (by simp)]
    intro (hmet : (if toInt (-hw.error.toNat) = oooVmexitHandled then none
      else some (toInt (-hw.error.toNat))) = some (toLong (0x1000 ||| hw.error)))
    split at hmet
    · contradiction
    · exact toInt_neg_ne _ (Option.some.inj hmet)

/-- The calls a run makes: everything up to the first one that is not followed by another round. -/
theorem oooRun_first (hws : List Hw) (vcpu : Vcpu) (h : ∀ hw ∈ hws, hw.Reported) :
    (oooRun true hws vcpu).1 = .panicked ∨
      match hws.find? fun hw => hw.report ≠ .loop with
      | none => (oooRun true hws vcpu).1 = .looping
      | some hw => ∃ r, (oooRun true hws vcpu).1 = .returned r ∧ hw.report.Met (some r) := by
  induction hws generalizing vcpu with
  | nil => exact .inr rfl
  | cons hw hws ih =>
    have hmet : hw.report.Met (oooStep true hw.ret) := by
      have hr := h hw (by simp)
      unfold Hw.Reported at hr
      by_cases he : hw.entry.isExit
      · exact (met_exit_iff he).2 (by rwa [if_pos he] at hr)
      · exact (met_failed_iff he).2 (by rwa [if_neg he] at hr)
    unfold oooRun
    cases hrun : vcpuRun hw vcpu with
    | none => exact .inl rfl
    | some p =>
      obtain ⟨ret, vcpu'⟩ := p
      obtain rfl := vcpuRun_ret hrun
      dsimp only
      by_cases hloop : hw.report = .loop
      · rw [hloop] at hmet
        rw [show oooStep true hw.ret = none from hmet, List.find?_cons_of_neg (by simp [hloop])]
        exact ih vcpu' fun hw' hmem => h hw' (by simp [hmem])
      · rw [List.find?_cons_of_pos (by simp [hloop])]
        cases hstep : oooStep true hw.ret with
        | none =>
          rw [hstep] at hmet
          cases hrep : hw.report <;> simp_all [Report.Met]
        | some r => exact .inr ⟨r, rfl, hstep ▸ hmet⟩

/-- **What `OOO_RUN` reports**, when `copy_to_user` succeeds.  The ioctl does after a call what it has
to do exactly if the entry succeeded and every read after the exit did.  So over any calls of this
kind it goes round after CPUID, RDMSR and WRMSR exits only, and returns the reason of the first other
exit as it is. -/
theorem oooRun_reports (vcpu : Vcpu) :
    (∀ hw ret vcpu', vcpuRun hw vcpu = some (ret, vcpu') →
        (hw.report.Met (oooStep true ret) ↔ hw.Reported)) ∧
      ∀ hws : List Hw, (∀ hw ∈ hws, hw.Reported) →
        (oooRun true hws vcpu).1 = .panicked ∨
          match hws.find? fun hw => hw.report ≠ .loop with
          | none => (oooRun true hws vcpu).1 = .looping
          | some hw => ∃ r, (oooRun true hws vcpu).1 = .returned r ∧ hw.report.Met (some r) := by
  refine ⟨fun hw ret vcpu' hrun => ?_, fun hws => oooRun_first hws vcpu⟩
  rw [vcpuRun_ret hrun]
  unfold Hw.Reported
  by_cases he : hw.entry.isExit
  · rw [if_pos he]
    exact met_exit_iff he
  · rw [if_neg he]
    exact met_failed_iff he

/-! ## runs -/

/-- A processor whose reads store 0, except for the two given fields. -/
def exampleHw (entry : Entry) (reason error : UInt64) (fails : Field → Bool) : Hw where
  prepared := true
  before := ⟨fun _ => 0, fun _ => false⟩
  entry := entry
  after := ⟨fun f => if f = .vmExitReason then reason else if f = .vmInstructionError then error else 0,
    fails⟩
  cleared := true

def exampleVcpu : Vcpu := ⟨⟨0, 0, 0, false, fun _ => 0⟩, 0, false⟩

/-- A CPUID exit, then HLT, where the call cannot read a field that it does not need. -/
theorem oooRun_reports_hlt :
    ∃ r, (oooRun true [exampleHw (.exit fun _ => 0) 10 0 fun _ => false,
        exampleHw (.exit fun _ => 0) 12 0 (· = .exitQualification)] exampleVcpu).1 = .returned r ∧
      r = 12 := by
  have hrun := (oooRun_reports exampleVcpu).2 [exampleHw (.exit fun _ => 0) 10 0 fun _ => false,
    exampleHw (.exit fun _ => 0) 12 0 (· = .exitQualification)] (by decide)
  rcases hrun with hpanic | ⟨r, hr, hmet⟩
  · exact absurd hpanic (by decide)
  · exact ⟨r, hr, (Option.some.inj hmet)⟩

/-- An entry that fails with error 7 is returned as -7.  A failing read of `VM_EXIT_REASON` is taken
for a handled exit, and the entry is tried again.  An entry that fails while the guest state is
loaded is returned as exit reason 33, and one whose error reads as 0 as exit reason 0. -/
theorem oooRun_misreports :
    (oooRun true [exampleHw .failValid 0 7 fun _ => false] exampleVcpu).1 = .returned (-7) ∧
      (oooRun true [exampleHw (.exit fun _ => 0) 48 0 fun f => f = .vmExitReason,
        exampleHw (.exit fun _ => 0) 12 0 fun _ => false] exampleVcpu).1 = .returned 12 ∧
      (oooRun true [exampleHw (.exit fun _ => 0) 0x80000021 0 fun _ => false] exampleVcpu).1 =
        .returned 33 ∧
      (oooRun true [exampleHw .failInvalid 0 0 fun _ => true] exampleVcpu).1 = .returned 0 := by
  decide

end Ooows.HyperO
