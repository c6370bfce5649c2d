import Mathlib.Logic.Function.Basic
import Ooows.Lib.Run

/-!
# Ooows.HyperO.Vmcs

The virtual CPUs of `vmx.c` and the control structures (VMCS) of the processors.

Every virtual CPU has one VMCS.  A processor works on the VMCS that is current on it, and
a VMCS must not be active on two processors at a time: the second one would work on a copy
that may be stale.  `vcpu_run` takes no lock.  It loads the VMCS on whatever processor the
thread is on, enters the guest, and clears the VMCS after the exit, so that the next call
may be on another processor; but if the entry fails it returns before that.

* `vmcs_exclusive_iff`: when a call of `vcpu_run` puts a VMCS on a second processor.
* `vcpus_migrate`: it does not, if entries do not fail and the calls for each virtual CPU do
  not overlap; then processors are free to take turns.
-/

namespace Ooows.HyperO.Migration

open Lib

/-! ## processors -/

/-- Where a processor is in the `OOO_RUN` ioctl for a virtual CPU.  It does not leave the
ioctl for another thread: `get_cpu` has turned preemption off. -/
inductive Pc
  | idle
  /-- At the start of `vcpu_handle_vmcs`. -/
  | handleVmcs (v : Nat)
  /-- At the test of `initialized`. -/
  | loaded (v : Nat)
  /-- At the test of `launched` in `vcpu_run`. -/
  | ready (v : Nat)
  | guest (v : Nat)
  /-- In `vmexit_handle`. -/
  | exited (v : Nat)
  deriving DecidableEq, Repr

/-- The virtual CPU of the call. -/
def Pc.vcpu : Pc → Option Nat
  | .idle => none
  | .handleVmcs v | .loaded v | .ready v | .guest v | .exited v => some v

/-- The virtual CPU whose VMCS the code reads and writes. -/
def Pc.uses : Pc → Option Nat
  | .idle | .handleVmcs _ => none
  | .loaded v | .ready v | .guest v | .exited v => some v

/-- The processors, the VMCS of every virtual CPU, and the members of `vcpu_t`. -/
structure Machine where
  pc : Nat → Pc
  /-- The current VMCS of a processor. -/
  current : Nat → Option Nat
  /-- A VMCS is active on a processor. -/
  active : Nat → Nat → Bool
  /-- The launch state of a VMCS is "launched", not "clear". -/
  launchState : Nat → Bool
  /-- `vmcs_full_init` has written a VMCS. -/
  written : Nat → Bool
  initialized : Nat → Bool
  launched : Nat → Bool

/-- **An assumption on the processor**: a VMCS region of zeros that `vmclear` has never seen is in the
launch state "clear".  The code enters such a region, as `vmclear` comes only after an exit. -/
def zeroLaunchState : Bool := false

/-- After `vm_alloc`: the regions are zero. -/
def Machine.init : Machine where
  pc _ := .idle
  current _ := none
  active _ _ := false
  launchState _ := zeroLaunchState
  written _ := false
  initialized _ := false
  launched _ := false

inductive Act
  /-- A thread on processor `c` calls the `OOO_RUN` ioctl. -/
  | start (c v : Nat)
  /-- `vmptrst`, and `vmptrld` unless the VMCS is current. -/
  | load (c : Nat)
  /-- `vmcs_full_init` or `vmcs_reinit`. -/
  | init (c : Nat)
  /-- `_vmlaunch` or `_vmresume`, and the error number if the guest is not entered. -/
  | enter (c : Nat) (error : Option UInt32)
  /-- The guest exits. -/
  | exit (c : Nat)
  /-- `vmexit_handle` returns; then `vmclear`.  The ioctl goes on if the exit was handled. -/
  | clear (c : Nat) (handled : Bool)
  deriving DecidableEq, Repr

namespace Machine

/-- Set the place of a processor. -/
def goto (s : Machine) (c : Nat) (pc : Pc) : Machine := { s with pc := Function.update s.pc c pc }

/-- `vcpu_handle_vmcs` up to the test of `initialized`. -/
def loadVmcs (s : Machine) (c v : Nat) : Machine :=
  if s.current c = some v then s
  else { s with
    current := Function.update s.current c (some v)
    active := Function.update s.active v (Function.update (s.active v) c true) }

/-- The rest of it; what is written is the current VMCS. -/
def initVmcs (s : Machine) (c v : Nat) : Machine :=
  if s.initialized v then s
  else { s with
    written := match s.current c with
      | some w => Function.update s.written w true
      | none => s.written
    initialized := Function.update s.initialized v true }

/-- The launch state lets the guest be entered: `vmlaunch` needs a clear VMCS, `vmresume` a
launched one. -/
def mayEnter (s : Machine) (c v : Nat) : Bool :=
  match s.current c with
  | some w => s.launchState w == s.launched v
  | none => false

/-- The guest is entered. -/
def enterGuest (s : Machine) (c : Nat) : Machine :=
  match s.current c with
  | some w => { s with launchState := Function.update s.launchState w true }
  | none => s

/-- `_vmclear`, and `launched` after it. -/
def clearVmcs (s : Machine) (c v : Nat) : Machine := { s with
  current := if s.current c = some v then Function.update s.current c none else s.current
  active := Function.update s.active v (Function.update (s.active v) c false)
  launchState := Function.update s.launchState v false
  launched := Function.update s.launched v false }

/-- The steps of the processors. -/
inductive Step (s : Machine) : Act → Machine → Prop
  | start {c v : Nat} (hidle : s.pc c = .idle) : Step s (.start c v) (s.goto c (.handleVmcs v))
  | load {c v : Nat} (hpc : s.pc c = .handleVmcs v) :
      Step s (.load c) ((s.loadVmcs c v).goto c (.loaded v))
  | init {c v : Nat} (hpc : s.pc c = .loaded v) :
      Step s (.init c) ((s.initVmcs c v).goto c (.ready v))
  | enter {c v : Nat} (hpc : s.pc c = .ready v) (hmay : s.mayEnter c v = true) :
      Step s (.enter c none) ((s.enterGuest c).goto c (.guest v))
  /-- The VMCS stays active; `-error` may be `OOO_VMEXIT_HANDLED`. -/
  | fail {c v : Nat} (hpc : s.pc c = .ready v) (error : UInt32) :
      Step s (.enter c (some error)) (s.goto c (if error = 1 then .handleVmcs v else .idle))
  | exit {c v : Nat} (hpc : s.pc c = .guest v) : Step s (.exit c)
      ({ s with launched := Function.update s.launched v true }.goto c (.exited v))
  | clear {c v : Nat} (hpc : s.pc c = .exited v) (handled : Bool) : Step s (.clear c handled)
      ((s.clearVmcs c v).goto c (if handled then .handleVmcs v else .idle))

/-! ## the condition -/

/-- No VMCS is active on two processors. -/
def Exclusive (s : Machine) : Prop :=
  ∀ v c c', s.active v c = true → s.active v c' = true → c = c'

/-- Another processor has the virtual CPU: its call runs there, or its VMCS was left active
there. -/
def Elsewhere (s : Machine) (c v : Nat) : Prop :=
  ∃ c', c' ≠ c ∧ (s.active v c' = true ∨ (s.pc c').vcpu = some v)

/-- Calls are made only for virtual CPUs that no other processor has. -/
def StartOk (s : Machine) : Act → Prop
  | .start c v => ¬ s.Elsewhere c v
  | _ => True

/-- What the code relies on at its VMX instructions: they work on the VMCS of the virtual
CPU, and when the guest is entered it is written, and in the launch state that
`launched` says. -/
structure Sound (s : Machine) : Prop where
  exclusive : s.Exclusive
  own : ∀ c v, (s.pc c).uses = some v → s.current c = some v
  enter : ∀ c v, s.pc c = .ready v → s.written v = true ∧ s.mayEnter c v = true

/-- **The invariant.** -/
structure Coherent (s : Machine) : Prop where
  exclusive : s.Exclusive
  current : ∀ c v, s.current c = some v → s.active v c = true
  own : ∀ c v, (s.pc c).uses = some v → s.current c = some v
  alone : ∀ c v, (s.pc c).vcpu = some v → ¬ s.Elsewhere c v
  written : ∀ v, s.initialized v = true → s.written v = true
  ready : ∀ c v, s.pc c = .ready v → s.initialized v = true
  launchState : ∀ v, s.launchState v = true → ∃ c, s.pc c = .guest v ∨ s.pc c = .exited v
  launched : ∀ v, s.launched v = true → ∃ c, s.pc c = .exited v

variable {s t : Machine} {c v : Nat}

theorem Pc.vcpu_of_uses {pc : Pc} (h : pc.uses = some v) : pc.vcpu = some v := by
  cases pc <;> simp_all [Pc.uses, Pc.vcpu]

theorem Coherent.init : Coherent init := by
  constructor <;> simp [Machine.init, zeroLaunchState, Exclusive, Pc.uses, Pc.vcpu]

/-- The launch state and `launched` of a virtual CPU whose processor is elsewhere in the
code. -/
theorem Coherent.not_launched (h : Coherent s) (hpc : (s.pc c).vcpu = some v)
    (hguest : s.pc c ≠ .guest v) (hexited : s.pc c ≠ .exited v) :
    s.launchState v = false ∧ s.launched v = false := by
  have hnot : ∀ c', ¬ (s.pc c' = .guest v ∨ s.pc c' = .exited v) := by
    intro c' hc'
    have hvcpu : (s.pc c').vcpu = some v := by rcases hc' with h' | h' <;> rw [h'] <;> rfl
    by_cases heq : c' = c
    · subst heq
      exact hc'.elim hguest hexited
    · exact h.alone c v hpc ⟨c', heq, .inr hvcpu⟩
  constructor
  · by_contra hne
    obtain ⟨c', hc'⟩ := h.launchState v (by simpa using hne)
    exact hnot c' hc'
  · by_contra hne
    obtain ⟨c', hc'⟩ := h.launched v (by simpa using hne)
    exact hnot c' (.inr hc')

theorem Coherent.sound (h : Coherent s) : Sound s where
  exclusive := h.exclusive
  own := h.own
  enter c v hpc := by
    have hown : s.current c = some v := h.own c v (by rw [hpc]; rfl)
    obtain ⟨hstate, hflag⟩ := h.not_launched (c := c) (v := v) (by rw [hpc]; rfl)
      (by simp [hpc]) (by simp [hpc])
    exact ⟨h.written v (h.ready c v hpc), by simp [mayEnter, hown, hstate, hflag]⟩

/-! ## the steps -/

/-- A call starts for a virtual CPU that no other processor has. -/
theorem Coherent.goto_start (h : Coherent s) (hidle : s.pc c = .idle)
    (hstart : ¬ s.Elsewhere c v) : Coherent (s.goto c (.handleVmcs v)) := by
  obtain ⟨hexclusive, hcurrent, hown, halone, hwritten, hready, hstate, hflag⟩ := h
  constructor
  all_goals simp only [goto, Exclusive, Elsewhere, Function.update_apply] at *
  all_goals grind [Pc.uses, Pc.vcpu]

/-- The VMCS becomes active: no other processor has it, since `alone` holds of the call. -/
theorem Coherent.goto_load (h : Coherent s) (hpc : s.pc c = .handleVmcs v) :
    Coherent ((s.loadVmcs c v).goto c (.loaded v)) := by
  obtain ⟨hexclusive, hcurrent, hown, halone, hwritten, hready, hstate, hflag⟩ := h
  unfold loadVmcs
  split
  all_goals constructor
  all_goals simp only [goto, Exclusive, Elsewhere, Function.update_apply] at *
  all_goals grind [Pc.uses, Pc.vcpu]

/-- What is written is the VMCS of the virtual CPU, since that is current. -/
theorem Coherent.goto_init (h : Coherent s) (hpc : s.pc c = .loaded v) :
    Coherent ((s.initVmcs c v).goto c (.ready v)) := by
  have hcur : s.current c = some v := h.own c v (by rw [hpc]; rfl)
  obtain ⟨hexclusive, hcurrent, hown, halone, hwritten, hready, hstate, hflag⟩ := h
  simp only [initVmcs, hcur]
  split
  all_goals constructor
  all_goals simp only [goto, Exclusive, Elsewhere, Function.update_apply] at *
  all_goals grind [Pc.uses, Pc.vcpu]

theorem Coherent.goto_guest (h : Coherent s) (hpc : s.pc c = .ready v) :
    Coherent ((s.enterGuest c).goto c (.guest v)) := by
  have hcur : s.current c = some v := h.own c v (by rw [hpc]; rfl)
  obtain ⟨hexclusive, hcurrent, hown, halone, hwritten, hready, hstate, hflag⟩ := h
  simp only [enterGuest, hcur]
  constructor
  all_goals simp only [goto, Exclusive, Elsewhere, Function.update_apply] at *
  all_goals grind [Pc.uses, Pc.vcpu]

/-- A failed entry leaves everything as it is. -/
theorem Coherent.goto_fail (h : Coherent s) (hpc : s.pc c = .ready v) (again : Prop)
    [Decidable again] : Coherent (s.goto c (if again then .handleVmcs v else .idle)) := by
  obtain ⟨hexclusive, hcurrent, hown, halone, hwritten, hready, hstate, hflag⟩ := h
  constructor
  all_goals simp only [goto, Exclusive, Elsewhere, Function.update_apply] at *
  all_goals grind [Pc.uses, Pc.vcpu]

theorem Coherent.goto_exit (h : Coherent s) (hpc : s.pc c = .guest v) :
    Coherent ({ s with launched := Function.update s.launched v true }.goto c (.exited v)) := by
  obtain ⟨hexclusive, hcurrent, hown, halone, hwritten, hready, hstate, hflag⟩ := h
  constructor
  all_goals simp only [goto, Exclusive, Elsewhere, Function.update_apply] at *
  all_goals grind [Pc.uses, Pc.vcpu]

/-- After it the VMCS is active nowhere. -/
theorem Coherent.goto_clear (h : Coherent s) (hpc : s.pc c = .exited v) (handled : Bool) :
    Coherent ((s.clearVmcs c v).goto c (if handled then .handleVmcs v else .idle)) := by
  have hcur : s.current c = some v := h.own c v (by rw [hpc]; rfl)
  obtain ⟨hexclusive, hcurrent, hown, halone, hwritten, hready, hstate, hflag⟩ := h
  simp only [clearVmcs, hcur, if_true]
  constructor
  all_goals simp only [goto, Exclusive, Elsewhere, Function.update_apply] at *
  all_goals grind [Pc.uses, Pc.vcpu]

/-- **One step**, of a call that may be made. -/
theorem Coherent.step {a : Act} (h : Coherent s) (hok : s.StartOk a) (hstep : Step s a t) :
    Coherent t := by
  cases hstep with
  | start hidle => exact h.goto_start hidle hok
  | load hpc => exact h.goto_load hpc
  | init hpc => exact h.goto_init hpc
  | enter hpc _ => exact h.goto_guest hpc
  | fail hpc error => exact h.goto_fail hpc (error = 1)
  | exit hpc => exact h.goto_exit hpc
  | clear hpc handled => exact h.goto_clear hpc handled

variable {acts : List Act}

theorem Coherent.run (h : Coherent s)
    (hrun : Run (Guarded StartOk Step) s acts t) : Coherent t :=
  hrun.invariant (fun _ _ _ hs hstep => hs.step hstep.1 hstep.2) h

/-! ## a second processor -/

/-- Without new calls there is nothing to guard. -/
theorem run_guarded_of_no_start (hno : ∀ c v, .start c v ∉ acts)
    (hrun : Run Step s acts t) : Run (Guarded StartOk Step) s acts t := by
  induction hrun with
  | refl => exact .refl
  | @tail t u acts a _ hstep ih =>
    have hok : t.StartOk a := by
      cases a with
      | start c v => exact absurd (by simp) (hno c v)
      | _ => trivial
    exact .tail (ih fun c v hmem => hno c v (List.mem_append_left _ hmem)) ⟨hok, hstep⟩

/-- A processor that is about to load a VMCS does so, whoever else has it. -/
theorem exists_load (hpc : s.pc c = .handleVmcs v)
    (hcur : s.current c = some v → s.active v c = true) :
    ∃ t, Step s (.load c) t ∧ t.active v c = true ∧
      (∀ c', s.active v c' = true → t.active v c' = true) ∧
      ∀ c', c' ≠ c → t.pc c' = s.pc c' ∧ t.current c' = s.current c' := by
  refine ⟨_, .load hpc, ?_⟩
  unfold loadVmcs
  split
  · simp_all [goto]
  · simp only [goto, Function.update_apply]
    grind

/-- If another processor has a virtual CPU, both can have its VMCS. -/
theorem Coherent.exists_shared (h : Coherent s) (hidle : s.pc c = .idle)
    (helse : s.Elsewhere c v) :
    ∃ later t, (∀ c v, .start c v ∉ later) ∧ Run Step s (.start c v :: later) t ∧
      ¬ t.Exclusive := by
  obtain ⟨c', hne, hc'⟩ := helse
  have hstart : Step s (.start c v) (s.goto c (.handleVmcs v)) := .start hidle
  have hpc : (s.goto c (.handleVmcs v)).pc c = .handleVmcs v := Function.update_self ..
  by_cases hactive : s.active v c' = true
  · obtain ⟨t, ht, hself, hkept, -⟩ := exists_load hpc (h.current c v)
    exact ⟨[.load c], t, by simp, (Run.single hstart).append (.single ht),
      fun hex => hne (hex v c' c (hkept c' hactive) hself)⟩
  · -- the other call has not loaded the VMCS yet; it does, and then this one does
    have hpc' : s.pc c' = .handleVmcs v := by
      have hnot := fun huses => hactive (h.current c' v (h.own c' v huses))
      have hvcpu := hc'.resolve_left hactive
      cases hq : s.pc c' <;> simp_all [Pc.vcpu, Pc.uses]
    have hpc'' : (s.goto c (.handleVmcs v)).pc c' = .handleVmcs v :=
      (Function.update_of_ne hne _ _).trans hpc'
    obtain ⟨u, hu, hother, hkept, hsame⟩ := exists_load hpc'' (h.current c' v)
    obtain ⟨t, ht, hself, hkept', -⟩ := exists_load ((hsame c hne.symm).1.trans hpc)
      (fun hcur => hkept c (h.current c v ((hsame c hne.symm).2.symm.trans hcur)))
    exact ⟨[.load c', .load c], t, by simp,
      (Run.single hstart).append ((Run.single hu).append (.single ht)),
      fun hex => hne (hex v c' c (hkept' c' hother) hself)⟩

/-- **Where a virtual CPU may run.**  As long as calls are made only for virtual CPUs that no
other processor has, the processors work as the code expects.  And that is needed: a call on
a processor can put a VMCS on two of them if and only if another one has the virtual CPU. -/
theorem vmcs_exclusive_iff (hrun : Run (Guarded StartOk Step) init acts s)
    (hidle : s.pc c = .idle) (v : Nat) : Sound s ∧
    ((∃ later t, (∀ c v, .start c v ∉ later) ∧ Run Step s (.start c v :: later) t ∧
      ¬ t.Exclusive) ↔ s.Elsewhere c v) := by
  have hs : Coherent s := Coherent.init.run hrun
  refine ⟨hs.sound, ?_, hs.exists_shared hidle⟩
  rintro ⟨later, t, hno, hlater, hshared⟩
  by_contra hstart
  have hlater' : Run Step s (([] ++ [.start c v]) ++ later) t := hlater
  obtain ⟨u, hu, hrest⟩ := hlater'.split
  obtain ⟨s', hs', hstep⟩ := hu.concat_inv
  obtain rfl : s = s' := by
    generalize hnil : ([] : List Act) = acts at hs'
    cases hs' with
    | refl => rfl
    | tail => simp at hnil
  have hu : Coherent u := Coherent.step hs (show s.StartOk (.start c v) from hstart) hstep
  exact hshared (hu.run (run_guarded_of_no_start hno hrest)).exclusive

/-- A failed entry on one processor, and a call for the same virtual CPU on another. -/
theorem failed_entry_shares : ∃ s later t,
    Run Step init [.start 0 0, .load 0, .init 0, .enter 0 (some 7)] s ∧
    Run Step s (.start 1 0 :: later) t ∧ ¬ t.Exclusive := by
  have hrun : Run (Guarded StartOk Step) init
      ([.start 0 0] ++ [.load 0, .init 0, .enter 0 (some 7)]) _ :=
    (Run.single ⟨by simp [StartOk, Elsewhere, Machine.init, Pc.vcpu], .start rfl⟩).append
      (run_guarded_of_no_start (by simp) (((Run.single (.load rfl)).tail (.init rfl)).tail
        (.fail rfl 7)))
  obtain ⟨later, t, -, hlater, hshared⟩ :=
    (vmcs_exclusive_iff (c := 1) hrun rfl 0).2.2 ⟨0, by decide, .inl rfl⟩
  exact ⟨_, later, t, hrun.mono fun _ _ _ h => h.2, hlater, hshared⟩

/-! ## entries that succeed -/

/-- No call for a virtual CPU during another one for it, and no failed entry. -/
def Orderly (s : Machine) : Act → Prop
  | .start _ v => ∀ c', (s.pc c').vcpu ≠ some v
  | .enter _ error => error = none
  | _ => True

/-- A VMCS is active only while its virtual CPU is run. -/
def Tidy (s : Machine) : Prop := ∀ c v, s.active v c = true → (s.pc c).uses = some v

theorem Tidy.startOk {a : Act} (h : Tidy s) (hok : s.Orderly a) : s.StartOk a := by
  cases a with
  | start c v =>
    rintro ⟨c', -, hactive | hvcpu⟩
    · exact hok c' (Pc.vcpu_of_uses (h c' v hactive))
    · exact hok c' hvcpu
  | _ => trivial

theorem tidy_goto {pc : Pc} (hself : ∀ w, s.active w c = true → pc.uses = some w)
    (hother : ∀ d w, d ≠ c → s.active w d = true → (s.pc d).uses = some w) :
    Tidy (s.goto c pc) := by
  intro d w hactive
  by_cases hd : d = c
  · subst hd
    simpa [goto] using hself w hactive
  · simpa [goto, Function.update_of_ne hd] using hother d w hd hactive

theorem Tidy.step {a : Act} (hs : Coherent s) (h : Tidy s) (hok : s.Orderly a)
    (hstep : Step s a t) : Tidy t := by
  cases hstep with
  | @start c v hidle =>
    refine tidy_goto (fun w hactive => ?_) fun d w _ => h d w
    simpa [hidle, Pc.uses] using h c w hactive
  | @load c v hpc =>
    have hnone : ∀ w, s.active w c = false := fun w => by simpa [hpc, Pc.uses] using h c w
    unfold loadVmcs
    split
    · exact tidy_goto (by simp [hnone]) fun d w _ => h d w
    · refine tidy_goto (fun w hactive => ?_) fun d w hd hactive => h d w ?_
      · by_cases hw : w = v <;> simp_all [Pc.uses]
      · by_cases hw : w = v <;> simp_all
  | @init c v hpc =>
    have hactive : (s.initVmcs c v).active = s.active := by unfold initVmcs; split <;> rfl
    have hpcs : (s.initVmcs c v).pc = s.pc := by unfold initVmcs; split <;> rfl
    refine tidy_goto (fun w hw => ?_) fun d w _ hw => hpcs ▸ h d w (hactive ▸ hw)
    simpa [hpc, Pc.uses] using h c w (hactive ▸ hw)
  | @enter c v hpc _ =>
    have hcur : s.current c = some v := hs.own c v (by rw [hpc]; rfl)
    simp only [enterGuest, hcur]
    refine tidy_goto (fun w hw => ?_) fun d w _ => h d w
    simpa [hpc, Pc.uses] using h c w hw
  | fail hpc error => cases hok
  | @exit c v hpc =>
    refine tidy_goto (fun w hw => ?_) fun d w _ => h d w
    simpa [hpc, Pc.uses] using h c w hw
  | @clear c v hpc handled =>
    refine tidy_goto (fun w hw => ?_) fun d w hd hw => h d w ?_
    · by_cases hwv : w = v
      · simp [clearVmcs, hwv] at hw
      · have := h c w (by simpa [clearVmcs, hwv] using hw)
        simp_all [Pc.uses]
    · by_cases hwv : w = v <;> simp_all [clearVmcs]

/-- **Virtual CPUs migrate.**  If calls for one virtual CPU do not overlap and no entry fails,
its VMCS is active exactly on the processor whose code works on it, and nowhere between two
calls, so that the next one may be on any processor. -/
theorem vcpus_migrate (hrun : Run (Guarded Orderly Step) init acts s) :
    Sound s ∧ ∀ c v, s.active v c = true ↔ (s.pc c).uses = some v := by
  have hinv : Coherent s ∧ Tidy s := hrun.invariant (I := fun s => Coherent s ∧ Tidy s)
    (fun _ _ _ h hstep =>
      ⟨h.1.step (h.2.startOk hstep.1) hstep.2, h.2.step h.1 hstep.1 hstep.2⟩)
    ⟨.init, by simp [Tidy, Machine.init]⟩
  exact ⟨hinv.1.sound, fun c v =>
    ⟨hinv.2 c v, fun huses => hinv.1.current c v (hinv.1.own c v huses)⟩⟩

/-- Two calls for one virtual CPU on different processors. -/
theorem vcpu_moves : ∃ s, Run (Guarded Orderly Step) init [.start 0 0, .load 0, .init 0,
    .enter 0 none, .exit 0, .clear 0 false, .start 1 0, .load 1] s ∧
    s.active 0 0 = false ∧ s.active 0 1 = true := by
  obtain ⟨s, hfirst, hidle, hcurrent⟩ : ∃ s, Run (Guarded Orderly Step) init
      [.start 0 0, .load 0, .init 0, .enter 0 none, .exit 0, .clear 0 false] s ∧
      (∀ c, s.pc c = .idle) ∧ s.current 1 = none :=
    ⟨_, (((((Run.single ⟨by simp [Orderly, Machine.init, Pc.vcpu], .start rfl⟩).tail
      ⟨trivial, .load rfl⟩).tail ⟨trivial, .init rfl⟩).tail ⟨rfl, .enter rfl rfl⟩).tail
      ⟨trivial, .exit rfl⟩).tail ⟨trivial, .clear rfl false⟩,
      fun c => by cases c <;> rfl, rfl⟩
  have hstart : Guarded Orderly Step s (.start 1 0) (s.goto 1 (.handleVmcs 0)) :=
    ⟨fun c => by simp [hidle c, Pc.vcpu], .start (hidle 1)⟩
  have hat : (s.goto 1 (.handleVmcs 0)).pc 1 = .handleVmcs 0 := by
    simp [goto]
  obtain ⟨t, hload, hactive, -, hpc⟩ :=
    exists_load hat (fun h => nomatch hcurrent.symm.trans h)
  have hrun := (hfirst.tail hstart).tail
    (show Guarded Orderly Step _ (.load 1) t from ⟨trivial, hload⟩)
  refine ⟨t, hrun, Bool.eq_false_iff.2 fun h => ?_, hactive⟩
  have huses := ((vcpus_migrate hrun).2 0 0).1 h
  rw [(hpc 0 (by decide)).1] at huses
  simp [goto, hidle 0, Pc.uses] at huses

end Machine

end Ooows.HyperO.Migration
