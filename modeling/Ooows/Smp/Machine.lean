import Mathlib.Logic.Function.Basic
import Mathlib.Tactic.Simps.Basic
import Ooows.Lib.Run

/-!
# Ooows.Smp.Machine

The threads of the VMM: `main`, which creates the vCPUs, the thread of the IOAPIC, which
queues what the devices send, and a thread for each vCPU, which waits for its SIPI and then
runs `hvRunVcpu`.

Every access to shared data that is not protected by a lock is a step of its own: the reads
of `state` in `waitForSipi`, in `vcpuThread` and in `ioApicSendInterrupt`, the writes of
`lapicDoSipi`, and the steps in which `main` sets up a vCPU that is already in the table.
What happens under the lock of the queue, or under that of a LAPIC, is one step.  The guest
may exit with any reason at any time.

Three fields of a vCPU and the log are not in the code: they record what has happened.
-/

namespace Ooows.Smp

open Lib

/-! ## accesses to the APICs -/

/-- What a guest's write does. -/
inductive ApicWrite
  | sipi (vector : UInt32)
  | eoi (vector : UInt32)
  | redtbl (idx : Nat) (entry : UInt32)
  | none
  deriving DecidableEq, Repr

def paddrIoapic : UInt64 := 0xfec00000
def ioapicOffRedtbl : UInt64 := 8
def lapicOffIpi : UInt64 := 4
def lapicOffEoi : UInt64 := 8

def lapicAccess (apicbase : UInt32) (addr : UInt64) : Bool :=
  let apicbase := (apicbase &&& 0xfffff000).toUInt64
  apicbase ≤ addr && addr < apicbase + 0x1000

def ioApicAccess (addr : UInt64) : Bool := paddrIoapic ≤ addr && addr ≤ paddrIoapic + 4 * 31

def redtblAccess (addr : UInt64) : Bool :=
  paddrIoapic + ioapicOffRedtbl ≤ addr && addr ≤ paddrIoapic + ioapicOffRedtbl + 4 * 31

def redtblIdx (addr : UInt64) : Nat := ((addr - paddrIoapic - ioapicOffRedtbl) / 4).toNat

/-- `apicMmio`, for a write. -/
def apicMmio (apicbase : UInt32) (addr : UInt64) (data len : UInt32) : ApicWrite :=
  if len ≠ 4 then .none
  else if lapicAccess apicbase addr then
    if addr &&& 0xfff = lapicOffIpi then .sipi data
    else if addr &&& 0xfff = lapicOffEoi then .eoi data
    else .none
  else if ioApicAccess addr && redtblAccess addr then .redtbl (redtblIdx addr) data
  else .none

/-- Why the guest has stopped. -/
inductive Exit
  | hlt
  | shutdown
  | mmioWrite (apicbase : UInt32) (addr : UInt64) (data len : UInt32)
  /-- Any other exit that is handled. -/
  | handled
  /-- An exit that is not. -/
  | unhandled
  deriving DecidableEq, Repr

/-! ## the threads -/

inductive CpuState
  | notStarted
  | running
  | halted
  deriving DecidableEq, Repr

/-- Where the thread of a vCPU is. -/
inductive Place
  /-- There is no thread yet. -/
  | absent
  /-- `vcpuThread` reads its state. -/
  | start
  /-- The loop of `waitForSipi`, called after a `hlt` or before the first run. -/
  | scan (hlt : Bool) (i : Nat) (allHalted : Bool)
  /-- The condition wait behind it. -/
  | wait (hlt : Bool)
  /-- The call of `runVcpu`. -/
  | enter
  /-- The top of the loop of `hvRunVcpu`. -/
  | top
  /-- `checkAndSendInterrupt`: is there an interrupt? -/
  | check
  /-- Can one be sent? -/
  | ready (pending : Bool)
  | dequeue
  /-- `ioApicSendInterrupt` takes its lock and looks for the destination. -/
  | send (irq : UInt8)
  | sendState (irq : UInt8) (dest vector : Nat)
  | sendHalted (irq : UInt8) (dest vector : Nat)
  | sendWake (irq : UInt8) (dest vector : Nat)
  | sendInject (irq : UInt8) (dest vector : Nat)
  /-- It returns, and the entry is freed. -/
  | sent (irq : UInt8)
  /-- `KVM_RUN`. -/
  | run
  | halt
  /-- `lapicDoSipi` looks for its target. -/
  | sipi (vector : UInt32)
  | sipiState (vector : UInt32)
  | sipiEip (vector : UInt32)
  | sipiDirty (vector : UInt32)
  | eoi (vector : UInt32)
  | redtbl (idx : Nat) (entry : UInt32)
  /-- The end, for a vCPU that found all halted or for another reason. -/
  | finished (allHalted : Bool)
  deriving DecidableEq, Repr

def Exit.next : Exit → Place
  | .hlt => .halt
  | .shutdown | .unhandled => .finished false
  | .handled => .top
  | .mmioWrite apicbase addr data len =>
    match apicMmio apicbase addr data len with
    | .sipi vector => .sipi vector
    | .eoi vector => .eoi vector
    | .redtbl idx entry => .redtbl idx entry
    | .none => .top

/-- Where a thread is after an exit. -/
@[elab_as_elim]
theorem Exit.next_cases {P : Place → Prop} (reason : Exit) (halt : P .halt)
    (finished : P (.finished false)) (top : P .top) (sipi : ∀ vector, P (.sipi vector))
    (eoi : ∀ vector, P (.eoi vector)) (redtbl : ∀ idx entry, P (.redtbl idx entry)) :
    P reason.next := by
  cases reason with
  | hlt => exact halt
  | shutdown | unhandled => exact finished
  | handled => exact top
  | mmioWrite apicbase addr data len =>
    simp only [Exit.next]
    split
    next => exact sipi _
    next => exact eoi _
    next => exact redtbl _ _
    next => exact top

structure Vcpu where
  /-- The vCPU is in `hv->vcpus`. -/
  present : Bool
  state : CpuState
  eip : UInt64
  dirty : Bool
  /-- The thread that holds `state_access_mutex`. -/
  stateMutex : Option Nat
  isr : BitVec 32
  /-- `ready_for_interrupt_injection`, as of the last exit. -/
  ready : Bool
  requestWindow : Bool
  /-- An interrupt was injected since the last exit; -/
  used : Bool
  /-- another vCPU has done so. -/
  foreign : Bool
  /-- The vectors of the SIPIs that have stored their address. -/
  sipis : List UInt32
  deriving DecidableEq, Repr

/-- What is recorded of interrupts: thread, destination and line. -/
inductive Event
  | dequeued (v : Nat) (irq : UInt8)
  | injected (v dest line vector : Nat)
  | freed (v : Nat) (irq : UInt8)
  | eoi (v line : Nat)
  deriving DecidableEq, Repr

/-- What `main` does next, for the vCPU it is at. -/
inductive Main
  | create
  | publish
  | initSync
  | initState
  | reset
  | start
  deriving DecidableEq, Repr

structure Machine where
  /-- How many vCPUs are to be created. -/
  nvcpus : Nat
  gNvcpus : Nat
  main : Main
  vcpus : Nat → Vcpu
  threads : Nat → Place
  irqRedirTable : Nat → UInt32
  interruptQueue : List UInt8
  nrPending : Nat
  ioapicMutex : Option Nat
  log : List Event

inductive Choice
  | go
  | exit (ready : Bool) (eip : UInt64) (reason : Exit)
  /-- Does `KVM_INTERRUPT` succeed? -/
  | ioctl (ok : Bool)
  deriving DecidableEq, Repr

inductive Act
  | main
  /-- A device sends an IRQ. -/
  | irq (irq : UInt8)
  | vcpu (v : Nat) (c : Choice)
  deriving DecidableEq, Repr

/-- `irq & 0x1f`. -/
def line (irq : UInt8) : Nat := (irq &&& 0x1f).toNat

def destCpu (entry : UInt32) : Nat := (entry >>> 16).toNat

def entryVector (entry : UInt32) : Nat := (entry &&& 0xffff).toNat

/-- `vector & 0x3`. -/
def sipiTarget (vector : UInt32) : Nat := (vector &&& 0x3).toNat

/-- `vector & ~0x3`. -/
def sipiAddr (vector : UInt32) : UInt64 := (vector &&& 0xfffffffc).toUInt64

/-- `QUEUE_MAX_INTERRUPTS`. -/
def queueMaxInterrupts : Nat := 256

namespace Machine

def init (nvcpus : Nat) : Machine where
  nvcpus := nvcpus
  gNvcpus := 0
  main := .create
  vcpus _ := ⟨false, .notStarted, 0, false, none, 0, false, false, false, false, []⟩
  threads _ := .absent
  irqRedirTable _ := 0
  interruptQueue := []
  nrPending := 0
  ioapicMutex := none
  log := []

/-- A thread goes to a place. -/
@[simps]
def goto (s : Machine) (v : Nat) (p : Place) : Machine :=
  { s with threads := Function.update s.threads v p }

/-- A vCPU is written. -/
@[simps]
def setVcpu (s : Machine) (w : Nat) (f : Vcpu → Vcpu) : Machine :=
  { s with vcpus := Function.update s.vcpus w (f (s.vcpus w)) }

/-- Something is recorded. -/
@[simps]
def emit (s : Machine) (e : Event) : Machine := { s with log := s.log ++ [e] }

/-- The lock of the IOAPIC changes hands. -/
@[simps]
def setMutex (s : Machine) (owner : Option Nat) : Machine := { s with ioapicMutex := owner }

@[simps]
def setQueue (s : Machine) (queue : List UInt8) (n : Nat) : Machine :=
  { s with interruptQueue := queue, nrPending := n }

@[simps]
def setEntry (s : Machine) (idx : Nat) (entry : UInt32) : Machine :=
  { s with irqRedirTable := Function.update s.irqRedirTable idx entry }

/-- `main` goes on. -/
@[simps]
def setMain (s : Machine) (m : Main) : Machine := { s with main := m }

/-- One step of `main`. -/
def mainStep (s : Machine) : Option Machine :=
  let id := s.gNvcpus - 1
  match s.main with
  | .create =>
    if s.gNvcpus < s.nvcpus then some { s with gNvcpus := s.gNvcpus + 1, main := .publish }
    else none
  | .publish =>
    some ((s.setVcpu id fun c => { c with present := true }).setMain .initSync)
  | .initSync =>
    some ((s.setVcpu id fun c => { c with dirty := true, stateMutex := none }).setMain .initState)
  | .initState =>
    some ((s.setVcpu id fun c =>
      { c with state := if id = 0 then .running else .notStarted }).setMain .reset)
  | .reset => some ((s.setVcpu id fun c => { c with eip := 0xfff0 }).setMain .start)
  | .start => some ((s.goto id .start).setMain .create)

def queueInterrupt (s : Machine) (irq : UInt8) : Machine :=
  if s.nrPending ≥ queueMaxInterrupts then s
  else s.setQueue (s.interruptQueue ++ [irq]) (s.nrPending + 1)

/-- `lapicDoSipi` names a vCPU that exists and does not run. -/
def sipiAccepted (s : Machine) (vector : UInt32) : Bool :=
  (s.vcpus (sipiTarget vector)).present && (s.vcpus (sipiTarget vector)).state != .running

/-- The vCPU that a line is redirected to. -/
def dest (s : Machine) (irq : UInt8) : Nat := destCpu (s.irqRedirTable (line irq))

def hasDest (s : Machine) (irq : UInt8) : Bool :=
  s.dest irq < s.gNvcpus && (s.vcpus (s.dest irq)).present

/-- The thread of `v` goes on from its place. -/
def goOn (s : Machine) (v : Nat) : Place → Option Machine
  | .start =>
    some (s.goto v (if (s.vcpus v).state = .notStarted then .scan false 0 true else .enter))
  | .scan hlt i allHalted =>
    if i < s.gNvcpus then
      -- a vCPU that is counted but not yet in the table is a null pointer
      if (s.vcpus i).present then
        some (s.goto v (.scan hlt (i + 1) (allHalted && (s.vcpus i).state != .running)))
      else none
    else if allHalted then
      -- `vcpuThread` does not look at the result
      some (s.goto v (if hlt then .finished true else .enter))
    else some (s.goto v (.wait hlt))
  | .wait hlt =>
    if (s.vcpus v).state = .running ∧ (s.vcpus v).stateMutex = none then
      some (s.goto v (if hlt then .top else .enter))
    else none
  | .enter => some (s.goto v .top)
  | .top => some ((s.setVcpu v fun c => { c with dirty := false }).goto v .check)
  | .check => some (s.goto v (.ready (s.nrPending != 0)))
  | .ready pending =>
    if pending then
      if (s.vcpus v).ready then some (s.goto v .dequeue)
      else some ((s.setVcpu v fun c => { c with requestWindow := true }).goto v .run)
    else if (s.vcpus v).ready then
      some ((s.setVcpu v fun c => { c with requestWindow := false }).goto v .run)
    else some (s.goto v .run)
  | .dequeue =>
    match s.nrPending, s.interruptQueue with
    | n + 1, irq :: rest =>
      some (((s.setQueue rest n).emit (.dequeued v irq)).goto v (.send irq))
    | _, _ => some (s.goto v .run)
  | .send irq =>
    if s.ioapicMutex = none then
      if s.hasDest irq then
        some ((s.setMutex (some v)).goto v
          (.sendState irq (s.dest irq) (entryVector (s.irqRedirTable (line irq)))))
      else some ((s.setMutex (some v)).goto v (.sent irq))
    else none
  | .sendState irq dest vector =>
    some (s.goto v (if (s.vcpus dest).state = .notStarted then .sent irq
      else .sendHalted irq dest vector))
  | .sendHalted irq dest vector =>
    some (s.goto v (if (s.vcpus dest).state = .halted then .sendWake irq dest vector
      else .sendInject irq dest vector))
  | .sendWake irq dest vector =>
    if (s.vcpus dest).stateMutex = none then
      some ((s.setVcpu dest fun c => { c with state := .running }).goto v
        (.sendInject irq dest vector))
    else none
  | .sent irq =>
    some (((s.setMutex none).emit (.freed v irq)).goto v .run)
  | .halt =>
    some ((s.setVcpu v fun c => { c with state := .halted }).goto v (.scan true 0 true))
  | .sipi vector =>
    some (s.goto v (if s.sipiAccepted vector then .sipiState vector else .top))
  | .sipiState vector =>
    if (s.vcpus (sipiTarget vector)).stateMutex = none then
      some ((s.setVcpu (sipiTarget vector) fun c =>
        { c with state := .running, stateMutex := some v }).goto v (.sipiEip vector))
    else none
  | .sipiEip vector =>
    some ((s.setVcpu (sipiTarget vector) fun c =>
      { c with eip := sipiAddr vector, sipis := c.sipis ++ [vector] }).goto v (.sipiDirty vector))
  | .sipiDirty vector =>
    some ((s.setVcpu (sipiTarget vector) fun c =>
      { c with dirty := true, stateMutex := none }).goto v .top)
  | .eoi vector =>
    some (((s.setVcpu v fun c =>
      { c with isr := c.isr &&& ~~~(1#32 <<< (vector &&& 0x1f).toNat) }).emit
      (.eoi v (vector &&& 0x1f).toNat)).goto v .top)
  | .redtbl idx entry =>
    if s.ioapicMutex = none then
      some ((s.setEntry idx entry).goto v .top)
    else none
  | .absent | .sendInject _ _ _ | .run | .finished _ => none

/-- The guest of `v` exits. -/
def exitStep (s : Machine) (v : Nat) (ready : Bool) (eip : UInt64) (reason : Exit) :
    Place → Option Machine
  | .run =>
    some ((s.setVcpu v fun c =>
      { c with ready := ready, eip := eip, used := false, foreign := false }).goto v reason.next)
  | _ => none

/-- The end of `ioApicSendInterrupt`, with the result of `KVM_INTERRUPT`. -/
def injectStep (s : Machine) (v : Nat) (ok : Bool) : Place → Option Machine
  | .sendInject irq dest vector =>
    if (s.vcpus dest).isr.getLsbD (line irq) then some (s.goto v (.sent irq))
    else if ok then
      some (((s.setVcpu dest fun c =>
        { c with
          isr := c.isr ||| 1#32 <<< line irq
          used := true
          foreign := c.foreign || dest != v }).emit
        (.injected v dest (line irq) vector)).goto v (.sent irq))
    else some (s.goto v (.sent irq))
  | _ => none

/-- One step of the thread of `v`, from its place. -/
def threadStep (s : Machine) (v : Nat) (p : Place) : Choice → Option Machine
  | .go => s.goOn v p
  | .exit ready eip reason => s.exitStep v ready eip reason p
  | .ioctl ok => s.injectStep v ok p

def step (s : Machine) : Act → Option Machine
  | .main => s.mainStep
  | .irq irq => some (s.queueInterrupt irq)
  | .vcpu v c => s.threadStep v (s.threads v) c

/-! ## updates -/

variable {s : Machine} {v w u : Nat} {p : Place}

/-- A field that a write does not touch. -/
theorem update_field {vcpus : Nat → Vcpu} {x : Vcpu} {α : Type} (π : Vcpu → α)
    (hx : π x = π (vcpus w)) : π (Function.update vcpus w x u) = π (vcpus u) := by
  by_cases h : u = w
  · rw [h, Function.update_self, hx]
  · rw [Function.update_of_ne h]

/-! ## what a thread can do -/

/-- The steps of a thread, one by one. -/
inductive Moves (s : Machine) (v : Nat) : Place → Choice → Machine → Prop
  | start : Moves s v .start .go
      (s.goto v (if (s.vcpus v).state = .notStarted then .scan false 0 true else .enter))
  | scan {hlt : Bool} {i : Nat} {allHalted : Bool} (hi : i < s.gNvcpus)
      (hpresent : (s.vcpus i).present) : Moves s v (.scan hlt i allHalted) .go
      (s.goto v (.scan hlt (i + 1) (allHalted && (s.vcpus i).state != .running)))
  | allHalted {hlt : Bool} {i : Nat} (hi : s.gNvcpus ≤ i) : Moves s v (.scan hlt i true) .go
      (s.goto v (if hlt then .finished true else .enter))
  | hope {hlt : Bool} {i : Nat} (hi : s.gNvcpus ≤ i) : Moves s v (.scan hlt i false) .go
      (s.goto v (.wait hlt))
  | wake {hlt : Bool} (hstate : (s.vcpus v).state = .running)
      (hmutex : (s.vcpus v).stateMutex = none) : Moves s v (.wait hlt) .go
      (s.goto v (if hlt then .top else .enter))
  | enter : Moves s v .enter .go (s.goto v .top)
  | top : Moves s v .top .go ((s.setVcpu v fun c => { c with dirty := false }).goto v .check)
  | check : Moves s v .check .go (s.goto v (.ready (s.nrPending != 0)))
  | ready (hready : (s.vcpus v).ready) : Moves s v (.ready true) .go (s.goto v .dequeue)
  | request {pending : Bool} (b : Bool) : Moves s v (.ready pending) .go
      ((s.setVcpu v fun c => { c with requestWindow := b }).goto v .run)
  | noRequest : Moves s v (.ready false) .go (s.goto v .run)
  | dequeue {n : Nat} {irq : UInt8} {rest : List UInt8} (hn : s.nrPending = n + 1)
      (hqueue : s.interruptQueue = irq :: rest) : Moves s v .dequeue .go
      (((s.setQueue rest n).emit (.dequeued v irq)).goto v (.send irq))
  | noEntry : Moves s v .dequeue .go (s.goto v .run)
  | send {irq : UInt8} (hmutex : s.ioapicMutex = none) (hdest : s.hasDest irq) :
      Moves s v (.send irq) .go
      ((s.setMutex (some v)).goto v
        (.sendState irq (s.dest irq) (entryVector (s.irqRedirTable (line irq)))))
  | noDest {irq : UInt8} (hmutex : s.ioapicMutex = none) (hdest : s.hasDest irq = false) :
      Moves s v (.send irq) .go ((s.setMutex (some v)).goto v (.sent irq))
  | sendState {irq : UInt8} {dest vector : Nat} : Moves s v (.sendState irq dest vector) .go
      (s.goto v (if (s.vcpus dest).state = .notStarted then .sent irq
        else .sendHalted irq dest vector))
  | sendHalted {irq : UInt8} {dest vector : Nat} : Moves s v (.sendHalted irq dest vector) .go
      (s.goto v (if (s.vcpus dest).state = .halted then .sendWake irq dest vector
        else .sendInject irq dest vector))
  | sendWake {irq : UInt8} {dest vector : Nat} (hmutex : (s.vcpus dest).stateMutex = none) :
      Moves s v (.sendWake irq dest vector) .go
      ((s.setVcpu dest fun c => { c with state := .running }).goto v (.sendInject irq dest vector))
  | inject {irq : UInt8} {dest vector : Nat}
      (hisr : (s.vcpus dest).isr.getLsbD (line irq) = false) :
      Moves s v (.sendInject irq dest vector) (.ioctl true)
      (((s.setVcpu dest fun c =>
        { c with
          isr := c.isr ||| 1#32 <<< line irq
          used := true
          foreign := c.foreign || dest != v }).emit
        (.injected v dest (line irq) vector)).goto v (.sent irq))
  | noInject {irq : UInt8} {dest vector : Nat} {ok : Bool}
      (hfails : (s.vcpus dest).isr.getLsbD (line irq) ∨ ok = false) :
      Moves s v (.sendInject irq dest vector) (.ioctl ok) (s.goto v (.sent irq))
  | sent {irq : UInt8} : Moves s v (.sent irq) .go
      (((s.setMutex none).emit (.freed v irq)).goto v .run)
  | exit {ready : Bool} {eip : UInt64} {reason : Exit} : Moves s v .run (.exit ready eip reason)
      ((s.setVcpu v fun c =>
        { c with ready := ready, eip := eip, used := false, foreign := false }).goto v reason.next)
  | halt : Moves s v .halt .go
      ((s.setVcpu v fun c => { c with state := .halted }).goto v (.scan true 0 true))
  | sipi {vector : UInt32} : Moves s v (.sipi vector) .go
      (s.goto v (if s.sipiAccepted vector then .sipiState vector else .top))
  | sipiState {vector : UInt32} (hmutex : (s.vcpus (sipiTarget vector)).stateMutex = none) :
      Moves s v (.sipiState vector) .go ((s.setVcpu (sipiTarget vector) fun c =>
        { c with state := .running, stateMutex := some v }).goto v (.sipiEip vector))
  | sipiEip {vector : UInt32} : Moves s v (.sipiEip vector) .go
      ((s.setVcpu (sipiTarget vector) fun c =>
        { c with eip := sipiAddr vector, sipis := c.sipis ++ [vector] }).goto v (.sipiDirty vector))
  | sipiDirty {vector : UInt32} : Moves s v (.sipiDirty vector) .go
      ((s.setVcpu (sipiTarget vector) fun c =>
        { c with dirty := true, stateMutex := none }).goto v .top)
  | eoi {vector : UInt32} : Moves s v (.eoi vector) .go
      (((s.setVcpu v fun c =>
        { c with isr := c.isr &&& ~~~(1#32 <<< (vector &&& 0x1f).toNat) }).emit
        (.eoi v (vector &&& 0x1f).toNat)).goto v .top)
  | redtbl {idx : Nat} {entry : UInt32} (hmutex : s.ioapicMutex = none) :
      Moves s v (.redtbl idx entry) .go
      ((s.setEntry idx entry).goto v .top)

variable {t : Machine} {c : Choice}

theorem moves_of_goOn (h : s.goOn v p = some t) : s.Moves v p .go t := by
  unfold goOn at h
  cases p with
  | start => cases h; exact .start
  | scan hlt i allHalted =>
    simp only at h
    split at h
    next hi =>
      split at h
      next hpresent => cases h; exact .scan hi hpresent
      next => cases h
    next hi =>
      cases allHalted with
      | true => cases h; exact .allHalted (Nat.le_of_not_lt hi)
      | false => cases h; exact .hope (Nat.le_of_not_lt hi)
  | wait hlt =>
    simp only at h
    split at h
    next hwake => cases h; exact .wake hwake.1 hwake.2
    next => cases h
  | enter => cases h; exact .enter
  | top => cases h; exact .top
  | check => cases h; exact .check
  | ready pending =>
    cases pending with
    | true =>
      simp only [if_true] at h
      split at h
      next hready => cases h; exact .ready hready
      next => cases h; exact .request true
    | false =>
      simp only [Bool.false_eq_true, if_false] at h
      split at h
      next => cases h; exact .request false
      next => cases h; exact .noRequest
  | dequeue =>
    simp only at h
    split at h
    next n irq rest hn hqueue => cases h; exact .dequeue hn hqueue
    next => cases h; exact .noEntry
  | send irq =>
    simp only at h
    split at h
    next hmutex =>
      split at h
      next hdest => cases h; exact .send hmutex hdest
      next hdest => cases h; exact .noDest hmutex (by simpa using hdest)
    next => cases h
  | sendState => cases h; exact .sendState
  | sendHalted => cases h; exact .sendHalted
  | sendWake irq dest vector =>
    simp only at h
    split at h
    next hmutex => cases h; exact .sendWake hmutex
    next => cases h
  | sent => cases h; exact .sent
  | halt => cases h; exact .halt
  | sipi => cases h; exact .sipi
  | sipiState vector =>
    simp only at h
    split at h
    next hmutex => cases h; exact .sipiState hmutex
    next => cases h
  | sipiEip => cases h; exact .sipiEip
  | sipiDirty => cases h; exact .sipiDirty
  | eoi => cases h; exact .eoi
  | redtbl idx entry =>
    simp only at h
    split at h
    next hmutex => cases h; exact .redtbl hmutex
    next => cases h
  | absent | sendInject | run | finished => cases h

/-- **What a thread can do.** -/
theorem moves_of_threadStep (h : s.threadStep v p c = some t) : s.Moves v p c t := by
  cases c with
  | go => exact moves_of_goOn h
  | exit ready eip reason =>
    simp only [threadStep, exitStep] at h
    split at h
    next => cases h; exact .exit
    next => cases h
  | ioctl ok =>
    simp only [threadStep, injectStep] at h
    split at h
    next irq dest vector =>
      split at h
      next hisr => cases h; exact .noInject (.inl hisr)
      next hisr =>
        cases ok with
        | true => cases h; exact .inject (by simpa using hisr)
        | false => cases h; exact .noInject (.inr rfl)
    next => cases h

theorem Moves.threads_of_ne (h : s.Moves v p c t) (hw : w ≠ v) : t.threads w = s.threads w := by
  cases h <;> simp [hw]

theorem Moves.gNvcpus (h : s.Moves v p c t) : t.gNvcpus = s.gNvcpus := by
  cases h <;> rfl

theorem Moves.main (h : s.Moves v p c t) : t.main = s.main := by
  cases h <;> rfl

theorem Moves.ne_absent (h : s.Moves v p c t) : p ≠ .absent := by
  cases h <;> nofun

/-! ## what `main` can do -/

/-- The steps of `initVcpu`, for the vCPU `id` that is already counted. -/
inductive SetsUp (id : Nat) : Main → Main → (Vcpu → Vcpu) → Prop
  | publish : SetsUp id .publish .initSync fun c => { c with present := true }
  | initSync : SetsUp id .initSync .initState fun c => { c with dirty := true, stateMutex := none }
  | initState : SetsUp id .initState .reset fun c =>
    { c with state := if id = 0 then .running else .notStarted }
  | reset : SetsUp id .reset .start fun c => { c with eip := 0xfff0 }

namespace SetsUp

variable {id : Nat} {m m' : Main} {f : Vcpu → Vcpu}

theorem ne_create (h : SetsUp id m m' f) : m ≠ .create ∧ m' ≠ .create := by
  cases h <;> simp

theorem isr (h : SetsUp id m m' f) (c : Vcpu) : (f c).isr = c.isr := by
  cases h <;> rfl

theorem ready (h : SetsUp id m m' f) (c : Vcpu) : (f c).ready = c.ready := by
  cases h <;> rfl

theorem used (h : SetsUp id m m' f) (c : Vcpu) : (f c).used = c.used := by
  cases h <;> rfl

theorem foreign (h : SetsUp id m m' f) (c : Vcpu) : (f c).foreign = c.foreign := by
  cases h <;> rfl

end SetsUp

/-- The steps of `main`. -/
inductive MainMoves (s : Machine) : Machine → Prop
  | create (hmain : s.main = .create) (hlt : s.gNvcpus < s.nvcpus) :
      MainMoves s { s with gNvcpus := s.gNvcpus + 1, main := .publish }
  | setUp {m m' : Main} {f : Vcpu → Vcpu} (hmain : s.main = m)
      (hf : SetsUp (s.gNvcpus - 1) m m' f) : MainMoves s ((s.setVcpu (s.gNvcpus - 1) f).setMain m')
  | start (hmain : s.main = .start) : MainMoves s ((s.goto (s.gNvcpus - 1) .start).setMain .create)

theorem moves_of_mainStep (h : s.mainStep = some t) : s.MainMoves t := by
  unfold mainStep at h
  split at h
  next hmain =>
    split at h
    next hlt => cases h; exact .create hmain hlt
    next => cases h
  next hmain => cases h; exact .setUp hmain .publish
  next hmain => cases h; exact .setUp hmain .initSync
  next hmain => cases h; exact .setUp hmain .initState
  next hmain => cases h; exact .setUp hmain .reset
  next hmain => cases h; exact .start hmain

/-- A device only changes the queue. -/
theorem setQueue_of_irq {irq : UInt8} (h : s.step (.irq irq) = some t) :
    ∃ queue n, t = s.setQueue queue n := by
  cases h
  unfold queueInterrupt
  split
  next => exact ⟨s.interruptQueue, s.nrPending, rfl⟩
  next => exact ⟨_, _, rfl⟩

/-! ## which threads there are -/

/-- The number of threads. -/
def started (s : Machine) : Nat := if s.main = .create then s.gNvcpus else s.gNvcpus - 1

theorem started_le (s : Machine) : s.started ≤ s.gNvcpus := by
  unfold started
  split
  · exact Nat.le_refl _
  · exact Nat.sub_le ..

theorem Moves.started (h : s.Moves v p c t) : t.started = s.started := by
  unfold Machine.started
  rw [h.main, h.gNvcpus]

structure Started (s : Machine) : Prop where
  pos : s.main ≠ .create → 0 < s.gNvcpus
  absent : ∀ v, s.started ≤ v → s.threads v = .absent

namespace Started

theorem init (n : Nat) : (Machine.init n).Started := ⟨fun h => absurd rfl h, fun _ _ => rfl⟩

theorem lt (h : s.Started) (hv : s.threads v ≠ .absent) : v < s.started :=
  Nat.lt_of_not_le fun hle => hv (h.absent v hle)

/-- `main` sets up a vCPU that has no thread yet. -/
theorem threads_id (h : s.Started) (hmain : s.main ≠ .create) :
    s.threads (s.gNvcpus - 1) = .absent :=
  h.absent _ (by simp [started, hmain])

theorem step (h : s.Started) {a : Act} (ht : s.step a = some t) : t.Started := by
  cases a with
  | main =>
    cases moves_of_mainStep ht with
    | create hmain =>
      exact ⟨fun _ => Nat.succ_pos _, fun v hv => h.absent v (by simpa [started, hmain] using hv)⟩
    | setUp hmain hf =>
      refine ⟨fun _ => h.pos (hmain ▸ hf.ne_create.1), fun v hv => h.absent v ?_⟩
      simpa [started, hmain, hf.ne_create] using hv
    | start hmain =>
      have hpos := h.pos (by simp [hmain])
      refine ⟨fun hne => absurd rfl hne, fun v hv => ?_⟩
      have hle : s.gNvcpus ≤ v := by simpa [started] using hv
      have hne : v ≠ s.gNvcpus - 1 := by omega
      simpa [hne] using h.absent v (by simp [started, hmain]; omega)
  | irq irq =>
    obtain ⟨queue, n, rfl⟩ := setQueue_of_irq ht
    exact ⟨h.pos, h.absent⟩
  | vcpu v c =>
    have hmoves := moves_of_threadStep ht
    refine ⟨fun hmain => ?_, fun w hw => ?_⟩
    · rw [hmoves.gNvcpus]
      exact h.pos (hmoves.main ▸ hmain)
    · have hle : s.started ≤ w := hmoves.started ▸ hw
      have hne : w ≠ v := by
        rintro rfl
        exact hmoves.ne_absent (h.absent w hle)
      rw [hmoves.threads_of_ne hne]
      exact h.absent w hle

end Started

/-! ## runs -/

/-- `main` creates a vCPU. -/
def createVcpu : List Act := List.replicate 6 .main

/-- A thread goes on for some steps. -/
def go (v n : Nat) : List Act := List.replicate n (.vcpu v .go)

/-- The guest exits with the window open. -/
def exitOpen (v : Nat) (reason : Exit) : Act := .vcpu v (.exit true 0 reason)

/-- A write to the IPI register. -/
def sipiWrite (vector : UInt32) : Exit := .mmioWrite 0xfee00900 0xfee00004 vector 4

/-- A write to the entry of a line. -/
def redtblWrite (line : UInt64) (entry : UInt32) : Exit :=
  .mmioWrite 0xfee00900 (paddrIoapic + ioapicOffRedtbl + 4 * line) entry 4

/-- From the top of its loop, the first vCPU starts another one. -/
def startAp (vector : UInt32) : List Act := go 0 3 ++ [exitOpen 0 (sipiWrite vector)] ++ go 0 4

end Machine

end Ooows.Smp
