import Ooows.Lib.AtomicObject
import Ooows.Lib.Chain
import Ooows.Smp.Machine

/-!
# Ooows.Smp.PendingQueue

The queue of pending interrupts: `queueInterrupt`, `dequeueInterrupt` and `haveInterrupts`,
called by any number of threads.

Every statement that touches shared memory is a step of its own, in any interleaving that
the lock allows.  `calloc` may fail, and otherwise returns any address that is not in use;
a caller of `dequeueInterrupt` frees its entry when it has read it, without the lock.

The queue is meant to be `Fifo`: a sequence of at most 256 IRQs.  `pending_refines_fifo` says
that the linked list and its counter are that, as an object whose operations take effect one
at a time, and that no call waits for ever.  `Machine` has the calls as one step each, under the
lock: these are the operations of `Fifo` too (`queue_of_step`).
-/

namespace Ooows.Smp.Pending

open Lib

abbrev Ptr := Nat

/-! ## what the queue is for -/

/-- The calls. -/
inductive Call
  | queue (irq : UInt8)
  | dequeue
  | have
  deriving DecidableEq, Repr

/-- How `queueInterrupt` ends. -/
inductive Queued
  | accepted
  | full
  | noMemory
  deriving DecidableEq, Repr

/-- What `queueInterrupt` returns. -/
def Queued.ret : Queued → Int
  | .accepted => 0
  | .full => -1
  | .noMemory => -1

/-- The results of the calls: the IRQ of an entry stands for its address. -/
inductive Result
  | queued (r : Queued)
  | taken (irq : Option UInt8)
  | pending (b : Bool)
  deriving DecidableEq, Repr

/-- A sequence of IRQs, with the IRQs accepted and taken so far. -/
structure Fifo where
  queue : List UInt8
  accepted : List UInt8
  taken : List UInt8
  deriving DecidableEq, Repr

/-- What the calls mean. -/
inductive Fifo.Op : Fifo → Call → Fifo → Result → Prop
  | accept {x : Fifo} {irq : UInt8} (h : x.queue.length < queueMaxInterrupts) :
      Op x (.queue irq) ⟨x.queue ++ [irq], x.accepted ++ [irq], x.taken⟩ (.queued .accepted)
  | full {x : Fifo} {irq : UInt8} (h : x.queue.length = queueMaxInterrupts) :
      Op x (.queue irq) x (.queued .full)
  /-- Allocation fails. -/
  | noMemory {x : Fifo} {irq : UInt8} : Op x (.queue irq) x (.queued .noMemory)
  | take {x : Fifo} {irq : UInt8} {rest : List UInt8} (h : x.queue = irq :: rest) :
      Op x .dequeue ⟨rest, x.accepted, x.taken ++ [irq]⟩ (.taken (some irq))
  | empty {x : Fifo} (h : x.queue = []) : Op x .dequeue x (.taken none)
  | have {x : Fifo} : Op x .have x (.pending (x.queue ≠ []))

def Fifo.init : Fifo := ⟨[], [], []⟩

/-- What was accepted has been taken, in this order, or is in the queue. -/
def Fifo.Ok (x : Fifo) : Prop :=
  x.accepted = x.taken ++ x.queue ∧ x.queue.length ≤ queueMaxInterrupts

theorem Fifo.Ok.op {x y : Fifo} {o : Call} {r : Result} (h : x.Ok) (hop : Fifo.Op x o y r) : y.Ok := by
  cases hop with
  | accept hlt =>
    refine ⟨?_, ?_⟩
    · rw [h.1, List.append_assoc]
    · rw [List.length_append, List.length_singleton]
      omega
  | full _ => exact h
  | noMemory => exact h
  | take hq =>
    obtain ⟨hacc, hlen⟩ := h
    rw [hq] at hacc hlen
    refine ⟨?_, ?_⟩
    · rw [hacc, List.append_assoc]
      rfl
    · rw [List.length_cons] at hlen
      exact Nat.le_of_succ_le hlen
  | empty _ => exact h
  | «have» => exact h

/-! ## the code -/

/-- Where a thread is.  An IRQ behind the name of an entry is what the entry is about to hold or
held when it was taken; the code does not keep it. -/
inductive Place
  | idle
  | queueLock (irq : UInt8)
  | queueCheck (irq : UInt8)
  | queueAlloc (irq : UInt8)
  | queueFill (irq : UInt8) (entry : Ptr)
  | queueHead (irq : UInt8) (entry : Ptr)
  | queueWalk (irq : UInt8) (entry cur : Ptr)
  | queueLink (irq : UInt8) (entry cur : Ptr)
  /-- The label `end`. -/
  | queueEnd (r : Queued)
  | queueUnlock (r : Queued)
  | dequeueLock
  | dequeueCheck
  | dequeueHead
  | dequeueTake (ret : Ptr)
  /-- The label `end`. -/
  | dequeueEnd (ret : Option (Ptr × UInt8))
  | dequeueUnlock (ret : Option (Ptr × UInt8))
  /-- The caller has an entry. -/
  | holding (entry : Ptr) (irq : UInt8)
  | haveLock
  | haveRead
  | haveUnlock (b : Bool)
  deriving DecidableEq, Repr

/-- Memory, and the members of `ioapic_t` that belong to the queue. -/
structure Shared where
  irq : Ptr → UInt8
  next : Ptr → Option Ptr
  /-- The entries that `calloc` has returned and `free` has not got back. -/
  allocated : Ptr → Bool
  interruptQueue : Option Ptr
  nrPending : Nat
  /-- The thread that holds `queue_lock`. -/
  queueLock : Option Nat

/-- What the threads share, and where they are. -/
structure State extends Shared where
  threads : Nat → Place

/-- `initIoApic`, with the memory as it is. -/
def State.init (irq : Ptr → UInt8) (next : Ptr → Option Ptr) : State where
  irq := irq
  next := next
  allocated _ := false
  interruptQueue := none
  nrPending := 0
  queueLock := none
  threads _ := .idle

/-- A thread goes to a place. -/
def State.goto (s : State) (t : Nat) (p : Place) : State :=
  { s with threads := Function.update s.threads t p }

abbrev Label := Atomic.Label Call Result

/-- The first place of a call. -/
def Call.start : Call → Place
  | .queue irq => .queueLock irq
  | .dequeue => .dequeueLock
  | .have => .haveLock

/-- The place behind `pthread_mutex_lock`. -/
def Place.locked : Place → Option Place
  | .queueLock irq => some (.queueCheck irq)
  | .dequeueLock => some .dequeueCheck
  | .haveLock => some .haveRead
  | _ => none

/-- The place and the result behind `pthread_mutex_unlock`. -/
def Place.unlocked : Place → Option (Place × Result)
  | .queueUnlock r => some (.idle, .queued r)
  | .dequeueUnlock none => some (.idle, .taken none)
  | .dequeueUnlock (some (p, irq)) => some (.holding p irq, .taken (some irq))
  | .haveUnlock b => some (.idle, .pending b)
  | _ => none

/-- The statements. -/
inductive Step : State → Label → State → Prop
  | call {s : State} {t : Nat} (o : Call) (h : s.threads t = .idle) :
      Step s (.call t o) (s.goto t o.start)
  | lock {s : State} {t : Nat} {p : Place} (h : (s.threads t).locked = some p)
      (hlock : s.queueLock = none) : Step s .silent ({ s with queueLock := some t }.goto t p)
  | unlock {s : State} {t : Nat} {p : Place} {r : Result} (h : (s.threads t).unlocked = some (p, r)) :
      Step s (.ret t r) ({ s with queueLock := none }.goto t p)
  -- queueInterrupt
  | full {s : State} {t : Nat} {irq : UInt8} (h : s.threads t = .queueCheck irq)
      (hfull : queueMaxInterrupts ≤ s.nrPending) : Step s .silent (s.goto t (.queueEnd .full))
  | room {s : State} {t : Nat} {irq : UInt8} (h : s.threads t = .queueCheck irq)
      (hroom : s.nrPending < queueMaxInterrupts) : Step s .silent (s.goto t (.queueAlloc irq))
  | noMemory {s : State} {t : Nat} {irq : UInt8} (h : s.threads t = .queueAlloc irq) :
      Step s .silent (s.goto t (.queueEnd .noMemory))
  | calloc {s : State} {t : Nat} {irq : UInt8} {entry : Ptr} (h : s.threads t = .queueAlloc irq)
      (hfree : s.allocated entry = false) :
      Step s .silent ({ s with
        irq := Function.update s.irq entry 0
        next := Function.update s.next entry none
        allocated := Function.update s.allocated entry true }.goto t (.queueFill irq entry))
  | fill {s : State} {t : Nat} {irq : UInt8} {entry : Ptr} (h : s.threads t = .queueFill irq entry) :
      Step s .silent
        ({ s with irq := Function.update s.irq entry irq }.goto t (.queueHead irq entry))
  | first {s : State} {t : Nat} {irq : UInt8} {entry : Ptr} (h : s.threads t = .queueHead irq entry)
      (hqueue : s.interruptQueue = none) :
      Step s .silent ({ s with interruptQueue := some entry }.goto t (.queueEnd .accepted))
  | walk {s : State} {t : Nat} {irq : UInt8} {entry cur : Ptr}
      (h : s.threads t = .queueHead irq entry) (hqueue : s.interruptQueue = some cur) :
      Step s .silent (s.goto t (.queueWalk irq entry cur))
  | walkOn {s : State} {t : Nat} {irq : UInt8} {entry cur n : Ptr}
      (h : s.threads t = .queueWalk irq entry cur) (hnext : s.next cur = some n) :
      Step s .silent (s.goto t (.queueWalk irq entry n))
  | walked {s : State} {t : Nat} {irq : UInt8} {entry cur : Ptr}
      (h : s.threads t = .queueWalk irq entry cur) (hnext : s.next cur = none) :
      Step s .silent (s.goto t (.queueLink irq entry cur))
  | link {s : State} {t : Nat} {irq : UInt8} {entry cur : Ptr}
      (h : s.threads t = .queueLink irq entry cur) :
      Step s .silent
        ({ s with next := Function.update s.next cur (some entry) }.goto t (.queueEnd .accepted))
  | queueEnd {s : State} {t : Nat} {r : Queued} (h : s.threads t = .queueEnd r) :
      Step s .silent
        ({ s with nrPending := if r.ret = 0 then s.nrPending + 1 else s.nrPending }.goto t
          (.queueUnlock r))
  -- dequeueInterrupt
  | nonePending {s : State} {t : Nat} (h : s.threads t = .dequeueCheck) (hnone : s.nrPending = 0) :
      Step s .silent (s.goto t (.dequeueEnd none))
  | somePending {s : State} {t : Nat} (h : s.threads t = .dequeueCheck) (hsome : s.nrPending ≠ 0) :
      Step s .silent (s.goto t .dequeueHead)
  | null {s : State} {t : Nat} (h : s.threads t = .dequeueHead) (hqueue : s.interruptQueue = none) :
      Step s .silent (s.goto t (.dequeueEnd none))
  | head {s : State} {t : Nat} {ret : Ptr} (h : s.threads t = .dequeueHead)
      (hqueue : s.interruptQueue = some ret) : Step s .silent (s.goto t (.dequeueTake ret))
  | take {s : State} {t : Nat} {ret : Ptr} (h : s.threads t = .dequeueTake ret) :
      Step s .silent ({ s with interruptQueue := s.next ret }.goto t
        (.dequeueEnd (some (ret, s.irq ret))))
  | dequeueEnd {s : State} {t : Nat} {ret : Option (Ptr × UInt8)} (h : s.threads t = .dequeueEnd ret) :
      Step s .silent
        ({ s with nrPending := if ret.isSome then s.nrPending - 1 else s.nrPending }.goto t
          (.dequeueUnlock ret))
  | free {s : State} {t : Nat} {entry : Ptr} {irq : UInt8} (h : s.threads t = .holding entry irq) :
      Step s .silent
        ({ s with allocated := Function.update s.allocated entry false }.goto t .idle)
  -- haveInterrupts
  | read {s : State} {t : Nat} (h : s.threads t = .haveRead) :
      Step s .silent (s.goto t (.haveUnlock (s.nrPending ≠ 0)))

/-! ## the invariant -/

/-- The thread is between lock and unlock. -/
def Place.critical : Place → Bool
  | .idle | .queueLock _ | .dequeueLock | .haveLock | .holding _ _ => false
  | _ => true

/-- The entry that the thread alone has. -/
def Place.entry : Place → Option Ptr
  | .queueFill _ e | .queueHead _ e | .queueWalk _ e _ | .queueLink _ e _ => some e
  | .dequeueEnd (some (p, _)) | .dequeueUnlock (some (p, _)) | .holding p _ => some p
  | _ => none

/-- How far the list is ahead of the counter. -/
def Place.ahead : Place → Int
  | .queueEnd .accepted => 1
  | .dequeueEnd (some _) => -1
  | _ => 0

/-- What a thread knows at a place, when the list has the cells `ps`. -/
def Place.Knows (s : Shared) (ps : List Ptr) : Place → Prop
  | .queueAlloc _ => ps.length < queueMaxInterrupts
  | .queueFill _ e => ps.length < queueMaxInterrupts ∧ s.next e = none
  | .queueHead irq e => ps.length < queueMaxInterrupts ∧ s.next e = none ∧ s.irq e = irq
  | .queueWalk irq e cur =>
    ps.length < queueMaxInterrupts ∧ s.next e = none ∧ s.irq e = irq ∧ cur ∈ ps
  | .queueLink irq e cur =>
    ps.length < queueMaxInterrupts ∧ s.next e = none ∧ s.irq e = irq ∧ ∃ front, ps = front ++ [cur]
  | .dequeueTake p => s.interruptQueue = some p
  | .dequeueEnd (some (p, irq)) | .dequeueUnlock (some (p, irq)) | .holding p irq => s.irq p = irq
  | _ => True

/-- What a thread can rely on at a place. -/
structure ThreadOk (s : Shared) (ps : List Ptr) (t : Nat) (p : Place) : Prop where
  lock : p.critical = true → s.queueLock = some t
  count : p.critical = true → s.nrPending + p.ahead = ps.length
  knows : p.Knows s ps
  own : ∀ e, p.entry = some e → e ∉ ps ∧ s.allocated e = true

/-- The list is in order. -/
structure ListOk (s : Shared) (ps : List Ptr) : Prop where
  chain : Chain s.next s.interruptQueue ps
  live : ∀ p ∈ ps, s.allocated p = true
  bound : ps.length ≤ queueMaxInterrupts
  count : s.queueLock = none → s.nrPending = ps.length

/-- **The invariant**: the list has the cells `ps`, and no two threads have the same entry. -/
structure Inv (s : State) (ps : List Ptr) : Prop where
  list : ListOk s.toShared ps
  thread : ∀ t, ThreadOk s.toShared ps t (s.threads t)
  apart : ∀ t u e, (s.threads t).entry = some e → (s.threads u).entry = some e → t = u

variable {ps ps' : List Ptr} {t u : Nat} {p q : Place}

/-- Without the lock a thread relies on its entry alone. -/
theorem ThreadOk.outside {m m' : Shared} (h : ThreadOk m ps u p) (hp : p.critical = false)
    (hentry : ∀ e, p.entry = some e →
      e ∉ ps' ∧ m'.allocated e = true ∧ m'.irq e = m.irq e) : ThreadOk m' ps' u p where
  lock hc := by simp [hp] at hc
  count hc := by simp [hp] at hc
  knows := by
    cases p with
    | holding e irq =>
      have hknows : m.irq e = irq := h.knows
      exact (hentry e rfl).2.2.trans hknows
    | _ => trivial
  own e he := ⟨(hentry e he).1, (hentry e he).2.1⟩

/-- Without the lock and an entry a thread relies on nothing. -/
theorem ThreadOk.of_outside {m : Shared} (hp : p.critical = false) (hentry : p.entry = none)
    (hknows : p.Knows m ps) : ThreadOk m ps t p where
  lock hc := by simp [hp] at hc
  count hc := by simp [hp] at hc
  knows := hknows
  own e he := by simp [hentry] at he

namespace Inv

variable {s s' : State}

/-- One thread moves. -/
theorem moved (h : Inv s ps) (hthreads : s'.threads = Function.update s.threads t p)
    (hlist : ListOk s'.toShared ps') (hthis : ThreadOk s'.toShared ps' t p)
    (hothers : ∀ u, u ≠ t → ThreadOk s'.toShared ps' u (s.threads u))
    (hapart : ∀ e, p.entry = some e → ∀ u, u ≠ t → (s.threads u).entry ≠ some e) : Inv s' ps' := by
  refine ⟨hlist, fun u => ?_, fun u v e hu hv => ?_⟩
  · rw [hthreads]
    by_cases hut : u = t
    · rw [hut, Function.update_self]
      exact hthis
    · rw [Function.update_of_ne hut]
      exact hothers u hut
  · rw [hthreads] at hu hv
    by_cases hut : u = t <;> by_cases hvt : v = t
    · rw [hut, hvt]
    · rw [hut, Function.update_self] at hu
      rw [Function.update_of_ne hvt] at hv
      exact absurd hv (hapart e hu v hvt)
    · rw [Function.update_of_ne hut] at hu
      rw [hvt, Function.update_self] at hv
      exact absurd hu (hapart e hv u hut)
    · rw [Function.update_of_ne hut] at hu
      rw [Function.update_of_ne hvt] at hv
      exact h.apart u v e hu hv

/-- Only one thread is between lock and unlock. -/
theorem others (h : Inv s ps) (ht : (s.threads t).critical = true ∨ s.queueLock = none)
    (hu : u ≠ t) : (s.threads u).critical = false := by
  cases hc : (s.threads u).critical with
  | false => rfl
  | true =>
    have hlock := (h.thread u).lock hc
    rcases ht with ht | ht
    · rw [(h.thread t).lock ht] at hlock
      exact absurd (Option.some.inj hlock).symm hu
    · simp [ht] at hlock

/-- The entry of a thread is no other thread's. -/
theorem not_entry (h : Inv s ps) {e : Ptr} (he : (s.threads t).entry = some e) (hu : u ≠ t) :
    (s.threads u).entry ≠ some e :=
  fun heu => hu (h.apart u t e heu he)

/-- The entry of a thread is allocated, and not in the list. -/
theorem own (h : Inv s ps) {e : Ptr} (he : (s.threads u).entry = some e) :
    e ∉ ps ∧ s.allocated e = true :=
  (h.thread u).own e he

theorem knows (h : Inv s ps) (ht : s.threads t = q) : q.Knows s.toShared ps := by
  rw [← ht]
  exact (h.thread t).knows

/-- Where the list is not ahead, the counter is its length. -/
theorem count_eq (h : Inv s ps) (ht : s.threads t = q) (hcrit : q.critical = true)
    (hahead : q.ahead = 0) : s.nrPending = ps.length := by
  rw [← ht] at hcrit hahead
  have hcount := (h.thread t).count hcrit
  rw [hahead] at hcount
  omega

/-- A thread moves and leaves everything else alone. -/
theorem goto (h : Inv s ps) (hthis : ThreadOk s.toShared ps t p)
    (hentry : ∀ e, p.entry = some e → (s.threads t).entry = some e) : Inv (s.goto t p) ps :=
  h.moved rfl h.list hthis (fun u _ => h.thread u) fun e he _ hu => h.not_entry (hentry e he) hu

/-- The thread that has the lock moves on. -/
theorem within (h : Inv s ps) (ht : s.threads t = q) (hcrit : q.critical = true)
    (hahead : p.ahead = q.ahead) (hentry : ∀ e, p.entry = some e → q.entry = some e)
    (hknows : p.Knows s.toShared ps) : Inv (s.goto t p) ps := by
  have hthis := h.thread t
  rw [ht] at hthis
  refine h.goto ⟨fun _ => hthis.lock hcrit, fun _ => ?_, hknows, fun e he => ?_⟩ fun e he => ?_
  · rw [hahead]
    exact hthis.count hcrit
  · exact hthis.own e (hentry e he)
  · rw [ht]
    exact hentry e he

/-- The one thread that has the lock, or gets it, changes what is shared. -/
theorem changed (h : Inv s ps) (ht : (s.threads t).critical = true ∨ s.queueLock = none)
    (hthreads : s'.threads = Function.update s.threads t p)
    (hlist : ListOk s'.toShared ps') (hthis : ThreadOk s'.toShared ps' t p)
    (hothers : ∀ u, u ≠ t → ∀ e, (s.threads u).entry = some e →
      e ∉ ps' ∧ s'.allocated e = true ∧ s'.irq e = s.irq e)
    (hapart : ∀ e, p.entry = some e → ∀ u, u ≠ t → (s.threads u).entry ≠ some e) : Inv s' ps' :=
  h.moved hthreads hlist hthis
    (fun u hu => (h.thread u).outside (h.others ht hu) (hothers u hu)) hapart

/-- The lock is taken. -/
theorem locked (h : Inv s ps) (hp : (s.threads t).locked = some p) (hlock : s.queueLock = none) :
    Inv ({ s with queueLock := some t }.goto t p) ps := by
  have hcount := h.list.count hlock
  obtain ⟨hahead, hentry, hknows⟩ :
      p.ahead = 0 ∧ p.entry = none ∧ p.Knows { s.toShared with queueLock := some t } ps := by
    generalize s.threads t = q at hp
    cases q <;> cases hp <;> exact ⟨rfl, rfl, trivial⟩
  refine h.changed (.inr hlock) rfl
    ⟨h.list.chain, h.list.live, h.list.bound, by simp [State.goto]⟩
    ⟨fun _ => rfl, fun _ => ?_, hknows, by simp [hentry]⟩
    (fun u _ e he => ⟨(h.own he).1, (h.own he).2, rfl⟩) (by simp [hentry])
  rw [hahead]
  simp [State.goto, hcount]

/-- The lock is given back. -/
theorem unlocked (h : Inv s ps) {r : Result} (hp : (s.threads t).unlocked = some (p, r)) :
    Inv ({ s with queueLock := none }.goto t p) ps := by
  have hthis := h.thread t
  obtain ⟨hcrit, hahead, hout, hentry, hknows⟩ :
      (s.threads t).critical = true ∧ (s.threads t).ahead = 0 ∧ p.critical = false ∧
      p.entry = (s.threads t).entry ∧ ((s.threads t).Knows s.toShared ps →
        p.Knows { s.toShared with queueLock := none } ps) := by
    generalize s.threads t = q at hp
    unfold Place.unlocked at hp
    split at hp <;> simp only [reduceCtorEq, Option.some.injEq, Prod.mk.injEq] at hp <;>
      obtain ⟨rfl, -⟩ := hp <;> exact ⟨rfl, rfl, rfl, rfl, fun hk => hk⟩
  have hcount := hthis.count hcrit
  refine h.changed (.inl hcrit) rfl ⟨h.list.chain, h.list.live, h.list.bound, fun _ => ?_⟩
    ⟨by simp [hout], by simp [hout], hknows hthis.knows, ?_⟩
    (fun u _ e he => ⟨(h.own he).1, (h.own he).2, rfl⟩) ?_
  · rw [hahead] at hcount
    simp only [State.goto]
    omega
  · rw [hentry]
    exact hthis.own
  · rw [hentry]
    exact fun e he u hu => h.not_entry he hu

/-- `calloc` finds an address. -/
theorem calloc (h : Inv s ps) {irq : UInt8} {e : Ptr} (ht : s.threads t = .queueAlloc irq)
    (hfree : s.allocated e = false) :
    Inv ({ s with
      irq := Function.update s.irq e 0
      next := Function.update s.next e none
      allocated := Function.update s.allocated e true }.goto t (.queueFill irq e)) ps := by
  have hthis := h.thread t
  rw [ht] at hthis
  have hne : ∀ e', s.allocated e' = true → e' ≠ e := by
    rintro e' he' rfl
    simp [hfree] at he'
  have hnot : e ∉ ps := fun hmem => hne e (h.list.live e hmem) rfl
  have hlive : ∀ e', s.allocated e' = true → Function.update s.allocated e true e' = true := by
    intro e' he'
    rw [Function.update_of_ne (hne e' he'), he']
  refine h.changed (.inl (by rw [ht]; rfl)) rfl
    ⟨h.list.chain.update hnot _, fun e' he' => hlive e' (h.list.live e' he'), h.list.bound,
      h.list.count⟩
    ⟨hthis.lock, hthis.count, ⟨hthis.knows, Function.update_self ..⟩, ?_⟩ ?_ ?_
  · intro e' he'
    obtain rfl := Option.some.inj he'
    exact ⟨hnot, Function.update_self ..⟩
  · intro u _ e' he'
    obtain ⟨hmem, hall⟩ := (h.thread u).own e' he'
    exact ⟨hmem, hlive e' hall, Function.update_of_ne (hne e' hall) ..⟩
  · intro e' he' u _ hu
    obtain rfl := Option.some.inj he'
    exact hne e ((h.thread u).own e hu).2 rfl

/-- The entry gets its IRQ. -/
theorem fill (h : Inv s ps) {irq : UInt8} {e : Ptr} (ht : s.threads t = .queueFill irq e) :
    Inv ({ s with irq := Function.update s.irq e irq }.goto t (.queueHead irq e)) ps := by
  have hthis := h.thread t
  have hentry : (s.threads t).entry = some e := by rw [ht]; rfl
  rw [ht] at hthis
  refine h.changed (.inl (by rw [ht]; rfl)) rfl
    ⟨h.list.chain, h.list.live, h.list.bound, h.list.count⟩
    ⟨hthis.lock, hthis.count, ⟨hthis.knows.1, hthis.knows.2, Function.update_self ..⟩, hthis.own⟩
    ?_ ?_
  · intro u hu e' he'
    have hne : e' ≠ e := by
      rintro rfl
      exact h.not_entry hentry hu he'
    exact ⟨(h.own he').1, (h.own he').2, Function.update_of_ne hne ..⟩
  · intro e' he' u hu
    exact h.not_entry (hentry.trans he') hu

/-- An entry of the thread becomes the last one of the list. -/
theorem appended (h : Inv s ps) {e : Ptr} (hentry : (s.threads t).entry = some e)
    (hcrit : (s.threads t).critical = true) (hahead : (s.threads t).ahead = 0)
    (hlen : ps.length < queueMaxInterrupts) {next : Ptr → Option Ptr} {head : Option Ptr}
    (hchain : Chain next head (ps ++ [e])) :
    Inv ({ s with next := next, interruptQueue := head }.goto t (.queueEnd .accepted))
      (ps ++ [e]) := by
  have hthis := h.thread t
  have hlock := hthis.lock hcrit
  have hcount := hthis.count hcrit
  refine h.changed (.inl hcrit) rfl ⟨hchain, ?_, ?_, fun hnone => ?_⟩
    ⟨fun _ => hlock, fun _ => ?_, trivial, by simp [Place.entry]⟩ ?_ (by simp [Place.entry])
  · intro e' he'
    rcases List.mem_append.1 he' with hmem | hmem
    · exact h.list.live e' hmem
    · rw [List.mem_singleton.1 hmem]
      exact (hthis.own e hentry).2
  · rw [List.length_append, List.length_singleton]
    exact hlen
  · exact absurd (hlock.symm.trans hnone) (by simp)
  · rw [hahead] at hcount
    simp only [State.goto, Place.ahead, List.length_append, List.length_singleton, Int.natCast_add]
    omega
  · intro u hu e' he'
    have hne : e' ≠ e := by
      rintro rfl
      exact h.not_entry hentry hu he'
    refine ⟨?_, (h.own he').2, rfl⟩
    rw [List.mem_append, List.mem_singleton]
    exact fun hor => hor.elim (h.own he').1 hne

/-- The head of the list becomes the entry of the thread. -/
theorem taken (h : Inv s (e :: ps)) (ht : s.threads t = .dequeueTake e) :
    Inv ({ s with interruptQueue := s.next e }.goto t (.dequeueEnd (some (e, s.irq e)))) ps := by
  have hthis := h.thread t
  rw [ht] at hthis
  have hchain := h.list.chain
  have hnodup := hchain.nodup
  have hcount := hthis.count rfl
  rw [hthis.knows] at hchain
  refine h.changed (.inl (by rw [ht]; rfl)) rfl
    ⟨hchain.2, fun e' he' => h.list.live e' (List.mem_cons_of_mem _ he'), ?_, fun hnone => ?_⟩
    ⟨hthis.lock, fun _ => ?_, rfl, ?_⟩ ?_ ?_
  · have hbound := h.list.bound
    rw [List.length_cons] at hbound
    exact Nat.le_of_succ_le hbound
  · exact absurd ((hthis.lock rfl).symm.trans hnone) (by simp)
  · simp only [Place.ahead, List.length_cons, Int.natCast_add] at hcount
    simp only [State.goto, Place.ahead]
    omega
  · intro e' he'
    obtain rfl := Option.some.inj he'
    exact ⟨(List.nodup_cons.1 hnodup).1, h.list.live e (List.mem_cons_self ..)⟩
  · intro u _ e' he'
    exact ⟨fun hmem => (h.own he').1 (List.mem_cons_of_mem _ hmem), (h.own he').2, rfl⟩
  · intro e' he' u _ hu
    obtain rfl := Option.some.inj he'
    exact (h.own hu).1 (List.mem_cons_self ..)

/-- The counter catches up with the list. -/
theorem counted (h : Inv s ps) (hcrit : (s.threads t).critical = true) {n : Nat}
    (hn : (n : Int) = s.nrPending + (s.threads t).ahead) (hahead : p.ahead = 0)
    (hentry : p.entry = (s.threads t).entry)
    (hknows : p.Knows { s.toShared with nrPending := n } ps) :
    Inv ({ s with nrPending := n }.goto t p) ps := by
  have hthis := h.thread t
  have hcount := hthis.count hcrit
  have hlock := hthis.lock hcrit
  refine h.changed (.inl hcrit) rfl ⟨h.list.chain, h.list.live, h.list.bound, fun hnone => ?_⟩
    ⟨fun _ => hlock, fun _ => ?_, hknows, ?_⟩ (fun u _ e he => ⟨(h.own he).1, (h.own he).2, rfl⟩) ?_
  · exact absurd (hlock.symm.trans hnone) (by simp)
  · rw [hahead]
    simp only [State.goto]
    omega
  · rw [hentry]
    exact hthis.own
  · rw [hentry]
    exact fun e he u hu => h.not_entry he hu

/-- The caller frees its entry. -/
theorem freed (h : Inv s ps) {irq : UInt8} {e : Ptr} (ht : s.threads t = .holding e irq) :
    Inv ({ s with allocated := Function.update s.allocated e false }.goto t .idle) ps := by
  have hentry : (s.threads t).entry = some e := by rw [ht]; rfl
  have hlive : ∀ e', e' ≠ e → s.allocated e' = true →
      Function.update s.allocated e false e' = true := by
    intro e' hne he'
    rw [Function.update_of_ne hne, he']
  refine h.moved rfl ⟨h.list.chain, ?_, h.list.bound, h.list.count⟩
    (.of_outside rfl rfl trivial) ?_ (by simp [Place.entry])
  · intro e' he'
    refine hlive e' ?_ (h.list.live e' he')
    rintro rfl
    exact (h.own hentry).1 he'
  · intro u hu
    have hother := h.thread u
    refine ⟨hother.lock, hother.count, ?_, fun e' he' => ⟨(hother.own e' he').1, ?_⟩⟩
    · exact hother.knows
    · refine hlive e' ?_ (hother.own e' he').2
      rintro rfl
      exact h.not_entry hentry hu he'

end Inv

/-! ## simulation -/

/-- Where a thread is with its call. -/
def Place.phase : Place → Atomic.Phase Call Result
  | .idle | .holding _ _ => .idle
  | .queueLock irq | .queueCheck irq | .queueAlloc irq | .queueFill irq _ | .queueHead irq _
  | .queueWalk irq _ _ | .queueLink irq _ _ => .called (.queue irq)
  | .queueEnd r | .queueUnlock r => .done (.queued r)
  | .dequeueLock | .dequeueCheck | .dequeueHead | .dequeueTake _ => .called .dequeue
  | .dequeueEnd ret | .dequeueUnlock ret => .done (.taken (ret.map Prod.snd))
  | .haveLock | .haveRead => .called .have
  | .haveUnlock b => .done (.pending b)

theorem Place.phase_locked (h : q.locked = some p) : p.phase = q.phase := by
  cases q <;> cases h <;> rfl

theorem Place.phase_unlocked {r : Result} (h : q.unlocked = some (p, r)) :
    q.phase = .done r ∧ p.phase = .idle := by
  unfold Place.unlocked at h
  split at h <;> simp only [reduceCtorEq, Option.some.injEq, Prod.mk.injEq] at h <;>
    obtain ⟨rfl, rfl⟩ := h <;> exact ⟨rfl, rfl⟩

/-- The queue and the sequence it stands for. -/
structure Refines (s : State) (a : Atomic.State Fifo Call Result) (ps : List Ptr) : Prop where
  inv : Inv s ps
  irqs : ps.map s.irq = a.obj.queue
  phase : ∀ t, a.phase t = (s.threads t).phase

namespace Refines

variable {s s' : State} {a : Atomic.State Fifo Call Result}

/-- The places behind a move. -/
theorem phase_update (h : ∀ u, a.phase u = (s.threads u).phase)
    (hthreads : s'.threads = Function.update s.threads t p) (u : Nat) :
    Function.update a.phase t p.phase u = (s'.threads u).phase := by
  rw [hthreads]
  by_cases hut : u = t
  · rw [hut, Function.update_self, Function.update_self]
  · rw [Function.update_of_ne hut, Function.update_of_ne hut, h u]

/-- A step that does nothing to the sequence. -/
theorem silent (h : Refines s a ps) (ht : s.threads t = q)
    (hthreads : s'.threads = Function.update s.threads t p) (hphase : p.phase = q.phase)
    (hinv : Inv s' ps) (hirqs : ∀ e ∈ ps, s'.irq e = s.irq e) :
    ∃ b, Atomic.Step Fifo.Op a .silent b ∧ ∃ ps', Refines s' b ps' := by
  refine ⟨a, .stutter, ps, hinv, ?_, fun u => ?_⟩
  · rw [List.map_congr_left hirqs, h.irqs]
  · have hu := phase_update h.phase hthreads u
    rwa [hphase, ← ht, ← h.phase t, Function.update_eq_self] at hu

/-- The step at which a call takes effect. -/
theorem commit (h : Refines s a ps) {o : Call} {x : Fifo} {r : Result} (ht : s.threads t = q)
    (hthreads : s'.threads = Function.update s.threads t p)
    (hcalled : q.phase = .called o) (hdone : p.phase = .done r)
    (hop : Fifo.Op a.obj o x r) (hinv : Inv s' ps') (hirqs : ps'.map s'.irq = x.queue) :
    ∃ b, Atomic.Step Fifo.Op a .silent b ∧ ∃ ps', Refines s' b ps' := by
  have hphase : a.phase t = .called o := by rw [h.phase t, ht, hcalled]
  refine ⟨_, .commit hphase hop, ps', hinv, hirqs, ?_⟩
  rw [← hdone]
  exact phase_update h.phase hthreads

theorem length_eq (h : Refines s a ps) : ps.length = a.obj.queue.length := by
  rw [← h.irqs, List.length_map]

theorem queue_eq_nil_iff (h : Refines s a ps) : a.obj.queue = [] ↔ ps = [] := by
  rw [← h.irqs, List.map_eq_nil_iff]

/-- An entry of the thread becomes the last one of the list: its IRQ is accepted. -/
theorem append (h : Refines s a ps) {e : Ptr} {irq : UInt8} (ht : s.threads t = q)
    (hcrit : q.critical = true) (hahead : q.ahead = 0) (hentry : q.entry = some e)
    (hcalled : q.phase = .called (.queue irq)) (hlen : ps.length < queueMaxInterrupts)
    (hirq : s.irq e = irq) {next : Ptr → Option Ptr} {head : Option Ptr}
    (hchain : Chain next head (ps ++ [e])) :
    ∃ b, Atomic.Step Fifo.Op a .silent b ∧ ∃ ps', Refines
      ({ s with next := next, interruptQueue := head }.goto t (.queueEnd .accepted)) b ps' := by
  have hlen' : a.obj.queue.length < queueMaxInterrupts := by rwa [← h.length_eq]
  have hq : (s.threads t).critical = true ∧ (s.threads t).ahead = 0 ∧ (s.threads t).entry = some e := by
    rw [ht]
    exact ⟨hcrit, hahead, hentry⟩
  refine h.commit ht rfl hcalled rfl (.accept hlen')
    (h.inv.appended hq.2.2 hq.1 hq.2.1 hlen hchain) ?_
  simp [State.goto, h.irqs, hirq]

/-- The head of the list becomes the thread's entry: its IRQ is taken. -/
theorem take (h : Refines s a ps) {e : Ptr} (ht : s.threads t = .dequeueTake e) :
    ∃ b, Atomic.Step Fifo.Op a .silent b ∧ ∃ ps', Refines
      ({ s with interruptQueue := s.next e }.goto t (.dequeueEnd (some (e, s.irq e)))) b ps' := by
  have hhead : s.interruptQueue = some e := h.inv.knows ht
  have hchain := h.inv.list.chain
  rw [hhead] at hchain
  obtain ⟨rest, rfl, -⟩ := hchain.exists_cons
  have hqueue : a.obj.queue = s.irq e :: rest.map s.irq := by rw [← h.irqs, List.map_cons]
  exact h.commit ht rfl rfl rfl (.take hqueue) (h.inv.taken ht) rfl

/-- The search for the last cell. -/
theorem walkOn (h : Refines s a ps) {e cur n : Ptr} {irq : UInt8}
    (ht : s.threads t = .queueWalk irq e cur) (hnext : s.next cur = some n) :
    ∃ b, Atomic.Step Fifo.Op a .silent b ∧ ∃ ps',
      Refines (s.goto t (.queueWalk irq e n)) b ps' := by
  obtain ⟨hlen, hend, hirq, hmem⟩ := h.inv.knows ht
  obtain ⟨front, back, rfl⟩ := List.append_of_mem hmem
  have hchain := h.inv.list.chain.next_mem
  rw [hnext] at hchain
  obtain ⟨rest, rfl, -⟩ := hchain.exists_cons
  exact h.silent ht rfl rfl
    (h.inv.within ht rfl rfl (fun _ he => he) ⟨hlen, hend, hirq, by simp⟩) fun _ _ => rfl

theorem walked (h : Refines s a ps) {e cur : Ptr} {irq : UInt8}
    (ht : s.threads t = .queueWalk irq e cur) (hnext : s.next cur = none) :
    ∃ b, Atomic.Step Fifo.Op a .silent b ∧ ∃ ps',
      Refines (s.goto t (.queueLink irq e cur)) b ps' := by
  obtain ⟨hlen, hend, hirq, hmem⟩ := h.inv.knows ht
  obtain ⟨front, back, rfl⟩ := List.append_of_mem hmem
  have hchain := h.inv.list.chain.next_mem
  rw [hnext, Chain.none_iff] at hchain
  exact h.silent ht rfl rfl
    (h.inv.within ht rfl rfl (fun _ he => he) ⟨hlen, hend, hirq, front, by rw [hchain]⟩)
    fun _ _ => rfl

/-- **One step** of a thread is one of the sequence's. -/
theorem step (h : Refines s a ps) {l : Label} (hstep : Step s l s') :
    ∃ b, Atomic.Step Fifo.Op a l b ∧ ∃ ps', Refines s' b ps' := by
  have hinv := h.inv
  have hlen := h.length_eq
  have hbound := hinv.list.bound
  cases hstep with
  | @call t o ht =>
    have hphase : a.phase t = .idle := by rw [h.phase t, ht]; rfl
    have hstart : o.start.phase = .called o := by cases o <;> rfl
    refine ⟨_, .call o hphase, ps, hinv.goto ?_ ?_, h.irqs, ?_⟩
    · cases o <;> exact .of_outside rfl rfl trivial
    · cases o <;> simp [Call.start, Place.entry]
    · rw [← hstart]
      exact phase_update h.phase rfl
  | lock ht hlock =>
    exact h.silent rfl rfl (Place.phase_locked ht) (hinv.locked ht hlock) fun _ _ => rfl
  | @unlock t p r ht =>
    obtain ⟨hdone, hidle⟩ := Place.phase_unlocked ht
    refine ⟨_, .ret ((h.phase t).trans hdone), ps, hinv.unlocked ht, h.irqs, ?_⟩
    rw [← hidle]
    exact phase_update h.phase rfl
  | full ht hfull =>
    have hcount := hinv.count_eq ht rfl rfl
    exact h.commit ht rfl rfl rfl (.full (by omega))
      (hinv.within ht rfl rfl (by simp [Place.entry]) trivial) h.irqs
  | room ht hroom =>
    have hcount := hinv.count_eq ht rfl rfl
    have hroom' : ps.length < queueMaxInterrupts := by omega
    exact h.silent ht rfl rfl (hinv.within ht rfl rfl (by simp [Place.entry]) hroom') fun _ _ => rfl
  | noMemory ht =>
    exact h.commit ht rfl rfl rfl .noMemory
      (hinv.within ht rfl rfl (by simp [Place.entry]) trivial) h.irqs
  | @calloc t irq entry ht hfree =>
    refine h.silent ht rfl rfl (hinv.calloc ht hfree) fun e he => Function.update_of_ne ?_ ..
    rintro rfl
    simp [hinv.list.live _ he] at hfree
  | @fill t irq entry ht =>
    have hown : (s.threads t).entry = some entry := by rw [ht]; rfl
    refine h.silent ht rfl rfl (hinv.fill ht) fun e he => Function.update_of_ne ?_ ..
    rintro rfl
    exact (hinv.own hown).1 he
  | @first t irq entry ht hqueue =>
    obtain ⟨hroom, hend, hirq⟩ := hinv.knows ht
    have hnil : ps = [] := by
      have hchain := hinv.list.chain
      rwa [hqueue, Chain.none_iff] at hchain
    refine h.append ht rfl rfl rfl rfl hroom hirq ?_
    simp [hnil, hend]
  | @walk t irq entry cur ht hqueue =>
    obtain ⟨hroom, hend, hirq⟩ := hinv.knows ht
    have hchain := hinv.list.chain
    rw [hqueue] at hchain
    obtain ⟨rest, rfl, -⟩ := hchain.exists_cons
    exact h.silent ht rfl rfl
      (hinv.within ht rfl rfl (fun _ he => he) ⟨hroom, hend, hirq, by simp⟩) fun _ _ => rfl
  | walkOn ht hnext => exact h.walkOn ht hnext
  | walked ht hnext => exact h.walked ht hnext
  | @link t irq entry cur ht =>
    obtain ⟨hroom, hend, hirq, front, rfl⟩ := hinv.knows ht
    have hown : (s.threads t).entry = some entry := by rw [ht]; rfl
    refine h.append ht rfl rfl rfl rfl hroom hirq ?_
    rw [List.append_assoc]
    exact hinv.list.chain.concat (hinv.own hown).1 hend
  | @queueEnd t r ht =>
    refine h.silent ht rfl rfl (hinv.counted ?_ ?_ rfl ?_ trivial) fun _ _ => rfl
    · rw [ht]
      rfl
    · rw [ht]
      cases r <;> simp [Queued.ret, Place.ahead]
    · rw [ht]
      rfl
  | nonePending ht hnone =>
    have hcount := hinv.count_eq ht rfl rfl
    have hnil : ps = [] := List.eq_nil_of_length_eq_zero (by omega)
    exact h.commit ht rfl rfl rfl (.empty (h.queue_eq_nil_iff.2 hnil))
      (hinv.within ht rfl rfl (by simp [Place.entry]) trivial) h.irqs
  | somePending ht hsome =>
    exact h.silent ht rfl rfl (hinv.within ht rfl rfl (by simp [Place.entry]) trivial) fun _ _ => rfl
  | null ht hqueue =>
    have hnil : ps = [] := by
      have hchain := hinv.list.chain
      rwa [hqueue, Chain.none_iff] at hchain
    exact h.commit ht rfl rfl rfl (.empty (h.queue_eq_nil_iff.2 hnil))
      (hinv.within ht rfl rfl (by simp [Place.entry]) trivial) h.irqs
  | head ht hqueue =>
    exact h.silent ht rfl rfl (hinv.within ht rfl rfl (by simp [Place.entry]) hqueue) fun _ _ => rfl
  | take ht => exact h.take ht
  | @dequeueEnd t ret ht =>
    have hknows := hinv.knows ht
    have hcount := (hinv.thread t).count (by rw [ht]; rfl)
    rw [ht] at hcount
    refine h.silent ht rfl rfl (hinv.counted ?_ ?_ rfl ?_ ?_) fun _ _ => rfl
    · rw [ht]
      rfl
    · rw [ht]
      cases ret with
      | none => simp [Place.ahead]
      | some r =>
        simp only [Place.ahead, Option.isSome_some, if_true] at hcount ⊢
        omega
    · rw [ht]
      cases ret <;> rfl
    · cases ret with
      | none => trivial
      | some r => exact hknows
  | free ht => exact h.silent ht rfl rfl (hinv.freed ht) fun _ _ => rfl
  | read ht =>
    have hcount := hinv.count_eq ht rfl rfl
    have hread : decide (s.nrPending ≠ 0) = decide (a.obj.queue ≠ []) := by
      rw [decide_eq_decide, ne_eq, ne_eq, h.queue_eq_nil_iff, hcount, List.length_eq_zero_iff]
    rw [hread]
    exact h.commit ht rfl rfl rfl .have
      (hinv.within ht rfl rfl (by simp [Place.entry]) trivial) h.irqs

end Refines

/-- At the start. -/
theorem refines_init (irq : Ptr → UInt8) (next : Ptr → Option Ptr) :
    Refines (State.init irq next) (Atomic.init Fifo.init) [] where
  inv :=
    { list := ⟨rfl, by simp, Nat.zero_le _, fun _ => rfl⟩
      thread _ := .of_outside rfl rfl trivial
      apart := by simp [State.init, Place.entry] }
  irqs := rfl
  phase _ := rfl

/-- The invariant in every run. -/
theorem refines_of_run {irq : Ptr → UInt8} {next : Ptr → Option Ptr} {ls : List Label} {s : State}
    (h : Run Step (State.init irq next) ls s) :
    ∃ a, Run (Atomic.Step Fifo.Op) (Atomic.init Fifo.init) ls a ∧ ∃ ps, Refines s a ps := by
  refine Run.simulates (R := fun s a => ∃ ps, Refines s a ps) ?_ h ⟨[], refines_init irq next⟩
  rintro s l s' a ⟨ps, href⟩ hl
  exact href.step hl

/-! ## progress -/

/-- Who has the lock is between lock and unlock. -/
def Held (s : State) : Prop := ∀ u, s.queueLock = some u → (s.threads u).critical = true

theorem Place.critical_of_locked (h : q.locked = some p) : p.critical = true := by
  cases q <;> cases h <;> rfl

/-- Inside a call, a thread has the lock or waits for it. -/
theorem Place.locked_or_critical (h : p.phase ≠ .idle) :
    p.critical = true ∨ ∃ q, p.locked = some q := by
  cases p with
  | idle | holding => exact absurd rfl h
  | queueLock | dequeueLock | haveLock => exact .inr ⟨_, rfl⟩
  | _ => exact .inl rfl

section

variable {s s₁ s' : State}

theorem goto_self : (s.goto t p).threads t = p := Function.update_self ..

theorem goto_of_ne (h : u ≠ t) : (s.goto t p).threads u = s.threads u :=
  Function.update_of_ne h ..

/-- A thread moves that has no lock, or keeps it. -/
theorem Held.goto (h : Held s) (hthreads : s₁.threads = s.threads)
    (hlock : s₁.queueLock = s.queueLock)
    (hp : (s.threads t).critical = true → p.critical = true) : Held (s₁.goto t p) := by
  intro u hu
  have hcrit := h u (hlock.symm.trans hu)
  by_cases hut : u = t
  · subst hut
    rw [goto_self]
    exact hp hcrit
  · rwa [goto_of_ne hut, hthreads]

theorem Held.step (h : Held s) {l : Label} (hstep : Step s l s') : Held s' := by
  cases hstep with
  | call o ht =>
    refine h.goto rfl rfl fun hc => ?_
    rw [ht] at hc
    cases hc
  | @lock t p ht hlock =>
    intro u hu
    obtain rfl : t = u := Option.some.inj hu
    rw [goto_self]
    exact Place.critical_of_locked ht
  | unlock ht => exact nofun
  | free ht =>
    refine h.goto rfl rfl fun hc => ?_
    rw [ht] at hc
    cases hc
  | _ => exact h.goto rfl rfl fun _ => rfl

/-- A thread comes to the end of its call by itself. -/
def Finishes (t : Nat) (s : State) : Prop :=
  ∃ n r s', Run Step s (List.replicate n .silent ++ [.ret t r]) s' ∧ s'.queueLock = none ∧
    ∀ u, u ≠ t → s'.threads u = s.threads u

namespace Finishes

theorem unlock {r : Result} (h : (s.threads t).unlocked = some (p, r)) : Finishes t s :=
  ⟨0, r, _, .single (.unlock h), rfl, fun _ hu => Function.update_of_ne hu ..⟩

theorem silent (hstep : Step s .silent (s₁.goto t p)) (hthreads : s₁.threads = s.threads)
    (h : Finishes t (s₁.goto t p)) : Finishes t s := by
  obtain ⟨n, r, s', hrun, hlock, hothers⟩ := h
  refine ⟨n + 1, r, s', (Run.single hstep).append hrun, hlock, fun u hu => ?_⟩
  rw [hothers u hu, goto_of_ne hu, hthreads]

theorem queueEnd {r : Queued} (ht : s.threads t = .queueEnd r) : Finishes t s :=
  silent (.queueEnd ht) rfl (unlock (congrArg Place.unlocked goto_self))

theorem dequeueEnd {ret : Option (Ptr × UInt8)} (ht : s.threads t = .dequeueEnd ret) :
    Finishes t s := by
  refine silent (.dequeueEnd ht) rfl ?_
  cases ret <;> exact unlock (congrArg Place.unlocked goto_self)

/-- The search for the last cell ends, as the list does. -/
theorem queueWalk {irq : UInt8} {e cur : Ptr} {back : List Ptr}
    (hchain : Chain s.next (some cur) (cur :: back)) (ht : s.threads t = .queueWalk irq e cur) :
    Finishes t s := by
  induction back generalizing s cur with
  | nil =>
    have hnext : s.next cur = none := by simpa using hchain.2
    exact silent (.walked ht hnext) rfl
      (silent (.link goto_self) rfl (queueEnd goto_self))
  | cons n back ih =>
    have hrest := hchain.2
    obtain ⟨m, hnext⟩ : ∃ m, s.next cur = some m := by
      cases hnext : s.next cur with
      | none => simp [hnext] at hrest
      | some m => exact ⟨m, rfl⟩
    obtain rfl : m = n := by
      rw [hnext] at hrest
      exact hrest.1
    refine silent (.walkOn ht hnext) rfl (ih ?_ goto_self)
    rwa [hnext] at hrest

theorem queueHead {irq : UInt8} {e : Ptr} (hchain : Chain s.next s.interruptQueue ps)
    (ht : s.threads t = .queueHead irq e) : Finishes t s := by
  cases hqueue : s.interruptQueue with
  | none => exact silent (.first ht hqueue) rfl (queueEnd goto_self)
  | some cur =>
    rw [hqueue] at hchain
    obtain ⟨back, rfl, -⟩ := hchain.exists_cons
    exact silent (.walk ht hqueue) rfl (queueWalk hchain goto_self)

theorem queueAlloc {irq : UInt8} (ht : s.threads t = .queueAlloc irq) : Finishes t s :=
  silent (.noMemory ht) rfl (queueEnd goto_self)

theorem queueCheck {irq : UInt8} (ht : s.threads t = .queueCheck irq) : Finishes t s := by
  rcases Nat.lt_or_ge s.nrPending queueMaxInterrupts with hroom | hfull
  · exact silent (.room ht hroom) rfl (queueAlloc goto_self)
  · exact silent (.full ht hfull) rfl (queueEnd goto_self)

theorem dequeueTake {e : Ptr} (ht : s.threads t = .dequeueTake e) : Finishes t s :=
  silent (.take ht) rfl (dequeueEnd goto_self)

theorem dequeueHead (ht : s.threads t = .dequeueHead) : Finishes t s := by
  cases hqueue : s.interruptQueue with
  | none => exact silent (.null ht hqueue) rfl (dequeueEnd goto_self)
  | some e => exact silent (.head ht hqueue) rfl (dequeueTake goto_self)

theorem dequeueCheck (ht : s.threads t = .dequeueCheck) : Finishes t s := by
  by_cases hnone : s.nrPending = 0
  · exact silent (.nonePending ht hnone) rfl (dequeueEnd goto_self)
  · exact silent (.somePending ht hnone) rfl (dequeueHead goto_self)

/-- Who has the lock can go on to the end of the call. -/
theorem of_critical (h : Inv s ps) (hcrit : (s.threads t).critical = true) : Finishes t s := by
  have hchain := h.list.chain
  cases ht : s.threads t with
  | idle | queueLock | dequeueLock | haveLock | holding =>
    rw [ht] at hcrit
    cases hcrit
  | queueCheck => exact queueCheck ht
  | queueAlloc => exact queueAlloc ht
  | queueFill => exact silent (.fill ht) rfl (queueHead hchain goto_self)
  | queueHead => exact queueHead hchain ht
  | queueWalk irq e cur =>
    obtain ⟨-, -, -, hmem⟩ := h.knows ht
    obtain ⟨front, back, rfl⟩ := List.append_of_mem hmem
    exact queueWalk hchain.drop ht
  | queueLink => exact silent (.link ht) rfl (queueEnd goto_self)
  | queueEnd => exact queueEnd ht
  | dequeueCheck => exact dequeueCheck ht
  | dequeueHead => exact dequeueHead ht
  | dequeueTake => exact dequeueTake ht
  | dequeueEnd => exact dequeueEnd ht
  | haveRead =>
    exact silent (.read ht) rfl (unlock (congrArg Place.unlocked goto_self))
  | dequeueUnlock ret => cases ret <;> exact unlock (congrArg Place.unlocked ht)
  | queueUnlock | haveUnlock => exact unlock (congrArg Place.unlocked ht)

end Finishes

variable {irq : Ptr → UInt8} {next : Ptr → Option Ptr} {ls : List Label}

/-- While the lock is free, a thread that waits for it can return. -/
theorem returns_of_free (h : Run Step (State.init irq next) ls s)
    (hp : (s.threads t).locked = some p) (hlock : s.queueLock = none) :
    ∃ ls' r s', Run Step s (ls' ++ [.ret t r]) s' := by
  have hstep := Step.lock hp hlock
  obtain ⟨a, -, ps, href⟩ := refines_of_run (h.tail hstep)
  have hcrit := Place.critical_of_locked hp
  obtain ⟨n, r, s', hrun, -⟩ := Finishes.of_critical href.inv (by rwa [goto_self])
  exact ⟨.silent :: List.replicate n .silent, r, s', (Run.single hstep).append hrun⟩

/-- **No call waits for ever**: who has the lock can return, and then who waits for it. -/
theorem returns (h : Run Step (State.init irq next) ls s) (hcall : (s.threads t).phase ≠ .idle) :
    ∃ ls' r s', Run Step s (ls' ++ [.ret t r]) s' := by
  obtain ⟨a, -, ps, href⟩ := refines_of_run h
  rcases Place.locked_or_critical hcall with hcrit | ⟨p, hp⟩
  · obtain ⟨n, r, s', hrun, -⟩ := Finishes.of_critical href.inv hcrit
    exact ⟨_, r, s', hrun⟩
  · cases hlock : s.queueLock with
    | none => exact returns_of_free h hp hlock
    | some u =>
      have hheld : Held s := h.invariant (fun _ _ _ hs => hs.step) (by simp [Held, State.init])
      have hcrit := hheld u hlock
      have hne : t ≠ u := by
        rintro rfl
        generalize s.threads t = q at hp hcrit
        cases q <;> cases hp <;> cases hcrit
      obtain ⟨n, r', s', hrun, hnone, hothers⟩ := Finishes.of_critical href.inv hcrit
      obtain ⟨ls', r, s'', hrun'⟩ := returns_of_free (h.append hrun) (by rwa [hothers t hne]) hnone
      refine ⟨List.replicate n .silent ++ [.ret u r'] ++ ls', r, s'', ?_⟩
      rw [List.append_assoc]
      exact hrun.append hrun'

end

/-- **The queue of pending interrupts is a bounded FIFO**: in every interleaving of the calls of
any number of threads, the calls and returns are those of `Fifo` with its operations taking
effect one at a time.  The list has the IRQs of the sequence in their order, and the counter is
its length when the lock is free.  What has been accepted is what has been taken and then what is
in the sequence, and this is never longer than 256.  An entry is its caller's until it is freed,
and every call that has begun can return. -/
theorem pending_refines_fifo {irq : Ptr → UInt8} {next : Ptr → Option Ptr} {ls : List Label}
    {s : State} (h : Run Step (State.init irq next) ls s) :
    ∃ a, Run (Atomic.Step Fifo.Op) (Atomic.init Fifo.init) ls a ∧
      (∀ t, a.phase t = (s.threads t).phase) ∧
      a.obj.accepted = a.obj.taken ++ a.obj.queue ∧ a.obj.queue.length ≤ queueMaxInterrupts ∧
      (∃ ps, Chain s.next s.interruptQueue ps ∧ ps.map s.irq = a.obj.queue ∧
        (s.queueLock = none → s.nrPending = ps.length)) ∧
      (∀ t e i, s.threads t = .holding e i → s.allocated e = true ∧ s.irq e = i) ∧
      ∀ t, (s.threads t).phase ≠ .idle → ∃ ls' r s', Run Step s (ls' ++ [.ret t r]) s' := by
  obtain ⟨a, hrun, ps, href⟩ := refines_of_run h
  have hok : a.obj.Ok := Atomic.invariant (I := Fifo.Ok) (fun _ _ _ _ => Fifo.Ok.op) hrun ⟨rfl, Nat.zero_le _⟩
  refine ⟨a, hrun, href.phase, hok.1, hok.2,
    ⟨ps, href.inv.list.chain, href.irqs, href.inv.list.count⟩, fun t e i ht => ?_,
    fun t ht => returns h ht⟩
  have hentry : (s.threads t).entry = some e := by rw [ht]; rfl
  exact ⟨(href.inv.own hentry).2, href.inv.knows ht⟩

/-- Two threads queue an IRQ each, the second while the first has the lock, and take one each. -/
def twoIrqs : List Label :=
  [.call 0 (.queue 5), .silent, .call 1 (.queue 6), .silent, .silent, .silent, .silent, .silent,
    .ret 0 (.queued .accepted),
    .silent, .silent, .silent, .silent, .silent, .silent, .silent, .silent,
    .ret 1 (.queued .accepted),
    .call 1 .dequeue, .silent, .silent, .silent, .silent, .silent, .ret 1 (.taken (some 5)),
    .call 0 .dequeue, .silent, .silent, .silent, .silent, .silent, .ret 0 (.taken (some 6))]

/-- They take them in this order, and nothing is left. -/
theorem pending_refines_fifo_queue : ∃ s,
    Run Step (State.init (fun _ => 0) fun _ => none) twoIrqs s ∧
    s.interruptQueue = none ∧ s.nrPending = 0 ∧
    ∃ a, Run (Atomic.Step Fifo.Op) (Atomic.init Fifo.init) twoIrqs a ∧
      a.obj.accepted = a.obj.taken ++ a.obj.queue := by
  have queued : Run Step (State.init (fun _ => 0) fun _ => none) (twoIrqs.take 9) _ :=
    Run.refl.tail (.call (t := 0) (.queue 5) rfl)
      |>.tail (.lock (t := 0) rfl rfl)
      |>.tail (.call (t := 1) (.queue 6) rfl)
      |>.tail (.room (t := 0) rfl (by decide))
      |>.tail (@Step.calloc _ 0 5 64 rfl rfl)
      |>.tail (.fill (t := 0) rfl)
      |>.tail (.first (t := 0) rfl rfl)
      |>.tail (.queueEnd (t := 0) rfl)
      |>.tail (.unlock (t := 0) rfl)
  have queuedBoth : Run Step (State.init (fun _ => 0) fun _ => none) (twoIrqs.take 18) _ :=
    queued.tail (.lock (t := 1) rfl rfl)
      |>.tail (.room (t := 1) rfl (by decide))
      |>.tail (@Step.calloc _ 1 6 128 rfl rfl)
      |>.tail (.fill (t := 1) rfl)
      |>.tail (.walk (t := 1) rfl rfl)
      |>.tail (.walked (t := 1) rfl rfl)
      |>.tail (.link (t := 1) rfl)
      |>.tail (.queueEnd (t := 1) rfl)
      |>.tail (.unlock (t := 1) rfl)
  have taken : Run Step (State.init (fun _ => 0) fun _ => none) (twoIrqs.take 25) _ :=
    queuedBoth.tail (.call (t := 1) .dequeue rfl)
      |>.tail (.lock (t := 1) rfl rfl)
      |>.tail (.somePending (t := 1) rfl (by decide))
      |>.tail (.head (t := 1) rfl rfl)
      |>.tail (.take (t := 1) rfl)
      |>.tail (.dequeueEnd (t := 1) rfl)
      |>.tail (.unlock (t := 1) rfl)
  have hrun : Run Step (State.init (fun _ => 0) fun _ => none) twoIrqs _ :=
    taken.tail (.call (t := 0) .dequeue rfl)
      |>.tail (.lock (t := 0) rfl rfl)
      |>.tail (.somePending (t := 0) rfl (by decide))
      |>.tail (.head (t := 0) rfl rfl)
      |>.tail (.take (t := 0) rfl)
      |>.tail (.dequeueEnd (t := 0) rfl)
      |>.tail (.unlock (t := 0) rfl)
  obtain ⟨a, ha, -, hok, -⟩ := pending_refines_fifo hrun
  exact ⟨_, hrun, rfl, rfl, a, ha, hok⟩

/-! ## the calls as one step -/

/-- The call that a step of the machine makes. -/
def called (m : Machine) : Act → Option Call
  | .main => none
  | .irq irq => some (.queue irq)
  | .vcpu v _ =>
    match m.threads v with
    | .check => some .have
    | .dequeue => some .dequeue
    | _ => none

/-- The machine's counter is the length of its queue. -/
def Counted (m : Machine) : Prop :=
  m.nrPending = m.interruptQueue.length ∧ m.nrPending ≤ queueMaxInterrupts

section

variable {m m' : Machine}

theorem queue_of_moves {v : Nat} {p : Smp.Place} {c : Choice} (h : m.Moves v p c m')
    (hp : p ≠ .dequeue) : m'.interruptQueue = m.interruptQueue ∧ m'.nrPending = m.nrPending := by
  cases h with
  | dequeue | noEntry => exact absurd rfl hp
  | _ => exact ⟨rfl, rfl⟩

/-- `dequeueInterrupt` as one step. -/
theorem op_of_dequeue {x : Fifo} {v : Nat} (hcount : Counted m) (hx : x.queue = m.interruptQueue)
    (h : m.goOn v .dequeue = some m') :
    Counted m' ∧ ∃ y r, Fifo.Op x .dequeue y r ∧ y.queue = m'.interruptQueue := by
  simp only [Machine.goOn] at h
  split at h
  next n irq rest hn hqueue =>
    cases h
    obtain ⟨hlen, hle⟩ := hcount
    rw [hqueue, List.length_cons] at hlen
    exact ⟨⟨by simp only [Machine.goto, Machine.emit, Machine.setQueue]; omega,
      by simp only [Machine.goto, Machine.emit, Machine.setQueue]; omega⟩,
      _, _, .take (hx.trans hqueue), rfl⟩
  next hempty =>
    cases h
    have hnil : m.interruptQueue = [] := by
      cases hqueue : m.interruptQueue with
      | nil => rfl
      | cons irq rest =>
        have hlen := hcount.1
        rw [hqueue, List.length_cons] at hlen
        exact absurd hqueue (hempty _ _ _ hlen)
    exact ⟨hcount, _, _, .empty (hx.trans hnil), hx⟩

/-- **The machine's queue is the sequence too**: a step of the machine is the operation of `Fifo`
that it calls, or leaves the queue alone. -/
theorem queue_of_step {act : Act} {x : Fifo} (hcount : Counted m)
    (hx : x.queue = m.interruptQueue) (hstep : m.step act = some m') :
    Counted m' ∧ match called m act with
      | some o => ∃ y r, Fifo.Op x o y r ∧ y.queue = m'.interruptQueue
      | none => x.queue = m'.interruptQueue := by
  cases act with
  | main =>
    have hmoves := Machine.moves_of_mainStep hstep
    cases hmoves <;> exact ⟨hcount, hx⟩
  | irq irq =>
    cases hstep
    obtain ⟨hlen, hle⟩ := hcount
    unfold Machine.queueInterrupt
    split
    next hfull => exact ⟨⟨hlen, hle⟩, _, _, .full (by rw [hx]; omega), hx⟩
    next hroom =>
      refine ⟨⟨?_, ?_⟩, _, _, .accept (by rw [hx]; omega), by rw [hx]; rfl⟩
      · simp [Machine.setQueue, hlen]
      · simp only [Machine.setQueue]
        omega
  | vcpu v c =>
    have hmoves := Machine.moves_of_threadStep hstep
    by_cases hp : m.threads v = .dequeue
    · rw [hp] at hmoves
      have hgo : m.goOn v .dequeue = some m' := by
        cases hmoves <;> exact hp ▸ hstep
      obtain ⟨hcount', hop⟩ := op_of_dequeue hcount hx hgo
      simp only [called, hp]
      exact ⟨hcount', hop⟩
    · obtain ⟨hqueue, hn⟩ := queue_of_moves hmoves hp
      refine ⟨by rwa [Counted, hqueue, hn], ?_⟩
      rw [hqueue]
      by_cases hcheck : m.threads v = .check
      · simp only [called, hcheck]
        exact ⟨x, _, .have, hx⟩
      · have hnone : called m (.vcpu v c) = none := by
          simp only [called]
        rwa [hnone]

/-- Over a run, it has gone through the operations that were called. -/
theorem queue_of_run {nvcpus : Nat} {acts : List Act}
    (h : Run (fun s act t => s.step act = some t) (Machine.init nvcpus) acts m) :
    Counted m ∧ ∃ x os, Run (fun x o y => ∃ r, Fifo.Op x o y r) Fifo.init os x ∧
      x.queue = m.interruptQueue := by
  induction h with
  | refl => exact ⟨⟨rfl, Nat.zero_le _⟩, Fifo.init, [], .refl, rfl⟩
  | @tail s t acts act _ hstep ih =>
    obtain ⟨hcount, x, os, hrun, hx⟩ := ih
    obtain ⟨hcount', hop⟩ := queue_of_step hcount hx hstep
    refine ⟨hcount', ?_⟩
    cases hcalled : called s act with
    | none =>
      rw [hcalled] at hop
      exact ⟨x, os, hrun, hop⟩
    | some o =>
      rw [hcalled] at hop
      obtain ⟨y, r, hop, hy⟩ := hop
      exact ⟨y, _, hrun.tail ⟨r, hop⟩, hy⟩

end

end Ooows.Smp.Pending
