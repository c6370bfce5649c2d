import Mathlib.Logic.Function.Basic
import Ooows.Lib.ByteMem
import Ooows.Lib.Run

/-!
# Ooows.Serial

The serial ports, `ooowsserial.py`.

Every port has two queues of 128 items and two threads.  One passes the bytes of a client on
to the guest and, when the client hangs up, puts an empty item into the other queue; the
other thread passes the bytes of the guest on to a client, and takes the empty item as the
end of its connection.  All accesses of all virtual CPUs to both ports go through one lock,
which an access keeps while it waits for a queue.

* `Ok`: no byte is lost, doubled or moved on the way.
* `serial_answers_iff`: when an access that waits keeps all virtual CPUs waiting for good.
-/

namespace Ooows.Serial

open Lib

/-! ## ports -/

/-- Where `_RxHandler` is. -/
inductive Rx
  | accept
  | recv
  /-- At `rq.put(b)`. -/
  | put (b : UInt8)
  /-- At `tq.put('')`. -/
  | signal
  deriving DecidableEq, Repr

/-- Where `_TxHandler` is. -/
inductive Tx
  | accept
  | get
  | send (b : UInt8)
  /-- The client has gone, and `conn.send(b)` has raised an exception. -/
  | dead (b : UInt8)
  deriving DecidableEq, Repr

/-- `ComPort`; the last four members record what has happened. -/
structure ComPort where
  rxQueue : List UInt8
  /-- `none` is the empty item. -/
  txQueue : List (Option UInt8)
  rx : Rx
  tx : Tx
  /-- The bytes of the clients. -/
  received : List UInt8
  /-- The bytes that the guest has read. -/
  guestRead : List UInt8
  /-- The bytes that the guest has written. -/
  guestWrote : List UInt8
  /-- The bytes that clients have got, with the ends of connections. -/
  sent : List (Option UInt8)
  deriving DecidableEq, Repr

/-- `maxsize` of both queues. -/
def queueSize : Nat := 128

inductive HandlerAct
  | rxAccept
  /-- `conn.recv(1)`; `none` if the client has closed. -/
  | rxRecv (b : Option UInt8)
  | rxPut
  | rxSignal
  | txAccept
  | txGet
  /-- `conn.send(b)`, and whether the client is still there. -/
  | txSend (ok : Bool)
  deriving DecidableEq, Repr

namespace ComPort

def init : ComPort := ⟨[], [], .accept, .accept, [], [], [], []⟩

/-- `read`, if it need not wait. -/
def read (c : ComPort) : Option (UInt8 × ComPort) :=
  match c.rxQueue with
  | [] => none
  | b :: rest => some (b, { c with rxQueue := rest, guestRead := c.guestRead ++ [b] })

/-- `write`, if it need not wait. -/
def write (c : ComPort) (b : UInt8) : Option ComPort :=
  if c.txQueue.length < queueSize then
    some { c with txQueue := c.txQueue ++ [some b], guestWrote := c.guestWrote ++ [b] }
  else none

/-- `_RxHandler` and `_TxHandler`. -/
def handle (c : ComPort) (a : HandlerAct) : Option ComPort :=
  match a with
  | .rxAccept => if c.rx = .accept then some { c with rx := .recv } else none
  | .rxRecv b =>
    if c.rx = .recv then some (match b with
      | some b => { c with rx := .put b, received := c.received ++ [b] }
      | none => { c with rx := .signal })
    else none
  | .rxPut => match c.rx with
      | .put b =>
        if c.rxQueue.length < queueSize then
          some { c with rxQueue := c.rxQueue ++ [b], rx := .recv }
        else none
      | _ => none
  | .rxSignal =>
    if c.rx = .signal ∧ c.txQueue.length < queueSize then
      some { c with txQueue := c.txQueue ++ [none], rx := .accept }
    else none
  | .txAccept => if c.tx = .accept then some { c with tx := .get } else none
  | .txGet => match c.tx, c.txQueue with
      | .get, some b :: rest => some { c with txQueue := rest, tx := .send b }
      | .get, none :: rest => some { c with txQueue := rest, tx := .accept, sent := c.sent ++ [none] }
      | _, _ => none
  | .txSend ok => match c.tx with
      | .send b => some (if ok then { c with tx := .get, sent := c.sent ++ [some b] }
          else { c with tx := .dead b })
      | _ => none

end ComPort

/-! ## accesses -/

/-- `IoPortRequest` of a virtual CPU: port accesses have at most four bytes. -/
structure IoPortRequest where
  port : UInt16
  isWrite : Bool
  size : Nat
  data : UInt32
  size_le : size ≤ 4

/-- What an access has left to do; a port is `false` for COM1 and `true` for COM2. -/
inductive Job
  | read (p : Bool)
  /-- In the loop of `TxCom`, at the `write` of `b`, with more bytes behind it. -/
  | write (p : Bool) (b : UInt8) (bs : List UInt8)
  | done (value : UInt8)
  deriving DecidableEq, Repr

/-- The loop of `TxCom`. -/
def Job.ofBytes (p : Bool) : List UInt8 → Job
  | [] => .done 0
  | b :: bs => .write p b bs

/-- `TxCom`: `"B"`, `"<H"` or `"<I"`, by `size/2`. -/
def txBytes (r : IoPortRequest) : List UInt8 :=
  ByteMem.bytesOfNat (if r.size / 2 = 0 then 1 else if r.size / 2 = 1 then 2 else 4) r.data.toNat

/-- `IoPortAccess` inside the lock. -/
def IoPortRequest.job (r : IoPortRequest) : Job :=
  if r.port = 0x3F8 ∨ r.port = 0x2F8 then
    let p := decide (r.port = 0x2F8)
    if r.isWrite then .ofBytes p (txBytes r)
    -- `RxCom`: an invalid access
    else if 1 < r.size then .done 0
    else .read p
  else .done 0

/-- Where a thread of `HandleIO` is. -/
inductive Cpu
  | idle
  /-- At `_lock.acquire()`. -/
  | waiting (r : IoPortRequest)
  | inside (job : Job)

/-- `OoowsSerialController` and its threads. -/
structure Controller where
  ports : Bool → ComPort
  cpus : Nat → Cpu
  /-- Who holds the lock. -/
  lock : Option Nat

inductive Act
  | call (v : Nat) (r : IoPortRequest)
  | acquire (v : Nat)
  /-- The next `read` or `write` of a port. -/
  | serve (v : Nat)
  /-- The lock is released and the value sent. -/
  | ret (v : Nat) (value : UInt8)
  | handler (p : Bool) (a : HandlerAct)

namespace Controller

def init : Controller := ⟨fun _ => .init, fun _ => .idle, none⟩

def goto (s : Controller) (v : Nat) (cpu : Cpu) : Controller :=
  { s with cpus := Function.update s.cpus v cpu }

def setPort (s : Controller) (p : Bool) (c : ComPort) : Controller :=
  { s with ports := Function.update s.ports p c }

def step (s : Controller) : Act → Option Controller
  | .call v r => match s.cpus v with
      | .idle => some (s.goto v (.waiting r))
      | _ => none
  | .acquire v => match s.cpus v with
      | .waiting r =>
        if s.lock = none then some ({ s with lock := some v }.goto v (.inside r.job)) else none
      | _ => none
  | .serve v => match s.cpus v with
      | .inside (.read p) => (s.ports p).read.map fun x => (s.setPort p x.2).goto v (.inside (.done x.1))
      | .inside (.write p b bs) =>
        ((s.ports p).write b).map fun c => (s.setPort p c).goto v (.inside (.ofBytes p bs))
      | _ => none
  | .ret v value => match s.cpus v with
      | .inside (.done x) =>
        if value = x then some ({ s with lock := none }.goto v .idle) else none
      | _ => none
  | .handler p a => ((s.ports p).handle a).map (s.setPort p)

abbrev Step (s : Controller) (a : Act) (t : Controller) : Prop := s.step a = some t

@[simp, grind =] theorem cpus_goto (s : Controller) (v w : Nat) (cpu : Cpu) :
    (s.goto v cpu).cpus w = if w = v then cpu else s.cpus w := Function.update_apply ..

@[simp, grind =] theorem lock_goto (s : Controller) (v : Nat) (cpu : Cpu) :
    (s.goto v cpu).lock = s.lock := rfl

@[simp, grind =] theorem ports_goto (s : Controller) (v : Nat) (cpu : Cpu) :
    (s.goto v cpu).ports = s.ports := rfl

@[simp, grind =] theorem cpus_setPort (s : Controller) (p : Bool) (c : ComPort) :
    (s.setPort p c).cpus = s.cpus := rfl

@[simp, grind =] theorem lock_setPort (s : Controller) (p : Bool) (c : ComPort) :
    (s.setPort p c).lock = s.lock := rfl

@[simp, grind =] theorem ports_setPort (s : Controller) (p q : Bool) (c : ComPort) :
    (s.setPort p c).ports q = if q = p then c else s.ports q := Function.update_apply ..

end Controller

/-! ## the streams -/

/-- The byte a thread is about to put into a queue. -/
def Rx.held : Rx → List UInt8
  | .put b => [b]
  | _ => []

/-- The byte a thread is about to send, or could not send. -/
def Tx.held : Tx → List (Option UInt8)
  | .send b | .dead b => [some b]
  | _ => []

/-- **What holds of a port.** -/
structure ComPort.Ok (c : ComPort) : Prop where
  rx : c.received = c.guestRead ++ c.rxQueue ++ c.rx.held
  tx : c.guestWrote = (c.sent ++ c.tx.held ++ c.txQueue).filterMap id
  rxLength : c.rxQueue.length ≤ queueSize
  txLength : c.txQueue.length ≤ queueSize

variable {c c' : ComPort} {s t : Controller} {v : Nat} {p : Bool}

theorem ComPort.Ok.read {x : UInt8 × ComPort} (h : c.Ok) (hread : c.read = some x) : x.2.Ok := by
  unfold ComPort.read at hread
  split at hread
  next => cases hread
  next b rest hq =>
    cases hread
    obtain ⟨hrx, htx, hrxLength, htxLength⟩ := h
    exact ⟨by simpa [hq] using hrx, htx, by simp_all; omega, htxLength⟩

theorem ComPort.Ok.write {b : UInt8} (h : c.Ok) (hwrite : c.write b = some c') : c'.Ok := by
  obtain ⟨hlt, hc⟩ := Option.ite_none_right_eq_some.1 hwrite
  cases hc
  obtain ⟨hrx, htx, hrxLength, htxLength⟩ := h
  exact ⟨hrx, by simp [htx], hrxLength, List.length_append.trans_le hlt⟩

theorem ComPort.Ok.handle {a : HandlerAct} (h : c.Ok) (hstep : c.handle a = some c') : c'.Ok := by
  obtain ⟨hrx, htx, hrxLength, htxLength⟩ := h
  cases a with
  | rxAccept =>
    obtain ⟨hat, hc⟩ := Option.ite_none_right_eq_some.1 hstep
    cases hc
    exact ⟨by simpa [hat, Rx.held] using hrx, htx, hrxLength, htxLength⟩
  | rxRecv b =>
    obtain ⟨hat, hc⟩ := Option.ite_none_right_eq_some.1 hstep
    cases b <;> cases hc
    all_goals exact ⟨by simp_all [Rx.held], htx, hrxLength, htxLength⟩
  | rxPut =>
    simp only [ComPort.handle] at hstep
    split at hstep
    next b hat =>
      obtain ⟨hlt, hc⟩ := Option.ite_none_right_eq_some.1 hstep
      cases hc
      exact ⟨by simpa [hat, Rx.held] using hrx, htx, List.length_append.trans_le hlt, htxLength⟩
    next => cases hstep
  | rxSignal =>
    obtain ⟨⟨hat, hlt⟩, hc⟩ := Option.ite_none_right_eq_some.1 hstep
    cases hc
    exact ⟨by simpa [hat, Rx.held] using hrx, by simpa using htx, hrxLength,
      List.length_append.trans_le hlt⟩
  | txAccept =>
    obtain ⟨hat, hc⟩ := Option.ite_none_right_eq_some.1 hstep
    cases hc
    exact ⟨hrx, by simpa [hat, Tx.held] using htx, hrxLength, htxLength⟩
  | txGet =>
    simp only [ComPort.handle] at hstep
    split at hstep
    next b rest hat hq =>
      cases hstep
      exact ⟨hrx, by simpa [hat, hq, Tx.held] using htx, hrxLength, by simp_all; omega⟩
    next rest hat hq =>
      cases hstep
      exact ⟨hrx, by simpa [hat, hq, Tx.held] using htx, hrxLength, by simp_all; omega⟩
    next => cases hstep
  | txSend ok =>
    simp only [ComPort.handle] at hstep
    split at hstep
    next b hat =>
      cases ok <;> cases hstep
      all_goals exact ⟨hrx, by simpa [hat, Tx.held] using htx, hrxLength, htxLength⟩
    next => cases hstep

namespace Controller

/-- What each step does. -/
inductive Moves (s : Controller) : Act → Controller → Prop
  | call {v : Nat} (r : IoPortRequest) (hcpu : s.cpus v = .idle) :
      Moves s (.call v r) (s.goto v (.waiting r))
  | acquire {v : Nat} {r : IoPortRequest} (hcpu : s.cpus v = .waiting r) (hfree : s.lock = none) :
      Moves s (.acquire v) ({ s with lock := some v }.goto v (.inside r.job))
  | read {v : Nat} {p : Bool} {x : UInt8 × ComPort} (hcpu : s.cpus v = .inside (.read p))
      (hread : (s.ports p).read = some x) :
      Moves s (.serve v) ((s.setPort p x.2).goto v (.inside (.done x.1)))
  | write {v : Nat} {p : Bool} {b : UInt8} {bs : List UInt8} {c : ComPort}
      (hcpu : s.cpus v = .inside (.write p b bs)) (hwrite : (s.ports p).write b = some c) :
      Moves s (.serve v) ((s.setPort p c).goto v (.inside (.ofBytes p bs)))
  | ret {v : Nat} {value : UInt8} (hcpu : s.cpus v = .inside (.done value)) :
      Moves s (.ret v value) ({ s with lock := none }.goto v .idle)
  | handler {p : Bool} {a : HandlerAct} {c : ComPort} (hhandle : (s.ports p).handle a = some c) :
      Moves s (.handler p a) (s.setPort p c)

theorem Step.moves {a : Act} (hstep : Step s a t) : Moves s a t := by
  cases a with
  | call v r =>
    simp only [Step, Controller.step] at hstep
    split at hstep
    next hcpu => exact Option.some.inj hstep ▸ .call r hcpu
    next => cases hstep
  | acquire v =>
    simp only [Step, Controller.step] at hstep
    split at hstep
    next r hcpu =>
      obtain ⟨hfree, ht⟩ := Option.ite_none_right_eq_some.1 hstep
      exact Option.some.inj ht ▸ .acquire hcpu hfree
    next => cases hstep
  | serve v =>
    simp only [Step, Controller.step] at hstep
    split at hstep
    next p hcpu =>
      obtain ⟨x, hread, rfl⟩ := Option.map_eq_some_iff.1 hstep
      exact .read hcpu hread
    next p b bs hcpu =>
      obtain ⟨c, hwrite, rfl⟩ := Option.map_eq_some_iff.1 hstep
      exact .write hcpu hwrite
    next => cases hstep
  | ret v value =>
    simp only [Step, Controller.step] at hstep
    split at hstep
    next x hcpu =>
      obtain ⟨rfl, ht⟩ := Option.ite_none_right_eq_some.1 hstep
      exact Option.some.inj ht ▸ .ret hcpu
    next => cases hstep
  | handler p a =>
    obtain ⟨c, hhandle, rfl⟩ := Option.map_eq_some_iff.1 hstep
    exact .handler hhandle

/-- **What holds in every state**: the ports, and who is inside holds the lock. -/
structure Ok (s : Controller) : Prop where
  ports : ∀ p, (s.ports p).Ok
  lock : ∀ v job, s.cpus v = .inside job → s.lock = some v

theorem ports_ok_setPort (h : ∀ p, (s.ports p).Ok) (hc : c.Ok) (q : Bool) :
    ((s.setPort p c).ports q).Ok := by
  rw [ports_setPort]
  split
  · exact hc
  · exact h q

theorem Ok.step {a : Act} (h : Ok s) (hstep : Step s a t) : Ok t := by
  have hlock := h.lock
  cases Step.moves hstep with
  | call r hcpu => exact ⟨h.ports, by grind⟩
  | acquire hcpu hfree => exact ⟨h.ports, by grind⟩
  | read hcpu hread => exact ⟨ports_ok_setPort h.ports ((h.ports _).read hread), by grind⟩
  | write hcpu hwrite => exact ⟨ports_ok_setPort h.ports ((h.ports _).write hwrite), by grind⟩
  | ret hcpu => exact ⟨h.ports, by grind⟩
  | handler hhandle => exact ⟨ports_ok_setPort h.ports ((h.ports _).handle hhandle), hlock⟩

theorem Ok.run {acts : List Act} (h : Ok s) (hrun : Run Step s acts t) : Ok t :=
  hrun.invariant (fun _ _ _ hs hstep => hs.step hstep) h

theorem Ok.init : Ok init where
  ports _ := ⟨rfl, rfl, Nat.zero_le _, Nat.zero_le _⟩
  lock _ _ hcpu := by cases hcpu

end Controller

/-! ## accesses that wait -/

/-- `_TxHandler` has ended. -/
def ComPort.Dead (c : ComPort) : Prop := ∃ b, c.tx = .dead b

/-- An access waits for something that cannot happen. -/
def Controller.Stuck (s : Controller) : Job → Prop
  -- there is nothing to read, and `_RxHandler` waits for room in the other queue
  | .read p => (s.ports p).rxQueue = [] ∧ (s.ports p).rx = .signal ∧ (s.ports p).Dead ∧
      (s.ports p).txQueue.length = queueSize
  -- not all bytes fit into the queue
  | .write p _ bs => (s.ports p).Dead ∧ queueSize < (s.ports p).txQueue.length + 1 + bs.length
  | .done _ => False

theorem ComPort.Dead.handle {a : HandlerAct} (h : c.Dead) (hstep : c.handle a = some c') :
    c'.Dead ∧ c.txQueue.length ≤ c'.txQueue.length ∧
      (c.rx = .signal → c.txQueue.length = queueSize →
        c'.rx = .signal ∧ c'.rxQueue = c.rxQueue) := by
  obtain ⟨b, hb⟩ := h
  cases a <;> simp only [ComPort.handle] at hstep <;> grind [ComPort.Dead]

/-- The steps of the two threads of a port. -/
abbrev ComPort.HandleStep (c : ComPort) (a : HandlerAct) (c' : ComPort) : Prop :=
  c.handle a = some c'

theorem ComPort.exists_get (htx : c.tx = .get) (hne : c.txQueue ≠ []) : ∃ c',
    HandleStep c .txGet c' ∧ c'.txQueue.length < c.txQueue.length ∧ ¬ c'.Dead ∧
      c'.rx = c.rx ∧ c'.rxQueue = c.rxQueue := by
  cases hq : c.txQueue with
  | nil => exact absurd hq hne
  | cons item rest => cases item <;> simp [HandleStep, handle, htx, hq, Dead]

/-- The handlers make room in the queue of a port whose `_TxHandler` lives. -/
theorem ComPort.exists_room (hlen : c.txQueue.length ≤ queueSize) (hlive : ¬ c.Dead) :
    ∃ acts c', Run HandleStep c acts c' ∧ c'.txQueue.length < queueSize ∧ ¬ c'.Dead ∧
      c'.rx = c.rx ∧ c'.rxQueue = c.rxQueue := by
  by_cases hroom : c.txQueue.length < queueSize
  · exact ⟨[], c, .refl, hroom, hlive, rfl, rfl⟩
  have hne : c.txQueue ≠ [] := fun hq => hroom (by simp [hq, queueSize])
  obtain ⟨acts, c₁, hacts, htx, hsame, hrx, hrxQueue⟩ : ∃ acts c₁, Run HandleStep c acts c₁ ∧
      c₁.tx = .get ∧ c₁.txQueue = c.txQueue ∧ c₁.rx = c.rx ∧ c₁.rxQueue = c.rxQueue := by
    cases htx : c.tx with
    | accept =>
      have haccept : HandleStep c .txAccept { c with tx := .get } := if_pos htx
      exact ⟨_, _, .single haccept, rfl, rfl, rfl, rfl⟩
    | get => exact ⟨_, c, .refl, htx, rfl, rfl, rfl⟩
    | send b =>
      have hsend : HandleStep c (.txSend true)
          { c with tx := .get, sent := c.sent ++ [some b] } := by
        simp [HandleStep, handle, htx]
      exact ⟨_, _, .single hsend, rfl, rfl, rfl, rfl⟩
    | dead b => exact absurd ⟨b, htx⟩ hlive
  obtain ⟨c₂, hstep, hlt, hlive₂, hrx₂, hrxQueue₂⟩ := exists_get htx (hsame ▸ hne)
  exact ⟨_, c₂, hacts.tail hstep, by rw [hsame] at hlt; omega, hlive₂, hrx₂.trans hrx,
    hrxQueue₂.trans hrxQueue⟩

/-- The port can get to a byte for the guest. -/
def ComPort.Yields (c : ComPort) : Prop :=
  ∃ acts c' x, Run HandleStep c acts c' ∧ c'.read = some x

theorem ComPort.Yields.of_run {acts : List HandlerAct} (hrun : Run HandleStep c acts c')
    (h : c'.Yields) : c.Yields := by
  obtain ⟨acts', d, x, hrun', hread⟩ := h
  exact ⟨_, d, x, hrun.append hrun', hread⟩

theorem ComPort.yields_of_put {b : UInt8} (hq : c.rxQueue = []) (hrx : c.rx = .put b) :
    c.Yields := by
  have hstep : HandleStep c .rxPut { c with rxQueue := [b], rx := .recv } := by
    simp [HandleStep, handle, hrx, hq, queueSize]
  exact ⟨_, _, _, .single hstep, rfl⟩

theorem ComPort.yields_of_recv (hq : c.rxQueue = []) (hrx : c.rx = .recv) : c.Yields := by
  have hstep : HandleStep c (.rxRecv (some 0))
      { c with rx := .put 0, received := c.received ++ [0] } := if_pos hrx
  exact .of_run (.single hstep) (yields_of_put hq rfl)

theorem ComPort.yields_of_accept (hq : c.rxQueue = []) (hrx : c.rx = .accept) : c.Yields := by
  have hstep : HandleStep c .rxAccept { c with rx := .recv } := if_pos hrx
  exact .of_run (.single hstep) (yields_of_recv hq rfl)

theorem ComPort.exists_byte (h : c.Ok) (hstuck : ¬ (c.rxQueue = [] ∧ c.rx = .signal ∧ c.Dead ∧
    c.txQueue.length = queueSize)) : c.Yields := by
  cases hq : c.rxQueue with
  | cons b rest =>
    have hread : c.read =
        some (b, { c with rxQueue := rest, guestRead := c.guestRead ++ [b] }) := by
      simp only [ComPort.read, hq]
    exact ⟨[], c, _, .refl, hread⟩
  | nil =>
    cases hrx : c.rx with
    | accept => exact yields_of_accept hq hrx
    | recv => exact yields_of_recv hq hrx
    | put b => exact yields_of_put hq hrx
    | signal =>
      obtain ⟨acts, c₁, hroom, hlt, hrx₁, hq₁⟩ : ∃ acts c₁, Run HandleStep c acts c₁ ∧
          c₁.txQueue.length < queueSize ∧ c₁.rx = .signal ∧ c₁.rxQueue = [] := by
        rcases Nat.lt_or_eq_of_le h.txLength with hlt | hfull
        · exact ⟨[], c, .refl, hlt, hrx, hq⟩
        · obtain ⟨acts, c₁, hrun, hlt, -, hrx₁, hq₁⟩ :=
            exists_room h.txLength fun hdead => hstuck ⟨hq, hrx, hdead, hfull⟩
          exact ⟨acts, c₁, hrun, hlt, hrx₁.trans hrx, hq₁.trans hq⟩
      have hstep : HandleStep c₁ .rxSignal
          { c₁ with txQueue := c₁.txQueue ++ [none], rx := .accept } := if_pos ⟨hrx₁, hlt⟩
      exact .of_run (hroom.tail hstep) (yields_of_accept hq₁ rfl)

namespace Controller

/-- The threads of a port run while the lock is held. -/
theorem run_handlers {acts : List HandlerAct} (hrun : Run ComPort.HandleStep (s.ports p) acts c) :
    Run Step s (acts.map (.handler p)) (s.setPort p c) := by
  induction hrun with
  | refl =>
    have hself : s.setPort p (s.ports p) = s := by simp [setPort]
    rw [hself]
    exact .refl
  | @tail c c' acts a _ hstep ih =>
    rw [List.map_append]
    refine ih.tail ?_
    simp only [Step, Controller.step, ports_setPort, if_true]
    rw [show c.handle a = some c' from hstep]
    simp [setPort]

/-- An access that writes gets to its end if the bytes fit, or `_TxHandler` lives. -/
theorem exists_written (hok : Ok s) (bytes : List UInt8)
    (hcpu : s.cpus v = .inside (.ofBytes p bytes))
    (hfit : (s.ports p).Dead → (s.ports p).txQueue.length + bytes.length ≤ queueSize) :
    ∃ acts t, Run Step s acts t ∧ t.cpus v = .inside (.done 0) := by
  induction bytes generalizing s with
  | nil => exact ⟨[], s, .refl, hcpu⟩
  | cons b bs ih =>
    obtain ⟨acts, c, hacts, hlt, hfits⟩ : ∃ acts c,
        Run ComPort.HandleStep (s.ports p) acts c ∧ c.txQueue.length < queueSize ∧
          (c.Dead → c.txQueue.length + 1 + bs.length ≤ queueSize) := by
      by_cases hdead : (s.ports p).Dead
      · have hle := hfit hdead
        rw [List.length_cons] at hle
        exact ⟨[], _, .refl, by omega, fun _ => by omega⟩
      · obtain ⟨acts, c, hrun, hlt, hlive, -⟩ := ComPort.exists_room (hok.ports p).txLength hdead
        exact ⟨acts, c, hrun, hlt, fun hdead => absurd hdead hlive⟩
    have hrun := run_handlers hacts
    have hwrite : c.write b = some { c with
        txQueue := c.txQueue ++ [some b], guestWrote := c.guestWrote ++ [b] } := if_pos hlt
    have hstep : Step (s.setPort p c) (.serve v) (((s.setPort p c).setPort p { c with
        txQueue := c.txQueue ++ [some b], guestWrote := c.guestWrote ++ [b] }).goto v
          (.inside (.ofBytes p bs))) := by
      simp only [Step, Controller.step, cpus_setPort, hcpu, Job.ofBytes, ports_setPort, if_true,
        hwrite, Option.map_some]
    obtain ⟨acts', t, hrun', ht⟩ := ih ((hok.run hrun).step hstep) (by simp) (by
      intro hdead
      simpa using hfits (by simpa [ComPort.Dead] using hdead))
    exact ⟨_, t, (hrun.tail hstep).append hrun', ht⟩

variable {job : Job}

/-- An access that is not stuck gets to its end. -/
theorem exists_done (hok : Ok s) (hcpu : s.cpus v = .inside job)
    (hstuck : ¬ s.Stuck job) : ∃ acts t value, Run Step s acts t ∧
      t.cpus v = .inside (.done value) := by
  cases job with
  | done value => exact ⟨[], s, value, .refl, hcpu⟩
  | write p b bs =>
    obtain ⟨acts, t, hrun, ht⟩ := exists_written hok (b :: bs) hcpu (by
      intro hdead
      have hle : ¬ queueSize < (s.ports p).txQueue.length + 1 + bs.length :=
        fun hlt => hstuck ⟨hdead, hlt⟩
      rw [List.length_cons]
      omega)
    exact ⟨acts, t, 0, hrun, ht⟩
  | read p =>
    obtain ⟨acts, c, x, hacts, hread⟩ := ComPort.exists_byte (hok.ports p) hstuck
    have hstep : Step (s.setPort p c) (.serve v)
        (((s.setPort p c).setPort p x.2).goto v (.inside (.done x.1))) := by
      simp only [Step, Controller.step, cpus_setPort, hcpu, ports_setPort, if_true, hread,
        Option.map_some]
    exact ⟨_, _, x.1, (run_handlers hacts).tail hstep, by simp⟩

/-- The threads of a port cannot help. -/
theorem Stuck.handler {a : HandlerAct} (hok : Ok s) (hstuck : s.Stuck job)
    (hhandle : (s.ports p).handle a = some c) : (s.setPort p c).Stuck job := by
  have hfull := ((hok.ports p).handle hhandle).txLength
  cases job with
  | done value => exact hstuck
  | read q =>
    obtain ⟨hempty, hrx, hdead, hlen⟩ := hstuck
    by_cases hq : q = p
    · subst hq
      obtain ⟨hdead', hle, hkept⟩ := hdead.handle hhandle
      obtain ⟨hrx', hq'⟩ := hkept hrx hlen
      simp only [Stuck, ports_setPort, if_true]
      exact ⟨hq'.trans hempty, hrx', hdead', by omega⟩
    · simp only [Stuck, ports_setPort, if_neg hq]
      exact ⟨hempty, hrx, hdead, hlen⟩
  | write q b bs =>
    obtain ⟨hdead, hlt⟩ := hstuck
    by_cases hq : q = p
    · subst hq
      obtain ⟨hdead', hle, -⟩ := hdead.handle hhandle
      simp only [Stuck, ports_setPort, if_true]
      exact ⟨hdead', by omega⟩
    · simp only [Stuck, ports_setPort, if_neg hq]
      exact ⟨hdead, hlt⟩

/-- **An access that is stuck** stays so. -/
theorem Stuck.step {a : Act} (hok : Ok s) (hcpu : s.cpus v = .inside job)
    (hstuck : s.Stuck job) (hstep : Step s a t) :
    (∀ w value, a ≠ .ret w value) ∧ ∃ job', t.cpus v = .inside job' ∧ t.Stuck job' := by
  have hlock := hok.lock v job hcpu
  have halone : ∀ w job', s.cpus w = .inside job' → w = v := fun w job' hw =>
    Option.some.inj ((hok.lock w job' hw).symm.trans hlock)
  cases Step.moves hstep with
  | @call w r hidle =>
    have hne : v ≠ w := fun heq => by simp [heq, hidle] at hcpu
    exact ⟨by simp, job, by simp [hne, hcpu], hstuck⟩
  | acquire _ hfree => cases hfree.symm.trans hlock
  | @read w q x hw hread =>
    obtain rfl := halone w _ hw
    cases hcpu.symm.trans hw
    rw [ComPort.read, hstuck.1] at hread
    cases hread
  | @write w q b bs c hw hwrite =>
    obtain rfl := halone w _ hw
    cases hcpu.symm.trans hw
    obtain ⟨hroom, hc⟩ := Option.ite_none_right_eq_some.1 hwrite
    cases hc
    obtain ⟨hdead, hlt⟩ := hstuck
    cases bs with
    | nil => simp at hlt; omega
    | cons b' bs =>
      refine ⟨by simp, .write q b' bs, by simp [Job.ofBytes], ?_⟩
      simp only [Stuck, ports_goto, ports_setPort, if_true, List.length_append,
        List.length_cons, List.length_nil] at hlt ⊢
      exact ⟨hdead, by omega⟩
  | @ret w value hw =>
    obtain rfl := halone w _ hw
    cases hcpu.symm.trans hw
    exact hstuck.elim
  | @handler q a c hhandle =>
    exact ⟨by simp, job, hcpu, hstuck.handler hok hhandle⟩

/-- **Who is answered.**  In every state of every run in which an access is inside the lock,
some access can be answered again, by whatever the clients do, if and only if that access
is not stuck. -/
theorem serial_answers_iff {acts : List Act} (hrun : Run Step init acts s)
    (hcpu : s.cpus v = .inside job) :
    (∃ later t w value, Run Step s (later ++ [.ret w value]) t) ↔ ¬ s.Stuck job := by
  have hok : Ok s := Ok.init.run hrun
  constructor
  · rintro ⟨later, t, w, value, hlater⟩ hstuck
    obtain ⟨u, hu, hret⟩ := hlater.concat_inv
    have hinv : Ok u ∧ ∃ job, u.cpus v = .inside job ∧ u.Stuck job :=
      hu.invariant (I := fun u => Ok u ∧ ∃ job, u.cpus v = .inside job ∧ u.Stuck job)
        (fun _ _ _ ⟨hs, _, hcpu, hstuck⟩ hstep =>
          ⟨hs.step hstep, (Stuck.step hs hcpu hstuck hstep).2⟩) ⟨hok, job, hcpu, hstuck⟩
    obtain ⟨hu, job', hcpu', hstuck'⟩ := hinv
    exact (Stuck.step hu hcpu' hstuck' hret).1 w value rfl
  · intro hstuck
    obtain ⟨later, u, value, hlater, hdone⟩ := exists_done hok hcpu hstuck
    have hret : Step u (.ret v value) ({ u with lock := none }.goto v .idle) := by
      simp [Step, Controller.step, hdone]
    exact ⟨later, _, v, value, hlater.tail hret⟩

/-- A whole access that writes four bytes. -/
def writeFour : List Act :=
  [.call 0 ⟨0x3F8, true, 4, 0, by decide⟩, .acquire 0, .serve 0, .serve 0, .serve 0, .serve 0,
    .ret 0 0]

/-- A client is gone when it is sent the first byte, and the guest goes on writing. -/
def stall : List Act :=
  [.handler false .txAccept] ++ writeFour ++ [.handler false .txGet, .handler false (.txSend false)] ++
    (List.replicate 31 writeFour).flatten ++ writeFour.take 2

/-- The thread and the queue of COM1, and what the access of a virtual CPU has left to do. -/
def stalled (s : Controller) : Tx × Nat × Option Job :=
  ((s.ports false).tx, (s.ports false).txQueue.length, match s.cpus 0 with
    | .inside job => some job
    | _ => none)

/-- Then no access is answered any more. -/
theorem serial_stalls : ∃ s, Run Step init stall s ∧
    ¬ ∃ later t w value, Run Step s (later ++ [.ret w value]) t := by
  have hstalled : (exec step init stall).map stalled =
      some (.dead 0, 127, some (.write false 0 [0, 0, 0])) := by
    decide +kernel
  obtain ⟨s, hs, hstalled⟩ := Option.map_eq_some_iff.1 hstalled
  have hrun := (run_iff_exec step).2 hs
  simp only [stalled, Prod.mk.injEq] at hstalled
  obtain ⟨htx, hlen, hjob⟩ := hstalled
  split at hjob
  next job hcpu =>
    cases hjob
    refine ⟨s, hrun, fun h => (serial_answers_iff hrun hcpu).1 h ⟨⟨0, htx⟩, ?_⟩⟩
    rw [hlen]
    decide
  next => cases hjob

end Controller

end Ooows.Serial
