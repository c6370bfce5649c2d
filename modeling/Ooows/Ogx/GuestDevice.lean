import Ooows.Ogx.Event
import Ooows.Ogx.Isolation
import Ooows.Virtio.Descriptors
import Ooows.Virtio.UsedRing

/-!
# Ooows.Ogx.GuestDevice

The O(OO)GX device as it runs: the thread that serves the guest, the four workers of the pool
that run payloads, and the thread that hands out their responses.

`main` schedules the flag enclave before it serves the guest; a worker starts it when it
comes to it.  `Enclave::Execute` is cut where another thread can come in between, and the
pieces make up the `execute` of `Ooows.Ogx.Enclave` (`execute_eq`).  What a payload returns
and leaves in its regions is up to the run.

A load event that was accepted has a ticket: its number.  Ticket 0 is the flag enclave's.
-/

namespace Ooows.Ogx

open Lib Virtio

/-! ## the pieces of `Execute` -/

namespace Enclave

/-- The code and data are loaded, or are too large. -/
def load (e : Enclave) (code data : Bytes) : Option String × Enclave :=
  if code.length > regionSize then (some (sizeExceeded "code" code.length), e)
  else
    let e := { e with code := memcpy zeroed code }
    if data.length > regionSize then (some (sizeExceeded "data" data.length), e)
    else (none, { e with data := memcpy e.baseData data })

/-- The exit flag is reset before the code is called. -/
def start (e : Enclave) : Enclave := { e with data := Function.update e.data exitOffset 0 }

/-- What is returned and cleaned up after the code was run. -/
def finish (e : Enclave) (outcome : Int32 × Region × Region) : Bytes × Enclave :=
  let cleaned := { e with code := zeroed, data := zeroed, stack := zeroed }
  if 0 < outcome.1 ∧ outcome.1 < 128 then
    ((List.range outcome.1.toNatClampNeg).map (byteAt outcome.2.1), cleaned)
  else if outcome.1 < 0 then ([], { e with data := outcome.2.1, stack := outcome.2.2 })
  else ([], cleaned)

theorem finish_eq (e : Enclave) (outcome : Int32 × Region × Region) :
    e.finish outcome = (resultOf outcome,
      if outcome.1 < 0 then ⟨e.code, outcome.2.1, outcome.2.2, e.flag⟩
      else ⟨zeroed, zeroed, zeroed, e.flag⟩) := by
  unfold finish resultOf
  by_cases hpos : 0 < outcome.1 ∧ outcome.1 < 128
  · have hneg : ¬ outcome.1 < 0 := by
      have hlt := hpos.1
      have hzero : (0 : Int32).toInt = 0 := rfl
      rw [Int32.lt_iff_toInt_lt] at hlt ⊢
      omega
    rw [if_pos hpos, if_pos hpos, if_neg hneg]
  · rw [if_neg hpos, if_neg hpos]
    split <;> rfl

/-- **The pieces make up `execute`.** -/
theorem execute_eq (e : Enclave) (unprivileged : Bool) (call : Call) :
    e.execute unprivileged call =
      match e.load call.code call.data with
      | (some error, e) => (.error error, e, unprivileged)
      | (none, e) =>
        if unprivileged && hasIllegalInstruction e.code then
          (.error "found illegal instruction, aborting load", { e with code := zeroed },
            unprivileged)
        else
          let r := e.start.finish (call.payload e.start.code e.start.data e.start.stack)
          (.ok r.1, r.2, true) := by
  by_cases hcode : call.code.length > regionSize
  · rw [execute_code_size hcode, load, if_pos hcode]
  by_cases hdata : call.data.length > regionSize
  · rw [execute_data_size hcode hdata, load, if_neg hcode]
    dsimp only
    rw [if_pos hdata]
  have hload : e.load call.code call.data = (none,
      { e with code := memcpy zeroed call.code, data := memcpy e.baseData call.data }) := by
    rw [load, if_neg hcode]
    exact if_neg hdata
  rw [hload]
  dsimp only
  by_cases hrefused : Refused unprivileged call
  · rw [execute_refused hcode hdata hrefused]
    exact (if_pos hrefused).symm
  · rw [execute_run hcode hdata hrefused]
    refine Eq.trans ?_ (if_neg hrefused).symm
    rw [finish_eq]
    rfl

end Enclave

/-! ## the device -/

/-- A task of the pool. -/
structure Task where
  ticket : Nat
  event : LoadEvent

/-- The enclave that a task is for. -/
def Task.id (t : Task) : Fin numEnclaves := ⟨t.event.id.toNat, t.event.id_lt⟩

/-- Where a worker is. -/
inductive Worker
  /-- Waits for a task. -/
  | waiting
  /-- About to lock the enclave. -/
  | taken (t : Task)
  /-- About to load code and data. -/
  | entered (t : Task)
  /-- About to look for illegal instructions, if `unprivileged` is set. -/
  | loaded (t : Task)
  /-- About to set `unprivileged`. -/
  | screened (t : Task)
  /-- About to call the code. -/
  | marked (t : Task)
  | running (t : Task)
  /-- Out of `Execute`; about to keep the promise. -/
  | returned (t : Task) (result : Except String Bytes)

/-- The enclave whose mutex a worker holds. -/
def Worker.holds : Worker → Option (Fin numEnclaves)
  | waiting | taken _ | returned _ _ => none
  | entered t | loaded t | screened t | marked t | running t => some t.id

/-- An element of `enclave_futures_`. -/
structure Future where
  ticket : Nat
  id : UInt32
  sender : Bytes
  /-- `valid()`: the result was not taken yet. -/
  valid : Bool

/-- A response. -/
structure Answer where
  ticket : Nat
  id : UInt32
  sender : Bytes
  response : Bytes
  ciphertext : Bytes
  vbuf : VirtBuf
  /-- What the guest's memory holds at the buffer's address after both calls of `write`. -/
  frame : Bytes
  /-- After `put_buf` the guest finds the buffer in the used ring. -/
  returned : Bool

/-- Where the thread in `Execute` is. -/
inductive Collector
  /-- Without `device_mutex_`. -/
  | out
  /-- At an element of `enclave_futures_`. -/
  | visiting (i : Nat)
  /-- About to call `put_buf`. -/
  | returning (i : Nat) (a : Answer)

structure GuestDevice where
  virt : Virtio.Dev
  enclaves : Fin numEnclaves → Enclave
  unprivileged : Bool
  /-- `queue_` of the pool. -/
  queue : List Task
  workers : Fin 4 → Worker
  /-- The results of the tasks, by ticket. -/
  promises : Nat → Option (Except String Bytes)
  futures : List Future
  responseBuffers : List VirtBuf
  collector : Collector
  /-- The events that were accepted, with their senders. -/
  accepted : List (Bytes × LoadEvent)
  /-- The tasks whose code was called, and the code region at that time. -/
  executed : List (Task × Region)
  /-- The responses that were written. -/
  answers : List Answer

/-- What happens. -/
inductive Act
  /-- The guest reads or writes a register. -/
  | read (r : MmioRequest)
  | write (r : MmioRequest)
  /-- The guest changes its memory. -/
  | guest (mem : ByteMem)
  /-- A round of `got_data` for `VQ_READ`. -/
  | gotRead (uninit : UInt32)
  /-- A round of `got_data` for `VQ_WRITE`; `message_size` is not initialised. -/
  | gotWrite (uninit : UInt32) (messageSize : UInt16)
  /-- The next step of a worker, unless it runs a payload. -/
  | work (w : Fin 4)
  /-- A payload returns a value, and leaves its data and stack. -/
  | finish (w : Fin 4) (outcome : Int32 × Region × Region)
  /-- `Execute` locks `device_mutex_`. -/
  | lock
  /-- `Execute` looks at a future, or is done with all of them. -/
  | visit (nonce : Nonce)
  /-- `Execute` gives a response buffer back. -/
  | put

namespace GuestDevice

/-- `VQ_READ` and `VQ_WRITE`. -/
def vqRead : UInt16 := 0
def vqWrite : UInt16 := 1

variable (box : Box) (keys : KeyPair) (s : GuestDevice)

/-! ### the thread that serves the guest -/

/-- `OnLoadEvent`. -/
def onLoadEvent (sender : Bytes) (event : LoadEvent) : GuestDevice :=
  { s with
    queue := s.queue ++ [⟨s.accepted.length, event⟩]
    futures := s.futures ++ [⟨s.accepted.length, event.id, sender, true⟩]
    accepted := s.accepted ++ [(sender, event)] }

/-- `ReadDriverMessage` once the message is read; `none` if it has to wait for
`device_mutex_`. -/
def onMessage (message : Bytes) : Option GuestDevice :=
  match decrypt box keys.sec message with
  | .ok (sender, .load event) =>
    match s.collector with
    | .out => some (s.onLoadEvent sender event)
    | _ => none
  | _ => some s

/-- A round of `got_data` for `VQ_READ`. -/
def gotRead (uninit : UInt32) : Option GuestDevice :=
  match s.collector, s.virt.getBuf vqRead uninit with
  | .out, .ok (some vbuf, virt) =>
    some { s with virt := virt, responseBuffers := s.responseBuffers ++ [vbuf] }
  | .out, .ok (none, virt) => some { s with virt := virt }
  | _, _ => none

/-- A round of `got_data` for `VQ_WRITE`. -/
def gotWrite (uninit : UInt32) (messageSize : UInt16) : Option GuestDevice :=
  match s.virt.getBuf vqWrite uninit with
  | .error _ => none
  | .ok (none, virt) => some { s with virt := virt }
  | .ok (some vbuf, virt) =>
    let message := (readDriverMessage messageSize (.fresh virt.mem vbuf)).1
    match virt.putBuf vqWrite vbuf with
    | .error _ => none
    | .ok (_, virt) => onMessage box keys { s with virt := virt } message

/-! ### the workers -/

def setWorker (w : Fin 4) (p : Worker) : GuestDevice :=
  { s with workers := Function.update s.workers w p }

def setEnclave (id : Fin numEnclaves) (e : Enclave) : GuestDevice :=
  { s with enclaves := Function.update s.enclaves id e }

/-- No worker has the mutex of an enclave. -/
def Free (id : Fin numEnclaves) : Prop := ∀ w, (s.workers w).holds ≠ some id

instance (id : Fin numEnclaves) : Decidable (s.Free id) := inferInstanceAs (Decidable (∀ _, _))

/-- Code and data are loaded. -/
def load (w : Fin 4) (t : Task) : GuestDevice :=
  match (s.enclaves t.id).load t.event.code t.event.data with
  | (some error, e) => (s.setEnclave t.id e).setWorker w (.returned t (.error error))
  | (none, e) => (s.setEnclave t.id e).setWorker w (.loaded t)

/-- The sizes that `Execute` checks were checked by the constructor of the event. -/
theorem load_eq (w : Fin 4) (t : Task) : s.load w t =
    (s.setEnclave t.id ⟨memcpy zeroed t.event.code,
      memcpy (s.enclaves t.id).baseData t.event.data, (s.enclaves t.id).stack,
      (s.enclaves t.id).flag⟩).setWorker w (.loaded t) := by
  rw [load, Enclave.load, if_neg (Nat.not_lt.2 t.event.code_le)]
  dsimp only
  rw [if_neg (Nat.not_lt.2 t.event.data_le)]
  rfl

/-- The code is searched, if `unprivileged` is set. -/
def screen (w : Fin 4) (t : Task) : GuestDevice :=
  let e := s.enclaves t.id
  if s.unprivileged && hasIllegalInstruction e.code then
    (s.setEnclave t.id { e with code := zeroed }).setWorker w
      (.returned t (.error "found illegal instruction, aborting load"))
  else s.setWorker w (.screened t)

/-- The code is called. -/
def call (w : Fin 4) (t : Task) : GuestDevice :=
  let e := (s.enclaves t.id).start
  { (s.setEnclave t.id e).setWorker w (.running t) with
    executed := s.executed ++ [(t, e.code)] }

/-- What a worker does next; `none` if it waits, or its payload runs. -/
def work (w : Fin 4) : Option GuestDevice :=
  match s.workers w with
  | .waiting =>
    match s.queue with
    | [] => none
    | t :: queue => some { s.setWorker w (.taken t) with queue := queue }
  | .taken t => if s.Free t.id then some (s.setWorker w (.entered t)) else none
  | .entered t => some (s.load w t)
  | .loaded t => some (s.screen w t)
  | .screened t => some { s.setWorker w (.marked t) with unprivileged := true }
  | .marked t => some (s.call w t)
  | .running _ => none
  | .returned t result =>
    some { s.setWorker w .waiting with
      promises := Function.update s.promises t.ticket (some result) }

/-- A payload returns. -/
def finish (w : Fin 4) (outcome : Int32 × Region × Region) : Option GuestDevice :=
  match s.workers w with
  | .running t =>
    let r := (s.enclaves t.id).finish outcome
    some ((s.setEnclave t.id r.2).setWorker w (.returned t (.ok r.1)))
  | _ => none

/-! ### the thread in `Execute` -/

/-- The end of the loop: futures whose result was taken are removed. -/
def prune : GuestDevice := { s with futures := s.futures.filter (·.valid), collector := .out }

/-- The result of future `i` is taken.  An exception leaves the loop and skips `prune`. -/
def collect (i : Nat) (f : Future) (result : Except String Bytes) (vbuf : VirtBuf)
    (buffers : List VirtBuf) (nonce : Nonce) : GuestDevice :=
  let s := { s with futures := s.futures.set i { f with valid := false } }
  match result with
  | .error _ => { s with collector := .out }
  | .ok response =>
    match encrypt box (keys.pub box) keys.sec f.sender
      ((Event.response f.id response).serialize box.toCodec) nonce with
    | .error _ => { s with collector := .out }
    | .ok ciphertext =>
      let frame := writeFrame ciphertext (.fresh s.virt.mem vbuf)
      { s with
        virt := { s.virt with mem := frame.2.mem }
        responseBuffers := buffers
        collector := .returning i
          ⟨f.ticket, f.id, f.sender, response, ciphertext, vbuf,
            frame.2.mem.readBytes vbuf.guestAddr.toNat (2 + ciphertext.length), false⟩ }

/-- A round of the loop over `enclave_futures_`. -/
def visit (nonce : Nonce) : Option GuestDevice :=
  match s.collector with
  | .visiting i =>
    match s.responseBuffers, s.futures[i]? with
    | vbuf :: buffers, some f =>
      match f.valid, s.promises f.ticket with
      | true, some result => some (collect box keys s i f result vbuf buffers nonce)
      | _, _ => some { s with collector := .visiting (i + 1) }
    | _, _ => some s.prune
  | _ => none

/-- The guest finds a buffer in the used ring: the index has moved on, and the element that
`put_buf` has stored has the buffer's id. -/
def returnSeen (before after : Virtio.Dev) (vbuf : VirtBuf) : Bool :=
  (after.readyVq vqRead).any fun vq =>
    usedIdx after.mem vq = (usedIdx before.mem vq + 1) % 65536 ∧
      after.mem.load (usedElemAddr vq vq.size) 4 = vbuf.id.toNat

/-- The response buffer is put back. -/
def put : Option GuestDevice :=
  match s.collector with
  | .returning i a =>
    match s.virt.putBuf vqRead a.vbuf with
    | .error _ => none
    | .ok (_, virt) =>
      some { s with
        virt := virt
        answers := s.answers ++ [{ a with returned := returnSeen s.virt virt a.vbuf }]
        collector := .visiting (i + 1) }
  | _ => none

/-! ### all threads -/

/-- One step; `none` if it is not possible, or the process ends. -/
def step : Act → Option GuestDevice
  | .read r => (s.virt.mmioRead r.offset r.size).toOption.map fun _ => s
  | .write r => (s.virt.mmioWrite r.offset r.size r.data).toOption.map fun d =>
    { s with virt := d.1 }
  | .guest mem => some { s with virt := { s.virt with mem := mem } }
  | .gotRead uninit => s.gotRead uninit
  | .gotWrite uninit messageSize => gotWrite box keys s uninit messageSize
  | .work w => s.work w
  | .finish w outcome => s.finish w outcome
  | .lock =>
    match s.collector with
    | .out => some { s with collector := .visiting 0 }
    | _ => none
  | .visit nonce => visit box keys s nonce
  | .put => s.put

/-- The step relation. -/
def Step (s : GuestDevice) (a : Act) (t : GuestDevice) : Prop := step box keys s a = some t

/-- The device when the constructor is done. -/
def init (secret : Vector UInt8 4096) (vendorId : UInt32) (mem : ByteMem) : GuestDevice where
  -- there are two queues, no features and no configuration space
  virt := { Virtio.Dev.init 2 25 vendorId 0 mem with configSpaceSize := 0 }
  enclaves id := .init id.val secret
  unprivileged := false
  queue := []
  workers _ := .waiting
  promises _ := none
  futures := []
  responseBuffers := []
  collector := .out
  accepted := []
  executed := []
  answers := []

/-- The device when `main` begins to serve the guest: the flag enclave is scheduled. -/
def start (secret : Vector UInt8 4096) (flagEnclave : FlagEnclave) (vendorId : UInt32)
    (mem : ByteMem) : GuestDevice :=
  (init secret vendorId mem).onLoadEvent (keys.pub box)
    ⟨0, flagEnclave.code, [], zero_lt_numEnclaves, flagEnclave.fits, nil_fits⟩

/-! ## what a step can do -/

/-- The queues may be served, and all response buffers lie in the guest's memory. -/
structure Served (virt : Virtio.Dev) (buffers : List VirtBuf) : Prop where
  ready : Ready virt
  inside : ∀ vbuf ∈ buffers, Inside vbuf.guestAddr vbuf.len.toNat

/-- **The effects of a step.** -/
inductive Effect (s : GuestDevice) : Act → GuestDevice → Prop
  /-- Registers, memory and buffers. -/
  | serve (a : Act) (virt : Virtio.Dev) (buffers : List VirtBuf)
      (hserved : Served s.virt s.responseBuffers → Served virt buffers) :
      Effect s a { s with virt := virt, responseBuffers := buffers }
  /-- A load event is accepted. -/
  | accept (a : Act) (virt : Virtio.Dev) {sender : Bytes} (event : LoadEvent)
      (hserved : Served s.virt s.responseBuffers → Served virt s.responseBuffers)
      (hout : s.collector = .out) (hsize : sender.length = keyBytes)
      (hkey : (box.beforenm sender keys.sec).isSome = true) :
      Effect s a (onLoadEvent { s with virt := virt } sender event)
  | work {w : Fin 4} {t : GuestDevice} (h : s.work w = some t) : Effect s (.work w) t
  | finish {w : Fin 4} {outcome : Int32 × Region × Region} {t : GuestDevice}
      (h : s.finish w outcome = some t) : Effect s (.finish w outcome) t
  | lock (hout : s.collector = .out) : Effect s .lock { s with collector := .visiting 0 }
  /-- A future that is not ready, or whose result was taken. -/
  | skip {i : Nat} (nonce : Nonce) (hat : s.collector = .visiting i) :
      Effect s (.visit nonce) { s with collector := .visiting (i + 1) }
  /-- The end of the loop. -/
  | prune {i : Nat} (nonce : Nonce) (hat : s.collector = .visiting i) :
      Effect s (.visit nonce) s.prune
  /-- A result is taken. -/
  | collect {i : Nat} {f : Future} {result : Except String Bytes} {vbuf : VirtBuf}
      {buffers : List VirtBuf} (nonce : Nonce) (hat : s.collector = .visiting i)
      (hbuffers : s.responseBuffers = vbuf :: buffers) (hf : s.futures[i]? = some f)
      (hvalid : f.valid = true) (hresult : s.promises f.ticket = some result) :
      Effect s (.visit nonce) (collect box keys s i f result vbuf buffers nonce)
  /-- A response is given back. -/
  | put {i : Nat} {a : Answer} {returned : Bool} {virt : Virtio.Dev}
      (hat : s.collector = .returning i a)
      (hput : s.virt.putBuf vqRead a.vbuf = .ok (returned, virt)) :
      Effect s .put { s with
        virt := virt
        answers := s.answers ++ [{ a with returned := returnSeen s.virt virt a.vbuf }]
        collector := .visiting (i + 1) }

variable {box keys s} {t : GuestDevice} {a : Act}

theorem Served.of_keeps {virt virt' : Virtio.Dev} {buffers : List VirtBuf}
    (h : Served virt buffers) (hkeeps : Keeps virt virt') : Served virt' buffers :=
  ⟨h.ready.of_keeps hkeeps, h.inside⟩

/-- Memory may change. -/
theorem Served.withMem {virt : Virtio.Dev} {buffers : List VirtBuf} (h : Served virt buffers)
    (mem : ByteMem) : Served { virt with mem := mem } buffers :=
  h.of_keeps (.of_vqs_eq rfl id id)

theorem Served.getBuf {virt virt' : Virtio.Dev} {buffers : List VirtBuf} {vqIdx : UInt16}
    {uninit : UInt32} {got : Option VirtBuf} (h : Served virt buffers)
    (hget : virt.getBuf vqIdx uninit = .ok (got, virt')) :
    Served virt' buffers ∧ ∀ vbuf ∈ got, Inside vbuf.guestAddr vbuf.len.toNat := by
  obtain ⟨p, hp, hkeeps⟩ := getBuf_keeps h.ready vqIdx uninit
  cases hp.symm.trans hget
  refine ⟨h.of_keeps hkeeps, fun vbuf hvbuf => ?_⟩
  cases hready : virt.readyVq vqIdx with
  | none =>
    rw [Dev.getBuf, hready] at hget
    cases hget
    contradiction
  | some vq =>
    obtain ⟨-, hvq, hr⟩ := readyVq_eq hready
    have hok : QueueOk vq := hvq ▸ h.ready.queues _ (hvq.symm ▸ hr)
    obtain ⟨got', virt'', hget', -, htaken⟩ := getBuf_taken hready hok uninit
    cases hget'.symm.trans hget
    exact (htaken vbuf hvbuf).1.inside

theorem gotRead_effect {uninit : UInt32} (h : s.gotRead uninit = some t) :
    Effect box keys s (.gotRead uninit) t := by
  unfold gotRead at h
  split at h
  next vbuf virt _ hget =>
    cases h
    refine .serve _ virt _ fun hserved => ?_
    obtain ⟨hserved, hinside⟩ := hserved.getBuf hget
    refine ⟨hserved.ready, ?_⟩
    rw [List.forall_mem_append, List.forall_mem_singleton]
    exact ⟨hserved.inside, hinside vbuf rfl⟩
  next virt _ hget =>
    cases h
    exact .serve _ virt _ fun hserved => (hserved.getBuf hget).1
  next => contradiction

theorem gotWrite_effect {uninit : UInt32} {messageSize : UInt16}
    (h : gotWrite box keys s uninit messageSize = some t) :
    Effect box keys s (.gotWrite uninit messageSize) t := by
  unfold gotWrite at h
  split at h
  next => contradiction
  next virt hget =>
    cases h
    exact .serve _ virt _ fun hserved => (hserved.getBuf hget).1
  next vbuf _ hget =>
    dsimp only at h
    split at h
    next => contradiction
    next virt hput =>
      have hserves (hserved : Served s.virt s.responseBuffers) : Served virt s.responseBuffers := by
        have hgot := (hserved.getBuf hget).1
        obtain ⟨p, hp, hkeeps⟩ := putBuf_keeps hgot.ready vqWrite vbuf
        cases hp.symm.trans hput
        exact hgot.of_keeps hkeeps
      unfold onMessage at h
      split at h
      next sender event hdecrypt =>
        split at h
        next hout =>
          cases h
          obtain ⟨hsize, hkey⟩ := sender_of_decrypt hdecrypt
          exact .accept _ virt event hserves hout hsize hkey
        next => contradiction
      next => cases h; exact .serve _ virt _ hserves

theorem visit_effect {nonce : Nonce} (h : visit box keys s nonce = some t) :
    Effect box keys s (.visit nonce) t := by
  unfold visit at h
  split at h
  next i hat =>
    split at h
    next vbuf buffers f hbuffers hf =>
      split at h
      next result hvalid hresult =>
        cases h
        exact .collect nonce hat hbuffers hf hvalid hresult
      next => cases h; exact .skip nonce hat
    next => cases h; exact .prune nonce hat
  next => contradiction

/-- **Every step has one of the effects.** -/
theorem step_effect (h : Step box keys s a t) : Effect box keys s a t := by
  unfold Step step at h
  cases a with
  | read r =>
    obtain ⟨v, -, rfl⟩ := Option.map_eq_some_iff.1 h
    exact .serve _ s.virt s.responseBuffers id
  | write r =>
    obtain ⟨d, hwrite, rfl⟩ := Option.map_eq_some_iff.1 h
    refine .serve _ d.1 _ fun hserved => ?_
    obtain ⟨p, hp, hkeeps⟩ := mmioWrite_keeps hserved.ready r
    rw [hp] at hwrite
    cases hwrite
    exact hserved.of_keeps hkeeps
  | guest mem => cases h; exact .serve _ _ _ (·.withMem mem)
  | gotRead uninit => exact gotRead_effect h
  | gotWrite uninit messageSize => exact gotWrite_effect h
  | work w => exact .work h
  | finish w outcome => exact .finish h
  | lock =>
    dsimp only at h
    split at h
    next hout => cases h; exact .lock hout
    next => contradiction
  | visit nonce => exact visit_effect h
  | put =>
    dsimp only at h
    unfold put at h
    split at h
    next i a hat =>
      split at h
      next => contradiction
      next returned virt hput => cases h; exact .put hat hput
    next => contradiction

/-- The workers change nothing but the pool. -/
theorem work_eq {w : Fin 4} (h : s.work w = some t) :
    ∃ enclaves unprivileged queue workers promises executed,
      t = { s with
        enclaves := enclaves
        unprivileged := unprivileged
        queue := queue
        workers := workers
        promises := promises
        executed := executed } := by
  unfold work at h
  split at h
  next =>
    split at h
    next => contradiction
    next => cases h; exact ⟨_, _, _, _, _, _, rfl⟩
  next =>
    obtain ⟨-, h⟩ := Option.ite_none_right_eq_some.1 h
    cases h
    exact ⟨_, _, _, _, _, _, rfl⟩
  next =>
    cases h
    rw [load_eq]
    exact ⟨_, _, _, _, _, _, rfl⟩
  next =>
    cases h
    unfold screen
    dsimp only
    split <;> exact ⟨_, _, _, _, _, _, rfl⟩
  next => cases h; exact ⟨_, _, _, _, _, _, rfl⟩
  next => cases h; exact ⟨_, _, _, _, _, _, rfl⟩
  next => contradiction
  next => cases h; exact ⟨_, _, _, _, _, _, rfl⟩

theorem finish_eq {w : Fin 4} {outcome : Int32 × Region × Region}
    (h : s.finish w outcome = some t) :
    ∃ enclaves workers, t = { s with enclaves := enclaves, workers := workers } := by
  unfold finish at h
  split at h
  next => cases h; exact ⟨_, _, rfl⟩
  next => contradiction

/-- Taking a result changes nothing of the pool. -/
theorem collect_eq (box : Box) (keys : KeyPair) (s : GuestDevice) (i : Nat) (f : Future)
    (result : Except String Bytes) (vbuf : VirtBuf) (buffers : List VirtBuf) (nonce : Nonce) :
    ∃ virt buffers' collector, collect box keys s i f result vbuf buffers nonce =
      { s with
        virt := virt
        futures := s.futures.set i { f with valid := false }
        responseBuffers := buffers'
        collector := collector } := by
  unfold collect
  cases result with
  | error _ => exact ⟨_, _, _, rfl⟩
  | ok response =>
    dsimp only
    split <;> exact ⟨_, _, _, rfl⟩

/-! ## a guest with one event -/

/-- The queues that the guest sets up. -/
def readQueue : VirtQueue := sampleQueue 2
def writeQueue : VirtQueue :=
  ⟨2, true, 0, 0x110000, 0, 0x110400, 0, 0x110800, 0, 0x110000, 0x110400, 0x110800⟩

def writeReg (offset : UInt16) (data : UInt64) : Act :=
  .write ⟨offset.toUInt64, 4, data, halfOffset_lt offset, four_le_eight⟩

def setupActs : List Act :=
  [writeReg 0x30 0, writeReg 0x38 2, writeReg 0x80 0x100000, writeReg 0x90 0x100400,
    writeReg 0xa0 0x100800, writeReg 0x44 1, writeReg 0x30 1, writeReg 0x38 2,
    writeReg 0x80 0x110000, writeReg 0x90 0x110400, writeReg 0xa0 0x110800, writeReg 0x44 1]

/-- A message to a device with `zeroKeys`. -/
def messageOf (event : LoadEvent) : Bytes :=
  (encrypt plainBox (zeroKeys.pub plainBox) zeroKeys.sec (zeroKeys.pub plainBox)
    ((Event.load event).serialize plainBox.toCodec) zeroNonce).toOption.getD []

/-- A guest's memory with a response buffer, and a message for the device. -/
def guestMem (event : LoadEvent) : ByteMem :=
  (postAt (postAt (fun _ => 0) readQueue 0 0x130000 4096) writeQueue 0 0x120000 4096).writeBytes
    0x120000 (frame (messageOf event))

/-- The device of that guest. -/
def sampleStart (event : LoadEvent) : GuestDevice :=
  start plainBox zeroKeys (.replicate 4096 0) idleFlag 0 (guestMem event)

end GuestDevice

end Ooows.Ogx
