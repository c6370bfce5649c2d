import Ooows.P9.Decode
import Ooows.P9.Loops
import Ooows.P9.Response
import Ooows.Virtio.Ready

/-!
# Ooows.P9.Device

`P9FsDev`: the whole 9P device, from the guest's registers and buffers to its responses.

Three threads share it.  The bus thread serves the registers and, in `got_data`, takes
buffers from the two queues: messages become requests, buffers for responses are kept.
`RequestLoop` processes the requests, `ResponseLoop` writes the responses to the kept
buffers.  None of the threads catches an exception, so what `READ`, `WRITE` or
`new QidObject` throws ends the process; `Death` says why it ends.

* `step` is one step of one of the threads or of the guest, in any order;
* `harmless` is the condition: the blocks a message declares stay within its budget, a
  request does not examine what is not there, a response fits into its buffer;
* `survives_iff_harmless`: in every state that is reached without the walks that leave a fid
  bound to a deleted object (`cloneSafe`), a step does not end the device exactly under the
  condition, and a request that meets it is processed.
-/

namespace Ooows.P9

open Lib Lib.Path

/-- Why the process ends. -/
inductive Death
  /-- A fault of the transport. -/
  | transport (fault : Virtio.Fault)
  /-- A message is copied from behind the guest's memory. -/
  | badCopy
  /-- `READ` throws: the bus thread ends. -/
  | badMessage
  /-- `new QidObject` throws in a `TAttach`, or a `TStat` dereferences the null pointer
  of a fid that is not bound: the request thread ends. -/
  | badRequest
  /-- `WRITE` throws: the response thread ends. -/
  | shortBuffer
  deriving DecidableEq, Repr

structure P9FsDev where
  virt : Virtio.Dev
  core : Dev
  /-- `m_trequest_queue`. -/
  trequests : List TRequest
  /-- `m_rresponse_queue`. -/
  rresponses : List RResponse
  /-- `m_rmesgvbuf_queue`. -/
  rmesgVbufs : List Virtio.VirtBuf

namespace P9FsDev

/-- `VIRTIO_9P_TRANSPORT`. -/
def virtio9pTransport : UInt32 := 9

/-- `NUM_9P_VQS`. -/
def num9pVqs : UInt32 := 2

/-- `VQ_TMESG`. -/
def vqTmesg : UInt16 := 0

/-- `VQ_RMESG`. -/
def vqRmesg : UInt16 := 1

/-- The device that `set_config_space(NULL, 0)` is called for. -/
def transportDev (vendorId : UInt32) (mem : ByteMem) : Virtio.Dev :=
  .init num9pVqs virtio9pTransport vendorId 0 mem

/-- `P9FsDev`. -/
def init (vendorId : UInt32) (mem : ByteMem) (host : Host) (mountpoint : Bytes) : P9FsDev where
  virt := ((transportDev vendorId mem).setConfigSpace []).getD (transportDev vendorId mem)
  core := .init host false (ascii ['s', 'h', 'a', 'r', 'e']) mountpoint
  trequests := []
  rresponses := []
  rmesgVbufs := []

/-- What happens to the device.  `got_data` is called by the bus thread when the guest
notifies it; here one round of its loop may happen at any time, for any queue. -/
inductive Act
  | read (r : Virtio.MmioRequest)
  | write (r : Virtio.MmioRequest)
  /-- The guest changes its memory. -/
  | guest (mem : ByteMem)
  | gotData (vqIdx : UInt16) (uninit : UInt32) (u : Leftover)
  /-- A round of `RequestLoop`. -/
  | request (env : Env)
  /-- A round of `ResponseLoop`. -/
  | response

/-- The buffer from `host_addr(0)` on. -/
def hostAddr (mem : ByteMem) (vbuf : Virtio.VirtBuf) : ByteMem :=
  fun i => mem (vbuf.guestAddr.toNat + i)

/-- The `memcpy` of `handleTMesg` stays inside the guest's memory. -/
def copyInside (buf : ByteMem) (vbuf : Virtio.VirtBuf) : Prop :=
  vbuf.guestAddr.toNat + pktSize buf ≤ Virtio.guestEndPaddr.toNat

instance (buf : ByteMem) (vbuf : Virtio.VirtBuf) : Decidable (copyInside buf vbuf) :=
  inferInstanceAs (Decidable (_ ≤ _))

/-- The two sizes pass the checks of `handleTMesg`. -/
def sizesOk (buf : ByteMem) (vbuf : Virtio.VirtBuf) : Prop :=
  sizeofPkt ≤ vbuf.len.toNat ∧ sizeofPkt ≤ pktSize buf

instance (buf : ByteMem) (vbuf : Virtio.VirtBuf) : Decidable (sizesOk buf vbuf) :=
  inferInstanceAs (Decidable (_ ∧ _))

/-- `handleTMesg` and the request it queues, if any. -/
def received (u : Leftover) (buf : ByteMem) (vbuf : Virtio.VirtBuf) :
    Except Death (Option TRequest) :=
  if sizesOk buf vbuf ∧ ¬ copyInside buf vbuf then .error .badCopy
  else match handleTMesg u buf vbuf.len with
    | .refused | .ignored => .ok none
    | .thrown => .error .badMessage
    | .queued r => .ok (some r)

/-- A result of the transport. -/
def transport {α : Type} (x : Except Virtio.Fault α) : Except Death α := x.mapError .transport

/-- What `got_data` does with a buffer that `get_buf` has taken. -/
def took (s : P9FsDev) (vqIdx : UInt16) (u : Leftover) (vbuf : Virtio.VirtBuf)
    (virt : Virtio.Dev) : Except Death P9FsDev :=
  if vqIdx = vqTmesg then
    match received u (hostAddr s.virt.mem vbuf) vbuf with
    | .error death => .error death
    | .ok r => (transport (virt.putBuf vqIdx vbuf)).map fun put =>
      { s with virt := put.2, trequests := s.trequests ++ r.toList }
  else if vqIdx = vqRmesg then
    .ok { s with virt := virt, rmesgVbufs := s.rmesgVbufs ++ [vbuf] }
  else .ok { s with virt := virt }

/-- A round of the loop in `got_data`. -/
def gotData (s : P9FsDev) (vqIdx : UInt16) (uninit : UInt32) (u : Leftover) :
    Except Death P9FsDev :=
  match transport (s.virt.getBuf vqIdx uninit) with
  | .error death => .error death
  | .ok (none, virt) => .ok { s with virt := virt }
  | .ok (some vbuf, virt) => s.took vqIdx u vbuf virt

/-- `Process`, in a round of `RequestLoop`. -/
def processed (s : P9FsDev) (env : Env) (r : TRequest) (rs : List TRequest) :
    Except Death P9FsDev :=
  match Dev.process env r s.core with
  | none => .error .badRequest
  | some (core, resp) =>
    .ok { s with core := core, trequests := rs, rresponses := s.rresponses ++ resp.toList }

/-- The guest's memory changes. -/
def withMem (virt : Virtio.Dev) (mem : ByteMem) : Virtio.Dev := { virt with mem := mem }

/-- What a round of `ResponseLoop` does with a response and a buffer. -/
def sent (s : P9FsDev) (r : RResponse) (vbuf : Virtio.VirtBuf) : Except Death (Dev × Virtio.Dev) :=
  let m := RMesg.ofBody s.core r.body
  match m.serializeTo r.tag vbuf.len.toNat with
  | none => .error .shortBuffer
  | some bytes =>
    let virt := withMem s.virt (s.virt.mem.writeBytes vbuf.guestAddr.toNat bytes)
    (transport (virt.putBuf vqRmesg { vbuf with nbytesWritten := m.serializedSize })).map
      fun put => (Loops.destroyResponse r s.core, put.2)

/-- One step: `none` if the thread waits for a queue. -/
def step (s : P9FsDev) : Act → Option (Except Death P9FsDev)
  | .read r => some ((transport (s.virt.mmioRead r.offset r.size)).map fun _ => s)
  | .write r => some ((transport (s.virt.mmioWrite r.offset r.size r.data)).map fun p =>
    { s with virt := p.1 })
  | .guest mem => some (.ok { s with virt := withMem s.virt mem })
  | .gotData vqIdx uninit u => some (s.gotData vqIdx uninit u)
  | .request env =>
    match s.trequests with
    | [] => none
    | r :: rs => some (s.processed env r rs)
  | .response =>
    match s.rresponses, s.rmesgVbufs with
    | r :: rs, vbuf :: vbufs => some ((s.sent r vbuf).map fun x =>
      { s with core := x.1, virt := x.2, rresponses := rs, rmesgVbufs := vbufs })
    | _, _ => none

/-- The steps the device survives. -/
abbrev Step (s : P9FsDev) (a : Act) (t : P9FsDev) : Prop := s.step a = some (.ok t)

/-! ## the condition -/

/-- A message that is not refused is copied from inside the guest's memory, and the
blocks its fields declare stay within the budget its constructor starts with. -/
def messageOk (u : Leftover) (buf : ByteMem) (vbuf : Virtio.VirtBuf) : Prop :=
  sizesOk buf vbuf → copyInside buf vbuf ∧
    ∀ f ∈ toTRequest u (rawMsg u buf 0), ∀ e ∈ f.ends (rawBody u buf) 0, e ≤ pktSize buf

/-- The response fits into the buffer. -/
def responseOk (core : Dev) (r : RResponse) (vbuf : Virtio.VirtBuf) : Prop :=
  7 + (RMesg.ofBody core r.body).bodyLength ≤ vbuf.len.toNat

/-- **The condition** on the state and the step: the next message, the next request, or
the next response and its buffer. -/
def harmless (s : P9FsDev) : Act → Prop
  | .gotData vqIdx uninit u => vqIdx = vqTmesg →
      ∀ vbuf virt, s.virt.getBuf vqIdx uninit = .ok (some vbuf, virt) →
        messageOk u (hostAddr s.virt.mem vbuf) vbuf
  | .request env => ∀ r ∈ s.trequests.head?, Dev.returns env s.core r.msg
  | .response => ∀ r ∈ s.rresponses.head?, ∀ vbuf ∈ s.rmesgVbufs.head?, responseOk s.core r vbuf
  | _ => True

/-- The next request is not one of the walks that leave a fid bound to a deleted object. -/
def cloneSafe (s : P9FsDev) : Act → Bool
  | .request _ => s.trequests.head?.all fun r => s.core.cloneSafe r.msg
  | _ => true

/-- The steps the device survives with all its fids bound to live objects. -/
abbrev SafeStep : P9FsDev → Act → P9FsDev → Prop := Guarded (fun s a => s.cloneSafe a) Step

/-! ## the three threads -/

variable {s t : P9FsDev} {u : Leftover} {buf : ByteMem} {vbuf : Virtio.VirtBuf}

/-- An operation that succeeds under a condition, and ends the process otherwise. -/
def Decides {α : Type} (c : Prop) (good : α → Prop) (x : Except Death α) : Prop :=
  (c ∧ ∃ a, x = .ok a ∧ good a) ∨ (¬ c ∧ ∃ death, x = .error death)

/-- A refused message has no effect. -/
theorem handleTMesg_of_not_sizesOk (h : ¬ sizesOk buf vbuf) :
    handleTMesg u buf vbuf.len = .refused := by
  unfold sizesOk at h
  unfold handleTMesg
  split
  next => rfl
  next hlen => rw [if_pos (by omega)]

/-- **A message** ends the bus thread exactly if it is copied from behind the memory, or
declares a block behind its budget. -/
theorem received_decides (u : Leftover) (buf : ByteMem) (vbuf : Virtio.VirtBuf) :
    Decides (messageOk u buf vbuf) (fun _ => True) (received u buf vbuf) := by
  by_cases hsizes : sizesOk buf vbuf
  · by_cases hcopy : copyInside buf vbuf
    · have hlen : ¬ vbuf.len.toNat < sizeofPkt := Nat.not_lt.2 hsizes.1
      have hsize : ¬ pktSize buf < sizeofPkt := Nat.not_lt.2 hsizes.2
      cases hf : toTRequest u (rawMsg u buf 0) with
      | none =>
        refine .inl ⟨fun _ => ⟨hcopy, by simp [hf]⟩, none, ?_, trivial⟩
        simp [received, handleTMesg, hcopy, hlen, hsize, hf]
      | some f =>
        have hthrow : (construct u buf f).1 = none ↔
            ∃ e ∈ f.ends (rawBody u buf) 0, pktSize buf < e := construct_eq_none_iff
        cases hmsg : (construct u buf f).1 with
        | none =>
          obtain ⟨e, he, hlt⟩ := hthrow.1 hmsg
          refine .inr ⟨fun hok => ?_, .badMessage, ?_⟩
          · have := (hok hsizes).2 f hf e he
            omega
          · simp [received, handleTMesg, hcopy, hlen, hsize, hf, hmsg]
        | some msg =>
          refine .inl ⟨fun _ => ⟨hcopy, fun g hg e he => ?_⟩,
            some ⟨UInt16.ofNat ((rawMsg u buf).load 1 2), msg⟩, ?_, trivial⟩
          · obtain rfl : f = g := Option.some.inj (hf.symm.trans hg)
            refine Nat.le_of_not_lt fun hlt => ?_
            rw [hthrow.2 ⟨e, he, hlt⟩] at hmsg
            contradiction
          · simp [received, handleTMesg, hcopy, hlen, hsize, hf, hmsg]
    · exact .inr ⟨fun hok => hcopy (hok hsizes).1, .badCopy, by simp [received, hsizes, hcopy]⟩
  · refine .inl ⟨fun h => absurd h hsizes, none, ?_, trivial⟩
    simp [received, hsizes, handleTMesg_of_not_sizesOk hsizes]

/-- The transport never faults, so its results pass. -/
theorem transport_ok {α : Type} {x : Except Virtio.Fault α} {a : α} (h : x = .ok a) :
    transport x = .ok a := by
  rw [h]
  rfl

/-- The bus thread with a buffer. -/
theorem took_decides {virt : Virtio.Dev} (h : Virtio.Ready virt) (vqIdx : UInt16)
    (u : Leftover) (vbuf : Virtio.VirtBuf) :
    Decides (vqIdx = vqTmesg → messageOk u (hostAddr s.virt.mem vbuf) vbuf)
      (fun t => Virtio.Ready t.virt) (s.took vqIdx u vbuf virt) := by
  unfold took
  by_cases htmesg : vqIdx = vqTmesg
  · rw [if_pos htmesg]
    cases received_decides u (hostAddr s.virt.mem vbuf) vbuf with
    | inl hgood =>
      obtain ⟨hok, r, hr, -⟩ := hgood
      obtain ⟨put, hput, hkeeps⟩ := Virtio.putBuf_keeps h vqIdx vbuf
      rw [hr, transport_ok hput]
      exact .inl ⟨fun _ => hok, _, rfl, h.of_keeps hkeeps⟩
    | inr hdead =>
      obtain ⟨hbad, death, hdeath⟩ := hdead
      rw [hdeath]
      exact .inr ⟨fun hok => hbad (hok htmesg), death, rfl⟩
  · rw [if_neg htmesg]
    refine .inl ⟨fun heq => absurd heq htmesg, ?_⟩
    split <;> exact ⟨_, rfl, h⟩

/-- **The bus thread.** -/
theorem gotData_decides (h : Virtio.Ready s.virt) (vqIdx : UInt16) (uninit : UInt32)
    (u : Leftover) : Decides (s.harmless (.gotData vqIdx uninit u))
      (fun t => Virtio.Ready t.virt) (s.gotData vqIdx uninit u) := by
  obtain ⟨⟨got, virt⟩, hget, hkeeps⟩ := Virtio.getBuf_keeps h vqIdx uninit
  have hready : Virtio.Ready virt := h.of_keeps hkeeps
  simp only [harmless, gotData, transport_ok hget]
  cases got with
  | none => exact .inl ⟨fun _ _ _ heq => by simp [hget] at heq, _, rfl, hready⟩
  | some vbuf =>
    refine (took_decides hready vqIdx u vbuf).imp (And.imp_left fun hok htmesg => ?_)
      (And.imp_left fun hbad hok => hbad fun htmesg => hok htmesg vbuf virt hget)
    intro vbuf' virt' hget'
    rw [hget] at hget'
    cases hget'
    exact hok htmesg

/-- **The request thread.** -/
theorem processed_decides (h : Virtio.Ready s.virt) (env : Env) (r : TRequest)
    (rs : List TRequest) : Decides (Dev.returns env s.core r.msg)
      (fun t => Virtio.Ready t.virt ∧ t.trequests = rs) (s.processed env r rs) := by
  have hnone := Dev.process_eq_none_iff env r s.core
  unfold processed
  cases hp : Dev.process env r s.core with
  | none => exact .inr ⟨by simp [hnone.1 hp], _, rfl⟩
  | some x =>
    refine .inl ⟨?_, _, rfl, h, rfl⟩
    by_contra hbad
    rw [hnone.2 (by simpa using hbad)] at hp
    contradiction

/-- **The response thread.** -/
theorem sent_decides (h : Virtio.Ready s.virt) (r : RResponse) (vbuf : Virtio.VirtBuf) :
    Decides (responseOk s.core r vbuf) (fun x => Virtio.Ready x.2) (s.sent r vbuf) := by
  unfold sent
  dsimp only
  rw [RMesg.serializeTo_eq]
  by_cases hfits : 7 + (RMesg.ofBody s.core r.body).bodyLength ≤ vbuf.len.toNat
  · rw [if_pos hfits]
    have hmem (mem : ByteMem) : Virtio.Ready (withMem s.virt mem) :=
      h.of_keeps (.of_vqs_eq rfl id id)
    obtain ⟨put, hput, hkeeps⟩ := Virtio.putBuf_keeps (hmem _) vqRmesg _
    dsimp only
    rw [transport_ok hput]
    exact .inl ⟨hfits, _, rfl, (hmem _).of_keeps hkeeps⟩
  · rw [if_neg hfits]
    exact .inr ⟨hfits, .shortBuffer, rfl⟩

/-! ## every step -/

/-- **A step** waits for its thread, or it ends the process exactly if it is not harmless. -/
theorem step_decides (h : Virtio.Ready s.virt) (a : Act) :
    (s.harmless a ∧ s.step a = none) ∨
      ∃ x, s.step a = some x ∧ Decides (s.harmless a) (fun t => Virtio.Ready t.virt) x := by
  cases a with
  | read r =>
    obtain ⟨v, hv⟩ := Virtio.mmioRead_ok h r
    refine .inr ⟨_, rfl, .inl ⟨trivial, s, ?_, h⟩⟩
    rw [transport_ok hv]
    rfl
  | write r =>
    obtain ⟨p, hp, hkeeps⟩ := Virtio.mmioWrite_keeps h r
    refine .inr ⟨_, rfl, .inl ⟨trivial, { s with virt := p.1 }, ?_, h.of_keeps hkeeps⟩⟩
    rw [transport_ok hp]
    rfl
  | guest mem => exact .inr ⟨_, rfl, .inl ⟨trivial, _, rfl, h.of_keeps (.of_vqs_eq rfl id id)⟩⟩
  | gotData vqIdx uninit u => exact .inr ⟨_, rfl, gotData_decides h vqIdx uninit u⟩
  | request env =>
    cases hq : s.trequests with
    | nil => exact .inl (by simp [harmless, step, hq])
    | cons r rs =>
      refine .inr ⟨s.processed env r rs, by simp [step, hq], ?_⟩
      have hrequest := processed_decides h env r rs
      simp [Decides, harmless, hq] at hrequest ⊢
      grind
  | response =>
    cases hq : s.rresponses with
    | nil => exact .inl (by simp [harmless, step, hq])
    | cons r rs =>
      cases hv : s.rmesgVbufs with
      | nil => exact .inl (by simp [harmless, step, hq, hv])
      | cons vbuf vbufs =>
        have hstep : s.step .response = some ((s.sent r vbuf).map fun x =>
            { s with core := x.1, virt := x.2, rresponses := rs, rmesgVbufs := vbufs }) := by
          simp [step, hq, hv]
        have hharm : s.harmless .response ↔ responseOk s.core r vbuf := by
          simp [harmless, hq, hv]
        refine .inr ⟨_, hstep, ?_⟩
        cases sent_decides h r vbuf with
        | inl hgood =>
          obtain ⟨hok, x, hx, hready⟩ := hgood
          rw [hx]
          exact .inl ⟨hharm.2 hok, _, rfl, hready⟩
        | inr hdead =>
          obtain ⟨hbad, death, hdeath⟩ := hdead
          rw [hdeath]
          exact .inr ⟨fun hok => hbad (hharm.1 hok), death, rfl⟩

theorem ready_of_step {a : Act} (h : Virtio.Ready s.virt) (hstep : Step s a t) :
    Virtio.Ready t.virt := by
  rcases step_decides h a with ⟨-, hnone⟩ | ⟨x, hx, hgood | hdead⟩
  · rw [Step, hnone] at hstep
    contradiction
  · obtain ⟨-, t', rfl, hready⟩ := hgood
    cases hx.symm.trans hstep
    exact hready
  · obtain ⟨-, death, rfl⟩ := hdead
    cases hx.symm.trans hstep

/-- What a step does to the core of the device and to its queues. -/
inductive Stepped (s t : P9FsDev) : Act → Prop
  | quiet {a : Act} (hgot : ∀ vqIdx uninit u, a ≠ .gotData vqIdx uninit u) (hsent : a ≠ .response)
      (hcore : t.core = s.core) (hreq : t.trequests = s.trequests)
      (hresp : t.rresponses = s.rresponses) (hbufs : t.rmesgVbufs = s.rmesgVbufs) : Stepped s t a
  | gotData {vqIdx : UInt16} {uninit : UInt32} {u : Leftover}
      (hgot : s.gotData vqIdx uninit u = .ok t) : Stepped s t (.gotData vqIdx uninit u)
  | request {env : Env} {r : TRequest} {resp : Option RResponse}
      (hq : s.trequests = r :: t.trequests) (hp : s.core.process env r = some (t.core, resp))
      (hresp : t.rresponses = s.rresponses ++ resp.toList)
      (hbufs : t.rmesgVbufs = s.rmesgVbufs) : Stepped s t (.request env)
  | response {r : RResponse} {vbuf : Virtio.VirtBuf} (hreq : t.trequests = s.trequests)
      (hresp : s.rresponses = r :: t.rresponses) (hbufs : s.rmesgVbufs = vbuf :: t.rmesgVbufs)
      (hsent : s.sent r vbuf = .ok (t.core, t.virt)) : Stepped s t .response

theorem stepped_of_step {a : Act} (hstep : Step s a t) : Stepped s t a := by
  cases a with
  | read r =>
    simp only [Step, step, Option.some.injEq] at hstep
    cases hread : transport (s.virt.mmioRead r.offset r.size) with
    | error death => rw [hread] at hstep; cases hstep
    | ok v => rw [hread] at hstep; cases hstep; exact .quiet nofun nofun rfl rfl rfl rfl
  | write r =>
    simp only [Step, step, Option.some.injEq] at hstep
    cases hwrite : transport (s.virt.mmioWrite r.offset r.size r.data) with
    | error death => rw [hwrite] at hstep; cases hstep
    | ok p => rw [hwrite] at hstep; cases hstep; exact .quiet nofun nofun rfl rfl rfl rfl
  | guest mem => cases hstep; exact .quiet nofun nofun rfl rfl rfl rfl
  | gotData vqIdx uninit u => exact .gotData (Option.some.inj hstep)
  | request env =>
    simp only [Step, step] at hstep
    split at hstep
    next => cases hstep
    next r rs hq =>
      have hdone := Option.some.inj hstep
      unfold processed at hdone
      split at hdone
      next => cases hdone
      next core resp hp => cases hdone; exact .request hq hp rfl rfl
  | response =>
    simp only [Step, step] at hstep
    split at hstep
    next r rs vbuf vbufs hresp hbufs =>
      cases hsent : s.sent r vbuf with
      | error death => rw [hsent] at hstep; cases hstep
      | ok x => rw [hsent] at hstep; cases hstep; exact .response rfl hresp hbufs hsent
    next => cases hstep

/-- `got_data` leaves the core and the responses alone. -/
theorem core_of_gotData {vqIdx : UInt16} {uninit : UInt32} {u : Leftover}
    (h : s.gotData vqIdx uninit u = .ok t) : t.core = s.core ∧ t.rresponses = s.rresponses := by
  unfold gotData at h
  split at h
  next => cases h
  next => cases h; exact ⟨rfl, rfl⟩
  next vbuf virt _ =>
    unfold took at h
    split at h
    next =>
      split at h
      next => cases h
      next r _ =>
        cases hput : transport (virt.putBuf vqIdx vbuf) with
        | error death => rw [hput] at h; cases h
        | ok put => rw [hput] at h; cases h; exact ⟨rfl, rfl⟩
    next => split at h <;> cases h <;> exact ⟨rfl, rfl⟩

/-- A response that is sent was written to its buffer before `put_buf`, then deleted. -/
theorem sent_eq_ok {r : RResponse} {core : Dev} {virt : Virtio.Dev}
    (h : s.sent r vbuf = .ok (core, virt)) :
    let m := RMesg.ofBody s.core r.body
    core = Loops.destroyResponse r s.core ∧
    ∃ bytes ret, m.serializeTo r.tag vbuf.len.toNat = some bytes ∧
      (withMem s.virt (s.virt.mem.writeBytes vbuf.guestAddr.toNat bytes)).putBuf vqRmesg
        { vbuf with nbytesWritten := m.serializedSize } = .ok (ret, virt) := by
  intro m
  unfold sent at h
  dsimp only at h
  split at h
  next => cases h
  next bytes hbytes =>
    cases hput : (withMem s.virt (s.virt.mem.writeBytes vbuf.guestAddr.toNat bytes)).putBuf vqRmesg
        { vbuf with nbytesWritten := m.serializedSize } with
    | error fault => rw [hput] at h; cases h
    | ok put => rw [hput] at h; cases h; exact ⟨rfl, bytes, put.1, hbytes, hput⟩

/-- **A step keeps fids and live objects together.** -/
theorem kept_of_step {a : Act}
    (h : Loops.Kept s.core (s.rresponses.map fun r => Dev.RResponse.pointers (some r)))
    (hstep : SafeStep s a t) :
    Loops.Kept t.core (t.rresponses.map fun r => Dev.RResponse.pointers (some r)) := by
  obtain ⟨hsafe, hstep⟩ := hstep
  cases stepped_of_step hstep with
  | quiet _ _ hcore _ hresp _ =>
    rw [hcore, hresp]
    exact h
  | gotData hgot =>
    obtain ⟨hcore, hresp⟩ := core_of_gotData hgot
    rw [hcore, hresp]
    exact h
  | request hq hp hresp hbufs =>
    rw [hresp, List.map_append]
    exact (h.process (by simpa [cloneSafe, hq] using hsafe) hp).responses
  | response hreq hresp hbufs hsent =>
    rw [hresp] at h
    rw [(sent_eq_ok hsent).1]
    exact h.destroy

theorem ready_init (vendorId : UInt32) (mem : ByteMem) (host : Host) (mountpoint : Bytes) :
    Virtio.Ready (init vendorId mem host mountpoint).virt := by
  have hready : Virtio.Ready (transportDev vendorId mem) :=
    .init (show 0 < num9pVqs by decide) _ _ _ _
  exact hready.of_keeps (Virtio.setConfigSpace_keeps (transportDev vendorId mem) [])

/-- **No fid is left with a deleted object.** -/
theorem fidsOk_of_run {vendorId : UInt32} {mem : ByteMem} {host : Host} {mountpoint : Bytes}
    {acts : List Act} (hrun : Run SafeStep (init vendorId mem host mountpoint) acts s) :
    s.core.FidsOk := by
  have hkept := hrun.invariant
    (I := fun s => Loops.Kept s.core (s.rresponses.map fun r => Dev.RResponse.pointers (some r)))
    (fun _ _ _ h hstep => kept_of_step h hstep) (.init ..)
  exact (Dev.fidsOk_iff_sound hkept.table).2 hkept.sound

/-! ## a guest -/

/-- A guest with one message, and one buffer of `room` bytes for a response. -/
def guestMem (msg : Bytes) (room : Nat) : ByteMem :=
  ((((ByteMem.writeBytes (fun _ => 0) 0x100000
    (ByteMem.bytesOfNat 8 0x101000 ++ ByteMem.bytesOfNat 4 msg.length)).writeBytes
    0x100400 [0, 0, 1, 0]).writeBytes 0x101000 msg).writeBytes 0x102000
    (ByteMem.bytesOfNat 8 0x103000 ++ ByteMem.bytesOfNat 4 room)).writeBytes 0x102400 [0, 0, 1, 0]

/-- A write of four bytes to the register at an offset. -/
def writeReg (offset : UInt8) (data : UInt64) : Act :=
  .write ⟨offset.toUInt64, 4, data, Virtio.byteOffset_lt offset, Virtio.four_le_eight⟩

/-- The guest makes a queue of two buffers ready. -/
def setupQueue (vqIdx base : UInt64) : List Act :=
  [writeReg 0x30 vqIdx, writeReg 0x38 2, writeReg 0x80 base, writeReg 0x90 (base + 0x400),
    writeReg 0xa0 (base + 0x800), writeReg 0x44 1]

/-- It makes both ready, and the device takes both buffers. -/
def exchange : List Act :=
  setupQueue 0 0x100000 ++ setupQueue 1 0x102000 ++
    [Act.gotData 0 0 noLeftover, .gotData 1 0 noLeftover]

/-- A `TVersion`. -/
def version : Bytes :=
  [19, 0, 0, 0, 100, 255, 255, 0, 32, 0, 0, 6, 0] ++ ascii ['P', '9', '2', '0', '2', '1']

def guestDev (msg : Bytes) (room : Nat) : P9FsDev :=
  init 0 (guestMem msg room) (Dev.shareHost [ascii ['s']]) (Path.render [ascii ['s']])

/-- The device after some steps it survives with all fids in order. -/
def after (s : P9FsDev) (acts : List Act) : Option P9FsDev :=
  exec (fun s a => if s.cloneSafe a then (step s a).bind Except.toOption else none) s acts

theorem run_of_after {acts : List Act} (h : s.after acts = some t) : Run SafeStep s acts t := by
  refine ((run_iff_exec _).2 h).mono fun s a t hstep => ?_
  obtain ⟨hsafe, hstep⟩ := Option.ite_none_right_eq_some.1 hstep
  obtain ⟨x, hx, hok⟩ := Option.bind_eq_some_iff.1 hstep
  cases x with
  | error death => contradiction
  | ok u => exact ⟨hsafe, hx.trans (congrArg (some ∘ Except.ok) (Option.some.inj hok))⟩

/-- What a step after some others ends the process with. -/
def deathAfter (s : P9FsDev) (acts : List Act) (a : Act) : Option Death :=
  (s.after acts).bind fun t =>
    match t.step a with
    | some (.error death) => some death
    | _ => none

theorem exists_run_of_deathAfter {acts : List Act} {a : Act} {death : Death}
    (h : s.deathAfter acts a = some death) :
    ∃ t, Run SafeStep s acts t ∧ t.step a = some (.error death) := by
  obtain ⟨t, ht, hdeath⟩ := Option.bind_eq_some_iff.1 h
  refine ⟨t, run_of_after ht, ?_⟩
  split at hdeath
  next heq => rw [heq, Option.some.inj hdeath]
  next => contradiction

/-- The lengths of the responses that wait, and of the buffers for them. -/
def waiting (s : P9FsDev) : List Nat × List UInt32 :=
  (s.rresponses.map fun r => (RMesg.ofBody s.core r.body).bodyLength, s.rmesgVbufs.map (·.len))

/-- **The device and its guest.**  In every state the device reaches without the walks that leave a
fid bound to a deleted object, whatever the guest writes to the registers and to its memory and
however the threads are interleaved, all fids have live objects; a step, if it is none of these
walks, does not end the process exactly if it is harmless; and a queued request that is harmless is
processed. -/
theorem survives_iff_harmless (vendorId : UInt32) (mem : ByteMem) (host : Host)
    (mountpoint : Bytes) {acts : List Act} {s : P9FsDev}
    (hrun : Run SafeStep (init vendorId mem host mountpoint) acts s) :
    s.core.FidsOk ∧
    (∀ a, s.cloneSafe a → ((∀ death, s.step a ≠ some (.error death)) ↔ s.harmless a)) ∧
    ∀ env r rs, s.trequests = r :: rs → s.cloneSafe (.request env) → s.harmless (.request env) →
      ∃ t, Step s (.request env) t ∧ t.trequests = rs ∧ t.core.FidsOk := by
  have hready : Virtio.Ready s.virt :=
    hrun.invariant (I := fun s => Virtio.Ready s.virt)
      (fun _ _ _ h hstep => ready_of_step h hstep.2) (ready_init vendorId mem host mountpoint)
  have hfids := fidsOk_of_run hrun
  refine ⟨hfids, fun a _ => ?_, fun env r rs hq hsafe hok => ?_⟩
  · rcases step_decides hready a with ⟨hok, hnone⟩ | ⟨x, hx, hgood | hdead⟩
    · simp [hnone, hok]
    · obtain ⟨hok, t, rfl, -⟩ := hgood
      simp [hx, hok]
    · obtain ⟨hbad, death, rfl⟩ := hdead
      simp [hx, hbad]
  · have hrequest : Dev.returns env s.core r.msg := hok r (by simp [hq])
    cases processed_decides hready env r rs with
    | inl hgood =>
      obtain ⟨-, t, ht, -, hrs⟩ := hgood
      have hstep : Step s (.request env) t := by simp [Step, step, hq, ht]
      exact ⟨t, hstep, hrs, fidsOk_of_run (hrun.tail ⟨hsafe, hstep⟩)⟩
    | inr hdead => exact absurd hrequest hdead.1

/-- A `TVersion` of a guest that supplies a buffer of 64 bytes: its response is sent. -/
theorem version_survives : ∃ s,
    Run SafeStep (guestDev version 64) (exchange ++ [.request Dev.calmEnv]) s ∧
      ∀ death, s.step .response ≠ some (.error death) := by
  have hwaiting : ((guestDev version 64).after (exchange ++ [.request Dev.calmEnv])).map waiting =
      some ([12], [64]) := by
    decide +kernel
  obtain ⟨s, hs, hw⟩ := Option.map_eq_some_iff.1 hwaiting
  have hrun := run_of_after hs
  refine ⟨s, hrun, ((survives_iff_harmless _ _ _ _ hrun).2.1 .response rfl).2 ?_⟩
  intro r hr vbuf hvbuf
  obtain ⟨hlens, hbufs⟩ := Prod.mk.inj hw
  have hlen : (RMesg.ofBody s.core r.body).bodyLength ∈ [12] :=
    hlens ▸ List.mem_map_of_mem (List.mem_of_head? hr)
  have hbuf : vbuf.len ∈ [64] := hbufs ▸ List.mem_map_of_mem (List.mem_of_head? hvbuf)
  rw [responseOk, List.mem_singleton.1 hlen, List.mem_singleton.1 hbuf]
  decide

/-- What ends the device: a `TRead` that ends with its header, a `TStat` of a fid nobody
bound, and a response to a buffer that is too small for it. -/
theorem three_guests_end_device :
    (∃ s, Run SafeStep (guestDev [7, 0, 0, 0, 116, 1, 0] 64) (setupQueue 0 0x100000) s ∧
      s.step (.gotData 0 0 noLeftover) = some (.error .badMessage)) ∧
    (∃ s, Run SafeStep (guestDev [11, 0, 0, 0, 124, 1, 0, 5, 0, 0, 0] 64) exchange s ∧
      s.step (.request Dev.calmEnv) = some (.error .badRequest)) ∧
    ∃ s, Run SafeStep (guestDev version 8) (exchange ++ [.request Dev.calmEnv]) s ∧
      s.step .response = some (.error .shortBuffer) :=
  ⟨exists_run_of_deathAfter (by decide +kernel), exists_run_of_deathAfter (by decide +kernel),
    exists_run_of_deathAfter (by decide +kernel)⟩

end P9FsDev

end Ooows.P9
