import Ooows.Net.NetDev
import Ooows.Virtio.Buffer
import Ooows.Virtio.Features

/-!
# Ooows.Net.Requests

The guest's side of the network device: its buffers, its registers and its control
messages.

`readControl`, `readTx` and `writeRx` are what `handleControl`, `handleTx` and `handleRx` do
with a buffer.  `Nic` is the transport together with the engine.  A control message takes
effect if the driver has accepted its feature (`handleControl_changes`); whether the device
has offered the feature is checked nowhere, neither there nor when the driver writes its
features.  So only offered features have an effect in the runs in which the driver
accepts no others (`OnlyOffered`).
-/

namespace Ooows.Net

open Lib Bits Virtio

/-! ## buffers -/

/-- `sizeof(control_msg)`. -/
def sizeofControlMsg : UInt64 := 129

/-- `handleControl` up to its `switch`: the type of the message and its data. -/
def readControl (b : Buf) : Option (UInt8 × List UInt8) × Buf :=
  match b.readU sizeofControlMsg with
  | (none, b) => (none, b)
  | (some msg, b) => (some (msg.headD 0, msg.tail), b)

/-- `handleTx`, as far as it concerns the buffer: the packet. -/
def readTx (b : Buf) : Option (List UInt8) × Buf :=
  match b.readU 2 with
  | (none, b) => (none, b)
  | (some msg, b) =>
    let size := ofBytes msg
    if size > maxMtu then (none, b) else b.readU size.toUInt64

/-- `handleRx`, as far as it concerns the buffer, for the packet taken from the queue. -/
def writeRx (packet : List UInt8) (b : Buf) : Bool × Buf :=
  if b.vbuf.len.toNat < maxMtu + 2 then (false, b)
  else match b.writeU (ByteMem.bytesOfNat 2 packet.length) with
    | (false, b) => (false, b)
    | (true, b) => b.writeU packet

/-! ## the device -/

/-- `VIRTIO_NIC`. -/
def virtioNic : UInt32 := 1

/-- `NUM_NET_VQS`. -/
def numNetVqs : UInt32 := 3

/-- `VQ_CONTROL`. -/
def vqControl : UInt16 := 0

/-- The features that `NetDev` offers: everything but `FEATURE_CHANGE_MAC_MASK`, which is
`0x1 << 3`. -/
def offered : UInt64 :=
  let one : UInt64 := 0x1
  one ^^^ one <<< 1 ^^^ one <<< 2 ^^^ one <<< 4 ^^^ one <<< 5

/-- The feature that a control message needs. -/
def featureOf (type : UInt8) : Option UInt64 :=
  if type = 0 then some 0x8 else (NetDev.csrControl type.toNat).map Prod.fst

/-- `NetDev` as its driver knows it. -/
@[ext]
structure Nic where
  virt : Virtio.Dev
  eng : Engine

inductive NicAct
  | read (r : MmioRequest)
  | write (r : MmioRequest)
  /-- The guest changes its memory. -/
  | guest (mem : ByteMem)
  /-- A buffer of another queue. -/
  | get (vqIdx : UInt16) (uninit : UInt32)
  | put (vqIdx : UInt16) (vbuf : VirtBuf)
  /-- A buffer of the control queue. -/
  | control (uninit : UInt32)
  /-- The engine, the PHY and the packets do anything at all. -/
  | engine (eng : Engine)

namespace Nic

/-- The configuration space: the MAC and the first bytes of the microcode. -/
def configSpace (eng : Engine) (mac : List UInt8) : List UInt8 :=
  mac.take 6 ++ (List.range (configSpaceMax - 6)).map eng.codeByte

/-- The transport that `NetDev` sets up. -/
def transportDev (vendorId : UInt32) (mem : ByteMem) : Virtio.Dev :=
  .init numNetVqs virtioNic vendorId offered mem

/-- `NetDev`. -/
def init (vendorId : UInt32) (mem : ByteMem) (image : List UInt8) (uninit : Nat → UInt8)
    (lastAlu : UInt32) (mac : List UInt8) : Nic where
  virt := ((transportDev vendorId mem).setConfigSpace
    (configSpace (.init image uninit lastAlu mac) mac)).getD (transportDev vendorId mem)
  eng := .init image uninit lastAlu mac

/-- `handleControl`, for a message that was read. -/
def handleControl (s : Nic) (type : UInt8) (data : List UInt8) : Nic where
  virt := if type = 0 ∧ s.virt.driverFeatures &&& 0x8 ≠ 0 then
      (s.virt.setConfigSpace (data.take 6)).getD s.virt
    else s.virt
  eng := NetDev.handleControl s.eng s.virt.driverFeatures type data

/-- The message in a buffer. -/
def message (mem : ByteMem) (vbuf : VirtBuf) : Option (UInt8 × List UInt8) :=
  (readControl (.fresh mem vbuf)).1

/-- What `got_data` does with a buffer of the control queue, before it gives it back. -/
def took (s : Nic) (vbuf : VirtBuf) : Nic :=
  match message s.virt.mem vbuf with
  | none => s
  | some (type, data) => s.handleControl type data

/-- `got_data` of the control queue. -/
def gotControl (s : Nic) (uninit : UInt32) : Except Fault Nic :=
  match s.virt.getBuf vqControl uninit with
  | .error fault => .error fault
  | .ok (none, virt) => .ok { s with virt := virt }
  | .ok (some vbuf, virt) =>
    let s := { s with virt := virt }.took vbuf
    (s.virt.putBuf vqControl vbuf).map fun put => { s with virt := put.2 }

/-- A register write; `NetDev::config_space_write` refuses. -/
def write (s : Nic) (r : MmioRequest) : Except Fault Nic :=
  if s.virt.isConfigSpace r.offset r.size then .ok s
  else (s.virt.mmioWrite r.offset r.size r.data).map fun p => { s with virt := p.1 }

def step (s : Nic) : NicAct → Except Fault Nic
  | .read r => (s.virt.mmioRead r.offset r.size).map fun _ => s
  | .write r => s.write r
  | .guest mem => .ok { s with virt := { s.virt with mem := mem } }
  | .get vqIdx uninit => (s.virt.getBuf vqIdx uninit).map fun p => { s with virt := p.2 }
  | .put vqIdx vbuf => (s.virt.putBuf vqIdx vbuf).map fun p => { s with virt := p.2 }
  | .control uninit => s.gotControl uninit
  | .engine eng => .ok { s with eng := eng }

/-- A control message shows: the MAC, the CSR or the configuration space is another. -/
def Changed (s t : Nic) : Prop :=
  t.eng.mac ≠ s.eng.mac ∨ t.eng.csr ≠ s.eng.csr ∨ t.virt.configSpace ≠ s.virt.configSpace ∨
    t.virt.configSpaceSize ≠ s.virt.configSpaceSize

end Nic

/-! ## a control message -/

variable {s t : Nic}

/-- **A control message changes** nothing unless the driver has accepted its feature. -/
theorem handleControl_changes {type : UInt8} {data : List UInt8}
    (h : ∀ feature, featureOf type = some feature → s.virt.driverFeatures &&& feature = 0) :
    s.handleControl type data = s := by
  have hvirt : (s.handleControl type data).virt = s.virt := by
    refine if_neg fun hmac => hmac.2 (h 0x8 ?_)
    rw [featureOf, if_pos hmac.1]
  have heng : (s.handleControl type data).eng = s.eng := by
    show NetDev.handleControl _ _ _ _ = _
    unfold NetDev.handleControl
    by_cases htype : type = 0
    · rw [if_pos htype, if_neg]
      exact not_not.2 (h 0x8 (by rw [featureOf, if_pos htype]))
    · rw [if_neg htype]
      cases hcsr : NetDev.csrControl type.toNat with
      | none => rfl
      | some p =>
        have hfeature := h p.1 (by rw [featureOf, if_neg htype, hcsr]; rfl)
        dsimp only
        rw [if_neg (not_not.2 hfeature)]
  exact Nic.ext hvirt heng

/-- **What the control queue changes** is what a message with an accepted feature changes. -/
theorem gotControl_changes {uninit : UInt32} (h : s.gotControl uninit = .ok t)
    (hchanged : s.Changed t) : ∃ vbuf virt type data feature,
      s.virt.getBuf vqControl uninit = .ok (some vbuf, virt) ∧
      Nic.message s.virt.mem vbuf = some (type, data) ∧ featureOf type = some feature ∧
      s.virt.driverFeatures &&& feature ≠ 0 := by
  unfold Nic.gotControl at h
  split at h
  next => contradiction
  next virt hget =>
    obtain ⟨vqs, hvirt⟩ := getBuf_frame hget
    dsimp only at hvirt
    cases h
    subst hvirt
    simp [Nic.Changed] at hchanged
  next vbuf virt hget =>
    obtain ⟨vqs, hvirt⟩ := getBuf_frame hget
    dsimp only at hvirt
    subst hvirt
    obtain ⟨put, hput, rfl⟩ := map_eq_ok h
    obtain ⟨mem, hmem⟩ := putBuf_frame hput
    by_contra hnone
    -- a message without effect leaves the state as `get_buf` left it
    have htook : Nic.took { s with virt := { s.virt with vqs := vqs } } vbuf =
        { s with virt := { s.virt with vqs := vqs } } := by
      unfold Nic.took
      split
      next => rfl
      next type data hmessage =>
        refine handleControl_changes fun feature hfeature => not_not.1 fun haccepted => ?_
        exact hnone ⟨vbuf, _, type, data, feature, hget, hmessage, hfeature, haccepted⟩
    rw [htook] at hmem hchanged
    dsimp only at hmem
    simp [Nic.Changed, hmem] at hchanged

/-! ## the accepted features -/

/-- Every bit of one word is in another. -/
def Subset (x y : UInt64) : Prop := x &&& ~~~y = 0

instance (x y : UInt64) : Decidable (Subset x y) := inferInstanceAs (Decidable (_ = _))

/-- **The condition**: the driver accepts no feature that was not offered. -/
def OnlyOffered (s : Nic) : NicAct → Prop
  | .write r => r.offset = regDriverFeatures →
      Subset (withHalf 0 s.virt.driverFeaturesSel r.data) s.virt.deviceFeatures
  | _ => True

instance (s : Nic) : (a : NicAct) → Decidable (OnlyOffered s a)
  | .write _ => inferInstanceAs (Decidable (_ → _))
  | .read _ | .guest _ | .get _ _ | .put _ _ | .control _ | .engine _ => isTrue trivial

theorem or_and_distrib (x y z : UInt64) : (x ||| y) &&& z = (x &&& z) ||| (y &&& z) := by
  rw [← UInt64.toNat_inj]
  simp only [UInt64.toNat_and, UInt64.toNat_or, Nat.and_or_distrib_right]

theorem Subset.and {x y : UInt64} (h : Subset x y) (mask : UInt64) : Subset (x &&& mask) y := by
  unfold Subset at h ⊢
  rw [UInt64.and_assoc, UInt64.and_comm mask, ← UInt64.and_assoc, h, UInt64.zero_and]

theorem Subset.or {x y z : UInt64} (hx : Subset x z) (hy : Subset y z) : Subset (x ||| y) z := by
  unfold Subset at hx hy ⊢
  rw [or_and_distrib, hx, hy, UInt64.zero_or]

/-- Writing a half keeps inside what both the old word and the half are in. -/
theorem Subset.withHalf {x y data : UInt64} {sel : Bool} (h : Subset x y)
    (hdata : Subset (withHalf 0 sel data) y) : Subset (withHalf x sel data) y := by
  unfold Virtio.withHalf at hdata ⊢
  cases sel with
  | false =>
    simp only [Bool.false_eq_true, if_false, UInt64.zero_and, UInt64.zero_or] at hdata ⊢
    exact (h.and _).or hdata
  | true =>
    simp only [if_true, UInt64.zero_and, UInt64.zero_or] at hdata ⊢
    exact (h.and _).or hdata

theorem Subset.and_ne_zero {x y feature : UInt64} (h : Subset x y) (hx : x &&& feature ≠ 0) :
    y &&& feature ≠ 0 := by
  intro hy
  refine hx ?_
  have hsplit : x = (x &&& y) ||| (x &&& ~~~y) := by
    rw [UInt64.and_comm x y, UInt64.and_comm x (~~~y), ← or_and_distrib, UInt64.or_not_self,
      UInt64.and_comm, UInt64.and_neg_one]
  rw [hsplit, h, UInt64.or_zero, UInt64.and_assoc, hy, UInt64.and_zero]

/-! ## runs -/

theorem handleControl_features (s : Nic) (type : UInt8) (data : List UInt8) :
    SameFeatures s.virt (s.handleControl type data).virt := by
  show SameFeatures s.virt (if _ then _ else _)
  split
  next =>
    unfold Dev.setConfigSpace
    split <;> exact ⟨rfl, rfl⟩
  next => exact .refl _

theorem took_features (s : Nic) (vbuf : VirtBuf) : SameFeatures s.virt (s.took vbuf).virt := by
  unfold Nic.took
  split
  next => exact .refl _
  next type data _ => exact handleControl_features s type data

theorem gotControl_features {uninit : UInt32} (h : s.gotControl uninit = .ok t) :
    SameFeatures s.virt t.virt := by
  unfold Nic.gotControl at h
  split at h
  next => contradiction
  next virt hget =>
    cases h
    exact getBuf_features hget
  next vbuf virt hget =>
    obtain ⟨put, hput, rfl⟩ := map_eq_ok h
    exact (getBuf_features hget).trans ((took_features _ vbuf).trans (putBuf_features hput))

/-- Only a write to `REG_DRIVER_FEATURES` changes the features. -/
theorem nicStep_features {a : NicAct} (h : s.step a = .ok t)
    (ha : ∀ r, a = .write r → r.offset ≠ regDriverFeatures) : SameFeatures s.virt t.virt := by
  cases a with
  | read r =>
    obtain ⟨_, -, rfl⟩ := map_eq_ok h
    exact .refl _
  | write r =>
    simp only [Nic.step, Nic.write] at h
    split at h
    next =>
      cases h
      exact .refl _
    next =>
      obtain ⟨p, hp, rfl⟩ := map_eq_ok h
      exact mmioWrite_features hp (ha r rfl)
  | guest mem =>
    cases h
    exact ⟨rfl, rfl⟩
  | get vqIdx uninit =>
    obtain ⟨p, hp, rfl⟩ := map_eq_ok h
    exact getBuf_features hp
  | put vqIdx vbuf =>
    obtain ⟨p, hp, rfl⟩ := map_eq_ok h
    exact putBuf_features hp
  | control uninit => exact gotControl_features h
  | engine eng =>
    cases h
    exact .refl _

/-- **The invariant**: the accepted features are among the offered ones. -/
structure Accepting (s : Nic) : Prop where
  offered : s.virt.deviceFeatures = offered
  subset : Subset s.virt.driverFeatures s.virt.deviceFeatures

theorem Accepting.of_same (h : Accepting s) (hsame : SameFeatures s.virt t.virt) : Accepting t where
  offered := hsame.device.trans h.offered
  subset := by
    rw [hsame.device, hsame.driver]
    exact h.subset

theorem Accepting.step {a : NicAct} (h : Accepting s) (hok : OnlyOffered s a)
    (hstep : s.step a = .ok t) : Accepting t := by
  by_cases ha : ∀ r, a = .write r → r.offset ≠ regDriverFeatures
  · exact h.of_same (nicStep_features hstep ha)
  · push Not at ha
    obtain ⟨r, rfl, hoff⟩ := ha
    have hconf : s.virt.isConfigSpace r.offset r.size = false := by
      rw [hoff]
      rfl
    have hwrite : s.step (.write r) = (s.virt.mmioWrite r.offset r.size r.data).map fun p =>
        { s with virt := p.1 } := by
      rw [Nic.step, Nic.write, hconf]
      rfl
    rw [hwrite, hoff, mmioWrite_driverFeatures] at hstep
    cases hstep
    exact ⟨h.offered, h.subset.withHalf (hok hoff)⟩

theorem Accepting.init (vendorId : UInt32) (mem : ByteMem) (image : List UInt8)
    (uninit : Nat → UInt8) (lastAlu : UInt32) (mac : List UInt8) :
    Accepting (Nic.init vendorId mem image uninit lastAlu mac) := by
  have hsame : SameFeatures (Nic.transportDev vendorId mem)
      (Nic.init vendorId mem image uninit lastAlu mac).virt := by
    show SameFeatures _ ((Dev.setConfigSpace _ _).getD _)
    unfold Dev.setConfigSpace
    split <;> exact ⟨rfl, rfl⟩
  refine ⟨hsame.device, ?_⟩
  rw [hsame.device, hsame.driver]
  exact UInt64.zero_and

/-- Runs of the device. -/
abbrev NicStep (s : Nic) (a : NicAct) (t : Nic) : Prop := s.step a = .ok t

/-- **Only offered features have an effect**, in every run in which the driver accepts no
others: then the accepted features are among the offered ones, and a control message
changes the MAC, the CSR or the configuration space only if its feature was offered and
accepted. -/
theorem control_needs_offered {vendorId : UInt32} {mem : ByteMem} {image : List UInt8}
    {uninit : Nat → UInt8} {lastAlu : UInt32} {mac : List UInt8} {acts : List NicAct} {s : Nic}
    (hrun : Run (Guarded OnlyOffered NicStep) (Nic.init vendorId mem image uninit lastAlu mac) acts s) :
    s.virt.deviceFeatures = offered ∧ Subset s.virt.driverFeatures s.virt.deviceFeatures ∧
    ∀ uninit t, s.gotControl uninit = .ok t → s.Changed t → ∃ vbuf virt type data feature,
      s.virt.getBuf vqControl uninit = .ok (some vbuf, virt) ∧
      Nic.message s.virt.mem vbuf = some (type, data) ∧ featureOf type = some feature ∧
      s.virt.deviceFeatures &&& feature ≠ 0 ∧ s.virt.driverFeatures &&& feature ≠ 0 := by
  have h : Accepting s :=
    hrun.invariant (fun _ _ _ h hstep => h.step hstep.1 hstep.2)
      (.init vendorId mem image uninit lastAlu mac)
  refine ⟨h.offered, h.subset, fun uninit t ht hchanged => ?_⟩
  obtain ⟨vbuf, virt, type, data, feature, hget, hmessage, hfeature, haccepted⟩ :=
    gotControl_changes ht hchanged
  exact ⟨vbuf, virt, type, data, feature, hget, hmessage, hfeature,
    h.subset.and_ne_zero haccepted, haccepted⟩

/-! ## two messages -/

/-- The registers that a driver writes to set up its control queue with two buffers and to
accept some features. -/
def controlSetup (features : UInt64) : List NicAct :=
  let reg (offset : UInt8) (data : UInt64) : NicAct :=
    .write ⟨offset.toUInt64, 4, data, byteOffset_lt offset, four_le_eight⟩
  [reg 0x24 0, reg 0x20 features, reg 0x30 0, reg 0x38 2, reg 0x80 0x100000, reg 0x90 0x100400,
    reg 0xa0 0x100800, reg 0x44 1]

/-- A guest's memory with one buffer in the control queue, for a message of some type. -/
def controlMem (type : UInt8) : ByteMem := fun a =>
  if a = 0x100402 then 1
  -- address 0x110000 and length 129
  else if a = 0x100002 then 0x11
  else if a = 0x100008 then 129
  else if a = 0x110000 then type
  else if a = 0x110001 then 1
  else 0

/-- The device for that guest. -/
def controlNic (type : UInt8) : Nic := .init 0 (controlMem type) [] (fun _ => 0) 0 []

/-- The transmit checksum is switched on. -/
theorem control_needs_offered_chksum : ∃ s t,
    Run (Guarded OnlyOffered NicStep) (controlNic 1) (controlSetup 0x1) s ∧
    s.gotControl 0 = .ok t ∧ t.eng.csr = 4 ∧ Subset s.virt.driverFeatures s.virt.deviceFeatures := by
  have hexec : ((exec (fun s a => if OnlyOffered s a then (s.step a).toOption else none)
      (controlNic 1) (controlSetup 0x1)).bind fun s => (s.gotControl 0).toOption.map fun t =>
        t.eng.csr) = some 4 := by
    decide +kernel
  obtain ⟨s, hs, ht⟩ := Option.bind_eq_some_iff.1 hexec
  obtain ⟨t, ht, hcsr⟩ := Option.map_eq_some_iff.1 ht
  have hrun : Run (Guarded OnlyOffered NicStep) (controlNic 1) (controlSetup 0x1) s :=
    (run_guarded_of_exec hs).mono fun _ _ _ hstep => ⟨hstep.1, ok_of_toOption hstep.2⟩
  exact ⟨s, t, hrun, ok_of_toOption ht, hcsr, (control_needs_offered hrun).2.1⟩

/-- **A feature that was not offered**: the kernel accepts 0x3f, and then a control message
sets the MAC. -/
theorem control_sets_mac : ∃ s t,
    Run NicStep (controlNic 0) (controlSetup 0x3f) s ∧ s.gotControl 0 = .ok t ∧
    s.eng.mac = [] ∧ t.eng.mac = [1, 0, 0, 0, 0, 0] ∧ t.virt.configSpaceSize = 6 ∧
    s.virt.deviceFeatures &&& 0x8 = 0 ∧ s.virt.driverFeatures = 0x3f := by
  have hexec : ((exec (fun s a => (s.step a).toOption) (controlNic 0) (controlSetup 0x3f)).bind
      fun s => (s.gotControl 0).toOption.map fun t => (s.eng.mac, t.eng.mac,
        t.virt.configSpaceSize, s.virt.deviceFeatures &&& 0x8, s.virt.driverFeatures)) =
      some ([], [1, 0, 0, 0, 0, 0], 6, 0, 0x3f) := by
    decide +kernel
  obtain ⟨s, hs, ht⟩ := Option.bind_eq_some_iff.1 hexec
  obtain ⟨t, ht, hend⟩ := Option.map_eq_some_iff.1 ht
  simp only [Prod.mk.injEq] at hend
  have hrun : Run NicStep (controlNic 0) (controlSetup 0x3f) s :=
    ((run_iff_exec _).2 hs).mono fun _ _ _ hstep => ok_of_toOption hstep
  exact ⟨s, t, hrun, ok_of_toOption ht, hend⟩

end Ooows.Net
