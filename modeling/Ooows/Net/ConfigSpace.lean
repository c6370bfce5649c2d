import Ooows.Net.Requests

/-!
# Ooows.Net.ConfigSpace

What a driver reads in the configuration space after it has changed the MAC.

The constructor puts 0x400 bytes there: the MAC and, behind it, the first bytes of the
microcode.  `SET_MAC` copies the new address with `set_config_space`, which also makes its
six bytes the whole configuration space (`took_setMac`).  The bytes behind them are still
stored, but an access to one of them is no longer an access to the configuration space, and
`mmio_read` answers 0, which is what it answers at every offset that it does not know
(`answerByte_other`).  So the other bytes read as before exactly if there were none, or
they were all 0 (`set_mac_frames`).
-/

namespace Ooows.Net

open Lib Bits Virtio

/-! ## reading the configuration space -/

/-- An access covers byte `k` of the configuration space. -/
def Covers (r : MmioRequest) (k : Nat) : Prop :=
  r.offset.toNat ≤ 0x100 + k ∧ 0x100 + k < r.offset.toNat + r.size.toNat

/-- Byte `k` of the configuration space, in what `mmio_read` returns for an access that
covers it. -/
def answerByte (d : Dev) (r : MmioRequest) (k : Nat) : Option UInt8 :=
  (d.mmioRead r.offset r.size).toOption.map fun v =>
    UInt8.ofNat (v.toNat / 256 ^ (0x100 + k - r.offset.toNat))

/-- The bytes behind the MAC read as before, through every access to the configuration
space. -/
def OthersRead (d d' : Dev) : Prop :=
  ∀ (r : MmioRequest) (k : Nat), d.isConfigSpace r.offset r.size = true → Covers r k → 6 ≤ k →
    answerByte d' r k = answerByte d r k

/-- The device has an address: in the first bytes of the configuration space, where a driver
reads it, and in the two MAC registers of the engine. -/
structure HasMac (s : Nic) (mac : List UInt8) : Prop where
  stored : s.virt.configSpace.readBytes 0 6 = mac
  read : ∀ (r : MmioRequest) (k : Nat), s.virt.isConfigSpace r.offset r.size = true →
    Covers r k → 0x100 + k - r.offset.toNat < 4 → k < 6 →
    answerByte s.virt r k = some (mac.getD k 0)
  low : s.eng.macWord 0 4 = UInt32.ofNat (ofBytes (mac.take 4))
  high : s.eng.macWord 4 2 = UInt32.ofNat (ofBytes (mac.drop 4))

variable {d d' : Dev} {r : MmioRequest} {k : Nat}

/-- The answer has four bytes. -/
theorem answer_digit (x j : Nat) : UInt8.ofNat ((UInt64.ofNat x).toUInt32.toNat / 256 ^ j) =
    if j < 4 then UInt8.ofNat (x / 256 ^ j) else 0 := by
  have hanswer : (UInt64.ofNat x).toUInt32.toNat = x % 256 ^ 4 := by
    rw [UInt64.toNat_toUInt32, UInt64.toNat_ofNat']
    exact Nat.mod_mod_of_dvd _ (by decide)
  rw [hanswer]
  split
  next hj =>
    have hpow : 256 ^ 4 = 256 ^ j * 256 ^ (4 - j) := by
      rw [← Nat.pow_add]
      congr 1
      omega
    have hdvd : 2 ^ 8 ∣ 256 ^ (4 - j) := Dvd.dvd.pow (Nat.dvd_refl 256) (by omega)
    rw [hpow, Nat.mod_mul_right_div_self]
    apply UInt8.toNat_inj.1
    rw [UInt8.toNat_ofNat', UInt8.toNat_ofNat', Nat.mod_mod_of_dvd _ hdvd]
  next hj =>
    have hlt : x % 256 ^ 4 < 256 ^ j :=
      Nat.lt_of_lt_of_le (Nat.mod_lt _ (by decide)) (Nat.pow_le_pow_right (by decide) (by omega))
    rw [Nat.div_eq_of_lt hlt]
    rfl

/-- **A byte of the configuration space**, in the answer to an access to it. -/
theorem answerByte_config (h : Ready d) (hconf : d.isConfigSpace r.offset r.size = true)
    (hcovers : Covers r k) : answerByte d r k =
      some (if 0x100 + k - r.offset.toNat < 4 then d.configSpace k else 0) := by
  obtain ⟨hlo, hhi⟩ := hcovers
  have hstart := ((isConfigSpace_iff h r).1 hconf).1
  have hoff : (r.offset - configSpaceStart).toNat = r.offset.toNat - 0x100 :=
    UInt64.toNat_sub_of_le _ _ (UInt64.le_iff_toNat_le.2 hstart)
  have hread : d.mmioRead r.offset r.size = .ok
      (UInt64.ofNat (d.configSpace.load (r.offset.toNat - 0x100) r.size.toNat)).toUInt32 := by
    rw [Dev.mmioRead, if_pos hconf, Dev.configSpaceRead, if_pos (h.copyOk r hconf), hoff]
    rfl
  have hbyte : (d.configSpace.readBytes (r.offset.toNat - 0x100) r.size.toNat).getD
      (0x100 + k - r.offset.toNat) 0 = d.configSpace k := by
    rw [ByteMem.readBytes, List.getD_eq_getElem _ _ (by simp; omega), List.getElem_map,
      List.getElem_range]
    congr 1
    omega
  rw [answerByte, hread, Except.toOption, Option.map_some, answer_digit, ByteMem.load, ofBytes_digit, hbyte]

/-- Behind the configuration space `mmio_read` answers 0. -/
theorem answerByte_other (hconf : d.isConfigSpace r.offset r.size = false)
    (hoff : 0x100 ≤ r.offset.toNat) : answerByte d r k = some 0 := by
  have hreg : Dev.Reg.ofOffset r.offset = none := by
    unfold Dev.Reg.ofOffset
    split
    all_goals first | rfl | omega
  have hread : d.mmioRead r.offset r.size = .ok 0 := by
    rw [Dev.mmioRead, hconf, hreg]
    rfl
  rw [answerByte, hread]
  show some (UInt8.ofNat (0 / _)) = _
  rw [Nat.zero_div]
  rfl

/-- If the configuration space shrinks to the MAC, **the other bytes read as before** exactly
if those that could be read were 0. -/
theorem othersRead_iff (h : Ready d) (h' : Ready d') (hsize : d'.configSpaceSize.toNat = 6) :
    OthersRead d d' ↔ ∀ k, 6 ≤ k → k < d.configSpaceSize.toNat → d.configSpace k = 0 := by
  -- no access to a byte behind the MAC is an access to the new configuration space
  have hother : ∀ {r : MmioRequest} {k : Nat}, d.isConfigSpace r.offset r.size = true →
      Covers r k → 6 ≤ k → answerByte d' r k = some 0 := by
    intro r k hconf hcovers hk
    refine answerByte_other (Bool.eq_false_iff.2 fun hconf' => ?_)
      ((isConfigSpace_iff h r).1 hconf).1
    have hend := ((isConfigSpace_iff h' r).1 hconf').2
    have hlt := hcovers.2
    omega
  constructor
  · intro hothers k hk hlt
    have hconfig := h.config
    -- the access to this byte alone
    have hoffset : (UInt64.ofNat (0x100 + k)).toNat = 0x100 + k := by
      rw [UInt64.toNat_ofNat']
      exact Nat.mod_eq_of_lt (by omega)
    let r : MmioRequest := ⟨UInt64.ofNat (0x100 + k), 1, 0, by omega, by decide⟩
    have hr : r.offset.toNat = 0x100 + k := hoffset
    have hone : r.size.toNat = 1 := rfl
    have hconf : d.isConfigSpace r.offset r.size = true :=
      (isConfigSpace_iff h r).2 ⟨by omega, by omega⟩
    have hcovers : Covers r k := ⟨by omega, by omega⟩
    have hbyte := hothers r k hconf hcovers hk
    rw [hother hconf hcovers hk, answerByte_config h hconf hcovers, if_pos (by omega)] at hbyte
    exact (Option.some.inj hbyte).symm
  · intro hzero r k hconf hcovers hk
    have hend := ((isConfigSpace_iff h r).1 hconf).2
    have hlt := hcovers.2
    rw [hother hconf hcovers hk, answerByte_config h hconf hcovers, hzero k hk (by omega),
      ite_self]

/-! ## every step keeps the transport ready -/

variable {s t : Nic}

theorem handleControl_keeps (s : Nic) (type : UInt8) (data : List UInt8) :
    Keeps s.virt (s.handleControl type data).virt := by
  show Keeps _ (ite _ _ _)
  split
  · exact setConfigSpace_keeps _ _
  · exact .refl _

theorem took_keeps (s : Nic) (vbuf : VirtBuf) : Keeps s.virt (s.took vbuf).virt := by
  unfold Nic.took
  split
  · exact .refl _
  · exact handleControl_keeps ..

/-- **A buffer of the control queue** is handled without a fault; giving it back changes
nothing but the guest's memory. -/
theorem gotControl_ok (h : Ready s.virt) {uninit : UInt32} {vbuf : VirtBuf} {virt : Dev}
    (hget : s.virt.getBuf vqControl uninit = .ok (some vbuf, virt)) :
    ∃ t mem, s.gotControl uninit = .ok t ∧ Keeps s.virt t.virt ∧
      t.virt = { ({ s with virt := virt }.took vbuf).virt with mem := mem } ∧
      t.eng = ({ s with virt := virt }.took vbuf).eng := by
  obtain ⟨p, hp, hkeeps⟩ := getBuf_keeps h vqControl uninit
  obtain rfl : p = (some vbuf, virt) := Except.ok.inj (hp.symm.trans hget)
  have htook := hkeeps.trans (took_keeps { s with virt := virt } vbuf)
  obtain ⟨put, hput, hkept⟩ := putBuf_keeps (h.of_keeps htook) vqControl vbuf
  obtain ⟨mem, hmem⟩ := putBuf_frame hput
  refine ⟨{ { s with virt := virt }.took vbuf with virt := put.2 }, mem, ?_, htook.trans hkept,
    hmem, rfl⟩
  rw [Nic.gotControl, hget]
  dsimp only
  rw [hput]
  rfl

theorem nicStep_keeps {a : NicAct} (h : Ready s.virt) (hstep : s.step a = .ok t) :
    Keeps s.virt t.virt := by
  cases a with
  | read r =>
    obtain ⟨v, -, rfl⟩ := map_eq_ok hstep
    exact .refl _
  | write r =>
    simp only [Nic.step, Nic.write] at hstep
    split at hstep
    next =>
      cases hstep
      exact .refl _
    next =>
      obtain ⟨p, hp, rfl⟩ := map_eq_ok hstep
      obtain ⟨q, hq, hkeeps⟩ := mmioWrite_keeps h r
      rw [Except.ok.inj (hp.symm.trans hq)]
      exact hkeeps
  | guest mem =>
    cases hstep
    exact .of_vqs_eq rfl id id
  | get vqIdx uninit =>
    obtain ⟨p, hp, rfl⟩ := map_eq_ok hstep
    obtain ⟨q, hq, hkeeps⟩ := getBuf_keeps h vqIdx uninit
    rw [Except.ok.inj (hp.symm.trans hq)]
    exact hkeeps
  | put vqIdx vbuf =>
    obtain ⟨p, hp, rfl⟩ := map_eq_ok hstep
    obtain ⟨q, hq, hkeeps⟩ := putBuf_keeps h vqIdx vbuf
    rw [Except.ok.inj (hp.symm.trans hq)]
    exact hkeeps
  | control uninit =>
    obtain ⟨⟨got, virt⟩, hget, hkeeps⟩ := getBuf_keeps h vqControl uninit
    cases got with
    | none =>
      rw [Nic.step, Nic.gotControl, hget] at hstep
      cases hstep
      exact hkeeps
    | some vbuf =>
      obtain ⟨t', mem, hgot, hkeeps, -⟩ := gotControl_ok h hget
      rw [Except.ok.inj (hstep.symm.trans hgot)]
      exact hkeeps
  | engine eng =>
    cases hstep
    exact .refl _

/-- **In every state of the device** its transport is ready. -/
theorem nic_ready {vendorId : UInt32} {mem : ByteMem} {image : List UInt8}
    {uninit : Nat → UInt8} {lastAlu : UInt32} {mac : List UInt8} {acts : List NicAct}
    (hrun : Run NicStep (Nic.init vendorId mem image uninit lastAlu mac) acts s) :
    Ready s.virt := by
  have hpos : 0 < numNetVqs := by decide
  have hinit : Ready (Nic.init vendorId mem image uninit lastAlu mac).virt :=
    (Ready.init hpos virtioNic vendorId offered mem).of_keeps (setConfigSpace_keeps _ _)
  exact hrun.invariant (I := fun s => Ready s.virt)
    (fun _ _ _ h hstep => h.of_keeps (nicStep_keeps h hstep)) hinit

/-! ## a new MAC -/

/-- The message of a control buffer has 128 bytes of data. -/
theorem message_length {mem : ByteMem} {vbuf : VirtBuf} {type : UInt8} {data : List UInt8}
    (h : Nic.message mem vbuf = some (type, data)) : data.length = 128 := by
  unfold Nic.message readControl at h
  by_cases hin : Inside (Buf.fresh mem vbuf).head sizeofControlMsg.toNat
  · rw [Buf.readU_of_inside hin] at h
    cases h
    rw [List.length_tail, ByteMem.length_readBytes]
    rfl
  · rw [Buf.readU_of_not_inside hin] at h
    contradiction

/-- **`SET_MAC`**: the new address is stored, and it is the whole configuration space. -/
theorem took_setMac {vbuf : VirtBuf} {data : List UInt8}
    (hmessage : Nic.message s.virt.mem vbuf = some (0, data))
    (haccepted : s.virt.driverFeatures &&& 0x8 ≠ 0) :
    (s.took vbuf).virt.configSpace = s.virt.configSpace.writeBytes 0 (data.take 6) ∧
    (s.took vbuf).virt.configSpaceSize = 6 ∧ (s.took vbuf).eng.mac = data.take 6 := by
  have hlen : (data.take 6).length = 6 := by
    rw [List.length_take, message_length hmessage]
    rfl
  rw [Nic.took, hmessage]
  dsimp only [Nic.handleControl, NetDev.handleControl]
  rw [if_pos ⟨rfl, haccepted⟩, if_pos rfl, if_pos haccepted, Dev.setConfigSpace, hlen,
    if_neg (by decide)]
  exact ⟨rfl, rfl, rfl⟩

/-- A word of the MAC registers. -/
theorem macWord_eq (eng : Engine) {off n : Nat} (h : off + n ≤ eng.mac.length) :
    eng.macWord off n = UInt32.ofNat (ofBytes ((eng.mac.drop off).take n)) := by
  have hbytes : (List.range n).map (fun i => eng.mac.getD (off + i) 0) =
      (eng.mac.drop off).take n := by
    refine List.ext_getElem (by simp; omega) fun i hi _ => ?_
    rw [List.length_map, List.length_range] at hi
    rw [List.getElem_map, List.getElem_range, List.getElem_take, List.getElem_drop,
      List.getD_eq_getElem]
  rw [Engine.macWord, hbytes]

/-- An address that was stored in the configuration space and in the engine. -/
theorem hasMac_of_stored {mac : List UInt8} {m : ByteMem} (ht : Ready t.virt)
    (hlen : mac.length = 6) (hconfig : t.virt.configSpace = m.writeBytes 0 mac)
    (hmac : t.eng.mac = mac) : HasMac t mac := by
  have hstored : t.virt.configSpace.readBytes 0 6 = mac := by
    rw [hconfig, ← hlen, ByteMem.readBytes_writeBytes]
  refine ⟨hstored, fun r k hconf hcovers hfour hk => ?_, ?_, ?_⟩
  · rw [answerByte_config ht hconf hcovers, if_pos hfour, ← hstored, ByteMem.readBytes,
      List.getD_eq_getElem _ _ (by simpa using hk), List.getElem_map, List.getElem_range,
      Nat.zero_add]
  · rw [macWord_eq _ (by rw [hmac, hlen]; decide), hmac]
    rfl
  · rw [macWord_eq _ (by rw [hmac, hlen]), hmac, List.take_of_length_le]
    rw [List.length_drop, hlen]

/-- **Changing the MAC.**  After every `SET_MAC` message that is accepted, the configuration
space and the engine have the new address; and every other byte of the configuration space
reads as before, through every access that was possible before, exactly if there was none
or they were all 0. -/
theorem set_mac_frames (hs : Ready s.virt) {uninit : UInt32} {vbuf : VirtBuf} {virt : Dev}
    {data : List UInt8} (hget : s.virt.getBuf vqControl uninit = .ok (some vbuf, virt))
    (hmessage : Nic.message s.virt.mem vbuf = some (0, data))
    (haccepted : s.virt.driverFeatures &&& 0x8 ≠ 0) :
    ∃ t, s.gotControl uninit = .ok t ∧ HasMac t (data.take 6) ∧
      (OthersRead s.virt t.virt ↔
        ∀ k, 6 ≤ k → k < s.virt.configSpaceSize.toNat → s.virt.configSpace k = 0) := by
  obtain ⟨t, mem, hgot, hkeeps, hvirt, heng⟩ := gotControl_ok hs hget
  obtain ⟨vqs, rfl⟩ : ∃ vqs, virt = { s.virt with vqs := vqs } := getBuf_frame hget
  obtain ⟨hconfig, hsize, hmac⟩ :=
    took_setMac (s := { s with virt := { s.virt with vqs := vqs } }) hmessage haccepted
  have ht : Ready t.virt := hs.of_keeps hkeeps
  have hlen : (data.take 6).length = 6 := by
    rw [List.length_take, message_length hmessage]
    rfl
  have hstored : t.virt.configSpace = s.virt.configSpace.writeBytes 0 (data.take 6) := by
    rw [hvirt]
    exact hconfig
  have hsize' : t.virt.configSpaceSize.toNat = 6 := by
    rw [hvirt]
    exact congrArg UInt32.toNat hsize
  exact ⟨t, hgot, hasMac_of_stored ht hlen hstored (by rw [heng, hmac]),
    othersRead_iff hs ht hsize'⟩

/-- A guest's memory with the message to set the MAC, twice. -/
def setMacMem : ByteMem := fun a => if a = 0x100402 then 2 else controlMem 0 a

/-- A device for that guest. -/
def setMacNic : Nic := .init 0 setMacMem [0x2a] (fun _ => 0) 0 [2, 0, 0, 0, 0, 1]

/-- The second message sets the MAC once more, and nothing else changes. -/
theorem set_mac_frames_again : ∃ s t,
    Run NicStep setMacNic (controlSetup 0x3f ++ [.control 0]) s ∧
    s.gotControl 0 = .ok t ∧ s.virt.configSpaceSize = 6 ∧ HasMac t [1, 0, 0, 0, 0, 0] ∧
    OthersRead s.virt t.virt := by
  have hexec : ((exec (fun s a => (s.step a).toOption) setMacNic
      (controlSetup 0x3f ++ [.control 0])).bind fun s =>
        (s.virt.getBuf vqControl 0).toOption.bind fun p => p.1.bind fun vbuf =>
          (Nic.message s.virt.mem vbuf).map fun m =>
            (m.1, m.2.take 6, s.virt.driverFeatures, s.virt.configSpaceSize)) =
      some (0, [1, 0, 0, 0, 0, 0], 0x3f, 6) := by
    decide +kernel
  obtain ⟨s, hs, hrest⟩ := Option.bind_eq_some_iff.1 hexec
  obtain ⟨⟨got, virt⟩, hget, hrest⟩ := Option.bind_eq_some_iff.1 hrest
  obtain ⟨vbuf, rfl, hrest⟩ := Option.bind_eq_some_iff.1 hrest
  obtain ⟨⟨type, data⟩, hmessage, hend⟩ := Option.map_eq_some_iff.1 hrest
  simp only [Prod.mk.injEq] at hend
  obtain ⟨rfl, hdata, hfeatures, hsize⟩ := hend
  have hrun : Run NicStep setMacNic (controlSetup 0x3f ++ [.control 0]) s :=
    ((run_iff_exec _).2 hs).mono fun _ _ _ hstep => ok_of_toOption hstep
  obtain ⟨t, ht, hmac, hothers⟩ := set_mac_frames (nic_ready hrun) (ok_of_toOption hget) hmessage
    (by rw [hfeatures]; decide)
  rw [hdata] at hmac
  refine ⟨s, t, hrun, ht, hsize, hmac, hothers.2 fun k hk hlt => ?_⟩
  rw [hsize] at hlt
  exact absurd hlt (Nat.not_lt.2 hk)

/-- **The other bytes are lost**: the first byte of the microcode reads 0x2a, until the
driver sets the MAC. -/
theorem set_mac_hides_microcode : ∃ s t,
    Run NicStep setMacNic (controlSetup 0x3f) s ∧ s.gotControl 0 = .ok t ∧
    s.virt.mmioRead 0x106 1 = .ok 0x2a ∧ t.eng.mac = [1, 0, 0, 0, 0, 0] ∧
    t.virt.mmioRead 0x106 1 = .ok 0 := by
  have hexec : ((exec (fun s a => (s.step a).toOption) setMacNic (controlSetup 0x3f)).bind
      fun s => (s.gotControl 0).toOption.map fun t => ((s.virt.mmioRead 0x106 1).toOption,
        t.eng.mac, (t.virt.mmioRead 0x106 1).toOption)) =
      some (some 0x2a, [1, 0, 0, 0, 0, 0], some 0) := by
    decide +kernel
  obtain ⟨s, hs, ht⟩ := Option.bind_eq_some_iff.1 hexec
  obtain ⟨t, ht, hend⟩ := Option.map_eq_some_iff.1 ht
  simp only [Prod.mk.injEq] at hend
  have hrun : Run NicStep setMacNic (controlSetup 0x3f) s :=
    ((run_iff_exec _).2 hs).mono fun _ _ _ hstep => ok_of_toOption hstep
  exact ⟨s, t, hrun, ok_of_toOption ht, ok_of_toOption hend.1, hend.2.1, ok_of_toOption hend.2.2⟩

end Ooows.Net
