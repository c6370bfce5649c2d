import Ooows.Virtio.Ready
import Mathlib.Data.Nat.Bitwise

/-!
# Ooows.Virtio.Features

Feature negotiation: the two registers, each with its own selector.

`half` is what the selectors are meant to denote: 0 the bits 0 to 31, 1 the bits 32 to 63.
Writing the driver's features follows it (`half_driverFeatures`).  Reading the device's
features does the opposite: selector 0 shows the upper half (`mmioRead_deviceFeatures`).  A
`Negotiation` is a driver that writes back what it has read under the same selector, with
any other accesses in between; it ends with the two halves exchanged
(`Negotiated.written`), so with the device's features only where the halves are equal.
-/

namespace Ooows.Virtio

open Lib

/-- The half of a feature word that a selector denotes. -/
def half (features : UInt64) (sel : Bool) : UInt32 :=
  if sel then (features >>> 32).toUInt32 else features.toUInt32

/-! ## halves -/

theorem toNat_half_false (features : UInt64) : (half features false).toNat = features.toNat % 2 ^ 32 :=
  UInt64.toNat_toUInt32 features

theorem toNat_half_true (features : UInt64) : (half features true).toNat = features.toNat / 2 ^ 32 := by
  have hlt := features.toNat_lt
  have hshift : (features >>> 32).toNat = features.toNat / 2 ^ 32 := by
    rw [UInt64.toNat_shiftRight, Nat.shiftRight_eq_div_pow]
    rfl
  show (features >>> 32).toUInt32.toNat = _
  rw [UInt64.toNat_toUInt32, hshift]
  omega

/-- The halves determine the word. -/
theorem half_ext {x y : UInt64} (hlow : half x false = half y false)
    (hhigh : half x true = half y true) : x = y := by
  rw [← UInt32.toNat_inj, toNat_half_false, toNat_half_false] at hlow
  rw [← UInt32.toNat_inj, toNat_half_true, toNat_half_true] at hhigh
  rw [← UInt64.toNat_inj]
  omega

/-- The low bits of a value. -/
theorem toNat_and_low (x : UInt64) : (x &&& 0xffffffff).toNat = x.toNat % 2 ^ 32 := by
  rw [UInt64.toNat_and]
  exact Nat.and_two_pow_sub_one_eq_mod x.toNat 32

theorem toNat_and_high (x : UInt64) :
    (x &&& 0xffffffff00000000).toNat = (x.toNat >>> 32) <<< 32 := by
  rw [UInt64.toNat_and]
  refine Nat.eq_of_testBit_eq fun i => ?_
  rw [Nat.testBit_and, show (0xffffffff00000000 : UInt64).toNat = (2 ^ 32 - 1) <<< 32 from rfl,
    Nat.testBit_shiftLeft, Nat.testBit_shiftLeft, Nat.testBit_shiftRight,
    Nat.testBit_two_pow_sub_one]
  by_cases hi : 32 ≤ i
  · by_cases hlt : i < 64
    · simp [hi, show i - 32 < 32 by omega]
    · have hbit : x.toNat.testBit i = false :=
        Nat.testBit_lt_two_pow (Nat.lt_of_lt_of_le x.toNat_lt (Nat.pow_le_pow_right (by decide) (by omega)))
      simp [hi, hbit]
  · simp [hi]

/-- Two numbers side by side. -/
theorem or_halves {low high : Nat} (hlow : low < 2 ^ 32) : high <<< 32 ||| low = high * 2 ^ 32 + low := by
  rw [← Nat.shiftLeft_add_eq_or_of_lt hlow, Nat.shiftLeft_eq]

/-- The word that `REG_DRIVER_FEATURES` leaves. -/
def withHalf (features : UInt64) (sel : Bool) (data : UInt64) : UInt64 :=
  let low : UInt64 := data &&& 0xffffffff
  if sel then (features &&& 0x00000000ffffffff : UInt64) ||| (low <<< 32 : UInt64)
  else (features &&& 0xffffffff00000000 : UInt64) ||| low

theorem toNat_withHalf_true (features data : UInt64) :
    (withHalf features true data).toNat = (data.toNat % 2 ^ 32) * 2 ^ 32 + features.toNat % 2 ^ 32 := by
  have hlow : features.toNat % 2 ^ 32 < 2 ^ 32 := Nat.mod_lt _ (by decide)
  have hlt : data.toNat % 2 ^ 32 < 2 ^ 32 := Nat.mod_lt _ (by decide)
  have hshift : ((data &&& 0xffffffff) <<< 32 : UInt64).toNat = (data.toNat % 2 ^ 32) <<< 32 := by
    rw [UInt64.toNat_shiftLeft, toNat_and_low]
    refine Nat.mod_eq_of_lt ?_
    rw [Nat.shiftLeft_eq]
    show _ * 2 ^ 32 < 2 ^ 64
    omega
  show ((features &&& 0xffffffff) ||| _ : UInt64).toNat = _
  rw [UInt64.toNat_or, hshift, toNat_and_low, Nat.or_comm, or_halves hlow]

theorem toNat_withHalf_false (features data : UInt64) :
    (withHalf features false data).toNat = (features.toNat / 2 ^ 32) * 2 ^ 32 + data.toNat % 2 ^ 32 := by
  have hlow : data.toNat % 2 ^ 32 < 2 ^ 32 := Nat.mod_lt _ (by decide)
  show ((features &&& 0xffffffff00000000) ||| (data &&& 0xffffffff) : UInt64).toNat = _
  rw [UInt64.toNat_or, toNat_and_high, toNat_and_low, or_halves hlow, Nat.shiftRight_eq_div_pow]

/-- **Writing** sets the half that the selector denotes and keeps the other. -/
theorem half_withHalf (features : UInt64) (sel : Bool) (data : UInt64) :
    half (withHalf features sel data) sel = data.toUInt32 ∧
      half (withHalf features sel data) (!sel) = half features (!sel) := by
  have hlt := features.toNat_lt
  cases sel with
  | false =>
    constructor
    · rw [← UInt32.toNat_inj, toNat_half_false, toNat_withHalf_false, UInt64.toNat_toUInt32]
      omega
    · show half _ true = half _ true
      rw [← UInt32.toNat_inj, toNat_half_true, toNat_half_true, toNat_withHalf_false]
      omega
  | true =>
    constructor
    · rw [← UInt32.toNat_inj, toNat_half_true, toNat_withHalf_true, UInt64.toNat_toUInt32]
      omega
    · show half _ false = half _ false
      rw [← UInt32.toNat_inj, toNat_half_false, toNat_half_false, toNat_withHalf_true]
      omega

/-! ## the two registers -/

variable {d d' : Dev}

/-- `REG_DEVICE_FEATURES`. -/
def regDeviceFeatures : UInt64 := 0x10

/-- `REG_DRIVER_FEATURES`. -/
def regDriverFeatures : UInt64 := 0x20

/-- **Reading** shows the half that the selector does not denote. -/
theorem mmioRead_deviceFeatures (d : Dev) (size : UInt32) :
    d.mmioRead regDeviceFeatures size = .ok (half d.deviceFeatures (!d.deviceFeaturesSel)) := by
  have hread : d.mmioRead regDeviceFeatures size = .ok d.getDeviceFeatureBits := rfl
  rw [hread, Dev.getDeviceFeatureBits]
  cases d.deviceFeaturesSel <;> rfl

theorem mmioWrite_driverFeatures (d : Dev) (size : UInt32) (data : UInt64) :
    d.mmioWrite regDriverFeatures size data =
      .ok ({ d with driverFeatures := withHalf d.driverFeatures d.driverFeaturesSel data }, none) :=
  rfl

theorem offset_of_driverFeatures {offset : UInt64}
    (h : Dev.Reg.ofOffset offset = some .driverFeatures) : offset = regDriverFeatures := by
  unfold Dev.Reg.ofOffset at h
  split at h
  all_goals first
    | contradiction
    | next hoff => exact UInt64.toNat_inj.1 hoff

/-! ## steps that leave the features alone -/

/-- Both feature words are unchanged. -/
structure SameFeatures (d d' : Dev) : Prop where
  device : d'.deviceFeatures = d.deviceFeatures
  driver : d'.driverFeatures = d.driverFeatures

theorem SameFeatures.refl (d : Dev) : SameFeatures d d := ⟨rfl, rfl⟩

theorem SameFeatures.trans {d'' : Dev} (h : SameFeatures d d') (h' : SameFeatures d' d'') :
    SameFeatures d d'' :=
  ⟨h'.device.trans h.device, h'.driver.trans h.driver⟩

theorem modifySelected_features {f : VirtQueue → VirtQueue} (h : d.modifySelected f = .ok d') :
    SameFeatures d d' := by
  unfold Dev.modifySelected at h
  cases hsel : d.selected with
  | error fault =>
    rw [hsel] at h
    contradiction
  | ok vq =>
    rw [hsel] at h
    cases h
    exact ⟨rfl, rfl⟩

theorem readyQueue_features {ok : Bool} (h : d.readyQueue = .ok (d', ok)) : SameFeatures d d' := by
  unfold Dev.readyQueue at h
  cases hsel : d.selected with
  | error fault =>
    rw [hsel] at h
    contradiction
  | ok vq =>
    rw [hsel] at h
    simp only [Except.map] at h
    split at h <;> cases h <;> exact ⟨rfl, rfl⟩

/-- The result of a map that succeeds. -/
theorem map_eq_ok {ε α β : Type} {f : α → β} {x : Except ε α} {b : β} (h : x.map f = .ok b) :
    ∃ a, x = .ok a ∧ f a = b := by
  cases x with
  | error e => contradiction
  | ok a => exact ⟨a, rfl, Except.ok.inj h⟩

/-- **Only a write to `REG_DRIVER_FEATURES`** changes the features. -/
theorem mmioWrite_features {offset data : UInt64} {size : UInt32} {p : Dev × Option UInt16}
    (h : d.mmioWrite offset size data = .ok p) (hne : offset ≠ regDriverFeatures) :
    SameFeatures d p.1 := by
  have hqueue : ∀ {f : VirtQueue → VirtQueue}, (d.modifySelected f).map (·, none) = .ok p →
      SameFeatures d p.1 := by
    intro f hf
    obtain ⟨d', hd', rfl⟩ := map_eq_ok hf
    exact modifySelected_features hd'
  unfold Dev.mmioWrite at h
  split at h
  next =>
    obtain ⟨d', hd', rfl⟩ := map_eq_ok h
    unfold Dev.configSpaceWrite at hd'
    split at hd'
    next =>
      cases hd'
      exact ⟨rfl, rfl⟩
    next => contradiction
  next =>
    cases hreg : Dev.Reg.ofOffset offset with
    | none =>
      rw [hreg] at h
      cases h
      exact .refl d
    | some reg =>
      rw [hreg] at h
      cases reg with
      | driverFeatures => exact absurd (offset_of_driverFeatures hreg) hne
      | deviceFeaturesSelect | driverFeaturesSelect | intrAck =>
        cases h
        exact ⟨rfl, rfl⟩
      | queueSelect =>
        cases h
        dsimp only
        split <;> exact ⟨rfl, rfl⟩
      | queueNum =>
        dsimp only at h
        split at h
        next => exact hqueue h
        next =>
          cases h
          exact .refl d
      | queueReady =>
        dsimp only at h
        split at h
        next =>
          obtain ⟨r, hr, rfl⟩ := map_eq_ok h
          exact readyQueue_features hr
        next =>
          cases h
          exact .refl d
      | queueDescLow | queueDescHigh | queueDriverLow | queueDriverHigh | queueDeviceLow
      | queueDeviceHigh => exact hqueue h
      | queueNotify | magicVal | deviceVers | subsysDevId | subsysVendId | deviceFeatures
      | queueNumMax | isr | deviceStatus =>
        cases h
        exact .refl d

variable {vqIdx : UInt16}

/-- `get_buf` changes nothing but a queue. -/
theorem getBuf_frame {uninit : UInt32} {p : Option VirtBuf × Dev}
    (h : d.getBuf vqIdx uninit = .ok p) : ∃ vqs, p.2 = { d with vqs := vqs } := by
  unfold Dev.getBuf at h
  split at h
  next =>
    cases h
    exact ⟨d.vqs, rfl⟩
  next vq _ =>
    simp only [bind, Except.bind, pure, Except.pure] at h
    split at h
    next => contradiction
    next =>
      split at h
      next =>
        cases h
        exact ⟨d.vqs, rfl⟩
      next =>
        split at h
        next => contradiction
        next => split at h <;> cases h <;> exact ⟨_, rfl⟩

/-- `put_buf` changes nothing but the guest's memory. -/
theorem putBuf_frame {vbuf : VirtBuf} {p : Bool × Dev}
    (h : d.putBuf vqIdx vbuf = .ok p) : ∃ mem, p.2 = { d with mem := mem } := by
  unfold Dev.putBuf at h
  split at h
  next =>
    cases h
    exact ⟨d.mem, rfl⟩
  next vq _ =>
    simp only [bind, Except.bind, pure, Except.pure] at h
    split at h
    next => contradiction
    next =>
      split at h
      next =>
        cases h
        exact ⟨d.mem, rfl⟩
      next =>
        split at h
        next =>
          cases h
          exact ⟨d.mem, rfl⟩
        next =>
          split at h
          next => contradiction
          next =>
            cases h
            exact ⟨_, rfl⟩

theorem getBuf_features {uninit : UInt32} {p : Option VirtBuf × Dev}
    (h : d.getBuf vqIdx uninit = .ok p) : SameFeatures d p.2 := by
  obtain ⟨vqs, heq⟩ := getBuf_frame h
  rw [heq]
  exact ⟨rfl, rfl⟩

theorem putBuf_features {vbuf : VirtBuf} {p : Bool × Dev}
    (h : d.putBuf vqIdx vbuf = .ok p) : SameFeatures d p.2 := by
  obtain ⟨mem, heq⟩ := putBuf_frame h
  rw [heq]
  exact ⟨rfl, rfl⟩

/-! ## negotiation -/

/-- A driver that negotiates, and its device. -/
structure Negotiation where
  dev : Dev
  /-- The value last read from `REG_DEVICE_FEATURES` under each selector. -/
  seen : Bool → Option UInt32
  /-- The selectors under which a value was written back. -/
  written : Bool → Bool

inductive NegAct
  /-- An access to any other register or a read, or anything else that happens to the
  device. -/
  | access (a : DevAct)
  /-- What was read under the selector of `REG_DRIVER_FEATURES` is written to it. -/
  | writeBack

def DevAct.writesFeatures : DevAct → Bool
  | .write r => r.offset = regDriverFeatures
  | _ => false

namespace Negotiation

def start (dev : Dev) : Negotiation := ⟨dev, fun _ => none, fun _ => false⟩

/-- What the driver has seen after an access. -/
def learn (s : Negotiation) : DevAct → Bool → Option UInt32
  | .read r => if r.offset = regDeviceFeatures then
      Function.update s.seen s.dev.deviceFeaturesSel (s.dev.mmioRead r.offset r.size).toOption
    else s.seen
  | _ => s.seen

def step (s : Negotiation) : NegAct → Option Negotiation
  | .access a => if a.writesFeatures then none
    else (s.dev.step a).toOption.map fun d => { s with dev := d, seen := s.learn a }
  | .writeBack => match s.seen s.dev.driverFeaturesSel with
      | none => none
      | some v => (s.dev.mmioWrite regDriverFeatures 4 v.toUInt64).toOption.map fun p =>
        { s with dev := p.1, written := Function.update s.written s.dev.driverFeaturesSel true }

end Negotiation

/-- **The invariant of a negotiation**: what was read under a selector, and what was
written back under it, is the half that the other selector denotes. -/
structure Negotiated (features : UInt64) (s : Negotiation) : Prop where
  device : s.dev.deviceFeatures = features
  seen : ∀ sel v, s.seen sel = some v → v = half features (!sel)
  written : ∀ sel, s.written sel = true → half s.dev.driverFeatures sel = half features (!sel)

theorem Negotiated.start (dev : Dev) : Negotiated dev.deviceFeatures (.start dev) :=
  ⟨rfl, fun _ _ h => by contradiction, fun _ h => by contradiction⟩

theorem step_features {a : DevAct} (h : d.step a = .ok d') (ha : a.writesFeatures = false) :
    SameFeatures d d' := by
  cases a with
  | read r =>
    obtain ⟨_, -, rfl⟩ := map_eq_ok h
    exact .refl d
  | write r =>
    obtain ⟨p, hp, rfl⟩ := map_eq_ok h
    exact mmioWrite_features hp (of_decide_eq_false ha)
  | get vqIdx uninit =>
    obtain ⟨p, hp, rfl⟩ := map_eq_ok h
    exact getBuf_features hp
  | put vqIdx vbuf =>
    obtain ⟨p, hp, rfl⟩ := map_eq_ok h
    exact putBuf_features hp
  | setConfigSpace data =>
    cases h
    unfold Dev.setConfigSpace
    split <;> exact ⟨rfl, rfl⟩
  | guest mem =>
    cases h
    exact ⟨rfl, rfl⟩

variable {features : UInt64} {s t : Negotiation}

theorem Negotiated.learn (h : Negotiated features s) (a : DevAct) (sel : Bool) (v : UInt32)
    (hv : s.learn a sel = some v) : v = half features (!sel) := by
  unfold Negotiation.learn at hv
  split at hv
  next r =>
    split at hv
    next hoff =>
      rw [hoff, mmioRead_deviceFeatures] at hv
      by_cases hsel : sel = s.dev.deviceFeaturesSel
      · rw [hsel, Function.update_self] at hv
        rw [← Option.some.inj hv, hsel, h.device]
      · rw [Function.update_of_ne hsel] at hv
        exact h.seen sel v hv
    next => exact h.seen sel v hv
  next => exact h.seen sel v hv

theorem Negotiated.step {a : NegAct} (h : Negotiated features s) (hstep : s.step a = some t) :
    Negotiated features t := by
  cases a with
  | access a =>
    obtain ⟨hwrites, hstep⟩ := Option.ite_none_left_eq_some.1 hstep
    obtain ⟨d, hd, rfl⟩ := Option.map_eq_some_iff.1 hstep
    have hsame := step_features (ok_of_toOption hd) (Bool.not_eq_true _ ▸ hwrites)
    refine ⟨hsame.device.trans h.device, h.learn a, fun sel hw => ?_⟩
    rw [hsame.driver]
    exact h.written sel hw
  | writeBack =>
    simp only [Negotiation.step] at hstep
    split at hstep
    next => contradiction
    next v hv =>
      rw [mmioWrite_driverFeatures] at hstep
      cases hstep
      obtain ⟨hself, hother⟩ := half_withHalf s.dev.driverFeatures s.dev.driverFeaturesSel v.toUInt64
      refine ⟨h.device, h.seen, fun sel hw => ?_⟩
      dsimp only at hw ⊢
      by_cases hsel : sel = s.dev.driverFeaturesSel
      · rw [hsel, hself, UInt32.toUInt32_toUInt64]
        exact h.seen _ v hv
      · rw [Function.update_of_ne hsel] at hw
        rw [← Bool.eq_not.2 hsel] at hother
        rw [hother]
        exact h.written sel hw

theorem Negotiated.run {acts : List NegAct} (h : Negotiated features s)
    (hrun : Run (fun s a t => Negotiation.step s a = some t) s acts t) : Negotiated features t :=
  hrun.invariant (fun _ _ _ h hstep => h.step hstep) h

/-- **Feature negotiation.**  Whatever accesses a driver makes, in any order: a selector
denotes the same half on both sides exactly if the halves of the device's features are
equal (writing always sets the half that the selector denotes, and keeps the other), and
a driver that has written back what it read under both selectors ends with the device's
features under the same condition. -/
theorem features_agree_iff_halves_eq (dev : Dev) {acts : List NegAct} {s : Negotiation}
    (hrun : Run (fun s a t => Negotiation.step s a = some t) (.start dev) acts s) :
    (∀ size, s.dev.mmioRead regDeviceFeatures size =
        .ok (half dev.deviceFeatures s.dev.deviceFeaturesSel) ↔
      half dev.deviceFeatures false = half dev.deviceFeatures true) ∧
    (∀ size data, ∃ d', s.dev.mmioWrite regDriverFeatures size data = .ok (d', none) ∧
      half d'.driverFeatures s.dev.driverFeaturesSel = data.toUInt32 ∧
      half d'.driverFeatures (!s.dev.driverFeaturesSel) =
        half s.dev.driverFeatures (!s.dev.driverFeaturesSel)) ∧
    (s.written false = true → s.written true = true →
      (s.dev.driverFeatures = dev.deviceFeatures ↔
        half dev.deviceFeatures false = half dev.deviceFeatures true)) := by
  have h := (Negotiated.start dev).run hrun
  refine ⟨fun size => ?_, fun size data => ?_, fun hlow hhigh => ?_⟩
  · rw [mmioRead_deviceFeatures, h.device, Except.ok.injEq]
    cases s.dev.deviceFeaturesSel with
    | false => exact eq_comm
    | true => exact Iff.rfl
  · exact ⟨_, mmioWrite_driverFeatures s.dev size data, half_withHalf ..⟩
  · have hlow := h.written false hlow
    have hhigh := h.written true hhigh
    constructor
    · intro heq
      rw [heq] at hlow
      exact hlow
    · intro heq
      exact half_ext (hlow.trans heq.symm) (hhigh.trans heq)

theorem regDeviceFeatures_lt : regDeviceFeatures.toNat < 0x100000000 := by decide

/-- Read the device's features under both selectors, and write them back. -/
def negotiate : List NegAct :=
  let readFeatures : NegAct := .access (.read ⟨regDeviceFeatures, 4, 0, regDeviceFeatures_lt, four_le_eight⟩)
  [.access (writeReg 0x14 0), readFeatures, .access (writeReg 0x24 0), .writeBack,
    .access (writeReg 0x14 1), readFeatures, .access (writeReg 0x24 1), .writeBack]

/-- A device whose halves are equal. -/
theorem features_agree_of_equal_halves : ∃ s,
    Run (fun s a t => Negotiation.step s a = some t)
      (.start (Dev.init 1 0 0 0x3700000037 fun _ => 0)) negotiate s ∧
    s.dev.driverFeatures = 0x3700000037 := by
  have hexec : ((exec Negotiation.step (.start (Dev.init 1 0 0 0x3700000037 fun _ => 0))
      negotiate).map fun s => (s.written false, s.written true)) = some (true, true) := by
    decide +kernel
  obtain ⟨s, hs, hwritten⟩ := Option.map_eq_some_iff.1 hexec
  have hrun := (run_iff_exec _).2 hs
  obtain ⟨hlow, hhigh⟩ := Prod.mk.inj hwritten
  exact ⟨s, hrun, ((features_agree_iff_halves_eq _ hrun).2.2 hlow hhigh).2 (by decide)⟩

/-- **The halves are exchanged**: the network device offers 0x37, and the driver that
writes back what it reads accepts the bits 32 and up. -/
theorem features_exchanged : ∃ s,
    Run (fun s a t => Negotiation.step s a = some t)
      (.start (Dev.init 3 1 0 0x37 fun _ => 0)) negotiate s ∧
    s.written false = true ∧ s.written true = true ∧ s.dev.driverFeatures = 0x3700000000 := by
  have hexec : ((exec Negotiation.step (.start (Dev.init 3 1 0 0x37 fun _ => 0))
      negotiate).map fun s => (s.written false, s.written true, s.dev.driverFeatures)) =
      some (true, true, 0x3700000000) := by
    decide +kernel
  obtain ⟨s, hs, hend⟩ := Option.map_eq_some_iff.1 hexec
  simp only [Prod.mk.injEq] at hend
  exact ⟨s, (run_iff_exec _).2 hs, hend⟩

end Ooows.Virtio
