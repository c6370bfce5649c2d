import Ooows.Net.Isolation

/-!
# Ooows.Net.ByteMerge

`ld_field` and `ld_field_w_clr`: words put together from the bytes of two registers.

The mask has a bit for each byte and is widened to one for each bit; a word is then
merged with two ands and a xor.  `byteOf_loadStored` says what that is, byte by byte.
The clearing variant sets the destination to zero before it reads the source, so it has
nothing to merge where the two are one register.
-/

namespace Ooows.Net

open Lib

/-! ## bytes of a word -/

/-- Byte `j` of a word, from the lowest. -/
def byteOf (v : UInt32) (j : Nat) : UInt8 := UInt8.ofNat (v.toNat / 256 ^ j)

/-- By how many bytes `perform_rot` moves a word up. -/
def movedBytes : Rot → Nat
  | .leftEight => 1
  | .leftSixteen => 2
  | _ => 0

/-- Byte `j` of a word once it was moved up. -/
def movedByte (v : UInt32) (rot : Rot) (j : Nat) : UInt8 :=
  if j < movedBytes rot then 0 else byteOf v (j - movedBytes rot)

/-- Byte `j` of what the instruction is to leave in the destination. -/
def mergedByte (opcode : LoadOpcode) (orig : UInt32) (mask : Fin 16) (src : UInt32) (rot : Rot)
    (j : Nat) : UInt8 :=
  if mask.val.testBit j then movedByte src rot j
  else
    match opcode with
    | .ldField => byteOf orig j
    | .ldFieldWClr => 0

/-- The bits of a byte. -/
theorem getLsbD_byteOf (v : UInt32) (j k : Nat) :
    (byteOf v j).toBitVec.getLsbD k = (decide (k < 8) && v.toBitVec.getLsbD (8 * j + k)) := by
  have hpow : 256 ^ j = 2 ^ (8 * j) := (Nat.pow_mul 2 8 j).symm
  change (BitVec.ofNat 8 (v.toNat / 256 ^ j)).getLsbD k = _
  rw [BitVec.getLsbD_ofNat, hpow, ← Nat.shiftRight_eq_div_pow, Nat.testBit_shiftRight]
  rfl

/-- Words that agree on the bits of a byte have the same byte. -/
theorem byteOf_congr {v w : UInt32} {i j : Nat}
    (h : ∀ k < 8, v.toBitVec.getLsbD (8 * i + k) = w.toBitVec.getLsbD (8 * j + k)) :
    byteOf v i = byteOf w j := by
  rw [← UInt8.toBitVec_inj]
  refine BitVec.eq_of_getLsbD_eq fun k hk => ?_
  rw [getLsbD_byteOf, getLsbD_byteOf, h k hk]

theorem byteOf_zero (j : Nat) : byteOf 0 j = 0 := by
  rw [byteOf, UInt32.toNat_zero, Nat.zero_div]
  rfl

/-- A shift by whole bytes. -/
theorem byteOf_shiftLeft (v n : UInt32) {d j : Nat} (hn : n.toNat = 8 * d) (hd : d < 4)
    (hj : j < 4) : byteOf (v <<< n) j = if j < d then 0 else byteOf v (j - d) := by
  have hmod : (n.toBitVec % 32).toNat = 8 * d := by
    rw [BitVec.toNat_umod]
    change n.toNat % 32 = 8 * d
    omega
  have hbits : ∀ k < 8, (v <<< n).toBitVec.getLsbD (8 * j + k) =
      (!decide (8 * j + k < 8 * d) && v.toBitVec.getLsbD (8 * j + k - 8 * d)) := by
    intro k hk
    have hlt : 8 * j + k < 32 := by omega
    rw [UInt32.toBitVec_shiftLeft, BitVec.shiftLeft_eq', hmod, BitVec.getLsbD_shiftLeft,
      decide_eq_true hlt, Bool.true_and]
  split
  next h =>
    rw [← byteOf_zero j]
    refine byteOf_congr fun k hk => ?_
    have hbelow : 8 * j + k < 8 * d := by omega
    rw [hbits k hk, decide_eq_true hbelow, UInt32.toBitVec_zero, BitVec.getLsbD_zero]
    rfl
  next h =>
    refine byteOf_congr fun k hk => ?_
    have habove : ¬ 8 * j + k < 8 * d := by omega
    have hback : 8 * j + k - 8 * d = 8 * (j - d) + k := by omega
    rw [hbits k hk, decide_eq_false habove, hback]
    rfl

/-- **What `perform_rot` does to the bytes of a word**. -/
theorem byteOf_performRot (v : UInt32) (rot : Rot) {j : Nat} (hj : j < 4) :
    byteOf (Engine.performRot v rot) j = movedByte v rot j := by
  cases rot with
  | noRot => rfl
  | anotherNoRot => rfl
  | leftEight => exact byteOf_shiftLeft v 8 rfl (by decide) hj
  | leftSixteen => exact byteOf_shiftLeft v 16 rfl (by decide) hj

/-! ## the mask -/

/-- **The widened mask** has the bits of the bytes that are selected. -/
theorem getLsbD_bytemaskToBitmask (mask : Fin 16) {j k : Nat} (hj : j < 4) (hk : k < 8) :
    (Engine.bytemaskToBitmask mask.val).toBitVec.getLsbD (8 * j + k) = mask.val.testBit j := by
  have hall : ∀ (mask : Fin 16) (j : Fin 4) (k : Fin 8),
      (Engine.bytemaskToBitmask mask.val).toBitVec.getLsbD (8 * j.val + k.val) =
        mask.val.testBit j.val := by
    decide +kernel
  exact hall mask ⟨j, hj⟩ ⟨k, hk⟩

/-- **The merge, byte by byte**. -/
theorem byteOf_loadStored (orig src : UInt32) (mask : Fin 16) (rot : Rot) {j : Nat} (hj : j < 4) :
    byteOf (loadStored orig src mask rot) j =
      if mask.val.testBit j then movedByte src rot j else byteOf orig j := by
  have hbits : ∀ k < 8, (loadStored orig src mask rot).toBitVec.getLsbD (8 * j + k) =
      if mask.val.testBit j then (Engine.performRot src rot).toBitVec.getLsbD (8 * j + k)
      else orig.toBitVec.getLsbD (8 * j + k) := by
    intro k hk
    have hlt : 8 * j + k < 32 := by omega
    simp only [loadStored, UInt32.toBitVec_xor, UInt32.toBitVec_and, UInt32.toBitVec_not,
      BitVec.getLsbD_xor, BitVec.getLsbD_and, BitVec.getLsbD_not,
      getLsbD_bytemaskToBitmask mask hj hk]
    cases mask.val.testBit j <;> simp [hlt]
  split
  next h =>
    rw [← byteOf_performRot src rot hj]
    exact byteOf_congr fun k hk => by rw [hbits k hk, if_pos h]
  next h => exact byteOf_congr fun k hk => by rw [hbits k hk, if_neg h]

/-! ## the instructions -/

theorem interpretInstruction_load (s : Engine) (uninit : UInt64) (opcode : LoadOpcode)
    (dst : Register) (mask : Fin 16) (src : Register) (rot : Rot) :
    s.interpretInstruction uninit (some (.load opcode dst mask src rot)) =
      s.interpretLoad opcode (Engine.absoluteRegister s.currentCtx dst) mask
        (Engine.absoluteRegister s.currentCtx src) rot := rfl

/-- What a load leaves in the destination. -/
theorem byteOf_reg_interpretLoad (s : Engine) (opcode : LoadOpcode) (d : Nat) (mask : Fin 16)
    (r : Nat) (rot : Rot) (h : opcode = .ldFieldWClr → r ≠ d) {j : Nat} (hj : j < 4) :
    byteOf ((s.interpretLoad opcode d mask r rot).reg d) j =
      mergedByte opcode (s.reg d) mask (s.reg r) rot j := by
  rw [(writes_load s opcode d mask r rot).reg d, if_pos rfl]
  cases opcode with
  | ldField => exact byteOf_loadStored _ _ mask rot hj
  | ldFieldWClr =>
    simp only [if_neg (h rfl)]
    rw [byteOf_loadStored _ _ mask rot hj, byteOf_zero]
    rfl

/-- `ld_field_w_clr` from a register to itself clears it. -/
theorem reg_interpretLoad_clear_self (s : Engine) (d : Nat) (mask : Fin 16) (rot : Rot) :
    (s.interpretLoad .ldFieldWClr d mask d rot).reg d = 0 := by
  have hrot : Engine.performRot 0 rot = 0 := by cases rot <;> rfl
  rw [(writes_load s .ldFieldWClr d mask d rot).reg d, if_pos rfl]
  simp [loadStored, hrot]

/-- The instruction leaves the merged bytes in its destination, and no other register changes. -/
def Merges (s : Engine) (uninit : UInt64) (opcode : LoadOpcode) (dst : Register) (mask : Fin 16)
    (src : Register) (rot : Rot) : Prop :=
  let d := Engine.absoluteRegister s.currentCtx dst
  let t := s.interpretInstruction uninit (some (.load opcode dst mask src rot))
  (∀ j < 4, byteOf (t.reg d) j = mergedByte opcode (s.reg d) mask
    (s.reg (Engine.absoluteRegister s.currentCtx src)) rot j) ∧
  ∀ r, r ≠ d → t.reg r = s.reg r

/-- **`ld_field` and `ld_field_w_clr` merge bytes**: the bytes the mask selects come from
the source, moved up, the others are the destination's or zero, and no other register
changes.  `ld_field_w_clr` from a register to itself does so exactly if all bytes it selects
are zero. -/
theorem ld_field_merges (s : Engine) (uninit : UInt64) (opcode : LoadOpcode) (dst : Register)
    (mask : Fin 16) (src : Register) (rot : Rot) :
    Merges s uninit opcode dst mask src rot ↔
      opcode = .ldField ∨
      Engine.absoluteRegister s.currentCtx src ≠ Engine.absoluteRegister s.currentCtx dst ∨
      ∀ j < 4, mask.val.testBit j →
        movedByte (s.reg (Engine.absoluteRegister s.currentCtx src)) rot j = 0 := by
  unfold Merges
  simp only [interpretInstruction_load]
  generalize Engine.absoluteRegister s.currentCtx src = r
  generalize Engine.absoluteRegister s.currentCtx dst = d
  have hothers : ∀ r', r' ≠ d → (s.interpretLoad opcode d mask r rot).reg r' = s.reg r' := by
    intro r' hr'
    rw [(writes_load ..).reg, if_neg hr']
  by_cases h : opcode = .ldFieldWClr → r ≠ d
  · refine iff_of_true
      ⟨fun j hj => byteOf_reg_interpretLoad s opcode d mask r rot h hj, hothers⟩ ?_
    cases opcode with
    | ldField => exact .inl rfl
    | ldFieldWClr => exact .inr (.inl (h rfl))
  · -- one register, which is zero when it is read
    rw [Classical.not_imp, not_not] at h
    obtain ⟨rfl, rfl⟩ := h
    simp only [reg_interpretLoad_clear_self, byteOf_zero, mergedByte]
    constructor
    · intro hmerged
      refine .inr (.inr fun j hj hbit => ?_)
      have hbyte := hmerged.1 j hj
      rw [if_pos hbit] at hbyte
      exact hbyte.symm
    · rintro (hopcode | hne | hzero)
      · contradiction
      · exact absurd rfl hne
      · refine ⟨fun j hj => ?_, hothers⟩
        split
        next hbit => exact (hzero j hj hbit).symm
        next => rfl

/-- The engine with nothing but two registers set. -/
def twoRegisters (v w : UInt32) : Engine :=
  ((Engine.init [] (fun _ => 0) 0 []).setReg 0 v).setReg 1 w

/-- A load from one of them to register 0. -/
def loadedFrom (s : Engine) (opcode : LoadOpcode) (mask : Fin 16) (src : UInt8) (rot : Rot) :
    UInt32 :=
  (s.interpretInstruction 0 (some (.load opcode ⟨.relative, 0⟩ mask ⟨.relative, src⟩ rot))).reg 0

/-- The two low bytes of register 1, moved up by one, between two bytes of register 0. -/
theorem ld_field_merges_two :
    byteOf (loadedFrom (twoRegisters 0x11223344 0xaabbccdd) .ldField 6 1 .leftEight) 0 = 0x44 ∧
    byteOf (loadedFrom (twoRegisters 0x11223344 0xaabbccdd) .ldField 6 1 .leftEight) 1 = 0xdd ∧
    byteOf (loadedFrom (twoRegisters 0x11223344 0xaabbccdd) .ldField 6 1 .leftEight) 2 = 0xcc ∧
    byteOf (loadedFrom (twoRegisters 0x11223344 0xaabbccdd) .ldField 6 1 .leftEight) 3 = 0x11 := by
  have h := ((ld_field_merges (twoRegisters 0x11223344 0xaabbccdd) 0 .ldField ⟨.relative, 0⟩ 6
    ⟨.relative, 1⟩ .leftEight).2 (.inl rfl)).1
  exact ⟨(h 0 (by decide)).trans (by decide), (h 1 (by decide)).trans (by decide),
    (h 2 (by decide)).trans (by decide), (h 3 (by decide)).trans (by decide)⟩

/-- The clearing variant on one register: every byte is selected, and lost. -/
theorem ld_field_w_clr_loses_source :
    byteOf (loadedFrom (twoRegisters 0x11223344 0) .ldFieldWClr 15 0 .noRot) 0 = 0 ∧
      mergedByte .ldFieldWClr ((twoRegisters 0x11223344 0).reg 0) 15
        ((twoRegisters 0x11223344 0).reg 0) .noRot 0 = 0x44 := by
  refine ⟨?_, by decide⟩
  have hclear := reg_interpretLoad_clear_self (twoRegisters 0x11223344 0) 0 15 .noRot
  exact (congrArg (byteOf · 0) hclear).trans (byteOf_zero 0)

end Ooows.Net
