import Ooows.HyperO.FiniteMap

/-!
# Ooows.HyperO.Ranges

What `ept_map_range` and `ept_unmap_range` do to the tables as whole calls.

* `mapRange_addr` says what a map call does for every page-aligned guest address
  and every size: it returns within `2 ^ 18 + 1` iterations, it maps the pages
  from the first one through `size / 4096` *inclusive*, as far as they are below
  1 GiB, and it returns `true` exactly if all of them are.
* `RangeExact` is what such a call is for: exactly the `ceil (size / 4096)` pages
  of the range change, each of them points to the frame its host address has in
  the page tables, and the unmap call clears them again.
* `mapRange_exact`: the calls that do this whatever the tables hold are those for
  an address from 1 GiB on, which change nothing, and those for a range inside
  table 0 of a size that is not a multiple of the page size, whose host pages
  are of the kinds the module can translate (`HostOk`).
-/

namespace Ooows.HyperO

open Vm

theorem addr_le_iff {j : Nat} (h : j < 2 ^ 52) (size : UInt64) :
    addr j ≤ size ↔ j ≤ size.toNat / 4096 := by
  rw [UInt64.le_iff_toNat_le, toNat_addr h]
  omega

variable {k : Kernel} {user : User} {vm : Vm}

variable {p : Nat}

/-- `ept_map` of a page from 1 GiB on. -/
theorem eptMap_addr_high (hp : p < 2 ^ 52) (h : 2 ^ 18 ≤ p) (hva : UInt64) :
    vm.eptMap k (addr p) hva = none := by
  have hhigh : tooHigh (addr p) = true := by
    rw [tooHigh_addr hp, decide_eq_true h]
  rw [eptMap, if_pos hhigh]

/-- `ept_map` of a page below 1 GiB. -/
theorem eptMap_addr_low (h : p < 2 ^ 18) (hva : UInt64) :
    vm.eptMap k (addr p) hva = some (vm.set p ((vm.pt p).mapTo (k.virtToPhys hva / 4096))) := by
  rw [eptMap, tooHigh_addr (by omega), if_neg (by simpa using h),
    mapIdx_of_page (addr_div (show p < 2 ^ 52 by omega)) h]

/-! ## mapping -/

/-- The entry a map call leaves for the `j`-th page of its range. -/
def mappedEntry (k : Kernel) (user : User) (base : UInt64) (j : Nat) (e : EptPte) : EptPte :=
  e.mapTo (k.virtToPhys (hostVaAt k user base (addr j)) / 4096)

/-- The first page behind those a map call from page `p` reaches. -/
def mapEnd (p : Nat) (size : UInt64) : Nat := min (p + size.toNat / 4096 + 1) (2 ^ 18)

/-- The call from its `j`-th page on. -/
theorem mapRange_from (k : Kernel) (user : User) (base : UInt64) {p j n : Nat} {size : UInt64}
    (vm : Vm) (hj : j ≤ size.toNat / 4096 + 1)
    (hpj : p + j ≤ 2 ^ 18) (hn : mapEnd p size - (p + j) < n) :
    ∃ vm', mapRange k user (addr p) base size n (addr j) vm =
        (some (decide (p + size.toNat / 4096 < 2 ^ 18)), vm') ∧
      ∀ i, vm'.pt i = if p + j ≤ i ∧ i < mapEnd p size
        then mappedEntry k user base (i - p) (vm.pt i) else vm.pt i := by
  induction n generalizing j vm with
  | zero => omega
  | succ n ih =>
    have hend : mapEnd p size = min (p + size.toNat / 4096 + 1) (2 ^ 18) := rfl
    unfold mapRange
    rw [addr_add]
    have hiff := addr_le_iff (show j < 2 ^ 52 by omega) size
    by_cases hle : j ≤ size.toNat / 4096
    · rw [if_pos (hiff.2 hle)]
      by_cases hlow : p + j < 2 ^ 18
      · rw [eptMap_addr_low hlow, addr_succ]
        obtain ⟨vm', hrun, hpt⟩ := @ih (j + 1) (vm.set (p + j)
          ((vm.pt (p + j)).mapTo (k.virtToPhys (hostVaAt k user base (addr j)) / 4096)))
          (by omega) (by omega) (by omega)
        refine ⟨vm', hrun, fun i => ?_⟩
        rw [hpt i]
        by_cases hi : i = p + j
        · subst hi
          rw [if_neg (by omega), if_pos (by omega), mappedEntry, Nat.add_sub_cancel_left]
          simp [Vm.set]
        · have hset : (vm.set (p + j) ((vm.pt (p + j)).mapTo
              (k.virtToPhys (hostVaAt k user base (addr j)) / 4096))).pt i = vm.pt i := by
            simp [Vm.set, hi]
          rw [hset]
          by_cases hin : p + (j + 1) ≤ i ∧ i < mapEnd p size
          · rw [if_pos hin, if_pos (by omega)]
          · rw [if_neg hin, if_neg (by omega)]
      · -- the page is the first one from 1 GiB on, and `ept_map` refuses it
        rw [eptMap_addr_high (by omega) (by omega)]
        refine ⟨vm, ?_, fun i => ?_⟩
        · rw [decide_eq_false (by omega)]
        · rw [if_neg (by omega)]
    · rw [if_neg (mt hiff.1 hle)]
      refine ⟨vm, ?_, fun i => ?_⟩
      · rw [decide_eq_true (by omega)]
      · rw [if_neg (by omega)]

/-- **A map call**: for every page-aligned address and every size it returns, `true` exactly if
the pages through `size / 4096` inclusive are below 1 GiB, and has mapped those that are. -/
theorem mapRange_addr (k : Kernel) (user : User) (vm : Vm) {p : Nat} (hp : p < 2 ^ 52)
    (base size : UInt64) :
    ∃ vm', mapRange k user (addr p) base size (2 ^ 18 + 1) 0 vm =
        (some (decide (p + size.toNat / 4096 < 2 ^ 18)), vm') ∧
      ∀ i, vm'.pt i = if p ≤ i ∧ i < mapEnd p size
        then mappedEntry k user base (i - p) (vm.pt i) else vm.pt i := by
  have hend : mapEnd p size = min (p + size.toNat / 4096 + 1) (2 ^ 18) := rfl
  by_cases hlow : p < 2 ^ 18
  · obtain ⟨vm', hrun, hpt⟩ := mapRange_from k user base (p := p) (j := 0) (n := 2 ^ 18 + 1) vm
      (Nat.zero_le (size.toNat / 4096 + 1)) (by omega) (by omega)
    exact ⟨vm', hrun, by simpa using hpt⟩
  · refine ⟨vm, ?_, fun i => ?_⟩
    · have hzero : addr p + 0 = addr p := UInt64.add_zero _
      unfold mapRange
      rw [if_pos (UInt64.zero_le), hzero, eptMap_addr_high hp (by omega), decide_eq_false (by omega)]
    · rw [if_neg (by omega)]

/-! ## exactly the requested range -/

/-- The entry is the one `ept_map` makes for the frame. -/
def PointsTo (e : EptPte) (f : UInt64) : Prop :=
  e.physicalAddress = BitVec.ofNat 36 f.toNat ∧ e.read ∧ e.write ∧ e.execute

/-- The page is one of the range's. -/
def InRange (p : Nat) (size : UInt64) (i : Nat) : Prop := p ≤ i ∧ i < p + pages size

instance (p : Nat) (size : UInt64) (i : Nat) : Decidable (InRange p size i) :=
  inferInstanceAs (Decidable (_ ∧ _))

/-- The tables `vm'` are `vm` with exactly the pages of the range mapped: each has an entry in
`vm->pt`, which points to the frame of its host address, and every other entry is as before. -/
def Maps (user : User) (p : Nat) (base size : UInt64) (vm vm' : Vm) : Prop :=
  (∀ j < pages size, p + j < 128 * 512 ∧
      ∃ f, user.frame (base + addr j) = some f ∧ PointsTo (vm'.pt (p + j)) f) ∧
    ∀ i, ¬ InRange p size i → vm'.pt i = vm.pt i

/-- `ept_unmap_range` returns and clears exactly the entries of the range. -/
def Unmaps (p : Nat) (size : UInt64) (vm' : Vm) : Prop :=
  ∃ vm'', unmapRange (addr p) size (pages size + 1) 0 vm' = (true, vm'') ∧
    ∀ i, vm''.pt i = if InRange p size i then .zero else vm'.pt i

/-- **What a map call is for**: it returns; after `true` exactly the requested pages are mapped
and the unmap call clears exactly these, after `false` nothing has changed. -/
def RangeExact (k : Kernel) (user : User) (p : Nat) (base size : UInt64) (vm : Vm) : Prop :=
  ∃ b vm', mapRange k user (addr p) base size (2 ^ 18 + 1) 0 vm = (some b, vm') ∧
    (b = true → Maps user p base size vm vm' ∧ Unmaps p size vm') ∧
    (b = false → ∀ i, vm'.pt i = vm.pt i)

/-- The host address is of a kind that the module translates to the frame it has.  With a kernel
base, `virt_to_phys` has to be right for it, as it is in the direct map.  With a user base, it has
to have a present page of 4 KiB; of a larger page the module finds the frame by accident only: for
1 GiB if it is frame 0, for 2 MiB if the contents it takes for an entry lead there. -/
def HostOk (k : Kernel) (user : User) (base va : UInt64) : Prop :=
  if base >>> 63 ≠ 0 then
    ∃ f, user.frame va = some f ∧
      BitVec.ofNat 36 (k.virtToPhys va / 4096).toNat = BitVec.ofNat 36 f.toNat
  else match user.walk va with
    | .missing => False
    | .gigantic _ => user.frame va = some 0
    | .huge _ entry => ∃ f, user.frame va = some f ∧
        BitVec.ofNat 36 (k.virtToPhys (k.physToVirt (entry <<< 12)) / 4096).toNat =
          BitVec.ofNat 36 f.toNat
    | .pte _ present => present = true

/-- The condition on a call. -/
def RangeOk (k : Kernel) (user : User) (p : Nat) (base size : UInt64) : Prop :=
  2 ^ 18 ≤ p ∨ size.toNat % 4096 ≠ 0 ∧ p + pages size ≤ 512 ∧
    ∀ j < pages size, HostOk k user base (base + addr j)

/-- A frame in RAM is one of the 36 bits' numbers, so 0 stands for itself. -/
theorem frame_zero_iff {va f : UInt64} (h : user.frame va = some f) :
    (0 : BitVec 36) = BitVec.ofNat 36 f.toNat ↔ f = 0 := by
  have hram := user.ram va f h
  constructor
  · intro heq
    have hnat := congrArg BitVec.toNat heq
    rw [BitVec.toNat_ofNat, Nat.mod_eq_of_lt (by omega)] at hnat
    exact UInt64.toNat_inj.1 hnat.symm
  · rintro rfl
    rfl

/-- A host page is mapped to its frame exactly if it is of a kind the module knows. -/
theorem pointsTo_mappedEntry_iff {base : UInt64} {j : Nat} (e : EptPte) :
    (∃ f, user.frame (base + addr j) = some f ∧ PointsTo (mappedEntry k user base j e) f) ↔
      HostOk k user base (base + addr j) := by
  have hpoints : ∀ f, PointsTo (mappedEntry k user base j e) f ↔
      BitVec.ofNat 36 (k.virtToPhys (hostVaAt k user base (addr j)) / 4096).toNat =
        BitVec.ofNat 36 f.toNat :=
    fun f => ⟨fun h => h.1, fun h => ⟨h, rfl, rfl, rfl⟩⟩
  simp only [hpoints]
  unfold hostVaAt HostOk
  split
  · exact Iff.rfl
  · have hzero : k.virtToPhys (k.physToVirt 0) / 4096 = 0 := by
      rw [Kernel.physToVirt, k.direct _ (by decide)]
      rfl
    cases hwalk : user.walk (base + addr j) with
    | missing =>
      refine iff_of_false ?_ id
      rintro ⟨f, hf, -⟩
      rw [User.frame, hwalk] at hf
      contradiction
    | gigantic pfn =>
      rw [userspaceVirtToPhys, hwalk]
      dsimp only
      rw [hzero]
      constructor
      · rintro ⟨f, hf, heq⟩
        rw [hf, (frame_zero_iff hf).1 heq]
      · intro hf
        exact ⟨0, hf, rfl⟩
    | huge pfn entry =>
      rw [userspaceVirtToPhys, hwalk]
    | pte pfn present =>
      cases present with
      | true =>
        rw [Sys.virtToPhys_of_present hwalk]
        exact iff_of_true ⟨pfn, by rw [User.frame, hwalk]; rfl, rfl⟩ rfl
      | false =>
        refine iff_of_false ?_ Bool.false_ne_true
        rintro ⟨f, hf, -⟩
        rw [User.frame, hwalk] at hf
        contradiction

/-- In table 0 an unmap call clears exactly its range. -/
theorem unmaps_of_low {size : UInt64} (h : p + pages size ≤ 512) (vm : Vm) :
    Unmaps p size vm := by
  have hrange := pt_unmapRange vm p (pages size) size (by omega) (by omega)
    0 0 (Nat.zero_add _)
  refine ⟨_, Prod.ext hrange.1 rfl, fun i => ?_⟩
  obtain ⟨-, hhit, hmiss⟩ := pt_unmapRange vm p (pages size) size (by omega)
    (by omega) 0 i (Nat.zero_add _)
  split
  next hi => exact hhit ⟨i, hi.1, hi.2, by have := hi.2; omega, by have := hi.2; omega⟩
  next hi =>
    refine hmiss ?_
    rintro ⟨q, h₁, h₂, -, h₄⟩
    exact hi ⟨by omega, by omega⟩

/-- An unmap call never clears an entry outside table 0. -/
theorem not_unmaps_of_high {p i : Nat} {size : UInt64} {vm : Vm} (hp : p + pages size ≤ 128 * 512)
    (hi : InRange p size i) (hhigh : 512 ≤ i) (hpt : (vm.pt i).present) : ¬ Unmaps p size vm := by
  rintro ⟨vm'', hrun, hclear⟩
  obtain ⟨hlo, hlt⟩ := hi
  obtain ⟨-, -, hmiss⟩ := pt_unmapRange vm p (pages size) size (by omega)
    (by omega) 0 i (Nat.zero_add _)
  have hkeep : vm''.pt i = vm.pt i := by
    have hstart : addr 0 = 0 := rfl
    rw [hstart, hrun] at hmiss
    refine hmiss ?_
    rintro ⟨q, -, -, -, h₄⟩
    omega
  rw [hclear i, if_pos ⟨hlo, hlt⟩] at hkeep
  rw [← hkeep] at hpt
  exact absurd hpt (by decide)

/-- A call inside table 0 for a size that is not a multiple does what it is for. -/
theorem rangeExact_of_low {base size : UInt64} (hsize : size.toNat % 4096 ≠ 0)
    (hlow : p + pages size ≤ 512)
    (hhost : ∀ j < pages size, HostOk k user base (base + addr j)) (vm : Vm) :
    RangeExact k user p base size vm := by
  obtain ⟨vm', hrun, hpt⟩ := mapRange_addr k user vm (show p < 2 ^ 52 by omega) base size
  -- the loop's last page is the last one requested, since the size is not a multiple
  have hend : mapEnd p size = p + pages size := by
    unfold mapEnd
    unfold pages at hlow ⊢
    omega
  have htrue : p + size.toNat / 4096 < 2 ^ 18 := by
    unfold pages at hlow
    omega
  rw [hend] at hpt
  rw [decide_eq_true htrue] at hrun
  refine ⟨true, vm', hrun, fun _ => ⟨⟨fun j hj => ⟨by omega, ?_⟩, fun i hi => ?_⟩,
    unmaps_of_low hlow vm'⟩, fun h => absurd h (by decide)⟩
  · rw [hpt, if_pos (by omega), Nat.add_sub_cancel_left]
    exact (pointsTo_mappedEntry_iff _).2 (hhost j hj)
  · rw [hpt i]
    exact if_neg hi

/-- Tables without an entry. -/
def emptyTables : Vm := ⟨fun _ => .zero, []⟩

/-- On empty tables a call below 1 GiB that does what it is for meets the condition. -/
theorem rangeOk_of_rangeExact (hp : p < 2 ^ 18) {base size : UInt64}
    (h : RangeExact k user p base size emptyTables) : RangeOk k user p base size := by
  obtain ⟨b, vm', hrun, htrue, hfalse⟩ := h
  obtain ⟨vm'', hrun', hpt⟩ := mapRange_addr k user emptyTables (show p < 2 ^ 52 by omega) base size
  rw [hrun'] at hrun
  obtain ⟨hb, rfl⟩ := Prod.mk.inj hrun
  have hend : mapEnd p size = min (p + size.toNat / 4096 + 1) (2 ^ 18) := rfl
  have hmapped : ∀ i, p ≤ i → i < mapEnd p size → (vm''.pt i).present := by
    intro i hlo hhi
    rw [hpt i, if_pos ⟨hlo, hhi⟩]
    rfl
  have hall : p + size.toNat / 4096 < 2 ^ 18 := by
    by_contra hnot
    have hsame := hfalse (by rw [← Option.some.inj hb, decide_eq_false hnot]) p
    have hpresent := hmapped p (Nat.le_refl p) (by omega)
    rw [hsame] at hpresent
    exact Bool.false_ne_true hpresent
  obtain ⟨⟨hpage, hother⟩, hunmap⟩ := htrue (by rw [← Option.some.inj hb, decide_eq_true hall])
  have hpages : pages size = (size.toNat + 4095) / 4096 := rfl
  have hsize : size.toNat % 4096 ≠ 0 := by
    -- otherwise the loop's last page is behind the range
    intro hmul
    have hpresent := hmapped (p + size.toNat / 4096) (by omega) (by omega)
    rw [hother _ (fun hin => by have := hin.2; omega)] at hpresent
    exact Bool.false_ne_true hpresent
  have htable := (hpage (pages size - 1) (by omega)).1
  refine .inr ⟨hsize, ?_, fun j hj => ?_⟩
  · by_contra hhigh
    exact not_unmaps_of_high (i := p + pages size - 1) (by omega) ⟨by omega, by omega⟩ (by omega)
      (hmapped _ (by omega) (by omega)) hunmap
  · obtain ⟨-, hpoints⟩ := hpage j hj
    rw [hpt, if_pos (by omega), Nat.add_sub_cancel_left] at hpoints
    exact (pointsTo_mappedEntry_iff _).1 hpoints

/-- **Exactly the requested range**: a call with a page-aligned guest address does what it is for,
whatever the tables hold before it, exactly if the address is 1 GiB or more, or the size is not a
multiple of the page size, the range ends inside table 0 and each host page is of a kind that the
module translates to the frame it has. -/
theorem mapRange_exact (k : Kernel) (user : User) {p : Nat} (hp : p < 2 ^ 52)
    (base size : UInt64) :
    (∀ vm, RangeExact k user p base size vm) ↔ RangeOk k user p base size := by
  constructor
  · intro h
    by_cases hhigh : 2 ^ 18 ≤ p
    · exact .inl hhigh
    · exact rangeOk_of_rangeExact (by omega) (h emptyTables)
  · rintro (hhigh | ⟨hsize, hlow, hhost⟩) vm
    · obtain ⟨vm', hrun, hpt⟩ := mapRange_addr k user vm hp base size
      rw [decide_eq_false (by omega)] at hrun
      refine ⟨false, vm', hrun, fun h => absurd h (by decide), fun _ i => ?_⟩
      have hend : mapEnd p size ≤ 2 ^ 18 := Nat.min_le_right _ _
      rw [hpt i, if_neg (by omega)]
    · exact rangeExact_of_low hsize hlow hhost vm

/-- The page of `onePage` at guest address 0, on any tables. -/
theorem mapRange_exact_onePage :
    RangeOk Sys.directMap Sys.onePage 0 0 1 ∧
      ∀ vm, RangeExact Sys.directMap Sys.onePage 0 0 1 vm := by
  have hok : RangeOk Sys.directMap Sys.onePage 0 0 1 := by
    refine .inr ⟨by decide, by decide, fun j hj => ?_⟩
    obtain rfl : j = 0 := by
      change j < 1 at hj
      omega
    rfl
  exact ⟨hok, (mapRange_exact Sys.directMap Sys.onePage (by decide) 0 1).2 hok⟩

/-- A call for one whole page maps the page behind it as well.  A page at 2 MiB is mapped, and
unmapping it leaves its entry and clears that of page 0.  A call for 1 GiB and one more page
returns `false` with page 0 mapped. -/
theorem mapRange_one_page_more :
    (∃ vm', mapRange Sys.directMap Sys.onePage (addr 0) 0xffff800000000000 4096 3 0
          (Vm.init fun _ => .zero) = (some true, vm') ∧
        pages 4096 = 1 ∧ vm'.pt 1 ≠ (Vm.init fun _ => .zero).pt 1) ∧
      (∃ vm' vm'', mapRange Sys.directMap Sys.onePage (addr 512) 0xffff800000000000 1 2 0
          (Vm.init fun _ => .zero) = (some true, vm') ∧
        unmapRange (addr 512) 1 2 0 vm' = (true, vm'') ∧
        (vm''.pt 512).present ∧ vm''.writes = [512, 0]) ∧
      ∃ vm', mapRange Sys.directMap Sys.onePage (addr 0) 0xffff800000000000 0x40000000 (2 ^ 18 + 1) 0
          (Vm.init fun _ => .zero) = (some false, vm') ∧
        vm'.pt 0 ≠ (Vm.init fun _ => .zero).pt 0 := by
  refine ⟨⟨_, rfl, by decide, by decide⟩, ⟨_, _, rfl, rfl, by decide, by decide⟩, ?_⟩
  obtain ⟨vm', hrun, hpt⟩ := mapRange_addr Sys.directMap Sys.onePage
    (Vm.init fun _ => .zero) (p := 0) (by decide) 0xffff800000000000 0x40000000
  refine ⟨vm', hrun, ?_⟩
  rw [hpt 0, if_pos (by decide)]
  decide

end Ooows.HyperO
