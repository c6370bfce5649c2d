import Ooows.Smp.Machine

/-!
# Ooows.Smp.Redirection

The redirection table of the IOAPIC as the guest sees it: 4-byte reads and writes that
`apicAccess` takes off the device bus and `apicMmio` hands to a LAPIC or the IOAPIC.

`lastWritten` is what 32 independent registers would hold.  `ioApicAccess` ends at the last
multiple of 4 below `PADDR_IOAPIC + 4 * 32`, but the table starts 8 bytes behind
`PADDR_IOAPIC`, so the registers of entries 30 and 31 are not reached.  A write that is not
aligned is taken for one to the register it starts in, and the page of a LAPIC may be put
over that of the IOAPIC.  Everywhere else the table is what it should be
(`redirection_of_reached`).
-/

namespace Ooows.Smp

/-! ## reads -/

def ioapicOffId : UInt64 := 0
def ioapicOffMaxIrqs : UInt64 := 4
def lapicOffId : UInt64 := 0
def nrMaxIoapicIrqs : UInt32 := 32

abbrev RedirTable := Nat → UInt32

def apicAccess (apicbase : UInt32) (addr : UInt64) : Bool :=
  lapicAccess apicbase addr || ioApicAccess addr

def lapicMmioRead (id : UInt32) (addr : UInt64) : UInt32 :=
  if addr &&& 0xfff = lapicOffId then id else 0

def ioApicMmioRead (table : RedirTable) (addr : UInt64) : UInt32 :=
  if redtblAccess addr then table (redtblIdx addr)
  else if addr - paddrIoapic = ioapicOffId then 0x4f4f4f
  else if addr - paddrIoapic = ioapicOffMaxIrqs then nrMaxIoapicIrqs
  else 0

/-- A 4-byte access by a vCPU. -/
structure Access where
  /-- The vCPU's number and `regs.apicbase`. -/
  id : UInt32
  apicbase : UInt32
  addr : UInt64
  data : UInt32
  isWrite : Bool
  deriving DecidableEq, Repr

/-- `apicMmio`, for a read. -/
def apicMmioRead (table : RedirTable) (a : Access) : UInt32 :=
  if lapicAccess a.apicbase a.addr then lapicMmioRead a.id a.addr
  else if ioApicAccess a.addr then ioApicMmioRead table a.addr
  else 0

/-- What a write does to the table. -/
def ApicWrite.apply (table : RedirTable) : ApicWrite → RedirTable
  | .redtbl idx entry => Function.update table idx entry
  | .sipi _ => table
  | .eoi _ => table
  | .none => table

/-- The APICs' part of `dbusHandleMmioAccess`: the table after an access, and what a read gets;
`none` for a read is one that goes on to the devices. -/
def access (table : RedirTable) (a : Access) : RedirTable × Option UInt32 :=
  if apicAccess a.apicbase a.addr then
    if a.isWrite then ((apicMmio a.apicbase a.addr a.data 4).apply table, none)
    else (table, some (apicMmioRead table a))
  else (table, none)

/-- The table after a sequence of accesses; it starts with zeros. -/
def tableAfter (as : List Access) : RedirTable := as.foldl (fun t a => (access t a).1) fun _ => 0

/-! ## registers -/

/-- The address of the register of entry `i`. -/
def regAddr (i : Nat) : UInt64 := UInt64.ofNat (0xfec00008 + 4 * i)

/-- What the register of entry `i` should hold: the value last written to its address. -/
def lastWritten (i : Nat) (as : List Access) : UInt32 :=
  as.foldl (fun x a => if a.isWrite ∧ a.addr = regAddr i then a.data else x) 0

/-- The condition on an access, for entry `i`: a write does not start inside the register, and if the
access is one to the register, then the vCPU's LAPIC is not there. -/
def Reaches (i : Nat) (a : Access) : Prop :=
  (a.isWrite = true → a.addr ≤ regAddr i ∨ regAddr i + 4 ≤ a.addr) ∧
    (a.addr = regAddr i → lapicAccess a.apicbase a.addr = false)

instance (i : Nat) (a : Access) : Decidable (Reaches i a) := inferInstanceAs (Decidable (_ ∧ _))

/-! ## addresses -/

variable {i : Nat}

theorem toNat_regAddr (h : i < 32) : (regAddr i).toNat = 0xfec00008 + 4 * i := by
  rw [regAddr, UInt64.toNat_ofNat']
  omega

theorem ioApicAccess_iff (addr : UInt64) :
    ioApicAccess addr = true ↔ 0xfec00000 ≤ addr.toNat ∧ addr.toNat ≤ 0xfec00000 + 124 := by
  rw [ioApicAccess, Bool.and_eq_true, decide_eq_true_eq, decide_eq_true_eq, UInt64.le_iff_toNat_le,
    UInt64.le_iff_toNat_le]
  rfl

theorem redtblAccess_iff (addr : UInt64) :
    redtblAccess addr = true ↔ 0xfec00008 ≤ addr.toNat ∧ addr.toNat ≤ 0xfec00008 + 124 := by
  rw [redtblAccess, Bool.and_eq_true, decide_eq_true_eq, decide_eq_true_eq, UInt64.le_iff_toNat_le,
    UInt64.le_iff_toNat_le]
  rfl

theorem redtblIdx_eq {addr : UInt64} (h : redtblAccess addr = true) :
    redtblIdx addr = (addr.toNat - 0xfec00008) / 4 := by
  rw [redtblAccess_iff] at h
  have hlt := addr.toNat_lt
  rw [redtblIdx, UInt64.toNat_div, UInt64.toNat_sub, UInt64.toNat_sub,
    show paddrIoapic.toNat = 0xfec00000 from rfl, show ioapicOffRedtbl.toNat = 8 from rfl,
    show (4 : UInt64).toNat = 4 from rfl]
  omega

/-- The registers below entry 30 are routed to the table. -/
theorem regAddr_routed (h : i < 30) :
    ioApicAccess (regAddr i) = true ∧ redtblAccess (regAddr i) = true ∧ redtblIdx (regAddr i) = i := by
  have haddr := toNat_regAddr (show i < 32 by omega)
  have hred : redtblAccess (regAddr i) = true := by
    rw [redtblAccess_iff]
    omega
  refine ⟨?_, hred, ?_⟩
  · rw [ioApicAccess_iff]
    omega
  · rw [redtblIdx_eq hred]
    omega

/-! ## the table -/

/-- A write to the register of an entry below 30 sets it. -/
theorem apply_regAddr (h : i < 30) (table : RedirTable) {apicbase : UInt32} (data : UInt32)
    (hl : lapicAccess apicbase (regAddr i) = false) :
    (apicMmio apicbase (regAddr i) data 4).apply table = Function.update table i data := by
  obtain ⟨hio, hred, hidx⟩ := regAddr_routed h
  simp [apicMmio, hl, hio, hred, hidx, ApicWrite.apply]

/-- A write that does not start in the register of an entry leaves the entry alone. -/
theorem apply_other (h : i < 30) (table : RedirTable) {apicbase data : UInt32} {addr : UInt64}
    (haddr : addr < regAddr i ∨ regAddr i + 4 ≤ addr) :
    (apicMmio apicbase addr data 4).apply table i = table i := by
  unfold apicMmio
  rw [if_neg (by decide)]
  split
  · split
    · rfl
    · split <;> rfl
  · split
    · next hroute =>
        rw [Bool.and_eq_true] at hroute
        have hred := (redtblAccess_iff addr).1 hroute.2
        have hidx : redtblIdx addr ≠ i := by
          have hreg := toNat_regAddr (show i < 32 by omega)
          have hnext : (regAddr i + 4).toNat = 0xfec00008 + 4 * i + 4 := by
            rw [UInt64.toNat_add, hreg, show (4 : UInt64).toNat = 4 from rfl]
            omega
          rw [UInt64.lt_iff_toNat_lt, UInt64.le_iff_toNat_le, hnext] at haddr
          rw [redtblIdx_eq hroute.2]
          omega
        exact Function.update_of_ne (Ne.symm hidx) _ _
    · rfl

/-- One access: the entry follows the register. -/
theorem access_entry (h : i < 30) (table : RedirTable) {a : Access} (ha : Reaches i a) :
    (access table a).1 i = if a.isWrite ∧ a.addr = regAddr i then a.data else table i := by
  obtain ⟨hrange, hlapic⟩ := ha
  unfold access
  by_cases hreg : a.addr = regAddr i
  · have hl := hlapic hreg
    obtain ⟨hio, -, -⟩ := regAddr_routed h
    rw [apicAccess, hl, hreg, hio, Bool.or_true, if_pos rfl]
    cases hw : a.isWrite with
    | true =>
      rw [hreg] at hl
      rw [if_pos rfl, if_pos ⟨rfl, rfl⟩, apply_regAddr h table a.data hl]
      exact Function.update_self _ _ _
    | false => simp
  · have hnot : ¬ (a.isWrite = true ∧ a.addr = regAddr i) := fun hboth => hreg hboth.2
    rw [if_neg hnot]
    split
    · split
      next hwrite =>
        refine apply_other h table ?_
        rcases hrange hwrite with hle | hge
        · exact .inl (UInt64.lt_of_le_of_ne hle hreg)
        · exact .inr hge
      next => rfl
    · rfl

/-- A run of accesses: the entry holds what was last written to its register. -/
theorem tableAfter_entry (h : i < 30) {as : List Access} (has : ∀ a ∈ as, Reaches i a) :
    tableAfter as i = lastWritten i as := by
  unfold tableAfter lastWritten
  generalize hzero : (fun _ => 0 : RedirTable) = table
  have hstart : (0 : UInt32) = table i := by rw [← hzero]
  rw [hstart]
  clear hzero hstart
  induction as generalizing table with
  | nil => rfl
  | cons a as ih =>
    rw [List.foldl_cons, List.foldl_cons, ih (fun b hb => has b (by simp [hb])),
      access_entry h table (has a (by simp))]

/-- **The redirection table**: for every sequence of accesses that meet the condition, and every
entry below 30, a read of the entry's register returns the value last written there, and an
interrupt of that line goes to the vCPU and with the vector of this value.  Accesses to other
addresses do not count. -/
theorem redirection_of_reached (h : i < 30) (as : List Access)
    (has : ∀ a ∈ as, Reaches i a) :
    (∀ a : Access, a.isWrite = false → a.addr = regAddr i → Reaches i a →
      access (tableAfter as) a = (tableAfter as, some (lastWritten i as))) ∧
    ∀ (s : Machine) (v : Nat) (irq : UInt8), s.irqRedirTable = tableAfter as → irq.toNat = i →
      s.dest irq = destCpu (lastWritten i as) ∧
      (s.ioapicMutex = none → s.hasDest irq → s.goOn v (.send irq) =
        some ((s.setMutex (some v)).goto v (.sendState irq (destCpu (lastWritten i as))
          (entryVector (lastWritten i as))))) := by
  have hentry := tableAfter_entry h has
  obtain ⟨hio, hred, hidx⟩ := regAddr_routed h
  constructor
  · intro a hw haddr hreach
    have hl := hreach.2 haddr
    rw [access, apicAccess, apicMmioRead, hl, haddr, hio, Bool.or_true, if_pos rfl, hw,
      if_neg (by simp), if_neg (by simp), if_pos rfl, ioApicMmioRead, if_pos hred, hidx, hentry]
  · intro s v irq htable hirq
    have hline : line irq = i := by
      have hand : (irq &&& 0x1f).toNat = irq.toNat % 32 := by
        rw [UInt8.toNat_and]
        exact Nat.and_two_pow_sub_one_eq_mod irq.toNat 5
      rw [line, hand]
      omega
    have hdest : s.dest irq = destCpu (lastWritten i as) := by
      rw [Machine.dest, hline, htable, hentry]
    refine ⟨hdest, fun hmutex hhas => ?_⟩
    rw [Machine.goOn, if_pos hmutex, if_pos hhas, hdest, hline, htable, hentry]

/-- A write by vCPU 0 with its LAPIC at `0xfee00000`. -/
def writeTo (addr : UInt64) (data : UInt32) : Access := ⟨0, 0xfee00800, addr, data, true⟩

/-- The same for a read. -/
def readFrom (addr : UInt64) : Access := ⟨0, 0xfee00800, addr, 0, false⟩

/-- Entry 3 is written, then entry 4, and entry 3 is read. -/
theorem redirection_of_reached_three :
    access (tableAfter [writeTo (regAddr 3) 0x10020, writeTo (regAddr 4) 0x21]) (readFrom (regAddr 3)) =
      (tableAfter [writeTo (regAddr 3) 0x10020, writeTo (regAddr 4) 0x21], some 0x10020) :=
  (redirection_of_reached (show 3 < 30 by decide)
    [writeTo (regAddr 3) 0x10020, writeTo (regAddr 4) 0x21] (by decide)).1
    (readFrom (regAddr 3)) rfl rfl (by decide)

/-- A write to the register of entry 30 does not reach the table, and a read of it goes to the
devices.  A write one byte behind the register of entry 0 changes entry 0. -/
theorem redirection_end_of_table :
    (tableAfter [writeTo (regAddr 30) 0x20] 30 = 0 ∧
        (access (tableAfter [writeTo (regAddr 30) 0x20]) (readFrom (regAddr 30))).2 = none ∧
        lastWritten 30 [writeTo (regAddr 30) 0x20] = 0x20) ∧
      tableAfter [writeTo (regAddr 0 + 1) 0x20] 0 = 0x20 ∧
        lastWritten 0 [writeTo (regAddr 0 + 1) 0x20] = 0 := by
  decide

end Ooows.Smp
