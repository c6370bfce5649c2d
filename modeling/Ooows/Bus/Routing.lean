import Mathlib.Data.List.Infix
import Mathlib.Data.List.Pairwise
import Ooows.Bus.Config
import Ooows.Lib.Registry

/-!
# Ooows.Bus.Routing

Which device an access goes to.

The name of a line is looked up with `strncmp` over the length of the *node's* path, so a
line goes to the newest node whose path is a beginning of its name: the list is a
registry (`Lib.Registry`) whose keys are compared by `<+:`.  The search for a port or an
address is right for a file if and only if no line with a range follows one whose name is a
shorter beginning of its own (`routes_iff`).
-/

namespace Ooows.Bus

open Lib Registry

/-! ## names -/

/-- What `deviceNodeForName` tests. -/
theorem strncmp_eq_zero_iff {a b : List UInt8} (ha : 0 ∉ a) :
    strncmp a b a.length = 0 ↔ a <+: b := by
  induction a generalizing b with
  | nil => simp [strncmp]
  | cons c a ih =>
    have hc : c.toNat ≠ 0 := fun h => ha (by simp [UInt8.toNat_inj.1 (h.trans UInt8.toNat_zero.symm)])
    have ha' : 0 ∉ a := fun h => ha (.tail _ h)
    cases b with
    | nil => simp [strncmp, hc]
    | cons d b =>
      rw [List.length_cons, strncmp, List.cons_prefix_cons, ← ih ha']
      by_cases hcd : c = d
      · simp [hcd]
      · have hne : c.toNat ≠ d.toNat := fun h => hcd (UInt8.toNat_inj.1 h)
        simp [hcd]
        omega

/-! ## lines -/

namespace Line

/-- The port is in the line's range. -/
def HasPort (l : Line) (port : UInt16) : Prop :=
  l.portStart ≠ 0 ∧ l.portStart.toNat ≤ port.toNat ∧
    port.toNat < l.portStart.toNat + l.portLen.toNat

def HasAddr (l : Line) (addr : UInt64) : Prop :=
  l.mmioStart ≠ 0 ∧ l.mmioStart.toNat ≤ addr.toNat ∧
    addr.toNat < l.mmioStart.toNat + l.mmioLen.toNat

/-- The ports have 16 bits. -/
def InRange (l : Line) : Prop :=
  l.portStart ≠ 0 → l.portStart.toNat + l.portLen.toNat ≤ 0x10000

/-- Something is in a range of the line. -/
def HasRange (l : Line) : Prop :=
  (l.portStart ≠ 0 ∧ l.portLen ≠ 0) ∨ (l.mmioStart ≠ 0 ∧ l.mmioLen ≠ 0)

variable {l : Line}

theorem exists_covers_port (hl : l.InRange) (port : UInt16) :
    (∃ io ∈ l.ioports, io.covers port) ↔ l.HasPort port := by
  unfold ioports HasPort
  by_cases hstart : l.portStart = 0
  · simp [hstart]
  · have hend := hl hstart
    have hpos : l.portStart.toNat ≠ 0 := fun h => hstart (UInt32.toNat_inj.1 h)
    simp [hstart, IoportRange.covers, UInt16.le_iff_toNat_le]
    omega

theorem exists_covers_addr (addr : UInt64) :
    (∃ mmio ∈ l.mmios, mmio.covers addr) ↔ l.HasAddr addr := by
  unfold mmios HasAddr
  by_cases hstart : l.mmioStart = 0
  · simp [hstart]
  · have hstartLt := l.mmioStart.toNat_lt
    have hlenLt := l.mmioLen.toNat_lt
    simp [hstart, MmioRange.covers, UInt64.le_iff_toNat_le, UInt64.lt_iff_toNat_lt]
    omega

theorem exists_hasPort (hl : l.InRange) :
    (∃ port, l.HasPort port) ↔ l.portStart ≠ 0 ∧ l.portLen ≠ 0 := by
  have hlen : l.portLen ≠ 0 ↔ l.portLen.toNat ≠ 0 := not_congr UInt32.toNat_inj.symm
  rw [hlen]
  constructor
  · rintro ⟨port, hstart, hle, hlt⟩
    exact ⟨hstart, by omega⟩
  · rintro ⟨hstart, hpos⟩
    have hend := hl hstart
    have hport : (UInt16.ofNat l.portStart.toNat).toNat = l.portStart.toNat :=
      UInt16.toNat_ofNat_of_lt' (by unfold UInt16.size; omega)
    exact ⟨UInt16.ofNat l.portStart.toNat, hstart, by omega, by omega⟩

theorem exists_hasAddr : (∃ addr, l.HasAddr addr) ↔ l.mmioStart ≠ 0 ∧ l.mmioLen ≠ 0 := by
  have hlen : l.mmioLen ≠ 0 ↔ l.mmioLen.toNat ≠ 0 := not_congr UInt32.toNat_inj.symm
  rw [hlen]
  constructor
  · rintro ⟨addr, hstart, hle, hlt⟩
    exact ⟨hstart, by omega⟩
  · rintro ⟨hstart, hpos⟩
    have haddr : l.mmioStart.toUInt64.toNat = l.mmioStart.toNat := UInt32.toNat_toUInt64 _
    exact ⟨l.mmioStart.toUInt64, hstart, by omega, by omega⟩

end Line

/-! ## the list as a registry -/

/-- What the nodes hold: each line's ranges are with the node that the line belongs to. -/
structure Table (devicelist : List DeviceNode) (keys : List (List UInt8))
    (entries : List (List UInt8 × Line)) : Prop where
  paths : devicelist.map DeviceNode.path = keys
  ioports : ∀ path io, (∃ n ∈ devicelist, n.path = path ∧ io ∈ n.ioports) ↔
    ∃ l, (path, l) ∈ entries ∧ io ∈ l.ioports
  mmios : ∀ path mmio, (∃ n ∈ devicelist, n.path = path ∧ mmio ∈ n.mmios) ↔
    ∃ l, (path, l) ∈ entries ∧ mmio ∈ l.mmios

namespace Table

variable {devicelist : List DeviceNode} {keys : List (List UInt8)}
  {entries : List (List UInt8 × Line)} {ρ : Type}

/-- **A line is added**: to a new node, or to the newest one whose path its name begins with. -/
theorem addLine_cases (l : Line) (hzero : ∀ n ∈ devicelist, 0 ∉ n.path) :
    ((devicelist.map DeviceNode.path).find? (fun q => q <+: l.device) = none ∧
      addLine devicelist l = l.link ⟨l.device, [], []⟩ :: devicelist) ∨
    ∃ newer n older, devicelist = newer ++ n :: older ∧
      (devicelist.map DeviceNode.path).find? (fun q => q <+: l.device) = some n.path ∧
      addLine devicelist l = newer ++ l.link n :: older := by
  have htest : ∀ n ∈ devicelist,
      decide (strncmp n.path l.device n.path.length = 0) = decide (n.path <+: l.device) :=
    fun n hn => decide_eq_decide.2 (strncmp_eq_zero_iff (hzero n hn))
  unfold addLine
  cases hname : deviceNodeForName devicelist l.device with
  | none =>
    refine .inl ⟨?_, rfl⟩
    rw [List.find?_map, Option.map_eq_none_iff, List.find?_eq_none]
    intro n hn
    rw [Function.comp_apply, ← htest n hn, List.findIdx?_eq_none_iff.1 hname n hn]
    decide
  | some i =>
    obtain ⟨hi, hmatch, hfirst⟩ := List.findIdx?_eq_some_iff_getElem.1 hname
    have hsplit : devicelist = devicelist.take i ++ devicelist[i] :: devicelist.drop (i + 1) := by
      rw [List.getElem_cons_drop, List.take_append_drop]
    refine .inr ⟨devicelist.take i, devicelist[i], devicelist.drop (i + 1), hsplit, ?_,
      List.modify_eq_take_cons_drop hi⟩
    rw [List.find?_map, Option.map_eq_some_iff]
    refine ⟨devicelist[i], List.find?_eq_some_iff_append.2 ⟨?_, _, _, hsplit, ?_⟩, rfl⟩
    · rw [Function.comp_apply, ← htest _ (List.getElem_mem hi)]
      exact hmatch
    · intro n hn
      obtain ⟨j, hj, rfl⟩ := List.mem_take_iff_getElem.1 hn
      rw [Function.comp_apply, ← htest _ (List.getElem_mem _)]
      simpa using hfirst j (by omega)

/-- One line, seen through the ranges of either kind. -/
theorem exists_mem_addLine (ranges : DeviceNode → List ρ) (lineRanges : Line → List ρ)
    (hlink : ∀ l n, ranges (Line.link l n) = lineRanges l ++ ranges n)
    (hnew : ∀ path, ranges ⟨path, [], []⟩ = []) (hzero : ∀ n ∈ devicelist, 0 ∉ n.path) (l : Line)
    (path : List UInt8) (r : ρ) :
    (∃ n ∈ addLine devicelist l, n.path = path ∧ r ∈ ranges n) ↔
      (∃ n ∈ devicelist, n.path = path ∧ r ∈ ranges n) ∨
      (owner (· <+: ·) (devicelist.map DeviceNode.path) l.device = path ∧ r ∈ lineRanges l) := by
  have hpath : ∀ n, (l.link n).path = n.path := fun _ => rfl
  unfold owner
  rcases addLine_cases l hzero with ⟨hnone, heq⟩ | ⟨newer, n, older, rfl, hsome, heq⟩
  · rw [heq, hnone]
    simp only [List.mem_cons, exists_eq_or_imp, hpath, hlink, hnew, List.append_nil,
      Option.getD_none]
    exact or_comm
  · rw [heq, hsome]
    simp only [List.mem_append, List.mem_cons, or_and_right, exists_or, exists_eq_left, hpath,
      hlink, Option.getD_some, and_or_left]
    grind

/-- **One line.** -/
theorem addLine (h : Table devicelist keys entries) (hzero : ∀ q ∈ keys, 0 ∉ q) (l : Line) :
    Table (addLine devicelist l) (enter (· <+: ·) keys l.device)
      (entries ++ [(owner (· <+: ·) keys l.device, l)]) := by
  obtain ⟨rfl, hioports, hmmios⟩ := h
  have hzero' : ∀ n ∈ devicelist, 0 ∉ n.path := fun n hn => hzero _ (List.mem_map_of_mem hn)
  refine ⟨?_, fun path io => ?_, fun path mmio => ?_⟩
  · unfold enter
    rcases addLine_cases l hzero' with ⟨hnone, heq⟩ | ⟨newer, n, older, rfl, hsome, heq⟩
    · rw [heq, hnone]
      rfl
    · rw [heq, hsome]
      simp [Line.link]
  · rw [exists_mem_addLine DeviceNode.ioports Line.ioports (fun _ _ => rfl) (fun _ => rfl) hzero',
      hioports]
    simp [or_and_right, exists_or, @eq_comm _ path]
  · rw [exists_mem_addLine DeviceNode.mmios Line.mmios (fun _ _ => rfl) (fun _ => rfl) hzero',
      hmmios]
    simp [or_and_right, exists_or, @eq_comm _ path]

/-- **All lines**, and one more. -/
theorem foldl (h : Table devicelist keys entries) (hzero : ∀ q ∈ keys, 0 ∉ q) {ls : List Line}
    (hls : ∀ l ∈ ls, 0 ∉ l.device) (last : Line) :
    ∃ keys', Table ((ls ++ [last]).foldl Bus.addLine devicelist) keys'
      (entries ++ owners (· <+: ·) Line.device keys (ls ++ [last])) := by
  induction ls generalizing devicelist keys entries with
  | nil => exact ⟨_, h.addLine hzero last⟩
  | cons l ls ih =>
    have hzero' : ∀ q ∈ enter (· <+: ·) keys l.device, 0 ∉ q := by
      unfold enter
      split
      · exact hzero
      · simpa using ⟨hls l (List.mem_cons_self ..), hzero⟩
    obtain ⟨keys', htable⟩ :=
      ih (h.addLine hzero l) hzero' fun l hl => hls l (.tail _ hl)
    rw [List.append_assoc] at htable
    exact ⟨keys', htable⟩

end Table

/-! ## routing -/

/-- **A search is right**: it finds a node with the name of the line that has what is searched
for, and nothing if no line has it. -/
def Routes (ls : List Line) (has : Line → Prop) (found : Option DeviceNode) : Prop :=
  (∀ l ∈ ls, has l → found.map DeviceNode.path = some l.device) ∧
  ((∀ l ∈ ls, ¬ has l) → found = none)

/-- What the search finds is the node that the line belongs to. -/
theorem routes_iff_owner {ρ : Type} {devicelist : List DeviceNode}
    {entries : List (List UInt8 × Line)} (ranges : DeviceNode → List ρ)
    (lineRanges : Line → List ρ) (covers : ρ → Bool) (has : Line → Prop)
    (htable : ∀ path r, (∃ n ∈ devicelist, n.path = path ∧ r ∈ ranges n) ↔
      ∃ l, (path, l) ∈ entries ∧ r ∈ lineRanges l)
    (hhas : ∀ x ∈ entries, (∃ r ∈ lineRanges x.2, covers r) ↔ has x.2)
    (hdisjoint : entries.Pairwise fun x y => ¬ (has x.2 ∧ has y.2)) :
    Routes (entries.map Prod.snd) has (devicelist.find? fun n => (ranges n).any covers) ↔
      ∀ x ∈ entries, has x.2 → x.1 = x.2.device := by
  have hunique : ∀ x ∈ entries, ∀ y ∈ entries, has x.2 → has y.2 → x = y := by
    have hsymm : Std.Symm fun x y : List UInt8 × Line => ¬ (has x.2 ∧ has y.2) :=
      ⟨fun _ _ h hboth => h hboth.symm⟩
    exact fun x hx y hy hhasx hhasy =>
      by_contra fun hne => hdisjoint.forall hx hy hne ⟨hhasx, hhasy⟩
  cases hfind : devicelist.find? fun n => (ranges n).any covers with
  | none =>
    have hnone : ∀ x ∈ entries, ¬ has x.2 := by
      intro x hx hhasx
      obtain ⟨r, hr, hcovers⟩ := (hhas x hx).2 hhasx
      obtain ⟨n, hn, -, hrn⟩ := (htable x.1 r).2 ⟨x.2, hx, hr⟩
      exact List.find?_eq_none.1 hfind n hn (List.any_eq_true.2 ⟨r, hrn, hcovers⟩)
    refine iff_of_true ⟨fun l hl hhasl => ?_, fun _ => rfl⟩ fun x hx hhasx =>
      absurd hhasx (hnone x hx)
    obtain ⟨x, hx, rfl⟩ := List.mem_map.1 hl
    exact absurd hhasl (hnone x hx)
  | some n =>
    have hany : (ranges n).any covers := List.find?_some (p := fun n => (ranges n).any covers) hfind
    obtain ⟨r, hr, hcovers⟩ := List.any_eq_true.1 hany
    obtain ⟨l, hl, hrl⟩ := (htable n.path r).1 ⟨n, List.mem_of_find?_eq_some hfind, rfl, hr⟩
    have hhasl : has l := (hhas _ hl).1 ⟨r, hrl, hcovers⟩
    have hmem : l ∈ entries.map Prod.snd := List.mem_map_of_mem (f := Prod.snd) hl
    constructor
    · intro hroutes x hx hhasx
      cases hunique x hx _ hl hhasx hhasl
      exact Option.some.inj (hroutes.1 l hmem hhasl)
    · refine fun howner => ⟨fun l' hl' hhasl' => ?_, fun hnone => absurd hhasl (hnone l hmem)⟩
      obtain ⟨x, hx, rfl⟩ := List.mem_map.1 hl'
      cases hunique x hx _ hl hhasl' hhasl
      exact congrArg some (howner _ hx hhasl')

/-! ## configuration files -/

/-- The lines that a file may have. -/
structure WellFormed (ls : List Line) : Prop where
  inRange : ∀ l ∈ ls, l.InRange
  disjoint : ls.Pairwise fun l l' => (∀ port, ¬ (l.HasPort port ∧ l'.HasPort port)) ∧
    ∀ addr, ¬ (l.HasAddr addr ∧ l'.HasAddr addr)

/-- It is enough to look at the ends of the ranges. -/
theorem WellFormed.of_ends {ls : List Line} (hrange : ∀ l ∈ ls, l.InRange)
    (hends : ls.Pairwise fun l l' =>
      (l.portStart.toNat + l.portLen.toNat ≤ l'.portStart.toNat ∨
        l'.portStart.toNat + l'.portLen.toNat ≤ l.portStart.toNat) ∧
      (l.mmioStart.toNat + l.mmioLen.toNat ≤ l'.mmioStart.toNat ∨
        l'.mmioStart.toNat + l'.mmioLen.toNat ≤ l.mmioStart.toNat)) : WellFormed ls where
  inRange := hrange
  disjoint := hends.imp fun {l l'} h => by
    refine ⟨fun port hboth => ?_, fun addr hboth => ?_⟩
    · obtain ⟨⟨-, hle, hlt⟩, -, hle', hlt'⟩ := hboth
      omega
    · obtain ⟨⟨-, hle, hlt⟩, -, hle', hlt'⟩ := hboth
      omega

/-- No line with a range follows one whose name is a shorter beginning of its own. -/
def Unshadowed (ls : List Line) : Prop :=
  ls.Pairwise fun earlier l => l.HasRange → earlier.device <+: l.device → earlier.device = l.device

/-- Both searches, in a list that holds some lines. -/
theorem Table.routes_iff_unshadowed {devicelist : List DeviceNode} {keys : List (List UInt8)} {ls : List Line}
    (h : Table devicelist keys (owners (· <+: ·) Line.device [] ls)) (hls : WellFormed ls) :
    (∀ port, Routes ls (·.HasPort port) (deviceForPort devicelist port)) ∧
      (∀ addr, Routes ls (·.HasAddr addr) (deviceForAddr devicelist addr)) ↔ Unshadowed ls := by
  have hlines := map_snd_owners (· <+: ·) Line.device [] ls
  have hmem : ∀ x ∈ owners (· <+: ·) Line.device [] ls, x.2 ∈ ls := fun x hx =>
    hlines ▸ List.mem_map_of_mem hx
  have hdisjoint := List.pairwise_map.1 (hlines.symm ▸ hls.disjoint)
  have hport : ∀ port, Routes ls (·.HasPort port) (deviceForPort devicelist port) ↔
      ∀ x ∈ owners (· <+: ·) Line.device [] ls, x.2.HasPort port → x.1 = x.2.device := by
    intro port
    have hiff := routes_iff_owner _ _ (fun io => io.covers port) (·.HasPort port) h.ioports
      (fun x hx => Line.exists_covers_port (hls.inRange _ (hmem x hx)) port)
      (hdisjoint.imp fun hxy => hxy.1 port)
    rwa [hlines] at hiff
  have haddr : ∀ addr, Routes ls (·.HasAddr addr) (deviceForAddr devicelist addr) ↔
      ∀ x ∈ owners (· <+: ·) Line.device [] ls, x.2.HasAddr addr → x.1 = x.2.device := by
    intro addr
    have hiff := routes_iff_owner _ _ (fun mmio => mmio.covers addr) (·.HasAddr addr) h.mmios
      (fun x _ => Line.exists_covers_addr addr) (hdisjoint.imp fun hxy => hxy.2 addr)
    rwa [hlines] at hiff
  unfold Unshadowed
  rw [← forall_owners_iff]
  simp only [hport, haddr]
  constructor
  · rintro ⟨hports, haddrs⟩ x hx (hrange | hrange)
    · obtain ⟨port, hhas⟩ := (Line.exists_hasPort (hls.inRange _ (hmem x hx))).2 hrange
      exact hports port x hx hhas
    · obtain ⟨addr, hhas⟩ := Line.exists_hasAddr.2 hrange
      exact haddrs addr x hx hhas
  · intro howner
    refine ⟨fun port x hx hhas => howner x hx (.inl ?_), fun addr x hx hhas => howner x hx (.inr ?_)⟩
    · exact (Line.exists_hasPort (hls.inRange _ (hmem x hx))).1 ⟨port, hhas⟩
    · exact Line.exists_hasAddr.1 ⟨addr, hhas⟩

/-- **Routing follows the file**, whatever its spelling and whatever the buffer for names held
before, if and only if no name is shadowed by a shorter one. -/
theorem routes_iff {t device : List UInt8} {ls : List Line} (htext : FileText t ls)
    (hls : WellFormed ls) : ∃ devicelist,
      (∀ fuel, ls.length < fuel → dbusConfigFromFile fuel device t [] = some devicelist) ∧
      ((∀ port, Routes ls (·.HasPort port) (deviceForPort devicelist port)) ∧
        (∀ addr, Routes ls (·.HasAddr addr) (deviceForAddr devicelist addr)) ↔ Unshadowed ls) := by
  obtain ⟨last, hlast⟩ := dbusConfigFromFile_eq htext device []
  refine ⟨_, hlast, ?_⟩
  -- the last round adds no range
  have hport : ∀ port, ¬ (⟨last, 0, 0, 0, 0⟩ : Line).HasPort port := fun _ h => h.1 rfl
  have haddr : ∀ addr, ¬ (⟨last, 0, 0, 0, 0⟩ : Line).HasAddr addr := fun _ h => h.1 rfl
  have hrange : ¬ (⟨last, 0, 0, 0, 0⟩ : Line).HasRange := by simp [Line.HasRange]
  have hall : WellFormed (ls ++ [⟨last, 0, 0, 0, 0⟩]) := by
    refine ⟨?_, List.pairwise_append.2 ⟨hls.disjoint, List.pairwise_singleton .., ?_⟩⟩
    · simpa [or_imp, forall_and] using ⟨hls.inRange, fun h => absurd rfl h⟩
    · simp [hport, haddr]
  have hempty : Table [] [] [] := ⟨rfl, by simp, by simp⟩
  obtain ⟨keys, htable⟩ := hempty.foldl nofun (fun l hl h => (htext.named l hl).char 0 h |>.2 rfl)
    ⟨last, 0, 0, 0, 0⟩
  have hiff := htable.routes_iff_unshadowed hall
  simpa [Routes, Unshadowed, or_imp, forall_and, List.pairwise_append, hport, haddr, hrange]
    using hiff

/-- A serial device with two ports, a screen and a network card. -/
def sampleLines : List Line :=
  [⟨[0x73, 0x65, 0x72], 0x3f8, 1, 0, 0⟩, ⟨[0x73, 0x65, 0x72], 0x2f8, 1, 0, 0⟩,
    ⟨[0x76, 0x67, 0x61], 0x3b0, 1, 0xa0000, 0x20000⟩, ⟨[0x6e, 0x65, 0x74], 0, 0, 0xe1b00000, 0x200⟩]

theorem routes_sampleLines : FileText (configText sampleLines) sampleLines ∧
    WellFormed sampleLines ∧ Unshadowed sampleLines ∧
    ∃ devicelist, dbusConfigFromFile 5 [] (configText sampleLines) [] = some devicelist ∧
      (∀ port, Routes sampleLines (·.HasPort port) (deviceForPort devicelist port)) ∧
      ∀ addr, Routes sampleLines (·.HasAddr addr) (deviceForAddr devicelist addr) := by
  have hnamed : ∀ l ∈ sampleLines, l.device ≠ [] ∧ l.device.length < 256 ∧
      ∀ c ∈ l.device, isSpace c = false ∧ c ≠ 0 := by
    simp [sampleLines, isSpace]
  have htext : FileText (configText sampleLines) sampleLines :=
    fileText_configText fun l hl => ⟨(hnamed l hl).1, (hnamed l hl).2.1, (hnamed l hl).2.2⟩
  have hls : WellFormed sampleLines := .of_ends (by unfold Line.InRange; decide) (by decide)
  have hunshadowed : Unshadowed sampleLines := by unfold Unshadowed Line.HasRange; decide
  obtain ⟨devicelist, hconfig, hiff⟩ := @routes_iff _ [] _ htext hls
  exact ⟨htext, hls, hunshadowed, devicelist, hconfig 5 (by decide), hiff.2 hunshadowed⟩

/-- `net` and `network`. -/
def shadowedLines : List Line :=
  [⟨[0x6e, 0x65, 0x74], 0x10, 1, 0, 0⟩, ⟨[0x6e, 0x65, 0x74, 0x77, 0x6f, 0x72, 0x6b], 0x20, 1, 0, 0⟩]

/-- **The port of `network` is that of `net`.** -/
theorem routes_shadowedLines : FileText (configText shadowedLines) shadowedLines ∧
    WellFormed shadowedLines ∧
    ∃ devicelist, dbusConfigFromFile 3 [] (configText shadowedLines) [] = some devicelist ∧
      ¬ Routes shadowedLines (·.HasPort 0x20) (deviceForPort devicelist 0x20) := by
  have hnamed : ∀ l ∈ shadowedLines, l.device ≠ [] ∧ l.device.length < 256 ∧
      ∀ c ∈ l.device, isSpace c = false ∧ c ≠ 0 := by
    simp [shadowedLines, isSpace]
  have hconfig : (dbusConfigFromFile 3 [] (configText shadowedLines) []).map
      (fun devicelist => (deviceForPort devicelist 0x20).map DeviceNode.path) =
      some (some [0x6e, 0x65, 0x74]) := by decide +kernel
  obtain ⟨devicelist, hlist, hfound⟩ := Option.map_eq_some_iff.1 hconfig
  refine ⟨fileText_configText fun l hl => ⟨(hnamed l hl).1, (hnamed l hl).2.1, (hnamed l hl).2.2⟩,
    .of_ends (by unfold Line.InRange; decide) (by decide), devicelist, hlist, fun hroutes => ?_⟩
  have hpath := hroutes.1 _ (.tail _ (.head _)) (by unfold Line.HasPort; decide)
  rw [hfound] at hpath
  exact absurd hpath (by decide)

end Ooows.Bus
