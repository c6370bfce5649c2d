import Mathlib.Data.List.TakeWhile
import Ooows.Lib.Scan

/-!
# Ooows.Bus.Config

The device list of `devicebus.c`: how `dbusConfigFromFile` builds it from a file, and what
`deviceForPort` and `deviceForAddr` find in it.

The file is read with `fscanf`, and the loop ends with a round in which nothing was read.
`dbusConfigFromFile_eq` says what is built from a file of well-formed lines, however these
are spelled: all lines are added, one after the other.
-/

namespace Ooows.Bus

open Lib

/-! ## the list -/

structure IoportRange where
  startPort : UInt16
  nports : UInt16
  deriving DecidableEq, Repr

structure MmioRange where
  mmioStart : UInt32
  mmioLen : UInt64
  deriving DecidableEq, Repr

structure DeviceNode where
  path : List UInt8
  ioports : List IoportRange
  mmios : List MmioRange
  deriving DecidableEq, Repr

/-- `strncmp`, of strings without their final zero. -/
def strncmp : List UInt8 → List UInt8 → Nat → Int
  | _, _, 0 => 0
  | [], [], _ + 1 => 0
  | [], d :: _, _ + 1 => -(d.toNat : Int)
  | c :: _, [], _ + 1 => c.toNat
  | c :: s, d :: t, n + 1 => if c = d then strncmp s t n else (c.toNat : Int) - d.toNat

/-- The place in the list of the node that is found. -/
def deviceNodeForName (devicelist : List DeviceNode) (path : List UInt8) : Option Nat :=
  devicelist.findIdx? fun cur => strncmp cur.path path cur.path.length = 0

/-- The sum is one of `size_t`. -/
def IoportRange.covers (io : IoportRange) (port : UInt16) : Bool :=
  io.startPort ≤ port && port.toNat < io.startPort.toNat + io.nports.toNat

def MmioRange.covers (mmio : MmioRange) (addr : UInt64) : Bool :=
  let startAddr := mmio.mmioStart.toUInt64
  let endAddr := startAddr + mmio.mmioLen
  startAddr ≤ addr && addr < endAddr

def deviceForPort (devicelist : List DeviceNode) (port : UInt16) : Option DeviceNode :=
  devicelist.find? fun cur => cur.ioports.any fun io => io.covers port

def deviceForAddr (devicelist : List DeviceNode) (addr : UInt64) : Option DeviceNode :=
  devicelist.find? fun cur => cur.mmios.any fun mmio => mmio.covers addr

/-! ## the file -/

/-- The variables of `dbusConfigFromFile` that a line is read into. -/
structure Line where
  device : List UInt8
  portStart : UInt32
  portLen : UInt32
  mmioStart : UInt32
  mmioLen : UInt32
  deriving DecidableEq, Repr

/-- The range that is made of a line's ports; a start of zero makes none. -/
def Line.ioports (l : Line) : List IoportRange :=
  if l.portStart ≠ 0 then [⟨l.portStart.toUInt16, l.portLen.toUInt16⟩] else []

def Line.mmios (l : Line) : List MmioRange :=
  if l.mmioStart ≠ 0 then [⟨l.mmioStart, l.mmioLen.toUInt64⟩] else []

/-- The ranges of a line are linked to a node, at the front. -/
def Line.link (l : Line) (devnode : DeviceNode) : DeviceNode :=
  { devnode with ioports := l.ioports ++ devnode.ioports, mmios := l.mmios ++ devnode.mmios }

/-- The body of the loop, once the line is read. -/
def addLine (devicelist : List DeviceNode) (l : Line) : List DeviceNode :=
  match deviceNodeForName devicelist l.device with
  | some i => devicelist.modify i l.link
  | none => l.link ⟨l.device, [], []⟩ :: devicelist

/-- Up to `n` numbers, until one is not there. -/
def scanHexes : Nat → List UInt8 → List Nat × List UInt8
  | 0, t => ([], t)
  | n + 1, t =>
    match scanHex t with
    | (none, t) => ([], t)
    | (some v, t) =>
      let (vs, t) := scanHexes n t
      (v :: vs, t)

/-- `fscanf`: its result, the line and the text that is left.  `device` keeps what it held
when no name is read; the numbers were set to zero. -/
def fscanf (device t : List UInt8) : Int × Line × List UInt8 :=
  match scanWord 256 t with
  | none => (-1, ⟨device, 0, 0, 0, 0⟩, [])
  | some (word, t) =>
    let (vs, t) := scanHexes 4 t
    let value (i : Nat) : UInt32 := UInt32.ofNat (vs.getD i 0)
    -- a string ends at its first zero
    (1 + vs.length, ⟨word.takeWhile (· ≠ 0), value 0, value 1, value 2, value 3⟩,
      if vs.length = 4 then skipSpace t else t)

/-- The loop of `dbusConfigFromFile`, for at most so many lines. -/
def dbusConfigFromFile : Nat → List UInt8 → List UInt8 → List DeviceNode → Option (List DeviceNode)
  | 0, _, _, _ => none
  | fuel + 1, device, t, devicelist =>
    let (ret, l, t) := fscanf device t
    let devicelist := addLine devicelist l
    if ret > 0 then dbusConfigFromFile fuel l.device t devicelist else some devicelist

/-! ## well-formed lines -/

/-- The numbers of a line, each after some spaces. -/
inductive Fields : List UInt8 → List Nat → Prop
  | nil : Fields [] []
  | cons {ws s t : List UInt8} {n : Nat} {ns : List Nat} :
      ws ≠ [] → (∀ c ∈ ws, isSpace c) → HexText s n → Fields t ns → Fields (ws ++ (s ++ t)) (n :: ns)

def Line.numbers (l : Line) : List Nat :=
  [l.portStart.toNat, l.portLen.toNat, l.mmioStart.toNat, l.mmioLen.toNat]

/-- The names that fit into `device`. -/
structure Line.Named (l : Line) : Prop where
  ne : l.device ≠ []
  short : l.device.length < 256
  char : ∀ c ∈ l.device, isSpace c = false ∧ c ≠ 0

/-- **The text of some lines**: spaces and line ends stand where one likes, only two fields
do not touch. -/
inductive FileText : List UInt8 → List Line → Prop
  | nil {ws : List UInt8} : (∀ c ∈ ws, isSpace c) → FileText ws []
  | cons {ws fields rest : List UInt8} {l : Line} {ls : List Line} :
      (∀ c ∈ ws, isSpace c) → l.Named → Fields fields l.numbers → Blank rest → FileText rest ls →
      FileText (ws ++ (l.device ++ (fields ++ rest))) (l :: ls)

variable {t device : List UInt8} {ns : List Nat} {l : Line} {ls : List Line}

theorem Fields.blank (h : Fields t ns) {rest : List UInt8} (hrest : Blank rest) :
    Blank (t ++ rest) := by
  cases h with
  | nil => exact hrest
  | @cons ws s t n ns hne hws _ _ =>
    cases ws with
    | nil => exact absurd rfl hne
    | cons c ws =>
      rintro d ⟨⟩
      exact hws c (List.mem_cons_self ..)

/-- All numbers of a line are read. -/
theorem Fields.scanHexes_eq (h : Fields t ns) (hns : ∀ n ∈ ns, n < 0x100000000)
    {rest : List UInt8} (hrest : Blank rest) : scanHexes ns.length (t ++ rest) = (ns, rest) := by
  induction h with
  | nil => rfl
  | @cons ws s t n ns _ hws hs hfields ih =>
    have hscan : scanHex (ws ++ (s ++ t) ++ rest) = (some n, t ++ rest) := by
      rw [List.append_assoc, List.append_assoc]
      exact scanHex_append hs (hns n (List.mem_cons_self ..)) hws (hfields.blank hrest)
    simp only [List.length_cons, scanHexes, hscan, ih fun n hn => hns n (.tail _ hn)]

theorem Line.numbers_lt (l : Line) : ∀ n ∈ l.numbers, n < 0x100000000 := by
  simpa [Line.numbers] using
    ⟨l.portStart.toNat_lt, l.portLen.toNat_lt, l.mmioStart.toNat_lt, l.mmioLen.toNat_lt⟩

/-- **One line** is read. -/
theorem fscanf_line {ws fields rest : List UInt8} (hws : ∀ c ∈ ws, isSpace c) (hl : l.Named)
    (hfields : Fields fields l.numbers) (hrest : Blank rest) :
    fscanf device (ws ++ (l.device ++ (fields ++ rest))) = (5, l, skipSpace rest) := by
  have hword : scanWord 256 (ws ++ (l.device ++ (fields ++ rest))) =
      some (l.device, fields ++ rest) :=
    scanWord_append hl.ne (fun c hc => (hl.char c hc).1) (Nat.le_of_lt hl.short) hws
      (hfields.blank hrest)
  have hnumbers : scanHexes 4 (fields ++ rest) = (l.numbers, rest) :=
    hfields.scanHexes_eq l.numbers_lt hrest
  have hdevice : l.device.takeWhile (· ≠ 0) = l.device :=
    List.takeWhile_eq_self_iff.2 fun c hc => decide_eq_true (hl.char c hc).2
  simp only [fscanf, hword, hnumbers, hdevice]
  simp [Line.numbers]

theorem fscanf_end (hws : ∀ c ∈ t, isSpace c) :
    fscanf device t = (-1, ⟨device, 0, 0, 0, 0⟩, []) := by
  have hskip : skipSpace t = [] := List.dropWhile_eq_nil_iff.2 hws
  simp [fscanf, scanWord, hskip]

theorem FileText.named (h : FileText t ls) : ∀ l ∈ ls, l.Named := by
  induction h with
  | nil => exact nofun
  | cons _ hl _ _ _ ih => exact List.forall_mem_cons.2 ⟨hl, ih⟩

theorem FileText.skipSpace (h : FileText t ls) : FileText (skipSpace t) ls := by
  cases h with
  | nil hws =>
    rw [show Lib.skipSpace t = [] from List.dropWhile_eq_nil_iff.2 hws]
    exact .nil nofun
  | @cons ws fields rest l ls hws hl hfields hrest htext =>
    have hskip : Lib.skipSpace (l.device ++ (fields ++ rest)) = l.device ++ (fields ++ rest) := by
      cases hdevice : l.device with
      | nil => exact absurd hdevice hl.ne
      | cons c name => exact skipSpace_cons (hl.char c (by simp [hdevice])).1
    rw [skipSpace_append hws, hskip]
    exact @FileText.cons [] _ _ _ _ nofun hl hfields hrest htext

/-- **The file is read to its end**: the lines are added one after the other, and at last
one without ranges. -/
theorem dbusConfigFromFile_eq (h : FileText t ls) (device : List UInt8)
    (devicelist : List DeviceNode) : ∃ last : List UInt8, ∀ fuel, ls.length < fuel →
      dbusConfigFromFile fuel device t devicelist =
        some ((ls ++ [(⟨last, 0, 0, 0, 0⟩ : Line)]).foldl addLine devicelist) := by
  induction ls generalizing t device devicelist with
  | nil =>
    cases h with
    | nil hws =>
      refine ⟨device, fun fuel hfuel => ?_⟩
      obtain ⟨fuel, rfl⟩ : ∃ k, fuel = k + 1 := ⟨fuel - 1, by simp at hfuel; omega⟩
      simp [dbusConfigFromFile, fscanf_end hws]
  | cons l ls ih =>
    cases h with
    | cons hws hl hfields hrest htext =>
      obtain ⟨last, hlast⟩ := ih htext.skipSpace l.device (addLine devicelist l)
      refine ⟨last, fun fuel hfuel => ?_⟩
      obtain ⟨fuel, rfl⟩ : ∃ k, fuel = k + 1 := ⟨fuel - 1, by simp at hfuel; omega⟩
      simp [dbusConfigFromFile, fscanf_line hws hl hfields hrest,
        hlast fuel (by simpa using hfuel)]

/-! ## writing a file -/

def Line.text (l : Line) : List UInt8 := l.device ++ l.numbers.flatMap fun n => 0x20 :: hex8 n

def configText (ls : List Line) : List UInt8 := ls.flatMap fun l => l.text ++ [0x0a]

theorem fields_flatMap_hex8 (hns : ∀ n ∈ ns, n < 0x100000000) :
    Fields (ns.flatMap fun n => 0x20 :: hex8 n) ns := by
  induction ns with
  | nil => exact .nil
  | cons n ns ih =>
    obtain ⟨hn, hns⟩ := List.forall_mem_cons.1 hns
    exact @Fields.cons [0x20] _ _ _ _ nofun (List.forall_mem_singleton.2 rfl) (hexText_hex8 hn)
      (ih hns)

theorem FileText.space {c : UInt8} (hc : isSpace c) (h : FileText t ls) : FileText (c :: t) ls := by
  cases h with
  | nil hws => exact .nil (List.forall_mem_cons.2 ⟨hc, hws⟩)
  | cons hws hl hfields hrest htext =>
    exact .cons (List.forall_mem_cons.2 ⟨hc, hws⟩) hl hfields hrest htext

/-- Any lines can be written to a file. -/
theorem fileText_configText (h : ∀ l ∈ ls, l.Named) : FileText (configText ls) ls := by
  induction ls with
  | nil => exact .nil nofun
  | cons l ls ih =>
    obtain ⟨hl, hls⟩ := List.forall_mem_cons.1 h
    have hend : FileText (0x0a :: configText ls) ls := (ih hls).space (by decide)
    have htext : configText (l :: ls) =
        [] ++ (l.device ++ (l.numbers.flatMap (fun n => 0x20 :: hex8 n) ++ 0x0a :: configText ls)) := by
      simp [configText, Line.text]
    rw [htext]
    exact .cons nofun hl (fields_flatMap_hex8 l.numbers_lt) (by rintro c ⟨⟩; decide) hend

end Ooows.Bus
