import Mathlib.Data.Nat.Digits.Defs
import Ooows.Lib.Matcher
import Ooows.Lib.Run

/-!
# Ooows.Noflag

The NOFLAG device, `devices-bin/noflag.sh`: port writes build a file name, the value 1337
opens the file, and port reads give its contents.  A filter beside the name is meant to
throw it away as soon as it has `flag` in it.

The filter compares what was written with the next character of `flag`.  It is behind the
name when a second `f` comes (it starts at 0, not at 1), when a byte is 0 (the shell drops
it from the name but not from the filter), when a value has more than two hexadecimal
digits (the shell makes several characters of it), and after a file was opened (the name
is new, the filter is not).  `KeepsPlace` says which writes do none of this.

The name stands unquoted in `exec 137<$FILENAME`, so the shell makes of it what it makes of
any word: it splits it, and matches it against the files there are.  Which word comes out
is up to the shell (`Shell`); without the characters of a pattern (`isPattern`) it is a part
of the name.
-/

namespace Ooows.Noflag

open Lib

/-! ## requests -/

/-- `PIO_SIZE`: the sizes of a port access. -/
inductive Width
  | one
  | two
  | four
  deriving DecidableEq, Repr

def Width.bytes : Width → Nat
  | one => 1
  | two => 2
  | four => 4

/-- What the main loop reads of a PIO request. -/
structure Request where
  direction : UInt8
  size : Width
  data : UInt32
  deriving DecidableEq, Repr

/-- `PIO_DATA`: only `PIO_SIZE` bytes of the data are read. -/
def Request.pioData (r : Request) : Nat := r.data.toNat % 256 ^ r.size.bytes

/-! ## what the shell makes of a value -/

/-- `printf %02x`, as digits. -/
def printf02x (v : Nat) : List Nat :=
  let digits := (Nat.digits 16 v).reverse
  List.replicate (2 - digits.length) 0 ++ digits

/-- The character of a hexadecimal digit. -/
def hexChar (d : Nat) : UInt8 := if d < 10 then UInt8.ofNat (0x30 + d) else UInt8.ofNat (0x57 + d)

/-- The string `$'\x...'` for some digits: the escape takes two of them, the others stand for
themselves.  A string ends at a zero byte. -/
def ansiC : List Nat → List UInt8
  | a :: b :: rest =>
    if 16 * a + b = 0 then [] else UInt8.ofNat (16 * a + b) :: rest.map hexChar
  | _ => []

/-- `BYTE`. -/
def Request.byte (r : Request) : List UInt8 := ansiC (printf02x r.pioData)

/-! ## the redirection -/

/-- The characters that make a word a pattern: `*`, `?`, `[` and the backslash. -/
def patternChars : List UInt8 := [0x2a, 0x3f, 0x5b, 0x5c]

/-- The characters at which a word is split: space, tab and newline. -/
def ifs : List UInt8 := [0x20, 0x09, 0x0a]

def isPattern (name : List UInt8) : Bool := name.any patternChars.contains

def isSplit (name : List UInt8) : Bool := name.any ifs.contains

/-- What the shell makes of `$FILENAME` in the redirection: the word it opens, or `none` if it
is not one word. -/
structure Shell where
  expand : List UInt8 → Option (List UInt8)
  /-- A word that is no pattern is split at most. -/
  field : ∀ name, isPattern name = false → ∀ word ∈ expand name, word <:+: name
  /-- A word that is neither a pattern nor split stays as it is. -/
  word : ∀ name, name ≠ [] → isPattern name = false → isSplit name = false →
    expand name = some name

/-! ## the main loop -/

/-- `FILTER_STRING`: the characters of `flag`. -/
def filterString : List UInt8 := [0x66, 0x6c, 0x61, 0x67]

structure Dev where
  filename : List UInt8
  filterOffset : Nat
  /-- The words with which a file was opened. -/
  opened : List (List UInt8)
  deriving DecidableEq, Repr

namespace Dev

def init : Dev := ⟨[], 0, []⟩

/-- One request. -/
def handle (sh : Shell) (s : Dev) (r : Request) : Dev :=
  if r.direction = 1 then
    if r.pioData = 1337 then
      { s with filename := [], opened := s.opened ++ (sh.expand s.filename).toList }
    else if (filterString.drop s.filterOffset).take 1 = r.byte then
      if s.filterOffset + 1 ≥ filterString.length then
        { s with filename := [], filterOffset := 0 }
      else { s with filename := s.filename ++ r.byte, filterOffset := s.filterOffset + 1 }
    else { s with filename := s.filename ++ r.byte, filterOffset := 0 }
  else s

/-- The filter is not behind the name after this request. -/
def KeepsPlace (s : Dev) (r : Request) : Prop :=
  r.direction = 1 → r.pioData ≠ 1337 →
    (r.byte = [0x66] → s.filterOffset = 0) ∧
    (r.byte.length ≠ 1 → Clean filterString (s.filename ++ r.byte))

instance (s : Dev) (r : Request) : Decidable (s.KeepsPlace r) :=
  inferInstanceAs (Decidable (_ → _ → _ ∧ _))

/-- A request that keeps the filter's place, and adds nothing that makes the name a pattern. -/
def SafeStep (sh : Shell) : Dev → Request → Dev → Prop :=
  Guarded (fun s r => s.KeepsPlace r ∧ isPattern r.byte = false) fun s r t => t = s.handle sh r

/-- The filter's place is right, the name is no pattern, and no word with `flag` was opened. -/
structure Ok (s : Dev) : Prop where
  placed : Placed filterString s.filterOffset s.filename
  plain : isPattern s.filename = false
  opened : ∀ word ∈ s.opened, ¬ filterString <:+: word

theorem headOnce_filterString : HeadOnce filterString := by decide

theorem Ok.init : init.Ok where
  placed := .nil (by decide)
  plain := rfl
  opened := nofun

variable {sh : Shell} {s : Dev} {r : Request}

/-- The comparison of the filter. -/
theorem take_drop_filterString (n : Nat) :
    (filterString.drop n).take 1 = filterString[n]?.toList := by
  rw [List.take_one, List.head?_drop]

/-- What was written is not the next character of `flag`. -/
theorem handle_mismatch (hout : r.direction = 1) (hdata : r.pioData ≠ 1337)
    (hbyte : filterString[s.filterOffset]?.toList ≠ r.byte) :
    s.handle sh r = { s with filename := s.filename ++ r.byte, filterOffset := 0 } := by
  rw [handle, if_pos hout, if_neg hdata, take_drop_filterString, if_neg hbyte]

/-- The name is thrown away or grows, and the filter follows it. -/
theorem Ok.placed_write (h : s.Ok) (hkeep : s.KeepsPlace r) (hout : r.direction = 1)
    (hdata : r.pioData ≠ 1337) :
    Placed filterString (s.handle sh r).filterOffset (s.handle sh r).filename := by
  obtain ⟨hhead, hclean⟩ := hkeep hout hdata
  have hplaced := h.placed
  obtain ⟨next, hnext⟩ : ∃ next, filterString[s.filterOffset]? = some next :=
    ⟨_, List.getElem?_eq_getElem hplaced.lt⟩
  by_cases hmatch : filterString[s.filterOffset]?.toList = r.byte
  · -- the matcher goes on, or the name is thrown away
    rw [handle, if_pos hout, if_neg hdata, take_drop_filterString, if_pos hmatch, ← hmatch, hnext]
    split
    next => exact .nil (show 0 < filterString.length by decide)
    next hlt => exact hplaced.advance headOnce_filterString hnext (Nat.lt_of_not_le hlt)
  · rw [handle_mismatch hout hdata hmatch]
    by_cases hone : r.byte.length = 1
    · obtain ⟨b, hb⟩ := List.length_eq_one_iff.1 hone
      rw [hb] at hmatch hhead ⊢
      refine hplaced.restart (fun heq => hmatch ?_) fun hfirst => ?_
      · rw [heq]
        rfl
      · cases hfirst
        exact hhead rfl
    · -- no character, or several
      exact (hclean hone).placed (by decide)

theorem handle_open (hout : r.direction = 1) (hdata : r.pioData = 1337) :
    s.handle sh r =
      { s with filename := [], opened := s.opened ++ (sh.expand s.filename).toList } := by
  rw [handle, if_pos hout, if_pos hdata]

theorem opened_write (hdata : r.pioData ≠ 1337) : (s.handle sh r).opened = s.opened := by
  unfold handle
  rw [if_neg hdata]
  (repeat' split) <;> rfl

theorem isPattern_append (v w : List UInt8) :
    isPattern (v ++ w) = (isPattern v || isPattern w) := List.any_append

/-- The name becomes a pattern only by what is added. -/
theorem isPattern_handle (hs : isPattern s.filename = false) (hr : isPattern r.byte = false) :
    isPattern (s.handle sh r).filename = false := by
  have happend : isPattern (s.filename ++ r.byte) = false := by rw [isPattern_append, hs, hr]; rfl
  unfold handle
  (repeat' split) <;> first | exact happend | exact hs | rfl

/-- **One request.** -/
theorem Ok.handle (h : s.Ok) (hkeep : s.KeepsPlace r) (hplain : isPattern r.byte = false) :
    (s.handle sh r).Ok := by
  have hname : isPattern (s.handle sh r).filename = false := isPattern_handle h.plain hplain
  by_cases hout : r.direction = 1
  · by_cases hdata : r.pioData = 1337
    · rw [handle_open hout hdata] at hname ⊢
      refine ⟨.nil h.placed.lt, hname, fun word hword => ?_⟩
      rcases List.mem_append.1 hword with hold | hnew
      · exact h.opened word hold
      · -- what is opened is a part of the name
        have hpart := sh.field _ h.plain word (Option.mem_toList.1 hnew)
        exact fun hflag => h.placed.absent (hflag.trans hpart)
    · refine ⟨h.placed_write hkeep hout hdata, hname, ?_⟩
      rw [opened_write hdata]
      exact h.opened
  · rw [Dev.handle, if_neg hout]
    exact h

/-! ## what the other requests lead to -/

/-- A port write of a byte. -/
def outb (b : UInt8) : Request := ⟨1, .one, b.toUInt32⟩

/-- The request that opens the file. -/
def openFile : Request := ⟨1, .four, 1337⟩

/-- The characters of `flag` but the first, as requests. -/
theorem rest_spec {b : UInt8} (hb : b ∈ filterString.drop 1) : (outb b).byte = [b] ∧ [0x66] ≠ [b] ∧
    (outb b).pioData ≠ 1337 ∧ isPattern [b] = false ∧ isSplit [b] = false := by
  have hall : (filterString.drop 1).all fun b => (outb b).byte = [b] ∧ [0x66] ≠ [b] ∧
      (outb b).pioData ≠ 1337 ∧ isPattern [b] = false ∧ isSplit [b] = false := by decide
  exact of_decide_eq_true (List.all_eq_true.1 hall b hb)

/-- The rest of `flag` is neither a pattern nor split. -/
theorem rest_plain {rest : List UInt8} (hrest : ∀ b ∈ rest, b ∈ filterString.drop 1) :
    isPattern rest = false ∧ isSplit rest = false := by
  constructor
  · refine List.any_eq_false.2 fun b hb => ?_
    simpa [isPattern] using (rest_spec (hrest b hb)).2.2.2.1
  · refine List.any_eq_false.2 fun b hb => ?_
    simpa [isSplit] using (rest_spec (hrest b hb)).2.2.2.2

/-- With the filter at its start, the rest of `flag` goes into the name. -/
theorem run_rest (sh : Shell) {rest : List UInt8} (hrest : ∀ b ∈ rest, b ∈ filterString.drop 1)
    (h : s.filterOffset = 0) :
    Run (SafeStep sh) s (rest.map outb) { s with filename := s.filename ++ rest } := by
  induction rest generalizing s with
  | nil =>
    rw [List.append_nil]
    exact .refl
  | cons b rest ih =>
    obtain ⟨hbyte, hfirst, hdata, hplain, -⟩ := rest_spec (hrest b List.mem_cons_self)
    rw [← hbyte] at hplain
    have hhandle : s.handle sh (outb b) = { s with filename := s.filename ++ [b] } := by
      rw [handle_mismatch rfl hdata (by rw [h, hbyte]; exact hfirst), hbyte, ← h]
    have hkeeps : s.KeepsPlace (outb b) := fun _ _ => by
      rw [hbyte]
      exact ⟨fun hf => absurd hf.symm hfirst, fun hlen => absurd rfl hlen⟩
    have hrun := ih (s := { s with filename := s.filename ++ [b] })
      (fun b hb => hrest b (List.mem_cons_of_mem _ hb)) h
    rw [List.append_assoc] at hrun
    exact (Run.single ⟨⟨hkeeps, hplain⟩, hhandle.symm⟩).append hrun

/-- A write that does not keep the place starts the filter again. -/
theorem filterOffset_of_not_keepsPlace (sh : Shell) (h : s.Ok) (hkeep : ¬ s.KeepsPlace r) :
    (s.handle sh r).filterOffset = 0 ∧ (s.handle sh r).filename = s.filename ++ r.byte ∧
      ¬ Clean filterString (s.filename ++ r.byte) := by
  simp only [KeepsPlace, not_forall, not_and_or] at hkeep
  obtain ⟨hout, hdata, hkeep⟩ := hkeep
  rcases hkeep with ⟨hbyte, hoffset⟩ | ⟨hlen, hclean⟩
  · -- a second `f`
    have hne : filterString[s.filterOffset]?.toList ≠ r.byte := by
      rw [hbyte, List.getElem?_eq_getElem h.placed.lt]
      intro heq
      refine hoffset (headOnce_filterString _ h.placed.lt ?_)
      rw [List.getElem?_eq_getElem h.placed.lt, (List.singleton_inj.1 heq)]
      rfl
    rw [handle_mismatch hout hdata hne]
    refine ⟨rfl, rfl, fun hclean => hclean.2 1 (by decide) (by decide) ?_⟩
    rw [hbyte]
    exact List.suffix_append ..
  · have hne : filterString[s.filterOffset]?.toList ≠ r.byte := by
      rw [List.getElem?_eq_getElem h.placed.lt]
      intro heq
      exact hlen (heq ▸ rfl)
    rw [handle_mismatch hout hdata hne]
    exact ⟨rfl, rfl, hclean⟩

/-- **The filter, and what it misses.**  As long as every request keeps the filter's place and adds
nothing that makes the name a pattern, whatever the guest writes and reads, no file is opened with
`flag` in its name.  After a request that adds no such character, and none at which words are
split, but does not keep the place, the guest can open one with requests that do. -/
theorem never_opens_flag (sh : Shell) {rs : List Request} {s : Dev}
    (h : Run (SafeStep sh) init rs s) :
    (∀ word ∈ s.opened, ¬ filterString <:+: word) ∧
    ∀ r, isPattern r.byte = false → isSplit (s.filename ++ r.byte) = false → ¬ s.KeepsPlace r →
      ∃ rs' t, Run (SafeStep sh) (s.handle sh r) rs' t ∧
        ∃ word ∈ t.opened, filterString <:+: word := by
  have hok : s.Ok := h.invariant (I := Ok)
    (fun s r t hs hstep => by rw [hstep.2]; exact hs.handle hstep.1.1 hstep.1.2) Ok.init
  refine ⟨hok.opened, fun r hplain hsplit hkeep => ?_⟩
  obtain ⟨hoffset, hname, hclean⟩ := filterOffset_of_not_keepsPlace sh hok hkeep
  obtain ⟨k, hk, hinfix⟩ := exists_infix_of_not_clean (by decide) hclean
  have hrest : ∀ b ∈ filterString.drop k, b ∈ filterString.drop 1 :=
    fun b hb => (List.drop_sublist_drop_left filterString hk).subset hb
  have hrun := run_rest sh hrest hoffset
  rw [hname] at hrun
  have hopen : isPattern openFile.byte = false := by decide
  refine ⟨_, _, hrun.tail ⟨⟨fun _ hdata => absurd rfl hdata, hopen⟩, rfl⟩, _, ?_, hinfix⟩
  have hne : s.filename ++ r.byte ++ filterString.drop k ≠ [] := fun hnil => by
    rw [hnil] at hinfix
    exact absurd (List.infix_nil.1 hinfix) (by decide)
  obtain ⟨hrestPlain, hrestSplit⟩ := rest_plain hrest
  have hword : sh.expand (s.filename ++ r.byte ++ filterString.drop k) =
      some (s.filename ++ r.byte ++ filterString.drop k) := by
    refine sh.word _ hne ?_ ?_
    · rw [isPattern_append, isPattern_append, hok.plain, hplain, hrestPlain]
      rfl
    · rw [isSplit, List.any_append, ← isSplit, ← isSplit, hsplit, hrestSplit]
      rfl
  rw [handle_open rfl rfl]
  dsimp only
  rw [hword]
  exact List.mem_append_right _ (List.mem_singleton_self _)

/-- A word as a pattern for a file name, with `?` for any character. -/
def matchesFile : List UInt8 → List UInt8 → Bool
  | a :: pat, b :: file => (a = 0x3f || a = b) && matchesFile pat file
  | [], [] => true
  | _, _ => false

/-- A shell in a directory with one file, `flag`. -/
def sampleShell : Shell where
  expand name :=
    if name = [] ∨ isSplit name then none
    else if isPattern name && matchesFile name filterString then some filterString
    else some name
  field name hplain word hword := by
    rw [hplain, Bool.false_and, if_neg Bool.false_ne_true] at hword
    obtain ⟨-, hword⟩ := Option.ite_none_left_eq_some.1 hword
    cases hword
    exact List.infix_refl _
  word name hne hplain hsplit := by
    rw [hplain, Bool.false_and, if_neg Bool.false_ne_true, if_neg (by simp [hne, hsplit])]

/-- The filter lets `flxg` through. -/
theorem never_opens_flag_flxg : ∃ s,
    Run (SafeStep sampleShell) init ([0x66, 0x6c, 0x78, 0x67].map outb ++ [openFile]) s ∧
    s.opened = [[0x66, 0x6c, 0x78, 0x67]] ∧
    ∀ word ∈ s.opened, ¬ filterString <:+: word := by
  have hexec : (exec (fun s r => if KeepsPlace s r ∧ isPattern r.byte = false then
      some (s.handle sampleShell r) else none) init ([0x66, 0x6c, 0x78, 0x67].map outb ++ [openFile])).map Dev.opened =
      some [[0x66, 0x6c, 0x78, 0x67]] := by decide
  obtain ⟨s, hs, hopened⟩ := Option.map_eq_some_iff.1 hexec
  have hrun : Run (SafeStep sampleShell) init
      ([0x66, 0x6c, 0x78, 0x67].map outb ++ [openFile]) s :=
    (run_guarded_of_exec hs).mono fun _ _ _ hstep => ⟨hstep.1, (Option.some.inj hstep.2).symm⟩
  exact ⟨s, hrun, hopened, (never_opens_flag sampleShell hrun).1⟩

/-- `fflag`. -/
def secondF : List Request := [0x66, 0x66, 0x6c, 0x61, 0x67].map outb ++ [openFile]

/-- `exploit_noflag` of the guest kernel: `/fla`, a zero byte, `g`. -/
def exploitNoflag : List Request := [0x2f, 0x66, 0x6c, 0x61, 0, 0x67].map outb ++ [openFile]

/-- A value of three digits stands for two characters, `xf`. -/
def wideValue : List Request := ⟨1, .two, 0x78f⟩ :: [0x6c, 0x61, 0x67].map outb ++ [openFile]

/-- A file `f` is opened, and then `flag`. -/
def openTwice : List Request := [outb 0x66, openFile] ++ filterString.map outb ++ [openFile]

/-- `fl?g`, in a directory with a file `flag`. -/
def pattern : List Request := [0x66, 0x6c, 0x3f, 0x67].map outb ++ [openFile]

/-- These requests open a file with `flag` in its name. -/
def OpensFlag (sh : Shell) (rs : List Request) : Prop :=
  ∃ s, Run (fun s r t => t = s.handle sh r) init rs s ∧ ∃ word ∈ s.opened, filterString <:+: word

/-- **The filter misses `flag`** in each of the five ways. -/
theorem opens_flag : OpensFlag sampleShell secondF ∧ OpensFlag sampleShell exploitNoflag ∧
    OpensFlag sampleShell wideValue ∧ OpensFlag sampleShell openTwice ∧
    OpensFlag sampleShell pattern := by
  have hopens : ∀ rs, (∃ word ∈ (rs.foldl (handle sampleShell) init).opened,
      filterString <:+: word) → OpensFlag sampleShell rs :=
    fun rs hword => ⟨_, Run.foldl (handle sampleShell) init rs, hword⟩
  exact ⟨hopens _ (by decide), hopens _ (by decide), hopens _ (by decide), hopens _ (by decide),
    hopens _ (by decide)⟩

end Dev

end Ooows.Noflag
