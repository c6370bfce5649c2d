import Ooows.Lib.Path
import Mathlib.Algebra.Group.Nat.Defs

/-!
# Ooows.P9.Host

The part of the host operating system that the 9P device talks to: a directory
tree without symbolic links, file contents by inode, and the descriptor table
of the device process.

`realpath`, `stat`, `open`, `mkdir` and `unlink` take path strings and resolve
them component by component against the tree (`Host.resolve`), as the C library
and the kernel do: a component before the last one must be a directory, `..`
drops the component before it.  Whatever else may make such a call fail
(permissions, a full disk, names that are too long) is left to `Env.refuse`.
-/

namespace Ooows.P9

open Lib Lib.Path

/-- What a directory entry refers to; `special` are sockets, fifos and devices. -/
inductive Node
  | file (ino : Nat)
  | dir
  | special
  deriving DecidableEq, Repr

/-- The flags `QidObject::Open` passes to `open`. -/
inductive OpenFlags
  | rdonly
  | wronly
  | rdwr
  deriving DecidableEq, Repr

/-- The host calls that take a path; `create` is `open` with `O_CREAT|O_EXCL`. -/
inductive Syscall
  | realpath (path : Bytes)
  | stat (path : Bytes)
  | open (path : Bytes) (flags : OpenFlags)
  | create (path : Bytes) (perm : UInt32)
  | mkdir (path : Bytes) (perm : UInt32)
  | unlink (path : Bytes)
  deriving DecidableEq, Repr

/-- The path argument of a call. -/
def Syscall.path : Syscall → Bytes
  | .realpath p | .stat p | .open p _ | .create p _ | .mkdir p _ | .unlink p => p

/-- An open file description; directories and special files have no inode here. -/
structure OpenFile where
  ino : Option Nat
  pos : Nat
  readable : Bool
  writable : Bool
  deriving DecidableEq, Repr

/-- The host as the device process sees it. -/
structure Host where
  /-- Working directory of the process. -/
  cwd : List Bytes
  /-- Directory tree: the entry at a resolved path below the root. -/
  node : List Bytes → Option Node
  /-- File contents by inode. -/
  data : Nat → Bytes
  nextIno : Nat
  /-- Descriptor table. -/
  fds : List (Option OpenFile)

namespace Host

/-- The entry at a resolved path; the root is a directory. -/
def entry (h : Host) (cs : List Bytes) : Option Node :=
  if cs = [] then some .dir else h.node cs

/-- Resolve the components `cs` below the resolved directory `acc`. -/
def walk (h : Host) : List Bytes → List Bytes → Option (List Bytes)
  | acc, [] => some acc
  | acc, c :: cs =>
    if c = [] ∨ c = dot then walk h acc cs
    else if c = dotdot then walk h acc.dropLast cs
    else match h.node (acc ++ [c]) with
      | some .dir => walk h (acc ++ [c]) cs
      -- a file is only good as the very last component: `file/` and `file/..` are ENOTDIR
      | some _ => if cs = [] then some (acc ++ [c]) else none
      | none => none

/-- Path lookup: the components of the entry `p` refers to. -/
def resolve (h : Host) (p : Bytes) : Option (List Bytes) :=
  if p = [] then none else walk h (start h.cwd p) (components p)

/-- `realpath`. -/
def realpath (h : Host) (p : Bytes) : Option Bytes := (h.resolve p).map render

/-- `stat`, as far as the kind of the entry goes. -/
def stat (h : Host) (p : Bytes) : Option Node := (h.resolve p).bind h.entry

/-- The place where a new entry would be created for the components `cs`. -/
def newEntry (h : Host) (acc cs : List Bytes) : Option (List Bytes) :=
  match cs.getLast? with
  | none => none
  | some c =>
    if Plain c then
      match walk h acc cs.dropLast with
      | some d => if h.entry d = some .dir then some (d ++ [c]) else none
      | none => none
    else none

/-- The lowest free descriptor, as POSIX wants it. -/
def allocFd : List (Option OpenFile) → OpenFile → Nat × List (Option OpenFile)
  | [], f => (0, [some f])
  | none :: fs, f => (0, some f :: fs)
  | some g :: fs, f => ((allocFd fs f).1 + 1, some g :: (allocFd fs f).2)

/-- `open` of an existing entry. -/
def openFile (h : Host) (p : Bytes) (flags : OpenFlags) : Option (Nat × Host) :=
  match h.stat p with
  | none => none
  | some n =>
    -- only a read-only open of a directory works
    if n = .dir ∧ flags ≠ .rdonly then none
    else
      let ino := match n with
        | .file i => some i
        | _ => none
      let (fd, fds) := allocFd h.fds ⟨ino, 0, flags ≠ .wronly, flags ≠ .rdonly⟩
      some (fd, { h with fds := fds })

/-- `open` with `O_CREAT|O_EXCL`: a new empty file, or nothing. -/
def create (h : Host) (p : Bytes) : Option (Nat × Host) :=
  if (h.resolve p).isSome then none
  else match h.newEntry (start h.cwd p) (components p) with
    | none => none
    | some q =>
      let (fd, fds) := allocFd h.fds ⟨some h.nextIno, 0, true, false⟩
      some (fd, { h with
        node := fun cs => if cs = q then some (.file h.nextIno) else h.node cs
        data := fun i => if i = h.nextIno then [] else h.data i
        nextIno := h.nextIno + 1
        fds := fds })

/-- `mkdir`; trailing slashes after the new name are allowed. -/
def mkdir (h : Host) (p : Bytes) : Option Host :=
  if (h.resolve p).isSome then none
  else match h.newEntry (start h.cwd p)
      ((components p).reverse.dropWhile (· = [])).reverse with
    | none => none
    | some q => some { h with node := fun cs => if cs = q then some .dir else h.node cs }

/-- `unlink`: directories stay. -/
def unlink (h : Host) (p : Bytes) : Option Host :=
  match h.resolve p with
  | none => none
  | some q =>
    if h.entry q = some .dir then none
    else some { h with node := fun cs => if cs = q then none else h.node cs }

/-! ## descriptors -/

/-- The open file behind a descriptor number. -/
def file (h : Host) (fd : Int) : Option OpenFile :=
  if 0 ≤ fd then (h.fds[fd.toNat]?).join else none

/-- Replace the open file behind a descriptor number. -/
def setFile (h : Host) (fd : Int) (f : Option OpenFile) : Host :=
  { h with fds := h.fds.set fd.toNat f }

/-- `close`; a bad descriptor is not an error anybody looks at. -/
def close (h : Host) (fd : Int) : Host :=
  match h.file fd with
  | none => h
  | some _ => h.setFile fd none

/-- `lseek(fd, offset, SEEK_SET)`: offsets are signed, a negative one is `EINVAL`, and so is one
that the file system does not have; the position stays then. -/
def lseek (h : Host) (accepts : UInt64 → Bool) (fd : Int) (offset : UInt64) : Option Host :=
  match h.file fd with
  | none => none
  | some f =>
    if offset.toNat < 2 ^ 63 ∧ accepts offset then some (h.setFile fd (some { f with pos := offset.toNat }))
    else none

/-- `read` of at most `count` bytes. -/
def read (h : Host) (fd : Int) (count : Nat) : Option (Bytes × Host) :=
  match h.file fd with
  | none => none
  | some f =>
    match f.readable, f.ino with
    | true, some i =>
      let bs := ((h.data i).drop f.pos).take count
      some (bs, h.setFile fd (some { f with pos := f.pos + bs.length }))
    | _, _ => none

/-- A file's contents after `bs` was written at `pos`; a gap reads as zeros. -/
def splice (old : Bytes) (pos : Nat) (bs : Bytes) : Bytes :=
  if bs = [] then old
  else old.take pos ++ List.replicate (pos - old.length) 0 ++ bs ++ old.drop (pos + bs.length)

/-- `write` of all of `bs`. -/
def write (h : Host) (fd : Int) (bs : Bytes) : Option (Nat × Host) :=
  match h.file fd with
  | none => none
  | some f =>
    match f.writable, f.ino with
    | true, some i =>
      let h := h.setFile fd (some { f with pos := f.pos + bs.length })
      some (bs.length, { h with
        data := fun j => if j = i then splice (h.data i) f.pos bs else h.data j })
    | _, _ => none

/-! ## resolution is lexical -/

/-- Without symbolic links, a walk that succeeds ends where the components
point to lexically. -/
theorem foldl_enter_of_walk {h : Host} {acc cs ds : List Bytes} (hw : h.walk acc cs = some ds) :
    cs.foldl enter acc = ds := by
  induction cs generalizing acc with
  | nil => simpa [walk] using hw
  | cons c cs ih =>
    rw [walk] at hw
    rw [List.foldl_cons]
    split at hw
    · next hskip =>
        rw [enter, if_pos hskip]
        exact ih hw
    · next hskip =>
        rw [enter, if_neg hskip]
        split at hw
        · next hdd =>
            rw [if_pos hdd]
            exact ih hw
        · next hdd =>
            rw [if_neg hdd]
            split at hw
            · exact ih hw
            · split at hw
              · next hcs =>
                  subst hcs
                  simpa using hw
              · contradiction
            · contradiction

/-- A path that resolves, resolves lexically. -/
theorem lexical_of_resolve {h : Host} {p : Bytes} {cs : List Bytes} (hr : h.resolve p = some cs) :
    lexical h.cwd p = cs := by
  unfold resolve at hr
  split at hr
  · contradiction
  · exact foldl_enter_of_walk hr

/-- What `realpath` returns is the string of the lexical resolution. -/
theorem realpath_eq_render {h : Host} {p q : Bytes} (hr : h.realpath p = some q) :
    q = render (lexical h.cwd p) := by
  unfold realpath at hr
  cases hres : h.resolve p with
  | none => rw [hres] at hr; contradiction
  | some cs =>
    rw [hres, Option.map_some, Option.some.injEq] at hr
    rw [lexical_of_resolve hres, hr]

/-! ## making and removing entries -/

theorem walk_congr {h h' : Host} (hn : h'.node = h.node) (acc cs : List Bytes) :
    h'.walk acc cs = h.walk acc cs := by
  induction cs generalizing acc with
  | nil => rfl
  | cons c cs ih => simp only [walk, hn, ih]

/-- A walk that reaches a directory goes on from there. -/
theorem walk_append {h : Host} {acc cs ds d : List Bytes} (hw : h.walk acc cs = some d)
    (hdir : h.entry d = some .dir) : h.walk acc (cs ++ ds) = h.walk d ds := by
  induction cs generalizing acc with
  | nil =>
    cases hw
    rfl
  | cons c cs ih =>
    rw [List.cons_append, walk]
    rw [walk] at hw
    split at hw
    next hskip =>
      rw [if_pos hskip]
      exact ih hw
    next hskip =>
      rw [if_neg hskip]
      split at hw
      next hdd =>
        rw [if_pos hdd]
        exact ih hw
      next hdd =>
        rw [if_neg hdd]
        cases hnode : h.node (acc ++ [c]) with
        | none => simp [hnode] at hw
        | some n =>
          rw [hnode] at hw
          -- a file on the way is where the walk ended, and that is a directory
          cases n with
          | dir => exact ih hw
          | file i =>
            obtain ⟨-, hd⟩ := Option.ite_none_right_eq_some.1 hw
            cases hd
            simp [entry, hnode] at hdir
          | special =>
            obtain ⟨-, hd⟩ := Option.ite_none_right_eq_some.1 hw
            cases hd
            simp [entry, hnode] at hdir

/-- An entry that is there is found. -/
theorem walk_newEntry {h : Host} {acc cs q : List Bytes} {n : Node}
    (hq : h.newEntry acc cs = some q) (hn : h.node q = some n) : h.walk acc cs = some q := by
  unfold newEntry at hq
  cases hl : cs.getLast? with
  | none => simp [hl] at hq
  | some c =>
    rw [hl] at hq
    dsimp only at hq
    split at hq
    next hplain =>
      cases hw : h.walk acc cs.dropLast with
      | none => simp [hw] at hq
      | some d =>
        rw [hw] at hq
        obtain ⟨hdir, hd⟩ := Option.ite_none_right_eq_some.1 hq
        cases hd
        have hcs : cs = cs.dropLast ++ [c] := by
          have hne : cs ≠ [] := by
            rintro rfl
            simp at hl
          rw [List.getLast?_eq_some_getLast hne, Option.some.injEq] at hl
          rw [← hl, List.dropLast_concat_getLast]
        obtain ⟨hne, hdot, hdd, -⟩ := hplain
        rw [hcs, walk_append hw hdir, walk, if_neg (by simp [hne, hdot]), if_neg hdd, hn]
        cases n <;> simp [walk]
    · contradiction

/-- Trailing slashes change nothing behind a directory. -/
theorem walk_nils {h : Host} (acc cs : List Bytes) (hcs : ∀ c ∈ cs, c = []) :
    h.walk acc cs = some acc := by
  induction cs with
  | nil => rfl
  | cons c cs ih =>
    rw [walk, if_pos (.inl (hcs c List.mem_cons_self))]
    exact ih fun d hd => hcs d (List.mem_cons_of_mem c hd)

/-- `open` with `O_EXCL` makes an entry that was not there. -/
theorem create_node_ne {h h' : Host} {p : Bytes} {fd : Nat} (hc : h.create p = some (fd, h')) :
    h'.node ≠ h.node := by
  unfold create at hc
  split at hc
  · contradiction
  next hres =>
    split at hc
    · contradiction
    next q hq =>
      cases hc
      intro heq
      have hn : h.node q = some (.file h.nextIno) := by
        rw [← heq]
        simp
      have hw := walk_newEntry hq hn
      refine hres ?_
      unfold resolve
      split
      next hp => simp [hp, newEntry, components, Plain] at hq
      · rw [hw]
        rfl

/-- So does `mkdir`. -/
theorem mkdir_node_ne {h h' : Host} {p : Bytes} (hm : h.mkdir p = some h') : h'.node ≠ h.node := by
  unfold mkdir at hm
  split at hm
  · contradiction
  next hres =>
    split at hm
    · contradiction
    next q hq =>
      cases hm
      intro heq
      have hn : h.node q = some .dir := by
        rw [← heq]
        simp
      have hdir : h.entry q = some .dir := by
        rw [entry]
        split
        · rfl
        · exact hn
      -- the path is the one that was walked, with slashes behind it
      have hcs : components p = ((components p).reverse.dropWhile (· = [])).reverse ++
          ((components p).reverse.takeWhile (· = [])).reverse := by
        rw [← List.reverse_append, List.takeWhile_append_dropWhile, List.reverse_reverse]
      have hw : h.walk (start h.cwd p) (components p) = some q := by
        rw [hcs, walk_append (walk_newEntry hq hn) hdir]
        refine walk_nils q _ fun c hc => ?_
        simpa using List.all_eq_true.1 List.all_takeWhile c (List.mem_reverse.1 hc)
      refine hres ?_
      unfold resolve
      split
      next hp => simp [hp, newEntry, components] at hq
      · rw [hw]
        rfl

/-- Whether a file can be unlinked depends on the entries alone. -/
theorem unlink_isSome_congr {h h' : Host} (hn : h'.node = h.node) (hc : h'.cwd = h.cwd) (p : Bytes) :
    (h'.unlink p).isSome = (h.unlink p).isSome := by
  have hres : h'.resolve p = h.resolve p := by
    rw [resolve, resolve, hc, walk_congr hn]
  unfold unlink
  rw [hres]
  cases h.resolve p with
  | none => rfl
  | some q =>
    have hentry : h'.entry q = h.entry q := by rw [entry, entry, hn]
    dsimp only
    rw [hentry]
    split <;> rfl

end Host

end Ooows.P9
