import Ooows.P9.Host
import Mathlib.Logic.Function.Basic

/-!
# Ooows.P9.QidObject

The objects behind fids and the state of the 9P device around them.

Objects live in a heap addressed by number, `new` takes the next number, and
nothing is ever handed out twice.  `delete` does not touch the contents: it
only counts (`Dev.deletes`), so a pointer that outlives its object still reads
what was there.  Which uses of such pointers are possible is what the theorems
about this model are about.

Every host call that takes a path is recorded in `Dev.log`.
-/

namespace Ooows.P9

open Lib Lib.Path

/-- `qid_t`. -/
structure Qid where
  type : UInt8
  version : UInt32
  path : UInt64
  deriving DecidableEq, Repr

/-- The fields of `p9_stat_t` that `QidObject::Stat` sets; the others stay zero. -/
structure P9Stat where
  size : UInt16
  qid : Qid
  length : UInt64
  deriving DecidableEq, Repr

def p9QTFILE : UInt8 := 0x00
def p9QTDIR : UInt8 := 0x80

/-- `DMDIR`: the bit of a create's `perm` that asks for a directory. -/
def dmDir : UInt32 := 0x80000000

/-- Pointer to a `QidObject`. -/
abbrev Ptr := Nat

structure QidObject where
  type : UInt8
  version : UInt32
  path : UInt64
  fspath : Bytes
  root : Bytes
  opened : Bool
  mode : UInt8
  fd : Int
  refcnt : UInt32
  deriving DecidableEq, Repr

instance : Inhabited QidObject := ⟨⟨0, 0, 0, [], [], false, 0, 0, 0⟩⟩

/-- What a request finds in its environment and the model leaves open: which
host calls are refused, and the contents of memory that nobody initialised. -/
structure Env where
  /-- Calls that fail for reasons outside the directory tree. -/
  refuse : Syscall → Bool
  /-- `read` or `write` fails. -/
  ioError : Bool
  /-- The offsets that the file system has. -/
  accepts : UInt64 → Bool
  /-- How many of some number of bytes a `write` takes. -/
  written : Nat → Nat
  /-- `st_size` of directories and special files. -/
  dirSize : UInt64
  /-- `m_type` of an object that is neither a file nor a directory. -/
  uninitType : UInt8
  /-- `m_mode` and `m_fd` of an object that was never opened. -/
  uninitMode : UInt8
  uninitFd : Int
  /-- `m_qid` and `m_aqid` of a request that never sets them. -/
  uninitQid : Qid

/-- The 9P device between two requests: the host, the object heap and `P9Core`. -/
structure Dev where
  host : Host
  /-- Path-taking host calls so far, oldest first. -/
  log : List Syscall
  obj : Ptr → QidObject
  /-- How often each object was deleted. -/
  deletes : Ptr → Nat
  /-- The next object to be constructed. -/
  next : Ptr
  authed : Bool
  authRequired : Bool
  sharename : Bytes
  mountpoint : Bytes
  /-- `m_fid_map`. -/
  fidMap : List (UInt32 × Ptr)
  /-- Tags of the requests in `m_request_map`. -/
  requestMap : List UInt16

/-- The device `P9FsDev` starts with: `P9Core` has no fids and no requests. -/
def Dev.init (host : Host) (authRequired : Bool) (sharename mountpoint : Bytes) : Dev where
  host := host
  log := []
  obj := fun _ => default
  deletes := fun _ => 0
  next := 0
  authed := false
  authRequired := authRequired
  sharename := sharename
  mountpoint := mountpoint
  fidMap := []
  requestMap := []

namespace Dev

/-- An object that has been constructed and not yet deleted. -/
def Live (s : Dev) (p : Ptr) : Prop := p < s.next ∧ s.deletes p = 0

instance (s : Dev) (p : Ptr) : Decidable (s.Live p) := inferInstanceAs (Decidable (_ ∧ _))

/-- Record a host call. -/
def call (s : Dev) (c : Syscall) : Dev := { s with log := s.log ++ [c] }

/-- Update one object in place. -/
def setObj (s : Dev) (p : Ptr) (f : QidObject → QidObject) : Dev :=
  { s with obj := Function.update s.obj p (f (s.obj p)) }

/-- `delete`.  The contents stay and no new object gets the storage, so the model says something
about the code only as long as nobody uses a deleted object. -/
def delete (s : Dev) (p : Ptr) : Dev :=
  { s with deletes := Function.update s.deletes p (s.deletes p + 1) }

/-! ## construction -/

/-- `char` is signed: bytes from 128 on are negative. -/
def signExtend (c : UInt8) : UInt64 :=
  if c < 128 then c.toUInt64 else c.toUInt64 + 0xffffffffffffff00

/-- The hash that becomes the qid's path. -/
def hashPath (cpath : Bytes) : UInt64 :=
  (cpath.takeWhile (· ≠ 0)).foldl (fun m c => ((m <<< 5) + m) + signExtend c) 5381

/-- `m_type` for the entry `stat` found. -/
def typeOf (env : Env) : Node → UInt8
  | .file _ => p9QTFILE
  | .dir => p9QTDIR
  | .special => env.uninitType

/-- The object `QidObject(path, root)` builds for an entry. -/
def newObject (env : Env) (path root : Bytes) (n : Node) : QidObject where
  type := typeOf env n
  version := 0
  path := hashPath path
  fspath := path
  root := root
  opened := false
  mode := env.uninitMode
  fd := env.uninitFd
  refcnt := 0

/-- Put a new object on the heap. -/
def alloc (s : Dev) (o : QidObject) : Dev :=
  { s with obj := Function.update s.obj s.next o, next := s.next + 1 }

/-- `new QidObject(path, root)`; `none` is the exception thrown when `stat` fails. -/
def newQidObject (env : Env) (path root : Bytes) (s : Dev) : Dev × Option Ptr :=
  let s := s.call (.stat path)
  if env.refuse (.stat path) then (s, none)
  else match s.host.stat path with
    | none => (s, none)
    | some n => (s.alloc (newObject env path root n), some s.next)

/-! ## methods -/

def isRoot (o : QidObject) : Bool := o.fspath = o.root

def qid (o : QidObject) : Qid := ⟨o.type, o.version, o.path⟩

def incRef (p : Ptr) (s : Dev) : Dev := s.setObj p fun o => { o with refcnt := o.refcnt + 1 }

/-- `DecRef`: the object deletes itself when its count reaches zero. -/
def decRef (p : Ptr) (s : Dev) : Dev :=
  let s := s.setObj p fun o => { o with refcnt := o.refcnt - 1 }
  if (s.obj p).refcnt = 0 then s.delete p else s

/-- The `open` flags for a 9P mode; other modes are refused. -/
def flagsOf (mode : UInt8) : Option OpenFlags :=
  if mode = 0 then some .rdonly
  else if mode = 1 then some .wronly
  else if mode = 2 then some .rdwr
  else none

/-- `QidObject::Open`. -/
def qidOpen (env : Env) (p : Ptr) (mode : UInt8) (s : Dev) : Dev × Bool :=
  if (s.obj p).opened then (s, false)
  else if (s.obj p).type = p9QTDIR then
    -- a directory counts as open, but gets no descriptor
    (s.setObj p fun o => { o with opened := true, mode := mode }, true)
  else match flagsOf mode with
    | none => (s, false)
    | some flags =>
      let c := Syscall.open (s.obj p).fspath flags
      let s := s.call c
      if env.refuse c then (s.setObj p fun o => { o with fd := -1 }, false)
      else match s.host.openFile (s.obj p).fspath flags with
        | none => (s.setObj p fun o => { o with fd := -1 }, false)
        | some (fd, h) =>
          ({ s with host := h }.setObj p fun o =>
            { o with fd := fd, opened := true, mode := mode }, true)

/-- `QidObject::Close`. -/
def qidClose (p : Ptr) (s : Dev) : Dev × Bool :=
  if (s.obj p).opened then
    ({ s with host := s.host.close (s.obj p).fd }.setObj p fun o => { o with opened := false }, true)
  else (s, false)

/-- `QidObject::Read`. -/
def qidRead (env : Env) (p : Ptr) (offset : UInt64) (count : UInt32) (s : Dev) :
    Dev × Option Bytes :=
  if (s.obj p).opened then
    match s.host.lseek env.accepts (s.obj p).fd offset with
    | none => (s, none)
    | some h =>
      if env.ioError then ({ s with host := h }, none)
      else match h.read (s.obj p).fd count.toNat with
        | none => ({ s with host := h }, none)
        | some (bs, h) => ({ s with host := h }, some bs)
  else (s, none)

/-- `QidObject::Write`: a seek that fails is not an error, the write then goes
to wherever the descriptor stands. -/
def qidWrite (env : Env) (p : Ptr) (offset : UInt64) (data : Bytes) (s : Dev) : Dev × UInt32 :=
  if (s.obj p).opened then
    let h := (s.host.lseek env.accepts (s.obj p).fd offset).getD s.host
    if env.ioError then ({ s with host := h }, 0)
    else match h.write (s.obj p).fd (data.take (env.written data.length)) with
      | none => ({ s with host := h }, 0)
      | some (n, h) => ({ s with host := h }, UInt32.ofNat n)
  else (s, 0)

/-- `sizeof(p9_stat_t)`. -/
def sizeofStat : UInt16 := 48

/-- `QidObject::Stat`. -/
def qidStat (env : Env) (p : Ptr) (s : Dev) : Dev × Option P9Stat :=
  let path := (s.obj p).fspath
  let s := s.call (.stat path)
  if env.refuse (.stat path) then (s, none)
  else match s.host.stat path with
    | none => (s, none)
    | some n =>
      let length := match n with
        | .file i => UInt64.ofNat (s.host.data i).length
        | _ => env.dirSize
      (s, some ⟨sizeofStat, qid (s.obj p), length⟩)

/-- `QidObject::Remove`. -/
def qidRemove (env : Env) (p : Ptr) (s : Dev) : Dev × Bool :=
  let c := Syscall.unlink (s.obj p).fspath
  let s := s.call c
  if env.refuse c then (s, false)
  else match s.host.unlink (s.obj p).fspath with
    | none => (s, false)
    | some h => ({ s with host := h }, true)

/-- The path string `m_fspath + "/" + name`. -/
def childPath (o : QidObject) (name : Bytes) : Bytes := o.fspath ++ slash :: name

/-- The path `Traverse` hands to `realpath`: `..` at the share's root stays there. -/
def traversePath (o : QidObject) (name : Bytes) : Bytes :=
  if isRoot o ∧ name = dotdot then o.fspath else childPath o name

/-- `QidObject::Traverse`. -/
def traverse (env : Env) (p : Ptr) (name : Bytes) (s : Dev) : Dev × Option Ptr :=
  let newpath := traversePath (s.obj p) name
  let s := s.call (.realpath newpath)
  if env.refuse (.realpath newpath) then (s, none)
  else match s.host.realpath newpath with
    | none => (s, none)
    | some resolved => newQidObject env resolved (s.obj p).root s

/-- The host call by which `CreateChild` makes the new entry. -/
def createCall (o : QidObject) (child : Bytes) (perm : UInt32) : Syscall :=
  if perm &&& dmDir ≠ 0 then .mkdir (childPath o child) (perm &&& 0o777)
  else .create (childPath o child) (perm &&& 0o777)

/-- What that call does to the host; a created file is closed at once. -/
def createEntry (h : Host) : Syscall → Option Host
  | .mkdir p _ => h.mkdir p
  | .create p _ => (h.create p).map fun r => r.2.close r.1
  | _ => none

/-- `QidObject::CreateChild`. -/
def createChild (env : Env) (p : Ptr) (child : Bytes) (perm : UInt32) (s : Dev) :
    Dev × Option Ptr :=
  let c := createCall (s.obj p) child perm
  let s := s.call c
  if env.refuse c then (s, none)
  else match createEntry s.host c with
    | none => (s, none)
    | some h => traverse env p child { s with host := h }

end Dev

end Ooows.P9
