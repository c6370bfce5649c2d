import Ooows.P9.QidObject

/-!
# Ooows.P9.Request

`P9Core`, the T-requests and `TRequest::Process`.

`process` runs one parsed request to its response.  Its result is `none` when
the request takes the device process down: an exception that leaves
`Execute` reaches the top of the request thread, and so does the dereference of
a null pointer.  Otherwise it returns the new state and the response, if there
is one (`TWstat` has none).
-/

namespace Ooows.P9

open Lib Lib.Path

/-! ## messages -/

/-- The fields of each T-message. -/
inductive TMsg
  | version (msize : UInt32) (version : Bytes)
  | auth (afid : UInt32) (uname aname : Bytes)
  | flush (oldtag : UInt32)
  | attach (fid afid : UInt32) (uname aname : Bytes)
  | walk (fid newfid : UInt32) (wnames : List Bytes)
  | open (fid : UInt32) (mode : UInt8)
  | create (fid : UInt32) (name : Bytes) (perm : UInt32) (mode : UInt8)
  | read (fid : UInt32) (offset : UInt64) (count : UInt32)
  | write (fid : UInt32) (offset : UInt64) (data : Bytes)
  | clunk (fid : UInt32)
  | remove (fid : UInt32)
  | stat (fid : UInt32)
  | wstat (fid : UInt32) (stat : Bytes)
  deriving DecidableEq, Repr

/-- The type byte of each T-message, `P9_TVERSION` to `P9_TWSTAT`. -/
def TMsg.type : TMsg → UInt8
  | .version _ _ => 100
  | .auth _ _ _ => 102
  | .attach _ _ _ _ => 104
  | .flush _ => 108
  | .walk _ _ _ => 110
  | .open _ _ => 112
  | .create _ _ _ _ => 114
  | .read _ _ _ => 116
  | .write _ _ _ => 118
  | .clunk _ => 120
  | .remove _ => 122
  | .stat _ => 124
  | .wstat _ _ => 126

structure TRequest where
  tag : UInt16
  msg : TMsg
  deriving DecidableEq, Repr

/-- The fields of each R-message; `RWalk` keeps pointers to its objects. -/
inductive RBody
  | error (error : String)
  | version (msize : UInt32) (version : Bytes)
  | auth (aqid : Qid)
  | flush
  | attach (qid : Qid)
  | walk (qids : List Ptr)
  | open (qid : Qid) (iounit : UInt32)
  | create (qid : Qid) (iounit : UInt32)
  | read (data : Bytes)
  | write (count : UInt32)
  | clunk
  | remove
  | stat (stat : P9Stat)
  deriving DecidableEq, Repr

/-- `P9_RERROR`. -/
def p9RERROR : UInt8 := 107

/-- The type byte each R-message's constructor passes on. -/
def RBody.type : RBody → UInt8
  | .error _ => p9RERROR
  | .version _ _ => 101
  | .auth _ => 103
  | .attach _ => 105
  | .flush => 109
  | .walk _ => 111
  | .open _ _ => 113
  | .create _ _ => 115
  | .read _ => 117
  | .write _ => 119
  | .clunk => 121
  | .remove => 123
  | .stat _ => 125

structure RResponse where
  tag : UInt16
  body : RBody
  deriving DecidableEq, Repr

/-! ## name checks -/

/-- The characters `LegalName` accepts. -/
def legal : Bytes := ascii
  ['A', 'B', 'C', 'D', 'E', 'F', 'G', 'H', 'I', 'J', 'K', 'L', 'M', 'N', 'O', 'P', 'Q', 'R', 'S',
   'T', 'U', 'V', 'W', 'X', 'Y', 'Z', 'a', 'b', 'c', 'd', 'e', 'f', 'g', 'h', 'i', 'j', 'k', 'l',
   'm', 'n', 'o', 'p', 'q', 'r', 's', 't', 'u', 'v', 'w', 'x', 'y', 'v', 'z', '1', '2', '3', '4',
   '5', '6', '7', '8', '9', '0', '_', '-', '.']

/-- `LegalName`: every character is a legal one. -/
def legalName (s : Bytes) : Bool := s.all fun c => legal.contains c

/-- `Valid`; only `TWalk` and `TCreate` check anything. -/
def TMsg.valid : TMsg → Bool
  | .walk _ _ wnames => wnames.all legalName
  | .create _ name _ _ => legalName name
  | _ => true

namespace Dev

/-! ## P9Core -/

/-- `Serving`. -/
def serving (s : Dev) (point : Bytes) : Bool := s.sharename = point

/-- `GetFid`. -/
def getFid (s : Dev) (fid : UInt32) : Option Ptr := s.fidMap.lookup fid

/-- `BindFid`; `none` when the fid is taken, and then nothing has changed. -/
def bindFid (s : Dev) (fid : UInt32) (p : Ptr) : Option Dev :=
  if (s.getFid fid).isSome then none
  else some { s.incRef p with fidMap := (fid, p) :: s.fidMap }

/-- `RemoveFid`; for a fid that is not bound it dereferences a null pointer. -/
def removeFid (s : Dev) (fid : UInt32) : Option Dev :=
  match s.getFid fid with
  | none => none
  | some p => some (decRef p { s with fidMap := s.fidMap.filter fun b => b.1 ≠ fid })

/-- `Attach`. -/
def attach (env : Env) (s : Dev) : Dev × Option Ptr :=
  newQidObject env s.mountpoint s.mountpoint s

/-! ## Execute -/

/-- What `Execute` leaves behind: the state, and either the error set by
`SetError` or the response `Respond` builds; `none` if the process dies. -/
abbrev Outcome := Option (Dev × Except String (Option RBody))

def fail (s : Dev) (e : String) : Outcome := some (s, .error e)

def reply (s : Dev) (b : RBody) : Outcome := some (s, .ok (some b))

def executeVersion (msize : UInt32) (version : Bytes) (s : Dev) : Outcome :=
  if version ≠ ascii ['P', '9', '2', '0', '2', '1'] then fail s "Invalid version string"
  else reply s (.version msize version)

def executeAuth (env : Env) (s : Dev) : Outcome :=
  if ¬ s.authed ∧ s.authRequired then reply s (.auth env.uninitQid)
  else fail s "Authentication not required"

def executeAttach (env : Env) (fid afid : UInt32) (aname : Bytes) (s : Dev) : Outcome :=
  if ¬ s.authed ∧ s.authRequired then reply s (.attach env.uninitQid)
  else if afid ≠ 0xffffffff then fail s "Incorrect Afid"
  else if ¬ s.serving aname then fail s "No such aname"
  else match attach env s with
    | (_, none) => none
    | (s, some p) =>
      match s.bindFid fid p with
      | none => fail (s.delete p) "Fid already claimed"
      | some s => reply s (.attach (qid (s.obj p)))

/-- The loop of `TWalk::Execute`: `next` is the object reached, `qids` the
objects on the way. -/
def walkNames (env : Env) : List Bytes → Ptr → List Ptr → Dev → Dev × Option (List Ptr)
  | [], _, qids, s => (s, some qids)
  | w :: ws, next, qids, s =>
    match traverse env next w s with
    | (s, none) => (s, none)
    | (s, some p) => walkNames env ws p (qids ++ [p]) s

def executeWalk (env : Env) (fid newfid : UInt32) (wnames : List Bytes) (s : Dev) : Outcome :=
  match s.getFid fid with
  | none => fail s "No such fid"
  | some base =>
    if (s.obj base).type ≠ p9QTDIR then fail s "Fid is not a directory"
    else match walkNames env wnames base [base] s with
      | (s, none) => fail s "Invalid path"
      | (s, some qids) =>
        -- the clone case: the old binding goes away before the new one is made
        match if fid = newfid then s.removeFid fid else some s with
        | none => none
        | some s =>
          match s.bindFid newfid (qids.getLast?.getD base) with
          | none => fail s "Newfid already bound"
          | some s => reply s (.walk qids)

def executeOpen (env : Env) (fid : UInt32) (mode : UInt8) (s : Dev) : Outcome :=
  match s.getFid fid with
  | none => fail s "No such fid"
  | some p =>
    if (s.obj p).type ≠ p9QTFILE then fail s "Can only read from files"
    else match qidOpen env p mode s with
      | (s, false) => fail s "Failed to open"
      | (s, true) => reply s (.open (qid (s.obj p)) 0)

def executeCreate (env : Env) (fid : UInt32) (name : Bytes) (perm : UInt32) (mode : UInt8)
    (s : Dev) : Outcome :=
  match s.getFid fid with
  | none => fail s "No such fid"
  | some base =>
    if (s.obj base).type ≠ p9QTDIR then fail s "Fid is not a directory"
    else match createChild env base name perm s with
      | (s, none) => fail s "Failed to create"
      | (s, some child) =>
        match qidOpen env child mode s with
        | (s, false) => fail s "Failed to open"
        | (s, true) =>
          match s.removeFid fid with
          | none => none
          | some s =>
            match s.bindFid fid child with
            | none => fail s "Failed to bind to fid"
            | some s => reply s (.create (qid (s.obj child)) 0)

def executeRead (env : Env) (fid : UInt32) (offset : UInt64) (count : UInt32) (s : Dev) : Outcome :=
  match s.getFid fid with
  | none => fail s "No such fid"
  | some p =>
    if (s.obj p).type ≠ p9QTFILE then fail s "Can only read from files"
    else if ¬ (s.obj p).opened then fail s "Fid must be open to read"
    else if count > 0x1000 then fail s "Count too large"
    else match qidRead env p offset count s with
      | (s, none) => fail s "Read failed"
      | (s, some bs) => reply s (.read bs)

def executeWrite (env : Env) (fid : UInt32) (offset : UInt64) (data : Bytes) (s : Dev) : Outcome :=
  match s.getFid fid with
  | none => fail s "No such fid"
  | some p =>
    if (s.obj p).type ≠ p9QTFILE then fail s "Can only write to files"
    else if ¬ (s.obj p).opened then fail s "Fid must be open to write"
    else match qidWrite env p offset data s with
      | (s, count) =>
        if count = 0 then fail s "Failed to write to fid" else reply s (.write count)

def executeClunk (fid : UInt32) (s : Dev) : Outcome :=
  match s.getFid fid with
  | none => fail s "No such fid"
  | some p =>
    match qidClose p s with
    | (s, ret) =>
      match s.removeFid fid with
      | none => none
      | some s => if ret then reply s .clunk else fail s "Failed to clunk fid"

/-- `TRemove::Execute` up to the removal of the file: an open object is closed
first. -/
def closeIfOpened (p : Ptr) (s : Dev) : Dev × Bool :=
  if (s.obj p).opened then qidClose p s else (s, true)

def executeRemove (env : Env) (fid : UInt32) (s : Dev) : Outcome :=
  match s.getFid fid with
  | none => fail s "No such fid"
  | some p =>
    match closeIfOpened p s with
    | (s, false) => fail s "Failed to close fid"
    | (s, true) =>
      match qidRemove env p s with
      | (s, false) => fail s "Failed to remove fid"
      | (s, true) =>
        match s.removeFid fid with
        | none => none
        | some s => reply s .remove

/-- `TStat::Execute`; there is no return after the check for a missing fid. -/
def executeStat (env : Env) (fid : UInt32) (s : Dev) : Outcome :=
  match s.getFid fid with
  | none => none
  | some p =>
    match qidStat env p s with
    | (s, none) => fail s "Failed to stat"
    | (s, some st) => reply s (.stat st)

def execute (env : Env) (m : TMsg) (s : Dev) : Outcome :=
  match m with
  | .version msize version => executeVersion msize version s
  | .auth _ _ _ => executeAuth env s
  | .flush _ => reply s .flush
  | .attach fid afid _ aname => executeAttach env fid afid aname s
  | .walk fid newfid wnames => executeWalk env fid newfid wnames s
  | .open fid mode => executeOpen env fid mode s
  | .create fid name perm mode => executeCreate env fid name perm mode s
  | .read fid offset count => executeRead env fid offset count s
  | .write fid offset data => executeWrite env fid offset data s
  | .clunk fid => executeClunk fid s
  | .remove fid => executeRemove env fid s
  | .stat fid => executeStat env fid s
  -- `TWstat` has neither an `Execute` nor a `Respond` of its own
  | .wstat _ _ => some (s, .ok none)

/-! ## Process -/

/-- `HasRequest`, and then `CancelRequest` or `RegisterRequest`: cancelling only
marks the other request, which nobody looks at. -/
def register (s : Dev) (tag : UInt16) : Dev :=
  if tag ∈ s.requestMap then s else { s with requestMap := tag :: s.requestMap }

/-- `UnregisterRequest`. -/
def unregister (s : Dev) (tag : UInt16) : Dev :=
  { s with requestMap := s.requestMap.filter fun t => t ≠ tag }

/-- Turn the outcome of `Execute` into the response. -/
def respond (tag : UInt16) : Except String (Option RBody) → Option RResponse
  | .error e => some ⟨tag, .error e⟩
  | .ok none => none
  | .ok (some b) => some ⟨tag, b⟩

/-- `TRequest::Process`. -/
def process (env : Env) (r : TRequest) (s : Dev) : Option (Dev × Option RResponse) :=
  let s := s.register r.tag
  match if r.msg.valid then execute env r.msg s else fail s "Invalid TMesg" with
  | none => none
  | some (s, res) => some (s.unregister r.tag, respond r.tag res)

end Dev

end Ooows.P9
