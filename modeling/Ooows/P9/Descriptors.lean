import Ooows.P9.Loops

/-!
# Ooows.P9.Descriptors

Who opens, uses and closes the descriptors of the device process.

`FdCall` is a call on a descriptor on behalf of an object, or the deletion of an object.
-/

namespace Ooows.P9

open Lib Lib.Path

/-! ## the descriptor table -/

namespace Host

variable {h h' : Host} {fd : Int}

/-- The open file behind a descriptor is replaced, the others stay. -/
theorem file_setFile (hf : (h.file fd).isSome) (x : Option OpenFile) (fd' : Int) :
    (h.setFile fd x).file fd' = if fd' = fd then x else h.file fd' := by
  have hnn : 0 ≤ fd := by
    by_contra hneg
    simp [file, hneg] at hf
  have hlt : fd.toNat < h.fds.length := by
    by_contra hge
    simp [file, hnn, List.getElem?_eq_none (Nat.le_of_not_lt hge)] at hf
  by_cases heq : fd' = fd
  · rw [if_pos heq, heq]
    simp [file, setFile, hnn, hlt]
  · rw [if_neg heq]
    by_cases hnn' : 0 ≤ fd'
    · have hne : fd.toNat ≠ fd'.toNat := by omega
      simp [file, setFile, hnn', List.getElem?_set_ne hne]
    · simp [file, hnn']

/-- Other descriptors survive a close. -/
theorem file_close (h : Host) (fd fd' : Int) :
    (h.close fd).file fd' = if fd' = fd then none else h.file fd' := by
  unfold close
  cases hf : h.file fd with
  | none =>
    by_cases heq : fd' = fd
    · rw [if_pos heq, heq]
      exact hf
    · rw [if_neg heq]
  | some f => exact file_setFile (by simp [hf]) none fd'

/-- `allocFd` fills a free slot. -/
theorem allocFd_slots (fds : List (Option OpenFile)) (f : OpenFile) :
    (fds[(allocFd fds f).1]?).join = none ∧
      ∀ i, ((allocFd fds f).2[i]?).join = if i = (allocFd fds f).1 then some f else (fds[i]?).join := by
  induction fds with
  | nil =>
    refine ⟨rfl, fun i => ?_⟩
    cases i <;> simp [allocFd]
  | cons g fds ih =>
    cases g with
    | none =>
      refine ⟨rfl, fun i => ?_⟩
      cases i <;> simp [allocFd]
    | some g =>
      refine ⟨by simpa [allocFd] using ih.1, fun i => ?_⟩
      cases i with
      | zero => simp [allocFd]
      | succ i => simpa [allocFd] using ih.2 i

/-- A descriptor that was free refers to a file now, the others stay. -/
structure Gets (h : Host) (fd : Int) (f : OpenFile) (h' : Host) : Prop where
  free : h.file fd = none
  file : ∀ fd', h'.file fd' = if fd' = fd then some f else h.file fd'

/-- A descriptor that was free is taken. -/
theorem Gets.alloc {f : OpenFile} (hfds : h'.fds = (allocFd h.fds f).2) :
    Gets h (allocFd h.fds f).1 f h' where
  free := by simpa [Host.file] using (allocFd_slots h.fds f).1
  file fd' := by
    by_cases hnn : 0 ≤ fd'
    · have hslot := (allocFd_slots h.fds f).2 fd'.toNat
      have hiff : fd'.toNat = (allocFd h.fds f).1 ↔ fd' = (allocFd h.fds f).1 := by omega
      simpa only [Host.file, if_pos hnn, hfds, hiff] using hslot
    · have hne : fd' ≠ (allocFd h.fds f).1 := by omega
      simp [Host.file, hnn, hne]

theorem openFile_gets {p : Bytes} {flags : OpenFlags} {n : Nat}
    (ho : h.openFile p flags = some (n, h')) : ∃ f, Gets h n f h' ∧ h'.node = h.node := by
  unfold openFile at ho
  split at ho
  · contradiction
  · split at ho
    · contradiction
    · cases ho
      exact ⟨_, .alloc rfl, rfl⟩

theorem create_gets {p : Bytes} {n : Nat} (hc : h.create p = some (n, h')) :
    ∃ f, Gets h n f h' := by
  unfold create at hc
  split at hc
  · contradiction
  · split at hc
    · contradiction
    · cases hc
      exact ⟨_, .alloc rfl⟩

/-- Names have nothing to do with descriptors. -/
theorem unlink_fds {p : Bytes} (hu : h.unlink p = some h') : h'.fds = h.fds := by
  unfold unlink at hu
  split at hu
  · contradiction
  · split at hu
    · contradiction
    · cases hu
      rfl

theorem mkdir_fds {p : Bytes} (hm : h.mkdir p = some h') : h'.fds = h.fds := by
  unfold mkdir at hm
  split at hm
  · contradiction
  · split at hm
    · contradiction
    · cases hm
      rfl

/-- The position behind one descriptor may have moved. -/
structure Moves (h : Host) (fd : Int) (h' : Host) : Prop where
  other : ∀ fd', fd' ≠ fd → h'.file fd' = h.file fd'
  ino : (h'.file fd).map OpenFile.ino = (h.file fd).map OpenFile.ino

theorem Moves.refl (h : Host) (fd : Int) : Moves h fd h := ⟨fun _ _ => rfl, rfl⟩

theorem Moves.trans {h'' : Host} (h₁ : Moves h fd h') (h₂ : Moves h' fd h'') : Moves h fd h'' :=
  ⟨fun fd' hne => (h₂.other fd' hne).trans (h₁.other fd' hne), h₂.ino.trans h₁.ino⟩

/-- A transfer changes the position and the contents behind one descriptor. -/
theorem Moves.setFile {f : OpenFile} (hf : h.file fd = some f) (pos : Nat)
    (hfds : h'.fds = (h.setFile fd (some { f with pos := pos })).fds) : Moves h fd h' := by
  have hfile (fd' : Int) : h'.file fd' = if fd' = fd then some { f with pos := pos } else h.file fd' := by
    rw [← file_setFile (by simp [hf]), Host.file, Host.file, hfds]
  refine ⟨fun fd' hne => ?_, ?_⟩
  · rw [hfile, if_neg hne]
  · rw [hfile, if_pos rfl, hf]
    rfl

theorem lseek_moves {accepts : UInt64 → Bool} {offset : UInt64}
    (hs : h.lseek accepts fd offset = some h') : Moves h fd h' := by
  unfold lseek at hs
  split at hs
  · contradiction
  next f hf =>
    split at hs
    · cases hs
      exact .setFile hf _ rfl
    · contradiction

theorem read_moves {count : Nat} {bs : Bytes} (hr : h.read fd count = some (bs, h')) :
    Moves h fd h' := by
  unfold read at hr
  split at hr
  · contradiction
  next f hf =>
    split at hr
    · cases hr
      exact .setFile hf _ rfl
    · contradiction

theorem write_moves {bs : Bytes} {n : Nat} (hw : h.write fd bs = some (n, h')) : Moves h fd h' := by
  unfold write at hw
  split at hw
  · contradiction
  next f hf =>
    split at hw
    · cases hw
      exact .setFile hf _ rfl
    · contradiction

end Host

/-! ## calls -/

/-- The calls on descriptors on behalf of an object, and the deletion of an object. -/
inductive FdCall
  /-- `open` returned a descriptor for an inode. -/
  | open (p : Ptr) (fd : Int) (ino : Option Nat)
  | close (p : Ptr) (fd : Int)
  /-- `lseek`, and then `read` or `write`. -/
  | use (p : Ptr) (fd : Int)
  | delete (p : Ptr)
  deriving DecidableEq, Repr

namespace Dev

/-- The calls of `QidObject::Open`. -/
def openCalls (env : Env) (p : Ptr) (mode : UInt8) (s : Dev) : List FdCall :=
  if (s.obj p).opened ∨ (s.obj p).type = p9QTDIR then []
  else match flagsOf mode with
    | none => []
    | some flags =>
      if env.refuse (.open (s.obj p).fspath flags) then []
      else match s.host.openFile (s.obj p).fspath flags with
        | none => []
        | some (fd, h) => [.open p fd ((h.file fd).bind OpenFile.ino)]

/-- The calls of `QidObject::Close`. -/
def closeCalls (p : Ptr) (s : Dev) : List FdCall :=
  if (s.obj p).opened then [.close p (s.obj p).fd] else []

/-- The calls of `QidObject::Read` and `QidObject::Write`. -/
def useCalls (p : Ptr) (s : Dev) : List FdCall :=
  if (s.obj p).opened then [.use p (s.obj p).fd] else []

/-- The calls that make a new entry: a new file is closed again. -/
def createEntryCalls (p : Ptr) (h : Host) : Syscall → List FdCall
  | .create path _ =>
    match h.create path with
    | none => []
    | some (fd, h) => [.open p fd ((h.file fd).bind OpenFile.ino), .close p fd]
  | _ => []

/-- The calls of `QidObject::CreateChild`. -/
def createChildCalls (env : Env) (p : Ptr) (child : Bytes) (perm : UInt32) (s : Dev) :
    List FdCall :=
  if env.refuse (createCall (s.obj p) child perm) then []
  else createEntryCalls p s.host (createCall (s.obj p) child perm)

/-- The deletion in `RemoveFid`. -/
def removeFidCalls (fid : UInt32) (s : Dev) : List FdCall :=
  match s.getFid fid with
  | none => []
  | some p => if (s.obj p).refcnt - 1 = 0 then [.delete p] else []

/-- The calls of `TAttach::Execute`. -/
def attachCalls (env : Env) (fid afid : UInt32) (aname : Bytes) (s : Dev) : List FdCall :=
  if ¬ s.attaches afid aname then []
  else match attach env s with
    | (_, none) => []
    | (s, some p) =>
      match s.bindFid fid p with
      | none => [.delete p]
      | some _ => []

/-- The calls of `TWalk::Execute`. -/
def walkCalls (env : Env) (fid newfid : UInt32) (wnames : List Bytes) (s : Dev) : List FdCall :=
  match s.getFid fid with
  | none => []
  | some base =>
    if (s.obj base).type ≠ p9QTDIR then []
    else match walkNames env wnames base [base] s with
      | (_, none) => []
      | (s, some _) => if fid = newfid then removeFidCalls fid s else []

/-- The calls of `TCreate::Execute`. -/
def createCalls (env : Env) (fid : UInt32) (name : Bytes) (perm : UInt32) (mode : UInt8) (s : Dev) :
    List FdCall :=
  match s.getFid fid with
  | none => []
  | some base =>
    if (s.obj base).type ≠ p9QTDIR then []
    else createChildCalls env base name perm s ++
      match createChild env base name perm s with
      | (_, none) => []
      | (s, some child) => openCalls env child mode s ++
          match qidOpen env child mode s with
          | (_, false) => []
          | (s, true) => removeFidCalls fid s

/-- The calls of `TRead::Execute` and `TWrite::Execute`. -/
def accessCalls (fid : UInt32) (refused : Bool) (s : Dev) : List FdCall :=
  match s.getFid fid with
  | none => []
  | some p => if (s.obj p).type ≠ p9QTFILE ∨ refused then [] else useCalls p s

/-- The calls of `TClunk::Execute`. -/
def clunkCalls (fid : UInt32) (s : Dev) : List FdCall :=
  match s.getFid fid with
  | none => []
  | some p => closeCalls p s ++ removeFidCalls fid (qidClose p s).1

/-- The calls of `TRemove::Execute`. -/
def removeCalls (env : Env) (fid : UInt32) (s : Dev) : List FdCall :=
  match s.getFid fid with
  | none => []
  | some p => closeCalls p s ++
      match qidRemove env p (closeIfOpened p s).1 with
      | (_, false) => []
      | (s, true) => removeFidCalls fid s

/-- The calls of `Execute`. -/
def executeCalls (env : Env) (m : TMsg) (s : Dev) : List FdCall :=
  match m with
  | .attach fid afid _ aname => attachCalls env fid afid aname s
  | .walk fid newfid wnames => walkCalls env fid newfid wnames s
  | .open fid mode =>
    match s.getFid fid with
    | none => []
    | some p => if (s.obj p).type ≠ p9QTFILE then [] else openCalls env p mode s
  | .create fid name perm mode => createCalls env fid name perm mode s
  | .read fid _ count => accessCalls fid (count > 0x1000) s
  | .write fid _ _ => accessCalls fid false s
  | .clunk fid => clunkCalls fid s
  | .remove fid => removeCalls env fid s
  | _ => []

/-- The calls of `Process`. -/
def processCalls (env : Env) (r : TRequest) (s : Dev) : List FdCall :=
  if r.msg.valid then executeCalls env r.msg (s.register r.tag) else []

/-! ## what the calls do -/

/-- The descriptor an object has; a directory has none, open or not. -/
def heldFd (o : QidObject) : Option Int :=
  if o.opened ∧ o.type ≠ p9QTDIR then some o.fd else none

/-- No call: the descriptors stay, and new objects have none. -/
structure Silent (s t : Dev) : Prop where
  file : ∀ fd, t.host.file fd = s.host.file fd
  next_le : s.next ≤ t.next
  old : ∀ p < s.next, heldFd (t.obj p) = heldFd (s.obj p)
  new : ∀ p, s.next ≤ p → p < t.next → heldFd (t.obj p) = none
  deletes : t.deletes = s.deletes

/-- The calls of one method, with all they do to descriptors and objects; `dirs` is what it takes
for the `Close` of a directory. -/
inductive Small (dirs : Prop) (s : Dev) : List FdCall → Dev → Prop
  | silent {t : Dev} (h : Silent s t) : Small dirs s [] t
  | opens {t : Dev} {p : Ptr} {fd : Int} {f : OpenFile} (hp : p < s.next)
      (hnone : heldFd (s.obj p) = none) (hgets : s.host.Gets fd f t.host) (hnext : t.next = s.next)
      (hheld : ∀ q, heldFd (t.obj q) = if q = p then some fd else heldFd (s.obj q))
      (hdeletes : t.deletes = s.deletes) : Small dirs s [.open p fd f.ino] t
  /-- A descriptor that is closed at once. -/
  | creates {t : Dev} {p : Ptr} {fd : Int} {ino : Option Nat} (hfree : s.host.file fd = none)
      (h : Silent s t) : Small dirs s [.open p fd ino, .close p fd] t
  | closes {t : Dev} {p : Ptr} {fd : Int} (hp : p < s.next) (hheld : heldFd (s.obj p) = some fd ∨ dirs)
      (hfile : ∀ fd', t.host.file fd' = if fd' = fd then none else s.host.file fd')
      (hnext : t.next = s.next)
      (hheld' : ∀ q, heldFd (t.obj q) = if q = p then none else heldFd (s.obj q))
      (hdeletes : t.deletes = s.deletes) : Small dirs s [.close p fd] t
  | uses {t : Dev} {p : Ptr} {fd : Int} (hp : p < s.next) (hheld : heldFd (s.obj p) = some fd)
      (hmoves : s.host.Moves fd t.host) (hnext : t.next = s.next) (hobj : t.obj = s.obj)
      (hdeletes : t.deletes = s.deletes) : Small dirs s [.use p fd] t
  | deletes {p : Ptr} (hnone : heldFd (s.obj p) = none) : Small dirs s [.delete p] (s.delete p)

/-- Calls of several methods, one after the other. -/
def Smalls (dirs : Prop) (s : Dev) (cs : List FdCall) (t : Dev) : Prop :=
  ∃ css, Run (Small dirs) s css t ∧ css.flatten = cs

variable {dirs : Prop} {env : Env} {s t u : Dev} {p : Ptr} {cs ds : List FdCall}

theorem Smalls.single (h : Small dirs s cs t) : Smalls dirs s cs t := ⟨[cs], .single h, by simp⟩

/-- Calls one after another. -/
theorem Smalls.trans (h : Smalls dirs s cs t) (h' : Smalls dirs t ds u) : Smalls dirs s (cs ++ ds) u := by
  obtain ⟨css, hrun, rfl⟩ := h
  obtain ⟨dss, hrun', rfl⟩ := h'
  exact ⟨css ++ dss, hrun.append hrun', by simp⟩

theorem Silent.smalls (h : Silent s t) : Smalls dirs s [] t := .single (.silent h)

theorem Smalls.after_silent (h : Silent s t) (h' : Smalls dirs t cs u) : Smalls dirs s cs u := by
  simpa using h.smalls.trans h'

theorem Smalls.then_silent (h : Smalls dirs s cs t) (h' : Silent t u) : Smalls dirs s cs u := by
  simpa using h.trans h'.smalls

/-! ## the methods of `QidObject` -/

theorem Silent.refl (s : Dev) : Silent s s :=
  ⟨fun _ => rfl, Nat.le_refl _, fun _ _ => rfl, fun _ h h' => absurd h' (Nat.not_lt_of_le h), rfl⟩

/-- Steps without a call compose. -/
theorem Silent.trans (h₁ : Silent s t) (h₂ : Silent t u) : Silent s u where
  file fd := (h₂.file fd).trans (h₁.file fd)
  next_le := Nat.le_trans h₁.next_le h₂.next_le
  old p hp := (h₂.old p (Nat.lt_of_lt_of_le hp h₁.next_le)).trans (h₁.old p hp)
  new p hp hu := by
    by_cases ht : p < t.next
    · rw [h₂.old p ht]
      exact h₁.new p hp ht
    · exact h₂.new p (Nat.le_of_not_lt ht) hu
  deletes := h₂.deletes.trans h₁.deletes

/-- A state that differs only in what `Silent` does not speak about. -/
theorem silent_of_eq (hfds : t.host.fds = s.host.fds) (hnext : t.next = s.next)
    (hheld : ∀ p, heldFd (t.obj p) = heldFd (s.obj p)) (hdeletes : t.deletes = s.deletes) :
    Silent s t where
  file fd := by rw [Host.file, Host.file, hfds]
  next_le := Nat.le_of_eq hnext.symm
  old p _ := hheld p
  new p h h' := absurd (hnext ▸ h') (Nat.not_lt_of_le h)
  deletes := hdeletes

theorem silent_call (s : Dev) (c : Syscall) : Silent s (s.call c) :=
  silent_of_eq rfl rfl (fun _ => rfl) rfl

theorem silent_register (s : Dev) (tag : UInt16) : Silent s (s.register tag) := by
  unfold register
  split
  · exact .refl s
  · exact silent_of_eq rfl rfl (fun _ => rfl) rfl

theorem silent_unregister (s : Dev) (tag : UInt16) : Silent s (s.unregister tag) :=
  silent_of_eq rfl rfl (fun _ => rfl) rfl

theorem heldFd_setObj (s : Dev) (p : Ptr) (f : QidObject → QidObject) (q : Ptr) :
    heldFd ((s.setObj p f).obj q) = if q = p then heldFd (f (s.obj p)) else heldFd (s.obj q) := by
  by_cases hq : q = p
  · simp [setObj, hq]
  · simp [setObj, hq]

theorem silent_setObj (s : Dev) (p : Ptr) {f : QidObject → QidObject}
    (hf : heldFd (f (s.obj p)) = heldFd (s.obj p)) : Silent s (s.setObj p f) := by
  refine silent_of_eq rfl rfl (fun q => ?_) rfl
  rw [heldFd_setObj, hf]
  split
  next hq => rw [hq]
  next => rfl

/-- A new object has no descriptor. -/
theorem silent_alloc (s : Dev) {o : QidObject} (ho : o.opened = false) : Silent s (s.alloc o) where
  file _ := rfl
  next_le := Nat.le_succ _
  old q hq := by simp [alloc, Nat.ne_of_lt hq]
  new q h h' := by
    have hq : q = s.next := Nat.le_antisymm (Nat.le_of_lt_succ h') h
    simp [alloc, hq, heldFd, ho]
  deletes := rfl

theorem newQidObject_silent (env : Env) (path root : Bytes) (s : Dev) :
    Silent s (newQidObject env path root s).1 := by
  refine .trans (silent_call s (.stat path)) ?_
  unfold newQidObject
  dsimp only
  split
  · exact .refl _
  · split
    · exact .refl _
    · exact silent_alloc _ rfl

theorem traverse_silent (env : Env) (p : Ptr) (name : Bytes) (s : Dev) :
    Silent s (traverse env p name s).1 := by
  refine .trans (silent_call s (.realpath (traversePath (s.obj p) name))) ?_
  unfold traverse
  dsimp only
  split
  · exact .refl _
  · split
    · exact .refl _
    · exact newQidObject_silent _ _ _ _

/-- A walk opens nothing. -/
theorem walkNames_silent (env : Env) (ws : List Bytes) (next : Ptr) (qids : List Ptr) (s : Dev) :
    Silent s (walkNames env ws next qids s).1 := by
  induction ws generalizing next qids s with
  | nil => exact .refl s
  | cons w ws ih =>
    have ht := traverse_silent env next w s
    simp only [walkNames]
    rcases hu : traverse env next w s with ⟨u, _ | q⟩
    · rwa [hu] at ht
    · rw [hu] at ht
      exact ht.trans (ih q _ u)

theorem qidStat_silent (env : Env) (p : Ptr) (s : Dev) : Silent s (qidStat env p s).1 := by
  unfold qidStat
  dsimp only
  split
  · exact silent_call _ _
  · split <;> exact silent_call _ _

/-- Removing a name closes nothing. -/
theorem qidRemove_silent (env : Env) (p : Ptr) (s : Dev) : Silent s (qidRemove env p s).1 := by
  refine .trans (silent_call s (.unlink (s.obj p).fspath)) ?_
  unfold qidRemove
  dsimp only
  split
  · exact .refl _
  · split
    · exact .refl _
    next hu => exact silent_of_eq (Host.unlink_fds hu) rfl (fun _ => rfl) rfl

theorem bindFid_silent {fid : UInt32} (h : s.bindFid fid p = some t) : Silent s t := by
  unfold bindFid at h
  split at h
  · contradiction
  · cases h
    exact .trans (silent_setObj s p (f := fun o => { o with refcnt := o.refcnt + 1 }) rfl)
      (silent_of_eq rfl rfl (fun _ => rfl) rfl)

/-- `RemoveFid` of an object without a descriptor. -/
theorem removeFid_smalls {fid : UInt32} (h : s.removeFid fid = some t)
    (hheld : ∀ p, s.getFid fid = some p → heldFd (s.obj p) = none) :
    Smalls dirs s (removeFidCalls fid s) t := by
  unfold removeFid at h
  unfold removeFidCalls
  cases hp : s.getFid fid with
  | none =>
    rw [hp] at h
    contradiction
  | some p =>
    rw [hp] at h
    cases h
    dsimp only
    have hsilent : Silent s ({ s with fidMap := s.fidMap.filter fun b => b.1 ≠ fid }.setObj p
        fun o => { o with refcnt := o.refcnt - 1 }) :=
      .trans (silent_of_eq (t := { s with fidMap := s.fidMap.filter fun b => b.1 ≠ fid }) rfl rfl
        (fun _ => rfl) rfl) (silent_setObj _ p rfl)
    have hcnt : (({ s with fidMap := s.fidMap.filter fun b => b.1 ≠ fid }.setObj p
        fun o => { o with refcnt := o.refcnt - 1 }).obj p).refcnt = (s.obj p).refcnt - 1 := by
      simp [setObj]
    unfold decRef
    dsimp only
    rw [hcnt]
    split
    · refine .after_silent hsilent (.single (.deletes ?_))
      rw [heldFd_setObj, if_pos rfl]
      exact hheld p hp
    · exact hsilent.smalls

/-- `Open`: a call only if a descriptor comes back. -/
theorem qidOpen_smalls (env : Env) (hp : p < s.next) (mode : UInt8) :
    Smalls dirs s (openCalls env p mode s) (qidOpen env p mode s).1 := by
  unfold qidOpen openCalls
  by_cases ho : (s.obj p).opened = true
  · simp only [ho, true_or, if_true]
    exact (Silent.refl s).smalls
  have hnone : heldFd (s.obj p) = none := by simp [heldFd, ho]
  by_cases hdir : (s.obj p).type = p9QTDIR
  · simp only [ho, hdir, or_true, if_true, if_false, Bool.false_eq_true]
    refine (silent_setObj s p ?_).smalls
    simp [heldFd, hdir]
  simp only [ho, hdir, or_false, if_false, Bool.false_eq_true]
  cases flagsOf mode with
  | none => exact (Silent.refl s).smalls
  | some flags =>
    dsimp only
    have hcall := silent_call s (.open (s.obj p).fspath flags)
    split
    · dsimp only
      refine (hcall.trans (silent_setObj _ p ?_)).smalls
      simp [heldFd, ho, call]
    · have hhost : (s.call (.open (s.obj p).fspath flags)).host = s.host := rfl
      have hobj : (s.call (.open (s.obj p).fspath flags)).obj = s.obj := rfl
      rw [hhost, hobj]
      cases hopen : s.host.openFile (s.obj p).fspath flags with
      | none =>
        dsimp only
        refine (hcall.trans (silent_setObj _ p ?_)).smalls
        simp [heldFd, ho, call]
      | some x =>
        obtain ⟨n, h⟩ := x
        obtain ⟨f, hgets, -⟩ := Host.openFile_gets hopen
        have hino : (h.file n).bind OpenFile.ino = f.ino := by
          rw [hgets.file, if_pos rfl]
          rfl
        dsimp only
        rw [hino]
        refine .single (.opens hp hnone hgets rfl (fun q => ?_) rfl)
        rw [heldFd_setObj]
        simp [heldFd, hdir]

/-- The object is an open directory. -/
def openDir (o : QidObject) : Bool := o.opened && o.type = p9QTDIR

/-- A close is at most one call. -/
theorem qidClose_smalls (hp : p < s.next) (hdirs : openDir (s.obj p) = true → dirs) :
    Smalls dirs s (closeCalls p s) (qidClose p s).1 := by
  unfold qidClose closeCalls
  split
  next ho =>
    have hheld : heldFd (s.obj p) = some (s.obj p).fd ∨ dirs := by
      by_cases hdir : (s.obj p).type = p9QTDIR
      · exact .inr (hdirs (by simp [openDir, ho, hdir]))
      · exact .inl (by simp [heldFd, ho, hdir])
    refine .single (.closes hp hheld (fun fd => Host.file_close _ _ _) rfl (fun q => ?_) rfl)
    rw [heldFd_setObj]
    simp [heldFd]
  next => exact (Silent.refl s).smalls

/-- A closed object has no descriptor. -/
theorem heldFd_qidClose (p : Ptr) (s : Dev) : heldFd ((qidClose p s).1.obj p) = none := by
  unfold qidClose
  split
  · simp [heldFd, setObj]
  next ho => simp [heldFd, ho]

/-- Nothing but the position and the file behind the descriptor of the object has changed. -/
def Uses (p : Ptr) (s t : Dev) : Prop :=
  ∃ h, t = { s with host := h } ∧ s.host.Moves (s.obj p).fd h

theorem qidRead_uses (env : Env) (p : Ptr) (offset : UInt64) (count : UInt32) (s : Dev) :
    Uses p s (qidRead env p offset count s).1 := by
  unfold qidRead
  split
  · cases hseek : s.host.lseek env.accepts (s.obj p).fd offset with
    | none => exact ⟨s.host, rfl, .refl _ _⟩
    | some h =>
      have hmoves := Host.lseek_moves hseek
      dsimp only
      split
      · exact ⟨h, rfl, hmoves⟩
      · cases hread : h.read (s.obj p).fd count.toNat with
        | none => exact ⟨h, rfl, hmoves⟩
        | some x => exact ⟨x.2, rfl, hmoves.trans (Host.read_moves hread)⟩
  · exact ⟨s.host, rfl, .refl _ _⟩

theorem qidWrite_uses (env : Env) (p : Ptr) (offset : UInt64) (data : Bytes) (s : Dev) :
    Uses p s (qidWrite env p offset data s).1 := by
  unfold qidWrite
  split
  · have hmoves : s.host.Moves (s.obj p).fd
        ((s.host.lseek env.accepts (s.obj p).fd offset).getD s.host) := by
      cases hseek : s.host.lseek env.accepts (s.obj p).fd offset with
      | none => exact .refl _ _
      | some h => exact Host.lseek_moves hseek
    dsimp only
    split
    · exact ⟨_, rfl, hmoves⟩
    · split
      · exact ⟨_, rfl, hmoves⟩
      next hwrite => exact ⟨_, rfl, hmoves.trans (Host.write_moves hwrite)⟩
  · exact ⟨s.host, rfl, .refl _ _⟩

/-- `Read` and `Write` of an open object that is no directory. -/
theorem use_smalls (hp : p < s.next) (hdir : (s.obj p).type ≠ p9QTDIR)
    (ho : (s.obj p).opened = true) (h : Uses p s t) :
    Smalls dirs s (useCalls p s) t := by
  obtain ⟨h, rfl, hmoves⟩ := h
  have hheld : heldFd (s.obj p) = some (s.obj p).fd := by simp [heldFd, ho, hdir]
  rw [useCalls, if_pos ho]
  exact .single (.uses hp hheld hmoves rfl rfl rfl)

theorem createEntry_smalls (p : Ptr) {c : Syscall} {h : Host} (hc : createEntry s.host c = some h) :
    Smalls dirs s (createEntryCalls p s.host c) { s with host := h } := by
  cases c with
  | mkdir path perm =>
    exact (silent_of_eq (t := { s with host := h }) (Host.mkdir_fds hc) rfl (fun _ => rfl) rfl).smalls
  | create path perm =>
    obtain ⟨⟨n, h'⟩, hcreate, rfl⟩ := Option.map_eq_some_iff.1 hc
    obtain ⟨f, hgets⟩ := Host.create_gets hcreate
    have hfile (fd : Int) : (h'.close n).file fd = s.host.file fd := by
      rw [Host.file_close]
      by_cases hfd : fd = n
      · rw [if_pos hfd, hfd, hgets.free]
      · rw [if_neg hfd, hgets.file, if_neg hfd]
    simp only [createEntryCalls, hcreate]
    refine .single (.creates hgets.free ⟨hfile, Nat.le_refl _, fun _ _ => rfl, ?_, rfl⟩)
    exact fun _ h h' => absurd h' (Nat.not_lt_of_le h)
  | _ => simp [createEntry] at hc

theorem createEntryCalls_of_none {c : Syscall} {h : Host} (hc : createEntry h c = none) :
    createEntryCalls p h c = [] := by
  cases c with
  | create path perm =>
    have hcreate : h.create path = none := by simpa [createEntry] using hc
    simp [createEntryCalls, hcreate]
  | _ => rfl

/-- Creating a child makes the calls of `createChildCalls`. -/
theorem createChild_smalls (env : Env) (p : Ptr) (child : Bytes) (perm : UInt32) (s : Dev) :
    Smalls dirs s (createChildCalls env p child perm s) (createChild env p child perm s).1 := by
  refine .after_silent (silent_call s (createCall (s.obj p) child perm)) ?_
  unfold createChild createChildCalls
  dsimp only
  split
  · exact (Silent.refl _).smalls
  · split
    next hnone =>
      have hnil : createEntryCalls p s.host (createCall (s.obj p) child perm) = [] :=
        createEntryCalls_of_none hnone
      rw [hnil]
      exact (Silent.refl _).smalls
    next h hsome => exact (createEntry_smalls p hsome).then_silent (traverse_silent ..)

/-! ## requests -/

variable {fid : UInt32} {m : TMsg}

/-- A request that a check refuses makes no call. -/
theorem executeCalls_of_refuses (h : s.refuses m) : executeCalls env m s = [] := by
  cases m with
  | attach fid afid uname aname =>
    have hnot : ¬ s.attaches afid aname := by simpa using (Bool.and_eq_true_iff.1 h).2
    simp only [executeCalls, attachCalls, if_pos hnot]
  | walk fid newfid ws =>
    cases hfid : s.getFid fid with
    | none => simp only [executeCalls, walkCalls, hfid]
    | some p =>
      have hdir : (s.obj p).type ≠ p9QTDIR := by simpa [refuses, hfid] using h
      simp only [executeCalls, walkCalls, hfid, if_pos hdir]
  | create fid name perm mode =>
    cases hfid : s.getFid fid with
    | none => simp only [executeCalls, createCalls, hfid]
    | some p =>
      have hdir : (s.obj p).type ≠ p9QTDIR := by simpa [refuses, hfid] using h
      simp only [executeCalls, createCalls, hfid, if_pos hdir]
  | «open» fid mode =>
    cases hfid : s.getFid fid with
    | none => simp only [executeCalls, hfid]
    | some p =>
      have hfile : (s.obj p).type ≠ p9QTFILE := by simpa [refuses, hfid] using h
      simp only [executeCalls, hfid, if_pos hfile]
  | read fid offset count =>
    cases hfid : s.getFid fid with
    | none => simp only [executeCalls, accessCalls, hfid]
    | some p =>
      simp only [refuses, hfid, Option.all_some, Bool.or_eq_true, decide_eq_true_eq,
        Bool.not_eq_true'] at h
      simp only [executeCalls, accessCalls, hfid, useCalls]
      grind
  | write fid offset data =>
    cases hfid : s.getFid fid with
    | none => simp only [executeCalls, accessCalls, hfid]
    | some p =>
      simp only [refuses, hfid, Option.all_some, Bool.or_eq_true, decide_eq_true_eq,
        Bool.not_eq_true'] at h
      simp only [executeCalls, accessCalls, hfid, useCalls]
      grind
  | clunk fid => simp only [executeCalls, clunkCalls, Option.isNone_iff_eq_none.1 h]
  | remove fid => simp only [executeCalls, removeCalls, Option.isNone_iff_eq_none.1 h]
  | _ => rfl

/-- A request that is only acknowledged calls nothing. -/
theorem executeCalls_of_acknowledges (h : s.acknowledges m) : executeCalls env m s = [] := by
  cases m with
  | attach fid afid uname aname =>
    have hauth : s.unauthed = true := h
    have hnot : ¬ s.attaches afid aname := by simp [attaches, hauth]
    simp only [executeCalls, attachCalls, if_pos hnot]
  | version msize version => rfl
  | auth afid uname aname => rfl
  | flush oldtag => rfl
  | _ => contradiction

theorem heldFd_of_dir {o : QidObject} (h : o.type = p9QTDIR) : heldFd o = none := by
  simp [heldFd, h]

/-- A fid whose object is a directory is removed. -/
theorem removeFid_smalls_of_dir (hq : Quiet s u) (hfid : s.getFid fid = some p) (hp : p < s.next)
    (hdir : (s.obj p).type = p9QTDIR) (h : u.removeFid fid = some t) :
    Smalls dirs u (removeFidCalls fid u) t := by
  refine removeFid_smalls h fun q hq' => ?_
  rw [hq.getFid, hfid] at hq'
  obtain rfl := Option.some.inj hq'
  exact heldFd_of_dir ((hq.type p hp).trans hdir)

/-- A fid whose object has just been closed is removed. -/
theorem removeFid_smalls_of_closed (hfid : s.getFid fid = some p) (hp : p < s.next)
    (hq : Quiet (qidClose p s).1 u) (hsilent : Silent (qidClose p s).1 u)
    (h : u.removeFid fid = some t) : Smalls dirs u (removeFidCalls fid u) t := by
  have hclose := qidClose_quiet p s
  refine removeFid_smalls h fun q hq' => ?_
  rw [hq.getFid, hclose.getFid, hfid] at hq'
  obtain rfl := Option.some.inj hq'
  rw [hsilent.old p (Nat.lt_of_lt_of_le hp hclose.next_le)]
  exact heldFd_qidClose p s

theorem ne_dir_of_file {o : QidObject} (h : o.type = p9QTFILE) : o.type ≠ p9QTDIR := by
  rw [h]
  decide

/-- The object that a request closes, if it is open. -/
def closing (s : Dev) : TMsg → Option Ptr
  | .clunk fid | .remove fid => s.getFid fid
  | _ => none

/-- **The condition**: the request does not close an open directory. -/
def closeSafe (s : Dev) (m : TMsg) : Bool := (s.closing m).all fun p => ¬ openDir (s.obj p)

/-- `TClunk` closes the object and removes the fid. -/
theorem clunk_smalls (hT : Table s) (hfid : s.getFid fid = some p)
    (hdirs : openDir (s.obj p) = true → dirs) (hr : (qidClose p s).1.removeFid fid = some t) :
    Smalls dirs s (clunkCalls fid s) t := by
  simp only [clunkCalls, hfid]
  exact (qidClose_smalls (hT.lt_of_getFid hfid) hdirs).trans
    (removeFid_smalls_of_closed hfid (hT.lt_of_getFid hfid) (.refl _) (.refl _) hr)

/-- The calls of a `TCreate` that has made its entry. -/
theorem createCalls_eq {name : Bytes} {perm : UInt32} {mode : UInt8} {base child : Ptr} {u v : Dev}
    {ok : Bool} (hfid : s.getFid fid = some base) (hdir : (s.obj base).type = p9QTDIR)
    (hc : createChild env base name perm s = (u, some child))
    (ho : qidOpen env child mode u = (v, ok)) :
    createCalls env fid name perm mode s = createChildCalls env base name perm s ++
      (openCalls env child mode u ++ if ok then removeFidCalls fid v else []) := by
  simp only [createCalls, hfid, if_neg (not_not.2 hdir), hc, ho]
  cases ok <;> rfl

/-- **The calls of a request** do all that happens to descriptors and objects. -/
theorem Exit.smalls {res : Except String (Option RBody)} (h : Exit env s m t res) (hT : Table s)
    (hvalid : m.valid) (hdirs : s.closeSafe m = false → dirs) :
    Smalls dirs s (executeCalls env m s) t := by
  have hattach : Silent s (attach env s).1 := newQidObject_silent _ _ _ _
  cases h with
  | refused hm =>
    rw [executeCalls_of_refuses (hm.resolve_left (by simp [hvalid]))]
    exact (Silent.refl s).smalls
  | answered hm =>
    rw [executeCalls_of_acknowledges hm]
    exact (Silent.refl s).smalls
  | silent => exact (Silent.refl s).smalls
  | @claimed fid afid uname aname u p e hm ha hb =>
    have hnew : Constructs s (attach env s) := newQidObject_constructs _ _ _ _
    rw [ha] at hnew hattach
    obtain ⟨hle, hlt⟩ := hnew.2 p rfl
    simp only [executeCalls, attachCalls, if_neg (not_not.2 hm), ha, hb]
    exact .after_silent hattach (.single (.deletes (hattach.new p hle hlt)))
  | attached hm ha hb =>
    simp only [executeCalls, attachCalls, if_neg (not_not.2 hm), ha, hb]
    exact ((of_result ha hattach).trans (bindFid_silent hb)).smalls
  | lost hfid hdir hw =>
    simp only [executeCalls, walkCalls, hfid, if_neg (not_not.2 hdir), hw]
    exact (of_result hw (walkNames_silent _ _ _ _ _)).smalls
  | occupied hfid hdir hw hne _ =>
    simp only [executeCalls, walkCalls, hfid, if_neg (not_not.2 hdir), hw, if_neg hne]
    exact (of_result hw (walkNames_silent _ _ _ _ _)).smalls
  | walked hfid hdir hw hne hb =>
    simp only [executeCalls, walkCalls, hfid, if_neg (not_not.2 hdir), hw, if_neg hne]
    exact ((of_result hw (walkNames_silent _ _ _ _ _)).trans (bindFid_silent hb)).smalls
  | @rewalked fid ws base qids u v t hfid hdir hw hr hb =>
    simp only [executeCalls, walkCalls, hfid, if_neg (not_not.2 hdir), hw, if_true]
    have hq := of_result hw (walkNames_quiet env ws base [base] s).1
    have hremove : Smalls dirs u (removeFidCalls fid u) v :=
      removeFid_smalls_of_dir hq hfid (hT.lt_of_getFid hfid) hdir hr
    exact .after_silent (of_result hw (walkNames_silent env ws base [base] s))
      (hremove.then_silent (bindFid_silent hb))
  | notOpened hfid hfile ho =>
    simp only [executeCalls, hfid, if_neg (not_not.2 hfile)]
    exact of_result ho (qidOpen_smalls env (hT.lt_of_getFid hfid) _)
  | opened hfid hfile ho =>
    simp only [executeCalls, hfid, if_neg (not_not.2 hfile)]
    exact of_result ho (qidOpen_smalls env (hT.lt_of_getFid hfid) _)
  | notCreated hfid hdir hc =>
    simp only [executeCalls, createCalls, hfid, if_neg (not_not.2 hdir), hc, List.append_nil]
    exact of_result hc (createChild_smalls _ _ _ _ _)
  | @createdNotOpened fid name perm mode base child u t e hfid hdir hc ho =>
    have hnew := createChild_constructs env base name perm s
    rw [hc] at hnew
    rw [executeCalls, createCalls_eq hfid hdir hc ho, if_neg Bool.false_ne_true, List.append_nil]
    exact (of_result hc (createChild_smalls env base name perm s)).trans
      (of_result ho (qidOpen_smalls env (hnew.2 child rfl).2 mode))
  | @created fid name perm mode base child u v w t hfid hdir hc ho hr hb =>
    have hnew := createChild_constructs env base name perm s
    rw [hc] at hnew
    have hq := hnew.1.trans (of_result ho (qidOpen_quiet env child mode u))
    have hremove : Smalls dirs v (removeFidCalls fid v) w :=
      removeFid_smalls_of_dir hq hfid (hT.lt_of_getFid hfid) hdir hr
    rw [executeCalls, createCalls_eq hfid hdir hc ho, if_pos rfl]
    exact (of_result hc (createChild_smalls env base name perm s)).trans
      ((of_result ho (qidOpen_smalls env (hnew.2 child rfl).2 mode)).trans
        (hremove.then_silent (bindFid_silent hb)))
  | notRead hfid hfile ho hcount hr =>
    simp only [executeCalls, accessCalls, hfid, hfile, hcount, ne_eq, not_true_eq_false,
      decide_false, Bool.false_eq_true, or_self, if_false]
    exact use_smalls (hT.lt_of_getFid hfid) (ne_dir_of_file hfile) ho
      (of_result hr (qidRead_uses _ _ _ _ _))
  | read hfid hfile ho hcount hr =>
    simp only [executeCalls, accessCalls, hfid, hfile, hcount, ne_eq, not_true_eq_false,
      decide_false, Bool.false_eq_true, or_self, if_false]
    exact use_smalls (hT.lt_of_getFid hfid) (ne_dir_of_file hfile) ho
      (of_result hr (qidRead_uses _ _ _ _ _))
  | notWritten hfid hfile ho hw =>
    simp only [executeCalls, accessCalls, hfid, hfile, ne_eq, not_true_eq_false,
      Bool.false_eq_true, or_self, if_false]
    exact use_smalls (hT.lt_of_getFid hfid) (ne_dir_of_file hfile) ho
      (of_result hw (qidWrite_uses _ _ _ _ _))
  | written hfid hfile ho hw _ =>
    simp only [executeCalls, accessCalls, hfid, hfile, ne_eq, not_true_eq_false,
      Bool.false_eq_true, or_self, if_false]
    exact use_smalls (hT.lt_of_getFid hfid) (ne_dir_of_file hfile) ho
      (of_result hw (qidWrite_uses _ _ _ _ _))
  | clunkedClosed hfid hc hr =>
    exact clunk_smalls hT hfid (fun ho => hdirs (by simp [closeSafe, closing, hfid, ho]))
      (by rw [hc]; exact hr)
  | clunked hfid hc hr =>
    exact clunk_smalls hT hfid (fun ho => hdirs (by simp [closeSafe, closing, hfid, ho]))
      (by rw [hc]; exact hr)
  | notRemoved hfid hx =>
    simp only [executeCalls, removeCalls, hfid, closeIfOpened_eq, hx, List.append_nil]
    refine (qidClose_smalls (hT.lt_of_getFid hfid) fun ho => ?_).then_silent
      (of_result hx (qidRemove_silent _ _ _))
    exact hdirs (by simp [closeSafe, closing, hfid, ho])
  | @removed fid p u t hfid hx hr =>
    simp only [executeCalls, removeCalls, hfid, closeIfOpened_eq, hx]
    have hlt := hT.lt_of_getFid hfid
    have hsilent := of_result hx (qidRemove_silent env p (qidClose p s).1)
    have hq := of_result hx (qidRemove_quiet env p (qidClose p s).1)
    refine (qidClose_smalls hlt fun ho => ?_).trans
      (.after_silent hsilent (removeFid_smalls_of_closed hfid hlt hq hsilent hr))
    exact hdirs (by simp [closeSafe, closing, hfid, ho])
  | notExamined hfid hs => exact (of_result hs (qidStat_silent _ _ _)).smalls
  | examined hfid hs => exact (of_result hs (qidStat_silent _ _ _)).smalls

theorem closeSafe_register (s : Dev) (tag : UInt16) (m : TMsg) :
    (s.register tag).closeSafe m = s.closeSafe m := by
  unfold register
  split
  · rfl
  · cases m <;> rfl

/-- **A whole request** is a sequence of such calls. -/
theorem process_smalls (hT : Table s) {r : TRequest} {resp : Option RResponse}
    (hdirs : s.closeSafe r.msg = false → dirs) (h : process env r s = some (t, resp)) :
    Smalls dirs s (processCalls env r s) t := by
  obtain ⟨u, res, hexit, hv, rfl, -⟩ := process_exit h
  refine .after_silent (silent_register s r.tag) (.then_silent ?_ (silent_unregister u r.tag))
  unfold processCalls
  by_cases hvalid : r.msg.valid
  · rw [if_pos hvalid]
    exact hexit.smalls (hT.quiet (quiet_register s r.tag)) hvalid
      (fun hf => hdirs (by rwa [closeSafe_register] at hf))
  · rw [if_neg hvalid, (hv.resolve_left hvalid).1]
    exact (Silent.refl _).smalls

end Dev

end Ooows.P9
