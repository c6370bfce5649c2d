import Ooows.P9.Descriptors

/-!
# Ooows.P9.Ownership

Objects own their descriptors.

A descriptor belongs to the object that got it from `open`, until it is closed.  A call is
*proper* if it closes or uses a descriptor that belongs to the object it is made for, or deletes an
object that no descriptor belongs to.

A directory counts as open after a `TCreate`, but has no descriptor: closing it closes whatever
its `m_fd` was left with.  `proper_iff_closeSafe` says that this is the only improper call: for
every interleaving of the two threads, all calls are proper exactly if no request closes an open
directory.
-/

namespace Ooows.P9

open Lib Lib.Path

/-! ## ownership -/

/-- The object a descriptor belongs to, and the inode it was opened for. -/
abbrev Owner := Int → Option (Ptr × Option Nat)

namespace FdCall

/-- Ownership after a call. -/
def after (o : Owner) : FdCall → Owner
  | .open p fd ino => Function.update o fd (some (p, ino))
  | .close _ fd => Function.update o fd none
  | .use _ _ => o
  | .delete _ => o

/-- A proper call. -/
def Proper (o : Owner) : FdCall → Prop
  | .open _ fd _ => o fd = none
  | .close p fd | .use p fd => ∃ ino, o fd = some (p, ino)
  | .delete p => ∀ fd ino, o fd ≠ some (p, ino)

/-- Ownership after some calls. -/
def owner (o : Owner) (cs : List FdCall) : Owner := cs.foldl after o

/-- Each call is proper when it is made. -/
def AllProper (o : Owner) : List FdCall → Prop
  | [] => True
  | c :: cs => c.Proper o ∧ AllProper (c.after o) cs

theorem allProper_append (o : Owner) (cs ds : List FdCall) :
    AllProper o (cs ++ ds) ↔ AllProper o cs ∧ AllProper (owner o cs) ds := by
  induction cs generalizing o with
  | nil => simp [AllProper, owner]
  | cons c cs ih => simp only [List.cons_append, AllProper, ih, owner, List.foldl_cons, and_assoc]

theorem owner_append (o : Owner) (cs ds : List FdCall) :
    owner o (cs ++ ds) = owner (owner o cs) ds := List.foldl_append

end FdCall

open FdCall

namespace Dev

variable {dirs : Prop} {env : Env} {s t : Dev} {o : Owner} {cs : List FdCall} {p : Ptr}

/-- **The invariant**: the descriptors that belong to an object are those it has, and they refer to
a file with the inode they were opened for. -/
structure Owns (s : Dev) (o : Owner) : Prop where
  has : ∀ fd p ino, o fd = some (p, ino) → p < s.next ∧ heldFd (s.obj p) = some fd
  file : ∀ fd p ino, o fd = some (p, ino) → (s.host.file fd).map OpenFile.ino = some ino
  belongs : ∀ p < s.next, ∀ fd, heldFd (s.obj p) = some fd → ∃ ino, o fd = some (p, ino)

theorem Owns.free (h : Owns s o) {fd : Int} (hfd : s.host.file fd = none) : o fd = none := by
  cases ho : o fd with
  | none => rfl
  | some x =>
    have hfile := h.file fd x.1 x.2 ho
    simp [hfd] at hfile

theorem Owns.silent (h : Owns s o) (ht : Silent s t) : Owns t o where
  has fd p ino ho := by
    obtain ⟨hp, hheld⟩ := h.has fd p ino ho
    exact ⟨Nat.lt_of_lt_of_le hp ht.next_le, (ht.old p hp).trans hheld⟩
  file fd p ino ho := by
    rw [ht.file]
    exact h.file fd p ino ho
  belongs p hp fd hheld := by
    by_cases hs : p < s.next
    · exact h.belongs p hs fd ((ht.old p hs).symm.trans hheld)
    · rw [ht.new p (Nat.le_of_not_lt hs) hp] at hheld
      contradiction

/-- An object gets a descriptor that was free. -/
theorem Owns.opens (h : Owns s o) {fd : Int} {f : OpenFile} (hp : p < s.next)
    (hnone : heldFd (s.obj p) = none) (hgets : s.host.Gets fd f t.host) (hnext : t.next = s.next)
    (hheld : ∀ q, heldFd (t.obj q) = if q = p then some fd else heldFd (s.obj q)) :
    Owns t (Function.update o fd (some (p, f.ino))) where
  has fd' q ino ho := by
    rw [hnext, hheld]
    by_cases hfd : fd' = fd
    · rw [hfd, Function.update_self] at ho
      obtain ⟨rfl, -⟩ := Prod.mk.inj (Option.some.inj ho)
      exact ⟨hp, by rw [if_pos rfl, hfd]⟩
    · rw [Function.update_of_ne hfd] at ho
      obtain ⟨hq, hheld'⟩ := h.has fd' q ino ho
      have hne : q ≠ p := by
        rintro rfl
        simp [hnone] at hheld'
      exact ⟨hq, by rw [if_neg hne, hheld']⟩
  file fd' q ino ho := by
    rw [hgets.file]
    by_cases hfd : fd' = fd
    · rw [hfd, Function.update_self] at ho
      obtain ⟨-, rfl⟩ := Prod.mk.inj (Option.some.inj ho)
      rw [if_pos hfd]
      rfl
    · rw [Function.update_of_ne hfd] at ho
      rw [if_neg hfd]
      exact h.file fd' q ino ho
  belongs q hq fd' hq' := by
    rw [hnext] at hq
    rw [hheld] at hq'
    by_cases hne : q = p
    · rw [if_pos hne] at hq'
      obtain rfl := Option.some.inj hq'
      exact ⟨f.ino, by rw [Function.update_self, hne]⟩
    · rw [if_neg hne] at hq'
      obtain ⟨ino, ho⟩ := h.belongs q hq fd' hq'
      have hfd : fd' ≠ fd := by
        rintro rfl
        simp [h.free hgets.free] at ho
      exact ⟨ino, by rw [Function.update_of_ne hfd, ho]⟩

/-- An object closes its descriptor. -/
theorem Owns.closes (h : Owns s o) {fd : Int} (hp : p < s.next)
    (hheld : heldFd (s.obj p) = some fd)
    (hfile : ∀ fd', t.host.file fd' = if fd' = fd then none else s.host.file fd')
    (hnext : t.next = s.next)
    (hheld' : ∀ q, heldFd (t.obj q) = if q = p then none else heldFd (s.obj q)) :
    Owns t (Function.update o fd none) where
  has fd' q ino ho := by
    have hfd : fd' ≠ fd := by
      rintro rfl
      simp at ho
    rw [Function.update_of_ne hfd] at ho
    obtain ⟨hq, hheldq⟩ := h.has fd' q ino ho
    have hne : q ≠ p := by
      rintro rfl
      exact hfd (Option.some.inj (hheldq.symm.trans hheld))
    rw [hnext, hheld', if_neg hne]
    exact ⟨hq, hheldq⟩
  file fd' q ino ho := by
    have hfd : fd' ≠ fd := by
      rintro rfl
      simp at ho
    rw [Function.update_of_ne hfd] at ho
    rw [hfile, if_neg hfd]
    exact h.file fd' q ino ho
  belongs q hq fd' hq' := by
    rw [hnext] at hq
    rw [hheld'] at hq'
    by_cases hne : q = p
    · simp [hne] at hq'
    · rw [if_neg hne] at hq'
      obtain ⟨ino, ho⟩ := h.belongs q hq fd' hq'
      have hfd : fd' ≠ fd := by
        rintro rfl
        -- the descriptor belongs to `p`
        obtain ⟨ino', ho'⟩ := h.belongs p hp fd' hheld
        rw [ho] at ho'
        exact hne (Prod.mk.inj (Option.some.inj ho')).1
      exact ⟨ino, by rw [Function.update_of_ne hfd, ho]⟩

/-- An object uses its descriptor. -/
theorem Owns.uses (h : Owns s o) {fd : Int} (hmoves : s.host.Moves fd t.host)
    (hnext : t.next = s.next) (hobj : t.obj = s.obj) : Owns t o where
  has := by
    rw [hnext, hobj]
    exact h.has
  file fd' q ino ho := by
    by_cases hfd : fd' = fd
    · rw [hfd, hmoves.ino, ← hfd]
      exact h.file fd' q ino ho
    · rw [hmoves.other fd' hfd]
      exact h.file fd' q ino ho
  belongs := by
    rw [hnext, hobj]
    exact h.belongs

/-- **One method**: its calls are proper and keep the invariant, if it does not close a
directory. -/
theorem Owns.small (h : Owns s o) (hdirs : ¬ dirs) (hs : Small dirs s cs t) :
    AllProper o cs ∧ Owns t (owner o cs) := by
  cases hs with
  | silent ht => exact ⟨trivial, h.silent ht⟩
  | opens hp hnone hgets hnext hheld _ =>
    exact ⟨⟨h.free hgets.free, trivial⟩, h.opens hp hnone hgets hnext hheld⟩
  | @creates t q fd ino hfree ht =>
    have ho := h.free hfree
    have hback : owner o [.open q fd ino, .close q fd] = o := by
      simp [owner, after, ← ho]
    rw [hback]
    exact ⟨⟨ho, ⟨ino, by simp [after]⟩, trivial⟩, h.silent ht⟩
  | closes hp hheld hfile hnext hheld' _ =>
    have hheld := hheld.resolve_right hdirs
    exact ⟨⟨h.belongs _ hp _ hheld, trivial⟩, h.closes hp hheld hfile hnext hheld'⟩
  | uses hp hheld hmoves hnext hobj _ =>
    exact ⟨⟨h.belongs _ hp _ hheld, trivial⟩, h.uses hmoves hnext hobj⟩
  | @deletes q hnone =>
    refine ⟨⟨fun fd ino ho => ?_, trivial⟩, h.has, h.file, h.belongs⟩
    have hheld := (h.has fd q ino ho).2
    rw [hnone] at hheld
    contradiction

/-- **Several methods.** -/
theorem Owns.smalls (h : Owns s o) (hdirs : ¬ dirs) (hs : Smalls dirs s cs t) :
    AllProper o cs ∧ Owns t (owner o cs) := by
  obtain ⟨css, hrun, rfl⟩ := hs
  induction hrun with
  | refl => exact ⟨trivial, h⟩
  | tail _ hlast ih =>
    have hstep := ih.2.small hdirs hlast
    rw [List.flatten_append, List.flatten_singleton, owner_append, allProper_append]
    exact ⟨⟨ih.1, hstep.1⟩, hstep.2⟩

theorem Silent.heldFd_none (h : Silent s t) (hp : p < s.next → heldFd (s.obj p) = none)
    (hlt : p < t.next) : heldFd (t.obj p) = none := by
  by_cases hs : p < s.next
  · rw [h.old p hs]
    exact hp hs
  · exact h.new p (Nat.le_of_not_lt hs) hlt

/-- An object that no `open` is called for gets no descriptor. -/
theorem heldFd_smalls (hs : Smalls dirs s cs t) (hcs : ∀ fd ino, .open p fd ino ∉ cs)
    (hp : p < s.next → heldFd (s.obj p) = none) (hlt : p < t.next) : heldFd (t.obj p) = none := by
  obtain ⟨css, hrun, rfl⟩ := hs
  induction hrun with
  | refl => exact hp hlt
  | @tail t u css cs _ hlast ih =>
    simp only [List.flatten_append, List.flatten_singleton, List.mem_append, not_or] at hcs
    have hbefore : p < t.next → heldFd (t.obj p) = none :=
      fun hpt => ih hpt fun fd ino => (hcs fd ino).1
    have hnone := fun fd ino => (hcs fd ino).2
    cases hlast with
    | silent hu => exact hu.heldFd_none hbefore hlt
    | @opens t q fd f hq _ hgets hnext hheld _ =>
      have hne : p ≠ q := by
        rintro rfl
        exact hnone fd f.ino (by simp)
      rw [hheld, if_neg hne]
      exact hbefore (hnext ▸ hlt)
    | creates _ hu => exact hu.heldFd_none hbefore hlt
    | @closes t q fd hq _ _ hnext hheld' _ =>
      rw [hheld']
      split
      · rfl
      · exact hbefore (hnext ▸ hlt)
    | uses _ _ _ hnext hobj _ =>
      rw [hobj]
      exact hbefore (hnext ▸ hlt)
    | deletes _ => exact hbefore hlt

theorem Smalls.next_le (hs : Smalls dirs s cs t) : s.next ≤ t.next := by
  obtain ⟨css, hrun, -⟩ := hs
  induction hrun with
  | refl => exact Nat.le_refl _
  | tail _ hlast ih =>
    refine Nat.le_trans ih ?_
    cases hlast with
    | silent hu => exact hu.next_le
    | opens _ _ _ hnext _ _ => exact Nat.le_of_eq hnext.symm
    | creates _ hu => exact hu.next_le
    | closes _ _ _ hnext _ _ => exact Nat.le_of_eq hnext.symm
    | uses _ _ _ hnext _ _ => exact Nat.le_of_eq hnext.symm
    | deletes _ => exact Nat.le_refl _

/-! ## which objects get descriptors -/

variable {q : Ptr} {fid : UInt32} {m : TMsg} {fd : Int} {ino : Option Nat}

/-- Only `Open` and `CreateChild` open anything. -/
theorem open_mem_openCalls {mode : UInt8}
    (h : .open p fd ino ∈ openCalls env q mode s) : p = q := by
  unfold openCalls at h
  split at h
  · simp at h
  · split at h
    · simp at h
    · split at h
      · simp at h
      · split at h
        · simp at h
        · simp only [List.mem_singleton, FdCall.open.injEq] at h
          exact h.1

theorem open_mem_createChildCalls {child : Bytes} {perm : UInt32}
    (h : .open p fd ino ∈ createChildCalls env q child perm s) : p = q := by
  unfold createChildCalls at h
  split at h
  · simp at h
  · unfold createEntryCalls at h
    split at h
    · split at h
      · simp at h
      · simp only [List.mem_cons, FdCall.open.injEq, List.not_mem_nil, or_false, reduceCtorEq] at h
        exact h.1
    · simp at h

theorem open_notMem_removeFidCalls :
    .open p fd ino ∉ removeFidCalls fid s := by
  unfold removeFidCalls
  split
  · simp
  · split <;> simp

theorem open_notMem_closeCalls :
    .open p fd ino ∉ closeCalls q s := by
  unfold closeCalls
  split <;> simp

theorem open_notMem_attachCalls {fid afid : UInt32} {aname : Bytes} :
    .open p fd ino ∉ attachCalls env fid afid aname s := by
  unfold attachCalls
  split
  · simp
  · split
    · simp
    · split <;> simp

theorem open_notMem_walkCalls {newfid : UInt32} {ws : List Bytes} :
    .open p fd ino ∉ walkCalls env fid newfid ws s := by
  unfold walkCalls
  split
  · simp
  · split
    · simp
    · split
      · simp
      · split
        · exact open_notMem_removeFidCalls
        · simp

theorem open_notMem_accessCalls {refused : Bool} :
    .open p fd ino ∉ accessCalls fid refused s := by
  unfold accessCalls useCalls
  split
  · simp
  · split
    · simp
    · split <;> simp

theorem open_notMem_clunkCalls :
    .open p fd ino ∉ clunkCalls fid s := by
  unfold clunkCalls
  split
  · simp
  · simp [open_notMem_closeCalls, open_notMem_removeFidCalls]

theorem open_notMem_removeCalls :
    .open p fd ino ∉ removeCalls env fid s := by
  unfold removeCalls
  split
  · simp
  · rw [List.mem_append, not_or]
    refine ⟨open_notMem_closeCalls, ?_⟩
    split
    · simp
    · exact open_notMem_removeFidCalls

/-- `TCreate` opens the new file for the directory it is made in, and for the new object. -/
theorem open_mem_createCalls {name : Bytes} {perm : UInt32} {mode : UInt8}
    (h : .open p fd ino ∈ createCalls env fid name perm mode s) :
    s.getFid fid = some p ∨ s.next ≤ p := by
  unfold createCalls at h
  split at h
  · simp at h
  next base hfid =>
    split at h
    · simp at h
    · rcases List.mem_append.1 h with hchild | hrest
      · rw [open_mem_createChildCalls hchild]
        exact .inl hfid
      · have hc := createChild_constructs env base name perm s
        split at hrest
        · simp at hrest
        next u child hu =>
          rw [hu] at hc
          rcases List.mem_append.1 hrest with hopen | hremove
          · rw [open_mem_openCalls hopen]
            exact .inr (hc.2 child rfl).1
          · split at hremove
            · simp at hremove
            · exact absurd hremove open_notMem_removeFidCalls

/-- A descriptor is opened for the object of a fid, or for a new one by a request that is no
walk. -/
theorem open_mem_executeCalls
    (h : .open p fd ino ∈ executeCalls env m s) :
    (∃ fid, s.getFid fid = some p) ∨ s.next ≤ p ∧ ∀ fid newfid ws, m ≠ .walk fid newfid ws := by
  cases m with
  | attach fid afid uname aname => exact absurd h open_notMem_attachCalls
  | walk fid newfid ws => exact absurd h open_notMem_walkCalls
  | «open» fid mode =>
    simp only [executeCalls] at h
    split at h
    · simp at h
    next q hq =>
      split at h
      · simp at h
      · rw [open_mem_openCalls h]
        exact .inl ⟨fid, hq⟩
  | create fid name perm mode =>
    rcases open_mem_createCalls h with hfid | hnew
    · exact .inl ⟨fid, hfid⟩
    · exact .inr ⟨hnew, by simp⟩
  | read fid offset count => exact absurd h open_notMem_accessCalls
  | write fid offset data => exact absurd h open_notMem_accessCalls
  | clunk fid => exact absurd h open_notMem_clunkCalls
  | remove fid => exact absurd h open_notMem_removeCalls
  | _ => simp [executeCalls] at h

/-! ## the objects in the middle of a walk -/

/-- An object with neither a fid nor a descriptor. -/
structure Idle (s : Dev) (p : Ptr) : Prop where
  lt : p < s.next
  unbound : s.fidsOf p = 0
  held : heldFd (s.obj p) = none

theorem Silent.idle (h : Silent s t) (hf : t.fidsOf p = s.fidsOf p) (hp : Idle s p) : Idle t p :=
  ⟨Nat.lt_of_lt_of_le hp.lt h.next_le, hf.trans hp.unbound, (h.old p hp.lt).trans hp.held⟩

theorem Idle.not_bound (hp : Idle s p) : s.getFid fid ≠ some p := by
  intro hfid
  have hpos : 0 < s.fidsOf p := fidsOf_pos_iff.2 ⟨_, mem_of_getFid hfid, rfl⟩
  exact absurd hp.unbound (Nat.ne_of_gt hpos)

/-- A request leaves such objects alone, and puts new ones in the middle of its walk. -/
theorem Exit.idle {res : Except String (Option RBody)} (h : Exit env s m t res) (hT : Table s)
    (hvalid : m.valid) :
    (∀ p, Idle s p → Idle t p) ∧ ∀ p ∈ Loops.middle (pointers res), Idle t p := by
  have heffect := h.effect
  have hsmalls : Smalls True s (executeCalls env m s) t := h.smalls hT hvalid fun _ => trivial
  have hle : s.next ≤ t.next := hsmalls.next_le
  refine ⟨fun p hp => ?_, fun p hp => ?_⟩
  · have hlt := Nat.lt_of_lt_of_le hp.lt hle
    refine ⟨hlt, heffect.fidsOf_eq_zero hT hp.lt hp.unbound, ?_⟩
    refine heldFd_smalls hsmalls (fun fd ino hmem => ?_) (fun _ => hp.held) hlt
    rcases open_mem_executeCalls hmem with ⟨fid, hfid⟩ | ⟨hge, -⟩
    · exact hp.not_bound hfid
    · exact absurd hp.lt (Nat.not_lt_of_le hge)
  · obtain ⟨⟨fid, newfid, ws, rfl⟩, hge, hlt, hzero⟩ := heffect.middle hT hp
    refine ⟨hlt, hzero, ?_⟩
    refine heldFd_smalls hsmalls (fun fd ino hmem => ?_)
      (fun hold => absurd hold (Nat.not_lt_of_le hge)) hlt
    rcases open_mem_executeCalls hmem with ⟨fid', hfid⟩ | ⟨-, hnot⟩
    · exact absurd (hT.lt_of_getFid hfid) (Nat.not_lt_of_le hge)
    · exact hnot fid newfid ws rfl

theorem process_idle (hT : Table s) {r : TRequest} {resp : Option RResponse}
    (h : process env r s = some (t, resp)) :
    (∀ p, Idle s p → Idle t p) ∧ ∀ p ∈ Loops.middle (RResponse.pointers resp), Idle t p := by
  have hreg : ∀ p, Idle s p → Idle (s.register r.tag) p :=
    fun p => (silent_register s r.tag).idle ((quiet_register s r.tag).fidsOf p)
  have hunreg (u : Dev) : ∀ p, Idle u p → Idle (u.unregister r.tag) p :=
    fun p => (silent_unregister u r.tag).idle ((quiet_unregister u r.tag).fidsOf p)
  obtain ⟨u, res, hexit, hv, rfl, rfl⟩ := process_exit h
  by_cases hvalid : r.msg.valid
  · obtain ⟨hold, hnew⟩ := hexit.idle (hT.quiet (quiet_register s r.tag)) hvalid
    refine ⟨fun p hp => hunreg u p (hold p (hreg p hp)), fun p hp => hunreg u p (hnew p ?_)⟩
    rcases res with e | _ | b
    · exact hp
    · exact hp
    · cases b <;> exact hp
  · obtain ⟨rfl, e, rfl⟩ := hv.resolve_left hvalid
    exact ⟨fun p hp => hunreg _ p (hreg p hp), fun p hp => absurd hp List.not_mem_nil⟩

end Dev

namespace Loops

/-! ## the two threads -/

/-- The calls of a step. -/
def calls (s : Loops) : Act → List FdCall
  | .process env r =>
    match s.pending with
    | some _ => []
    | none => Dev.processCalls env r s.dev
  | .destroy =>
    match s.current with
    | some (r, true) => (middle (Dev.RResponse.pointers (some r))).map .delete
    | _ => []
  | _ => []

/-- The calls of a sequence of steps. -/
def trace (s : Loops) : List Act → List FdCall
  | [] => []
  | a :: acts =>
    s.calls a ++
      match s.act a with
      | none => []
      | some t => trace t acts

/-- **The condition** on a step: no request closes an open directory. -/
def closeSafe (s : Loops) : Act → Bool
  | .process _ r => s.pending.isSome || s.dev.closeSafe r.msg
  | _ => true

variable {s t : Loops} {a : Act} {o : Owner}

/-- Only requests and destructors make calls. -/
theorem calls_eq_nil (hp : ∀ env r, a ≠ .process env r) (hd : a ≠ .destroy) : s.calls a = [] := by
  cases a with
  | process env r => exact absurd rfl (hp env r)
  | destroy => exact absurd rfl hd
  | _ => rfl

/-- **The invariant of the two threads.** -/
structure Ok (s : Loops) (o : Owner) : Prop where
  table : s.dev.Table
  owns : s.dev.Owns o
  idle : ∀ w ∈ s.lists, ∀ p ∈ middle w, s.dev.Idle p

theorem ok_init (host : Host) (authRequired : Bool) (sharename mountpoint : Bytes) :
    Ok (init host authRequired sharename mountpoint) fun _ => none where
  table := .init host authRequired sharename mountpoint
  owns := ⟨by simp, by simp, fun _ hp => absurd hp (Nat.not_lt_zero _)⟩
  idle := by simp [lists, inFlight, init]

/-- Deleting objects that have neither fids nor descriptors. -/
theorem deletes_smalls (ps : List Ptr) {d : Dev} (hps : ∀ p ∈ ps, d.Idle p) :
    Dev.Smalls False d (ps.map .delete) (ps.foldl Dev.delete d) ∧
      ∀ p, d.Idle p → (ps.foldl Dev.delete d).Idle p := by
  induction ps generalizing d with
  | nil => exact ⟨(Dev.Silent.refl d).smalls, fun _ hp => hp⟩
  | cons q ps ih =>
    have hkeep : ∀ p, d.Idle p → (d.delete q).Idle p := fun p hp => ⟨hp.lt, hp.unbound, hp.held⟩
    obtain ⟨hsmalls, hidle⟩ := ih fun p hp => hkeep p (hps p (List.mem_cons_of_mem _ hp))
    refine ⟨?_, fun p hp => hidle p (hkeep p hp)⟩
    exact Dev.Smalls.trans (.single (.deletes (hps q List.mem_cons_self).held)) hsmalls

theorem table_foldl_delete (ps : List Ptr) {d : Dev} (hd : d.Table) (hps : ∀ p ∈ ps, p < d.next) :
    (ps.foldl Dev.delete d).Table := by
  induction ps generalizing d with
  | nil => exact hd
  | cons q ps ih =>
    exact ih (hd.delete (hps q List.mem_cons_self)) fun p hp => hps p (List.mem_cons_of_mem _ hp)

/-- **One step** that meets the condition. -/
theorem Ok.act (h : Ok s o) (hsafe : s.closeSafe a = true) (ha : s.act a = some t) :
    AllProper o (s.calls a) ∧ Ok t (owner o (s.calls a)) := by
  cases acted_of_act ha with
  | @process env r resp t hidle hp hlists =>
    have hclose : s.dev.closeSafe r.msg = true := by simpa [closeSafe, hidle] using hsafe
    have hcalls : s.calls (.process env r) = Dev.processCalls env r s.dev := by
      simp [calls, hidle]
    have hsmalls : Dev.Smalls False s.dev (Dev.processCalls env r s.dev) t.dev :=
      Dev.process_smalls h.table (by simp [hclose]) hp
    obtain ⟨hproper, howns⟩ := h.owns.smalls not_false hsmalls
    obtain ⟨hold, hnew⟩ := Dev.process_idle h.table hp
    rw [hcalls]
    refine ⟨hproper, ?_, howns, fun w hw p hpw => ?_⟩
    · exact h.table.step (l := (env, r)) (by simp [Dev.step, hp])
    · rw [hlists] at hw
      rcases List.mem_append.1 hw with hw | hw
      · exact hold p (h.idle w hw p hpw)
      · cases resp with
        | none => simp at hw
        | some r =>
          rw [List.mem_singleton.1 hw] at hpw
          exact hnew p hpw
  | @destroy r t hcurrent hdev hlists =>
    have hcalls : s.calls .destroy = (middle (Dev.RResponse.pointers (some r))).map .delete := by
      simp [calls, hcurrent]
    have hidle : ∀ p ∈ middle (Dev.RResponse.pointers (some r)), s.dev.Idle p :=
      h.idle _ (by simp [hlists])
    obtain ⟨hsmalls, hkeep⟩ := deletes_smalls _ hidle
    obtain ⟨hproper, howns⟩ := h.owns.smalls not_false hsmalls
    rw [hcalls]
    refine ⟨hproper, ?_, ?_, fun w hw p hpw => ?_⟩
    · rw [hdev]
      exact table_foldl_delete _ h.table fun p hp => (hidle p hp).lt
    · rw [hdev]
      exact howns
    · rw [hdev]
      exact hkeep p (h.idle w (by simp [hlists, hw]) p hpw)
  | other hp hd hdev hlists =>
    rw [calls_eq_nil hp hd]
    refine ⟨trivial, ?_, ?_, ?_⟩
    · rw [hdev]
      exact h.table
    · rw [hdev]
      exact h.owns
    · rw [hdev, hlists]
      exact h.idle

theorem register_getFid (d : Dev) (tag : UInt16) (fid : UInt32) :
    (d.register tag).getFid fid = d.getFid fid :=
  (Dev.quiet_register d tag).getFid fid

/-- A request that closes an open directory calls `close` first. -/
theorem processCalls_of_not_closeSafe {d : Dev} (env : Env) {r : TRequest}
    (h : d.closeSafe r.msg = false) :
    ∃ p cs, Dev.openDir (d.obj p) = true ∧
      Dev.processCalls env r d = .close p (d.obj p).fd :: cs := by
  simp only [Dev.closeSafe, Option.all_eq_false, decide_not, Bool.not_eq_false', decide_eq_true_eq] at h
  obtain ⟨p, hp, hdir⟩ := h
  have hopened : ((d.register r.tag).obj p).opened = true := by
    rw [Dev.register_obj]
    exact (Bool.and_eq_true_iff.1 hdir).1
  have hclose : Dev.closeCalls p (d.register r.tag) = [.close p (d.obj p).fd] := by
    rw [Dev.closeCalls, if_pos hopened, Dev.register_obj]
  cases hm : r.msg with
  | clunk fid =>
    have hfid : (d.register r.tag).getFid fid = some p := by
      rw [register_getFid]
      simpa [Dev.closing, hm] using hp
    have hcalls : Dev.processCalls env r d = Dev.closeCalls p (d.register r.tag) ++
        Dev.removeFidCalls fid (Dev.qidClose p (d.register r.tag)).1 := by
      simp only [Dev.processCalls, hm, TMsg.valid, if_true, Dev.executeCalls, Dev.clunkCalls, hfid]
    rw [hclose] at hcalls
    exact ⟨p, _, hdir, hcalls⟩
  | remove fid =>
    have hfid : (d.register r.tag).getFid fid = some p := by
      rw [register_getFid]
      simpa [Dev.closing, hm] using hp
    obtain ⟨cs, hcalls⟩ : ∃ cs, Dev.removeCalls env fid (d.register r.tag) =
        Dev.closeCalls p (d.register r.tag) ++ cs := by
      rw [Dev.removeCalls, hfid]
      exact ⟨_, rfl⟩
    rw [hclose] at hcalls
    refine ⟨p, cs, hdir, ?_⟩
    simpa only [Dev.processCalls, hm, TMsg.valid, if_true, Dev.executeCalls,
      List.singleton_append] using hcalls
  | _ => simp [Dev.closing, hm] at hp

/-- **A step that does not meet the condition** calls `close` for an object that no descriptor
belongs to. -/
theorem Ok.not_proper (h : Ok s o) (hsafe : s.closeSafe a = false) : ¬ AllProper o (s.calls a) := by
  cases a with
  | process env r =>
    simp only [closeSafe, Bool.or_eq_false_iff, Option.isSome_eq_false_iff,
      Option.isNone_iff_eq_none] at hsafe
    obtain ⟨p, cs, hdir, hcalls⟩ := processCalls_of_not_closeSafe env hsafe.2
    simp only [calls, hsafe.1, hcalls]
    rintro ⟨⟨ino, ho⟩, -⟩
    have hheld := (h.owns.has _ p ino ho).2
    rw [Dev.heldFd_of_dir (by simpa using (Bool.and_eq_true_iff.1 hdir).2)] at hheld
    contradiction
  | _ => simp [closeSafe] at hsafe

/-- Every step on the way meets the condition. -/
def ClosesSafely (s : Loops) (acts : List Act) : Prop :=
  ∀ pre a u, pre ++ [a] <+: acts → exec Loops.act s pre = some u → u.closeSafe a = true

theorem closesSafely_nil (s : Loops) : s.ClosesSafely [] := by
  intro pre a u hpre
  simp at hpre

theorem closesSafely_cons {b : Act} {acts : List Act} (hb : s.act b = some t) :
    s.ClosesSafely (b :: acts) ↔ s.closeSafe b = true ∧ t.ClosesSafely acts := by
  constructor
  · intro h
    refine ⟨h [] b s (by simp) rfl, fun pre a u hpre hu => h (b :: pre) a u ?_ ?_⟩
    · simpa using hpre
    · simpa [exec, hb] using hu
  · rintro ⟨hfirst, hrest⟩ pre a u hpre hu
    cases pre with
    | nil =>
      obtain rfl : a = b := by simpa using hpre
      cases hu
      exact hfirst
    | cons c pre =>
      rw [List.cons_append, List.cons_prefix_cons] at hpre
      obtain ⟨rfl, hpre⟩ := hpre
      exact hrest pre a u hpre (by simpa [exec, hb] using hu)

/-- **Every sequence of steps** from a state in order. -/
theorem Ok.trace (h : Ok s o) {acts : List Act} (hrun : exec Loops.act s acts = some t) :
    (AllProper o (s.trace acts) ↔ s.ClosesSafely acts) ∧
      (s.ClosesSafely acts → Ok t (owner o (s.trace acts))) := by
  induction acts generalizing s o with
  | nil =>
    cases hrun
    exact ⟨⟨fun _ => closesSafely_nil _, fun _ => trivial⟩, fun _ => h⟩
  | cons b acts ih =>
    obtain ⟨u, hb, hu⟩ := Option.bind_eq_some_iff.1 hrun
    have htrace : s.trace (b :: acts) = s.calls b ++ u.trace acts := by
      simp only [Loops.trace, hb]
    rw [closesSafely_cons hb, htrace, allProper_append, owner_append]
    cases hsafe : s.closeSafe b with
    | false =>
      have hnot := h.not_proper hsafe
      exact ⟨⟨fun hall => absurd hall.1 hnot, by simp⟩, by simp⟩
    | true =>
      obtain ⟨hproper, hok⟩ := h.act hsafe hb
      obtain ⟨hiff, hend⟩ := ih hok hu
      exact ⟨⟨fun hall => ⟨rfl, hiff.1 hall.2⟩, fun hall => ⟨hproper, hiff.2 hall.2⟩⟩,
        fun hall => hend hall.2⟩

/-- **Objects own their descriptors**: for every interleaving of the two threads without the walks
that leave a fid bound to a deleted object, all fids have live objects, and every `close`, `read`
and `write` is for a descriptor that the same object got from `open` and has not closed since, and
no object is deleted while it has one, exactly if no request closes an open directory. -/
theorem proper_iff_closeSafe (host : Host) (authRequired : Bool) (sharename mountpoint : Bytes)
    {acts : List Act} {t : Loops}
    (h : Run (Guarded (fun s a => s.cloneSafe a) fun s a t => s.act a = some t)
      (init host authRequired sharename mountpoint) acts t) :
    t.dev.FidsOk ∧
      (AllProper (fun _ => none) ((init host authRequired sharename mountpoint).trace acts) ↔
        (init host authRequired sharename mountpoint).ClosesSafely acts) := by
  have hexec := (run_iff_exec Loops.act).1 (h.mono fun _ _ _ hstep => hstep.2)
  exact ⟨fidsOk_of_run h, ((ok_init host authRequired sharename mountpoint).trace hexec).1⟩

/-- Attach fid 1, create a file there and clunk it. -/
def fileActs : List Act :=
  [Act.process Dev.calmEnv ⟨0, .attach 1 0xffffffff [] (ascii ['s'])⟩, .put,
    .process Dev.calmEnv ⟨0, .create 1 (ascii ['a']) 0o644 1⟩, .put,
    .process Dev.calmEnv ⟨0, .clunk 1⟩]

/-- The file is opened and closed by the directory, opened by its object and closed by it. -/
theorem file_calls_proper :
    shareLoops.trace fileActs = [.open 0 0 (some 0), .close 0 0, .open 1 0 (some 0), .delete 0,
        .close 1 0, .delete 1] ∧
      AllProper (fun _ => none) (shareLoops.trace fileActs) := by
  have hrun : ∃ t, Run (Guarded (fun s a => s.cloneSafe a) fun s a t => s.act a = some t)
      shareLoops fileActs t :=
    ⟨_, .tail (.tail (.tail (.tail (.tail .refl ⟨rfl, rfl⟩) ⟨rfl, rfl⟩) ⟨rfl, rfl⟩) ⟨rfl, rfl⟩)
      ⟨rfl, rfl⟩⟩
  obtain ⟨t, hrun⟩ := hrun
  refine ⟨rfl, (proper_iff_closeSafe _ _ _ _ hrun).2.2 ?_⟩
  iterate 5 refine (closesSafely_cons (t := _) rfl).2 ⟨rfl, ?_⟩
  exact closesSafely_nil _

/-- Create a file through fid 1 and a directory through fid 2, and clunk fid 2. -/
def dirActs : List Act :=
  [Act.process Dev.calmEnv ⟨0, .attach 1 0xffffffff [] (ascii ['s'])⟩, .put,
    .process Dev.calmEnv ⟨0, .create 1 (ascii ['a']) 0o644 1⟩, .put,
    .process Dev.calmEnv ⟨0, .attach 2 0xffffffff [] (ascii ['s'])⟩, .put,
    .process Dev.calmEnv ⟨0, .create 2 (ascii ['d']) (dmDir + 0o755) 0⟩, .put,
    .process Dev.calmEnv ⟨0, .clunk 2⟩]

/-- The `m_fd` of the directory is what was left in memory: here it is the file's descriptor. -/
theorem clunk_of_directory_closes_file :
    (∃ t, exec Loops.act shareLoops dirActs = some t) ∧
      shareLoops.trace dirActs = [.open 0 0 (some 0), .close 0 0, .open 1 0 (some 0), .delete 0,
        .delete 2, .close 3 0, .delete 3] ∧
      ¬ AllProper (fun _ => none) (shareLoops.trace dirActs) := by
  have htrace : shareLoops.trace dirActs = [.open 0 0 (some 0), .close 0 0, .open 1 0 (some 0),
      .delete 0, .delete 2, .close 3 0, .delete 3] := rfl
  refine ⟨⟨_, rfl⟩, htrace, ?_⟩
  rw [htrace]
  simp [AllProper, Proper, after]

end Loops

end Ooows.P9
