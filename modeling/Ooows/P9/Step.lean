import Ooows.P9.Request

/-!
# Ooows.P9.Step

What one request can do to the fid table and to the lifetime of objects.

Most of what a request does is *quiet*: it talks to the host, opens and closes
objects and constructs new ones, but binds no fid and deletes nothing
(`Quiet`).  Each method of `QidObject` has one lemma here that says so.

* `Exit` lists the ways in which an `Execute` ends, with the methods it has called
  by then.  `execute_exit` and `execute_ends` are the only proofs that look into
  the thirteen `Execute` functions; what is proved about requests starts from them.
* `Effect` lists what this means for the fid table, and `process_effect` says so
  for a whole `Process`, together with the pointers its `RWalk` carries.
-/

namespace Ooows.P9

open Lib Lib.Path

namespace Dev

variable {env : Env} {s t u : Dev} {p : Ptr}

/-! ## quiet steps -/

/-- From `s` to `t` objects may have been constructed, but no fid was bound or
unbound and nothing was deleted. -/
structure Quiet (s t : Dev) : Prop where
  fidMap : t.fidMap = s.fidMap
  deletes : t.deletes = s.deletes
  next_le : s.next ≤ t.next
  refcnt : ∀ p < s.next, (t.obj p).refcnt = (s.obj p).refcnt
  type : ∀ p < s.next, (t.obj p).type = (s.obj p).type
  fresh : ∀ p, s.next ≤ p → p < t.next → (t.obj p).refcnt = 0

/-- `p` was constructed between `s` and `t`. -/
def Fresh (s t : Dev) (p : Ptr) : Prop := s.next ≤ p ∧ p < t.next

theorem Quiet.refl (s : Dev) : Quiet s s :=
  ⟨rfl, rfl, Nat.le_refl _, fun _ _ => rfl, fun _ _ => rfl,
    fun _ h h' => absurd h' (Nat.not_lt_of_le h)⟩

theorem Quiet.trans (h₁ : Quiet s t) (h₂ : Quiet t u) : Quiet s u where
  fidMap := h₂.fidMap.trans h₁.fidMap
  deletes := h₂.deletes.trans h₁.deletes
  next_le := Nat.le_trans h₁.next_le h₂.next_le
  refcnt p hp := (h₂.refcnt p (Nat.lt_of_lt_of_le hp h₁.next_le)).trans (h₁.refcnt p hp)
  type p hp := (h₂.type p (Nat.lt_of_lt_of_le hp h₁.next_le)).trans (h₁.type p hp)
  fresh p hp hu := by
    by_cases ht : p < t.next
    · rw [h₂.refcnt p ht]
      exact h₁.fresh p hp ht
    · exact h₂.fresh p (Nat.le_of_not_lt ht) hu

theorem Quiet.getFid (h : Quiet s t) (fid : UInt32) : t.getFid fid = s.getFid fid := by
  rw [Dev.getFid, Dev.getFid, h.fidMap]

theorem Fresh.of_quiet (h : Fresh s t p) (hq : Quiet t u) : Fresh s u p :=
  ⟨h.1, Nat.lt_of_lt_of_le h.2 hq.next_le⟩

theorem Fresh.after_quiet (hq : Quiet s t) (h : Fresh t u p) : Fresh s u p :=
  ⟨Nat.le_trans hq.next_le h.1, h.2⟩

/-- A state that differs only in what `Quiet` does not speak about. -/
theorem quiet_of_eq (hf : t.fidMap = s.fidMap) (hd : t.deletes = s.deletes)
    (hn : t.next = s.next) (ho : t.obj = s.obj) : Quiet s t :=
  ⟨hf, hd, Nat.le_of_eq hn.symm, fun _ _ => by rw [ho], fun _ _ => by rw [ho],
    fun _ h h' => absurd (hn ▸ h') (Nat.not_lt_of_le h)⟩

theorem quiet_call (s : Dev) (c : Syscall) : Quiet s (s.call c) := quiet_of_eq rfl rfl rfl rfl

theorem quiet_host (s : Dev) (h : Host) : Quiet s { s with host := h } :=
  quiet_of_eq rfl rfl rfl rfl

theorem register_obj (s : Dev) (tag : UInt16) : (s.register tag).obj = s.obj := by
  unfold register
  split <;> rfl

theorem register_host (s : Dev) (tag : UInt16) : (s.register tag).host = s.host := by
  unfold register
  split <;> rfl

theorem quiet_register (s : Dev) (tag : UInt16) : Quiet s (s.register tag) := by
  unfold register
  split
  · exact .refl s
  · exact quiet_of_eq rfl rfl rfl rfl

theorem quiet_unregister (s : Dev) (tag : UInt16) : Quiet s (s.unregister tag) :=
  quiet_of_eq rfl rfl rfl rfl

/-- Changing an object's other fields is quiet. -/
theorem quiet_setObj (s : Dev) (p : Ptr) {f : QidObject → QidObject}
    (hr : ∀ o, (f o).refcnt = o.refcnt) (ht : ∀ o, (f o).type = o.type) :
    Quiet s (s.setObj p f) where
  fidMap := rfl
  deletes := rfl
  next_le := Nat.le_refl _
  refcnt q _ := by
    by_cases h : q = p
    · subst h; simp [setObj, hr]
    · simp [setObj, h]
  type q _ := by
    by_cases h : q = p
    · subst h; simp [setObj, ht]
    · simp [setObj, h]
  fresh q h h' := absurd h' (Nat.not_lt_of_le h)

theorem quiet_alloc (s : Dev) {o : QidObject} (ho : o.refcnt = 0) : Quiet s (s.alloc o) where
  fidMap := rfl
  deletes := rfl
  next_le := Nat.le_succ _
  refcnt q hq := by simp [alloc, Nat.ne_of_lt hq]
  type q hq := by simp [alloc, Nat.ne_of_lt hq]
  fresh q h h' := by
    have hq : q = s.next := Nat.le_antisymm (Nat.le_of_lt_succ h') h
    subst hq
    simp [alloc, ho]

/-! ## the methods of `QidObject` -/

/-- What every method that may construct an object does. -/
def Constructs (s : Dev) (r : Dev × Option Ptr) : Prop :=
  Quiet s r.1 ∧ ∀ p, r.2 = some p → Fresh s r.1 p

theorem Constructs.none (h : Quiet s t) : Constructs s (t, none) := ⟨h, fun _ h => nomatch h⟩

theorem Constructs.after_quiet {r : Dev × Option Ptr} (hq : Quiet s t) (h : Constructs t r) :
    Constructs s r :=
  ⟨hq.trans h.1, fun p hp => .after_quiet hq (h.2 p hp)⟩

theorem newQidObject_constructs (env : Env) (path root : Bytes) (s : Dev) :
    Constructs s (newQidObject env path root s) := by
  refine .after_quiet (quiet_call s (.stat path)) ?_
  unfold newQidObject
  dsimp only
  split
  · exact .none (.refl _)
  · split
    · exact .none (.refl _)
    · refine ⟨quiet_alloc _ rfl, ?_⟩
      rintro p ⟨⟩
      exact ⟨Nat.le_refl _, Nat.lt_succ_self _⟩

theorem traverse_constructs (env : Env) (p : Ptr) (name : Bytes) (s : Dev) :
    Constructs s (traverse env p name s) := by
  refine .after_quiet (quiet_call s (.realpath (traversePath (s.obj p) name))) ?_
  unfold traverse
  dsimp only
  split
  · exact .none (.refl _)
  · split
    · exact .none (.refl _)
    · exact newQidObject_constructs _ _ _ _

theorem createChild_constructs (env : Env) (p : Ptr) (child : Bytes) (perm : UInt32) (s : Dev) :
    Constructs s (createChild env p child perm s) := by
  refine .after_quiet (quiet_call s (createCall (s.obj p) child perm)) ?_
  unfold createChild
  dsimp only
  split
  · exact .none (.refl _)
  · split
    · exact .none (.refl _)
    · exact .after_quiet (quiet_host _ _) (traverse_constructs _ _ _ _)

theorem qidOpen_quiet (env : Env) (p : Ptr) (mode : UInt8) (s : Dev) :
    Quiet s (qidOpen env p mode s).1 := by
  unfold qidOpen
  dsimp only
  split
  · exact .refl s
  · split
    · dsimp only
      refine quiet_setObj _ _ ?_ ?_ <;> exact fun _ => rfl
    · split
      · exact .refl s
      · next flags _ =>
        refine .trans (quiet_call s (.open (s.obj p).fspath flags)) ?_
        split
        · dsimp only
          refine quiet_setObj _ _ ?_ ?_ <;> exact fun _ => rfl
        · split
          · dsimp only
            refine quiet_setObj _ _ ?_ ?_ <;> exact fun _ => rfl
          · dsimp only
            refine .trans (quiet_host _ _) (quiet_setObj _ _ ?_ ?_) <;> exact fun _ => rfl

theorem qidClose_quiet (p : Ptr) (s : Dev) : Quiet s (qidClose p s).1 := by
  unfold qidClose
  split
  · dsimp only
    refine .trans (quiet_host _ _) (quiet_setObj _ _ ?_ ?_) <;> exact fun _ => rfl
  · exact .refl s

theorem qidRead_quiet (env : Env) (p : Ptr) (offset : UInt64) (count : UInt32) (s : Dev) :
    Quiet s (qidRead env p offset count s).1 := by
  unfold qidRead
  split
  · split
    · exact .refl s
    · split
      · exact quiet_host _ _
      · split <;> exact quiet_host _ _
  · exact .refl s

theorem qidWrite_quiet (env : Env) (p : Ptr) (offset : UInt64) (data : Bytes) (s : Dev) :
    Quiet s (qidWrite env p offset data s).1 := by
  unfold qidWrite
  dsimp only
  split
  · split
    · exact quiet_host _ _
    · split <;> exact quiet_host _ _
  · exact .refl s

theorem qidStat_quiet (env : Env) (p : Ptr) (s : Dev) : Quiet s (qidStat env p s).1 := by
  unfold qidStat
  dsimp only
  split
  · exact quiet_call _ _
  · split <;> exact quiet_call _ _

theorem qidRemove_quiet (env : Env) (p : Ptr) (s : Dev) : Quiet s (qidRemove env p s).1 := by
  refine .trans (quiet_call s (.unlink (s.obj p).fspath)) ?_
  unfold qidRemove
  dsimp only
  split
  · exact .refl _
  · split
    · exact .refl _
    · exact quiet_host _ _

/-- The walk loop constructs one object per name, each newer than the last. -/
theorem walkNames_quiet (env : Env) (ws : List Bytes) (next : Ptr) (qids : List Ptr) (s : Dev) :
    Quiet s (walkNames env ws next qids s).1 ∧
      ∀ qs, (walkNames env ws next qids s).2 = some qs →
        ∃ ps, qs = qids ++ ps ∧ ps.length = ws.length ∧ ps.Nodup ∧
          ∀ p ∈ ps, Fresh s (walkNames env ws next qids s).1 p := by
  induction ws generalizing next qids s with
  | nil =>
    refine ⟨.refl s, ?_⟩
    rintro qs ⟨⟩
    exact ⟨[], by simp⟩
  | cons w ws ih =>
    have hc := traverse_constructs env next w s
    simp only [walkNames]
    rcases ht : traverse env next w s with ⟨t, _ | p⟩
    · rw [ht] at hc
      exact ⟨hc.1, fun _ h => nomatch h⟩
    · rw [ht] at hc
      have hp : Fresh s t p := hc.2 p rfl
      obtain ⟨hq, hqs⟩ := ih p (qids ++ [p]) t
      refine ⟨hc.1.trans hq, ?_⟩
      intro qs h
      obtain ⟨ps, rfl, hlen, hnd, hfresh⟩ := hqs qs h
      refine ⟨p :: ps, by simp, by simp [hlen], ?_, ?_⟩
      · -- `p` was there before the rest of the walk began
        refine List.nodup_cons.2 ⟨fun hmem => ?_, hnd⟩
        exact absurd hp.2 (Nat.not_lt_of_le (hfresh p hmem).1)
      · intro q hmem
        rcases List.mem_cons.1 hmem with rfl | hmem
        · exact hp.of_quiet hq
        · exact .after_quiet hc.1 (hfresh q hmem)

/-! ## binding and unbinding -/

theorem getFid_filter_self (m : List (UInt32 × Ptr)) (fid : UInt32) :
    (m.filter fun b => b.1 ≠ fid).lookup fid = none := by
  rw [List.lookup_eq_none_iff]
  intro b hb
  have hne : b.1 ≠ fid := by simpa using (List.mem_filter.1 hb).2
  simpa using Ne.symm hne

/-- A fid that was just removed is free. -/
theorem getFid_of_removeFid {fid : UInt32} (h : s.removeFid fid = some t) :
    t.getFid fid = none := by
  unfold removeFid at h
  split at h
  · contradiction
  · simp only [Option.some.injEq] at h
    subst h
    unfold decRef
    dsimp only
    split <;> exact getFid_filter_self _ _

/-- Binding a free fid succeeds. -/
theorem bindFid_ne_none {fid : UInt32} (h : s.getFid fid = none) : s.bindFid fid p ≠ none := by
  simp [bindFid, h]

/-- A fid that is bound can be removed. -/
theorem exists_removeFid {fid : UInt32} (h : s.getFid fid = some p) :
    ∃ t, s.removeFid fid = some t := by
  simp [removeFid, h]

/-- A fid that was just removed can be bound. -/
theorem exists_bindFid {fid : UInt32} (h : s.removeFid fid = some t) (p : Ptr) :
    ∃ u, t.bindFid fid p = some u :=
  Option.ne_none_iff_exists'.1 (bindFid_ne_none (getFid_of_removeFid h))

/-- What a method does to the state, by its result. -/
theorem of_result {α : Type} {P : Dev → Prop} {r : Dev × α} {a : α} (he : r = (t, a))
    (h : P r.1) : P t := by
  subst he
  exact h

/-! ## the ways a request ends -/

/-- The mountpoint can be examined, so that `new QidObject` does not throw. -/
def mountFound (env : Env) (s : Dev) : Bool :=
  !env.refuse (.stat s.mountpoint) && (s.host.stat s.mountpoint).isSome

/-- Authentication is outstanding. -/
def unauthed (s : Dev) : Bool := !s.authed && s.authRequired

/-- `TAttach` gets to the mountpoint. -/
def attaches (s : Dev) (afid : UInt32) (aname : Bytes) : Bool :=
  !s.unauthed && afid = 0xffffffff && s.serving aname

/-- `Execute` returns unless it is a `TStat` of a fid that is not bound, or a `TAttach` that gets to
the mountpoint when that cannot be examined. -/
def returns (env : Env) (s : Dev) : TMsg → Bool
  | .stat fid => (s.getFid fid).isSome
  | .attach _ afid _ aname => !s.attaches afid aname || mountFound env s
  | _ => true

/-- The requests that the checks at the beginning of `Execute` refuse. -/
def refuses (s : Dev) : TMsg → Bool
  | .version _ version => version ≠ ascii ['P', '9', '2', '0', '2', '1']
  | .auth _ _ _ => !s.unauthed
  | .attach _ afid _ aname => !s.unauthed && !s.attaches afid aname
  | .walk fid _ _ | .create fid _ _ _ => (s.getFid fid).all fun p => (s.obj p).type ≠ p9QTDIR
  | .open fid _ => (s.getFid fid).all fun p => (s.obj p).type ≠ p9QTFILE
  | .read fid _ count => (s.getFid fid).all fun p =>
    (s.obj p).type ≠ p9QTFILE || !(s.obj p).opened || count > 0x1000
  | .write fid _ _ => (s.getFid fid).all fun p => (s.obj p).type ≠ p9QTFILE || !(s.obj p).opened
  | .clunk fid | .remove fid => (s.getFid fid).isNone
  | .flush _ | .stat _ | .wstat _ _ => false

/-- The requests that are answered with nothing done. -/
def acknowledges (s : Dev) : TMsg → Bool
  | .version _ version => version = ascii ['P', '9', '2', '0', '2', '1']
  | .auth _ _ _ | .attach _ _ _ _ => s.unauthed
  | .flush _ => true
  | _ => false

/-- The pointers held by the response to come. -/
def pointers : Except String (Option RBody) → List Ptr
  | .ok (some (.walk qids)) => qids
  | _ => []

/-- `Exit env s m t res`: executing `m` in `s` leads to `t` and `res`, by way of the methods named. -/
inductive Exit (env : Env) (s : Dev) : TMsg → Dev → Except String (Option RBody) → Prop
  /-- The request is invalid, or a check refuses it. -/
  | refused {m e} (hm : m.valid = false ∨ s.refuses m) : Exit env s m s (.error e)
  | answered {m b} (hm : s.acknowledges m) (htype : b.type = m.type + 1)
      (hnone : pointers (.ok (some b)) = []) : Exit env s m s (.ok (some b))
  /-- `TWstat` does nothing and says nothing. -/
  | silent {fid st} : Exit env s (.wstat fid st) s (.ok none)
  | claimed {fid afid uname aname u p e} (hm : s.attaches afid aname)
      (ha : attach env s = (u, some p)) (hb : u.bindFid fid p = none) :
      Exit env s (.attach fid afid uname aname) (u.delete p) (.error e)
  | attached {fid afid uname aname u p t} (hm : s.attaches afid aname)
      (ha : attach env s = (u, some p)) (hb : u.bindFid fid p = some t) :
      Exit env s (.attach fid afid uname aname) t (.ok (some (.attach (qid (t.obj p)))))
  | lost {fid newfid ws base t e} (hfid : s.getFid fid = some base)
      (hdir : (s.obj base).type = p9QTDIR) (hw : walkNames env ws base [base] s = (t, none)) :
      Exit env s (.walk fid newfid ws) t (.error e)
  | occupied {fid newfid ws base qids t e} (hfid : s.getFid fid = some base)
      (hdir : (s.obj base).type = p9QTDIR) (hw : walkNames env ws base [base] s = (t, some qids))
      (hne : fid ≠ newfid) (hb : t.bindFid newfid (qids.getLast?.getD base) = none) :
      Exit env s (.walk fid newfid ws) t (.error e)
  | walked {fid newfid ws base qids u t} (hfid : s.getFid fid = some base)
      (hdir : (s.obj base).type = p9QTDIR) (hw : walkNames env ws base [base] s = (u, some qids))
      (hne : fid ≠ newfid) (hb : u.bindFid newfid (qids.getLast?.getD base) = some t) :
      Exit env s (.walk fid newfid ws) t (.ok (some (.walk qids)))
  /-- The clone case: the old binding goes away before the new one is made. -/
  | rewalked {fid ws base qids u v t} (hfid : s.getFid fid = some base)
      (hdir : (s.obj base).type = p9QTDIR) (hw : walkNames env ws base [base] s = (u, some qids))
      (hr : u.removeFid fid = some v) (hb : v.bindFid fid (qids.getLast?.getD base) = some t) :
      Exit env s (.walk fid fid ws) t (.ok (some (.walk qids)))
  | notOpened {fid mode p t e} (hfid : s.getFid fid = some p) (hfile : (s.obj p).type = p9QTFILE)
      (ho : qidOpen env p mode s = (t, false)) : Exit env s (.open fid mode) t (.error e)
  | opened {fid mode p t} (hfid : s.getFid fid = some p) (hfile : (s.obj p).type = p9QTFILE)
      (ho : qidOpen env p mode s = (t, true)) :
      Exit env s (.open fid mode) t (.ok (some (.open (qid (t.obj p)) 0)))
  | notCreated {fid name perm mode base t e} (hfid : s.getFid fid = some base)
      (hdir : (s.obj base).type = p9QTDIR) (hc : createChild env base name perm s = (t, none)) :
      Exit env s (.create fid name perm mode) t (.error e)
  | createdNotOpened {fid name perm mode base child u t e} (hfid : s.getFid fid = some base)
      (hdir : (s.obj base).type = p9QTDIR)
      (hc : createChild env base name perm s = (u, some child))
      (ho : qidOpen env child mode u = (t, false)) :
      Exit env s (.create fid name perm mode) t (.error e)
  | created {fid name perm mode base child u v w t} (hfid : s.getFid fid = some base)
      (hdir : (s.obj base).type = p9QTDIR)
      (hc : createChild env base name perm s = (u, some child))
      (ho : qidOpen env child mode u = (v, true)) (hr : v.removeFid fid = some w)
      (hb : w.bindFid fid child = some t) :
      Exit env s (.create fid name perm mode) t (.ok (some (.create (qid (t.obj child)) 0)))
  | notRead {fid offset count p t e} (hfid : s.getFid fid = some p)
      (hfile : (s.obj p).type = p9QTFILE) (ho : (s.obj p).opened = true) (hcount : ¬ count > 0x1000)
      (hr : qidRead env p offset count s = (t, none)) :
      Exit env s (.read fid offset count) t (.error e)
  | read {fid offset count p t bs} (hfid : s.getFid fid = some p)
      (hfile : (s.obj p).type = p9QTFILE) (ho : (s.obj p).opened = true) (hcount : ¬ count > 0x1000)
      (hr : qidRead env p offset count s = (t, some bs)) :
      Exit env s (.read fid offset count) t (.ok (some (.read bs)))
  | notWritten {fid offset data p t e} (hfid : s.getFid fid = some p)
      (hfile : (s.obj p).type = p9QTFILE) (ho : (s.obj p).opened = true)
      (hw : qidWrite env p offset data s = (t, 0)) :
      Exit env s (.write fid offset data) t (.error e)
  | written {fid offset data p t n} (hfid : s.getFid fid = some p)
      (hfile : (s.obj p).type = p9QTFILE) (ho : (s.obj p).opened = true)
      (hw : qidWrite env p offset data s = (t, n)) (hn : n ≠ 0) :
      Exit env s (.write fid offset data) t (.ok (some (.write n)))
  /-- The fid of an object that is not open goes as well. -/
  | clunkedClosed {fid p u t e} (hfid : s.getFid fid = some p) (hc : qidClose p s = (u, false))
      (hr : u.removeFid fid = some t) : Exit env s (.clunk fid) t (.error e)
  | clunked {fid p u t} (hfid : s.getFid fid = some p) (hc : qidClose p s = (u, true))
      (hr : u.removeFid fid = some t) : Exit env s (.clunk fid) t (.ok (some .clunk))
  | notRemoved {fid p t e} (hfid : s.getFid fid = some p)
      (hx : qidRemove env p (qidClose p s).1 = (t, false)) : Exit env s (.remove fid) t (.error e)
  | removed {fid p u t} (hfid : s.getFid fid = some p)
      (hx : qidRemove env p (qidClose p s).1 = (u, true)) (hr : u.removeFid fid = some t) :
      Exit env s (.remove fid) t (.ok (some .remove))
  | notExamined {fid p t e} (hfid : s.getFid fid = some p) (hs : qidStat env p s = (t, none)) :
      Exit env s (.stat fid) t (.error e)
  | examined {fid p t st} (hfid : s.getFid fid = some p) (hs : qidStat env p s = (t, some st)) :
      Exit env s (.stat fid) t (.ok (some (.stat st)))

/-- The outcome is one of these ends. -/
def Ends (env : Env) (s : Dev) (m : TMsg) (o : Outcome) : Prop :=
  ∃ t res, o = some (t, res) ∧ Exit env s m t res

theorem Ends.refused {m : TMsg} {e : String} (hm : s.refuses m) : Ends env s m (fail s e) :=
  ⟨_, _, rfl, .refused (.inr hm)⟩

/-- `new QidObject` succeeds exactly when the entry can be examined. -/
theorem attach_isSome (env : Env) (s : Dev) : (attach env s).2.isSome = mountFound env s := by
  have hhost : (s.call (.stat s.mountpoint)).host = s.host := rfl
  unfold attach newQidObject mountFound
  dsimp only
  rw [hhost]
  cases env.refuse (.stat s.mountpoint) with
  | true => simp
  | false => cases s.host.stat s.mountpoint <;> simp

theorem unauthed_iff (s : Dev) : s.unauthed ↔ ¬ s.authed ∧ s.authRequired := by simp [unauthed]

theorem executeAttach_ends {fid afid : UInt32} {uname aname : Bytes}
    (h : returns env s (.attach fid afid uname aname)) :
    Ends env s (.attach fid afid uname aname) (executeAttach env fid afid aname s) := by
  have hfound := attach_isSome env s
  simp only [executeAttach, ← unauthed_iff]
  split
  next hauth => exact ⟨_, _, rfl, .answered hauth rfl rfl⟩
  next hauth =>
    split
    next hafid => exact .refused (by simp [refuses, attaches, hauth, hafid])
    next hafid =>
      split
      next hserving => exact .refused (by simp [refuses, attaches, hauth, hserving])
      next hserving =>
        have hm : s.attaches afid aname := by simp_all [attaches]
        have hmount : mountFound env s := by simpa [returns, hm] using h
        rw [hmount] at hfound
        rcases ha : attach env s with ⟨u, _ | p⟩
        · simp [ha] at hfound
        · dsimp only
          cases hb : u.bindFid fid p with
          | none => exact ⟨_, _, rfl, .claimed hm ha hb⟩
          | some t => exact ⟨_, _, rfl, .attached hm ha hb⟩

/-- An attach that does not meet the condition takes the device down. -/
theorem executeAttach_eq_none {fid afid : UInt32} {uname aname : Bytes}
    (h : returns env s (.attach fid afid uname aname) = false) :
    executeAttach env fid afid aname s = none := by
  have hfound := attach_isSome env s
  simp only [returns, attaches, Bool.or_eq_false_iff, Bool.not_eq_false', Bool.and_eq_true,
    decide_eq_true_eq] at h
  obtain ⟨⟨⟨hauth, hafid⟩, hserving⟩, hmount⟩ := h
  rw [hmount] at hfound
  simp only [executeAttach, ← unauthed_iff]
  rw [if_neg (by simpa using hauth), if_neg (not_not.2 hafid), if_neg (not_not.2 hserving)]
  rcases ha : attach env s with ⟨u, _ | p⟩
  · rfl
  · simp [ha] at hfound

theorem executeWalk_ends (env : Env) (fid newfid : UInt32) (ws : List Bytes) (s : Dev) :
    Ends env s (.walk fid newfid ws) (executeWalk env fid newfid ws s) := by
  unfold executeWalk
  cases hfid : s.getFid fid with
  | none => exact .refused (by simp [refuses, hfid])
  | some base =>
    dsimp only
    split
    next hdir => exact .refused (by simp [refuses, hfid, hdir])
    next hdir =>
      have hq := (walkNames_quiet env ws base [base] s).1
      rcases hw : walkNames env ws base [base] s with ⟨u, _ | qids⟩
      · exact ⟨_, _, rfl, .lost hfid (not_not.1 hdir) hw⟩
      · dsimp only
        by_cases hself : fid = newfid
        · -- the walk binds nothing, so the old fid is still there to be removed
          subst hself
          rw [hw] at hq
          obtain ⟨v, hr⟩ := exists_removeFid ((hq.getFid fid).trans hfid)
          obtain ⟨t, hb⟩ := exists_bindFid hr (qids.getLast?.getD base)
          simp only [if_true, hr, hb]
          exact ⟨_, _, rfl, .rewalked hfid (not_not.1 hdir) hw hr hb⟩
        · rw [if_neg hself]
          dsimp only
          cases hb : u.bindFid newfid (qids.getLast?.getD base) with
          | none => exact ⟨_, _, rfl, .occupied hfid (not_not.1 hdir) hw hself hb⟩
          | some t => exact ⟨_, _, rfl, .walked hfid (not_not.1 hdir) hw hself hb⟩

theorem executeOpen_ends (env : Env) (fid : UInt32) (mode : UInt8) (s : Dev) :
    Ends env s (.open fid mode) (executeOpen env fid mode s) := by
  unfold executeOpen
  cases hfid : s.getFid fid with
  | none => exact .refused (by simp [refuses, hfid])
  | some p =>
    dsimp only
    split
    next hfile => exact .refused (by simp [refuses, hfid, hfile])
    next hfile =>
      rcases ho : qidOpen env p mode s with ⟨t, _ | _⟩
      · exact ⟨_, _, rfl, .notOpened hfid (not_not.1 hfile) ho⟩
      · exact ⟨_, _, rfl, .opened hfid (not_not.1 hfile) ho⟩

theorem executeCreate_ends (env : Env) (fid : UInt32) (name : Bytes) (perm : UInt32) (mode : UInt8)
    (s : Dev) :
    Ends env s (.create fid name perm mode) (executeCreate env fid name perm mode s) := by
  unfold executeCreate
  cases hfid : s.getFid fid with
  | none => exact .refused (by simp [refuses, hfid])
  | some base =>
    dsimp only
    split
    next hdir => exact .refused (by simp [refuses, hfid, hdir])
    next hdir =>
      have hq := (createChild_constructs env base name perm s).1
      rcases hc : createChild env base name perm s with ⟨u, _ | child⟩
      · exact ⟨_, _, rfl, .notCreated hfid (not_not.1 hdir) hc⟩
      · dsimp only
        have hq' := qidOpen_quiet env child mode u
        rcases ho : qidOpen env child mode u with ⟨v, _ | _⟩
        · exact ⟨_, _, rfl, .createdNotOpened hfid (not_not.1 hdir) hc ho⟩
        · rw [hc] at hq
          rw [ho] at hq'
          obtain ⟨w, hr⟩ := exists_removeFid
            ((hq'.getFid fid).trans ((hq.getFid fid).trans hfid))
          obtain ⟨t, hb⟩ := exists_bindFid hr child
          simp only [hr, hb]
          exact ⟨_, _, rfl, .created hfid (not_not.1 hdir) hc ho hr hb⟩

theorem executeRead_ends (env : Env) (fid : UInt32) (offset : UInt64) (count : UInt32) (s : Dev) :
    Ends env s (.read fid offset count) (executeRead env fid offset count s) := by
  unfold executeRead
  cases hfid : s.getFid fid with
  | none => exact .refused (by simp [refuses, hfid])
  | some p =>
    dsimp only
    split
    next hfile => exact .refused (by simp [refuses, hfid, hfile])
    split
    next ho => exact .refused (by simp [refuses, hfid, ho])
    split
    next hcount => exact .refused (by simp [refuses, hfid, hcount])
    next hfile ho hcount =>
      rcases hr : qidRead env p offset count s with ⟨t, _ | bs⟩
      · exact ⟨_, _, rfl, .notRead hfid (not_not.1 hfile) (not_not.1 ho) hcount hr⟩
      · exact ⟨_, _, rfl, .read hfid (not_not.1 hfile) (not_not.1 ho) hcount hr⟩

theorem executeWrite_ends (env : Env) (fid : UInt32) (offset : UInt64) (data : Bytes) (s : Dev) :
    Ends env s (.write fid offset data) (executeWrite env fid offset data s) := by
  unfold executeWrite
  cases hfid : s.getFid fid with
  | none => exact .refused (by simp [refuses, hfid])
  | some p =>
    dsimp only
    split
    next hfile => exact .refused (by simp [refuses, hfid, hfile])
    split
    next ho => exact .refused (by simp [refuses, hfid, ho])
    next hfile ho =>
      rcases hw : qidWrite env p offset data s with ⟨t, n⟩
      dsimp only
      split
      next hn =>
        subst hn
        exact ⟨_, _, rfl, .notWritten hfid (not_not.1 hfile) (not_not.1 ho) hw⟩
      next hn => exact ⟨_, _, rfl, .written hfid (not_not.1 hfile) (not_not.1 ho) hw hn⟩

theorem executeClunk_ends (env : Env) (fid : UInt32) (s : Dev) :
    Ends env s (.clunk fid) (executeClunk fid s) := by
  unfold executeClunk
  cases hfid : s.getFid fid with
  | none => exact .refused (by simp [refuses, hfid])
  | some p =>
    have hq := qidClose_quiet p s
    rcases hc : qidClose p s with ⟨u, ret⟩
    rw [hc] at hq
    obtain ⟨t, hr⟩ := exists_removeFid ((hq.getFid fid).trans hfid)
    simp only [hc, hr]
    cases ret with
    | false => exact ⟨_, _, rfl, .clunkedClosed hfid hc hr⟩
    | true => exact ⟨_, _, rfl, .clunked hfid hc hr⟩

/-- Closing what is open always succeeds. -/
theorem closeIfOpened_eq (p : Ptr) (s : Dev) : closeIfOpened p s = ((qidClose p s).1, true) := by
  unfold closeIfOpened qidClose
  cases (s.obj p).opened <;> rfl

theorem executeRemove_ends (env : Env) (fid : UInt32) (s : Dev) :
    Ends env s (.remove fid) (executeRemove env fid s) := by
  unfold executeRemove
  cases hfid : s.getFid fid with
  | none => exact .refused (by simp [refuses, hfid])
  | some p =>
    dsimp only
    rw [closeIfOpened_eq]
    dsimp only
    have hq := qidClose_quiet p s
    have hq' := qidRemove_quiet env p (qidClose p s).1
    rcases hx : qidRemove env p (qidClose p s).1 with ⟨u, _ | _⟩
    · exact ⟨_, _, rfl, .notRemoved hfid hx⟩
    · rw [hx] at hq'
      obtain ⟨t, hr⟩ := exists_removeFid ((hq'.getFid fid).trans ((hq.getFid fid).trans hfid))
      simp only [hr]
      exact ⟨_, _, rfl, .removed hfid hx hr⟩

theorem executeStat_ends {fid : UInt32} {p : Ptr} (env : Env) (hfid : s.getFid fid = some p) :
    Ends env s (.stat fid) (executeStat env fid s) := by
  unfold executeStat
  rw [hfid]
  dsimp only
  rcases hs : qidStat env p s with ⟨t, _ | st⟩
  · exact ⟨_, _, rfl, .notExamined hfid hs⟩
  · exact ⟨_, _, rfl, .examined hfid hs⟩

/-- **Ends of `Execute`**: a request that returns does so in one of the ways above. -/
theorem execute_ends {m : TMsg} (h : returns env s m) : Ends env s m (execute env m s) := by
  cases m with
  | version msize version =>
    simp only [execute, executeVersion]
    split
    next hv => exact .refused (by simpa [refuses] using hv)
    next hv => exact ⟨_, _, rfl, .answered (by simpa [acknowledges] using hv) rfl rfl⟩
  | auth afid uname aname =>
    simp only [execute, executeAuth, ← unauthed_iff]
    split
    next hauth => exact ⟨_, _, rfl, .answered hauth rfl rfl⟩
    next hauth => exact .refused (by simpa [refuses] using hauth)
  | flush oldtag => exact ⟨_, _, rfl, .answered rfl rfl rfl⟩
  | attach fid afid uname aname => exact executeAttach_ends h
  | walk fid newfid wnames => exact executeWalk_ends env fid newfid wnames s
  | «open» fid mode => exact executeOpen_ends env fid mode s
  | create fid name perm mode => exact executeCreate_ends env fid name perm mode s
  | read fid offset count => exact executeRead_ends env fid offset count s
  | write fid offset data => exact executeWrite_ends env fid offset data s
  | clunk fid => exact executeClunk_ends env fid s
  | remove fid => exact executeRemove_ends env fid s
  | stat fid =>
    obtain ⟨p, hfid⟩ := Option.isSome_iff_exists.1 h
    exact executeStat_ends env hfid
  | wstat fid st => exact ⟨_, _, rfl, .silent⟩

/-- The other requests take the device down. -/
theorem execute_eq_none {m : TMsg} (h : returns env s m = false) : execute env m s = none := by
  cases m with
  | attach fid afid uname aname => exact executeAttach_eq_none h
  | stat fid =>
    have hfid : s.getFid fid = none := by simpa [returns] using h
    simp only [execute, executeStat, hfid]
  | _ => contradiction

theorem execute_exit {m : TMsg} {res : Except String (Option RBody)}
    (h : execute env m s = some (t, res)) : Exit env s m t res := by
  cases hret : returns env s m with
  | false => simp [execute_eq_none hret] at h
  | true =>
    obtain ⟨u, res', hx, hexit⟩ := execute_ends hret
    rw [hx] at h
    cases h
    exact hexit

/-- **Ends of `Process`**: between registering and unregistering its tag a request ends in one of the
ways above; an invalid one is refused. -/
theorem process_exit {r : TRequest} {resp : Option RResponse}
    (h : process env r s = some (t, resp)) :
    ∃ u res, Exit env (s.register r.tag) r.msg u res ∧
      (r.msg.valid ∨ u = s.register r.tag ∧ ∃ e, res = .error e) ∧
      t = u.unregister r.tag ∧ resp = respond r.tag res := by
  unfold process at h
  dsimp only at h
  split at h
  · contradiction
  next u res hu =>
    cases h
    split at hu
    next hvalid => exact ⟨u, res, execute_exit hu, .inl hvalid, rfl, rfl⟩
    next hvalid =>
      cases hu
      exact ⟨_, _, .refused (.inl (by simpa using hvalid)), .inr ⟨rfl, _, rfl⟩, rfl, rfl⟩

/-- A response that is no error comes from a request that succeeded. -/
theorem ok_of_respond {res : Except String (Option RBody)} {tag tag' : UInt16} {b : RBody}
    (hb : ∀ e, b ≠ .error e) (h : some ⟨tag', b⟩ = respond tag res) : res = .ok (some b) := by
  rcases res with e | _ | c
  · obtain ⟨-, rfl⟩ : tag' = tag ∧ b = .error e := by simpa [respond] using h
    exact absurd rfl (hb e)
  · simp [respond] at h
  · obtain ⟨-, rfl⟩ : tag' = tag ∧ b = c := by simpa [respond] using h
    rfl

/-! ## effects of requests -/

/-- The object a walk from `base` through `ps` ends at. -/
def walkEnd (base : Ptr) (ps : List Ptr) : Ptr := ps.getLast?.getD base

theorem getLast?_getD_cons (base : Ptr) (ps : List Ptr) :
    (base :: ps).getLast?.getD base = walkEnd base ps := by
  cases ps with
  | nil => rfl
  | cons p ps => simp [walkEnd, List.getLast?_cons]

/-- The object that loses a fid if the request is executed: it does for every
clunk, and for a remove, a create or a walk onto the same fid that gets as far. -/
def unbinds (env : Env) (s : Dev) : TMsg → Option Ptr
  | .clunk fid => s.getFid fid
  | .remove fid =>
    (s.getFid fid).filter fun p => (qidRemove env p (qidClose p s).1).2
  | .create fid name perm mode =>
    (s.getFid fid).filter fun p => (s.obj p).type = p9QTDIR &&
      match createChild env p name perm s with
      | (_, none) => false
      | (s, some child) => (qidOpen env child mode s).2
  | .walk fid newfid ws =>
    (s.getFid fid).filter fun p => fid = newfid && (s.obj p).type = p9QTDIR &&
      (walkNames env ws p [p] s).2.isSome
  | _ => none

/-- `Effect env s m t ps`: executing `m` in `s` may lead to `t`, and the response
then holds the pointers `ps` (none, unless it is an `RWalk`). -/
inductive Effect (env : Env) (s : Dev) : TMsg → Dev → List Ptr → Prop
  | quiet {m t} (h : Quiet s t) : Effect env s m t []
  /-- An attach whose fid is taken deletes the object it has just made. -/
  | drop {m u p} (h : Quiet s u) (hp : Fresh s u p) : Effect env s m (u.delete p) []
  | attach {fid afid uname aname t u p} (h : Quiet s u) (hp : Fresh s u p)
      (hb : u.bindFid fid p = some t) : Effect env s (.attach fid afid uname aname) t []
  | walk {fid newfid ws base ps t u} (hfid : s.getFid fid = some base)
      (hdir : (s.obj base).type = p9QTDIR) (h : Quiet s u) (hlen : ps.length = ws.length)
      (hnd : ps.Nodup) (hps : ∀ p ∈ ps, Fresh s u p) (hne : fid ≠ newfid)
      (hb : u.bindFid newfid (walkEnd base ps) = some t) :
      Effect env s (.walk fid newfid ws) t (base :: ps)
  | walkSelf {fid ws base ps t u v} (hfid : s.getFid fid = some base)
      (hdir : (s.obj base).type = p9QTDIR) (h : Quiet s u) (hlen : ps.length = ws.length)
      (hnd : ps.Nodup) (hps : ∀ p ∈ ps, Fresh s u p)
      (hub : unbinds env s (.walk fid fid ws) = some base) (hr : u.removeFid fid = some v)
      (hb : v.bindFid fid (walkEnd base ps) = some t) :
      Effect env s (.walk fid fid ws) t (base :: ps)
  | create {fid name perm mode base t u v p} (h : Quiet s u) (hp : Fresh s u p)
      (hub : unbinds env s (.create fid name perm mode) = some base)
      (hr : u.removeFid fid = some v) (hb : v.bindFid fid p = some t) :
      Effect env s (.create fid name perm mode) t []
  | clunk {fid base t u} (h : Quiet s u) (hub : unbinds env s (.clunk fid) = some base)
      (hr : u.removeFid fid = some t) : Effect env s (.clunk fid) t []
  | remove {fid base t u} (h : Quiet s u) (hub : unbinds env s (.remove fid) = some base)
      (hr : u.removeFid fid = some t) : Effect env s (.remove fid) t []

theorem Exit.effect {m : TMsg} {res : Except String (Option RBody)} (h : Exit env s m t res) :
    Effect env s m t (pointers res) := by
  cases h with
  | refused => exact .quiet (.refl s)
  | answered _ _ hnone =>
    rw [hnone]
    exact .quiet (.refl s)
  | silent => exact .quiet (.refl s)
  | claimed _ ha hb =>
    have hc : Constructs s (attach env s) := newQidObject_constructs _ _ _ _
    rw [ha] at hc
    exact .drop hc.1 (hc.2 _ rfl)
  | attached _ ha hb =>
    have hc : Constructs s (attach env s) := newQidObject_constructs _ _ _ _
    rw [ha] at hc
    exact .attach hc.1 (hc.2 _ rfl) hb
  | @lost fid newfid ws base t e hfid hdir hw =>
    exact .quiet (of_result hw (walkNames_quiet env ws base [base] s).1)
  | @occupied fid newfid ws base qids t e hfid hdir hw hne hb =>
    exact .quiet (of_result hw (walkNames_quiet env ws base [base] s).1)
  | @walked fid newfid ws base qids u t hfid hdir hw hne hb =>
    have hq := walkNames_quiet env ws base [base] s
    rw [hw] at hq
    obtain ⟨ps, rfl, hlen, hnd, hps⟩ := hq.2 qids rfl
    rw [List.singleton_append, getLast?_getD_cons] at hb
    exact .walk hfid hdir hq.1 hlen hnd hps hne hb
  | @rewalked fid ws base qids u v t hfid hdir hw hr hb =>
    have hq := walkNames_quiet env ws base [base] s
    rw [hw] at hq
    obtain ⟨ps, rfl, hlen, hnd, hps⟩ := hq.2 qids rfl
    rw [List.singleton_append, getLast?_getD_cons] at hb
    have hub : unbinds env s (.walk fid fid ws) = some base := by simp [unbinds, hfid, hdir, hw]
    exact .walkSelf hfid hdir hq.1 hlen hnd hps hub hr hb
  | @notOpened fid mode p t e hfid hfile ho =>
    exact .quiet (of_result ho (qidOpen_quiet env p mode s))
  | @opened fid mode p t hfid hfile ho =>
    exact .quiet (of_result ho (qidOpen_quiet env p mode s))
  | @notCreated fid name perm mode base t e hfid hdir hc =>
    exact .quiet (of_result hc (createChild_constructs env base name perm s).1)
  | @createdNotOpened fid name perm mode base child u t e hfid hdir hc ho =>
    have hq := of_result hc (createChild_constructs env base name perm s).1
    exact .quiet (hq.trans (of_result ho (qidOpen_quiet env child mode u)))
  | @created fid name perm mode base child u v w t hfid hdir hc ho hr hb =>
    have hq := createChild_constructs env base name perm s
    have hq' := of_result ho (qidOpen_quiet env child mode u)
    rw [hc] at hq
    have hub : unbinds env s (.create fid name perm mode) = some base := by
      simp [unbinds, hfid, hdir, hc, ho]
    exact .create (hq.1.trans hq') ((hq.2 child rfl).of_quiet hq') hub hr hb
  | @notRead fid offset count p t e hfid hfile ho hcount hr =>
    exact .quiet (of_result hr (qidRead_quiet env p offset count s))
  | @read fid offset count p t bs hfid hfile ho hcount hr =>
    exact .quiet (of_result hr (qidRead_quiet env p offset count s))
  | @notWritten fid offset data p t e hfid hfile ho hw =>
    exact .quiet (of_result hw (qidWrite_quiet env p offset data s))
  | @written fid offset data p t n hfid hfile ho hw hn =>
    exact .quiet (of_result hw (qidWrite_quiet env p offset data s))
  | @clunkedClosed fid p u t e hfid hc hr =>
    exact .clunk (of_result hc (qidClose_quiet p s)) hfid hr
  | @clunked fid p u t hfid hc hr =>
    exact .clunk (of_result hc (qidClose_quiet p s)) hfid hr
  | @notRemoved fid p t e hfid hx =>
    exact .quiet ((qidClose_quiet p s).trans (of_result hx (qidRemove_quiet env p _)))
  | @removed fid p u t hfid hx hr =>
    have hq := (qidClose_quiet p s).trans (of_result hx (qidRemove_quiet env p _))
    have hub : unbinds env s (.remove fid) = some p := by simp [unbinds, hfid, hx]
    exact .remove hq hub hr
  | @notExamined fid p t e hfid hs =>
    exact .quiet (of_result hs (qidStat_quiet env p s))
  | @examined fid p t st hfid hs =>
    exact .quiet (of_result hs (qidStat_quiet env p s))

/-- The pointers held by a response. -/
def RResponse.pointers : Option RResponse → List Ptr
  | some ⟨_, .walk qids⟩ => qids
  | _ => []

/-- **Effects of `Process`**: between registering and unregistering its tag a
request has one of the effects above. -/
theorem process_effect {r : TRequest} {resp : Option RResponse}
    (h : process env r s = some (t, resp)) :
    ∃ u, Effect env (s.register r.tag) r.msg u (RResponse.pointers resp) ∧
      t = u.unregister r.tag := by
  obtain ⟨u, res, hexit, -, rfl, rfl⟩ := process_exit h
  refine ⟨u, ?_, rfl⟩
  have he := hexit.effect
  rcases res with e | _ | b
  · exact he
  · exact he
  · cases b <;> exact he

end Dev

end Ooows.P9
