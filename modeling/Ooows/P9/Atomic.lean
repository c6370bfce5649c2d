import Ooows.P9.Answer

/-!
# Ooows.P9.Atomic

What a request that ends in `RError` leaves behind.

`Keeps s t` is what such a request should do: the fids are bound as before, their
objects are open as before and in the same mode, and the host's files are the same.
Every error exit of every request keeps that, but two:

* `TRemove` closes the object before it unlinks the file, and does not open it again
  when that fails;
* `TCreate` does not remove the entry it has made when that cannot be found again or
  cannot be opened.

`failsAtomically_iff_failsSafely` says exactly when.
-/

namespace Ooows.P9

open Lib Lib.Path

namespace Dev

variable {env : Env} {s t u : Dev} {p : Ptr} {m : TMsg}

/-- **Nothing has changed** between `s` and `t`, as far as a failed request is concerned. -/
structure Keeps (s t : Dev) : Prop where
  fids : ∀ fid, t.getFid fid = s.getFid fid
  opened : ∀ fid p, s.getFid fid = some p → (t.obj p).opened = (s.obj p).opened
  mode : ∀ fid p, s.getFid fid = some p → (t.obj p).mode = (s.obj p).mode
  node : t.host.node = s.host.node
  data : t.host.data = s.host.data

/-! ## error exits that change nothing -/

/-- The same with what the next step needs: the objects that were there are as before. -/
structure Still (s t : Dev) : Prop where
  fidMap : t.fidMap = s.fidMap
  next_le : s.next ≤ t.next
  obj : ∀ p < s.next, (t.obj p).opened = (s.obj p).opened ∧ (t.obj p).mode = (s.obj p).mode
  node : t.host.node = s.host.node
  data : t.host.data = s.host.data

theorem Still.refl (s : Dev) : Still s s :=
  ⟨rfl, Nat.le_refl _, fun _ _ => ⟨rfl, rfl⟩, rfl, rfl⟩

theorem Still.trans (h₁ : Still s t) (h₂ : Still t u) : Still s u where
  fidMap := h₂.fidMap.trans h₁.fidMap
  next_le := Nat.le_trans h₁.next_le h₂.next_le
  obj p hp := by
    have hold := h₁.obj p hp
    have hnew := h₂.obj p (Nat.lt_of_lt_of_le hp h₁.next_le)
    exact ⟨hnew.1.trans hold.1, hnew.2.trans hold.2⟩
  node := h₂.node.trans h₁.node
  data := h₂.data.trans h₁.data

/-- In a state whose bound objects all exist, still is what it should be. -/
theorem Still.keeps (h : Still s t) (hT : Table s) : Keeps s t where
  fids fid := by rw [getFid, getFid, h.fidMap]
  opened _ p hp := (h.obj p (hT.lt_of_getFid hp)).1
  mode _ p hp := (h.obj p (hT.lt_of_getFid hp)).2
  node := h.node
  data := h.data

theorem still_call (s : Dev) (c : Syscall) : Still s (s.call c) :=
  ⟨rfl, Nat.le_refl _, fun _ _ => ⟨rfl, rfl⟩, rfl, rfl⟩

theorem still_register (s : Dev) (tag : UInt16) : Still s (s.register tag) := by
  unfold register
  split
  · exact .refl s
  · exact ⟨rfl, Nat.le_refl _, fun _ _ => ⟨rfl, rfl⟩, rfl, rfl⟩

theorem still_unregister (s : Dev) (tag : UInt16) : Still s (s.unregister tag) :=
  ⟨rfl, Nat.le_refl _, fun _ _ => ⟨rfl, rfl⟩, rfl, rfl⟩

theorem still_delete (s : Dev) (p : Ptr) : Still s (s.delete p) :=
  ⟨rfl, Nat.le_refl _, fun _ _ => ⟨rfl, rfl⟩, rfl, rfl⟩

/-- Moving a file position changes no file. -/
theorem still_host (s : Dev) {h : Host} (hn : h.node = s.host.node) (hd : h.data = s.host.data) :
    Still s { s with host := h } :=
  ⟨rfl, Nat.le_refl _, fun _ _ => ⟨rfl, rfl⟩, hn, hd⟩

theorem still_setFd (s : Dev) (p : Ptr) (fd : Int) :
    Still s (s.setObj p fun o => { o with fd := fd }) where
  fidMap := rfl
  next_le := Nat.le_refl _
  obj q _ := by
    by_cases h : q = p
    · subst h
      simp [setObj]
    · simp [setObj, h]
  node := rfl
  data := rfl

theorem still_alloc (s : Dev) (o : QidObject) : Still s (s.alloc o) where
  fidMap := rfl
  next_le := Nat.le_succ _
  obj q hq := by simp [alloc, Nat.ne_of_lt hq]
  node := rfl
  data := rfl

theorem newQidObject_still (env : Env) (path root : Bytes) (s : Dev) :
    Still s (newQidObject env path root s).1 := by
  refine .trans (still_call s (.stat path)) ?_
  unfold newQidObject
  dsimp only
  split
  · exact .refl _
  · split
    · exact .refl _
    · exact still_alloc _ _

theorem traverse_still (env : Env) (p : Ptr) (name : Bytes) (s : Dev) :
    Still s (traverse env p name s).1 := by
  refine .trans (still_call s (.realpath (traversePath (s.obj p) name))) ?_
  unfold traverse
  dsimp only
  split
  · exact .refl _
  · split
    · exact .refl _
    · exact newQidObject_still _ _ _ _

theorem walkNames_still (env : Env) (ws : List Bytes) (next : Ptr) (qids : List Ptr) (s : Dev) :
    Still s (walkNames env ws next qids s).1 := by
  induction ws generalizing next qids s with
  | nil => exact .refl s
  | cons w ws ih =>
    have ht := traverse_still env next w s
    simp only [walkNames]
    cases hx : traverse env next w s with
    | mk u res =>
      rw [hx] at ht
      cases res with
      | none => exact ht
      | some p => exact ht.trans (ih p _ u)

/-- An `Open` that fails sets the descriptor at most. -/
theorem qidOpen_still (env : Env) (p : Ptr) (mode : UInt8) (s : Dev)
    (h : (qidOpen env p mode s).2 = false) : Still s (qidOpen env p mode s).1 := by
  unfold qidOpen at h ⊢
  dsimp only at h ⊢
  split at h
  · rw [if_pos ‹_›]
    exact .refl s
  rw [if_neg ‹_›]
  split at h
  · contradiction
  rw [if_neg ‹_›]
  cases hf : flagsOf mode with
  | none => exact .refl s
  | some flags =>
    rw [hf] at h
    dsimp only at h ⊢
    refine .trans (still_call s (.open (s.obj p).fspath flags)) ?_
    split at h
    · rw [if_pos ‹_›]
      exact still_setFd _ _ _
    · rw [if_neg ‹_›]
      split at h
      · exact still_setFd _ _ _
      · contradiction

theorem lseek_node {h h' : Host} {accepts : UInt64 → Bool} {fd : Int} {offset : UInt64}
    (hs : h.lseek accepts fd offset = some h') :
    h'.node = h.node ∧ h'.data = h.data := by
  unfold Host.lseek at hs
  split at hs
  · contradiction
  · split at hs
    · cases hs
      exact ⟨rfl, rfl⟩
    · contradiction

theorem read_node {h h' : Host} {fd : Int} {n : Nat} {bs : Bytes}
    (hr : h.read fd n = some (bs, h')) : h'.node = h.node ∧ h'.data = h.data := by
  unfold Host.read at hr
  split at hr
  · contradiction
  · split at hr
    · cases hr
      exact ⟨rfl, rfl⟩
    · contradiction

theorem qidRead_still (env : Env) (p : Ptr) (offset : UInt64) (count : UInt32) (s : Dev) :
    Still s (qidRead env p offset count s).1 := by
  unfold qidRead
  split
  · split
    · exact .refl s
    next h hs =>
      obtain ⟨hn, hd⟩ := lseek_node hs
      split
      · exact still_host s hn hd
      · split
        · exact still_host s hn hd
        next hr =>
          obtain ⟨hn', hd'⟩ := read_node hr
          exact still_host s (hn'.trans hn) (hd'.trans hd)
  · exact .refl s

/-- A write that reports nothing written has written nothing. -/
theorem write_nil {h h' : Host} {fd : Int} {bs : Bytes} {n : Nat} (hlen : bs.length < 2 ^ 32)
    (hw : h.write fd bs = some (n, h')) (hn : UInt32.ofNat n = 0) :
    h'.node = h.node ∧ h'.data = h.data := by
  unfold Host.write at hw
  split at hw
  · contradiction
  · split at hw
    · cases hw
      have hnil : bs = [] := by
        have hzero := congrArg UInt32.toNat hn
        rw [UInt32.toNat_ofNat', Nat.mod_eq_of_lt hlen] at hzero
        exact List.length_eq_zero_iff.1 hzero
      subst hnil
      refine ⟨rfl, ?_⟩
      funext j
      dsimp only [Host.splice, Host.setFile]
      split
      next hj => rw [hj]; rfl
      · rfl
    · contradiction

theorem qidWrite_still (env : Env) (p : Ptr) (offset : UInt64) {data : Bytes} (s : Dev)
    (hlen : data.length < 2 ^ 32) (h : (qidWrite env p offset data s).2 = 0) :
    Still s (qidWrite env p offset data s).1 := by
  have hseek : ((s.host.lseek env.accepts (s.obj p).fd offset).getD s.host).node = s.host.node ∧
      ((s.host.lseek env.accepts (s.obj p).fd offset).getD s.host).data = s.host.data := by
    cases hs : s.host.lseek env.accepts (s.obj p).fd offset with
    | none => exact ⟨rfl, rfl⟩
    | some h => exact lseek_node hs
  unfold qidWrite at h ⊢
  dsimp only at h ⊢
  split at h
  · rw [if_pos ‹_›]
    split at h
    · rw [if_pos ‹_›]
      exact still_host s hseek.1 hseek.2
    · rw [if_neg ‹_›]
      split at h
      · exact still_host s hseek.1 hseek.2
      next hw =>
        have htake : (data.take (env.written data.length)).length < 2 ^ 32 :=
          Nat.lt_of_le_of_lt (List.length_take_le' _ _) hlen
        obtain ⟨hn, hd⟩ := write_nil htake hw h
        exact still_host s (hn.trans hseek.1) (hd.trans hseek.2)
  · rw [if_neg ‹_›]
    exact .refl s

theorem qidStat_still (env : Env) (p : Ptr) (s : Dev) : Still s (qidStat env p s).1 := by
  unfold qidStat
  dsimp only
  split
  · exact still_call _ _
  · split <;> exact still_call _ _

/-- An `unlink` that fails changes nothing. -/
theorem qidRemove_still (env : Env) (p : Ptr) (s : Dev) (h : (qidRemove env p s).2 = false) :
    Still s (qidRemove env p s).1 := by
  unfold qidRemove at h ⊢
  dsimp only at h ⊢
  split at h
  · rw [if_pos ‹_›]
    exact still_call _ _
  · rw [if_neg ‹_›]
    split at h
    · exact still_call _ _
    · contradiction

/-! ## the condition -/

/-- The host's files once `CreateChild` has made its entry; `none` if it makes none. -/
def created (env : Env) (s : Dev) (base : Ptr) (name : Bytes) (perm : UInt32) : Option Host :=
  if env.refuse (createCall (s.obj base) name perm) then none
  else createEntry s.host (createCall (s.obj base) name perm)

/-- With the host's files as they are then, the new entry can be found, examined, and
opened in the mode that is asked for; a directory opens in any. -/
def usable (env : Env) (h : Host) (o : QidObject) (name : Bytes) (mode : UInt8) : Bool :=
  !env.refuse (.realpath (traversePath o name)) &&
    match h.realpath (traversePath o name) with
    | none => false
    | some path =>
      !env.refuse (.stat path) &&
        match h.stat path with
        | none => false
        | some n =>
          typeOf env n = p9QTDIR ||
            match flagsOf mode with
            | none => false
            | some flags => !env.refuse (.open path flags) && (h.openFile path flags).isSome

/-- The file behind an object can be unlinked. -/
def removable (env : Env) (s : Dev) (p : Ptr) : Bool :=
  !env.refuse (.unlink (s.obj p).fspath) && (s.host.unlink (s.obj p).fspath).isSome

/-- **The condition**: an object that is open is removed only if its file can be unlinked,
and an entry is made only if it can then be used. -/
def failsSafely (env : Env) (s : Dev) : TMsg → Bool
  | .remove fid =>
    match s.getFid fid with
    | none => true
    | some p => !(s.obj p).opened || removable env s p
  | .create fid name perm mode =>
    match s.getFid fid with
    | none => true
    | some base =>
      (s.obj base).type ≠ p9QTDIR || !legalName name ||
        match created env s base name perm with
        | none => true
        | some h => usable env h (s.obj base) name mode
  | _ => true

/-! ## create -/

/-- The entry that was made is found and opened. -/
def opensChild (env : Env) (base : Ptr) (name : Bytes) (mode : UInt8) (s : Dev) : Bool :=
  match traverse env base name s with
  | (_, none) => false
  | (u, some child) => (qidOpen env child mode u).2

/-- When `Open` succeeds. -/
theorem qidOpen_snd (env : Env) (p : Ptr) (mode : UInt8) (s : Dev) :
    (qidOpen env p mode s).2 =
      (!(s.obj p).opened && ((s.obj p).type = p9QTDIR ||
        match flagsOf mode with
        | none => false
        | some flags => !env.refuse (.open (s.obj p).fspath flags) &&
            (s.host.openFile (s.obj p).fspath flags).isSome)) := by
  unfold qidOpen
  cases hopened : (s.obj p).opened with
  | true => simp
  | false =>
    by_cases hdir : (s.obj p).type = p9QTDIR
    · simp [hdir]
    · cases hf : flagsOf mode with
      | none => simp [hdir]
      | some flags =>
        have hcall : (s.call (.open (s.obj p).fspath flags)).host.openFile
            ((s.call (.open (s.obj p).fspath flags)).obj p).fspath flags =
              s.host.openFile (s.obj p).fspath flags := rfl
        by_cases hr : env.refuse (.open (s.obj p).fspath flags)
        · simp [hdir, hr]
        · simp only [hdir, hr, hcall]
          cases s.host.openFile (s.obj p).fspath flags <;> simp

theorem opensChild_eq (env : Env) (base : Ptr) (name : Bytes) (mode : UInt8) (s : Dev) :
    opensChild env base name mode s = usable env s.host (s.obj base) name mode := by
  unfold opensChild traverse usable
  dsimp only
  have hhost : (s.call (.realpath (traversePath (s.obj base) name))).host = s.host := rfl
  rw [hhost]
  cases env.refuse (.realpath (traversePath (s.obj base) name)) with
  | true => rfl
  | false =>
    simp only [Bool.false_eq_true, if_false, Bool.not_false, Bool.true_and]
    cases s.host.realpath (traversePath (s.obj base) name) with
    | none => rfl
    | some path =>
      simp only [newQidObject]
      have hhost' : ((s.call (.realpath (traversePath (s.obj base) name))).call
          (.stat path)).host = s.host := rfl
      rw [hhost']
      cases env.refuse (.stat path) with
      | true => rfl
      | false =>
        simp only [Bool.false_eq_true, if_false, Bool.not_false, Bool.true_and]
        cases s.host.stat path with
        | none => rfl
        | some n =>
          dsimp only
          rw [qidOpen_snd]
          simp [alloc, newObject, call]

theorem createEntry_node_ne {h h' : Host} {c : Syscall} (hc : createEntry h c = some h') :
    h'.node ≠ h.node := by
  unfold createEntry at hc
  split at hc
  · exact Host.mkdir_node_ne hc
  next p _ =>
    cases hx : h.create p with
    | none => simp [hx] at hc
    | some x =>
      rw [hx, Option.map_some, Option.some.injEq] at hc
      have hclose : (x.2.close x.1).node = x.2.node := by
        unfold Host.close
        split <;> rfl
      rw [← hc, hclose]
      exact Host.create_node_ne hx
  · contradiction

/-- The device once the entry is made. -/
def withEntry (s : Dev) (base : Ptr) (name : Bytes) (perm : UInt32) (h : Host) : Dev :=
  { s.call (createCall (s.obj base) name perm) with host := h }

theorem createChild_eq (env : Env) (base : Ptr) (name : Bytes) (perm : UInt32) (s : Dev) :
    createChild env base name perm s =
      match created env s base name perm with
      | none => (s.call (createCall (s.obj base) name perm), none)
      | some h => traverse env base name (s.withEntry base name perm h) := by
  unfold createChild created
  dsimp only
  split
  · rfl
  · cases hc : createEntry s.host (createCall (s.obj base) name perm) with
    | none =>
      have hcall : createEntry (s.call (createCall (s.obj base) name perm)).host
          (createCall (s.obj base) name perm) = none := hc
      rw [hcall]
    | some h =>
      have hcall : createEntry (s.call (createCall (s.obj base) name perm)).host
          (createCall (s.obj base) name perm) = some h := hc
      rw [hcall]
      rfl

section create

variable {fid : UInt32} {base : Ptr} {name : Bytes} {perm : UInt32} {mode : UInt8} {h : Host}

/-- An entry that cannot be used stays. -/
theorem executeCreate_of_not_usable (hfid : s.getFid fid = some base)
    (hdir : (s.obj base).type = p9QTDIR) (hc : created env s base name perm = some h)
    (hu : usable env h (s.obj base) name mode = false) :
    ∃ t e, executeCreate env fid name perm mode s = some (t, .error e) ∧
      t.host.node = h.node := by
  have hopens : opensChild env base name mode (s.withEntry base name perm h) =
      usable env h (s.obj base) name mode := opensChild_eq _ _ _ _ _
  rw [← hopens] at hu
  simp only [executeCreate, hfid, hdir, createChild_eq, hc, ne_eq, not_true_eq_false, if_false]
  have hstill := traverse_still env base name (s.withEntry base name perm h)
  unfold opensChild at hu
  cases ht : traverse env base name (s.withEntry base name perm h) with
  | mk u res =>
    rw [ht] at hu hstill
    cases res with
    | none => exact ⟨_, _, rfl, hstill.node⟩
    | some child =>
      dsimp only at hu ⊢
      have hopen := qidOpen_still env child mode u hu
      cases ho : qidOpen env child mode u with
      | mk v ok =>
        rw [ho] at hu hopen
        cases hu
        exact ⟨_, _, rfl, hopen.node.trans hstill.node⟩

/-- An entry that can be used is found and opened. -/
theorem createChild_of_usable (hc : created env s base name perm = some h)
    (hu : usable env h (s.obj base) name mode) :
    ∃ u child v, createChild env base name perm s = (u, some child) ∧
      qidOpen env child mode u = (v, true) := by
  have hopens : opensChild env base name mode (s.withEntry base name perm h) =
      usable env h (s.obj base) name mode := opensChild_eq _ _ _ _ _
  rw [← hopens, opensChild] at hu
  simp only [createChild_eq, hc]
  rcases ht : traverse env base name (s.withEntry base name perm h) with ⟨u, _ | child⟩
  · simp [ht] at hu
  · rw [ht] at hu
    exact ⟨u, child, (qidOpen env child mode u).1, rfl, Prod.ext rfl hu⟩

end create

/-! ## remove -/

theorem qidRemove_snd (env : Env) (p : Ptr) (s : Dev) :
    (qidRemove env p s).2 = removable env s p := by
  unfold qidRemove removable
  dsimp only
  have hcall : (s.call (.unlink (s.obj p).fspath)).host = s.host := rfl
  have hobj : (s.call (.unlink (s.obj p).fspath)).obj = s.obj := rfl
  by_cases hr : env.refuse (.unlink (s.obj p).fspath)
  · simp [hr]
  · simp only [hr, hcall, hobj]
    cases s.host.unlink (s.obj p).fspath <;> simp

/-- Closing an object does not touch the host's files. -/
theorem qidClose_host (p : Ptr) (s : Dev) :
    (qidClose p s).1.host.node = s.host.node ∧ (qidClose p s).1.host.cwd = s.host.cwd ∧
      ((qidClose p s).1.obj p).fspath = (s.obj p).fspath := by
  have hclose : (s.host.close (s.obj p).fd).node = s.host.node ∧
      (s.host.close (s.obj p).fd).cwd = s.host.cwd := by
    unfold Host.close
    split <;> exact ⟨rfl, rfl⟩
  unfold qidClose
  split
  · exact ⟨hclose.1, hclose.2, by simp [setObj]⟩
  · exact ⟨rfl, rfl, rfl⟩

theorem removable_qidClose (env : Env) (p : Ptr) (s : Dev) :
    removable env (qidClose p s).1 p = removable env s p := by
  obtain ⟨hnode, hcwd, hpath⟩ := qidClose_host p s
  unfold removable
  rw [hpath, Host.unlink_isSome_congr hnode hcwd]

section remove

variable {fid : UInt32}

/-- An object that was closed stays closed when its file cannot be unlinked. -/
theorem executeRemove_of_not_removable (hfid : s.getFid fid = some p) (ho : (s.obj p).opened)
    (hr : removable env s p = false) :
    ∃ t e, executeRemove env fid s = some (t, .error e) ∧ (t.obj p).opened = false := by
  have hrm : (qidRemove env p (qidClose p s).1).2 = false := by
    rw [qidRemove_snd, removable_qidClose, hr]
  have hclosed : ((qidClose p s).1.obj p).opened = false := by simp [qidClose, ho, setObj]
  have hlt : ((qidRemove env p (qidClose p s).1).1.obj p).opened = false := by
    unfold qidRemove at hrm ⊢
    dsimp only at hrm ⊢
    split at hrm
    · rw [if_pos ‹_›]; exact hclosed
    · rw [if_neg ‹_›]
      split at hrm
      · exact hclosed
      · contradiction
  simp only [executeRemove, hfid, closeIfOpened_eq]
  cases hx : qidRemove env p (qidClose p s).1 with
  | mk u ok =>
    rw [hx] at hrm hlt
    cases hrm
    exact ⟨_, _, rfl, hlt⟩

/-- Otherwise a remove that fails changes nothing. -/
theorem qidRemove_closed_still (hsafe : (s.obj p).opened = true → removable env s p = true)
    (hx : qidRemove env p (qidClose p s).1 = (t, false)) : Still s t := by
  cases ho : (s.obj p).opened with
  | true =>
    have hrm := qidRemove_snd env p (qidClose p s).1
    rw [removable_qidClose, hsafe ho, hx] at hrm
    contradiction
  | false =>
    have hclose : (qidClose p s).1 = s := by simp [qidClose, ho]
    rw [hclose] at hx
    exact of_result hx (qidRemove_still env p s (by rw [hx]))

end remove

/-! ## all requests -/

/-- The count of a `TWrite` is a `uint32_t`, and its constructor reads that many bytes. -/
def Counted : TMsg → Prop
  | .write _ _ data => data.length < 2 ^ 32
  | _ => True

/-- **Error exits**: a request that meets the condition and fails changes nothing. -/
theorem Exit.still {e : String} (h : Exit env s m t (.error e)) (hvalid : m.valid)
    (hcount : Counted m) (hclunk : ∀ fid, m ≠ .clunk fid) (hsafe : failsSafely env s m) :
    Still s t := by
  cases h with
  | refused => exact .refl s
  | @claimed fid afid uname aname u p e _ ha hb =>
    have hnew : Still s (attach env s).1 := newQidObject_still _ _ _ _
    exact (of_result ha hnew).trans (still_delete u p)
  | lost hfid hdir hw => exact of_result hw (walkNames_still _ _ _ _ _)
  | occupied hfid hdir hw _ _ => exact of_result hw (walkNames_still _ _ _ _ _)
  | notOpened hfid hfile ho => exact of_result ho (qidOpen_still _ _ _ _ (by rw [ho]))
  | @notCreated fid name perm mode base t e hfid hdir hc =>
    cases hmade : Dev.created env s base name perm with
    | none =>
      rw [createChild_eq, hmade] at hc
      cases hc
      exact still_call _ _
    | some host =>
      have hname : legalName name = true := hvalid
      have hu : usable env host (s.obj base) name mode := by
        simpa [failsSafely, hfid, hdir, hname, hmade] using hsafe
      obtain ⟨u, child, v, hfound, -⟩ := createChild_of_usable hmade hu
      simp [hfound] at hc
  | @createdNotOpened fid name perm mode base child u t e hfid hdir hc ho =>
    cases hmade : Dev.created env s base name perm with
    | none => simp [createChild_eq, hmade] at hc
    | some host =>
      have hname : legalName name = true := hvalid
      have hu : usable env host (s.obj base) name mode := by
        simpa [failsSafely, hfid, hdir, hname, hmade] using hsafe
      obtain ⟨u, child, v, hfound, hopens⟩ := createChild_of_usable hmade hu
      rw [hfound] at hc
      cases hc
      simp [hopens] at ho
  | notRead hfid hfile ho hlen hr => exact of_result hr (qidRead_still _ _ _ _ _)
  | notWritten hfid hfile ho hw => exact of_result hw (qidWrite_still _ _ _ _ hcount (by rw [hw]))
  | clunkedClosed => exact absurd rfl (hclunk _)
  | notRemoved hfid hx =>
    refine qidRemove_closed_still (fun ho => ?_) hx
    simpa [failsSafely, hfid, ho] using hsafe
  | notExamined hfid hs => exact of_result hs (qidStat_still _ _ _)

/-- A request that does not meet the condition fails, and leaves something behind. -/
theorem execute_leaves (hnot : failsSafely env s m = false) :
    m.valid ∧ ∃ t e, execute env m s = some (t, .error e) ∧
      (t.host.node ≠ s.host.node ∨
        ∃ fid p, s.getFid fid = some p ∧ (t.obj p).opened ≠ (s.obj p).opened) := by
  cases m with
  | create fid name perm mode =>
    simp only [failsSafely] at hnot
    cases hfid : s.getFid fid with
    | none => simp [hfid] at hnot
    | some base =>
      cases hc : created env s base name perm with
      | none => simp [hfid, hc] at hnot
      | some h =>
        simp only [hfid, hc, Bool.or_eq_false_iff, Bool.not_eq_false', decide_eq_false_iff_not,
          not_not] at hnot
        obtain ⟨⟨hdir, hname⟩, hu⟩ := hnot
        obtain ⟨t, e, hx, hnode⟩ := executeCreate_of_not_usable hfid hdir hc hu
        refine ⟨hname, t, e, hx, .inl ?_⟩
        rw [hnode]
        exact createEntry_node_ne (Option.ite_none_left_eq_some.1 hc).2
  | remove fid =>
    simp only [failsSafely] at hnot
    cases hfid : s.getFid fid with
    | none => simp [hfid] at hnot
    | some p =>
      simp only [hfid, Bool.or_eq_false_iff, Bool.not_eq_false'] at hnot
      obtain ⟨t, e, hx, hclosed⟩ := executeRemove_of_not_removable hfid hnot.1 hnot.2
      refine ⟨rfl, t, e, hx, .inr ⟨fid, p, hfid, ?_⟩⟩
      rw [hclosed, hnot.1]
      decide
  | _ => simp [failsSafely] at hnot

/-- Registering a tag does not touch what the condition reads. -/
theorem failsSafely_register (env : Env) (s : Dev) (tag : UInt16) (m : TMsg) :
    failsSafely env (s.register tag) m = failsSafely env s m := by
  unfold register
  split
  · rfl
  · cases m <;> rfl

/-! ## the theorem -/

/-- **Atomic failure**: if the request ends in `RError`, nothing has changed. -/
def FailsAtomically (env : Env) (r : TRequest) (s : Dev) : Prop :=
  ∀ t tag e, process env r s = some (t, some ⟨tag, .error e⟩) → Keeps s t

/-- No T-message goes with `RError`. -/
theorem type_add_one_ne (m : TMsg) : m.type + 1 ≠ p9RERROR := by
  cases m <;> simp [TMsg.type, p9RERROR]

/-- Only the error exits end in `RError`. -/
theorem Exit.error_of_respond {tag tag' : UInt16} {e : String}
    {res : Except String (Option RBody)} (hx : Exit env s m t res)
    (h : some ⟨tag', .error e⟩ = respond tag res) : res = .error e := by
  rcases res with e' | _ | b
  · obtain ⟨-, rfl⟩ : tag' = tag ∧ e = e' := by simpa [respond] using h
    rfl
  · simp [respond] at h
  · obtain ⟨-, rfl⟩ : tag' = tag ∧ .error e = b := by simpa [respond] using h
    exact absurd hx.type_eq.symm (type_add_one_ne m)

/-- **Failed requests are atomic**: in every state that is reached without the walks that leave a
fid bound to a deleted object, for every other request but a clunk, exactly under the condition. -/
theorem failsAtomically_iff_failsSafely (host : Host) (authRequired : Bool)
    (sharename mountpoint : Bytes) {ls : List (Env × TRequest)} {s : Dev}
    (hs : Run SafeStep (init host authRequired sharename mountpoint) ls s)
    (env : Env) (r : TRequest) (hr : s.cloneSafe r.msg) (hcount : Counted r.msg)
    (hclunk : ∀ fid, r.msg ≠ .clunk fid) :
    (∀ t, s.step (env, r) = some t → s.FidsOk ∧ t.FidsOk) ∧
      (FailsAtomically env r s ↔ failsSafely env s r.msg) := by
  obtain ⟨hT, hok⟩ := fidsOk_of_run hs
  refine ⟨fun t ht => ⟨hok, (fidsOk_of_run (hs.tail ⟨hr, ht⟩)).2⟩, ?_⟩
  rw [← failsSafely_register env s r.tag]
  constructor
  · intro hatomic
    by_contra hnot
    obtain ⟨hvalid, t, e, hx, hleft⟩ := execute_leaves (Bool.not_eq_true _ ▸ hnot)
    have hkeeps := hatomic (t.unregister r.tag) r.tag e (by simp [process, hvalid, hx, respond])
    have hreg := still_register s r.tag
    rcases hleft with hnode | ⟨fid, p, hfid, hopened⟩
    · refine hnode ?_
      rw [hreg.node]
      exact hkeeps.node
    · have hfid' : s.getFid fid = some p := by rwa [getFid, hreg.fidMap] at hfid
      refine hopened ?_
      rw [(hreg.obj p (hT.lt_of_getFid hfid')).1]
      exact hkeeps.opened fid p hfid'
  · intro hsafe t tag e h
    obtain ⟨u, res, hexit, hv, rfl, hresp⟩ := process_exit h
    obtain rfl := hexit.error_of_respond hresp
    refine Still.keeps ?_ hT
    refine .trans (still_register s r.tag) (.trans ?_ (still_unregister u r.tag))
    rcases hv with hvalid | ⟨rfl, -⟩
    · exact hexit.still hvalid hcount hclunk hsafe
    · exact .refl _

/-- There a remove of the share's directory fails, and nothing has changed. -/
theorem remove_dir_failsAtomically :
    ∃ s, Run SafeStep (init (shareHost [ascii ['s']]) false (ascii ['s']) (render [ascii ['s']]))
        attached s ∧ FailsAtomically calmEnv ⟨0, .remove 1⟩ s := by
  have hrun : ∃ s, Run SafeStep
      (init (shareHost [ascii ['s']]) false (ascii ['s']) (render [ascii ['s']])) attached s ∧
        failsSafely calmEnv s (.remove 1) := ⟨_, .single ⟨rfl, rfl⟩, rfl⟩
  obtain ⟨s, hs, hsafe⟩ := hrun
  exact ⟨s, hs, (failsAtomically_iff_failsSafely _ _ _ _ hs calmEnv ⟨0, .remove 1⟩ rfl trivial
    fun _ => nofun).2.2 hsafe⟩

/-- There a create in a mode that `Open` does not know fails, and the file is there. -/
theorem create_bad_mode_leaves_file :
    ∃ s t, exec step (init (shareHost [ascii ['s']]) false (ascii ['s']) (render [ascii ['s']]))
        attached = some s ∧
      process calmEnv ⟨0, .create 1 (ascii ['a']) 0 3⟩ s =
        some (t, some ⟨0, .error "Failed to open"⟩) ∧
      s.host.node [ascii ['s'], ascii ['a']] = none ∧
      t.host.node [ascii ['s'], ascii ['a']] = some (.file 0) ∧
      ¬ FailsAtomically calmEnv ⟨0, .create 1 (ascii ['a']) 0 3⟩ s := by
  refine ⟨_, _, rfl, rfl, rfl, rfl, fun hatomic => ?_⟩
  have hnode := congrFun (hatomic _ 0 _ rfl).node [ascii ['s'], ascii ['a']]
  exact absurd hnode (by decide)

end Dev

end Ooows.P9
