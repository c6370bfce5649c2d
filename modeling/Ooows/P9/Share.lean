import Ooows.P9.Fids

/-!
# Ooows.P9.Share

Confinement of the 9P device to its share.

The invariant is about canonical paths: the object behind every pointer has a
path `render cs` whose plain components `cs` extend those of the mountpoint
(`InShare`), and every path given to the host resolves to the mountpoint or
below it (`Inside`).  `Traverse` keeps it because it never steps up from the
mountpoint.  `CreateChild` has no such check: for the name `..` at the
mountpoint it asks the host to create the mountpoint's parent, a call that
fails, but on a path outside the share.

* `createSafe` excludes exactly that request;
* `confined_iff_createSafe`: the share is left by no other;
* `Rooted.exec`: the objects never leave it, since the failing call makes none.
-/

namespace Ooows.P9

open Lib Lib.Path

variable {ms cs : List Bytes} {name path : Bytes}

/-- The path resolves to the directory with components `ms` or below it, from
whatever working directory. -/
def Inside (ms : List Bytes) (path : Bytes) : Prop :=
  ∃ cs, (∀ c ∈ cs, Plain c) ∧ ms <+: cs ∧ ∀ cwd, lexical cwd path = cs

/-- Entering a component stays below `ms`, unless it steps up from `ms` itself. -/
theorem prefix_enter (h : ms <+: cs) (hup : name = dotdot → cs = ms → ms = []) :
    ms <+: enter cs name := by
  unfold enter
  split
  · exact h
  · split
    next hdd =>
      obtain ⟨ds, rfl⟩ := h
      by_cases hds : ds = []
      · have hnil : ms = [] := hup hdd (by simp [hds])
        rw [hnil]
        exact List.nil_prefix
      · rw [List.dropLast_append_of_ne_nil hds]
        exact List.prefix_append _ _
    · exact h.trans (List.prefix_append _ _)

theorem inside_render (hcs : ∀ c ∈ cs, Plain c) (h : ms <+: cs) : Inside ms (render cs) :=
  ⟨cs, hcs, h, fun cwd => lexical_render cwd hcs⟩

/-- Legal names hold no slash. -/
theorem slash_not_mem_of_legalName (h : legalName name) : slash ∉ name := by
  intro hmem
  have hl := List.all_eq_true.1 h slash hmem
  revert hl
  decide

/-- An object of the share: its path is canonical and extends the mountpoint. -/
structure InShare (ms : List Bytes) (o : QidObject) : Prop where
  root : o.root = render ms
  fspath : ∃ cs, (∀ c ∈ cs, Plain c) ∧ ms <+: cs ∧ o.fspath = render cs

theorem InShare.inside {o : QidObject} (h : InShare ms o) : Inside ms o.fspath := by
  obtain ⟨cs, hcs, hpre, hpath⟩ := h.fspath
  rw [hpath]
  exact inside_render hcs hpre

/-- `m_fspath + "/" + name` stays in the share, unless it steps up from the root. -/
theorem InShare.inside_childPath {o : QidObject} (h : InShare ms o) (hn : slash ∉ name)
    (hup : name = dotdot → Dev.isRoot o → ms = []) : Inside ms (Dev.childPath o name) := by
  obtain ⟨cs, hcs, hpre, hpath⟩ := h.fspath
  refine ⟨enter cs name, plain_enter hcs hn, ?_, ?_⟩
  · refine prefix_enter hpre fun hdd heq => hup hdd ?_
    simp [Dev.isRoot, hpath, h.root, heq]
  · intro cwd
    rw [Dev.childPath, hpath, lexical_render_append cwd hcs hn]

/-- What `Traverse` gives to `realpath` always stays in the share. -/
theorem InShare.inside_traversePath {o : QidObject} (h : InShare ms o) (hn : slash ∉ name) :
    Inside ms (Dev.traversePath o name) := by
  unfold Dev.traversePath
  split
  · exact h.inside
  next hroot => exact h.inside_childPath hn fun hdd hr => absurd ⟨hr, hdd⟩ hroot

namespace Dev

variable {logged : Prop} {env : Env} {s t u : Dev} {p : Ptr}

/-- **The share invariant.**  The host calls are part of it only if `logged`. -/
structure Jailed (logged : Prop) (ms : List Bytes) (s : Dev) : Prop where
  mountpoint : s.mountpoint = render ms
  obj : ∀ p < s.next, InShare ms (s.obj p)
  log : logged → ∀ c ∈ s.log, Inside ms c.path

/-- The objects of the share, and nothing about the host calls so far. -/
abbrev Rooted (ms : List Bytes) (s : Dev) : Prop := Jailed False ms s

theorem Jailed.call (h : Jailed logged ms s) {c : Syscall} (hc : logged → Inside ms c.path) :
    Jailed logged ms (s.call c) where
  mountpoint := h.mountpoint
  obj := h.obj
  log hl d hd := by
    rcases List.mem_append.1 hd with hd | hd
    · exact h.log hl d hd
    · rw [List.mem_singleton.1 hd]
      exact hc hl

theorem Jailed.setHost (h : Jailed logged ms s) (host : Host) : Jailed logged ms { s with host := host } :=
  ⟨h.mountpoint, h.obj, h.log⟩

theorem Jailed.setObj (h : Jailed logged ms s) {f : QidObject → QidObject}
    (hp : ∀ o, (f o).fspath = o.fspath) (hr : ∀ o, (f o).root = o.root) :
    Jailed logged ms (s.setObj p f) where
  mountpoint := h.mountpoint
  log := h.log
  obj q hq := by
    have hin := h.obj q hq
    by_cases hqp : q = p
    · subst hqp
      simp only [Dev.setObj, Function.update_self]
      exact ⟨(hr _).trans hin.root, by rw [hp]; exact hin.fspath⟩
    · simpa only [Dev.setObj, Function.update_of_ne hqp] using hin

theorem Jailed.alloc (h : Jailed logged ms s) {o : QidObject} (ho : InShare ms o) :
    Jailed logged ms (s.alloc o) where
  mountpoint := h.mountpoint
  log := h.log
  obj q hq := by
    by_cases hqn : q = s.next
    · subst hqn
      simpa only [Dev.alloc, Function.update_self] using ho
    · simp only [Dev.alloc, Function.update_of_ne hqn]
      exact h.obj q (Nat.lt_of_le_of_ne (Nat.le_of_lt_succ hq) hqn)

/-! ## the methods of `QidObject` -/

theorem newQidObject_jailed (env : Env) (h : Jailed logged ms s) (hcs : ∀ c ∈ cs, Plain c) (hpre : ms <+: cs) :
    Jailed logged ms (newQidObject env (render cs) (render ms) s).1 := by
  have hcall := h.call (c := .stat (render cs)) fun _ => inside_render hcs hpre
  unfold newQidObject
  dsimp only
  split
  · exact hcall
  · split
    · exact hcall
    · exact hcall.alloc ⟨rfl, cs, hcs, hpre, rfl⟩

theorem traverse_jailed (env : Env) (h : Jailed logged ms s) (hp : p < s.next) (hn : slash ∉ name) :
    Jailed logged ms (traverse env p name s).1 := by
  have hin := (h.obj p hp).inside_traversePath hn
  have hcall := h.call (c := .realpath (traversePath (s.obj p) name)) fun _ => hin
  unfold traverse
  dsimp only
  split
  · exact hcall
  · split
    · exact hcall
    next resolved hres =>
      -- what comes back is the canonical string of a path in the share
      obtain ⟨cs, hcs, hpre, hlex⟩ := hin
      rw [Host.realpath_eq_render hres, hlex, (hcall.obj p hp).root]
      exact newQidObject_jailed env hcall hcs hpre

theorem path_createCall (o : QidObject) (child : Bytes) (perm : UInt32) :
    (createCall o child perm).path = childPath o child := by
  unfold createCall
  split <;> rfl

theorem createChild_jailed (env : Env) {perm : UInt32} (h : Jailed logged ms s) (hp : p < s.next)
    (hn : slash ∉ name) (hup : logged → name = dotdot → isRoot (s.obj p) → ms = []) :
    Jailed logged ms (createChild env p name perm s).1 := by
  have hcall := h.call (c := createCall (s.obj p) name perm) fun hl => by
    rw [path_createCall]
    exact (h.obj p hp).inside_childPath hn (hup hl)
  unfold createChild
  dsimp only
  split
  · exact hcall
  · split
    · exact hcall
    next host _ => exact traverse_jailed env (hcall.setHost host) hp hn

theorem qidOpen_jailed (env : Env) {mode : UInt8} (h : Jailed logged ms s) (hp : p < s.next) :
    Jailed logged ms (qidOpen env p mode s).1 := by
  unfold qidOpen
  dsimp only
  split
  · exact h
  · split
    · dsimp only
      refine h.setObj ?_ ?_ <;> exact fun _ => rfl
    · split
      · exact h
      next flags _ =>
        have hcall := h.call (c := .open (s.obj p).fspath flags) fun _ => (h.obj p hp).inside
        split
        · dsimp only
          refine hcall.setObj ?_ ?_ <;> exact fun _ => rfl
        · split
          · dsimp only
            refine hcall.setObj ?_ ?_ <;> exact fun _ => rfl
          next fd host _ =>
            dsimp only
            refine (hcall.setHost host).setObj ?_ ?_ <;> exact fun _ => rfl

theorem qidClose_jailed (h : Jailed logged ms s) : Jailed logged ms (qidClose p s).1 := by
  unfold qidClose
  split
  · dsimp only
    refine (h.setHost _).setObj ?_ ?_ <;> exact fun _ => rfl
  · exact h

theorem qidRead_jailed (env : Env) {offset : UInt64} {count : UInt32} (h : Jailed logged ms s) :
    Jailed logged ms (qidRead env p offset count s).1 := by
  unfold qidRead
  split
  · split
    · exact h
    · split
      · exact h.setHost _
      · split <;> exact h.setHost _
  · exact h

theorem qidWrite_jailed (env : Env) {offset : UInt64} {data : Bytes} (h : Jailed logged ms s) :
    Jailed logged ms (qidWrite env p offset data s).1 := by
  unfold qidWrite
  dsimp only
  split
  · split
    · exact h.setHost _
    · split <;> exact h.setHost _
  · exact h

theorem qidStat_jailed (env : Env) (h : Jailed logged ms s) (hp : p < s.next) :
    Jailed logged ms (qidStat env p s).1 := by
  have hcall := h.call (c := .stat (s.obj p).fspath) fun _ => (h.obj p hp).inside
  unfold qidStat
  dsimp only
  split
  · exact hcall
  · split <;> exact hcall

theorem qidRemove_jailed (env : Env) (h : Jailed logged ms s) (hp : p < s.next) :
    Jailed logged ms (qidRemove env p s).1 := by
  have hcall := h.call (c := .unlink (s.obj p).fspath) fun _ => (h.obj p hp).inside
  unfold qidRemove
  dsimp only
  split
  · exact hcall
  · split
    · exact hcall
    · exact hcall.setHost _

/-- The walk loop: every object on the way is one of the share. -/
theorem walkNames_jailed (env : Env) {ws : List Bytes} {qids : List Ptr}
    (h : Jailed logged ms s) (hp : p < s.next) (hws : ∀ w ∈ ws, slash ∉ w) : Jailed logged ms (walkNames env ws p qids s).1 := by
  induction ws generalizing p qids s with
  | nil => exact h
  | cons w ws ih =>
    have ht := traverse_jailed env h hp (hws w List.mem_cons_self)
    have hc := traverse_constructs env p w s
    simp only [walkNames]
    rcases hu : traverse env p w s with ⟨u, _ | q⟩
    · rw [hu] at ht
      exact ht
    · rw [hu] at ht hc
      exact ih ht (hc.2 q rfl).2 fun v hv => hws v (List.mem_cons_of_mem w hv)

/-! ## the fid table -/

theorem Jailed.delete (h : Jailed logged ms s) : Jailed logged ms (s.delete p) :=
  ⟨h.mountpoint, h.obj, h.log⟩

theorem Jailed.bindFid {fid : UInt32} (h : Jailed logged ms s) (hb : s.bindFid fid p = some t) :
    Jailed logged ms t := by
  unfold Dev.bindFid at hb
  split at hb
  · contradiction
  · cases hb
    have hi : Jailed logged ms (incRef p s) := h.setObj (fun _ => rfl) (fun _ => rfl)
    exact ⟨hi.mountpoint, hi.obj, hi.log⟩

theorem Jailed.removeFid {fid : UInt32} (h : Jailed logged ms s) (hr : s.removeFid fid = some t) :
    Jailed logged ms t := by
  unfold Dev.removeFid at hr
  split at hr
  · contradiction
  next q _ =>
    cases hr
    have hf : Jailed logged ms { s with fidMap := s.fidMap.filter fun b => b.1 ≠ fid } :=
      ⟨h.mountpoint, h.obj, h.log⟩
    unfold decRef
    dsimp only
    split
    · exact Jailed.delete (hf.setObj (fun _ => rfl) (fun _ => rfl))
    · exact hf.setObj (fun _ => rfl) (fun _ => rfl)

/-! ## requests -/

/-- Not a create of `..` in the share's root directory; only with `/` as the
mountpoint is there nothing above to reach. -/
def createSafe (s : Dev) : TMsg → Bool
  | .create fid name _ _ =>
    match s.getFid fid with
    | none => true
    | some base =>
      (s.obj base).type ≠ p9QTDIR || !isRoot (s.obj base) || name ≠ dotdot ||
        s.mountpoint = [slash]
  | _ => true

theorem createSafe_register (s : Dev) (tag : UInt16) (m : TMsg) :
    (s.register tag).createSafe m = s.createSafe m := by
  unfold register
  split <;> rfl

/-- A request that meets the condition does not step up from the root. -/
theorem Jailed.not_up {fid perm : UInt32} {mode : UInt8} (hms : ∀ c ∈ ms, Plain c)
    (h : Jailed logged ms s) (hfid : s.getFid fid = some p) (hdir : (s.obj p).type = p9QTDIR)
    (hsafe : s.createSafe (.create fid name perm mode)) (hdd : name = dotdot)
    (hroot : isRoot (s.obj p)) : ms = [] := by
  have hmount : s.mountpoint = [slash] := by
    simpa [createSafe, hfid, hdir, hdd, hroot] using hsafe
  rw [h.mountpoint] at hmount
  exact render_injective hms (fun c hc => absurd hc List.not_mem_nil) hmount

/-- The names of a valid walk are single components. -/
theorem slash_not_mem_of_valid {fid newfid : UInt32} {ws : List Bytes}
    (hv : (TMsg.walk fid newfid ws).valid) : ∀ w ∈ ws, slash ∉ w := fun w hw =>
  slash_not_mem_of_legalName (List.all_eq_true.1 hv w hw)

/-- **Step**: a valid request that meets the condition keeps the invariant. -/
theorem Exit.jailed {m : TMsg} {res : Except String (Option RBody)} (hms : ∀ c ∈ ms, Plain c)
    (h : Jailed logged ms s) (hT : Table s) (hv : m.valid) (hsafe : logged → s.createSafe m)
    (he : Exit env s m t res) : Jailed logged ms t := by
  have hattach : Jailed logged ms (attach env s).1 := by
    rw [attach, h.mountpoint]
    exact newQidObject_jailed env h hms (List.prefix_refl ms)
  cases he with
  | refused => exact h
  | answered => exact h
  | silent => exact h
  | claimed _ ha hb => exact (of_result ha hattach).delete
  | attached _ ha hb => exact (of_result ha hattach).bindFid hb
  | lost hfid hdir hw =>
    exact of_result hw (walkNames_jailed env h (hT.lt_of_getFid hfid) (slash_not_mem_of_valid hv))
  | occupied hfid hdir hw _ _ =>
    exact of_result hw (walkNames_jailed env h (hT.lt_of_getFid hfid) (slash_not_mem_of_valid hv))
  | walked hfid hdir hw hne hb =>
    have hj := of_result hw
      (walkNames_jailed env h (hT.lt_of_getFid hfid) (slash_not_mem_of_valid hv))
    exact hj.bindFid hb
  | rewalked hfid hdir hw hr hb =>
    have hj := of_result hw
      (walkNames_jailed env h (hT.lt_of_getFid hfid) (slash_not_mem_of_valid hv))
    exact (hj.removeFid hr).bindFid hb
  | notOpened hfid hfile ho => exact of_result ho (qidOpen_jailed env h (hT.lt_of_getFid hfid))
  | opened hfid hfile ho => exact of_result ho (qidOpen_jailed env h (hT.lt_of_getFid hfid))
  | notCreated hfid hdir hc =>
    exact of_result hc (createChild_jailed env h (hT.lt_of_getFid hfid)
      (slash_not_mem_of_legalName hv) fun hl => h.not_up hms hfid hdir (hsafe hl))
  | @createdNotOpened fid name perm mode base child u t e hfid hdir hc ho =>
    have hj := of_result hc (createChild_jailed env h (hT.lt_of_getFid hfid)
      (slash_not_mem_of_legalName hv) fun hl => h.not_up hms hfid hdir (hsafe hl))
    have hnew := createChild_constructs env base name perm s
    rw [hc] at hnew
    exact of_result ho (qidOpen_jailed env hj (hnew.2 child rfl).2)
  | @created fid name perm mode base child u v w t hfid hdir hc ho hr hb =>
    have hj := of_result hc (createChild_jailed env h (hT.lt_of_getFid hfid)
      (slash_not_mem_of_legalName hv) fun hl => h.not_up hms hfid hdir (hsafe hl))
    have hnew := createChild_constructs env base name perm s
    rw [hc] at hnew
    have hv := of_result ho (qidOpen_jailed env hj (hnew.2 child rfl).2)
    exact (hv.removeFid hr).bindFid hb
  | notRead hfid hfile ho hcount hr => exact of_result hr (qidRead_jailed env h)
  | read hfid hfile ho hcount hr => exact of_result hr (qidRead_jailed env h)
  | notWritten hfid hfile ho hw => exact of_result hw (qidWrite_jailed env h)
  | written hfid hfile ho hw hn => exact of_result hw (qidWrite_jailed env h)
  | clunkedClosed hfid hc hr => exact (of_result hc (qidClose_jailed h)).removeFid hr
  | clunked hfid hc hr => exact (of_result hc (qidClose_jailed h)).removeFid hr
  | @notRemoved fid p t e hfid hx =>
    have hp := Nat.lt_of_lt_of_le (hT.lt_of_getFid hfid) (qidClose_quiet p s).next_le
    exact of_result hx (qidRemove_jailed env (qidClose_jailed h) hp)
  | @removed fid p u t hfid hx hr =>
    have hp := Nat.lt_of_lt_of_le (hT.lt_of_getFid hfid) (qidClose_quiet p s).next_le
    exact (of_result hx (qidRemove_jailed env (qidClose_jailed h) hp)).removeFid hr
  | notExamined hfid hs => exact of_result hs (qidStat_jailed env h (hT.lt_of_getFid hfid))
  | examined hfid hs => exact of_result hs (qidStat_jailed env h (hT.lt_of_getFid hfid))

theorem Jailed.register (h : Jailed logged ms s) (tag : UInt16) : Jailed logged ms (s.register tag) := by
  unfold Dev.register
  split
  · exact h
  · exact ⟨h.mountpoint, h.obj, h.log⟩

theorem Jailed.step {l : Env × TRequest} (hms : ∀ c ∈ ms, Plain c) (h : Jailed logged ms s)
    (hT : Table s) (hsafe : logged → s.createSafe l.2.msg) (hst : s.step l = some t) :
    Jailed logged ms t := by
  obtain ⟨⟨t, resp⟩, hp, rfl⟩ := Option.map_eq_some_iff.1 hst
  have hr := h.register l.2.tag
  obtain ⟨u, res, hexit, hv, rfl, -⟩ := process_exit hp
  have hj : Jailed logged ms u := by
    rcases hv with hv | ⟨rfl, -⟩
    · refine hexit.jailed hms hr (hT.quiet (quiet_register s l.2.tag)) hv fun hl => ?_
      rw [createSafe_register]
      exact hsafe hl
    · exact hr
  exact ⟨hj.mountpoint, hj.obj, hj.log⟩

/-- **Every object is in the share**, in every state that `RequestLoop` reaches. -/
theorem Rooted.exec {host : Host} {authRequired : Bool} {sharename : Bytes}
    (hms : ∀ c ∈ ms, Plain c) {ls : List (Env × TRequest)}
    (h : Lib.exec Dev.step (init host authRequired sharename (render ms)) ls = some t) :
    Rooted ms t := by
  have hinit : Table (init host authRequired sharename (render ms)) ∧
      Rooted ms (init host authRequired sharename (render ms)) :=
    ⟨.init .., rfl, fun _ h => absurd h (Nat.not_lt_zero _), False.elim⟩
  exact (((run_iff_exec Dev.step).2 h).invariant (I := fun s => Table s ∧ Rooted ms s)
    (fun _ _ _ h hstep => ⟨h.1.step hstep, h.2.step hms h.1 False.elim hstep⟩) hinit).2

/-! ## confinement over runs -/

/-- **Confinement**: every object ever created has the mountpoint's path or one
strictly below it, and every path given to `open`, `mkdir`, `unlink` or `stat`
resolves to the mountpoint or below it. -/
def Confined (s : Dev) : Prop :=
  (∀ p < s.next, ∃ ds, (∀ d ∈ ds, Plain d) ∧
      (s.obj p).fspath = render (lexical s.host.cwd s.mountpoint ++ ds)) ∧
    ∀ c ∈ s.log, (∀ path, c ≠ .realpath path) →
      lexical s.host.cwd s.mountpoint <+: lexical s.host.cwd c.path

theorem Jailed.confined (hms : ∀ c ∈ ms, Plain c) (h : Jailed True ms s) : s.Confined := by
  have hmount : lexical s.host.cwd s.mountpoint = ms := by
    rw [h.mountpoint, lexical_render _ hms]
  unfold Confined
  rw [hmount]
  constructor
  · intro p hp
    obtain ⟨cs, hcs, ⟨ds, rfl⟩, hpath⟩ := (h.obj p hp).fspath
    exact ⟨ds, fun d hd => hcs d (List.mem_append_right ms hd), hpath⟩
  · intro c hc _
    obtain ⟨cs, -, hpre, hlex⟩ := h.log trivial c hc
    rw [hlex]
    exact hpre

/-- The host never makes an entry called `..`. -/
theorem createEntry_dotdot (h : Host) (o : QidObject) (perm : UInt32) :
    createEntry h (createCall o dotdot perm) = none := by
  have hcomp : components (childPath o dotdot) = components o.fspath ++ [dotdot] := by
    rw [childPath, components_append_slash, components_of_not_mem (c := dotdot) (by decide)]
  have hplain : ¬ Plain dotdot := by decide
  unfold createCall
  split
  · simp only [createEntry, Host.mkdir, hcomp]
    split
    · rfl
    · simp [Host.newEntry, hplain, show dotdot ≠ [] by decide]
  · simp only [createEntry, Host.create, hcomp]
    split
    · rfl
    · simp [Host.newEntry, hplain]

theorem createCall_ne_realpath (o : QidObject) (child : Bytes) (perm : UInt32) (path : Bytes) :
    createCall o child perm ≠ .realpath path := by
  unfold createCall
  split <;> exact Syscall.noConfusion

/-- **Converse step**: a request that does not meet the condition runs to its end
and gives the host a path outside the share. -/
theorem step_escapes {l : Env × TRequest} (hms : ∀ c ∈ ms, Plain c) (h : Jailed logged ms s)
    (hT : Table s) (hl : s.createSafe l.2.msg = false) :
    ∃ t, s.step l = some t ∧ ¬ t.Confined := by
  obtain ⟨env, tag, m⟩ := l
  rw [← createSafe_register s tag] at hl
  have hr := h.register tag
  have hTr := hT.quiet (quiet_register s tag)
  have hstep : ∀ u, execute env m (s.register tag) = some u → m.valid →
      s.step (env, ⟨tag, m⟩) = some (u.1.unregister tag) := by
    intro u hu hv
    simp [step, process, hu, hv]
  generalize s.register tag = r at *
  cases m with
  | create fid name perm mode =>
    cases hfid : r.getFid fid with
    | none => simp [createSafe, hfid] at hl
    | some base =>
      simp only [createSafe, hfid, Bool.or_eq_false_iff, decide_eq_false_iff_not, not_not,
        Bool.not_eq_false'] at hl
      obtain ⟨⟨⟨hdir, hroot⟩, rfl⟩, hmount⟩ := hl
      have hfails : createChild env base dotdot perm r =
          (r.call (createCall (r.obj base) dotdot perm), none) := by
        simp [createChild, createEntry_dotdot]
      have hex : execute env (.create fid dotdot perm mode) r =
          fail (r.call (createCall (r.obj base) dotdot perm)) "Failed to create" := by
        simp [execute, executeCreate, hfid, hdir, hfails]
      have hvalid : (TMsg.create fid dotdot perm mode).valid := by
        show legalName dotdot
        decide
      refine ⟨_, hstep _ hex hvalid, fun hconf => ?_⟩
      -- the call just recorded resolves to the parent of the mountpoint
      have hlast := hconf.2 (createCall (r.obj base) dotdot perm)
        (List.mem_append_right _ (List.mem_singleton_self _)) (createCall_ne_realpath _ _ _)
      have hin := hr.obj base (hTr.lt_of_getFid hfid)
      have hpath : (r.obj base).fspath = render ms := by
        have heq : (r.obj base).fspath = (r.obj base).root := by simpa [isRoot] using hroot
        rw [heq, hin.root]
      have hne : ms ≠ [] := by
        rintro rfl
        exact hmount hr.mountpoint
      change lexical r.host.cwd r.mountpoint <+: lexical r.host.cwd _ at hlast
      rw [path_createCall, childPath, hpath, hr.mountpoint, lexical_render _ hms,
        lexical_render_append _ hms (by decide), enter_dotdot] at hlast
      have hlen := hlast.length_le
      rw [List.length_dropLast] at hlen
      have hpos := List.length_pos_iff.2 hne
      omega
  | _ => contradiction

/-- A path that `realpath` returns unchanged is the string of plain components. -/
theorem canonical_of_realpath {h : Host} {mount : Bytes} (hm : h.realpath mount = some mount) :
    ∃ ms, (∀ c ∈ ms, Plain c) ∧ mount = render ms := by
  have heq := Host.realpath_eq_render hm
  have hhead : mount.head? = some slash := by
    rw [heq]
    exact head?_render _
  have hcwd : lexical h.cwd mount = lexical [] mount := by simp [lexical, start, hhead]
  refine ⟨lexical [] mount, plain_lexical fun c hc => absurd hc List.not_mem_nil, ?_⟩
  rwa [hcwd] at heq

/-- **Share confinement**: with a canonical mountpoint, for every sequence of
requests, the device is confined to the share in every state it reaches if and
only if no request on the way creates `..` in the share's root. -/
theorem confined_iff_createSafe (host : Host) (authRequired : Bool) (sharename mountpoint : Bytes)
    (hmount : host.realpath mountpoint = some mountpoint) (ls : List (Env × TRequest)) :
    (∀ pre t, pre <+: ls →
        exec step (init host authRequired sharename mountpoint) pre = some t → t.Confined) ↔
      ∀ pre l s, pre ++ [l] <+: ls →
        exec step (init host authRequired sharename mountpoint) pre = some s →
        s.createSafe l.2.msg := by
  obtain ⟨ms, hms, rfl⟩ := canonical_of_realpath hmount
  have hT : ∀ {pre t}, exec step (init host authRequired sharename (render ms)) pre = some t →
      Table t := fun h => (Table.init ..).exec h
  -- the invariant, as long as every step so far met the condition
  have hJ : ∀ pre, (∀ qre l s, qre ++ [l] <+: pre →
        exec step (init host authRequired sharename (render ms)) qre = some s →
        s.createSafe l.2.msg) →
      ∀ t, exec step (init host authRequired sharename (render ms)) pre = some t →
        Jailed True ms t := by
    intro pre
    induction pre using List.reverseRecOn with
    | nil =>
      intro _ t ht
      cases ht
      exact ⟨rfl, fun _ h => absurd h (Nat.not_lt_zero _),
        fun _ _ h => absurd h List.not_mem_nil⟩
    | append_singleton pre l ih =>
      intro hsafe t ht
      rw [exec_concat] at ht
      obtain ⟨s, hs, hst⟩ := Option.bind_eq_some_iff.1 ht
      have hj := ih (fun qre k u hq => hsafe qre k u (hq.trans (List.prefix_append pre [l]))) s hs
      exact hj.step hms (hT hs) (fun _ => hsafe pre l s (List.prefix_refl _) hs) hst
  constructor
  · intro h pre
    -- by induction on the length of the prefix: the first bad request would show
    induction hn : pre.length using Nat.strongRecOn generalizing pre with
    | _ n ih =>
      intro l s hpre hs
      by_contra hl
      have hbefore : ∀ qre k u, qre ++ [k] <+: pre →
          exec step (init host authRequired sharename (render ms)) qre = some u →
          u.createSafe k.2.msg := by
        intro qre k u hq hu
        have hlen := hq.length_le
        rw [List.length_append, List.length_singleton] at hlen
        exact ih qre.length (by omega) qre rfl k u
          (hq.trans ((List.prefix_append pre [l]).trans hpre)) hu
      obtain ⟨t, hst, ht⟩ :=
        step_escapes hms (hJ pre hbefore s hs) (hT hs) (by simpa using hl)
      refine ht (h (pre ++ [l]) t hpre ?_)
      rw [exec_concat, hs]
      exact hst
  · intro h pre t hpre ht
    exact (hJ pre (fun qre l s hq => h qre l s (hq.trans hpre)) t ht).confined hms

/-- The equivalence at a share `/s`, for an attach to it and a walk of `..`. -/
theorem confined_of_attach_walk :
    (shareHost [ascii ['s']]).realpath (render [ascii ['s']]) = some (render [ascii ['s']]) ∧
      ((∀ pre t, pre <+: [(calmEnv, ⟨0, .attach 1 0xffffffff [] (ascii ['s'])⟩),
            (calmEnv, ⟨0, .walk 1 2 [dotdot]⟩)] →
          exec step (init (shareHost [ascii ['s']]) false (ascii ['s']) (render [ascii ['s']])) pre =
            some t → t.Confined) ↔
        ∀ pre l s, pre ++ [l] <+: [(calmEnv, ⟨0, .attach 1 0xffffffff [] (ascii ['s'])⟩),
            (calmEnv, ⟨0, .walk 1 2 [dotdot]⟩)] →
          exec step (init (shareHost [ascii ['s']]) false (ascii ['s']) (render [ascii ['s']])) pre =
            some s → s.createSafe l.2.msg) :=
  ⟨by decide, confined_iff_createSafe _ _ _ _ (by decide) _⟩

/-- Attach to the share `/s` and create the directory `..` there: the device
calls `mkdir` on `/s/..`. -/
theorem create_dotdot_leaves_share :
    ∃ t, exec step (init (shareHost [ascii ['s']]) false (ascii ['s']) (render [ascii ['s']]))
        [(calmEnv, ⟨0, .attach 1 0xffffffff [] (ascii ['s'])⟩),
          (calmEnv, ⟨0, .create 1 dotdot 0x800001ff 0⟩)] = some t ∧ ¬ t.Confined := by
  refine ⟨_, rfl, fun h => ?_⟩
  have hout := h.2 (.mkdir (render [ascii ['s']] ++ slash :: dotdot) 0o777) (by decide)
    (fun _ => Syscall.noConfusion)
  revert hout
  decide

end Dev

end Ooows.P9
