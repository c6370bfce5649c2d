import Ooows.P9.Answer
import Ooows.P9.Response
import Ooows.P9.Share

/-!
# Ooows.P9.Walk

What a walk finds.

`Traverse` appends the name to the object's path and gives the whole string to `realpath`.
For an object of a share with a canonical mountpoint that is the same as one step in the
directory tree from the object's place (`Host.lookup`, `IsAt.traversePath`), where `..` in
the share's root stays there.  A walk is a chain of such steps (`places`), and
`WalkResolves` says what it should answer and do to the fid table.

`IsRoot` compares strings.  If the mountpoint is not canonical the root that `..` stays at
has another string, and the next `..` leaves the share (`walk_leaves_share`).  So a device's walks
resolve exactly if its mountpoint is canonical (`walk_resolves`).
-/

namespace Ooows.P9

open Lib Lib.Path

variable {h : Host} {ms cs ds acc : List Bytes} {name : Bytes}

/-! ## one step in the tree -/

namespace Host

/-- The entry with these components is there. -/
def There (h : Host) (cs : List Bytes) : Prop := h.walk [] cs = some cs

instance (h : Host) (cs : List Bytes) : Decidable (h.There cs) :=
  inferInstanceAs (Decidable (h.walk [] cs = some cs))

/-- The place that `name` leads to from the place `cs` of a share at `ms`. -/
def lookup (h : Host) (ms cs : List Bytes) (name : Bytes) : Option (List Bytes) :=
  if ¬ h.There cs then none
  else if name = dotdot ∧ cs = ms then some cs
  else if h.entry cs ≠ some .dir then none
  else if name = [] ∨ name = dot then some cs
  else if name = dotdot then some cs.dropLast
  else if (h.entry (cs ++ [name])).isSome then some (cs ++ [name])
  else none

/-- A canonical path is resolved component by component. -/
theorem resolve_render (hcs : ∀ c ∈ cs, Plain c) : h.resolve (render cs) = h.walk [] cs := by
  have hne : render cs ≠ [] := by
    intro hnil
    have hhead := head?_render cs
    rw [hnil] at hhead
    contradiction
  rw [resolve, if_neg hne, start, if_pos (head?_render cs), components_render hcs]
  split
  next hnil =>
    rw [hnil]
    rfl
  next => rw [walk, if_pos (.inl rfl)]

theorem resolve_render_append (hcs : ∀ c ∈ cs, Plain c) (hn : slash ∉ name) :
    h.resolve (render cs ++ slash :: name) = h.walk [] (cs ++ [name]) := by
  have hhead : (render cs ++ slash :: name).head? = some slash := by
    rw [List.head?_append, head?_render]
    rfl
  rw [resolve, if_neg (by simp), start, if_pos hhead, components_append_slash,
    components_of_not_mem hn, components_render hcs]
  split
  next hnil =>
    rw [hnil]
    rfl
  next => rw [List.cons_append, walk, if_pos (.inl rfl)]

/-- A walk of plain components ends where they say. -/
theorem there_of_walk (hcs : ∀ c ∈ cs, Plain c) (hw : h.walk [] cs = some ds) : ds = cs := by
  rw [← foldl_enter_of_walk hw, foldl_enter_plain hcs, List.nil_append]

/-- A walk goes on only from a directory. -/
theorem walk_append_eq_none (hacc : h.entry acc = some .dir) (hcs : ∀ c ∈ cs, Plain c)
    (hds : ds ≠ []) (hnot : ∀ d, h.walk acc cs = some d → h.entry d ≠ some .dir) :
    h.walk acc (cs ++ ds) = none := by
  induction cs generalizing acc with
  | nil => exact absurd hacc (hnot acc rfl)
  | cons c cs ih =>
    obtain ⟨hne, hdot, hdd, -⟩ := hcs c List.mem_cons_self
    have hskip : ¬ (c = [] ∨ c = dot) := by simp [hne, hdot]
    rw [List.cons_append, walk, if_neg hskip, if_neg hdd]
    rw [walk, if_neg hskip, if_neg hdd] at hnot
    cases hnode : h.node (acc ++ [c]) with
    | none => rfl
    | some n =>
      rw [hnode] at hnot
      cases n with
      | dir =>
        refine ih ?_ (fun d hd => hcs d (List.mem_cons_of_mem c hd)) hnot
        rw [entry, if_neg (by simp), hnode]
      | file i => exact if_neg (by simp [hds])
      | special => exact if_neg (by simp [hds])

/-- The place before a place that is there is a directory. -/
theorem there_of_there_append (hcs : ∀ c ∈ cs, Plain c) (hds : ds ≠ [])
    (hw : h.walk [] (cs ++ ds) ≠ none) : h.There cs ∧ h.entry cs = some .dir := by
  by_contra hnot
  refine hw (walk_append_eq_none rfl hcs hds fun d hd hdir => hnot ?_)
  obtain rfl := there_of_walk hcs hd
  exact ⟨hd, hdir⟩

theorem walk_singleton (hplain : Plain name) :
    h.walk cs [name] = if (h.entry (cs ++ [name])).isSome then some (cs ++ [name]) else none := by
  obtain ⟨hne, hdot, hdd, -⟩ := hplain
  have hentry : h.entry (cs ++ [name]) = h.node (cs ++ [name]) := if_neg (by simp)
  rw [walk, if_neg (by simp [hne, hdot]), if_neg hdd, hentry]
  cases h.node (cs ++ [name]) with
  | none => rfl
  | some n => cases n <;> rfl

theorem There.entry_isSome (hcs : ∀ c ∈ cs, Plain c) (hthere : h.There cs) :
    (h.entry cs).isSome := by
  induction cs using List.reverseRecOn with
  | nil => rfl
  | append_singleton cs c _ =>
    have hinit : ∀ d ∈ cs, Plain d := fun d hd => hcs d (List.mem_append_left _ hd)
    have hbefore := there_of_there_append hinit (List.cons_ne_nil c [])
      (by rw [hthere]; exact Option.some_ne_none _)
    have hstep : h.walk cs [c] = some (cs ++ [c]) := by
      rw [← walk_append hbefore.1 hbefore.2]
      exact hthere
    rw [walk_singleton (hcs c (by simp))] at hstep
    exact (Option.ite_none_right_eq_some.1 hstep).1

theorem There.dropLast (hcs : ∀ c ∈ cs, Plain c) (hthere : h.There cs) : h.There cs.dropLast := by
  by_cases hnil : cs = []
  · rw [hnil] at hthere ⊢
    exact hthere
  · have hsplit := List.dropLast_concat_getLast hnil
    have hinit : ∀ d ∈ cs.dropLast, Plain d := fun d hd => hcs d (List.dropLast_subset cs hd)
    have hne : h.walk [] (cs.dropLast ++ [cs.getLast hnil]) ≠ none := by
      rw [hsplit, hthere]
      exact Option.some_ne_none _
    exact (there_of_there_append hinit (List.cons_ne_nil _ _) hne).1

/-- One more component, from the place of an object. -/
theorem walk_concat_eq_lookup (hcs : ∀ c ∈ cs, Plain c) (hn : slash ∉ name)
    (hup : ¬ (name = dotdot ∧ cs = ms)) : h.walk [] (cs ++ [name]) = h.lookup ms cs name := by
  unfold lookup
  by_cases hthere : h.There cs
  · rw [if_neg (not_not.2 hthere), if_neg hup]
    by_cases hdir : h.entry cs = some .dir
    · rw [if_neg (not_not.2 hdir), walk_append hthere hdir]
      by_cases hskip : name = [] ∨ name = dot
      · rw [if_pos hskip, walk, if_pos hskip, walk]
      · rw [if_neg hskip]
        by_cases hdd : name = dotdot
        · rw [if_pos hdd, walk, if_neg hskip, if_pos hdd, walk]
        · rw [if_neg hdd]
          exact walk_singleton ⟨fun h => hskip (.inl h), fun h => hskip (.inr h), hdd, hn⟩
    · rw [if_pos hdir]
      refine walk_append_eq_none rfl hcs (List.cons_ne_nil _ _) fun d hd => ?_
      rw [there_of_walk hcs hd]
      exact hdir
  · rw [if_pos hthere]
    refine walk_append_eq_none rfl hcs (List.cons_ne_nil _ _) fun d hd => ?_
    rw [there_of_walk hcs hd] at hd
    exact absurd hd hthere

/-- What is found is there. -/
theorem there_of_lookup (hcs : ∀ c ∈ cs, Plain c) (hn : slash ∉ name)
    (hl : h.lookup ms cs name = some ds) : (∀ c ∈ ds, Plain c) ∧ h.There ds := by
  by_cases hup : name = dotdot ∧ cs = ms
  · by_cases hthere : h.There cs
    · rw [lookup, if_neg (not_not.2 hthere), if_pos hup] at hl
      obtain rfl := Option.some.inj hl
      exact ⟨hcs, hthere⟩
    · rw [lookup, if_pos hthere] at hl
      contradiction
  · have hwalk := (walk_concat_eq_lookup hcs hn hup).trans hl
    have hds : ds = enter cs name := by
      rw [← foldl_enter_of_walk hwalk, List.foldl_append, foldl_enter_plain hcs, List.nil_append]
      rfl
    have hplain : ∀ c ∈ ds, Plain c := hds ▸ plain_enter hcs hn
    have hthere : h.There cs :=
      (there_of_there_append hcs (List.cons_ne_nil name [])
        (by rw [hwalk]; exact Option.some_ne_none _)).1
    refine ⟨hplain, ?_⟩
    unfold enter at hds
    split at hds
    · rw [hds]
      exact hthere
    · split at hds
      · rw [hds]
        exact hthere.dropLast hcs
      · rw [hds] at hwalk ⊢
        exact hwalk

end Host

/-! ## the steps of a walk -/

/-- The object is the one at a place of the share. -/
structure IsAt (ms cs : List Bytes) (o : QidObject) : Prop where
  plain : ∀ c ∈ cs, Plain c
  root : o.root = render ms
  fspath : o.fspath = render cs

/-- The call by which `Traverse` asks for a name. -/
def lookupCall (ms cs : List Bytes) (name : Bytes) : Syscall :=
  .realpath (if name = dotdot ∧ cs = ms then render cs else render cs ++ slash :: name)

/-- **One step**: the place that a name leads to, if the host refuses neither to look it up nor
to say what it is. -/
def resolves (env : Env) (h : Host) (ms cs : List Bytes) (name : Bytes) : Option (List Bytes) :=
  if env.refuse (lookupCall ms cs name) then none
  else (h.lookup ms cs name).filter fun ds => !env.refuse (.stat (render ds))

/-- **A walk**: the places that the names lead to, each from the place before it. -/
def places (env : Env) (h : Host) (ms : List Bytes) : List Bytes → List Bytes → Option (List (List Bytes))
  | _, [] => some []
  | cs, w :: ws => (resolves env h ms cs w).bind fun ds => (places env h ms ds ws).map (ds :: ·)

/-- The path that `Traverse` gives to `realpath` is resolved by one step. -/
theorem IsAt.traversePath {o : QidObject} (ho : IsAt ms cs o) (hms : ∀ c ∈ ms, Plain c)
    (hn : slash ∉ name) :
    Syscall.realpath (Dev.traversePath o name) = lookupCall ms cs name ∧
      h.resolve (Dev.traversePath o name) = h.lookup ms cs name := by
  have hroot : Dev.isRoot o ∧ name = dotdot ↔ name = dotdot ∧ cs = ms := by
    rw [Dev.isRoot, ho.fspath, ho.root, decide_eq_true_eq, and_comm]
    exact and_congr_right fun _ => ⟨render_injective ho.plain hms, fun h => by rw [h]⟩
  unfold Dev.traversePath lookupCall
  by_cases hup : name = dotdot ∧ cs = ms
  · rw [if_pos (hroot.2 hup), if_pos hup, ho.fspath]
    refine ⟨rfl, ?_⟩
    rw [Host.resolve_render ho.plain, Host.lookup, if_pos hup]
    by_cases hthere : h.There cs
    · rw [if_neg (not_not.2 hthere)]
      exact hthere
    · rw [if_pos hthere]
      cases hw : h.walk [] cs with
      | none => rfl
      | some ds =>
        have hds := Host.there_of_walk ho.plain hw
        exact absurd (hds ▸ hw) hthere
  · rw [if_neg (mt hroot.1 hup), if_neg hup, Dev.childPath, ho.fspath]
    exact ⟨rfl, (Host.resolve_render_append ho.plain hn).trans
      (Host.walk_concat_eq_lookup ho.plain hn hup)⟩

namespace Dev

variable {env : Env} {s t u : Dev} {p : Ptr} {fid newfid : UInt32} {names : List Bytes}
  {dss : List (List Bytes)}

/-- The object that a step to a place constructs. -/
def MadeFor (env : Env) (ms : List Bytes) (t : Dev) (p : Ptr) (ds : List Bytes) : Prop :=
  ∃ n, t.host.entry ds = some n ∧ t.obj p = newObject env (render ds) (render ms) n

/-- Objects were constructed and nothing else happened. -/
structure Adds (s t : Dev) : Prop where
  host : t.host = s.host
  fidMap : t.fidMap = s.fidMap
  next_le : s.next ≤ t.next
  obj : ∀ p < s.next, t.obj p = s.obj p

theorem Adds.refl (s : Dev) : Adds s s := ⟨rfl, rfl, Nat.le_refl _, fun _ _ => rfl⟩

theorem Adds.trans (h₁ : Adds s t) (h₂ : Adds t u) : Adds s u where
  host := h₂.host.trans h₁.host
  fidMap := h₂.fidMap.trans h₁.fidMap
  next_le := Nat.le_trans h₁.next_le h₂.next_le
  obj p hp := (h₂.obj p (Nat.lt_of_lt_of_le hp h₁.next_le)).trans (h₁.obj p hp)

theorem adds_call (s : Dev) (c : Syscall) : Adds s (s.call c) :=
  ⟨rfl, rfl, Nat.le_refl _, fun _ _ => rfl⟩

theorem adds_alloc (s : Dev) (o : QidObject) : Adds s (s.alloc o) where
  host := rfl
  fidMap := rfl
  next_le := Nat.le_succ _
  obj q hq := by simp [alloc, Nat.ne_of_lt hq]

/-- A new object for a place that is there. -/
theorem newQidObject_there (root : Bytes) (hds : ∀ c ∈ ds, Plain c) (hthere : s.host.There ds)
    (hstat : env.refuse (.stat (render ds)) = false) :
    ∃ n, s.host.entry ds = some n ∧ newQidObject env (render ds) root s =
      ((s.call (.stat (render ds))).alloc (newObject env (render ds) root n), some s.next) := by
  obtain ⟨n, hn⟩ := Option.isSome_iff_exists.1 (hthere.entry_isSome hds)
  have hfound : s.host.stat (render ds) = some n := by
    rw [Host.stat, Host.resolve_render hds, hthere]
    exact hn
  refine ⟨n, hn, ?_⟩
  unfold newQidObject
  dsimp only
  rw [hstat, if_neg Bool.false_ne_true, show (s.call (.stat (render ds))).host = s.host from rfl,
    hfound]
  rfl

/-- `Traverse` to a place that is there. -/
theorem traverse_there (hcall : env.refuse (.realpath (traversePath (s.obj p) name)) = false)
    (hres : s.host.resolve (traversePath (s.obj p) name) = some ds) (hds : ∀ c ∈ ds, Plain c)
    (hthere : s.host.There ds) (hstat : env.refuse (.stat (render ds)) = false) :
    ∃ t n, traverse env p name s = (t, some s.next) ∧ Adds s t ∧ t.next = s.next + 1 ∧
      s.host.entry ds = some n ∧ t.obj s.next = newObject env (render ds) (s.obj p).root n := by
  obtain ⟨n, hentry, hnew⟩ := newQidObject_there (s.obj p).root
    (s := s.call (.realpath (traversePath (s.obj p) name))) hds hthere hstat
  have hpath : (s.call (.realpath (traversePath (s.obj p) name))).host.realpath
      (traversePath (s.obj p) name) = some (render ds) := congrArg (Option.map render) hres
  have htraverse : traverse env p name s = newQidObject env (render ds) (s.obj p).root
      (s.call (.realpath (traversePath (s.obj p) name))) := by
    rw [traverse, hcall, if_neg Bool.false_ne_true, hpath]
    rfl
  exact ⟨_, n, htraverse.trans hnew, (adds_call s _).trans ((adds_call _ _).trans (adds_alloc _ _)), rfl,
    hentry, Function.update_self ..⟩

/-- `Traverse` takes one step. -/
theorem traverse_step (env : Env) (hms : ∀ c ∈ ms, Plain c) (ho : IsAt ms cs (s.obj p))
    (hn : slash ∉ name) :
    (resolves env s.host ms cs name = none → (traverse env p name s).2 = none) ∧
    ∀ ds, resolves env s.host ms cs name = some ds → ∃ t, traverse env p name s = (t, some s.next) ∧
      Adds s t ∧ s.next < t.next ∧ (∀ c ∈ ds, Plain c) ∧ MadeFor env ms t s.next ds := by
  obtain ⟨hcall, hres⟩ := ho.traversePath (h := s.host) hms hn
  have hpath : (s.call (.realpath (traversePath (s.obj p) name))).host.realpath
      (traversePath (s.obj p) name) = (s.host.lookup ms cs name).map render :=
    congrArg (Option.map render) hres
  unfold resolves
  rw [← hcall]
  by_cases hrefuse : env.refuse (.realpath (traversePath (s.obj p) name))
  · rw [if_pos hrefuse]
    refine ⟨fun _ => ?_, by rintro _ ⟨⟩⟩
    simp [traverse, hrefuse]
  · rw [if_neg hrefuse]
    cases hlookup : s.host.lookup ms cs name with
    | none =>
      refine ⟨fun _ => ?_, by rintro _ ⟨⟩⟩
      simp [traverse, hrefuse, hpath, hlookup]
    | some ds =>
      obtain ⟨hds, hthere⟩ := Host.there_of_lookup ho.plain hn hlookup
      rw [Option.filter_some]
      cases hstat : env.refuse (.stat (render ds)) with
      | true =>
        refine ⟨fun _ => ?_, fun _ h => absurd h (by simp)⟩
        simp [traverse, hrefuse, hpath, hlookup, newQidObject, hstat]
      | false =>
        refine ⟨fun h => absurd h (by simp), fun ds' h => ?_⟩
        obtain rfl := Option.some.inj h
        obtain ⟨t, n, ht, hadds, hnext, hentry, hobj⟩ := traverse_there (by simpa using hrefuse)
          (hres.trans hlookup) hds hthere hstat
        refine ⟨t, ht, hadds, hnext ▸ Nat.lt_succ_self _, hds, n, ?_, ?_⟩
        · rw [hadds.host]
          exact hentry
        · rw [hobj, ho.root]

/-- A walk takes one step for each name, and fails with the first that fails. -/
theorem walkNames_places (env : Env) (hms : ∀ c ∈ ms, Plain c) {ws : List Bytes}
    (hws : ∀ w ∈ ws, slash ∉ w) (qids : List Ptr) (ho : IsAt ms cs (s.obj p)) (hp : p < s.next) :
    (places env s.host ms cs ws = none → (walkNames env ws p qids s).2 = none) ∧
    ∀ dss, places env s.host ms cs ws = some dss → ∃ t ps,
      walkNames env ws p qids s = (t, some (qids ++ ps)) ∧ Adds s t ∧
      List.Forall₂ (fun q ds => q < t.next ∧ MadeFor env ms t q ds) ps dss := by
  induction ws generalizing cs p qids s with
  | nil =>
    refine ⟨(by rintro ⟨⟩), fun dss h => ?_⟩
    cases h
    exact ⟨s, [], by rw [walkNames, List.append_nil], .refl s, .nil⟩
  | cons w ws ih =>
    obtain ⟨hnone, hsome⟩ := traverse_step env hms ho (hws w List.mem_cons_self)
    rw [places]
    simp only [walkNames]
    cases hr : resolves env s.host ms cs w with
    | none =>
      refine ⟨fun _ => ?_, by rintro _ ⟨⟩⟩
      have hfail := hnone hr
      rcases ht : traverse env p w s with ⟨t, _ | q⟩
      · rfl
      · rw [ht] at hfail
        contradiction
    | some ds =>
      obtain ⟨t, ht, hadds, hnext, hds, hmade⟩ := hsome ds hr
      obtain ⟨n, hentry, hobj⟩ := hmade
      have hat : IsAt ms ds (t.obj s.next) := ⟨hds, by rw [hobj]; rfl, by rw [hobj]; rfl⟩
      have ih' := ih (fun v hv => hws v (List.mem_cons_of_mem w hv)) (qids ++ [s.next]) hat hnext
      rw [hadds.host] at ih'
      rw [ht, Option.bind_some]
      dsimp only
      cases hrest : places env s.host ms ds ws with
      | none => exact ⟨fun _ => ih'.1 hrest, by rintro _ ⟨⟩⟩
      | some rest =>
        refine ⟨(by rintro ⟨⟩), fun dss h => ?_⟩
        cases h
        obtain ⟨u, ps, hu, hadds', hmade'⟩ := ih'.2 rest hrest
        refine ⟨u, s.next :: ps, ?_, hadds.trans hadds', .cons ⟨?_, n, ?_, ?_⟩ hmade'⟩
        · rw [hu, List.append_assoc]
          rfl
        · exact Nat.lt_of_lt_of_le hnext hadds'.next_le
        · rw [hadds'.host]
          exact hentry
        · rw [hadds'.obj _ hnext]
          exact hobj

/-! ## the answer and the fid table -/

/-- **The condition for success**: the fid is bound to a directory object, the names lead
from its place to places of the share, and the new fid is free. -/
structure Leads (env : Env) (s : Dev) (fid newfid : UInt32) (names : List Bytes) (base : Ptr)
    (dss : List (List Bytes)) : Prop where
  bound : s.getFid fid = some base
  directory : (s.obj base).type = p9QTDIR
  resolve : places env s.host (lexical s.host.cwd s.mountpoint)
    (lexical s.host.cwd (s.obj base).fspath) names = some dss
  free : s.getFid newfid = none

/-- The qid of what is at a place. -/
def placeQid (env : Env) (h : Host) (ds : List Bytes) : Option Qid :=
  (h.entry ds).map fun n => ⟨typeOf env n, 0, hashPath (render ds)⟩

/-- **What a walk has done** that was answered with these pointers: they are the objects of the
places, the new fid is bound to the last of them, and no other binding changed. -/
structure Walked (env : Env) (s t : Dev) (newfid : UInt32) (base : Ptr) (dss : List (List Bytes))
    (ptrs : List Ptr) : Prop where
  paths : ptrs.map (fun q => (t.obj q).fspath) = dss.map render
  bound : t.getFid newfid = some (walkEnd base ptrs)
  others : ∀ f, f ≠ newfid → t.getFid f = s.getFid f
  refcnt : (t.obj (walkEnd base ptrs)).refcnt =
    if dss = [] then (s.obj base).refcnt + 1 else 1
  baseQid : qid (t.obj base) = qid (s.obj base)
  qids : ptrs.map (fun q => some (qid (t.obj q))) = dss.map (placeQid env s.host)

theorem getFid_binds {f : UInt32} (h : Binds s newfid p t) :
    t.getFid f = if f = newfid then some p else s.getFid f := by
  rw [getFid, h.fidMap, List.lookup_cons, getFid]
  by_cases hf : f = newfid
  · rw [if_pos hf, beq_iff_eq.2 hf]
  · rw [if_neg hf, beq_eq_false_iff_ne.2 hf]

/-- Binding an object changes its count only. -/
theorem bindFid_obj (h : s.bindFid newfid p = some t) (q : Ptr) :
    t.obj q = { s.obj q with refcnt := (t.obj q).refcnt } := by
  unfold bindFid at h
  split at h
  · contradiction
  · cases h
    by_cases hq : q = p
    · subst hq
      simp [incRef, setObj]
    · simp [incRef, setObj, hq]

theorem bindFid_qid (h : s.bindFid newfid p = some t) (q : Ptr) : qid (t.obj q) = qid (s.obj q) := by
  rw [bindFid_obj h q]
  rfl

theorem bindFid_fspath (h : s.bindFid newfid p = some t) (q : Ptr) :
    (t.obj q).fspath = (s.obj q).fspath := by
  rw [bindFid_obj h q]

/-- The objects of a walk have the paths and the qids of its places. -/
theorem map_of_made {ps : List Ptr}
    (h : List.Forall₂ (fun q ds => q < u.next ∧ MadeFor env ms u q ds) ps dss) :
    ps.map (fun q => (u.obj q).fspath) = dss.map render ∧
      ps.map (fun q => some (qid (u.obj q))) = dss.map (placeQid env u.host) := by
  induction h with
  | nil => exact ⟨rfl, rfl⟩
  | cons hmade _ ih =>
    obtain ⟨-, n, hentry, hobj⟩ := hmade
    simp only [List.map_cons, ih.1, ih.2, placeQid, hentry, hobj, Option.map_some]
    exact ⟨rfl, rfl⟩

theorem walkEnd_cons (base q : Ptr) (ps : List Ptr) : walkEnd base (q :: ps) = walkEnd q ps := by
  rw [walkEnd, List.getLast?_cons, Option.getD_some, walkEnd]

/-- The end of a walk is the object of one of its places. -/
theorem exists_of_walkEnd {ps : List Ptr} {R : Ptr → List Bytes → Prop} (base : Ptr)
    (h : List.Forall₂ R ps dss) (hne : dss ≠ []) : ∃ ds, R (walkEnd base ps) ds := by
  induction h generalizing base with
  | nil => exact absurd rfl hne
  | cons hr hrest ih =>
    rw [walkEnd_cons]
    cases hrest with
    | nil => exact ⟨_, hr⟩
    | cons hr' hrest' => exact ih _ (List.cons_ne_nil _ _)

/-- Binding the new fid to the end of a walk. -/
theorem walked_of_bindFid {ps : List Ptr} {base : Ptr} (hbase : base < s.next) (hadds : Adds s u)
    (hmade : List.Forall₂ (fun q ds => q < u.next ∧ MadeFor env ms u q ds) ps dss)
    (hb : u.bindFid newfid (walkEnd base ps) = some t) : Walked env s t newfid base dss ps := by
  have hbinds := bindFid_binds hb
  obtain ⟨hpaths, hqids⟩ := map_of_made hmade
  refine ⟨?_, ?_, fun f hf => ?_, ?_, ?_, ?_⟩
  · simp only [bindFid_fspath hb]
    exact hpaths
  · rw [getFid_binds hbinds, if_pos rfl]
  · rw [getFid_binds hbinds, if_neg hf, getFid, getFid, hadds.fidMap]
  · rw [hbinds.refcnt, if_pos rfl]
    by_cases hnil : dss = []
    · rw [if_pos hnil]
      subst hnil
      cases hmade
      rw [show walkEnd base [] = base from rfl, hadds.obj base hbase]
    · rw [if_neg hnil]
      obtain ⟨ds, -, n, -, hobj⟩ := exists_of_walkEnd base hmade hnil
      rw [hobj]
      rfl
  · rw [bindFid_qid hb, hadds.obj base hbase]
  · simp only [bindFid_qid hb, hqids, hadds.host]

/-- A walk to another fid succeeds exactly if the condition holds. -/
theorem Exit.walked_iff {res : Except String (Option RBody)} (hms : ∀ c ∈ ms, Plain c)
    (h : Rooted ms s) (hT : Table s) (hne : fid ≠ newfid)
    (hvalid : (TMsg.walk fid newfid names).valid)
    (hexit : Exit env s (.walk fid newfid names) t res) :
    (∃ base dss ptrs, res = .ok (some (.walk (base :: ptrs))) ∧
      Leads env s fid newfid names base dss ∧ Walked env s t newfid base dss ptrs) ∨
    (∃ e, res = .error e) ∧ t.fidMap = s.fidMap ∧
      ∀ base dss, ¬ Leads env s fid newfid names base dss := by
  have hws := slash_not_mem_of_valid hvalid
  have hmount : lexical s.host.cwd s.mountpoint = ms := by rw [h.mountpoint, lexical_render _ hms]
  -- the place of the object the walk starts from, and what its names lead to
  have hplaces {base : Ptr} (hfid : s.getFid fid = some base) : ∃ cs,
      lexical s.host.cwd (s.obj base).fspath = cs ∧
      (places env s.host ms cs names = none → (walkNames env names base [base] s).2 = none) ∧
      ∀ dss, places env s.host ms cs names = some dss → ∃ t ps,
        walkNames env names base [base] s = (t, some ([base] ++ ps)) ∧ Adds s t ∧
        List.Forall₂ (fun q ds => q < t.next ∧ MadeFor env ms t q ds) ps dss := by
    have hlt := hT.lt_of_getFid hfid
    obtain ⟨hroot, cs, hcs, -, hpath⟩ := h.obj base hlt
    exact ⟨cs, by rw [hpath, lexical_render _ hcs],
      walkNames_places env hms hws [base] ⟨hcs, hroot, hpath⟩ hlt⟩
  cases hexit with
  | refused hm =>
    refine .inr ⟨⟨_, rfl⟩, rfl, fun base dss hl => ?_⟩
    have hrefuses := hm.resolve_left (by simp [hvalid])
    simp [refuses, hl.bound, hl.directory] at hrefuses
  | answered hm => contradiction
  | @lost _ _ _ base t e hfid hdir hw =>
    have hq := of_result hw (walkNames_quiet env names base [base] s).1
    refine .inr ⟨⟨_, rfl⟩, hq.fidMap, fun base' dss hl => ?_⟩
    obtain rfl : base' = base := Option.some.inj (hl.bound.symm.trans hfid)
    obtain ⟨cs, hplace, -, hsome⟩ := hplaces hfid
    have hr := hl.resolve
    rw [hmount, hplace] at hr
    obtain ⟨u, ps, hu, -⟩ := hsome dss hr
    simp [hw] at hu
  | @occupied _ _ _ base qids t e hfid hdir hw _ hb =>
    have hq := of_result hw (walkNames_quiet env names base [base] s).1
    refine .inr ⟨⟨_, rfl⟩, hq.fidMap, fun base' dss hl => ?_⟩
    exact bindFid_ne_none ((hq.getFid newfid).trans hl.free) hb
  | @walked _ _ _ base qids u t hfid hdir hw _ hb =>
    obtain ⟨cs, hplace, hnone, hsome⟩ := hplaces hfid
    cases hp : places env s.host ms cs names with
    | none => simp [hw] at hnone; exact absurd hp hnone
    | some dss =>
      obtain ⟨v, ps, hv, hadds, hmade⟩ := hsome dss hp
      obtain ⟨rfl, rfl⟩ : u = v ∧ qids = [base] ++ ps := by simpa [hw] using hv
      rw [List.singleton_append, getLast?_getD_cons] at hb
      refine .inl ⟨base, dss, ps, rfl, ⟨hfid, hdir, ?_, ?_⟩,
        walked_of_bindFid (hT.lt_of_getFid hfid) hadds hmade hb⟩
      · rw [hmount, hplace, hp]
      · have hfree := (bindFid_binds hb).free
        rwa [getFid, hadds.fidMap] at hfree
  | rewalked => exact absurd rfl hne

theorem length_places {ws : List Bytes} (h : places env s.host ms cs ws = some dss) :
    dss.length = ws.length := by
  induction ws generalizing cs dss with
  | nil =>
    cases h
    rfl
  | cons w ws ih =>
    obtain ⟨ds, -, hrest⟩ := Option.bind_eq_some_iff.1 h
    obtain ⟨rest, hplaces, rfl⟩ := Option.map_eq_some_iff.1 hrest
    rw [List.length_cons, List.length_cons, ih hplaces]

theorem leads_register (tag : UInt16) {base : Ptr} :
    Leads env (s.register tag) fid newfid names base dss ↔
      Leads env s fid newfid names base dss := by
  unfold register
  split
  · exact Iff.rfl
  · exact ⟨fun h => ⟨h.bound, h.directory, h.resolve, h.free⟩,
      fun h => ⟨h.bound, h.directory, h.resolve, h.free⟩⟩

theorem walked_register (tag : UInt16) {base : Ptr} {ptrs : List Ptr}
    (h : Walked env (s.register tag) t newfid base dss ptrs) :
    Walked env s (t.unregister tag) newfid base dss ptrs := by
  have hobj := register_obj s tag
  have hhost := register_host s tag
  refine ⟨h.paths, h.bound, fun f hf => (h.others f hf).trans ?_, ?_, ?_, ?_⟩
  · exact (quiet_register s tag).getFid f
  · rw [← hobj]
    exact h.refcnt
  · rw [← hobj]
    exact h.baseQid
  · rw [← hhost]
    exact h.qids

/-- **A walk resolves component by component**: it is answered, and it succeeds exactly if the
condition holds.  Then the new fid is bound to the object of the last place (or to that of the fid,
whose count is raised), the response lists the qids on the way, and no other binding changes; if it
fails none does. -/
def WalkResolves (env : Env) (s : Dev) (tag : UInt16) (fid newfid : UInt32) (names : List Bytes) :
    Prop :=
  ∃ t body, process env ⟨tag, .walk fid newfid names⟩ s = some (t, some ⟨tag, body⟩) ∧
    ((∃ qids, body = .walk qids) ↔ ∃ base dss, Leads env s fid newfid names base dss) ∧
    (∀ base dss, Leads env s fid newfid names base dss → ∃ ptrs count qids,
      body = .walk (base :: ptrs) ∧ Walked env s t newfid base dss ptrs ∧
      (names = [] → (t.obj base).refcnt.toNat = (s.obj base).refcnt.toNat + 1) ∧
      (RMesg.ofBody t body).bodyBlocks = count :: (qid (s.obj base) :: qids).map RMesg.qidBytes ∧
      Bits.ofBytes count = names.length + 1 ∧
      qids.map some = dss.map (placeQid env s.host)) ∧
    ((∀ qids, body ≠ .walk qids) → ∀ f, t.getFid f = s.getFid f)

/-- The count of an object that gets one more fid does not wrap. -/
theorem FidsOk.refcnt_lt {base : Ptr} (hok : s.FidsOk) (hfid : s.getFid fid = some base)
    (hdir : (s.obj base).type = p9QTDIR) (hne : fid ≠ newfid) (hfree : s.getFid newfid = none)
    (hsafe : s.cloneSafe (.walk fid newfid [])) : (s.obj base).refcnt.toNat + 1 < 2 ^ 32 := by
  have hcount := (hok _ (mem_of_getFid hfid)).2
  have hlast : s.fidsOf base + 1 ≠ 2 ^ 32 := by
    simpa [cloneSafe, hfid, hdir, hne, hfree] using hsafe
  have hlt := (s.obj base).refcnt.toNat_lt
  dsimp only at hcount
  omega

/-- With a canonical mountpoint, a walk resolves unless its response has too many qids to be
counted. -/
theorem walkResolves_iff (hms : ∀ c ∈ ms, Plain c) (h : Rooted ms s) (hT : Table s) (hok : s.FidsOk)
    (tag : UInt16) (hne : fid ≠ newfid) (hlegal : names.all legalName)
    (hsafe : s.cloneSafe (.walk fid newfid names)) :
    WalkResolves env s tag fid newfid names ↔
      ((∃ base dss, Leads env s fid newfid names base dss) → names.length + 1 < 2 ^ 16) := by
  cases hp : process env ⟨tag, .walk fid newfid names⟩ s with
  | none => exact absurd ((process_eq_none_iff _ _ _).1 hp) (by simp [returns])
  | some x =>
    obtain ⟨t, resp⟩ := x
    obtain ⟨u, res, hexit, -, rfl, rfl⟩ := process_exit hp
    have hget (f : UInt32) : (s.register tag).getFid f = s.getFid f :=
      (quiet_register s tag).getFid f
    rcases hexit.walked_iff hms (h.register tag) (hT.quiet (quiet_register s tag)) hne hlegal with
      ⟨base, dss, ptrs, rfl, hleads, hwalked⟩ | ⟨⟨e, rfl⟩, hfids, hnot⟩
    · have hleads := (leads_register tag).1 hleads
      have hwalked := walked_register tag hwalked
      have hlen : ptrs.length = names.length := by
        have hpaths := congrArg List.length hwalked.paths
        rw [List.length_map, List.length_map] at hpaths
        exact hpaths.trans (length_places hleads.resolve)
      have hblocks : (RMesg.ofBody (u.unregister tag) (.walk (base :: ptrs))).bodyBlocks =
          ByteMem.bytesOfNat 2 (names.length + 1) :: (qid (s.obj base) ::
            ptrs.map fun q => qid ((u.unregister tag).obj q)).map RMesg.qidBytes := by
        rw [← hwalked.baseQid, ← hlen]
        simp [RMesg.ofBody, RMesg.bodyBlocks]
      constructor
      · rintro ⟨t, body, hp', -, hall, -⟩ -
        cases hp.symm.trans hp'
        obtain ⟨ptrs', count, qids, hbody, -, -, hblocks', hcount, -⟩ := hall base dss hleads
        rw [hblocks] at hblocks'
        obtain ⟨rfl, -⟩ := List.cons.inj hblocks'
        rw [ByteMem.ofBytes_bytesOfNat] at hcount
        omega
      · intro hfew
        refine ⟨_, _, hp, ⟨fun _ => ⟨base, dss, hleads⟩, fun _ => ⟨_, rfl⟩⟩, ?_,
          fun hno => absurd rfl (hno _)⟩
        intro base' dss' hleads'
        obtain rfl : base = base' := Option.some.inj (hleads.bound.symm.trans hleads'.bound)
        obtain rfl : dss = dss' := Option.some.inj (hleads.resolve.symm.trans hleads'.resolve)
        refine ⟨ptrs, _, _, rfl, hwalked, fun hnil => ?_, hblocks, ?_, ?_⟩
        · subst hnil
          rw [List.length_nil, List.length_eq_zero_iff] at hlen
          have hdss : dss = [] :=
            List.map_eq_nil_iff.1 (hwalked.paths.symm.trans (by rw [hlen]; rfl))
          have hrefcnt := hwalked.refcnt
          rw [hlen, if_pos hdss] at hrefcnt
          rw [show base = walkEnd base [] from rfl, hrefcnt, UInt32.toNat_add]
          exact Nat.mod_eq_of_lt
            (hok.refcnt_lt hleads.bound hleads.directory hne hleads.free hsafe)
        · rw [ByteMem.ofBytes_bytesOfNat]
          exact Nat.mod_eq_of_lt (hfew ⟨base, dss, hleads⟩)
        · rw [List.map_map]
          exact hwalked.qids
    · have hnone : ¬ ∃ base dss, Leads env s fid newfid names base dss := by
        rintro ⟨base, dss, hl⟩
        exact hnot base dss ((leads_register tag).2 hl)
      refine ⟨fun _ hl => absurd hl hnone, fun _ => ⟨_, _, hp, ?_, ?_, fun _ f => ?_⟩⟩
      · refine ⟨?_, fun hl => absurd hl hnone⟩
        rintro ⟨qids, hbody⟩
        contradiction
      · exact fun base dss hl => absurd ⟨base, dss, hl⟩ hnone
      · rw [← hget f, getFid, getFid, ← hfids]
        rfl

/-! ## another mountpoint -/

/-- Attaching fid 1 to the share. -/
def attachFirst (sharename : Bytes) : Env × TRequest :=
  (calmEnv, ⟨0, .attach 1 0xffffffff [] sharename⟩)

/-- What is there then, if the mountpoint is a directory. -/
theorem step_attachFirst {host : Host} (sharename : Bytes) {mountpoint : Bytes}
    (hstat : host.stat mountpoint = some .dir) :
    ∃ s, (init host false sharename mountpoint).step (attachFirst sharename) = some s ∧
      s.host = host ∧ s.mountpoint = mountpoint ∧ s.getFid 1 = some 0 ∧ s.getFid 2 = none ∧
      s.next = 1 ∧ (s.obj 0).fspath = mountpoint ∧ (s.obj 0).root = mountpoint ∧
      (s.obj 0).type = p9QTDIR := by
  simp [step, attachFirst, process, TMsg.valid, execute, executeAttach, init, register, serving,
    attach, newQidObject, call, calmEnv, hstat, alloc, bindFid, getFid, reply, respond, unregister,
    incRef, setObj, newObject, typeOf]

/-- From the root of a share whose mountpoint is not canonical, the second `..` leaves it. -/
theorem walkNames_up {mountpoint : Bytes} {rs : List Bytes} (hrs : ∀ c ∈ rs, Plain c)
    (hres : s.host.resolve mountpoint = some rs) (hthere : s.host.There rs)
    (hdir : s.host.entry rs = some .dir) (hnot : s.host.realpath mountpoint ≠ some mountpoint)
    (hpath : (s.obj p).fspath = mountpoint) (hroot : (s.obj p).root = mountpoint) :
    ∃ t, walkNames calmEnv [dotdot, dotdot] p [p] s = (t, some [p, s.next, s.next + 1]) ∧
      (t.obj (s.next + 1)).fspath = render rs.dropLast := by
  have hfirst : traversePath (s.obj p) dotdot = mountpoint := by
    simp [traversePath, isRoot, hpath, hroot]
  have hcall : calmEnv.refuse (.realpath (traversePath (s.obj p) dotdot)) = false := rfl
  obtain ⟨t, n, ht, hadds, hnext, -, hobj⟩ := traverse_there hcall (hfirst ▸ hres) hrs hthere rfl
  -- the object made for the root has the string that `realpath` returns
  have hother : render rs ≠ mountpoint := by
    rintro rfl
    exact hnot (congrArg (Option.map render) hres)
  have hsecond : traversePath (t.obj s.next) dotdot = render rs ++ slash :: dotdot := by
    simp [traversePath, isRoot, childPath, hobj, newObject, hroot, hother]
  have hup : t.host.resolve (traversePath (t.obj s.next) dotdot) = some rs.dropLast := by
    rw [hsecond, hadds.host, Host.resolve_render_append hrs (by decide),
      Host.walk_append hthere hdir]
    rfl
  have hcall' : calmEnv.refuse (.realpath (traversePath (t.obj s.next) dotdot)) = false := rfl
  obtain ⟨u, m, hu, -, -, -, hobj'⟩ := traverse_there hcall' hup
    (fun c hc => hrs c (List.dropLast_subset rs hc)) (hadds.host ▸ hthere.dropLast hrs) rfl
  rw [hnext] at hu hobj'
  refine ⟨u, ?_, by rw [hobj']; rfl⟩
  simp [walkNames, ht, hu]

/-- Such a walk does not resolve. -/
theorem not_walkResolves {host : Host} {sharename mountpoint : Bytes} {rs : List Bytes}
    (hnot : host.realpath mountpoint ≠ some mountpoint) (hres : host.resolve mountpoint = some rs)
    (hne : rs ≠ []) (hrs : ∀ c ∈ rs, Plain c) (hthere : host.There rs)
    (hdir : host.entry rs = some .dir) :
    ∃ s, Run SafeStep (init host false sharename mountpoint) [attachFirst sharename] s ∧
      ¬ WalkResolves calmEnv s 0 1 2 [dotdot, dotdot] := by
  have hstat : host.stat mountpoint = some .dir := by rw [Host.stat, hres, Option.bind_some, hdir]
  obtain ⟨s, hstep, rfl, rfl, hfid, hfree, hnext, hpath, hroot, htype⟩ :=
    step_attachFirst sharename hstat
  refine ⟨s, .single ⟨rfl, hstep⟩, ?_⟩
  rintro ⟨t, body, hp, -, hall, -⟩
  -- both names should lead to the root
  have hlex : lexical s.host.cwd s.mountpoint = rs := Host.lexical_of_resolve hres
  have hstay : resolves calmEnv s.host rs rs dotdot = some rs := by
    simp [resolves, calmEnv, Host.lookup, hthere]
  have hleads : Leads calmEnv s 1 2 [dotdot, dotdot] 0 [rs, rs] := by
    refine ⟨hfid, htype, ?_, hfree⟩
    rw [hpath, hlex]
    simp [places, hstay]
  obtain ⟨ptrs, -, -, rfl, hwalked, -⟩ := hall 0 _ hleads
  obtain ⟨u, res, hexit, -, rfl, hresp⟩ := process_exit hp
  obtain rfl := ok_of_respond (by simp) hresp
  have hobj := register_obj s 0
  have hhost := register_host s 0
  obtain ⟨v, hv, hlast⟩ := walkNames_up (s := s.register 0) (p := 0) hrs (hhost ▸ hres)
    (hhost ▸ hthere) (hhost ▸ hdir) (hhost ▸ hnot) (hobj ▸ hpath) (hobj ▸ hroot)
  cases hexit with
  | answered hm => contradiction
  | @walked _ _ _ base qids w t hfid' _ hw _ hb =>
    rw [(quiet_register s 0).getFid, hfid] at hfid'
    obtain rfl := Option.some.inj hfid'
    obtain ⟨rfl, hqids⟩ : v = w ∧ [(s.register 0).next, (s.register 0).next + 1] = ptrs := by
      simpa [hw] using hv.symm
    have hpaths := hwalked.paths
    rw [← hqids] at hpaths
    have hsame : render rs.dropLast = render rs := by
      rw [← hlast, ← bindFid_fspath hb]
      exact (List.cons.inj (List.cons.inj hpaths).2).1
    have hdrop := render_injective (fun c hc => hrs c (List.dropLast_subset rs hc)) hrs hsame
    have hlen := congrArg List.length hdrop
    have hpos := List.length_pos_iff.2 hne
    rw [List.length_dropLast] at hlen
    omega

/-- **Walks resolve component by component** exactly if the mountpoint is canonical.  Then, in every
state that is reached without the walks that leave a fid bound to a deleted object, any other walk
to another fid resolves, unless it succeeds with more qids than its response can count.  With
another mountpoint, of a directory that is not `/`, the device has a walk of two names that does
not. -/
theorem walk_resolves (host : Host) (authRequired : Bool) (sharename mountpoint : Bytes) :
    (host.realpath mountpoint = some mountpoint →
      ∀ ls s, Run SafeStep (init host authRequired sharename mountpoint) ls s →
        s.FidsOk ∧ ∀ env tag fid newfid names, fid ≠ newfid → names.all legalName →
          s.cloneSafe (.walk fid newfid names) →
          (WalkResolves env s tag fid newfid names ↔
            ((∃ base dss, Leads env s fid newfid names base dss) → names.length + 1 < 2 ^ 16))) ∧
    (host.realpath mountpoint ≠ some mountpoint →
      ∀ rs, host.resolve mountpoint = some rs → rs ≠ [] → (∀ c ∈ rs, Plain c) → host.There rs →
        host.entry rs = some .dir →
        ∃ ls s, Run SafeStep (init host false sharename mountpoint) ls s ∧
          ¬ WalkResolves calmEnv s 0 1 2 [dotdot, dotdot]) := by
  refine ⟨fun hmount ls s hs => ?_, fun hnot rs hres hne hrs hthere hdir => ?_⟩
  · obtain ⟨ms, hms, rfl⟩ := canonical_of_realpath hmount
    obtain ⟨hT, hok⟩ := fidsOk_of_run hs
    have hrooted : Rooted ms s :=
      Rooted.exec hms ((run_iff_exec step).1 (hs.mono fun _ _ _ hstep => hstep.2))
    exact ⟨hok, fun env tag fid newfid names hne hlegal hsafe =>
      walkResolves_iff hms hrooted hT hok tag hne hlegal hsafe⟩
  · exact ⟨_, not_walkResolves hnot hres hne hrs hthere hdir⟩

/-- From the root of the share `/s`, `..` leads to the root. -/
theorem walk_resolves_dotdot :
    ∃ s, Run SafeStep (init (shareHost [ascii ['s']]) false (ascii ['s']) (render [ascii ['s']]))
        attached s ∧
      Leads calmEnv s 1 2 [dotdot] 0 [[ascii ['s']]] ∧ WalkResolves calmEnv s 7 1 2 [dotdot] := by
  have hrun : ∃ s, Run SafeStep
      (init (shareHost [ascii ['s']]) false (ascii ['s']) (render [ascii ['s']])) attached s ∧
        Leads calmEnv s 1 2 [dotdot] 0 [[ascii ['s']]] :=
    ⟨_, .single ⟨rfl, rfl⟩, rfl, rfl, by decide, rfl⟩
  obtain ⟨s, hs, hleads⟩ := hrun
  have hlegal : [dotdot].all legalName := by decide
  refine ⟨s, hs, hleads, (((walk_resolves _ _ _ _).1 (by decide) _ s hs).2 calmEnv 7 1 2 [dotdot]
    (by decide) hlegal rfl).2 fun _ => by decide⟩

/-- Share mounted at `//s`, which is the directory `/s`: from its root, `..` and again `..` lead
to `/`. -/
theorem walk_leaves_share :
    ∃ t p, exec step (init (shareHost [ascii ['s']]) false (ascii ['s']) (slash :: render [ascii ['s']]))
        [(calmEnv, ⟨0, .attach 1 0xffffffff [] (ascii ['s'])⟩),
          (calmEnv, ⟨0, .walk 1 2 [dotdot, dotdot]⟩)] = some t ∧
      t.getFid 2 = some p ∧ lexical [] t.mountpoint = [ascii ['s']] ∧
      lexical [] (t.obj p).fspath = [] := by
  refine ⟨_, 2, rfl, ?_, ?_, ?_⟩ <;> decide

end Dev

end Ooows.P9
