import Ooows.P9.Fids
import Mathlib.Data.List.Nodup
import Mathlib.Data.List.Perm.Subperm

/-!
# Ooows.P9.Loops

`RequestLoop` and `ResponseLoop`, the two threads of the 9P device, and the
lifetime of the objects that travel between them.

An `RWalk` carries raw pointers.  It is made by `Process`, put on the response
queue, taken off by the other thread, serialised and destroyed, and requests
are processed in between.  Its destructor deletes the objects in the middle of
the walk; the first and the last one belong to the fid table.

* `Act` and `act` are the steps of the two threads, in any order;
* `fidsOk_of_run`: the destructor does not delete what a fid is bound to, so a request
  leaves a fid with a deleted object only if it is one of the walks of `cloneSafe`;
* `releaseSafe` is the condition: a request that takes an object's last fid
  must not find it in a response that is still on its way, and must not be the
  walk that puts it into one;
* `responses_never_dangle`: in every run whose requests meet it, an `RWalk` is
  serialised and destroyed while all its objects are live, and no object is
  deleted twice.
-/

namespace Ooows.P9

open Lib Lib.Path

/-- The two threads and what is between them. -/
structure Loops where
  dev : Dev
  /-- The response `RequestLoop` has and has not put on the queue yet. -/
  pending : Option RResponse
  /-- `m_rresponse_queue`. -/
  queue : List RResponse
  /-- The response `ResponseLoop` has taken, and whether it is serialised. -/
  current : Option (RResponse × Bool)

/-- The steps of the two threads.  `serialize` has the size of the buffer the
guest supplied. -/
inductive Act
  | process (env : Env) (r : TRequest)
  | put
  | get
  | serialize (limit : Nat)
  | destroy

namespace Loops

def init (host : Host) (authRequired : Bool) (sharename mountpoint : Bytes) : Loops :=
  ⟨.init host authRequired sharename mountpoint, none, [], none⟩

/-- The objects `~RWalk` deletes: all but the first and the last, if there are
more than two. -/
def middle (qids : List Ptr) : List Ptr := qids.tail.dropLast

/-- `delete rresponse`. -/
def destroyResponse (r : RResponse) (d : Dev) : Dev :=
  (middle (Dev.RResponse.pointers (some r))).foldl Dev.delete d

/-- The bytes `SerializeTo` writes for an `RWalk`: the header, the number of
qids, and the qids of 13 bytes each. -/
def walkBytes (qids : List Ptr) : Nat := 7 + 2 + 13 * qids.length

/-- An `RWalk` that does not fit makes `SerializeTo` throw, which ends the
process.  Other responses hold no pointers, and their size is left out. -/
def fits (r : RResponse) (limit : Nat) : Bool :=
  match r.body with
  | .walk qids => walkBytes qids ≤ limit
  | _ => true

/-- One step; `none` if the thread is not there, or the process ends. -/
def act (s : Loops) : Act → Option Loops
  | .process env r =>
    match s.pending with
    | some _ => none
    | none => (s.dev.process env r).map fun x => { s with dev := x.1, pending := x.2 }
  | .put =>
    match s.pending with
    | none => none
    | some r => some { s with pending := none, queue := s.queue ++ [r] }
  | .get =>
    match s.current, s.queue with
    | none, r :: q => some { s with queue := q, current := some (r, false) }
    | _, _ => none
  | .serialize limit =>
    match s.current with
    | some (r, false) => if fits r limit then some { s with current := some (r, true) } else none
    | _ => none
  | .destroy =>
    match s.current with
    | some (r, true) => some { s with dev := destroyResponse r s.dev, current := none }
    | _ => none

/-- The responses on their way, oldest first. -/
def inFlight (s : Loops) : List RResponse :=
  (s.current.map Prod.fst).toList ++ s.queue ++ s.pending.toList

/-- The pointers held by the responses on their way. -/
def pointers (s : Loops) : List Ptr :=
  s.inFlight.flatMap fun r => Dev.RResponse.pointers (some r)

/-- The step reads or destroys the response `ResponseLoop` holds. -/
def uses (s : Loops) : Act → List Ptr
  | .serialize _ | .destroy => Dev.RResponse.pointers (s.current.map Prod.fst)
  | _ => []

/-! ## the conditions -/

/-- The request is not one of the walks that leave a fid bound to a deleted object. -/
def cloneSafe (s : Loops) : Act → Bool
  | .process _ r => s.dev.cloneSafe r.msg
  | _ => true

/-- A request that takes the last fid of an object finds it in no response on
its way, and is not a walk, whose response would hold it.  `Process` registers
the tag before anything else. -/
def releaseSafe (s : Loops) : Act → Prop
  | .process env r =>
    r.msg.valid → ∀ p, Dev.unbinds env (s.dev.register r.tag) r.msg = some p →
      (s.dev.obj p).refcnt = 1 →
      p ∉ s.pointers ∧ ∀ fid newfid ws, r.msg ≠ .walk fid newfid ws
  | _ => True

end Loops

/-! ## requests and objects without fids -/

namespace Dev

variable {env : Env} {s t u : Dev} {fid : UInt32} {p q : Ptr} {m : TMsg} {ps : List Ptr}

theorem Binds.fidsOf_eq_zero (h : Binds s fid q t) (hp : s.fidsOf p = 0) (hne : p ≠ q) :
    t.fidsOf p = 0 := by
  rw [h.fidsOf, if_neg hne, Nat.add_zero, hp]

theorem Unbinds.fidsOf_eq_zero (h : Unbinds s fid q t) (hT : Table s) (hp : s.fidsOf p = 0) :
    t.fidsOf p = 0 := by
  have hf := h.fidsOf hT p
  omega

theorem Fresh.ne (h : Fresh s u q) (hp : p < s.next) : p ≠ q := by
  rintro rfl
  exact absurd hp (Nat.not_lt_of_le h.1)

/-- A walk does not end at an old object without fids. -/
theorem ne_walkEnd {base : Ptr} (hfid : s.getFid fid = some base) (hps : ∀ p ∈ ps, Fresh s u p)
    (hp : p < s.next) (hzero : s.fidsOf p = 0) : p ≠ walkEnd base ps := by
  by_cases hnil : ps = []
  · rintro rfl
    have hpos : 0 < s.fidsOf base := fidsOf_pos_iff.2 ⟨_, mem_of_getFid hfid, rfl⟩
    subst hnil
    exact absurd hzero (Nat.ne_of_gt hpos)
  · exact (hps _ (walkEnd_mem hnil)).ne hp

/-- An old object without fids gets none. -/
theorem Effect.fidsOf_eq_zero (h : Effect env s m t ps) (hT : Table s) (hp : p < s.next)
    (hzero : s.fidsOf p = 0) : t.fidsOf p = 0 := by
  have hquiet {u : Dev} (hu : Quiet s u) : u.fidsOf p = 0 := (hu.fidsOf p).trans hzero
  cases h with
  | quiet hu => exact hquiet hu
  | drop hu _ => exact (hquiet hu :)
  | attach hu hq hb => exact (bindFid_binds hb).fidsOf_eq_zero (hquiet hu) (hq.ne hp)
  | walk hfid _ hu _ _ hps _ hb =>
    exact (bindFid_binds hb).fidsOf_eq_zero (hquiet hu) (ne_walkEnd hfid hps hp hzero)
  | walkSelf hfid _ hu _ _ hps _ hr hb =>
    obtain ⟨r, hunbinds⟩ := removeFid_unbinds hr
    exact (bindFid_binds hb).fidsOf_eq_zero
      (hunbinds.fidsOf_eq_zero (hT.quiet hu) (hquiet hu)) (ne_walkEnd hfid hps hp hzero)
  | create hu hq _ hr hb =>
    obtain ⟨r, hunbinds⟩ := removeFid_unbinds hr
    exact (bindFid_binds hb).fidsOf_eq_zero
      (hunbinds.fidsOf_eq_zero (hT.quiet hu) (hquiet hu)) (hq.ne hp)
  | clunk hu _ hr =>
    obtain ⟨r, hunbinds⟩ := removeFid_unbinds hr
    exact hunbinds.fidsOf_eq_zero (hT.quiet hu) (hquiet hu)
  | remove hu _ hr =>
    obtain ⟨r, hunbinds⟩ := removeFid_unbinds hr
    exact hunbinds.fidsOf_eq_zero (hT.quiet hu) (hquiet hu)

/-- Of the new objects of a walk, the last one alone is bound. -/
theorem ne_walkEnd_of_mem_dropLast {base : Ptr} (hnd : ps.Nodup) (hp : p ∈ ps.dropLast) :
    p ≠ walkEnd base ps := by
  have hps : ps ≠ [] := List.ne_nil_of_mem (List.dropLast_subset _ hp)
  rintro rfl
  rw [walkEnd, List.getLast?_eq_some_getLast hps] at hp
  rw [← List.dropLast_append_getLast hps, List.nodup_append] at hnd
  exact hnd.2.2 _ hp _ (List.mem_singleton_self _) rfl

/-- The objects in the middle of a walk are new, and have no fids. -/
theorem Effect.middle (h : Effect env s m t ps) (hT : Table s) (hp : p ∈ Loops.middle ps) :
    (∃ fid newfid ws, m = .walk fid newfid ws) ∧ s.next ≤ p ∧ p < t.next ∧ t.fidsOf p = 0 := by
  cases h with
  | @walk fid newfid ws base ps t u hfid _ hu _ hnd hps _ hb =>
    have hmem := List.dropLast_subset _ hp
    have hbinds := bindFid_binds hb
    obtain ⟨hge, hlt⟩ := hps p hmem
    refine ⟨⟨fid, newfid, ws, rfl⟩, hge, hbinds.next ▸ hlt, ?_⟩
    exact hbinds.fidsOf_eq_zero (hT.fresh hu (hps p hmem)).1 (ne_walkEnd_of_mem_dropLast hnd hp)
  | @walkSelf fid ws base ps t u v hfid _ hu _ hnd hps _ hr hb =>
    have hmem := List.dropLast_subset _ hp
    have hbinds := bindFid_binds hb
    obtain ⟨r, hunbinds⟩ := removeFid_unbinds hr
    obtain ⟨hge, hlt⟩ := hps p hmem
    refine ⟨⟨fid, fid, ws, rfl⟩, hge, ?_, ?_⟩
    · rw [hbinds.next, hunbinds.next]
      exact hlt
    · exact hbinds.fidsOf_eq_zero (hunbinds.fidsOf_eq_zero (hT.quiet hu)
        (hT.fresh hu (hps p hmem)).1) (ne_walkEnd_of_mem_dropLast hnd hp)
  | _ => simp [Loops.middle] at hp

theorem Effect.next_le (h : Effect env s m t ps) : s.next ≤ t.next := by
  cases h with
  | quiet hu => exact hu.next_le
  | drop hu _ => exact hu.next_le
  | attach hu _ hb => exact (bindFid_binds hb).next ▸ hu.next_le
  | walk _ _ hu _ _ _ _ hb => exact (bindFid_binds hb).next ▸ hu.next_le
  | walkSelf _ _ hu _ _ _ _ hr hb =>
    obtain ⟨r, hunbinds⟩ := removeFid_unbinds hr
    exact (bindFid_binds hb).next ▸ hunbinds.next ▸ hu.next_le
  | create hu _ _ hr hb =>
    obtain ⟨r, hunbinds⟩ := removeFid_unbinds hr
    exact (bindFid_binds hb).next ▸ hunbinds.next ▸ hu.next_le
  | clunk hu _ hr =>
    obtain ⟨r, hunbinds⟩ := removeFid_unbinds hr
    exact hunbinds.next ▸ hu.next_le
  | remove hu _ hr =>
    obtain ⟨r, hunbinds⟩ := removeFid_unbinds hr
    exact hunbinds.next ▸ hu.next_le

end Dev

namespace Loops

/-! ## fids and live objects -/

variable {d e : Dev} {W : List (List Ptr)} {w : List Ptr}

/-- The device and the pointer lists of the responses on their way: bound objects are live, and the
objects that a response deletes are not bound. -/
structure Kept (d : Dev) (W : List (List Ptr)) : Prop where
  table : d.Table
  sound : d.Sound
  middles : ∀ w ∈ W, ∀ p ∈ middle w, p < d.next ∧ d.fidsOf p = 0

/-- **Step of `RequestLoop`.** -/
theorem Kept.process {env : Env} {r : TRequest} {resp : Option RResponse} (h : Kept d W)
    (hsafe : d.cloneSafe r.msg) (hp : d.process env r = some (e, resp)) :
    Kept e (W ++ [Dev.RResponse.pointers resp]) := by
  obtain ⟨u, he, rfl⟩ := Dev.process_effect hp
  have hq := Dev.quiet_register d r.tag
  have hu := Dev.quiet_unregister u r.tag
  have hT := h.table.quiet hq
  refine ⟨(hT.effect he).quiet hu, ?_, fun w hw p hpw => ?_⟩
  · exact ((h.sound.quiet hq).effect hT (by rwa [Dev.cloneSafe_register]) he).quiet hu
  · rw [hu.fidsOf]
    rcases List.mem_append.1 hw with hw | hw
    · obtain ⟨hlt, hzero⟩ := h.middles w hw p hpw
      have hlt := Nat.lt_of_lt_of_le hlt hq.next_le
      rw [← hq.fidsOf] at hzero
      exact ⟨Nat.lt_of_lt_of_le hlt he.next_le, he.fidsOf_eq_zero hT hlt hzero⟩
    · rw [List.mem_singleton.1 hw] at hpw
      exact (he.middle hT hpw).2.2

/-- A request without a response adds no pointers. -/
theorem Kept.responses {resp : Option RResponse}
    (h : Kept d (W ++ [Dev.RResponse.pointers resp])) :
    Kept d (W ++ resp.toList.map fun r => Dev.RResponse.pointers (some r)) := by
  cases resp with
  | none => exact ⟨h.table, h.sound, fun w hw => h.middles w (by simp_all)⟩
  | some r => exact h

/-- Deleting objects without fids. -/
theorem Kept.deleteAll {l : List Ptr} (h : Kept d W) (hl : ∀ p ∈ l, p < d.next ∧ d.fidsOf p = 0) :
    Kept (l.foldl Dev.delete d) W := by
  induction l generalizing d with
  | nil => exact h
  | cons q l ih =>
    obtain ⟨hlt, hzero⟩ := hl q List.mem_cons_self
    refine ih ⟨h.table.delete hlt, fun p hp => ?_, h.middles⟩
      fun p hp => hl p (List.mem_cons_of_mem q hp)
    have hne : p ≠ q := by
      rintro rfl
      exact absurd hzero (Nat.ne_of_gt hp)
    exact ⟨by simpa [Dev.delete, hne] using (h.sound p hp).1, (h.sound p hp).2⟩

/-- **Step of `ResponseLoop`.** -/
theorem Kept.destroy {r : RResponse} (h : Kept d (Dev.RResponse.pointers (some r) :: W)) :
    Kept (destroyResponse r d) W :=
  Kept.deleteAll ⟨h.table, h.sound, fun w hw => h.middles w (List.mem_cons_of_mem _ hw)⟩
    (h.middles _ List.mem_cons_self)

theorem Kept.init (host : Host) (authRequired : Bool) (sharename mountpoint : Bytes) :
    Kept (.init host authRequired sharename mountpoint) [] :=
  ⟨.init .., fun _ hp => absurd hp (Nat.not_lt_zero _), fun _ hw => absurd hw List.not_mem_nil⟩

/-! ## the steps -/

/-- The pointer lists of the responses on their way. -/
def lists (s : Loops) : List (List Ptr) :=
  s.inFlight.map fun r => Dev.RResponse.pointers (some r)

/-- What a step does to the device and to the responses on their way. -/
inductive Acted (s : Loops) : Act → Loops → Prop
  | process {env : Env} {r : TRequest} {resp : Option RResponse} {t : Loops}
      (hidle : s.pending = none) (hp : s.dev.process env r = some (t.dev, resp))
      (hlists : t.lists = s.lists ++ resp.toList.map fun r => Dev.RResponse.pointers (some r)) :
      Acted s (.process env r) t
  | destroy {r : RResponse} {t : Loops} (hcurrent : s.current = some (r, true))
      (hdev : t.dev = destroyResponse r s.dev)
      (hlists : s.lists = Dev.RResponse.pointers (some r) :: t.lists) : Acted s .destroy t
  | other {a : Act} {t : Loops} (hp : ∀ env r, a ≠ .process env r) (hd : a ≠ .destroy)
      (hdev : t.dev = s.dev) (hlists : t.lists = s.lists) : Acted s a t

theorem acted_of_act {s t : Loops} {a : Act} (h : s.act a = some t) : Acted s a t := by
  obtain ⟨d, pending, queue, current⟩ := s
  cases a with
  | process env r =>
    cases pending with
    | some _ => simp [act] at h
    | none =>
      simp only [act, Option.map_eq_some_iff] at h
      obtain ⟨⟨e, resp⟩, hp, rfl⟩ := h
      refine .process rfl hp ?_
      cases resp <;> simp [lists, inFlight]
  | put =>
    cases pending with
    | none => simp [act] at h
    | some r =>
      simp only [act, Option.some.injEq] at h
      subst h
      exact .other nofun nofun rfl (by simp [lists, inFlight])
  | get =>
    cases current with
    | some _ => simp [act] at h
    | none =>
      cases queue with
      | nil => simp [act] at h
      | cons r q =>
        simp only [act, Option.some.injEq] at h
        subst h
        exact .other nofun nofun rfl (by simp [lists, inFlight])
  | serialize limit =>
    rcases current with _ | ⟨r, _ | _⟩
    · simp [act] at h
    · simp only [act] at h
      split at h
      · cases h
        exact .other nofun nofun rfl (by simp [lists, inFlight])
      · contradiction
    · simp [act] at h
  | destroy =>
    rcases current with _ | ⟨r, _ | _⟩
    · simp [act] at h
    · simp [act] at h
    · simp only [act, Option.some.injEq] at h
      subst h
      exact .destroy rfl rfl (by simp [lists, inFlight])

theorem Kept.act {s t : Loops} {a : Act} (h : Kept s.dev s.lists) (hsafe : s.cloneSafe a)
    (ha : s.act a = some t) : Kept t.dev t.lists := by
  cases acted_of_act ha with
  | @process env r resp t hidle hp hlists =>
    rw [hlists]
    exact (h.process hsafe hp).responses
  | destroy hcurrent hdev hlists =>
    rw [hlists] at h
    rw [hdev]
    exact h.destroy
  | other hp hd hdev hlists =>
    rw [hdev, hlists]
    exact h

/-- **No fid is left with a deleted object** by the two threads, in any order, as long as no request
is one of the walks. -/
theorem fidsOk_of_run {host : Host} {authRequired : Bool} {sharename mountpoint : Bytes}
    {acts : List Act} {s : Loops}
    (h : Run (Guarded (fun s a => s.cloneSafe a) fun s a t => s.act a = some t)
      (init host authRequired sharename mountpoint) acts s) : s.dev.FidsOk := by
  have hkept : Kept s.dev s.lists :=
    h.invariant (I := fun s => Kept s.dev s.lists) (fun _ _ _ hI hl => hI.act hl.1 hl.2)
      (Kept.init host authRequired sharename mountpoint)
  exact (Dev.fidsOk_iff_sound hkept.table).2 hkept.sound

/-! ## the invariant -/

variable {env : Env} {u v : Dev} {p q : Ptr} {fid : UInt32}

/-- The device and the pointer lists of the responses on their way: the objects
in the middle of a walk belong to its response alone, the two at its ends are
bound, and nothing that is bound has been deleted. -/
structure Held (d : Dev) (W : List (List Ptr)) : Prop where
  table : d.Table
  once : ∀ p, d.deletes p ≤ 1
  bound_live : ∀ p, 0 < d.fidsOf p → d.deletes p = 0
  ends : ∀ w ∈ W, ∀ p ∈ w, p ∈ middle w ∨ 0 < d.fidsOf p
  middles : ∀ p ∈ W.flatMap middle, p < d.next ∧ d.deletes p = 0 ∧ d.fidsOf p = 0
  nodup : (W.flatMap middle).Nodup

theorem Held.lt_of_bound (h : Held d W) (hp : 0 < d.fidsOf p) : p < d.next := by
  obtain ⟨b, hb, rfl⟩ := Dev.fidsOf_pos_iff.1 hp
  exact h.table.bound_lt b hb

/-- Every pointer on its way is to a live object. -/
theorem Held.live (h : Held d W) (hw : w ∈ W) (hp : p ∈ w) : d.Live p := by
  rcases h.ends w hw p hp with hmid | hbound
  · have hm := h.middles p (List.mem_flatMap.2 ⟨w, hw, hmid⟩)
    exact ⟨hm.1, hm.2.1⟩
  · exact ⟨h.lt_of_bound hbound, h.bound_live p hbound⟩

theorem Held.quiet (h : Held d W) (hq : Dev.Quiet d e) : Held e W where
  table := h.table.quiet hq
  once p := by rw [hq.deletes]; exact h.once p
  bound_live p hp := by
    rw [hq.fidsOf] at hp
    rw [hq.deletes]
    exact h.bound_live p hp
  ends w hw p hp := by rw [hq.fidsOf]; exact h.ends w hw p hp
  middles p hp := by
    obtain ⟨hlt, hd, hf⟩ := h.middles p hp
    rw [hq.deletes, hq.fidsOf]
    exact ⟨Nat.lt_of_lt_of_le hlt hq.next_le, hd, hf⟩
  nodup := h.nodup

/-- Deleting an object that is neither bound nor on its way. -/
theorem Held.delete (h : Held d W) (hlt : p < d.next) (hd : d.deletes p = 0)
    (hf : d.fidsOf p = 0) (hout : p ∉ W.flatten) : Held (d.delete p) W := by
  have hdel : ∀ q, q ≠ p → (d.delete p).deletes q = d.deletes q := by
    intro q hq
    simp [Dev.delete, hq]
  have hfids : ∀ q, (d.delete p).fidsOf q = d.fidsOf q := fun _ => rfl
  have hmid : ∀ q ∈ W.flatMap middle, q ≠ p := by
    rintro q hq rfl
    obtain ⟨w, hw, hqw⟩ := List.mem_flatMap.1 hq
    exact hout (List.mem_flatten.2
      ⟨w, hw, List.mem_of_mem_tail (List.dropLast_subset _ hqw)⟩)
  refine ⟨h.table.delete hlt, ?_, ?_, h.ends, ?_, h.nodup⟩
  · intro q
    by_cases hq : q = p
    · subst hq
      simp [Dev.delete, hd]
    · rw [hdel q hq]
      exact h.once q
  · intro q hq
    rw [hfids] at hq
    have hne : q ≠ p := by
      rintro rfl
      omega
    rw [hdel q hne]
    exact h.bound_live q hq
  · intro q hq
    obtain ⟨hl, hqd, hqf⟩ := h.middles q hq
    exact ⟨hl, by rw [hdel q (hmid q hq)]; exact hqd, hqf⟩

/-- Binding a live object that no response owns. -/
theorem Held.binds (h : Held d W) (hb : Dev.Binds d fid p e) (hlt : p < d.next)
    (hd : d.deletes p = 0) (hout : p ∉ W.flatMap middle) : Held e W where
  table := h.table.binds hb hlt
  once q := by rw [hb.deletes]; exact h.once q
  bound_live q hq := by
    rw [hb.deletes]
    by_cases hqp : q = p
    · rw [hqp]; exact hd
    · rw [hb.fidsOf, if_neg hqp, Nat.add_zero] at hq
      exact h.bound_live q hq
  ends w hw q hq := by
    rw [hb.fidsOf]
    rcases h.ends w hw q hq with hm | hbd
    · exact .inl hm
    · exact .inr (by omega)
  middles q hq := by
    obtain ⟨hl, hqd, hqf⟩ := h.middles q hq
    have hne : q ≠ p := fun e => hout (e ▸ hq)
    rw [hb.next, hb.deletes, hb.fidsOf, if_neg hne, Nat.add_zero]
    exact ⟨hl, hqd, hqf⟩
  nodup := h.nodup

/-- A table with a free fid has fewer than `2 ^ 32` entries. -/
theorem fidMap_length_lt (hT : d.Table) (hfree : d.getFid fid = none) :
    d.fidMap.length < 2 ^ 32 := by
  have hnot : fid ∉ d.fidMap.map Prod.fst := by
    intro hmem
    obtain ⟨b, hb, hfid⟩ := List.mem_map.1 hmem
    have hnone := List.lookup_eq_none_iff.1 hfree b hb
    simp [hfid] at hnone
  have hnd : ((fid :: d.fidMap.map Prod.fst).map UInt32.toNat).Nodup :=
    (List.nodup_cons.2 ⟨hnot, hT.nodup⟩).map fun _ _ => UInt32.toNat_inj.1
  have hsub : (fid :: d.fidMap.map Prod.fst).map UInt32.toNat ⊆ List.range (2 ^ 32) := by
    intro n hn
    obtain ⟨f, -, rfl⟩ := List.mem_map.1 hn
    exact List.mem_range.2 f.toNat_lt
  have hlen := (hnd.subperm hsub).length_le
  simp only [List.length_map, List.length_cons, List.length_range] at hlen
  omega

theorem fidsOf_le_length (d : Dev) (p : Ptr) : d.fidsOf p ≤ d.fidMap.length := by
  unfold Dev.fidsOf
  refine Nat.le_trans List.count_le_length ?_
  simp

/-- Unbinding deletes exactly the objects that lose their last fid. -/
theorem Held.deletes_unbinds (h : Held d W) (hu : Dev.Unbinds d fid p e)
    (hfree : e.getFid fid = none) (q : Ptr) :
    e.deletes q = if q = p ∧ e.fidsOf p = 0 then d.deletes q + 1 else d.deletes q := by
  have hlt : e.fidsOf p < 2 ^ 32 :=
    Nat.lt_of_le_of_lt (fidsOf_le_length e p) (fidMap_length_lt (h.table.unbinds hu) hfree)
  have hzero : (d.obj p).refcnt - 1 = 0 ↔ e.fidsOf p = 0 := by
    rw [hu.refcnt_sub h.table, ← UInt32.toNat_inj, UInt32.toNat_ofNat', Nat.mod_eq_of_lt hlt]
    rfl
  rw [hu.deletes q]
  simp only [hzero]

/-- Unbinding an object that keeps a fid or is not on its way. -/
theorem Held.unbinds (h : Held d W) (hu : Dev.Unbinds d fid p e)
    (hfree : e.getFid fid = none) (hsafe : e.fidsOf p = 0 → p ∉ W.flatten) : Held e W := by
  have hdel := h.deletes_unbinds hu hfree
  have hfids := hu.fidsOf h.table
  have hp0 : d.deletes p = 0 :=
    h.bound_live p (Dev.fidsOf_pos_iff.2 ⟨_, Dev.mem_of_getFid hu.bound, rfl⟩)
  refine ⟨h.table.unbinds hu, ?_, ?_, ?_, ?_, h.nodup⟩
  · intro q
    rw [hdel]
    split
    next hq =>
      rw [hq.1]
      omega
    · exact h.once q
  · intro q hq
    have hne : ¬ (q = p ∧ e.fidsOf p = 0) := by
      rintro ⟨rfl, h0⟩
      omega
    rw [hdel, if_neg hne]
    exact h.bound_live q (by rw [hfids]; omega)
  · intro w hw q hq
    rcases h.ends w hw q hq with hm | hbd
    · exact .inl hm
    · right
      rw [hfids] at hbd
      by_cases hqp : q = p
      · subst hqp
        rcases Nat.eq_zero_or_pos (e.fidsOf q) with h0 | hpos
        · exact absurd (List.mem_flatten.2 ⟨w, hw, hq⟩) (hsafe h0)
        · exact hpos
      · rwa [if_neg hqp, Nat.add_zero] at hbd
  · intro q hq
    obtain ⟨hl, hqd, hqf⟩ := h.middles q hq
    have hqp : q ≠ p := by
      rintro rfl
      rw [hfids, if_pos rfl] at hqf
      omega
    rw [hfids, if_neg hqp, Nat.add_zero] at hqf
    rw [hu.next, hdel, if_neg fun e => hqp e.1]
    exact ⟨hl, hqd, hqf⟩

/-! ## requests -/

theorem middle_cons (base : Ptr) (ps : List Ptr) : middle (base :: ps) = ps.dropLast := rfl

/-- A response without pointers adds nothing. -/
theorem Held.push_nil (h : Held d W) : Held d (W ++ [[]]) where
  table := h.table
  once := h.once
  bound_live := h.bound_live
  ends w hw p hp := by
    rcases List.mem_append.1 hw with hw | hw
    · exact h.ends w hw p hp
    · rw [List.mem_singleton.1 hw] at hp
      exact absurd hp List.not_mem_nil
  middles p hp := h.middles p (by simpa [middle] using hp)
  nodup := by simpa [middle] using h.nodup

/-- A walk that has just been made: its ends are bound, and the objects between
them are new. -/
theorem Held.push {base n : Ptr} {ps : List Ptr} (h : Held d W) (hbase : 0 < d.fidsOf base)
    (hlast : 0 < d.fidsOf (Dev.walkEnd base ps)) (hnd : ps.Nodup)
    (hold : ∀ p ∈ W.flatMap middle, p < n) (hnew : ∀ p ∈ ps, n ≤ p)
    (hmid : ∀ p ∈ ps.dropLast, p < d.next ∧ d.deletes p = 0 ∧ d.fidsOf p = 0) :
    Held d (W ++ [base :: ps]) where
  table := h.table
  once := h.once
  bound_live := h.bound_live
  ends w hw p hp := by
    rcases List.mem_append.1 hw with hw | hw
    · exact h.ends w hw p hp
    · rw [List.mem_singleton.1 hw] at hp ⊢
      rcases List.mem_cons.1 hp with rfl | hp
      · exact .inr hbase
      · have hne : ps ≠ [] := List.ne_nil_of_mem hp
        rw [← List.dropLast_append_getLast hne, List.mem_append, List.mem_singleton] at hp
        rcases hp with hp | rfl
        · exact .inl hp
        · right
          rwa [Dev.walkEnd, List.getLast?_eq_some_getLast hne] at hlast
  middles p hp := by
    rw [List.flatMap_append, List.mem_append] at hp
    rcases hp with hp | hp
    · exact h.middles p hp
    · exact hmid p (by simpa [middle_cons] using hp)
  nodup := by
    rw [List.flatMap_append, List.nodup_append]
    refine ⟨h.nodup, ?_, ?_⟩
    · simpa [middle_cons] using hnd.sublist (List.dropLast_sublist ps)
    · intro a ha b hb hab
      have hb' : b ∈ ps := List.dropLast_subset _ (by simpa [middle_cons] using hb)
      have h₁ := hold a ha
      have h₂ := hnew b hb'
      rw [hab] at h₁
      exact absurd h₁ (Nat.not_lt_of_le h₂)

/-- Binding where a walk ends, and handing out its pointers. -/
theorem Held.walk {base : Ptr} {ps : List Ptr} (h : Held v W)
    (hbase : 0 < v.fidsOf base) (hold : ∀ p ∈ W.flatMap middle, p < d.next) (hnd : ps.Nodup)
    (hfresh : ∀ p ∈ ps, d.next ≤ p ∧ p < v.next ∧ v.deletes p = 0 ∧ v.fidsOf p = 0)
    (hb : Dev.Binds v fid (Dev.walkEnd base ps) e) : Held e (W ++ [base :: ps]) := by
  have hend : Dev.walkEnd base ps < v.next ∧ v.deletes (Dev.walkEnd base ps) = 0 ∧
      Dev.walkEnd base ps ∉ W.flatMap middle := by
    by_cases hnil : ps = []
    · subst hnil
      refine ⟨h.lt_of_bound hbase, h.bound_live base hbase, fun hmem => ?_⟩
      have := (h.middles base hmem).2.2
      omega
    · obtain ⟨hge, hlt, hd, -⟩ := hfresh _ (Dev.walkEnd_mem hnil)
      exact ⟨hlt, hd, fun hmem => absurd (hold _ hmem) (Nat.not_lt_of_le hge)⟩
  refine (h.binds hb hend.1 hend.2.1 hend.2.2).push (n := d.next) ?_ ?_ hnd hold
    (fun p hp => (hfresh p hp).1) ?_
  · rw [hb.fidsOf]
    omega
  · rw [hb.fidsOf, if_pos rfl]
    omega
  · intro p hp
    have hmem := List.dropLast_subset _ hp
    obtain ⟨-, hlt, hd, hf⟩ := hfresh p hmem
    have hne : p ≠ Dev.walkEnd base ps := Dev.ne_walkEnd_of_mem_dropLast hnd hp
    rw [hb.next, hb.deletes, hb.fidsOf, if_neg hne, Nat.add_zero]
    exact ⟨hlt, hd, hf⟩

/-- What the condition says about an unbinding: if the object keeps no fid, its
count was one. -/
theorem refcnt_eq_one (hT : d.Table) (hu : Dev.Unbinds d fid p e) (h0 : e.fidsOf p = 0) :
    (d.obj p).refcnt = 1 := by
  rw [hT.counted p (hT.lt_of_getFid hu.bound), hu.fidsOf hT p, if_pos rfl, h0]
  rfl

/-- Taking a fid away, in a request that meets the condition. -/
theorem Held.release {base : Ptr} (h : Held d W) (hq : Dev.Quiet d u)
    (hfid : d.getFid fid = some base) (hr : u.removeFid fid = some v)
    (hsafe : (d.obj base).refcnt = 1 → base ∉ W.flatten) :
    Held v W ∧ Dev.Unbinds u fid base v := by
  obtain ⟨q, hu⟩ := Dev.removeFid_unbinds hr
  obtain rfl : base = q := by
    have hb := hu.bound
    rw [hq.getFid, hfid] at hb
    exact Option.some.inj hb
  have hku := h.quiet hq
  refine ⟨hku.unbinds hu (Dev.getFid_of_removeFid hr) fun h0 => hsafe ?_, hu⟩
  rw [← hq.refcnt base (h.table.lt_of_getFid hfid)]
  exact refcnt_eq_one hku.table hu h0

/-- Replacing the object of a fid by a new one. -/
theorem Held.replace {base : Ptr} (h : Held d W) (hq : Dev.Quiet d u)
    (hp : Dev.Fresh d u p) (hv : Held v W) (hu : Dev.Unbinds u fid base v)
    (hb : Dev.Binds v fid p e) : Held e W := by
  obtain ⟨hf, hd⟩ := h.table.fresh hq hp
  have hne : p ≠ base := by
    rintro rfl
    have hpos : 0 < u.fidsOf p := Dev.fidsOf_pos_iff.2 ⟨_, Dev.mem_of_getFid hu.bound, rfl⟩
    omega
  refine hv.binds hb ?_ ?_ fun hmem => ?_
  · rw [hu.next]
    exact hp.2
  · rw [hu.deletes, if_neg fun e => hne e.1]
    exact hd
  · exact absurd (h.middles p hmem).1 (Nat.not_lt_of_le hp.1)

/-- **Step**: a request that meets the condition keeps the invariant, with the
pointers of its response added. -/
theorem Held.effect {m : TMsg} {ps : List Ptr} (h : Held d W)
    (hsafe : ∀ p, Dev.unbinds env d m = some p → (d.obj p).refcnt = 1 →
      p ∉ W.flatten ∧ ∀ fid newfid ws, m ≠ .walk fid newfid ws)
    (he : Dev.Effect env d m e ps) : Held e (W ++ [ps]) := by
  have hold : ∀ p ∈ W.flatMap middle, p < d.next := fun p hp => (h.middles p hp).1
  have hflat : ∀ p, d.next ≤ p → p ∉ W.flatten := by
    intro p hp hmem
    obtain ⟨w, hw, hpw⟩ := List.mem_flatten.1 hmem
    exact absurd (h.live hw hpw).1 (Nat.not_lt_of_le hp)
  cases he with
  | quiet hq => exact (h.quiet hq).push_nil
  | drop hq hp =>
    obtain ⟨hf, hd⟩ := h.table.fresh hq hp
    exact ((h.quiet hq).delete hp.2 hd hf (hflat _ hp.1)).push_nil
  | attach hq hp hb =>
    obtain ⟨hf, hd⟩ := h.table.fresh hq hp
    refine Held.push_nil ((h.quiet hq).binds (Dev.bindFid_binds hb) hp.2 hd fun hmem => ?_)
    exact absurd (hold _ hmem) (Nat.not_lt_of_le hp.1)
  | walk hfid _ hq _ hnd hps _ hb =>
    have hbase := Dev.fidsOf_pos_iff.2 ⟨_, Dev.mem_of_getFid hfid, rfl⟩
    refine (h.quiet hq).walk (by rw [hq.fidsOf]; exact hbase) hold hnd ?_ (Dev.bindFid_binds hb)
    intro p hp
    obtain ⟨hf, hd⟩ := h.table.fresh hq (hps p hp)
    exact ⟨(hps p hp).1, (hps p hp).2, hd, hf⟩
  | @walkSelf fid ws base ps e u v hfid _ hq _ hnd hps hub hr hb =>
    -- the condition says that another fid keeps the object the walk starts from
    have hmany : (d.obj base).refcnt ≠ 1 := fun h1 => (hsafe base hub h1).2 _ _ _ rfl
    obtain ⟨hv, hu⟩ := h.release hq hfid hr fun h1 => absurd h1 hmany
    have hkept : 0 < v.fidsOf base := by
      refine Nat.pos_of_ne_zero fun h0 => hmany ?_
      rw [← hq.refcnt base (h.table.lt_of_getFid hfid)]
      exact refcnt_eq_one (h.table.quiet hq) hu h0
    refine hv.walk hkept hold hnd ?_ (Dev.bindFid_binds hb)
    intro p hp
    obtain ⟨hf, hd⟩ := h.table.fresh hq (hps p hp)
    have hlt := h.table.lt_of_getFid hfid
    have hne : p ≠ base := fun e => absurd (e ▸ hlt) (Nat.not_lt_of_le (hps p hp).1)
    have hfv := hu.fidsOf (h.table.quiet hq) p
    rw [if_neg hne, Nat.add_zero, hf] at hfv
    rw [hu.next, hu.deletes, if_neg fun e => hne e.1]
    exact ⟨(hps p hp).1, (hps p hp).2, hd, hfv.symm⟩
  | create hq hp hub hr hb =>
    have hfid := (Option.filter_eq_some_iff.1 hub).1
    obtain ⟨hv, hu⟩ := h.release hq hfid hr fun h1 => (hsafe _ hub h1).1
    exact (h.replace hq hp hv hu (Dev.bindFid_binds hb)).push_nil
  | clunk hq hub hr => exact (h.release hq hub hr fun h1 => (hsafe _ hub h1).1).1.push_nil
  | remove hq hub hr =>
    have hfid := (Option.filter_eq_some_iff.1 hub).1
    exact (h.release hq hfid hr fun h1 => (hsafe _ hub h1).1).1.push_nil

/-! ## responses -/

/-- Deleting a list of objects that are neither bound nor on their way. -/
theorem Held.deleteAll {l : List Ptr} (h : Held d W) (hnd : l.Nodup)
    (hl : ∀ p ∈ l, p < d.next ∧ d.deletes p = 0 ∧ d.fidsOf p = 0 ∧ p ∉ W.flatten) :
    Held (l.foldl Dev.delete d) W := by
  induction l generalizing d with
  | nil => exact h
  | cons p l ih =>
    obtain ⟨hlt, hd, hf, hout⟩ := hl p List.mem_cons_self
    rw [List.nodup_cons] at hnd
    refine ih (h.delete hlt hd hf hout) hnd.2 ?_
    intro q hq
    obtain ⟨hqlt, hqd, hqf, hqout⟩ := hl q (List.mem_cons_of_mem p hq)
    have hne : q ≠ p := fun e => hnd.1 (e ▸ hq)
    exact ⟨hqlt, by simpa [Dev.delete, hne] using hqd, hqf, hqout⟩

/-- The destructor of the oldest response. -/
theorem Held.destroy (h : Held d (w :: W)) : Held ((middle w).foldl Dev.delete d) W := by
  have hnd := h.nodup
  rw [List.flatMap_cons, List.nodup_append] at hnd
  have hrest : Held d W :=
    ⟨h.table, h.once, h.bound_live, fun x hx => h.ends x (List.mem_cons_of_mem w hx),
      fun p hp => h.middles p (by rw [List.flatMap_cons]; exact List.mem_append_right _ hp),
      hnd.2.1⟩
  refine hrest.deleteAll hnd.1 fun p hp => ?_
  obtain ⟨hlt, hd, hf⟩ :=
    h.middles p (by rw [List.flatMap_cons]; exact List.mem_append_left _ hp)
  refine ⟨hlt, hd, hf, fun hmem => ?_⟩
  -- in another response it would be an end, hence bound, or a second middle
  obtain ⟨x, hx, hpx⟩ := List.mem_flatten.1 hmem
  rcases hrest.ends x hx p hpx with hmid | hbound
  · exact hnd.2.2 p hp p (List.mem_flatMap.2 ⟨x, hx, hmid⟩) rfl
  · omega

/-! ## runs of the two threads -/

variable {s t : Loops} {a : Act}

theorem pointers_eq_flatten (s : Loops) : s.pointers = s.lists.flatten := List.flatMap_def

/-- `Process`, with the pointers of the response it returns. -/
theorem Held.process {r : TRequest} {resp : Option RResponse} (h : Held d W)
    (hsafe : r.msg.valid → ∀ p, Dev.unbinds env (d.register r.tag) r.msg = some p →
      (d.obj p).refcnt = 1 → p ∉ W.flatten ∧ ∀ fid newfid ws, r.msg ≠ .walk fid newfid ws)
    (hp : d.process env r = some (e, resp)) :
    Held e (W ++ [Dev.RResponse.pointers resp]) := by
  have hr := h.quiet (Dev.quiet_register d r.tag)
  by_cases hv : r.msg.valid
  · obtain ⟨u, he, rfl⟩ := Dev.process_effect hp
    refine Held.quiet (hr.effect ?_ he) (Dev.quiet_unregister u r.tag)
    rw [Dev.register_obj]
    exact hsafe hv
  · simp only [Dev.process, hv, Bool.false_eq_true, if_false, Dev.fail, Option.some.injEq,
      Prod.mk.injEq] at hp
    obtain ⟨rfl, rfl⟩ := hp
    exact (hr.quiet (Dev.quiet_unregister _ r.tag)).push_nil

theorem Held.pop_nil (h : Held d (W ++ [[]])) : Held d W where
  table := h.table
  once := h.once
  bound_live := h.bound_live
  ends w hw := h.ends w (List.mem_append_left _ hw)
  middles p hp := h.middles p (by simpa [middle] using hp)
  nodup := by simpa [middle] using h.nodup

/-- **Step of either thread.** -/
theorem act_held (h : Held s.dev s.lists) (hsafe : s.releaseSafe a) (ha : s.act a = some t) :
    Held t.dev t.lists := by
  cases acted_of_act ha with
  | @process env r resp t hidle hp hlists =>
    rw [releaseSafe, pointers_eq_flatten] at hsafe
    have hstep := h.process hsafe hp
    rw [hlists]
    cases resp with
    | none => simpa using hstep.pop_nil
    | some r => exact hstep
  | destroy hcurrent hdev hlists =>
    rw [hlists] at h
    rw [hdev]
    exact h.destroy
  | other hp hd hdev hlists =>
    rw [hdev, hlists]
    exact h

theorem init_held (host : Host) (authRequired : Bool) (sharename mountpoint : Bytes) :
    Held (init host authRequired sharename mountpoint).dev
      (init host authRequired sharename mountpoint).lists where
  table := .init host authRequired sharename mountpoint
  once _ := Nat.zero_le 1
  bound_live _ _ := rfl
  ends _ hw := absurd hw List.not_mem_nil
  middles _ hp := absurd hp List.not_mem_nil
  nodup := List.nodup_nil

/-- **Responses never dangle**: for every interleaving of the two threads in which
each processed request meets the condition, in every state reached a response
that is serialised or destroyed next points to live objects only, and no object
has been deleted twice. -/
theorem responses_never_dangle (host : Host) (authRequired : Bool) (sharename mountpoint : Bytes)
    (acts : List Act) (s : Loops)
    (h : Run (Guarded releaseSafe fun s a t => s.act a = some t)
      (init host authRequired sharename mountpoint) acts s) :
    (∀ a, ∀ p ∈ s.uses a, s.dev.Live p) ∧ ∀ p, s.dev.deletes p ≤ 1 := by
  have hH : Held s.dev s.lists :=
    h.invariant (I := fun s => Held s.dev s.lists) (fun _ _ _ hI hl => act_held hI hl.1 hl.2)
      (init_held host authRequired sharename mountpoint)
  refine ⟨fun a p hp => ?_, hH.once⟩
  have hcur : ∀ p ∈ Dev.RResponse.pointers (s.current.map Prod.fst), s.dev.Live p := by
    intro p hp
    cases hc : s.current with
    | none =>
      rw [hc] at hp
      exact absurd hp List.not_mem_nil
    | some x =>
      rw [hc] at hp
      have hmem : Dev.RResponse.pointers (some x.1) ∈ s.lists := by simp [lists, inFlight, hc]
      exact hH.live hmem hp
  cases a with
  | serialize limit => exact hcur p hp
  | destroy => exact hcur p hp
  | _ => exact absurd hp List.not_mem_nil

/-- The device with an empty share `/s`. -/
def shareLoops : Loops :=
  init (Dev.shareHost [ascii ['s']]) false (ascii ['s']) (render [ascii ['s']])

/-- Attach fid 1, see the response off, and walk `..` from it to fid 2. -/
def walkActs : List Act :=
  [.process Dev.calmEnv ⟨0, .attach 1 0xffffffff [] (ascii ['s'])⟩, .put, .get, .serialize 64,
    .destroy, .process Dev.calmEnv ⟨0, .walk 1 2 [dotdot]⟩, .put]

/-- These requests unbind nothing, so the walk's response is serialised with both
its objects live. -/
theorem walk_response_live :
    ∃ s, Run (Guarded releaseSafe fun s a t => s.act a = some t) shareLoops
        (walkActs ++ [.get]) s ∧
      s.uses (.serialize 64) = [0, 1] ∧ (∀ a, ∀ p ∈ s.uses a, s.dev.Live p) ∧
      ∀ p, s.dev.deletes p ≤ 1 := by
  have hrun : ∃ s, Run (Guarded releaseSafe fun s a t => s.act a = some t) shareLoops
      (walkActs ++ [.get]) s ∧ s.uses (.serialize 64) = [0, 1] := by
    have hnone : ∀ p : Ptr, (none : Option Ptr) ≠ some p := fun _ h => nomatch h
    exact ⟨_, .tail (.tail (.tail (.tail (.tail (.tail (.tail (.tail .refl
      ⟨fun _ p h => absurd h (hnone p), rfl⟩) ⟨trivial, rfl⟩) ⟨trivial, rfl⟩) ⟨trivial, rfl⟩)
      ⟨trivial, rfl⟩) ⟨fun _ p h => absurd h (hnone p), rfl⟩) ⟨trivial, rfl⟩) ⟨trivial, rfl⟩, rfl⟩
  obtain ⟨s, hs, huses⟩ := hrun
  exact ⟨s, hs, huses, responses_never_dangle _ _ _ _ _ s hs⟩

/-- Clunk fid 2 while the walk's response is on the queue: it is then serialised
with a pointer to a deleted object. -/
theorem clunk_before_serialize_dangles :
    ∃ s, exec act shareLoops
        (walkActs ++ [.process Dev.calmEnv ⟨0, .clunk 2⟩, .get]) = some s ∧
      1 ∈ s.uses (.serialize 64) ∧ ¬ s.dev.Live 1 := by
  refine ⟨_, rfl, ?_, ?_⟩ <;> decide

end Loops

end Ooows.P9
