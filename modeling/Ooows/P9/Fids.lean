import Ooows.Lib.Run
import Ooows.P9.Step
import Mathlib.Data.List.Induction

/-!
# Ooows.P9.Fids

The fid table of `P9Core` and the reference counts behind it.

* `Table` holds in every reachable state, whatever the requests were: fids are
  bound at most once, to objects that have been constructed, and `m_refcnt` is
  the number of bound fids modulo `2 ^ 32`.
* `FidsOk` is the intended invariant: bound objects are live and their count is
  exact.  It is *not* kept by every request.  A `TWalk` without names that walks
  a fid onto itself removes the fid first, which deletes the object if no other
  fid holds it, and then binds the deleted object again.  The same walk onto
  another fid makes the count wrap if it binds the last free fid to an object
  that all others are bound to.
* `cloneSafe` excludes exactly these two cases, and `fidsOk_iff_cloneSafe` says
  that nothing else breaks the invariant.  What the model says about requests is about
  runs of `SafeStep`, in which no fid refers to storage that was given back.
-/

namespace Ooows.P9

open Lib Lib.Path

namespace Dev

variable {env : Env} {s t u v : Dev} {p q : Ptr} {fid : UInt32}

/-- The number of fids bound to an object. -/
def fidsOf (s : Dev) (p : Ptr) : Nat := (s.fidMap.map Prod.snd).count p

/-- **The fid table invariant**: every bound fid refers to an object that has
been constructed and not deleted, and whose `m_refcnt` is the number of fids
bound to it. -/
def FidsOk (s : Dev) : Prop :=
  ∀ b ∈ s.fidMap, s.Live b.2 ∧ (s.obj b.2).refcnt.toNat = s.fidsOf b.2

instance (s : Dev) : Decidable s.FidsOk := inferInstanceAs (Decidable (∀ b ∈ s.fidMap, _))

/-- What holds of the table after any sequence of requests. -/
structure Table (s : Dev) : Prop where
  nodup : (s.fidMap.map Prod.fst).Nodup
  bound_lt : ∀ b ∈ s.fidMap, b.2 < s.next
  counted : ∀ p < s.next, (s.obj p).refcnt = UInt32.ofNat (s.fidsOf p)
  unborn : ∀ p, s.next ≤ p → s.deletes p = 0

/-! ## counting bindings -/

theorem mem_of_getFid (h : s.getFid fid = some p) : (fid, p) ∈ s.fidMap := by
  rw [getFid, List.lookup_eq_some_iff] at h
  obtain ⟨l₁, l₂, hm, -⟩ := h
  rw [hm]
  simp

theorem fidsOf_pos_iff : 0 < s.fidsOf p ↔ ∃ b ∈ s.fidMap, b.2 = p := by
  simp [fidsOf, List.count_pos_iff]

theorem fidsOf_eq_zero (h : ∀ b ∈ s.fidMap, b.2 ≠ p) : s.fidsOf p = 0 := by
  rcases Nat.eq_zero_or_pos (s.fidsOf p) with h0 | hpos
  · exact h0
  · obtain ⟨b, hb, hp⟩ := fidsOf_pos_iff.1 hpos
    exact absurd hp (h b hb)

/-- Filtering a fid out of a table without duplicates takes away one binding. -/
theorem count_filter_ne (m : List (UInt32 × Ptr)) (hnd : (m.map Prod.fst).Nodup)
    (hl : m.lookup fid = some p) (q : Ptr) :
    (m.map Prod.snd).count q =
      ((m.filter fun b => b.1 ≠ fid).map Prod.snd).count q + if q = p then 1 else 0 := by
  induction m with
  | nil => simp at hl
  | cons b m ih =>
    rw [List.map_cons, List.nodup_cons] at hnd
    by_cases hb : b.1 = fid
    · -- the binding itself: no other entry has this fid
      have hrest : (m.filter fun c => c.1 ≠ fid) = m := by
        rw [List.filter_eq_self]
        intro c hc
        have : c.1 ≠ fid := fun e => hnd.1 (List.mem_map.2 ⟨c, hc, e.trans hb.symm⟩)
        simpa using this
      have hbf : (fid == b.1) = true := by simpa using hb.symm
      rw [List.lookup_cons, hbf] at hl
      have hbp : b.2 = p := Option.some.inj hl
      rw [List.filter_cons_of_neg (by simpa using hb), hrest, List.map_cons, List.count_cons, hbp]
      by_cases hq : q = p
      · simp [hq]
      · simp [hq, Ne.symm hq]
    · have hbf : (fid == b.1) = false := by simpa using Ne.symm hb
      rw [List.lookup_cons, hbf] at hl
      rw [List.filter_cons_of_pos (by simpa using hb), List.map_cons, List.map_cons,
        List.count_cons, List.count_cons, ih hnd.2 hl]
      omega

/-! ## what binding and unbinding change -/

structure Binds (s : Dev) (fid : UInt32) (p : Ptr) (t : Dev) : Prop where
  free : s.getFid fid = none
  fidMap : t.fidMap = (fid, p) :: s.fidMap
  next : t.next = s.next
  deletes : t.deletes = s.deletes
  refcnt : ∀ q, (t.obj q).refcnt = if q = p then (s.obj p).refcnt + 1 else (s.obj q).refcnt

theorem bindFid_binds (h : s.bindFid fid p = some t) : Binds s fid p t := by
  unfold bindFid at h
  split at h
  · contradiction
  next hfree =>
    cases h
    refine ⟨by simpa using hfree, rfl, rfl, rfl, fun q => ?_⟩
    by_cases hq : q = p
    · subst hq; simp [incRef, setObj]
    · simp [incRef, setObj, hq]

structure Unbinds (s : Dev) (fid : UInt32) (p : Ptr) (t : Dev) : Prop where
  bound : s.getFid fid = some p
  fidMap : t.fidMap = s.fidMap.filter fun b => b.1 ≠ fid
  next : t.next = s.next
  refcnt : ∀ q, (t.obj q).refcnt = if q = p then (s.obj p).refcnt - 1 else (s.obj q).refcnt
  deletes : ∀ q, t.deletes q =
    if q = p ∧ (s.obj p).refcnt - 1 = 0 then s.deletes q + 1 else s.deletes q

theorem removeFid_unbinds (h : s.removeFid fid = some t) : ∃ p, Unbinds s fid p t := by
  unfold removeFid at h
  split at h
  · contradiction
  next p hp =>
    cases h
    refine ⟨p, hp, ?_, ?_, fun q => ?_, fun q => ?_⟩
    · unfold decRef; dsimp only; split <;> rfl
    · unfold decRef; dsimp only; split <;> rfl
    · by_cases hq : q = p
      · subst hq; unfold decRef; dsimp only; split <;> simp [setObj, delete]
      · unfold decRef; dsimp only; split <;> simp [setObj, delete, hq]
    · by_cases hq : q = p
      · subst hq; unfold decRef; dsimp only; split <;> simp_all [setObj, delete]
      · unfold decRef; dsimp only; split <;> simp [setObj, delete, hq]

theorem Binds.fidsOf (h : Binds s fid p t) (q : Ptr) :
    t.fidsOf q = s.fidsOf q + if q = p then 1 else 0 := by
  simp only [Dev.fidsOf, h.fidMap, List.map_cons, List.count_cons]
  by_cases hq : q = p
  · simp [hq]
  · simp [hq, Ne.symm hq]

theorem Unbinds.fidsOf (h : Unbinds s fid p t) (hT : Table s) (q : Ptr) :
    s.fidsOf q = t.fidsOf q + if q = p then 1 else 0 := by
  rw [Dev.fidsOf, Dev.fidsOf, h.fidMap]
  exact count_filter_ne s.fidMap hT.nodup h.bound q

/-! ## the table, unconditionally -/

theorem Table.fidsOf_eq_zero (hT : Table s) (hp : s.next ≤ p) : s.fidsOf p = 0 := by
  refine Dev.fidsOf_eq_zero fun b hb e => ?_
  have hlt := hT.bound_lt b hb
  rw [e] at hlt
  exact absurd hlt (Nat.not_lt_of_le hp)

theorem Table.lt_of_getFid (hT : Table s) (h : s.getFid fid = some p) : p < s.next :=
  hT.bound_lt _ (mem_of_getFid h)

theorem Quiet.fidsOf (h : Quiet s t) (p : Ptr) : t.fidsOf p = s.fidsOf p := by
  rw [Dev.fidsOf, Dev.fidsOf, h.fidMap]

theorem Table.quiet (hT : Table s) (h : Quiet s t) : Table t where
  nodup := by rw [h.fidMap]; exact hT.nodup
  bound_lt b hb := by
    rw [h.fidMap] at hb
    exact Nat.lt_of_lt_of_le (hT.bound_lt b hb) h.next_le
  counted p hp := by
    rw [h.fidsOf]
    by_cases hs : p < s.next
    · rw [h.refcnt p hs, hT.counted p hs]
    · have hle : s.next ≤ p := Nat.le_of_not_lt hs
      rw [h.fresh p hle hp, hT.fidsOf_eq_zero hle]
      rfl
  unborn p hp := by
    rw [h.deletes]
    exact hT.unborn p (Nat.le_trans h.next_le hp)

theorem Table.delete (hT : Table s) (hp : p < s.next) : Table (s.delete p) where
  nodup := hT.nodup
  bound_lt := hT.bound_lt
  counted := hT.counted
  unborn q hq := by
    have hne : q ≠ p := fun e => absurd hp (Nat.not_lt_of_le (e ▸ hq))
    simpa [Dev.delete, hne] using hT.unborn q hq

theorem Table.binds (hT : Table s) (h : Binds s fid p t) (hp : p < s.next) : Table t where
  nodup := by
    rw [h.fidMap, List.map_cons, List.nodup_cons]
    refine ⟨fun hmem => ?_, hT.nodup⟩
    obtain ⟨b, hb, hfid⟩ := List.mem_map.1 hmem
    have hnone := List.lookup_eq_none_iff.1 h.free b hb
    simp [hfid] at hnone
  bound_lt b hb := by
    rw [h.next]
    rw [h.fidMap] at hb
    rcases List.mem_cons.1 hb with rfl | hb
    · exact hp
    · exact hT.bound_lt b hb
  counted q hq := by
    rw [h.next] at hq
    rw [h.refcnt, h.fidsOf]
    by_cases hqp : q = p
    · subst hqp
      rw [if_pos rfl, if_pos rfl, hT.counted q hq, UInt32.ofNat_add]
      rfl
    · rw [if_neg hqp, if_neg hqp, hT.counted q hq, Nat.add_zero]
  unborn q hq := by
    rw [h.deletes]
    rw [h.next] at hq
    exact hT.unborn q hq

/-- What `DecRef` leaves is the number of fids still bound. -/
theorem Unbinds.refcnt_sub (h : Unbinds s fid p t) (hT : Table s) :
    (s.obj p).refcnt - 1 = UInt32.ofNat (t.fidsOf p) := by
  have hc := hT.counted p (hT.lt_of_getFid h.bound)
  rw [h.fidsOf hT p, if_pos rfl, UInt32.ofNat_add] at hc
  rw [hc]
  exact UInt32.add_sub_cancel _ _

theorem Table.unbinds (hT : Table s) (h : Unbinds s fid p t) : Table t where
  nodup := by
    rw [h.fidMap]
    exact hT.nodup.sublist (List.filter_sublist.map Prod.fst)
  bound_lt b hb := by
    rw [h.next]
    rw [h.fidMap] at hb
    exact hT.bound_lt b (List.mem_filter.1 hb).1
  counted q hq := by
    rw [h.next] at hq
    rw [h.refcnt]
    by_cases hqp : q = p
    · subst hqp
      rw [if_pos rfl, h.refcnt_sub hT]
    · have hf := h.fidsOf hT q
      rw [if_neg hqp, Nat.add_zero] at hf
      rw [if_neg hqp, hT.counted q hq, hf]
  unborn q hq := by
    rw [h.next] at hq
    have hp := hT.lt_of_getFid h.bound
    have hne : q ≠ p := fun e => absurd hp (Nat.not_lt_of_le (e ▸ hq))
    rw [h.deletes, if_neg (fun e => hne e.1)]
    exact hT.unborn q hq

variable {base : Ptr} {ps : List Ptr}

theorem walkEnd_mem (h : ps ≠ []) : walkEnd base ps ∈ ps := by
  rw [walkEnd, List.getLast?_eq_some_getLast h]
  exact List.getLast_mem h

/-- Where a walk ends is an object that exists by then. -/
theorem walkEnd_lt (hb : base < s.next) (h : Quiet s u)
    (hps : ∀ p ∈ ps, Fresh s u p) : walkEnd base ps < u.next := by
  by_cases hnil : ps = []
  · subst hnil
    exact Nat.lt_of_lt_of_le hb h.next_le
  · exact (hps _ (walkEnd_mem hnil)).2

theorem Table.effect {m : TMsg} (hT : Table s) (h : Effect env s m t ps) :
    Table t := by
  cases h with
  | quiet h => exact hT.quiet h
  | drop h hp => exact (hT.quiet h).delete hp.2
  | attach h hp hb => exact (hT.quiet h).binds (bindFid_binds hb) hp.2
  | walk hfid _ h _ _ hps _ hb =>
    exact (hT.quiet h).binds (bindFid_binds hb) (walkEnd_lt (hT.lt_of_getFid hfid) h hps)
  | walkSelf hfid _ h _ _ hps _ hr hb =>
    obtain ⟨q, hu⟩ := removeFid_unbinds hr
    refine ((hT.quiet h).unbinds hu).binds (bindFid_binds hb) ?_
    rw [hu.next]
    exact walkEnd_lt (hT.lt_of_getFid hfid) h hps
  | create h hp _ hr hb =>
    obtain ⟨q, hu⟩ := removeFid_unbinds hr
    refine ((hT.quiet h).unbinds hu).binds (bindFid_binds hb) ?_
    rw [hu.next]
    exact hp.2
  | clunk h _ hr =>
    obtain ⟨q, hu⟩ := removeFid_unbinds hr
    exact (hT.quiet h).unbinds hu
  | remove h _ hr =>
    obtain ⟨q, hu⟩ := removeFid_unbinds hr
    exact (hT.quiet h).unbinds hu

/-! ## live objects and exact counts -/

/-- `FidsOk` in terms of the table: bound objects are not deleted, and there are
few enough fids for the count not to wrap. -/
def Sound (s : Dev) : Prop :=
  ∀ p, 0 < s.fidsOf p → s.deletes p = 0 ∧ s.fidsOf p < 2 ^ 32

theorem fidsOk_iff_sound (hT : Table s) : s.FidsOk ↔ s.Sound := by
  have hcount : ∀ p < s.next, (s.obj p).refcnt.toNat = s.fidsOf p % 2 ^ 32 := by
    intro p hp
    rw [hT.counted p hp, UInt32.toNat_ofNat']
  constructor
  · intro h p hp
    obtain ⟨b, hb, rfl⟩ := fidsOf_pos_iff.1 hp
    obtain ⟨⟨hlt, hdel⟩, href⟩ := h b hb
    rw [hcount _ hlt] at href
    exact ⟨hdel, href ▸ Nat.mod_lt _ (by decide)⟩
  · intro h b hb
    have hlt := hT.bound_lt b hb
    obtain ⟨hdel, hfew⟩ := h b.2 (fidsOf_pos_iff.2 ⟨b, hb, rfl⟩)
    refine ⟨⟨hlt, hdel⟩, ?_⟩
    rw [hcount _ hlt, Nat.mod_eq_of_lt hfew]

theorem Sound.quiet (hS : Sound s) (h : Quiet s t) : Sound t := by
  intro p hp
  rw [h.fidsOf] at hp ⊢
  rw [h.deletes]
  exact hS p hp

theorem Sound.binds (hS : Sound s) (h : Binds s fid p t) (hd : s.deletes p = 0)
    (hf : s.fidsOf p + 1 < 2 ^ 32) : Sound t := by
  intro q hq
  rw [h.fidsOf] at hq ⊢
  rw [h.deletes]
  by_cases hqp : q = p
  · subst hqp
    simpa using ⟨hd, hf⟩
  · rw [if_neg hqp, Nat.add_zero] at hq ⊢
    exact hS q hq

/-- Unbinding deletes an object only when its last fid goes. -/
theorem Unbinds.deletes_of_bound (h : Unbinds s fid p t) (hT : Table s) (hS : Sound s)
    (hq : 0 < t.fidsOf q) : t.deletes q = s.deletes q := by
  rw [h.deletes, if_neg]
  rintro ⟨rfl, hzero⟩
  have hf := h.fidsOf hT q
  rw [if_pos rfl] at hf
  have hlt : s.fidsOf q < 2 ^ 32 := (hS q (by omega)).2
  rw [h.refcnt_sub hT] at hzero
  have hnat : t.fidsOf q % 2 ^ 32 = 0 := by
    simpa using congrArg UInt32.toNat hzero
  rw [Nat.mod_eq_of_lt (by omega)] at hnat
  omega

theorem Sound.unbinds (hS : Sound s) (hT : Table s) (h : Unbinds s fid p t) : Sound t := by
  intro q hq
  have hf := h.fidsOf hT q
  rw [h.deletes_of_bound hT hS hq]
  have := hS q (by omega)
  exact ⟨this.1, by omega⟩

/-- An object constructed on the way has no fids and has not been deleted. -/
theorem Table.fresh (hT : Table s) (h : Quiet s u) (hp : Fresh s u p) :
    u.fidsOf p = 0 ∧ u.deletes p = 0 := by
  rw [h.fidsOf, h.deletes]
  exact ⟨hT.fidsOf_eq_zero hp.1, hT.unborn p hp.1⟩

theorem Sound.delete_fresh (hS : Sound s) (hT : Table s) (h : Quiet s u) (hp : Fresh s u p) :
    Sound (u.delete p) := by
  intro q hq
  have hne : q ≠ p := by
    rintro rfl
    have h0 : u.fidsOf q = 0 := (hT.fresh h hp).1
    exact absurd hq (by simp only [Dev.fidsOf, Dev.delete] at h0 ⊢; omega)
  have hq' := (hS.quiet h) q hq
  exact ⟨by simpa [Dev.delete, hne] using hq'.1, hq'.2⟩

theorem Sound.binds_fresh (hS : Sound s) (hT : Table s) (h : Quiet s u) (hp : Fresh s u p)
    (hb : Binds u fid p t) : Sound t := by
  obtain ⟨hf, hd⟩ := hT.fresh h hp
  exact (hS.quiet h).binds hb hd (by omega)

/-- Replacing the object of a fid by a new one. -/
theorem Sound.replace_fresh (hS : Sound s) (hT : Table s) (h : Quiet s u) (hp : Fresh s u p)
    (hr : Unbinds u fid q v) (hb : Binds v fid p t) : Sound t := by
  have hTu := hT.quiet h
  have hSu := hS.quiet h
  obtain ⟨hf, hd⟩ := hT.fresh h hp
  have hne : p ≠ q := by
    rintro rfl
    have hpos : 0 < u.fidsOf p := fidsOf_pos_iff.2 ⟨_, mem_of_getFid hr.bound, rfl⟩
    omega
  have hfv := hr.fidsOf hTu p
  refine (hSu.unbinds hTu hr).binds hb ?_ (by omega)
  rw [hr.deletes, if_neg fun e => hne e.1]
  exact hd

/-! ## the condition -/

/-- Not one of the two walks without names that go wrong: a walk of a fid onto
itself when it is its object's only fid, and a walk onto a free fid when the
object has `2 ^ 32 - 1` fids already. -/
def cloneSafe (s : Dev) : TMsg → Bool
  | .walk fid newfid [] =>
    match s.getFid fid with
    | none => true
    | some base =>
      (s.obj base).type ≠ p9QTDIR ||
        if fid = newfid then s.fidsOf base ≠ 1
        else (s.getFid newfid).isSome || s.fidsOf base + 1 ≠ 2 ^ 32
  | _ => true

theorem cloneSafe_register (s : Dev) (tag : UInt16) (m : TMsg) :
    (s.register tag).cloneSafe m = s.cloneSafe m := by
  unfold register
  split <;> rfl

/-- **Step**: a request that meets the condition keeps the invariant. -/
theorem Sound.effect {m : TMsg} (hS : Sound s) (hT : Table s)
    (hm : s.cloneSafe m) (h : Effect env s m t ps) : Sound t := by
  cases h with
  | quiet h => exact hS.quiet h
  | drop h hp => exact hS.delete_fresh hT h hp
  | attach h hp hb => exact hS.binds_fresh hT h hp (bindFid_binds hb)
  | @walk fid newfid ws base ps t u hfid hdir h hlen _ hps hne hb =>
    have hB := bindFid_binds hb
    by_cases hnil : ps = []
    · -- the clone: one more fid for an object that has some already
      subst hnil
      obtain rfl : ws = [] := List.length_eq_zero_iff.1 hlen.symm
      have hpos : 0 < s.fidsOf base := fidsOf_pos_iff.2 ⟨_, mem_of_getFid hfid, rfl⟩
      obtain ⟨hd, hf⟩ := hS base hpos
      have hfree : s.getFid newfid = none := by rw [← h.getFid]; exact hB.free
      have hlast : s.fidsOf base + 1 ≠ 2 ^ 32 := by
        simpa [cloneSafe, hfid, hdir, hne, hfree] using hm
      refine (hS.quiet h).binds hB ?_ ?_
      · rw [h.deletes]; exact hd
      · rw [h.fidsOf]
        show s.fidsOf base + 1 < 2 ^ 32
        omega
    · exact hS.binds_fresh hT h (hps _ (walkEnd_mem hnil)) hB
  | @walkSelf fid ws base ps t u v hfid hdir h hlen _ hps _ hr hb =>
    have hB := bindFid_binds hb
    obtain ⟨q, hU⟩ := removeFid_unbinds hr
    by_cases hnil : ps = []
    · subst hnil
      obtain rfl : ws = [] := List.length_eq_zero_iff.1 hlen.symm
      obtain rfl : base = q := by
        have := hU.bound
        rw [h.getFid, hfid] at this
        exact Option.some.inj this
      have hpos : 0 < s.fidsOf base := fidsOf_pos_iff.2 ⟨_, mem_of_getFid hfid, rfl⟩
      obtain ⟨hd, hf⟩ := hS base hpos
      have hmany : s.fidsOf base ≠ 1 := by simpa [cloneSafe, hfid, hdir] using hm
      have hTu := hT.quiet h
      have hSu := hS.quiet h
      have hfv := hU.fidsOf hTu base
      rw [h.fidsOf, if_pos rfl] at hfv
      -- another fid keeps the object alive between the removal and the binding
      refine (hSu.unbinds hTu hU).binds hB ?_ ?_
      · show v.deletes base = 0
        rw [hU.deletes_of_bound hTu hSu (by omega), h.deletes]
        exact hd
      · show v.fidsOf base + 1 < 2 ^ 32
        omega
    · exact hS.replace_fresh hT h (hps _ (walkEnd_mem hnil)) hU hB
  | create h hp _ hr hb =>
    obtain ⟨q, hU⟩ := removeFid_unbinds hr
    exact hS.replace_fresh hT h hp hU (bindFid_binds hb)
  | clunk h _ hr =>
    obtain ⟨q, hU⟩ := removeFid_unbinds hr
    exact (hS.quiet h).unbinds (hT.quiet h) hU
  | remove h _ hr =>
    obtain ⟨q, hU⟩ := removeFid_unbinds hr
    exact (hS.quiet h).unbinds (hT.quiet h) hU

/-- The walk of a fid onto itself ends with a deleted object bound. -/
theorem walkSelf_breaks (hT : Table s) (hfid : s.getFid fid = some base)
    (hone : s.fidsOf base = 1) (hr : s.removeFid fid = some u)
    (hb : u.bindFid fid base = some t) : ¬ Sound t := by
  intro hS
  obtain ⟨q, hU⟩ := removeFid_unbinds hr
  obtain rfl : base = q := Option.some.inj (hfid.symm.trans hU.bound)
  have hB := bindFid_binds hb
  have hfu := hU.fidsOf hT base
  rw [if_pos rfl, hone] at hfu
  have hzero : (s.obj base).refcnt - 1 = 0 := by
    rw [hU.refcnt_sub hT, show u.fidsOf base = 0 by omega]
    rfl
  have hdel : t.deletes base = s.deletes base + 1 := by
    rw [hB.deletes, hU.deletes, if_pos ⟨rfl, hzero⟩]
  have hpos : 0 < t.fidsOf base := by
    rw [hB.fidsOf, if_pos rfl]
    omega
  have := (hS base hpos).1
  omega

/-- The binding of the very last fid makes the count wrap. -/
theorem walk_breaks (hlast : s.fidsOf base + 1 = 2 ^ 32)
    (hb : s.bindFid fid base = some t) : ¬ Sound t := by
  intro hS
  have hf := (bindFid_binds hb).fidsOf base
  rw [if_pos rfl, hlast] at hf
  have := (hS base (by omega)).2
  omega

/-- **Converse step**: a request that does not meet the condition runs to its end
and breaks the invariant. -/
theorem execute_breaks (env : Env) {m : TMsg} (hT : Table s) (hm : s.cloneSafe m = false) :
    m.valid ∧ ∃ t res, execute env m s = some (t, res) ∧ ¬ Sound t := by
  unfold cloneSafe at hm
  split at hm
  next fid newfid =>
    refine ⟨rfl, ?_⟩
    split at hm
    · contradiction
    next base hfid =>
      simp only [Bool.or_eq_false_iff, decide_eq_false_iff_not, not_not] at hm
      obtain ⟨hdir, hm⟩ := hm
      by_cases hself : fid = newfid
      · subst hself
        have hone : s.fidsOf base = 1 := by simpa using hm
        obtain ⟨u, hr⟩ := exists_removeFid hfid
        obtain ⟨t, hb⟩ := exists_bindFid hr base
        refine ⟨t, .ok (some (.walk [base])), ?_, walkSelf_breaks hT hfid hone hr hb⟩
        simp [execute, executeWalk, hfid, hdir, walkNames, hr, hb, reply]
      · simp only [if_neg hself, Bool.or_eq_false_iff] at hm
        have hfree : s.getFid newfid = none := by simpa using hm.1
        have hlast : s.fidsOf base + 1 = 2 ^ 32 := by simpa using hm.2
        obtain ⟨t, hb⟩ := Option.ne_none_iff_exists'.1 (bindFid_ne_none (p := base) hfree)
        refine ⟨t, .ok (some (.walk [base])), ?_, walk_breaks hlast hb⟩
        simp [execute, executeWalk, hfid, hdir, walkNames, hself, hb, reply]
  · contradiction

/-! ## runs of `RequestLoop` -/

/-- One turn of `RequestLoop`: process a request in the environment it meets. -/
def step (s : Dev) (l : Env × TRequest) : Option Dev := (process l.1 l.2 s).map Prod.fst

variable {l : Env × TRequest}

theorem step_effect (h : s.step l = some t) :
    ∃ u ps, Effect l.1 (s.register l.2.tag) l.2.msg u ps ∧ t = u.unregister l.2.tag := by
  obtain ⟨⟨t, resp⟩, hp, rfl⟩ := Option.map_eq_some_iff.1 h
  obtain ⟨u, he, ht⟩ := process_effect hp
  exact ⟨u, _, he, ht⟩

theorem Table.step (hT : Table s) (h : s.step l = some t) : Table t := by
  obtain ⟨u, ps, he, rfl⟩ := step_effect h
  exact ((hT.quiet (quiet_register s _)).effect he).quiet (quiet_unregister u _)

theorem Sound.step (hS : Sound s) (hT : Table s)
    (hl : s.cloneSafe l.2.msg) (h : s.step l = some t) : Sound t := by
  obtain ⟨u, ps, he, rfl⟩ := step_effect h
  have hq := quiet_register s l.2.tag
  have hl' : (s.register l.2.tag).cloneSafe l.2.msg := by rwa [cloneSafe_register]
  exact ((hS.quiet hq).effect (hT.quiet hq) hl' he).quiet (quiet_unregister u _)

theorem step_breaks (hT : Table s) (hl : s.cloneSafe l.2.msg = false) :
    ∃ t, s.step l = some t ∧ ¬ Sound t := by
  have hTr := hT.quiet (quiet_register s l.2.tag)
  obtain ⟨hv, t, res, he, ht⟩ := execute_breaks l.1 hTr (by rwa [cloneSafe_register])
  refine ⟨t.unregister l.2.tag, ?_, fun hS => ht (hS.quiet (quiet_of_eq rfl rfl rfl rfl))⟩
  simp [step, process, hv, he]

theorem Table.init (host : Host) (authRequired : Bool) (sharename mountpoint : Bytes) :
    Table (init host authRequired sharename mountpoint) :=
  ⟨List.nodup_nil, fun _ h => absurd h List.not_mem_nil, fun _ h => absurd h (Nat.not_lt_zero _),
    fun _ _ => rfl⟩

theorem Table.exec {ls : List (Env × TRequest)} (hT : Table s)
    (h : Lib.exec Dev.step s ls = some t) : Table t :=
  ((run_iff_exec Dev.step).2 h).invariant (fun _ _ _ hT hl => hT.step hl) hT

/-- `RequestLoop` with requests that meet the condition. -/
abbrev SafeStep : Dev → Env × TRequest → Dev → Prop :=
  Guarded (fun s l => s.cloneSafe l.2.msg) fun s l t => s.step l = some t

/-- **Nobody uses a deleted object** as long as the requests meet the condition. -/
theorem fidsOk_of_run {host : Host} {authRequired : Bool} {sharename mountpoint : Bytes}
    {ls : List (Env × TRequest)}
    (h : Run SafeStep (init host authRequired sharename mountpoint) ls s) : Table s ∧ s.FidsOk := by
  have hinv : Table s ∧ Sound s :=
    h.invariant (I := fun s => Table s ∧ Sound s)
      (fun _ _ _ hI hl => ⟨hI.1.step hl.2, hI.2.step hI.1 hl.1 hl.2⟩)
      ⟨.init .., fun p hp => absurd hp (Nat.not_lt_zero _)⟩
  exact ⟨hinv.1, (fidsOk_iff_sound hinv.1).2 hinv.2⟩

theorem FidsOk.live (h : s.FidsOk) (hfid : s.getFid fid = some p) : s.Live p :=
  (h _ (mem_of_getFid hfid)).1

/-- **Fid table**: for every sequence of requests, the invariant holds in every
state `RequestLoop` reaches, and `GetFid` then only returns live objects, if and
only if no request on the way is one of the two walks `cloneSafe` excludes. -/
theorem fidsOk_iff_cloneSafe (host : Host) (authRequired : Bool) (sharename mountpoint : Bytes)
    (ls : List (Env × TRequest)) :
    (∀ pre t, pre <+: ls →
        exec step (init host authRequired sharename mountpoint) pre = some t →
        t.FidsOk ∧ ∀ fid p, t.getFid fid = some p → t.Live p) ↔
      ∀ pre l s, pre ++ [l] <+: ls →
        exec step (init host authRequired sharename mountpoint) pre = some s →
        s.cloneSafe l.2.msg := by
  have hT : ∀ {pre t}, exec step (init host authRequired sharename mountpoint) pre = some t →
      Table t := fun h => (Table.init ..).exec h
  constructor
  · intro h pre l s hpre hs
    by_contra hl
    obtain ⟨t, hst, ht⟩ := step_breaks (l := l) (hT hs) (by simpa using hl)
    have hex : exec step (init host authRequired sharename mountpoint) (pre ++ [l]) = some t := by
      rw [exec_concat, hs]
      exact hst
    exact ht ((fidsOk_iff_sound (hT hex)).1 (h _ t hpre hex).1)
  · intro h
    -- by induction on the prefix: its last request met the condition
    have hS : ∀ pre t, pre <+: ls →
        exec step (init host authRequired sharename mountpoint) pre = some t → Sound t := by
      intro pre
      induction pre using List.reverseRecOn with
      | nil =>
        intro t _ ht
        cases ht
        intro p hp
        exact absurd hp (Nat.not_lt_zero _)
      | append_singleton pre l ih =>
        intro t hpre ht
        rw [exec_concat] at ht
        obtain ⟨s, hs, hst⟩ := Option.bind_eq_some_iff.1 ht
        have hS := ih s ((List.prefix_append pre [l]).trans hpre) hs
        exact hS.step (hT hs) (h pre l s hpre hs) hst
    intro pre t hpre ht
    have hok : t.FidsOk := (fidsOk_iff_sound (hT ht)).2 (hS pre t hpre ht)
    exact ⟨hok, fun fid p hp => hok.live hp⟩

/-- A host whose only entry is the share's directory. -/
def shareHost (mount : List Bytes) : Host where
  cwd := []
  node cs := if cs = mount then some .dir else none
  data _ := []
  nextIno := 0
  fds := []

/-- An environment in which the host refuses nothing. -/
def calmEnv : Env where
  refuse _ := false
  ioError := false
  accepts _ := true
  written n := n
  dirSize := 0
  uninitType := 0
  uninitMode := 0
  uninitFd := 0
  uninitQid := ⟨0, 0, 0⟩

/-- Attach fid 1 and walk it onto itself without names: fid 1 is then bound to an
object that has been deleted. -/
theorem walk_onto_itself_binds_deleted :
    ∃ t, exec step (init (shareHost [ascii ['s']]) false (ascii ['s']) (render [ascii ['s']]))
        [(calmEnv, ⟨0, .attach 1 0xffffffff [] (ascii ['s'])⟩),
          (calmEnv, ⟨0, .walk 1 1 []⟩)] = some t ∧
      t.getFid 1 = some 0 ∧ ¬ t.Live 0 ∧ ¬ t.FidsOk := by
  refine ⟨_, rfl, ?_, ?_, ?_⟩ <;> decide

end Dev

end Ooows.P9
