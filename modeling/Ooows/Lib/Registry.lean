import Mathlib.Data.List.Basic
import Mathlib.Order.Defs.Unbundled

/-!
# Ooows.Lib.Registry

A list of keys that is searched by an order, not by equality.

Items are registered one after the other.  An item belongs to the newest key that is below
its own (`owner`); its own key is entered only when there is none.  Every item belongs to its
own key if and only if none follows an item with a smaller key (`forall_owners_iff`).
-/

namespace Ooows.Lib.Registry

variable {κ α : Type*} (R : κ → κ → Prop) [DecidableRel R]

/-- The key an item is registered under. -/
def owner (keys : List κ) (k : κ) : κ := (keys.find? fun q => R q k).getD k

/-- The keys after that. -/
def enter (keys : List κ) (k : κ) : List κ :=
  match keys.find? fun q => R q k with
  | some _ => keys
  | none => k :: keys

/-- The items with the keys they are registered under. -/
def owners (key : α → κ) (keys : List κ) : List α → List (κ × α)
  | [] => []
  | x :: xs => (owner R keys (key x), x) :: owners key (enter R keys (key x)) xs

theorem map_snd_owners (key : α → κ) (keys : List κ) (xs : List α) :
    (owners R key keys xs).map Prod.snd = xs := by
  induction xs generalizing keys with
  | nil => rfl
  | cons x xs ih => rw [owners, List.map_cons, ih]

/-- What the keys have to do with the items seen so far. -/
structure Registered (seen keys : List κ) : Prop where
  mem : ∀ q ∈ keys, q ∈ seen
  below : ∀ s ∈ seen, ∃ q ∈ keys, R q s
  /-- No key is above an older one. -/
  newest : keys.Pairwise fun q older => ¬ R older q

variable {R} {seen keys : List κ} {k : κ}

omit [DecidableRel R] in
theorem Registered.nil : Registered R [] [] := ⟨nofun, nofun, .nil⟩

theorem Registered.enter [Std.Refl R] (h : Registered R seen keys) (k : κ) :
    Registered R (k :: seen) (enter R keys k) := by
  unfold Registry.enter
  cases hfind : keys.find? (fun q => R q k) with
  | some q =>
    refine ⟨fun q hq => .tail _ (h.mem q hq), fun s hs => ?_, h.newest⟩
    rcases List.mem_cons.1 hs with rfl | hs
    · exact ⟨q, List.mem_of_find?_eq_some hfind, by simpa using List.find?_some hfind⟩
    · exact h.below s hs
  | none =>
    have hnone : ∀ q ∈ keys, ¬ R q k := by simpa using hfind
    refine ⟨fun q hq => ?_, fun s hs => ?_, List.pairwise_cons.2 ⟨hnone, h.newest⟩⟩
    · rcases List.mem_cons.1 hq with rfl | hq
      · exact List.mem_cons_self ..
      · exact .tail _ (h.mem q hq)
    · rcases List.mem_cons.1 hs with rfl | hs
      · exact ⟨s, List.mem_cons_self .., Std.Refl.refl s⟩
      · obtain ⟨q, hq, hqs⟩ := h.below s hs
        exact ⟨q, .tail _ hq, hqs⟩

/-- An item is registered under its own key if no smaller one was seen. -/
theorem Registered.owner_eq_iff [IsTrans κ R] [Std.Antisymm R] (h : Registered R seen keys) :
    owner R keys k = k ↔ ∀ s ∈ seen, R s k → s = k := by
  unfold owner
  cases hfind : keys.find? (fun q => R q k) with
  | none =>
    have hnone : ∀ q ∈ keys, ¬ R q k := by simpa using hfind
    refine iff_of_true rfl fun s hs hsk => ?_
    obtain ⟨q, hq, hqs⟩ := h.below s hs
    exact absurd (IsTrans.trans _ _ _ hqs hsk) (hnone q hq)
  | some q =>
    obtain ⟨hqk, newer, older, rfl, hnewer⟩ := List.find?_eq_some_iff_append.1 hfind
    rw [Option.getD_some]
    refine ⟨?_, fun hall => hall q (h.mem q (by simp)) (by simpa using hqk)⟩
    rintro rfl s hs hsq
    -- a key below `s` is below `q`, so it is no newer than `q`, nor is it older
    obtain ⟨q', hq', hqs⟩ := h.below s hs
    have hle : R q' q := IsTrans.trans _ _ _ hqs hsq
    have hpairs := List.pairwise_append.1 h.newest
    rcases List.mem_append.1 hq' with hmem | hmem
    · exact absurd hle (by simpa using hnewer q' hmem)
    · rcases List.mem_cons.1 hmem with rfl | hmem
      · exact Std.Antisymm.antisymm _ _ hsq hqs
      · exact absurd hle ((List.pairwise_cons.1 hpairs.2.1).1 q' hmem)

/-- **Every item is registered under its own key**, where that matters, if and only if no
item follows one with a smaller key. -/
theorem forall_owners_iff [Std.Refl R] [IsTrans κ R] [Std.Antisymm R] (key : α → κ) (P : α → Prop)
    (xs : List α) : (∀ x ∈ owners R key [] xs, P x.2 → x.1 = key x.2) ↔
      xs.Pairwise fun x y => P y → R (key x) (key y) → key x = key y := by
  suffices hgen : ∀ seen keys, Registered R seen keys →
      ((∀ x ∈ owners R key keys xs, P x.2 → x.1 = key x.2) ↔
        (∀ s ∈ seen, ∀ y ∈ xs, P y → R s (key y) → s = key y) ∧
        xs.Pairwise fun x y => P y → R (key x) (key y) → key x = key y) by
    simpa using hgen [] [] .nil
  induction xs with
  | nil => simp [owners]
  | cons x xs ih =>
    intro seen keys h
    simp only [owners, List.forall_mem_cons, List.pairwise_cons, h.owner_eq_iff,
      ih _ _ (h.enter (key x))]
    constructor
    · rintro ⟨hx, ⟨hown, hseen⟩, hpairs⟩
      exact ⟨fun s hs => ⟨fun hP => hx hP s hs, hseen s hs⟩, hown, hpairs⟩
    · rintro ⟨hseen, hown, hpairs⟩
      exact ⟨fun hP s hs => (hseen s hs).1 hP, ⟨hown, fun s hs => (hseen s hs).2⟩, hpairs⟩

end Ooows.Lib.Registry
