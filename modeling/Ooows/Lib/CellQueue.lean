import Mathlib.Data.List.Basic
import Mathlib.Logic.Function.Basic

/-!
# Ooows.Lib.CellQueue

A queue in a store of cells: a producer puts its `k`-th entry into the cell `slot k`, a
consumer reads the cells in the same order.  Cells are reused, so the queue is first in,
first out only as long as no entry is overwritten before it is read.

`Intact` says that no outstanding entry was overwritten.  Taking an entry keeps it
(`Intact.pop`), adding one keeps it exactly if every outstanding entry in the same cell is
the same entry (`Intact.push_iff`).  What a queue hands out from now on is its `view`:
taking an entry does not change it (`view_pop`), and it is what was posted exactly if the
queue is intact (`view_eq_iff`).

The last section is about slots that are computed from a counter that wraps.
-/

namespace Ooows.Lib

theorem getElem?_concat {α : Type} {l : List α} {x y : α} {j : Nat} (h : (l ++ [x])[j]? = some y) :
    l[j]? = some y ∨ j = l.length ∧ y = x := by
  have hlt : j < (l ++ [x]).length := (List.getElem?_eq_some_iff.1 h).1
  rw [List.length_append, List.length_singleton] at hlt
  rcases Nat.lt_or_ge j l.length with hold | hnew
  · rw [List.getElem?_append_left hold] at h
    exact .inl h
  · obtain rfl : j = l.length := by omega
    rw [List.getElem?_concat_length] at h
    cases h
    exact .inr ⟨rfl, rfl⟩

/-- A queue in a store of cells, with everything that was posted and everything that was
handed out, oldest first. -/
structure CellQueue (α : Type) where
  cells : Nat → Option α
  posted : List α
  got : List α

namespace CellQueue

variable {α : Type} (slot : Nat → Nat)

/-- Put an entry into the next cell. -/
def push (r : CellQueue α) (x : α) : CellQueue α where
  cells := Function.update r.cells (slot r.posted.length) (some x)
  posted := r.posted ++ [x]
  got := r.got

/-- Take the entry that is next, if there is one. -/
def pop (r : CellQueue α) : Option (CellQueue α) :=
  if r.got.length < r.posted.length then
    (r.cells (slot r.got.length)).map fun x => { r with got := r.got ++ [x] }
  else none

/-- Every outstanding entry is in its cell. -/
def Intact (r : CellQueue α) : Prop :=
  ∀ j x, r.got.length ≤ j → r.posted[j]? = some x → r.cells (slot j) = some x

/-- Outstanding entries in the cell of the next one are the same as that one. -/
def Fresh (r : CellQueue α) (x : α) : Prop :=
  ∀ j < r.posted.length, r.got.length ≤ j → slot j = slot r.posted.length → r.posted[j]? = some x

instance [DecidableEq α] (r : CellQueue α) (x : α) : Decidable (r.Fresh slot x) :=
  inferInstanceAs (Decidable (∀ j < _, _ → _ → _))

/-- What was handed out is what was posted first. -/
def InOrder (r : CellQueue α) : Prop := r.got <+: r.posted

/-- The cells of the outstanding entries. -/
def outstanding (r : CellQueue α) : List (Option α) :=
  (List.range' r.got.length (r.posted.length - r.got.length)).map fun j => r.cells (slot j)

/-- What was handed out, and what will be. -/
def view (r : CellQueue α) : List (Option α) := r.got.map some ++ r.outstanding slot

variable {slot} {r r' : CellQueue α} {x : α}

/-! ## adding an entry -/

theorem cells_push_self : (r.push slot x).cells (slot r.posted.length) = some x :=
  Function.update_self _ _ _

theorem cells_push_of_ne {i : Nat} (h : i ≠ slot r.posted.length) :
    (r.push slot x).cells i = r.cells i := Function.update_of_ne h _ _

/-- **Adding an entry** keeps a queue intact exactly if it overwrites no other entry. -/
theorem Intact.push_iff (h : r.Intact slot) : (r.push slot x).Intact slot ↔ r.Fresh slot x := by
  constructor
  · intro hpush j hlt hj hslot
    have hold : r.posted[j]? = some r.posted[j] := List.getElem?_eq_getElem hlt
    have hcell := hpush j _ hj (by rw [push, List.getElem?_append_left hlt, hold])
    rw [hslot, cells_push_self] at hcell
    rw [hold, hcell]
  · intro hfresh j y hj hy
    rcases getElem?_concat hy with hold | ⟨rfl, rfl⟩
    · by_cases hslot : slot j = slot r.posted.length
      · have hlt : j < r.posted.length := (List.getElem?_eq_some_iff.1 hold).1
        rw [hslot, cells_push_self, ← hfresh j hlt hj hslot, hold]
      · rw [cells_push_of_ne hslot, h j y hj hold]
    · exact cells_push_self

theorem InOrder.push (h : r.InOrder) : (r.push slot x).InOrder :=
  List.IsPrefix.trans h (List.prefix_append _ _)

/-! ## taking an entry -/

theorem pop_eq_some_iff : r.pop slot = some r' ↔
    r.got.length < r.posted.length ∧
      ∃ x, r.cells (slot r.got.length) = some x ∧ r' = { r with got := r.got ++ [x] } := by
  rw [pop, Option.ite_none_right_eq_some, Option.map_eq_some_iff]
  simp only [eq_comm]

theorem Intact.pop (h : r.Intact slot) (hpop : r.pop slot = some r') : r'.Intact slot := by
  obtain ⟨-, x, -, rfl⟩ := pop_eq_some_iff.1 hpop
  intro j y hj hy
  rw [List.length_append] at hj
  exact h j y (by omega) hy

/-- **An intact queue hands out the next entry.** -/
theorem Intact.got_pop (h : r.Intact slot) (horder : r.InOrder) (hpop : r.pop slot = some r') :
    r'.got = r.posted.take (r.got.length + 1) := by
  obtain ⟨hlt, x, hx, rfl⟩ := pop_eq_some_iff.1 hpop
  have hnext : r.posted[r.got.length]? = some x := by
    have hcell := h _ _ (Nat.le_refl _) (List.getElem?_eq_getElem hlt)
    rw [List.getElem?_eq_getElem hlt, ← hcell, hx]
  rw [List.take_add_one, hnext, ← List.prefix_iff_eq_take.1 horder]
  rfl

theorem posted_pop (hpop : r.pop slot = some r') : r'.posted = r.posted := by
  obtain ⟨-, x, -, rfl⟩ := pop_eq_some_iff.1 hpop
  rfl

theorem length_got_pop (hpop : r.pop slot = some r') : r'.got.length = r.got.length + 1 := by
  obtain ⟨-, x, -, rfl⟩ := pop_eq_some_iff.1 hpop
  exact List.length_append

theorem Intact.inOrder_pop (h : r.Intact slot) (horder : r.InOrder)
    (hpop : r.pop slot = some r') : r'.InOrder := by
  rw [InOrder, h.got_pop horder hpop, posted_pop hpop]
  exact List.take_prefix _ _

/-- **Taking an entry** does not change what is handed out in the end. -/
theorem view_pop (hpop : r.pop slot = some r') : r'.view slot = r.view slot := by
  obtain ⟨hlt, x, hx, rfl⟩ := pop_eq_some_iff.1 hpop
  have hlen : r.posted.length - r.got.length = r.posted.length - (r.got.length + 1) + 1 := by omega
  rw [view, view, outstanding, outstanding, hlen, List.range'_succ, List.map_cons, hx]
  simp

/-! ## what is handed out -/

theorem view_of_length_eq (h : r.got.length = r.posted.length) : r.view slot = r.got.map some := by
  rw [view, outstanding, h, Nat.sub_self]
  simp

theorem outstanding_eq_iff (hle : r.got.length ≤ r.posted.length) :
    r.outstanding slot = (r.posted.drop r.got.length).map some ↔ r.Intact slot := by
  constructor
  · intro heq j x hj hx
    have hcell := congrArg (fun l => l[j - r.got.length]?) heq
    have hlt : j < r.posted.length := (List.getElem?_eq_some_iff.1 hx).1
    have hj' : r.got.length + (j - r.got.length) = j := by omega
    simp only [outstanding, List.getElem?_map, List.getElem?_drop, hj', hx] at hcell
    rw [List.getElem?_range' (by omega), Nat.one_mul, hj'] at hcell
    simpa using hcell
  · intro h
    refine List.ext_getElem (by simp [outstanding]) fun i hi₁ hi₂ => ?_
    have hi : r.got.length + i < r.posted.length := by
      simp only [List.length_map, List.length_drop] at hi₂
      omega
    simp only [outstanding, List.getElem_map, List.getElem_range', List.getElem_drop, Nat.one_mul]
    exact h _ _ (Nat.le_add_right _ _) (List.getElem?_eq_getElem hi)

/-- A queue that handed out what was posted goes on so exactly if it is intact. -/
theorem view_eq_iff (horder : r.InOrder) :
    r.view slot = r.posted.map some ↔ r.Intact slot := by
  have hsplit : r.posted.map some = r.got.map some ++ (r.posted.drop r.got.length).map some := by
    have htake := List.take_append_drop r.got.length r.posted
    rw [← List.prefix_iff_eq_take.1 horder] at htake
    rw [← List.map_append, htake]
  rw [← outstanding_eq_iff horder.length_le, view, hsplit, List.append_cancel_left_eq]

/-! ## slots from a counter that wraps -/

/-- The slot of the `k`-th entry among `n` cells, from a counter modulo `m`. -/
def wrapSlot (m n k : Nat) : Nat := k % m % n

theorem wrapSlot_lt {m n : Nat} (h : 0 < n) (k : Nat) : wrapSlot m n k < n := Nat.mod_lt _ h

theorem fresh_of_slot_ne {n : Nat} (hlt : r.posted.length < r.got.length + n)
    (h : ∀ j, j < r.posted.length → r.posted.length < j + n → slot j ≠ slot r.posted.length) :
    r.Fresh slot x := by
  intro j hj hgot hslot
  exact absurd hslot (h j hj (by omega))

theorem mod_ne_of_lt {n j k : Nat} (hlt : j < k) (hk : k < j + n) : j % n ≠ k % n := by
  intro hmod
  have hdvd : n ∣ k - j := Nat.dvd_of_mod_eq_zero (Nat.sub_mod_eq_zero_of_mod_eq hmod.symm)
  exact absurd (Nat.le_of_dvd (by omega) hdvd) (by omega)

/-- If the number of cells divides the counter's modulus, `n` entries in a row are in
different cells. -/
theorem wrapSlot_ne_of_dvd {m n j k : Nat} (hdvd : n ∣ m) (hlt : j < k) (hk : k < j + n) :
    wrapSlot m n j ≠ wrapSlot m n k := by
  rw [wrapSlot, wrapSlot, Nat.mod_mod_of_dvd _ hdvd, Nat.mod_mod_of_dvd _ hdvd]
  exact mod_ne_of_lt hlt hk

/-- So they are before the counter wraps. -/
theorem wrapSlot_ne_of_lt {m n j k : Nat} (hm : k < m) (hlt : j < k) (hk : k < j + n) :
    wrapSlot m n j ≠ wrapSlot m n k := by
  rw [wrapSlot, wrapSlot, Nat.mod_eq_of_lt hm, Nat.mod_eq_of_lt (Nat.lt_trans hlt hm)]
  exact mod_ne_of_lt hlt hk

end CellQueue

end Ooows.Lib
