import Mathlib.Logic.Function.Basic

/-!
# Ooows.Lib.Chain

Singly linked lists in memory.  `Chain next p ps` says that following `next` from the
pointer `p` visits the cells `ps`, in this order, and then ends.

Such a list has no cell twice (`Chain.nodup`), it does not depend on cells outside it
(`Chain.update`), and linking a cell that ends to its last one appends that cell
(`Chain.concat`).
-/

namespace Ooows.Lib

variable {π : Type}

/-- Following `next` from the pointer visits exactly these cells. -/
def Chain (next : π → Option π) : Option π → List π → Prop
  | none, ps => ps = []
  | some _, [] => False
  | some p, q :: ps => p = q ∧ Chain next (next p) ps

namespace Chain

variable {next : π → Option π} {p : Option π} {a b : π} {ps qs : List π}

@[simp] theorem none_iff : Chain next none ps ↔ ps = [] := by
  cases ps <;> rfl

@[simp] theorem nil_iff : Chain next p [] ↔ p = none := by
  cases p <;> simp [Chain]

@[simp] theorem some_cons_iff : Chain next (some a) (b :: ps) ↔ a = b ∧ Chain next (next a) ps :=
  Iff.rfl

/-- The list at a pointer to a cell begins with that cell. -/
theorem exists_cons (h : Chain next (some a) ps) : ∃ qs, ps = a :: qs ∧ Chain next (next a) qs := by
  cases ps with
  | nil => simp at h
  | cons b qs =>
    obtain ⟨rfl, h⟩ := h
    exact ⟨qs, rfl, h⟩

/-- The memory determines the list. -/
theorem unique (h : Chain next p ps) (h' : Chain next p qs) : ps = qs := by
  induction ps generalizing p qs with
  | nil =>
    rw [nil_iff.1 h] at h'
    exact (none_iff.1 h').symm
  | cons a ps ih =>
    cases p with
    | none => simp at h
    | some b =>
      obtain ⟨rfl, h⟩ := h
      obtain ⟨us, rfl, hus⟩ := exists_cons h'
      rw [ih h hus]

/-- From a cell of the list on, the rest of the list is a list. -/
theorem drop (h : Chain next p (ps ++ a :: qs)) : Chain next (some a) (a :: qs) := by
  induction ps generalizing p with
  | nil =>
    cases p with
    | none => simp at h
    | some b =>
      obtain ⟨rfl, h⟩ := h
      exact ⟨rfl, h⟩
  | cons b ps ih =>
    cases p with
    | none => simp at h
    | some c => exact ih h.2

/-- What follows a cell of the list. -/
theorem next_mem (h : Chain next p (ps ++ a :: qs)) : Chain next (next a) qs := (drop h).2

/-- No cell is visited twice, since the list ends. -/
theorem nodup (h : Chain next p ps) : ps.Nodup := by
  induction ps generalizing p with
  | nil => exact List.nodup_nil
  | cons a ps ih =>
    cases p with
    | none => simp at h
    | some b =>
      obtain ⟨rfl, h⟩ := h
      refine List.nodup_cons.2 ⟨fun hmem => ?_, ih h⟩
      -- a second visit would make the list as long as one of its own ends
      obtain ⟨us, vs, rfl⟩ := List.append_of_mem hmem
      have hlen := congrArg List.length (unique h (drop h).2)
      simp only [List.length_append, List.length_cons] at hlen
      omega

/-- Writing a cell outside the list. -/
theorem update [DecidableEq π] (h : Chain next p ps) (ha : a ∉ ps) (x : Option π) :
    Chain (Function.update next a x) p ps := by
  induction ps generalizing p with
  | nil => simpa using h
  | cons b ps ih =>
    cases p with
    | none => simp at h
    | some c =>
      obtain ⟨rfl, h⟩ := h
      simp only [List.mem_cons, not_or] at ha
      refine ⟨rfl, ?_⟩
      rw [Function.update_of_ne (Ne.symm ha.1)]
      exact ih h ha.2

/-- Linking a cell that ends to the last cell appends it. -/
theorem concat [DecidableEq π] (h : Chain next p (ps ++ [a])) (hb : b ∉ ps ++ [a])
    (hend : next b = none) : Chain (Function.update next a (some b)) p (ps ++ [a, b]) := by
  induction ps generalizing p with
  | nil =>
    cases p with
    | none => simp at h
    | some c =>
      obtain ⟨rfl, -⟩ := h
      have hne : b ≠ c := by simpa using hb
      simp [Function.update_of_ne hne, hend]
  | cons d ps ih =>
    have hnodup := nodup h
    cases p with
    | none => simp at h
    | some c =>
      obtain ⟨rfl, h⟩ := h
      have hne : c ≠ a := by
        intro heq
        simp [heq] at hnodup
      refine ⟨rfl, ?_⟩
      rw [Function.update_of_ne hne]
      exact ih h fun hmem => hb (List.mem_cons_of_mem _ hmem)

end Chain

end Ooows.Lib
