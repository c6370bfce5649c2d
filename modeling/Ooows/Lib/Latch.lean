import Mathlib.Data.List.Basic

/-!
# Ooows.Lib.Latch

A log of events of which some set a latch and some clear it.

When the latch is never set twice (`Alternates`), there is a clearing event between any two
that set it.  More generally, each event may have a condition on what comes before it
(`Justified`).
-/

namespace Ooows.Lib

variable {ε : Type*} (set clear : ε → Prop)

/-- It was set, and not cleared since. -/
def Latched (log : List ε) : Prop :=
  ∃ a x b, log = a ++ x :: b ∧ set x ∧ ∀ e ∈ b, ¬ clear e

/-- Between two events that set it there is one that clears it. -/
def Alternates (log : List ε) : Prop :=
  ∀ a x b y c, log = a ++ x :: (b ++ y :: c) → set x → set y → ∃ e ∈ b, clear e

variable {set clear} {log : List ε} {e : ε}

theorem not_latched_nil : ¬ Latched set clear [] := by
  rintro ⟨a, x, b, h, -⟩
  simp at h

theorem latched_concat :
    Latched set clear (log ++ [e]) ↔ set e ∨ (Latched set clear log ∧ ¬ clear e) := by
  constructor
  · rintro ⟨a, x, b, heq, hx, hb⟩
    rcases List.eq_nil_or_concat' b with rfl | ⟨b, y, rfl⟩
    · cases (List.append_inj' heq rfl).2
      exact .inl hx
    · rw [← List.cons_append, ← List.append_assoc] at heq
      obtain ⟨rfl, hy⟩ := List.append_inj' heq rfl
      cases hy
      exact .inr ⟨⟨a, x, b, rfl, hx, fun e' he' => hb e' (by simp [he'])⟩, hb e (by simp)⟩
  · rintro (hset | ⟨⟨a, x, b, rfl, hx, hb⟩, hclear⟩)
    · exact ⟨log, e, [], rfl, hset, nofun⟩
    · refine ⟨a, x, b ++ [e], by simp, hx, fun e' he' => ?_⟩
      rcases List.mem_append.1 he' with hmem | hmem
      · exact hb e' hmem
      · rwa [List.mem_singleton.1 hmem]

theorem alternates_nil : Alternates set clear [] := by
  intro a x b y c h
  simp at h

/-- An event is added; it does not set a latch that is set. -/
theorem Alternates.concat (h : Alternates set clear log)
    (he : set e → ¬ Latched set clear log) : Alternates set clear (log ++ [e]) := by
  intro a x b y c heq hx hy
  rcases List.eq_nil_or_concat' c with rfl | ⟨c, z, rfl⟩
  · rw [← List.cons_append, ← List.append_assoc] at heq
    obtain ⟨rfl, hye⟩ := List.append_inj' heq rfl
    cases hye
    by_contra hnone
    exact he hy ⟨a, x, b, rfl, hx, fun e hmem hclear => hnone ⟨e, hmem, hclear⟩⟩
  · have hassoc : a ++ x :: (b ++ y :: (c ++ [z])) = a ++ x :: (b ++ y :: c) ++ [z] := by simp
    rw [hassoc] at heq
    exact h a x b y c (List.append_inj' heq rfl).1 hx hy

/-! ## conditions on what comes before -/

/-- Each event comes after a log that `P` allows. -/
def Justified (P : List ε → ε → Prop) (log : List ε) : Prop :=
  ∀ a e b, log = a ++ e :: b → P a e

theorem justified_nil {P : List ε → ε → Prop} : Justified P [] := by
  intro a e b h
  simp at h

theorem Justified.concat {P : List ε → ε → Prop} (h : Justified P log) (he : P log e) :
    Justified P (log ++ [e]) := by
  intro a x b heq
  rcases List.eq_nil_or_concat' b with rfl | ⟨b, y, rfl⟩
  · obtain ⟨rfl, hx⟩ := List.append_inj' heq rfl
    cases hx
    exact he
  · rw [← List.cons_append, ← List.append_assoc] at heq
    exact h a x b (List.append_inj' heq rfl).1

end Ooows.Lib
