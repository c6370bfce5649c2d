import Mathlib.Data.List.Infix

/-!
# Ooows.Lib.Matcher

Looking for a pattern while a text grows at its end.

A matcher keeps its place: how much of the pattern the text ends with.  For a pattern
whose first symbol occurs nowhere else in it there is at most one such place besides 0,
and the place after the next symbol is the next one, 1, or 0.  `Placed` says that the
pattern did not occur and that the matcher is not behind.
-/

namespace Ooows.Lib

variable {α : Type*}

/-- The first symbol of the pattern occurs only there. -/
def HeadOnce (pat : List α) : Prop := ∀ i < pat.length, pat[i]? = pat[0]? → i = 0

instance [DecidableEq α] (pat : List α) : Decidable (HeadOnce pat) :=
  inferInstanceAs (Decidable (∀ i < pat.length, pat[i]? = pat[0]? → i = 0))

/-- The pattern is not in the text, and when the text ends with a beginning of it, this
is the matcher's place. -/
structure Placed (pat : List α) (place : Nat) (text : List α) : Prop where
  lt : place < pat.length
  absent : ¬ pat <:+: text
  eq : ∀ k, 0 < k → k < pat.length → pat.take k <:+ text → k = place

/-- The pattern is not in the text, and the text does not end with a beginning of it. -/
def Clean (pat text : List α) : Prop :=
  ¬ pat <:+: text ∧ ∀ k < pat.length, 0 < k → ¬ pat.take k <:+ text

instance [DecidableEq α] (pat text : List α) : Decidable (Clean pat text) :=
  inferInstanceAs (Decidable (_ ∧ ∀ k < pat.length, 0 < k → _))

variable {pat text : List α} {place k : Nat} {b : α}

theorem take_succ_suffix_concat (hk : k < pat.length) :
    pat.take (k + 1) <:+ text ++ [b] ↔ pat.take k <:+ text ∧ pat[k]? = some b := by
  have hinj := @List.suffix_append_inj_of_length_eq _ (pat.take k) text [pat[k]] [b] rfl
  rw [List.take_add_one, List.getElem?_eq_getElem hk, Option.toList_some, hinj, Option.some_inj,
    List.singleton_inj]

/-- The pattern appears with the next symbol when all the rest was there. -/
theorem infix_concat_iff_take (hpat : 0 < pat.length) : pat <:+: text ++ [b] ↔
    (pat.take (pat.length - 1) <:+ text ∧ pat[pat.length - 1]? = some b) ∨ pat <:+: text := by
  rw [List.infix_concat_iff, ← take_succ_suffix_concat (by omega), Nat.sub_add_cancel hpat,
    List.take_length]

theorem Placed.nil (hpat : place < pat.length) : Placed pat place [] where
  lt := hpat
  absent h := by
    rw [List.infix_nil.1 h] at hpat
    exact absurd hpat (Nat.not_lt_zero _)
  eq k hk hlt h := by
    have hlen := congrArg List.length (List.suffix_nil.1 h)
    rw [List.length_take, List.length_nil] at hlen
    omega

theorem Clean.placed (h : Clean pat text) (hpat : 0 < pat.length) : Placed pat 0 text where
  lt := hpat
  absent := h.1
  eq k hk hlt hsuffix := absurd hsuffix (h.2 k hlt hk)

namespace Placed

/-- The next symbol is the one at the matcher's place. -/
theorem advance (h : Placed pat place text) (honce : HeadOnce pat) (hb : pat[place]? = some b)
    (hlt : place + 1 < pat.length) : Placed pat (place + 1) (text ++ [b]) where
  lt := hlt
  absent hinfix := by
    rcases (infix_concat_iff_take (by omega)).1 hinfix with ⟨htake, -⟩ | hinfix
    · have hplace := h.eq _ (by omega) (by omega) htake
      omega
    · exact h.absent hinfix
  eq k hk hklt hsuffix := by
    obtain ⟨k, rfl⟩ := Nat.exists_eq_succ_of_ne_zero (Nat.ne_of_gt hk)
    obtain ⟨htake, hkb⟩ := (take_succ_suffix_concat (by omega)).1 hsuffix
    cases k with
    | zero => rw [honce place h.lt (hb.trans hkb.symm)]
    | succ k => exact congrArg Nat.succ (h.eq _ (Nat.succ_pos k) (by omega) htake)

/-- The next symbol is another one, and does not begin the pattern anew. -/
theorem restart (h : Placed pat place text) (hb : pat[place]? ≠ some b)
    (hhead : pat[0]? = some b → place = 0) : Placed pat 0 (text ++ [b]) where
  lt := by
    have := h.lt
    omega
  absent hinfix := by
    have hpat := h.lt
    rcases (infix_concat_iff_take (by omega)).1 hinfix with ⟨htake, hlast⟩ | hinfix
    · by_cases hone : pat.length - 1 = 0
      · rw [hone] at hlast
        rw [hhead hlast] at hb
        exact hb hlast
      · exact hb (h.eq _ (by omega) (by omega) htake ▸ hlast)
    · exact h.absent hinfix
  eq k hk hklt hsuffix := by
    obtain ⟨k, rfl⟩ := Nat.exists_eq_succ_of_ne_zero (Nat.ne_of_gt hk)
    obtain ⟨htake, hkb⟩ := (take_succ_suffix_concat (by omega)).1 hsuffix
    cases k with
    | zero =>
      rw [hhead hkb] at hb
      exact absurd hkb hb
    | succ k => exact absurd (h.eq _ (Nat.succ_pos k) (by omega) htake ▸ hkb) hb

end Placed

/-- A text that is not clean becomes one with the pattern. -/
theorem exists_infix_of_not_clean (hpat : 0 < pat.length) (h : ¬ Clean pat text) :
    ∃ k, 0 < k ∧ pat <:+: text ++ pat.drop k := by
  unfold Clean at h
  rw [not_and_or, not_not] at h
  rcases h with hinfix | hsuffix
  · refine ⟨pat.length, hpat, ?_⟩
    rwa [List.drop_length, List.append_nil]
  · simp only [not_forall, not_not] at hsuffix
    obtain ⟨k, -, hk, front, rfl⟩ := hsuffix
    refine ⟨k, hk, front, [], ?_⟩
    rw [List.append_nil, List.append_assoc, List.take_append_drop]

end Ooows.Lib
