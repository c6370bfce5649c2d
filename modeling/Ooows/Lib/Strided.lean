import Mathlib.Algebra.Group.Nat.Defs

/-!
# Ooows.Lib.Strided

Strided intervals: the numbers from `lo` to `hi` that are a multiple of `stride`
away from `lo`.  A stride of zero is a constant.
-/

namespace Ooows.Lib

structure Strided where
  lo : Nat
  hi : Nat
  stride : Nat
  deriving DecidableEq, Repr

namespace Strided

def Mem (n : Nat) (r : Strided) : Prop := r.lo ≤ n ∧ n ≤ r.hi ∧ r.stride ∣ n - r.lo

instance (n : Nat) (r : Strided) : Decidable (Mem n r) := inferInstanceAs (Decidable (_ ∧ _ ∧ _))

def const (c : Nat) : Strided := ⟨c, c, 0⟩

/-- All numbers of an interval. -/
def between (lo hi : Nat) : Strided := ⟨lo, hi, 1⟩

/-- A sufficient test for inclusion. -/
def le (r r' : Strided) : Bool :=
  decide (r'.lo ≤ r.lo ∧ r.hi ≤ r'.hi ∧ r'.stride ∣ r.stride ∧ r'.stride ∣ r.lo - r'.lo)

def add (r r' : Strided) : Strided := ⟨r.lo + r'.lo, r.hi + r'.hi, Nat.gcd r.stride r'.stride⟩

def sub (r : Strided) (c : Nat) : Strided := ⟨r.lo - c, r.hi - c, r.stride⟩

def scale (r : Strided) (c : Nat) : Strided := ⟨r.lo * c, r.hi * c, r.stride * c⟩

/-- Remainders modulo `m`, when no multiple of it is crossed. -/
def rem (r : Strided) (m : Nat) : Strided := ⟨r.lo % m, r.hi % m, r.stride⟩

variable {n n' c m : Nat} {r r' : Strided}

/-- A constant holds one number. -/
theorem mem_const : Mem n (const c) ↔ n = c := by
  constructor
  · rintro ⟨h₁, h₂, -⟩
    simp only [const] at h₁ h₂
    omega
  · rintro rfl
    exact ⟨Nat.le_refl _, Nat.le_refl _, by simp [const]⟩

/-- An interval holds all numbers between its ends. -/
theorem mem_between {lo hi : Nat} : Mem n (between lo hi) ↔ lo ≤ n ∧ n ≤ hi := by
  simp [Mem, between]

/-- The test for inclusion is sound. -/
theorem Mem.of_le (h : Mem n r) (hle : r.le r' = true) : Mem n r' := by
  obtain ⟨hlo, hhi, hstride, hoff⟩ := of_decide_eq_true hle
  obtain ⟨h₁, h₂, h₃⟩ := h
  have hsplit : n - r'.lo = (n - r.lo) + (r.lo - r'.lo) := by omega
  refine ⟨by omega, by omega, ?_⟩
  rw [hsplit]
  exact Nat.dvd_add (Nat.dvd_trans hstride h₃) hoff

/-- Sums. -/
theorem Mem.add (h : Mem n r) (h' : Mem n' r') : Mem (n + n') (r.add r') := by
  obtain ⟨h₁, h₂, h₃⟩ := h
  obtain ⟨h₁', h₂', h₃'⟩ := h'
  have hsplit : n + n' - (r.lo + r'.lo) = (n - r.lo) + (n' - r'.lo) := by omega
  refine ⟨Nat.add_le_add h₁ h₁', Nat.add_le_add h₂ h₂', ?_⟩
  simp only [Strided.add, hsplit]
  exact Nat.dvd_add (Nat.dvd_trans (Nat.gcd_dvd_left _ _) h₃)
    (Nat.dvd_trans (Nat.gcd_dvd_right _ _) h₃')

/-- A constant is subtracted, without underflow. -/
theorem Mem.sub (h : Mem n r) (hc : c ≤ r.lo) : Mem (n - c) (r.sub c) := by
  obtain ⟨h₁, h₂, h₃⟩ := h
  have hsplit : n - c - (r.lo - c) = n - r.lo := by omega
  refine ⟨by simp only [Strided.sub]; omega, by simp only [Strided.sub]; omega, ?_⟩
  simpa only [Strided.sub, hsplit] using h₃

theorem Mem.scale (h : Mem n r) (c : Nat) : Mem (n * c) (r.scale c) := by
  obtain ⟨h₁, h₂, h₃⟩ := h
  refine ⟨Nat.mul_le_mul_right c h₁, Nat.mul_le_mul_right c h₂, ?_⟩
  simp only [Strided.scale, ← Nat.sub_mul]
  exact Nat.mul_dvd_mul_right h₃ c

/-- Remainders, within one multiple. -/
theorem Mem.rem (h : Mem n r) (hm : r.lo / m = r.hi / m) : Mem (n % m) (r.rem m) := by
  obtain ⟨h₁, h₂, h₃⟩ := h
  have hn : n / m = r.lo / m :=
    Nat.le_antisymm (hm ▸ Nat.div_le_div_right h₂) (Nat.div_le_div_right h₁)
  -- all three numbers have the same quotient
  have hlo := Nat.div_add_mod r.lo m
  have hhi := Nat.div_add_mod r.hi m
  have hmid := Nat.div_add_mod n m
  rw [hn] at hmid
  rw [← hm] at hhi
  have hsplit : n % m - r.lo % m = n - r.lo := by omega
  refine ⟨by simp only [Strided.rem]; omega, by simp only [Strided.rem]; omega, ?_⟩
  simpa only [Strided.rem, hsplit] using h₃

end Strided

end Ooows.Lib
