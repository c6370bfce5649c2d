import Ooows.P9.Fids
import Mathlib.Data.Nat.Digits.Defs
import Mathlib.Data.Nat.ModEq
import Mathlib.Data.List.TakeWhile

/-!
# Ooows.P9.QidPath

The qid's path is a hash of the path string: the string read as a number in
base 33, with the leading digit 5381, modulo `2 ^ 64` (`hashPath_eq_number`).
The characters run from 45 to 122, more than 33 values, so the digits of a
number are not unique and two strings may denote the same one.

Where two strings of the same length differ only inside a window of at most
twelve characters the modulus plays no part (`number_modEq_iff_window`), and the
characters decide: the qid paths agree exactly if, from the right, the differences
cancel as carries in base 33 (`cancels`).  Strings of different lengths have
different qid paths as long as no number exceeds the modulus.
-/

namespace Ooows.P9.Dev

open Lib Lib.Path Nat

/-- The characters of a string as base-33 digits, the last one first. -/
def digits (w : Bytes) : List Nat := w.reverse.map UInt8.toNat

/-- The number a path string denotes: base 33, with 5381 in front. -/
def number (w : Bytes) : Nat := ofDigits 33 (digits w ++ [5381])

@[simp] theorem length_digits (w : Bytes) : (digits w).length = w.length := by
  simp [digits]

@[simp] theorem digits_append (v w : Bytes) : digits (v ++ w) = digits w ++ digits v := by
  simp [digits]

theorem number_concat (w : Bytes) (c : UInt8) : number (w ++ [c]) = c.toNat + 33 * number w := by
  simp [number, digits, ofDigits_cons]

/-! ## the hash as a number -/

/-- A character of a C string that is not negative as a `char`. -/
def Ascii (c : UInt8) : Prop := c ≠ 0 ∧ c < 128

theorem toNat_signExtend {c : UInt8} (h : Ascii c) : (signExtend c).toNat = c.toNat := by
  rw [signExtend, if_pos h.2, UInt8.toNat_toUInt64]

/-- One turn of the constructor's loop. -/
theorem toNat_hash_step (m : UInt64) {c : UInt8} (h : Ascii c) :
    (((m <<< 5) + m) + signExtend c).toNat = (c.toNat + 33 * m.toNat) % 2 ^ 64 := by
  have hshift : (m <<< 5).toNat = m.toNat * 32 % 2 ^ 64 := by
    rw [UInt64.toNat_shiftLeft, Nat.shiftLeft_eq]
    rfl
  rw [UInt64.toNat_add, UInt64.toNat_add, toNat_signExtend h, hshift]
  omega

variable {w : Bytes}

/-- **The hash is the number**: the qid's path is what the path string denotes in base 33,
modulo the width of the field. -/
theorem hashPath_eq_number (h : ∀ c ∈ w, Ascii c) :
    (hashPath w).toNat = number w % 2 ^ 64 := by
  have hall : w.takeWhile (· ≠ 0) = w := by
    rw [List.takeWhile_eq_self_iff]
    exact fun c hc => by simpa using (h c hc).1
  rw [hashPath, hall]
  clear hall
  -- the loop consumes the string from the front, so the induction takes characters off its end
  induction w using List.reverseRecOn with
  | nil => rfl
  | append_singleton w c ih =>
    have hc : Ascii c := h c (by simp)
    have ih := ih fun d hd => h d (by simp [hd])
    rw [List.foldl_append, List.foldl_cons, List.foldl_nil, toNat_hash_step _ hc, ih, number_concat]
    omega

/-! ## windows -/

theorem ofDigits_add_four_le {ds : List Nat} (h : ∀ d ∈ ds, d < 128) :
    ofDigits 33 ds + 4 ≤ 4 * 33 ^ ds.length := by
  induction ds with
  | nil => simp
  | cons d ds ih =>
    have hd : d < 128 := h d (by simp)
    have ih := ih fun e he => h e (by simp [he])
    rw [ofDigits_cons, List.length_cons, Nat.pow_succ]
    omega

theorem digits_lt (h : ∀ c ∈ w, Ascii c) : ∀ d ∈ digits w, d < 128 := by
  intro d hd
  obtain ⟨c, hc, rfl⟩ := List.mem_map.1 hd
  exact UInt8.lt_iff_toNat_lt.1 (h c (List.mem_reverse.1 hc)).2

/-- Up to twelve digits below 128 stay below `2 ^ 64`. -/
theorem ofDigits_lt (h : ∀ c ∈ w, Ascii c) (hlen : w.length ≤ 12) :
    ofDigits 33 (digits w) < 2 ^ 64 := by
  have hbound := ofDigits_add_four_le (digits_lt h)
  rw [length_digits] at hbound
  have hpow : 33 ^ w.length ≤ 33 ^ 12 := Nat.pow_le_pow_right (by decide) hlen
  omega

/-- Two strings that agree outside a window of up to twelve characters denote congruent numbers
only if the two windows denote the same number. -/
theorem number_modEq_iff_window {u x y v : Bytes} (hx : ∀ c ∈ x, Ascii c) (hy : ∀ c ∈ y, Ascii c)
    (hlen : x.length = y.length) (hwindow : x.length ≤ 12) :
    number (u ++ x ++ v) ≡ number (u ++ y ++ v) [MOD 2 ^ 64] ↔
      ofDigits 33 (digits x) = ofDigits 33 (digits y) := by
  have hsplit : ∀ w : Bytes, number (u ++ w ++ v) =
      ofDigits 33 (digits v) +
        33 ^ v.length * (ofDigits 33 (digits w) + 33 ^ w.length * number u) := by
    intro w
    simp only [number, digits_append, List.append_assoc, ofDigits_append, length_digits]
  rw [hsplit x, hsplit y, hlen]
  constructor
  · intro h
    have h := Nat.ModEq.add_left_cancel' _ h
    have h := Nat.ModEq.cancel_left_of_coprime (Nat.Coprime.pow _ _ (by decide)) h
    have h := Nat.ModEq.add_right_cancel' _ h
    rwa [Nat.ModEq, Nat.mod_eq_of_lt (ofDigits_lt hx hwindow),
      Nat.mod_eq_of_lt (ofDigits_lt hy (hlen ▸ hwindow))] at h
  · intro h
    rw [h]

/-- The characters of two windows, the last ones first, cancel: each difference, with the carry from
the right, is a multiple of 33, and at the left end no carry is left. -/
def cancels : Int → Bytes → Bytes → Bool
  | carry, a :: x, b :: y =>
    let d : Int := carry + a.toNat - b.toNat
    33 ∣ d && cancels (d / 33) x y
  | carry, _, _ => carry = 0

theorem cancels_iff {x y : Bytes} (hlen : x.length = y.length) (carry : Int) :
    cancels carry x y ↔ carry + (ofDigits 33 (x.map UInt8.toNat) : Nat) =
      (ofDigits 33 (y.map UInt8.toNat) : Nat) := by
  induction x generalizing y carry with
  | nil =>
    obtain rfl := List.eq_nil_of_length_eq_zero hlen.symm
    simp [cancels]
  | cons a x ih =>
    cases y with
    | nil => contradiction
    | cons b y =>
      simp only [cancels, Bool.and_eq_true, decide_eq_true_eq, ih (Nat.succ.inj hlen),
        List.map_cons, ofDigits_cons]
      omega

/-- Two windows of the same length denote the same number exactly if they cancel. -/
theorem ofDigits_eq_iff_cancels {x y : Bytes} (hlen : x.length = y.length) :
    ofDigits 33 (digits x) = ofDigits 33 (digits y) ↔ cancels 0 x.reverse y.reverse := by
  rw [cancels_iff (by simpa using hlen), digits, digits]
  omega

/-- The number of a short string lies between two multiples of a power of 33. -/
theorem number_bounds (h : ∀ c ∈ w, Ascii c) :
    5381 * 33 ^ w.length ≤ number w ∧ number w < 5385 * 33 ^ w.length := by
  have hbound := ofDigits_add_four_le (digits_lt h)
  have hnumber : number w = ofDigits 33 (digits w) + 33 ^ w.length * 5381 := by
    rw [number, ofDigits_append, ofDigits_singleton, length_digits]
  rw [length_digits] at hbound
  omega

/-- Short strings of different lengths denote different numbers below the modulus. -/
theorem not_number_modEq_of_length {v w : Bytes} (hv : ∀ c ∈ v, Ascii c) (hw : ∀ c ∈ w, Ascii c)
    (hlt : v.length < w.length) (hshort : w.length ≤ 10) :
    ¬ number v ≡ number w [MOD 2 ^ 64] := by
  obtain ⟨-, hupper⟩ := number_bounds hv
  obtain ⟨hlower, hbelow⟩ := number_bounds hw
  have hstep : 33 * 33 ^ v.length ≤ 33 ^ w.length := by
    rw [← Nat.pow_succ']
    exact Nat.pow_le_pow_right (by decide) hlt
  have hpow : 33 ^ w.length ≤ 33 ^ 10 := Nat.pow_le_pow_right (by decide) hshort
  rw [Nat.ModEq, Nat.mod_eq_of_lt (by omega), Nat.mod_eq_of_lt (by omega)]
  omega

/-! ## canonical paths of legal names -/

theorem ascii_of_legal {c : UInt8} (h : legal.contains c) : Ascii c := by
  have hall : legal.all (fun c => c != 0 && c < 128) := by decide
  simpa [Ascii] using List.all_eq_true.1 hall c (List.contains_iff_mem.1 h)

theorem mem_intercalate {b : UInt8} {sep : Bytes} {ws : List Bytes}
    (hb : b ∈ sep.intercalate ws) : b ∈ sep ∨ ∃ w ∈ ws, b ∈ w := by
  induction ws with
  | nil => simp at hb
  | cons w ws ih =>
    cases ws with
    | nil => exact .inr ⟨w, by simp, by simpa using hb⟩
    | cons v ws =>
      rw [List.intercalate_cons_cons, List.append_assoc, List.mem_append, List.mem_append] at hb
      rcases hb with hb | hb | hb
      · exact .inr ⟨w, by simp, hb⟩
      · exact .inl hb
      · rcases ih hb with hb | ⟨x, hx, hb⟩
        · exact .inl hb
        · exact .inr ⟨x, List.mem_cons_of_mem _ hx, hb⟩

/-- The string of a canonical path whose components are legal names. -/
theorem ascii_render {cs : List Bytes} (h : ∀ c ∈ cs, legalName c) : ∀ b ∈ render cs, Ascii b := by
  have hslash : Ascii slash := ⟨by decide, by decide⟩
  intro b hb
  unfold render at hb
  split at hb
  · rw [List.mem_singleton.1 hb]
    exact hslash
  · rcases mem_intercalate hb with hb | ⟨c, hc, hb⟩
    · rw [List.mem_singleton.1 hb]
      exact hslash
    · rcases List.mem_cons.1 hc with rfl | hc
      · contradiction
      · exact ascii_of_legal (List.all_eq_true.1 (h c hc) b hb)

/-- The hashes of two strings differ exactly if their numbers are incongruent. -/
theorem hashPath_ne_iff {v w : Bytes} (hv : ∀ c ∈ v, Ascii c) (hw : ∀ c ∈ w, Ascii c) :
    hashPath v ≠ hashPath w ↔ ¬ number v ≡ number w [MOD 2 ^ 64] := by
  rw [Ne, ← UInt64.toNat_inj, hashPath_eq_number hv, hashPath_eq_number hw, Nat.ModEq]

/-- **When qids identify files**: the constructor's qid paths for two paths with legal names.  If the
path strings have the same length and differ only inside a window of at most twelve characters, the
qid paths differ exactly if the windows do not cancel; if they have different lengths of at most ten
characters, the qid paths differ. -/
theorem qid_path_ne_iff (env : Env) (root : Bytes) (m n : Node) {cs ds : List Bytes}
    (hcs : ∀ c ∈ cs, legalName c) (hds : ∀ d ∈ ds, legalName d) :
    (∀ u x y v, render cs = u ++ x ++ v → render ds = u ++ y ++ v → x.length = y.length →
      x.length ≤ 12 →
      ((qid (newObject env (render cs) root m)).path ≠ (qid (newObject env (render ds) root n)).path ↔
        cancels 0 x.reverse y.reverse = false)) ∧
    ((render cs).length ≠ (render ds).length → (render cs).length ≤ 10 →
      (render ds).length ≤ 10 → (qid (newObject env (render cs) root m)).path ≠
        (qid (newObject env (render ds) root n)).path) := by
  have hac : ∀ b ∈ render cs, Ascii b := ascii_render hcs
  have had : ∀ b ∈ render ds, Ascii b := ascii_render hds
  have hiff : (qid (newObject env (render cs) root m)).path ≠
      (qid (newObject env (render ds) root n)).path ↔ _ := hashPath_ne_iff hac had
  refine ⟨fun u x y v hx hy hlen hle => ?_, fun hne hshort hshort' => ?_⟩
  · rw [hiff, hx, hy, number_modEq_iff_window (fun c hc => hac c (by simp [hx, hc]))
      (fun c hc => had c (by simp [hy, hc])) hlen hle, ofDigits_eq_iff_cancels hlen,
      Bool.not_eq_true]
  · rw [hiff]
    rcases Nat.lt_or_gt_of_ne hne with hlt | hlt
    · exact not_number_modEq_of_length hac had hlt hshort'
    · exact fun h => not_number_modEq_of_length had hac hlt hshort h.symm

/-- `/s/Ab` and `/s/BB` differ in two characters that do not cancel: 32 is no multiple of 33. -/
theorem qid_path_ne_iff_pair :
    (qid (newObject calmEnv (render [ascii ['s'], ascii ['A', 'b']]) [] .dir)).path ≠
      (qid (newObject calmEnv (render [ascii ['s'], ascii ['B', 'B']]) [] .dir)).path :=
  ((qid_path_ne_iff calmEnv [] .dir .dir (by decide) (by decide)).1 (ascii ['/', 's', '/'])
    (ascii ['A', 'b']) (ascii ['B', 'B']) [] rfl rfl rfl (by decide)).2 (by decide)

/-- A guest creates the files `Ab` and `BA` in the share: both names are legal, and both answers
carry the same qid, since `33 * 65 + 98 = 33 * 66 + 65`. -/
theorem qid_path_collision :
    ∃ s t u p q,
      exec step (init (shareHost [ascii ['s']]) false (ascii ['s']) (render [ascii ['s']]))
        [(calmEnv, ⟨0, .attach 1 0xffffffff [] (ascii ['s'])⟩), (calmEnv, ⟨0, .walk 1 2 []⟩)] =
        some s ∧
      process calmEnv ⟨0, .create 1 (ascii ['A', 'b']) 0 0⟩ s = some (t, some ⟨0, .create p 0⟩) ∧
      process calmEnv ⟨0, .create 2 (ascii ['B', 'A']) 0 0⟩ t = some (u, some ⟨0, .create q 0⟩) ∧
      p = q := by
  refine ⟨_, _, _, _, _, rfl, rfl, rfl, ?_⟩
  decide +kernel

end Ooows.P9.Dev
