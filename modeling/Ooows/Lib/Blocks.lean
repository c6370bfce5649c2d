import Mathlib.Algebra.Ring.Nat
import Mathlib.Data.List.Perm.Basic

/-!
# Ooows.Lib.Blocks

A region that is cut into blocks, each behind a header of `H` bytes.

The blocks lie one after the other, so a list of sizes and flags says where everything
is: `headers` and `used` are the places of the headers and of the blocks in use, for a
region that begins at some address.  Blocks in use are disjoint from each other and from
all headers, whatever the list is (`used_pairwise`, `used_headers`); what an allocator
does to the list (taking a block, cutting one in two, joining free neighbours) changes
`used` in the obvious way.
-/

namespace Ooows.Lib

structure Blk where
  size : Nat
  free : Bool
  deriving DecidableEq, Repr

namespace Blk

variable (H : Nat)

/-- How many bytes the blocks take with their headers. -/
def span : List Blk → Nat
  | [] => 0
  | b :: bs => H + b.size + span bs

/-- Where the headers are. -/
def headers (a : Nat) : List Blk → List Nat
  | [] => []
  | b :: bs => a :: headers (a + (H + b.size)) bs

/-- Where the blocks in use are, and how large. -/
def used (a : Nat) : List Blk → List (Nat × Nat)
  | [] => []
  | b :: bs => (if b.free then [] else [(a + H, b.size)]) ++ used (a + (H + b.size)) bs

/-- One pass that joins free neighbours: after two blocks were joined it goes on behind
them. -/
def coalesce : List Blk → List Blk
  | b :: c :: bs =>
    if b.free ∧ c.free then ⟨b.size + c.size + H, true⟩ :: coalesce bs
    else b :: coalesce (c :: bs)
  | bs => bs

/-- The pass joins the last block to the one before it. -/
def joinsLast : List Blk → Bool
  | b :: c :: bs => if b.free ∧ c.free then bs.isEmpty || joinsLast bs else joinsLast (c :: bs)
  | _ => false

/-- No two neighbours are free. -/
def Separated (bs : List Blk) : Prop := bs.IsChain fun b c => ¬ (b.free = true ∧ c.free = true)

/-- Where two neighbours are free, a block in use follows them. -/
def PairsEnd : List Blk → Prop
  | b :: c :: bs => (b.free = true ∧ c.free = true → ∃ d ∈ bs.head?, d.free = false) ∧
      PairsEnd (c :: bs)
  | _ => True

instance decidablePairsEnd : (bs : List Blk) → Decidable (PairsEnd bs)
  | [] => .isTrue trivial
  | [_] => .isTrue trivial
  | _ :: c :: bs =>
    have := decidablePairsEnd (c :: bs)
    inferInstanceAs (Decidable (_ ∧ PairsEnd (c :: bs)))

variable {H} {a : Nat} {bs cs : List Blk} {x y : Nat × Nat}

theorem span_eq_sum : span H bs = (bs.map fun b => b.size + H).sum := by
  induction bs with
  | nil => rfl
  | cons b bs ih => rw [span, ih, List.map_cons, List.sum_cons, Nat.add_comm H]

@[simp] theorem span_append : span H (bs ++ cs) = span H bs + span H cs := by
  induction bs with
  | nil => simp [span]
  | cons b bs ih => simp [span, ih, Nat.add_assoc]

theorem headers_append : headers H a (bs ++ cs) = headers H a bs ++ headers H (a + span H bs) cs := by
  induction bs generalizing a with
  | nil => simp [headers, span]
  | cons b bs ih => simp [headers, span, ih, Nat.add_assoc]

theorem used_append : used H a (bs ++ cs) = used H a bs ++ used H (a + span H bs) cs := by
  induction bs generalizing a with
  | nil => simp [used, span]
  | cons b bs ih => simp [used, span, ih, Nat.add_assoc]

theorem mem_headers_bounds {h : Nat} (hmem : h ∈ headers H a bs) :
    a ≤ h ∧ h + H ≤ a + span H bs := by
  induction bs generalizing a with
  | nil => cases hmem
  | cons b bs ih =>
    rcases List.mem_cons.1 hmem with rfl | hmem
    · grind [span]
    · have := ih hmem
      grind [span]

theorem mem_used_bounds (hmem : x ∈ used H a bs) : a + H ≤ x.1 ∧ x.1 + x.2 ≤ a + span H bs := by
  induction bs generalizing a with
  | nil => cases hmem
  | cons b bs ih =>
    rcases List.mem_append.1 hmem with hmem | hmem
    · grind [span]
    · have := ih hmem
      grind [span]

/-- **Blocks in use are disjoint**, with a header between them. -/
theorem used_pairwise : (used H a bs).Pairwise fun x y => x.1 + x.2 + H ≤ y.1 := by
  induction bs generalizing a with
  | nil => exact .nil
  | cons b bs ih =>
    refine List.pairwise_append.2 ⟨?_, ih, fun x hx y hy => ?_⟩
    · split
      next => exact .nil
      next => exact List.pairwise_singleton ..
    · have := mem_used_bounds hy
      split at hx
      next => cases hx
      next =>
        cases List.mem_singleton.1 hx
        omega

/-- **Blocks in use are disjoint from all headers.** -/
theorem used_headers {h : Nat} (hx : x ∈ used H a bs) (hh : h ∈ headers H a bs) :
    x.1 + x.2 ≤ h ∨ h + H ≤ x.1 := by
  induction bs generalizing a with
  | nil => cases hx
  | cons b bs ih =>
    rcases List.mem_append.1 hx with hx | hx
    · split at hx
      next => cases hx
      next =>
        cases List.mem_singleton.1 hx
        rcases List.mem_cons.1 hh with rfl | hh
        · omega
        · have := mem_headers_bounds hh
          omega
    · have hbounds := mem_used_bounds hx
      rcases List.mem_cons.1 hh with rfl | hh
      · omega
      · exact ih hx hh

/-- A block is in use or free, and everything else is as it was. -/
theorem used_perm {n : Nat} {pre post : List Blk} :
    (used H a (pre ++ ⟨n, false⟩ :: post)).Perm
      ((a + span H pre + H, n) :: used H a (pre ++ ⟨n, true⟩ :: post)) := by
  simp only [used_append, used, Bool.false_eq_true, if_false, if_true, List.nil_append,
    List.singleton_append]
  exact List.perm_middle

/-- The front of a free block is in use, the rest is a block of its own. -/
theorem used_split_perm {n size : Nat} (hle : n + H ≤ size) {pre post : List Blk} :
    (used H a (pre ++ ⟨n, false⟩ :: ⟨size - n - H, true⟩ :: post)).Perm
      ((a + span H pre + H, n) :: used H a (pre ++ ⟨size, true⟩ :: post)) := by
  have hpost : a + span H pre + (H + n) + (H + (size - n - H)) = a + span H pre + (H + size) := by
    omega
  refine used_perm.trans (.of_eq ?_)
  simp only [used_append, used, if_true, List.nil_append, hpost]

/-- A block is replaced by blocks of which the first is in use: whatever began a block in use
still does. -/
theorem used_replace {n : Nat} {b : Blk} {pre rest post : List Blk}
    (hspan : span H (⟨n, false⟩ :: rest) = H + b.size) :
    (a + span H pre + H, n) ∈ used H a (pre ++ (⟨n, false⟩ :: rest ++ post)) ∧
    ∀ p k, (p, k) ∈ used H a (pre ++ b :: post) →
      ∃ k', (p, k') ∈ used H a (pre ++ (⟨n, false⟩ :: rest ++ post)) := by
  have hused : used H a (pre ++ (⟨n, false⟩ :: rest ++ post)) = used H a pre ++
      ((a + span H pre + H, n) :: used H (a + span H pre + (H + n)) rest ++
        used H (a + span H pre + (H + b.size)) post) := by
    rw [used_append, used_append, hspan]
    rfl
  rw [hused]
  refine ⟨List.mem_append_right _ (List.mem_cons_self ..), fun p k hp => ?_⟩
  rw [used_append, used] at hp
  rcases List.mem_append.1 hp with hpre | hp
  · exact ⟨k, List.mem_append_left _ hpre⟩
  rcases List.mem_append.1 hp with hb | hpost
  · split at hb
    next => cases hb
    next =>
      cases List.mem_singleton.1 hb
      exact ⟨n, List.mem_append_right _ (List.mem_cons_self ..)⟩
  · exact ⟨k, List.mem_append_right _ (List.mem_append_right _ hpost)⟩

theorem exists_of_mem_used (hx : x ∈ used H a bs) :
    ∃ pre post, bs = pre ++ ⟨x.2, false⟩ :: post ∧ x.1 = a + span H pre + H := by
  induction bs generalizing a with
  | nil => cases hx
  | cons b bs ih =>
    rcases List.mem_append.1 hx with hx | hx
    · split at hx
      next => cases hx
      next hfree =>
        cases List.mem_singleton.1 hx
        refine ⟨[], bs, ?_, rfl⟩
        rw [List.nil_append, ← eq_false_of_ne_true hfree]
    · obtain ⟨pre, post, rfl, haddr⟩ := ih hx
      refine ⟨b :: pre, post, rfl, ?_⟩
      rw [haddr, span, Nat.add_assoc a]

theorem length_mul_le_span : H * bs.length ≤ span H bs := by
  induction bs with
  | nil => exact Nat.le_refl 0
  | cons b bs ih =>
    rw [List.length_cons, span, Nat.mul_succ]
    omega

/-! ## joining -/

theorem coalesce_ne_nil (h : bs ≠ []) : coalesce H bs ≠ [] := by
  fun_cases coalesce H bs <;> grind

@[simp] theorem span_coalesce : span H (coalesce H bs) = span H bs := by
  fun_induction coalesce H bs with
  | case1 b c bs h ih =>
    simp only [span, ih]
    omega
  | case2 b c bs h ih => simp only [span, ih]
  | case3 => rfl

/-- **Joining moves no block in use.** -/
theorem used_coalesce : used H a (coalesce H bs) = used H a bs := by
  fun_induction coalesce H bs generalizing a with
  | case1 b c bs h ih =>
    simp only [used, ih, h.1, h.2, if_true, List.nil_append]
    congr 1
    omega
  | case2 b c bs h ih => simp only [used, ih]
  | case3 => rfl

theorem head_coalesce (b : Blk) (bs : List Blk) :
    ∃ c rest, coalesce H (b :: bs) = c :: rest ∧ c.free = b.free := by
  cases bs with
  | nil => exact ⟨b, [], rfl, rfl⟩
  | cons c bs =>
    rw [coalesce]
    split
    next h => exact ⟨_, _, rfl, h.1.symm⟩
    next => exact ⟨_, _, rfl, rfl⟩

/-- A block in front of blocks that were joined. -/
theorem separated_cons_coalesce {b : Blk} (c : Blk) (bs : List Blk) :
    Separated (b :: coalesce H (c :: bs)) ↔
      ¬ (b.free = true ∧ c.free = true) ∧ Separated (coalesce H (c :: bs)) := by
  obtain ⟨d, rest, hcoalesce, hfree⟩ := head_coalesce (H := H) c bs
  rw [hcoalesce, Separated, List.isChain_cons_cons, hfree]
  rfl

/-- **One pass is enough**, and does not join the last block, exactly if a block in use
follows every two free neighbours. -/
theorem separated_coalesce_iff :
    joinsLast bs = false ∧ Separated (coalesce H bs) ↔ PairsEnd bs := by
  fun_induction coalesce H bs with
  | case1 b c bs hfree ih =>
    rw [joinsLast, if_pos hfree, PairsEnd]
    cases bs with
    | nil => simp [hfree]
    | cons d bs =>
      rw [separated_cons_coalesce]
      cases hd : d.free <;> simp [PairsEnd, hfree, hd, ← ih]
  | case2 b c bs hfree ih =>
    rw [joinsLast, if_neg hfree, PairsEnd, separated_cons_coalesce, ← ih]
    simp only [hfree, not_false_eq_true, true_and, false_imp_iff]
  | case3 bs hbs =>
    cases bs with
    | nil => simp [joinsLast, Separated, PairsEnd]
    | cons b bs =>
      cases bs with
      | nil => simp [joinsLast, Separated, PairsEnd]
      | cons c bs => exact (hbs b c bs rfl).elim

end Blk

end Ooows.Lib
