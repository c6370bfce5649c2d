import Ooows.Lib.Blocks
import Ooows.Lib.ByteMem
import Ooows.Lib.Run

/-!
# Ooows.Kernel.Malloc

The allocator of the guest kernel, `boot/kernel/malloc.c`, on the bytes of the guest's
memory.  The kernel is built for i686: `size_t` and pointers have 32 bits, and nothing is
aligned, since blocks are cut to the size that was asked for.

The list of blocks is in the memory, so the model reads and writes it there.  `Chain`
connects a memory with the list of blocks that it holds; under it, the loops of `malloc`
and `free` are functions on that list.
-/

namespace Ooows.Kernel

open Lib Blk

/-! ## the code -/

/-- `sizeof(struct block)`: two words and a pointer. -/
def sizeofBlock : Nat := 12

/-- Arithmetic on `size_t` and on pointers. -/
def wrap (n : Nat) : Nat := n % 0x100000000

/-- The fields of the `struct block` at an address. -/
def size (m : ByteMem) (p : Nat) : Nat := m.load p 4

def isFree (m : ByteMem) (p : Nat) : Nat := m.load (p + 4) 4

def next (m : ByteMem) (p : Nat) : Nat := m.load (p + 8) 4

/-- The allocator's variables, with the memory. -/
structure Heap where
  mem : ByteMem
  freeList : Nat
  memory : Nat
  heapSz : Nat

/-- `malloc_init`. -/
def mallocInit (m : ByteMem) (ptr sz : Nat) : Heap where
  mem := ((m.store ptr 4 (wrap (sz + 0x100000000 - sizeofBlock))).store (ptr + 4) 4 1).store (ptr + 8) 4 0
  freeList := ptr
  memory := ptr
  heapSz := sz

def split (m : ByteMem) (slot n : Nat) : ByteMem :=
  let new := wrap (slot + n + sizeofBlock)
  let m := m.store new 4 (wrap (size m slot + 0x200000000 - n - sizeofBlock))
  let m := m.store (new + 4) 4 1
  let m := m.store (new + 8) 4 (next m slot)
  let m := m.store slot 4 n
  let m := m.store (slot + 4) 4 0
  m.store (slot + 8) 4 new

/-- The loop of `malloc`; `none` when it does not end within the fuel. -/
def search (m : ByteMem) (n : Nat) : Nat → Nat → Option Nat
  | 0, _ => none
  | fuel + 1, curr =>
    if (size m curr < n ∨ isFree m curr = 0) ∧ next m curr ≠ 0 then search m n fuel (next m curr)
    else some curr

/-- The body of `merge`: a block takes the one behind it. -/
def absorb (m : ByteMem) (curr : Nat) : ByteMem :=
  let m := m.store curr 4 (wrap (size m curr + (size m (next m curr) + sizeofBlock)))
  m.store (curr + 8) 4 (next m (next m curr))

/-- The loop of `merge`. -/
def merge : Nat → ByteMem → Nat → Option ByteMem
  | 0, _, _ => none
  | fuel + 1, m, curr =>
    if next m curr ≠ 0 then
      if isFree m curr ≠ 0 ∧ isFree m (next m curr) ≠ 0 then
        merge fuel (absorb m curr) (next (absorb m curr) curr)
      else merge fuel m (next m curr)
    else some m

namespace Heap

/-- `malloc`, with the address it returns. -/
def malloc (h : Heap) (n : Nat) : Option (Heap × Nat) :=
  if size h.mem h.freeList = 0 then some (h, 0)
  else (search h.mem n h.heapSz h.freeList).map fun curr =>
    if size h.mem curr = n then
      ({ h with mem := h.mem.store (curr + 4) 4 0 }, wrap (curr + sizeofBlock))
    else if wrap (n + sizeofBlock) < size h.mem curr then
      ({ h with mem := split h.mem curr n }, wrap (curr + sizeofBlock))
    else (h, 0)

/-- `free`. -/
def free (h : Heap) (ptr : Nat) : Option Heap :=
  if h.memory ≤ ptr ∧ ptr ≤ h.memory + h.heapSz then
    let curr := ptr - sizeofBlock
    (merge h.heapSz (h.mem.store (curr + 4) 4 1) h.freeList).map fun m => { h with mem := m }
  else some h

end Heap

/-! ## the list in the memory -/

/-- The headers that are linked from an address on. -/
def walk (m : ByteMem) : Nat → Nat → List Nat
  | 0, _ => []
  | fuel + 1, curr => curr :: if next m curr = 0 then [] else walk m fuel (next m curr)

/-- The block whose header is at an address. -/
def blockAt (m : ByteMem) (p : Nat) : Blk := ⟨size m p, decide (isFree m p ≠ 0)⟩

/-- There is the header of this block. -/
structure IsBlock (m : ByteMem) (a : Nat) (b : Blk) (link : Nat) : Prop where
  size_eq : size m a = b.size
  free_iff : isFree m a ≠ 0 ↔ b.free = true
  next_eq : next m a = link

/-- The link to some blocks. -/
def linkTo (a : Nat) : List Blk → Nat
  | [] => 0
  | _ :: _ => a

theorem linkTo_of_ne {a : Nat} {bs : List Blk} (h : bs ≠ []) : linkTo a bs = a := by
  cases bs with
  | nil => contradiction
  | cons => rfl

/-- **The blocks from an address on**: each is linked to the one behind it. -/
def Chain (m : ByteMem) (a : Nat) : List Blk → Prop
  | [] => True
  | b :: bs => IsBlock m a b (linkTo (a + (sizeofBlock + b.size)) bs) ∧
      Chain m (a + (sizeofBlock + b.size)) bs

section Chain

variable {m m' : ByteMem} {a : Nat} {b b' : Blk} {link : Nat} {bs pre post rest rest' : List Blk}

theorem IsBlock.congr (h : IsBlock m a b link) (hm : ∀ x, a ≤ x → x < a + sizeofBlock → m' x = m x) :
    IsBlock m' a b link := by
  have hload : ∀ off, off + 4 ≤ 12 → m'.load (a + off) 4 = m.load (a + off) 4 := fun off hoff =>
    ByteMem.load_congr fun x hx hx' => hm x (by omega) (by unfold sizeofBlock; omega)
  obtain ⟨hsize, hfree, hnext⟩ := h
  exact ⟨(hload 0 (by omega)).trans hsize, by rw [isFree, hload 4 (by omega)]; exact hfree,
    (hload 8 (by omega)).trans hnext⟩

/-- Only the headers matter. -/
theorem Chain.congr (h : Chain m a bs)
    (hm : ∀ p ∈ headers sizeofBlock a bs, ∀ x, p ≤ x → x < p + sizeofBlock → m' x = m x) :
    Chain m' a bs := by
  induction bs generalizing a with
  | nil => trivial
  | cons b bs ih =>
    exact ⟨h.1.congr (hm a (List.mem_cons_self ..)),
      ih h.2 fun p hp => hm p (List.mem_cons_of_mem _ hp)⟩

theorem Chain.tail (h : Chain m a (pre ++ rest)) : Chain m (a + span sizeofBlock pre) rest := by
  induction pre generalizing a with
  | nil => exact h
  | cons b pre ih =>
    have := ih h.2
    rwa [Nat.add_assoc] at this

/-- The end of the list is replaced. -/
theorem Chain.replace (h : Chain m a (pre ++ rest)) (hne : rest ≠ []) (hne' : rest' ≠ [])
    (hm : ∀ x, x < a + span sizeofBlock pre → m' x = m x)
    (hrest : Chain m' (a + span sizeofBlock pre) rest') : Chain m' a (pre ++ rest') := by
  induction pre generalizing a with
  | nil => exact hrest
  | cons b pre ih =>
    rw [span, ← Nat.add_assoc a] at hm hrest
    obtain ⟨hblock, htail⟩ := h
    refine ⟨?_, ih htail hm hrest⟩
    rw [List.append_eq, linkTo_of_ne (by simp [hne])] at hblock
    rw [List.append_eq, linkTo_of_ne (by simp [hne'])]
    exact hblock.congr fun x _ hx => hm x (by omega)

/-- The first header is replaced by one of the same size. -/
theorem Chain.setHead (h : Chain m a (b :: post)) (hsize : b'.size = b.size)
    (hblock : ∀ {link}, IsBlock m a b link → IsBlock m' a b' link)
    (hm : ∀ x, a + (sizeofBlock + b.size) ≤ x → m' x = m x) : Chain m' a (b' :: post) := by
  refine ⟨?_, ?_⟩
  · rw [hsize]
    exact hblock h.1
  · rw [hsize]
    exact h.2.congr fun p hp x hx _ => hm x (Nat.le_trans (mem_headers_bounds hp).1 hx)

end Chain

/-! ## the loops, on the list -/

section Loops

variable {m : ByteMem} {a n fuel : Nat} {bs : List Blk}

/-- The link to blocks that are there. -/
theorem linkTo_ne_zero (ha : 0 < a) : linkTo a bs ≠ 0 ↔ bs ≠ [] := by
  cases bs with
  | nil => simp [linkTo]
  | cons => simp [linkTo, Nat.ne_of_gt ha]

theorem Chain.walk_eq (h : Chain m a bs) (hne : bs ≠ []) (ha : 0 < a) (hfuel : bs.length ≤ fuel) :
    walk m fuel a = headers sizeofBlock a bs := by
  induction bs generalizing a fuel with
  | nil => contradiction
  | cons b bs ih =>
    obtain ⟨hblock, htail⟩ := h
    cases fuel with
    | zero => cases hfuel
    | succ fuel =>
      rw [walk, headers, hblock.next_eq]
      cases bs with
      | nil => rfl
      | cons c bs =>
        rw [linkTo, if_neg (by omega), ih htail (List.cons_ne_nil _ _) (by omega) (Nat.le_of_succ_le_succ hfuel)]

theorem Chain.map_blockAt (h : Chain m a bs) : (headers sizeofBlock a bs).map (blockAt m) = bs := by
  induction bs generalizing a with
  | nil => rfl
  | cons b bs ih =>
    obtain ⟨hblock, htail⟩ := h
    have hfree : decide (isFree m a ≠ 0) = b.free := by
      rw [Bool.eq_iff_iff, decide_eq_true_iff]
      exact hblock.free_iff
    rw [headers, List.map_cons, ih htail, blockAt, hblock.size_eq, hfree]

/-- **Where the search stops**: at the first free block that is large enough, or at the
last block. -/
theorem search_spec (h : Chain m a bs) (hne : bs ≠ []) (ha : 0 < a) (hfuel : bs.length ≤ fuel) :
    ∃ pre b post, bs = pre ++ b :: post ∧
      search m n fuel a = some (a + span sizeofBlock pre) ∧
      ((n ≤ b.size ∧ b.free = true) ∨ (post = [] ∧ ∀ c ∈ bs, c.free = true → c.size < n)) := by
  induction bs generalizing a fuel with
  | nil => contradiction
  | cons b bs ih =>
    obtain ⟨hblock, htail⟩ := h
    cases fuel with
    | zero => cases hfuel
    | succ fuel =>
      have hlink : next m a ≠ 0 ↔ bs ≠ [] := by
        rw [hblock.next_eq]
        exact linkTo_ne_zero (by omega)
      by_cases hstop : (size m a < n ∨ isFree m a = 0) ∧ next m a ≠ 0
      · obtain ⟨hunfit, hnext⟩ := hstop
        have hbs := hlink.1 hnext
        have haddr : next m a = a + (sizeofBlock + b.size) := by
          rw [hblock.next_eq, linkTo_of_ne hbs]
        obtain ⟨pre, c, post, hsplit, hsearch, hfound⟩ :=
          ih htail hbs (by omega) (Nat.le_of_succ_le_succ hfuel)
        refine ⟨b :: pre, c, post, by rw [hsplit]; rfl, ?_, hfound.imp_right ?_⟩
        · rw [search, if_pos ⟨hunfit, hnext⟩, haddr, hsearch, span, Nat.add_assoc a]
        · rintro ⟨hpost, hall⟩
          refine ⟨hpost, fun d hd hfree => ?_⟩
          rcases List.mem_cons.1 hd with rfl | hd
          · have hused : isFree m a ≠ 0 := hblock.free_iff.2 hfree
            have hsize := hunfit.resolve_right hused
            rwa [hblock.size_eq] at hsize
          · exact hall d hd hfree
      · refine ⟨[], b, bs, rfl, by rw [search, if_neg hstop]; rfl, ?_⟩
        by_cases hfit : n ≤ b.size ∧ b.free = true
        · exact .inl hfit
        · right
          have hunfit : size m a < n ∨ isFree m a = 0 := by
            rw [hblock.size_eq]
            by_cases hfree : b.free = true
            · exact .inl (Nat.lt_of_not_le fun hle => hfit ⟨hle, hfree⟩)
            · exact .inr (Decidable.not_not.1 (mt hblock.free_iff.1 hfree))
          have hnil : bs = [] := Decidable.not_not.1 fun hbs => hstop ⟨hunfit, hlink.2 hbs⟩
          subst hnil
          refine ⟨rfl, fun d hd hfree => ?_⟩
          rw [List.mem_singleton.1 hd] at hfree ⊢
          exact Nat.lt_of_not_le fun hle => hfit ⟨hle, hfree⟩

/-- The flag of a block is written. -/
theorem IsBlock.setFree {b : Blk} {link : Nat} (h : IsBlock m a b link) {v : Nat}
    (hv : v % 256 ^ 4 = v) : IsBlock (m.store (a + 4) 4 v) a { b with free := decide (v ≠ 0) } link where
  size_eq := by
    rw [size, ByteMem.load_store_of_disjoint (by omega)]
    exact h.size_eq
  free_iff := by
    rw [isFree, ByteMem.load_store_self, hv, decide_eq_true_iff]
  next_eq := by
    rw [next, ByteMem.load_store_of_disjoint (by omega)]
    exact h.next_eq

/-- **Cutting a block in two.** -/
theorem Chain.split {b : Blk} {post : List Blk} (h : Chain m a (b :: post))
    (hlt : n + sizeofBlock < b.size) (hend : a + (sizeofBlock + b.size) < 0x100000000) :
    Chain (split m a n) a (⟨n, false⟩ :: ⟨b.size - n - sizeofBlock, true⟩ :: post) ∧
      ∀ x, x < a ∨ a + (sizeofBlock + b.size) ≤ x → Kernel.split m a n x = m x := by
  obtain ⟨hblock, htail⟩ := h
  have hnew : wrap (a + n + sizeofBlock) = a + (sizeofBlock + n) := by
    unfold wrap
    omega
  have hrest : wrap (size m a + 0x200000000 - n - sizeofBlock) = b.size - n - sizeofBlock := by
    rw [hblock.size_eq, wrap]
    omega
  have hlink : next m a % 256 ^ 4 = linkTo (a + (sizeofBlock + b.size)) post := by
    rw [hblock.next_eq]
    cases post <;> simp only [linkTo] <;> omega
  have hback : a + (sizeofBlock + n) + (sizeofBlock + (b.size - n - sizeofBlock)) =
      a + (sizeofBlock + b.size) := by omega
  have hframe : ∀ x, x < a ∨ a + (sizeofBlock + b.size) ≤ x → Kernel.split m a n x = m x := by
    intro x hx
    simp only [Kernel.split, hnew]
    unfold sizeofBlock at *
    simp (disch := omega) only [ByteMem.store_outside]
  refine ⟨⟨?_, ?_, ?_⟩, hframe⟩
  · simp only [Kernel.split, hnew, hrest, linkTo]
    unfold sizeofBlock at *
    constructor
    · simp (disch := omega) only [size, ByteMem.load_store_of_disjoint, ByteMem.load_store_self]
      omega
    · simp (disch := omega) [isFree, ByteMem.load_store_of_disjoint, ByteMem.load_store_self]
    · rw [next, ByteMem.load_store_self]
      omega
  · rw [hback]
    simp only [Kernel.split, hnew, hrest]
    unfold sizeofBlock next at *
    constructor
    · simp (disch := omega) only [size, ByteMem.load_store_of_disjoint, ByteMem.load_store_self]
      omega
    · simp (disch := omega) [isFree, ByteMem.load_store_of_disjoint, ByteMem.load_store_self]
    · simp (disch := omega) only [next, ByteMem.load_store_of_disjoint, ByteMem.load_store_self]
      exact hlink
  · rw [hback]
    exact htail.congr fun p hp x hx _ =>
      hframe x (.inr (Nat.le_trans (mem_headers_bounds hp).1 hx))

/-- What `merge` does with two free neighbours. -/
theorem Chain.join {b c : Blk} {post : List Blk} (h : Chain m a (b :: c :: post))
    (hb : b.free = true) (hend : a + span sizeofBlock (b :: c :: post) < 0x100000000) :
    Chain (absorb m a) a (⟨b.size + c.size + sizeofBlock, true⟩ :: post) ∧
      ∀ x, x < a ∨ a + sizeofBlock ≤ x → absorb m a x = m x := by
  obtain ⟨hblock, hblock', htail⟩ := h
  simp only [span] at hend
  unfold absorb
  generalize hm₁ : m.store a 4 _ = m₁
  generalize hm₂ : m₁.store (a + 8) 4 _ = m₂
  have hlink : next m a = a + (sizeofBlock + b.size) := hblock.next_eq
  have hback : a + (sizeofBlock + (b.size + c.size + sizeofBlock)) =
      a + (sizeofBlock + b.size) + (sizeofBlock + c.size) := by omega
  have hframe : ∀ x, x < a ∨ a + sizeofBlock ≤ x → m₂ x = m x := by
    intro x hx
    rw [← hm₂, ← hm₁]
    unfold sizeofBlock at *
    rw [ByteMem.store_outside (by omega), ByteMem.store_outside (by omega)]
  have hsum : wrap (size m a + (size m (next m a) + sizeofBlock)) =
      b.size + c.size + sizeofBlock := by
    rw [hlink, hblock.size_eq, hblock'.size_eq, wrap]
    omega
  have hnext₁ : next m₁ a = a + (sizeofBlock + b.size) := by
    rw [next, ← hm₁, ByteMem.load_store_of_disjoint (by omega)]
    exact hlink
  have hnext₂ : next m₁ (next m₁ a) =
      linkTo (a + (sizeofBlock + b.size) + (sizeofBlock + c.size)) post := by
    rw [hnext₁, next, ← hm₁, ByteMem.load_store_of_disjoint (by omega)]
    exact hblock'.next_eq
  refine ⟨⟨?_, ?_⟩, hframe⟩
  · rw [hback]
    constructor
    · rw [size, ← hm₂, ByteMem.load_store_of_disjoint (by omega), ← hm₁, ByteMem.load_store_self, hsum]
      exact Nat.mod_eq_of_lt (by omega)
    · rw [isFree, ← hm₂, ByteMem.load_store_of_disjoint (by omega), ← hm₁,
        ByteMem.load_store_of_disjoint (by omega)]
      exact hblock.free_iff.trans (by rw [hb])
    · rw [next, ← hm₂, ByteMem.load_store_self, hnext₂]
      cases post <;> simp only [linkTo] <;> omega
  · rw [hback]
    exact htail.congr fun p hp x hx _ => hframe x (.inr (by
      have := (mem_headers_bounds hp).1
      omega))

/-- **`merge` is one pass over the blocks**, unless it joins the last one: then it goes on
with the word at the null pointer's `next`. -/
theorem merge_spec (h : Chain m a bs) (hne : bs ≠ []) (ha : sizeofBlock ≤ a)
    (hend : a + span sizeofBlock bs < 0x100000000) (hfuel : bs.length < fuel)
    (hlow : next m 0 = 0 ∨ joinsLast bs = false) :
    ∃ m', merge fuel m a = some m' ∧ Chain m' a (coalesce sizeofBlock bs) ∧
      ∀ x, x < a ∨ a + span sizeofBlock bs ≤ x → m' x = m x := by
  fun_induction coalesce sizeofBlock bs generalizing m a fuel with
  | case1 b c bs hfree ih =>
    obtain ⟨fuel, rfl⟩ := Nat.exists_eq_succ_of_ne_zero (Nat.ne_zero_of_lt hfuel)
    have hlink : next m a = a + (sizeofBlock + b.size) := h.1.next_eq
    have hboth : isFree m a ≠ 0 ∧ isFree m (next m a) ≠ 0 := by
      rw [hlink]
      exact ⟨h.1.free_iff.2 hfree.1, h.2.1.free_iff.2 hfree.2⟩
    obtain ⟨hchain, hframe⟩ := h.join hfree.1 hend
    rw [merge, if_pos (by unfold sizeofBlock at hlink; omega), if_pos hboth]
    generalize absorb m a = m₂ at hchain hframe ⊢
    simp only [span, List.length_cons] at hend hfuel ⊢
    have hlow₂ : next m₂ 0 = next m 0 := ByteMem.load_congr fun x _ hx => hframe x (by
      unfold sizeofBlock at ha
      omega)
    rw [joinsLast, if_pos hfree] at hlow
    cases bs with
    | nil =>
      -- the list ends here, and `curr` is null
      have hzero : next m 0 = 0 := hlow.resolve_right (by simp)
      have hnull : next m₂ a = 0 := hchain.1.next_eq
      obtain ⟨fuel, rfl⟩ := Nat.exists_eq_succ_of_ne_zero (show fuel ≠ 0 by omega)
      refine ⟨m₂, ?_, hchain, fun x hx => hframe x (by omega)⟩
      rw [hnull, merge, if_neg (by rw [hlow₂]; exact fun hne => hne hzero)]
    | cons d bs =>
      have hnext₂ : next m₂ a = a + (sizeofBlock + (b.size + c.size + sizeofBlock)) :=
        hchain.1.next_eq
      have hlow' : next m₂ 0 = 0 ∨ joinsLast (d :: bs) = false := by
        rw [hlow₂]
        exact hlow
      have htail : Chain m₂ (a + (sizeofBlock + (b.size + c.size + sizeofBlock))) (d :: bs) :=
        hchain.2
      obtain ⟨m', hmerge, hchain', hframe'⟩ :=
        ih htail (List.cons_ne_nil _ _) (by omega) (by omega)
          (Nat.lt_of_succ_lt (Nat.lt_of_succ_lt_succ hfuel)) hlow'
      refine ⟨m', by rw [hnext₂]; exact hmerge, ?_, fun x hx => ?_⟩
      · refine @Chain.replace _ _ _ [⟨b.size + c.size + sizeofBlock, true⟩] _ _ hchain (List.cons_ne_nil _ _)
          (coalesce_ne_nil (List.cons_ne_nil _ _)) (fun x hx => hframe' x (.inl ?_)) hchain'
        exact hx
      · rw [hframe' x (by omega), hframe x (by omega)]
  | case2 b c bs hfree ih =>
    obtain ⟨fuel, rfl⟩ := Nat.exists_eq_succ_of_ne_zero (Nat.ne_zero_of_lt hfuel)
    have hlink : next m a = a + (sizeofBlock + b.size) := h.1.next_eq
    have hboth : ¬ (isFree m a ≠ 0 ∧ isFree m (next m a) ≠ 0) := by
      rw [hlink]
      exact fun hboth => hfree ⟨h.1.free_iff.1 hboth.1, h.2.1.free_iff.1 hboth.2⟩
    rw [merge, if_pos (by unfold sizeofBlock at hlink; omega), if_neg hboth, hlink]
    rw [joinsLast, if_neg hfree] at hlow
    simp only [span] at hend ⊢
    obtain ⟨m', hmerge, hchain', hframe'⟩ :=
      ih h.2 (List.cons_ne_nil _ _) (by omega) (by simp only [span]; omega)
        (Nat.lt_of_succ_lt_succ hfuel) hlow
    simp only [span] at hframe'
    refine ⟨m', hmerge, ?_, fun x hx => hframe' x (by omega)⟩
    exact @Chain.replace _ _ _ [b] _ _ h (List.cons_ne_nil _ _) (coalesce_ne_nil (List.cons_ne_nil _ _))
      (fun x hx => hframe' x (.inl hx)) hchain'
  | case3 bs hbs =>
    obtain ⟨fuel, rfl⟩ := Nat.exists_eq_succ_of_ne_zero (Nat.ne_zero_of_lt hfuel)
    cases bs with
    | nil => contradiction
    | cons b bs =>
      cases bs with
      | nil =>
        refine ⟨m, ?_, h, fun _ _ => rfl⟩
        rw [merge, if_neg fun hnext => hnext h.1.next_eq]
      | cons c bs => exact (hbs b c bs rfl).elim

end Loops

end Ooows.Kernel
