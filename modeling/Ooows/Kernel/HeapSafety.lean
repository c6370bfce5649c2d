import Ooows.Kernel.Malloc

/-!
# Ooows.Kernel.HeapSafety

What the programs of the guest kernel can rely on.

A program calls `malloc`, writes to the blocks it has got, and frees them.  As long as
the allocator's three slips are not met, its blocks lie in the heap, apart from each other
and from all headers (`heap_safe`).  The slips: the search of `malloc` stops at the last
block even when this is in use; the size that is asked for is added to `sizeof(struct block)`
without a look at the carry; and `merge`, once it has joined the last block, goes on with
the null pointer.
-/

namespace Ooows.Kernel

open Lib Blk

/-! ## the slips -/

namespace Heap

def headers (h : Heap) : List Nat := walk h.mem h.heapSz h.freeList

/-- The search of `malloc` finds a free block, or the block it stops at is not taken. -/
def MallocSafe (h : Heap) (n : Nat) : Prop :=
  size h.mem h.freeList = 0 ∨
  (∃ p ∈ h.headers, n ≤ size h.mem p ∧ isFree h.mem p ≠ 0) ∨
  ∀ p ∈ h.headers, next h.mem p = 0 →
    size h.mem p ≠ n ∧ size h.mem p ≤ wrap (n + sizeofBlock)

instance (h : Heap) (n : Nat) : Decidable (h.MallocSafe n) :=
  inferInstanceAs (Decidable (_ ∨ _ ∨ ∀ p ∈ h.headers, _))

/-- `merge` does not join the last block, or finds the list's end at the null pointer. -/
def FreeSafe (h : Heap) (ptr : Nat) : Prop :=
  next h.mem 0 = 0 ∨
  joinsLast (h.headers.map (blockAt (h.mem.store (ptr - sizeofBlock + 4) 4 1))) = false

instance (h : Heap) (ptr : Nat) : Decidable (h.FreeSafe ptr) := inferInstanceAs (Decidable (_ ∨ _))

theorem malloc_region {h h' : Heap} {n r : Nat} (hmalloc : h.malloc n = some (h', r)) :
    h'.memory = h.memory ∧ h'.heapSz = h.heapSz := by
  unfold malloc at hmalloc
  split at hmalloc
  · cases hmalloc
    exact ⟨rfl, rfl⟩
  · obtain ⟨p, -, hp⟩ := Option.map_eq_some_iff.1 hmalloc
    split at hp
    · cases hp
      exact ⟨rfl, rfl⟩
    · split at hp <;> cases hp <;> exact ⟨rfl, rfl⟩

theorem free_region {h h' : Heap} {ptr : Nat} (hfree : h.free ptr = some h') :
    h'.memory = h.memory ∧ h'.heapSz = h.heapSz := by
  unfold free at hfree
  split at hfree
  · obtain ⟨m, -, rfl⟩ := Option.map_eq_some_iff.1 hfree
    exact ⟨rfl, rfl⟩
  · cases hfree
    exact ⟨rfl, rfl⟩

end Heap

/-! ## the programs -/

/-- The kernel with what its programs have got from `malloc`: address and size. -/
structure Sys where
  heap : Heap
  live : List (Nat × Nat)

inductive Act
  | malloc (n : UInt32)
  | free (ptr : Nat)
  /-- A program writes a byte. -/
  | write (addr : Nat) (v : UInt8)
  deriving DecidableEq, Repr

namespace Sys

def init (m : ByteMem) (ptr sz : Nat) : Sys := ⟨mallocInit m ptr sz, []⟩

/-- What programs may write to: their blocks, and what is not of the heap. -/
def Writable (s : Sys) (addr : Nat) : Prop :=
  addr < s.heap.memory ∨ s.heap.memory + s.heap.heapSz ≤ addr ∨
    ∃ x ∈ s.live, x.1 ≤ addr ∧ addr < x.1 + x.2

instance (s : Sys) (addr : Nat) : Decidable (s.Writable addr) :=
  inferInstanceAs (Decidable (_ ∨ _ ∨ _))

/-- Programs free only what they have, and write only where they may. -/
def step (s : Sys) : Act → Option Sys
  | .malloc n => (s.heap.malloc n.toNat).map fun result =>
    { heap := result.1
      live := if result.2 = 0 then s.live else (result.2, n.toNat) :: s.live }
  | .free ptr =>
    if ptr ∈ s.live.map Prod.fst then (s.heap.free ptr).map fun heap =>
      { heap := heap, live := s.live.filter fun x => x.1 ≠ ptr }
    else none
  | .write addr v =>
    if s.Writable addr then
      some { s with heap := { s.heap with mem := s.heap.mem.writeBytes addr [v] } }
    else none

/-- The call meets none of the allocator's slips. -/
def CallSafe (s : Sys) : Act → Prop
  | .malloc n => s.heap.MallocSafe n.toNat
  | .free ptr => s.heap.FreeSafe ptr
  | .write _ _ => True

instance (s : Sys) : (a : Act) → Decidable (s.CallSafe a)
  | .malloc n => inferInstanceAs (Decidable (s.heap.MallocSafe n.toNat))
  | .free ptr => inferInstanceAs (Decidable (s.heap.FreeSafe ptr))
  | .write _ _ => inferInstanceAs (Decidable True)

end Sys

/-! ## the invariant -/

/-- **The heap holds these blocks.** -/
structure Holds (h : Heap) (bs : List Blk) : Prop where
  chain : Chain h.mem h.freeList bs
  ne : bs ≠ []
  span_eq : span sizeofBlock bs = h.heapSz
  memory : h.memory = h.freeList
  low : sizeofBlock ≤ h.freeList
  high : h.freeList + h.heapSz < 0x100000000

namespace Holds

variable {h : Heap} {bs : List Blk} {n : Nat}

theorem length_lt (hh : Holds h bs) : bs.length < h.heapSz := by
  have hlen := @length_mul_le_span sizeofBlock bs
  have hpos := List.length_pos_of_ne_nil hh.ne
  rw [hh.span_eq] at hlen
  unfold sizeofBlock at hlen
  omega

theorem pos (hh : Holds h bs) : 0 < h.freeList := by
  have := hh.low
  unfold sizeofBlock at this
  omega

theorem headers_eq (hh : Holds h bs) : h.headers = headers sizeofBlock h.freeList bs :=
  hh.chain.walk_eq hh.ne hh.pos (Nat.le_of_lt hh.length_lt)

/-- The list in the memory is replaced, from some block on. -/
theorem replace {pre rest rest' : List Blk} {m : ByteMem} (hh : Holds h (pre ++ rest))
    (hne : rest ≠ []) (hne' : rest' ≠ [])
    (hm : ∀ x, x < h.freeList + span sizeofBlock pre → m x = h.mem x)
    (hrest : Chain m (h.freeList + span sizeofBlock pre) rest')
    (hspan : span sizeofBlock rest' = span sizeofBlock rest) :
    Holds { h with mem := m } (pre ++ rest') where
  chain := hh.chain.replace hne hne' hm hrest
  ne := by simp [hne']
  span_eq := by
    rw [span_append, hspan, ← span_append]
    exact hh.span_eq
  memory := hh.memory
  low := hh.low
  high := hh.high

/-- The flag of a block is written. -/
theorem setFree {pre post : List Blk} {b : Blk} (hh : Holds h (pre ++ b :: post)) {v : Nat}
    (hv : v % 256 ^ 4 = v) :
    Holds { h with mem := h.mem.store (h.freeList + span sizeofBlock pre + 4) 4 v }
      (pre ++ ⟨b.size, decide (v ≠ 0)⟩ :: post) := by
  refine hh.replace nofun nofun (fun x hx => ByteMem.store_outside (by omega)) ?_ rfl
  refine hh.chain.tail.setHead rfl (fun hblock => hblock.setFree hv) fun x hx => ?_
  have hheader : sizeofBlock = 12 := rfl
  exact ByteMem.store_outside (by omega)

/-- A free block is cut in two. -/
theorem split {pre post : List Blk} {b : Blk} (hh : Holds h (pre ++ b :: post))
    (hlt : n + sizeofBlock < b.size) :
    Holds { h with mem := split h.mem (h.freeList + span sizeofBlock pre) n }
      (pre ++ ⟨n, false⟩ :: ⟨b.size - n - sizeofBlock, true⟩ :: post) := by
  have hspan := hh.span_eq
  have hhigh := hh.high
  simp only [span_append, span] at hspan
  obtain ⟨hchain, hframe⟩ := hh.chain.tail.split hlt (by omega)
  refine hh.replace (List.cons_ne_nil _ _) (List.cons_ne_nil _ _) (fun x hx => hframe x (.inl hx)) hchain ?_
  simp only [span]
  omega

/-- **`malloc`**: it returns null and changes nothing, or a new block of the size that was
asked for. -/
theorem malloc (hh : Holds h bs) (hsafe : h.MallocSafe n) :
    h.malloc n = some (h, 0) ∨
    ∃ m r bs', h.malloc n = some ({ h with mem := m }, r) ∧ r ≠ 0 ∧ Holds { h with mem := m } bs' ∧
      (used sizeofBlock h.freeList bs').Perm ((r, n) :: used sizeofBlock h.freeList bs) := by
  have hheader : sizeofBlock = 12 := rfl
  have hspan := hh.span_eq
  have hhigh := hh.high
  unfold Heap.malloc
  by_cases hzero : size h.mem h.freeList = 0
  · exact .inl (if_pos hzero)
  obtain ⟨pre, b, post, rfl, hsearch, hfound⟩ :=
    search_spec (n := n) hh.chain hh.ne hh.pos (Nat.le_of_lt hh.length_lt)
  have hblock := hh.chain.tail.1
  simp only [span_append, span] at hspan
  rw [if_neg hzero, hsearch, Option.map_some, hblock.size_eq]
  have haddr : wrap (h.freeList + span sizeofBlock pre + sizeofBlock) =
      h.freeList + span sizeofBlock pre + sizeofBlock := by
    unfold wrap
    omega
  rcases hfound with ⟨hfit, hfree⟩ | ⟨rfl, hnone⟩
  · -- a free block that is large enough
    have hwrap : wrap (n + sizeofBlock) = n + sizeofBlock := by
      unfold wrap
      omega
    obtain ⟨size, free⟩ := b
    cases hfree
    dsimp only at hfit ⊢
    rw [hwrap, haddr]
    by_cases hexact : size = n
    · subst hexact
      rw [if_pos rfl]
      exact .inr ⟨_, _, _, rfl, by omega, hh.setFree rfl, used_perm⟩
    · rw [if_neg hexact]
      by_cases hlarge : n + sizeofBlock < size
      · rw [if_pos hlarge]
        exact .inr ⟨_, _, _, rfl, by omega, hh.split hlarge, used_split_perm (Nat.le_of_lt hlarge)⟩
      · exact .inl (by rw [if_neg hlarge])
  · -- the last block, and no free block is large enough
    have hlast : h.freeList + span sizeofBlock pre ∈ h.headers := by
      rw [hh.headers_eq, headers_append]
      exact List.mem_append_right _ (List.mem_singleton_self _)
    rcases hsafe with hzero' | ⟨p, hp, hfit, hfree⟩ | hsafe
    · exact absurd hzero' hzero
    · have hmem : blockAt h.mem p ∈ pre ++ [b] := by
        rw [← hh.chain.map_blockAt, ← hh.headers_eq]
        exact List.mem_map_of_mem hp
      exact absurd (hnone _ hmem (decide_eq_true hfree)) (Nat.not_lt_of_le hfit)
    · obtain ⟨hexact, hlarge⟩ := hsafe _ hlast hblock.next_eq
      rw [hblock.size_eq] at hexact hlarge
      exact .inl (by rw [if_neg hexact, if_neg (Nat.not_lt_of_le hlarge)])

/-- `free` marks a block in use: it is free then, and everything else is as it was. -/
theorem mark (hh : Holds h bs) {x : Nat × Nat} (hx : x ∈ used sizeofBlock h.freeList bs) :
    ∃ bs', Holds { h with mem := h.mem.store (x.1 - sizeofBlock + 4) 4 1 } bs' ∧
      x.1 - sizeofBlock ∈ h.headers ∧ headers sizeofBlock h.freeList bs' = h.headers ∧
      (used sizeofBlock h.freeList bs).Perm (x :: used sizeofBlock h.freeList bs') := by
  obtain ⟨pre, post, rfl, haddr⟩ := exists_of_mem_used hx
  have hcurr : x.1 - sizeofBlock = h.freeList + span sizeofBlock pre := by omega
  refine ⟨pre ++ ⟨x.2, true⟩ :: post, ?_, ?_, ?_, ?_⟩
  · rw [hcurr]
    exact hh.setFree rfl
  · rw [hh.headers_eq, headers_append, hcurr]
    exact List.mem_append_right _ (List.mem_cons_self ..)
  · simp only [hh.headers_eq, headers_append, headers]
  · rw [show x = (h.freeList + span sizeofBlock pre + sizeofBlock, x.2) from Prod.ext haddr rfl]
    exact used_perm

/-- **`free`**, once the block is marked, is `merge`. -/
theorem free_eq (hh : Holds h bs) {x : Nat × Nat} (hx : x ∈ used sizeofBlock h.freeList bs) :
    h.free x.1 = (merge h.heapSz (h.mem.store (x.1 - sizeofBlock + 4) 4 1) h.freeList).map
      fun m => { h with mem := m } := by
  have hbounds := mem_used_bounds hx
  rw [hh.span_eq, ← hh.memory] at hbounds
  unfold Heap.free
  rw [if_pos (by omega)]

/-- **`merge`** of the heap's blocks. -/
theorem merge (hh : Holds h bs) (hlast : next h.mem 0 = 0 ∨ joinsLast bs = false) :
    ∃ m, Kernel.merge h.heapSz h.mem h.freeList = some m ∧
      Holds { h with mem := m } (coalesce sizeofBlock bs) := by
  have hhigh := hh.high
  rw [← hh.span_eq] at hhigh
  obtain ⟨m, hmerge, hchain, -⟩ := merge_spec hh.chain hh.ne hh.low hhigh hh.length_lt hlast
  refine ⟨m, hmerge, { hh with chain := hchain, ne := coalesce_ne_nil hh.ne, span_eq := ?_ }⟩
  rw [span_coalesce]
  exact hh.span_eq

/-- **`free`** of a block in use. -/
theorem free (hh : Holds h bs) {x : Nat × Nat} (hx : x ∈ used sizeofBlock h.freeList bs)
    (hsafe : h.FreeSafe x.1) :
    ∃ m bs', h.free x.1 = some { h with mem := m } ∧ Holds { h with mem := m } bs' ∧
      (used sizeofBlock h.freeList bs).Perm (x :: used sizeofBlock h.freeList bs') := by
  obtain ⟨bs', hmark, -, hheaders, hused⟩ := hh.mark hx
  have hlast : next (h.mem.store (x.1 - sizeofBlock + 4) 4 1) 0 = 0 ∨ joinsLast bs' = false := by
    have hbounds := mem_used_bounds hx
    have hlow := hh.low
    have hheader : sizeofBlock = 12 := rfl
    have hblocks := hmark.chain.map_blockAt
    dsimp only at hblocks
    unfold Heap.FreeSafe at hsafe
    rw [← hheaders, hblocks] at hsafe
    rw [next, ByteMem.load_store_of_disjoint (by omega)]
    exact hsafe
  obtain ⟨m, hmerge, hholds⟩ := hmark.merge hlast
  refine ⟨m, _, ?_, hholds, ?_⟩
  · rw [hh.free_eq hx]
    exact congrArg (Option.map _) hmerge
  · rw [used_coalesce]
    exact hused

/-- A byte is written that is in no header. -/
theorem write (hh : Holds h bs) {addr : Nat} (v : UInt8)
    (haddr : ∀ p ∈ headers sizeofBlock h.freeList bs, addr < p ∨ p + sizeofBlock ≤ addr) :
    Holds { h with mem := h.mem.writeBytes addr [v] } bs :=
  { hh with
    chain := hh.chain.congr fun p hp x hx hx' => ByteMem.writeBytes_outside (by
      have := haddr p hp
      rw [List.length_singleton]
      omega) }

end Holds

/-! ## runs -/

/-- The blocks that the programs have are those in use. -/
structure Sys.Ok (s : Sys) (bs : List Blk) : Prop where
  holds : Holds s.heap bs
  live : s.live.Perm (used sizeofBlock s.heap.freeList bs)

namespace Sys.Ok

variable {s t : Sys} {bs : List Blk}

theorem init {ptr sz : Nat} (m : ByteMem) (hptr : sizeofBlock ≤ ptr) (hsz : sizeofBlock ≤ sz)
    (hend : ptr + sz < 0x100000000) : (Sys.init m ptr sz).Ok [⟨sz - sizeofBlock, true⟩] where
  holds := {
    chain := by
      have hwrap : wrap (sz + 0x100000000 - sizeofBlock) = sz - sizeofBlock := by
        unfold wrap
        omega
      refine ⟨⟨?_, ?_, ?_⟩, trivial⟩ <;>
        simp (disch := omega) only [Sys.init, mallocInit, size, isFree, next, hwrap, linkTo,
          ByteMem.load_store_of_disjoint, ByteMem.load_store_self]
      · exact Nat.mod_eq_of_lt (by omega)
      · decide
      · decide
    ne := nofun
    span_eq := by
      simp only [span, Sys.init, mallocInit]
      omega
    memory := rfl
    low := hptr
    high := hend }
  live := .refl _

theorem malloc (h : s.Ok bs) {n : UInt32} (hsafe : s.heap.MallocSafe n.toNat)
    (ht : s.step (.malloc n) = some t) : ∃ bs', t.Ok bs' := by
  obtain ⟨⟨heap, r⟩, hmalloc, rfl⟩ := Option.map_eq_some_iff.1 ht
  rcases h.holds.malloc hsafe with hnull | ⟨m, r', bs', hnew, hr, hholds, hused⟩
  · cases hmalloc.symm.trans hnull
    exact ⟨bs, h⟩
  · cases hmalloc.symm.trans hnew
    refine ⟨bs', hholds, ?_⟩
    dsimp only
    rw [if_neg hr]
    exact (h.live.cons _).trans hused.symm

theorem free (h : s.Ok bs) {ptr : Nat} (hsafe : s.heap.FreeSafe ptr)
    (ht : s.step (.free ptr) = some t) : ∃ bs', t.Ok bs' := by
  obtain ⟨hmem, ht⟩ := Option.ite_none_right_eq_some.1 ht
  obtain ⟨x, hx, rfl⟩ := List.mem_map.1 hmem
  obtain ⟨heap, hfree, ht⟩ := Option.map_eq_some_iff.1 ht
  obtain ⟨m, bs', hfree', hholds, hused⟩ := h.holds.free (h.live.mem_iff.1 hx) hsafe
  cases hfree.symm.trans hfree'
  cases ht
  refine ⟨bs', hholds, ?_⟩
  -- no other block begins there
  have hother : ∀ y ∈ used sizeofBlock s.heap.freeList bs', y.1 ≠ x.1 := by
    have hsym : ∀ y z : Nat × Nat, y.1 ≠ z.1 → z.1 ≠ y.1 := fun _ _ => Ne.symm
    have hpairs : (used sizeofBlock s.heap.freeList bs).Pairwise fun y z => y.1 ≠ z.1 :=
      used_pairwise.imp fun {y z} hle => by
        have hheader : sizeofBlock = 12 := rfl
        omega
    have hcons := (hused.pairwise_iff (hsym _ _)).1 hpairs
    exact fun y hy => Ne.symm ((List.pairwise_cons.1 hcons).1 y hy)
  refine ((h.live.trans hused).filter _).trans (.of_eq ?_)
  rw [List.filter_cons_of_neg (by simp)]
  exact List.filter_eq_self.2 fun y hy => decide_eq_true (hother y hy)

theorem write (h : s.Ok bs) {addr : Nat} {v : UInt8} (ht : s.step (.write addr v) = some t) :
    t.Ok bs := by
  obtain ⟨hwritable, ht⟩ := Option.ite_none_right_eq_some.1 ht
  cases ht
  refine ⟨h.holds.write v fun p hp => ?_, h.live⟩
  have hbounds := mem_headers_bounds hp
  rw [h.holds.span_eq] at hbounds
  rcases hwritable with hlow | hhigh | ⟨x, hx, hle, hlt⟩
  · rw [h.holds.memory] at hlow
    omega
  · rw [h.holds.memory] at hhigh
    omega
  · have := used_headers (h.live.mem_iff.1 hx) hp
    omega

/-- **One step.** -/
theorem step (h : ∃ bs, s.Ok bs) {a : Act} (hsafe : s.CallSafe a) (ht : s.step a = some t) :
    ∃ bs, t.Ok bs := by
  obtain ⟨bs, h⟩ := h
  cases a with
  | malloc n => exact h.malloc hsafe ht
  | free ptr => exact h.free hsafe ht
  | write addr v => exact ⟨bs, h.write ht⟩

/-- A program's block: in the heap, and apart from the headers. -/
theorem mem_live (h : s.Ok bs) {x : Nat × Nat} (hx : x ∈ s.live) :
    s.heap.memory ≤ x.1 ∧ x.1 + x.2 ≤ s.heap.memory + s.heap.heapSz ∧
    ∀ p ∈ s.heap.headers, x.1 + x.2 ≤ p ∨ p + sizeofBlock ≤ x.1 := by
  have hused := h.live.mem_iff.1 hx
  obtain ⟨hlow, hhigh⟩ := mem_used_bounds hused
  rw [h.holds.span_eq] at hhigh
  rw [h.holds.memory, h.holds.headers_eq]
  exact ⟨by omega, hhigh, fun p hp => used_headers hused hp⟩

/-- Two blocks have no byte in common. -/
theorem pairwise_live (h : s.Ok bs) :
    s.live.Pairwise fun x y => x.1 + x.2 ≤ y.1 ∨ y.1 + y.2 ≤ x.1 := by
  refine (h.live.pairwise_iff fun {x y} => Or.symm).2 (used_pairwise.imp fun {x y} hle => .inl ?_)
  omega

end Sys.Ok

namespace Sys

/-- The region is that of `malloc_init`. -/
theorem step_region {s t : Sys} {a : Act} (h : s.step a = some t) :
    t.heap.memory = s.heap.memory ∧ t.heap.heapSz = s.heap.heapSz := by
  cases a with
  | malloc n =>
    obtain ⟨⟨heap, r⟩, hmalloc, rfl⟩ := Option.map_eq_some_iff.1 h
    exact Heap.malloc_region hmalloc
  | free ptr =>
    obtain ⟨heap, hfree, rfl⟩ := Option.map_eq_some_iff.1 (Option.ite_none_right_eq_some.1 h).2
    exact Heap.free_region hfree
  | write addr v =>
    cases (Option.ite_none_right_eq_some.1 h).2
    exact ⟨rfl, rfl⟩

/-- **The heap is safe.**  Whatever the programs of the kernel allocate, free and write, as
long as no call meets a slip of the allocator: each of their blocks has the size that was
asked for, lies in the heap and holds no byte of a header nor of another block; and no call
runs away. -/
theorem heap_safe {m : ByteMem} {ptr sz : Nat} {acts : List Act} {s : Sys}
    (hptr : sizeofBlock ≤ ptr) (hsz : sizeofBlock ≤ sz) (hend : ptr + sz < 0x100000000)
    (hrun : Run (Guarded CallSafe fun s a t => s.step a = some t) (init m ptr sz) acts s) :
    (∀ x ∈ s.live, ptr ≤ x.1 ∧ x.1 + x.2 ≤ ptr + sz ∧
      ∀ p ∈ s.heap.headers, x.1 + x.2 ≤ p ∨ p + sizeofBlock ≤ x.1) ∧
    (s.live.Pairwise fun x y => x.1 + x.2 ≤ y.1 ∨ y.1 + y.2 ≤ x.1) ∧
    (∀ n, s.CallSafe (.malloc n) → (s.step (.malloc n)).isSome) ∧
    ∀ x ∈ s.live, s.CallSafe (.free x.1) → (s.step (.free x.1)).isSome := by
  obtain ⟨⟨bs, hok⟩, rfl, rfl⟩ : (∃ bs, s.Ok bs) ∧ ptr = s.heap.memory ∧ sz = s.heap.heapSz := by
    refine hrun.invariant (I := fun s => (∃ bs, s.Ok bs) ∧ ptr = s.heap.memory ∧ sz = s.heap.heapSz)
      (fun s a t hs hstep => ?_) ⟨⟨_, .init m hptr hsz hend⟩, rfl, rfl⟩
    obtain ⟨hmemory, hheapSz⟩ := step_region hstep.2
    exact ⟨Ok.step hs.1 hstep.1 hstep.2, hs.2.1.trans hmemory.symm, hs.2.2.trans hheapSz.symm⟩
  refine ⟨fun x hx => hok.mem_live hx, hok.pairwise_live, fun n hsafe => ?_, fun x hx hsafe => ?_⟩
  · rcases hok.holds.malloc hsafe with hnull | ⟨m, r, bs', hnew, -⟩
    · simp only [step, hnull, Option.map_some, Option.isSome_some]
    · simp only [step, hnew, Option.map_some, Option.isSome_some]
  · obtain ⟨m, bs', hfree, -⟩ := hok.holds.free (hok.live.mem_iff.1 hx) hsafe
    have hmem : x.1 ∈ s.live.map Prod.fst := List.mem_map_of_mem hx
    simp only [step, if_pos hmem, hfree, Option.map_some, Option.isSome_some]

/-- Three blocks are taken and the middle one is freed, written to and taken again. -/
theorem heap_safe_reuse : ∃ s,
    Run (Guarded CallSafe fun s a t => s.step a = some t) (init (fun _ => 0) 0x1000 0x100)
      [.malloc 0x10, .malloc 0x20, .malloc 0x10, .write 0x1028 7, .free 0x1028, .malloc 0x20] s ∧
    s.live = [(0x1028, 0x20), (0x1054, 0x10), (0x100c, 0x10)] ∧
    s.live.Pairwise fun x y => x.1 + x.2 ≤ y.1 ∨ y.1 + y.2 ≤ x.1 := by
  have hexec : (exec (fun s a => if CallSafe s a then s.step a else none)
      (init (fun _ => 0) 0x1000 0x100) [.malloc 0x10, .malloc 0x20, .malloc 0x10, .write 0x1028 7,
        .free 0x1028, .malloc 0x20]).map Sys.live =
      some [(0x1028, 0x20), (0x1054, 0x10), (0x100c, 0x10)] := by decide +kernel
  obtain ⟨s, hs, hlive⟩ := Option.map_eq_some_iff.1 hexec
  have hrun := run_guarded_of_exec hs
  exact ⟨s, hrun, hlive, (heap_safe (by decide) (by decide) (by decide) hrun).2.1⟩

/-- The whole heap, twice. -/
def takenTwice : List Act := [.malloc 0x54, .malloc 0x54]

/-- With the header that is no more than four bytes. -/
def tooLarge : List Act := [.malloc 0xfffffff8]

/-- `merge` goes on at the null pointer: the list there leads it into the header of a block
in use. -/
def pastTheEnd : List Act :=
  [.malloc 0x10, .malloc 0x10, .write 8 0x04, .write 9 0x10, .write 0x100d 0x20, .write 0x2004 1,
    .free 0x1028, .malloc 0x10]

/-- In a heap of 96 bytes these calls lead to blocks that are not inside it, or overlap. -/
def Overlaps (acts : List Act) : Prop :=
  ∃ s, Run (fun s a t => s.step a = some t) (init (fun _ => 0) 0x1000 0x60) acts s ∧
    ¬ ((∀ x ∈ s.live, 0x1000 ≤ x.1 ∧ x.1 + x.2 ≤ 0x1060) ∧
      s.live.Pairwise fun x y => x.1 + x.2 ≤ y.1 ∨ y.1 + y.2 ≤ x.1)

/-- **Each slip gives away what is not there to give.** -/
theorem heap_unsafe : Overlaps takenTwice ∧ Overlaps tooLarge ∧ Overlaps pastTheEnd := by
  have hexec : ∀ acts ∈ [takenTwice, tooLarge, pastTheEnd],
      ∃ live ∈ (exec step (init (fun _ => 0) 0x1000 0x60) acts).map Sys.live,
        ¬ ((∀ x ∈ live, 0x1000 ≤ x.1 ∧ x.1 + x.2 ≤ 0x1060) ∧
          live.Pairwise fun x y => x.1 + x.2 ≤ y.1 ∨ y.1 + y.2 ≤ x.1) := by decide +kernel
  have hoverlaps : ∀ acts ∈ [takenTwice, tooLarge, pastTheEnd], Overlaps acts := by
    intro acts hacts
    obtain ⟨live, hlive, hbad⟩ := hexec acts hacts
    obtain ⟨s, hs, rfl⟩ := Option.map_eq_some_iff.1 hlive
    exact ⟨s, (run_iff_exec step).2 hs, hbad⟩
  exact ⟨hoverlaps _ (by simp), hoverlaps _ (by simp), hoverlaps _ (by simp)⟩

end Sys

end Ooows.Kernel
