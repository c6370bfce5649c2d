import Ooows.Kernel.HeapSafety

/-!
# Ooows.Kernel.Coalesce

What one call of `free` does to the heap, and what it looks at.

`merge` walks over the list of blocks once.  After it has joined two blocks it goes on
behind them, so a third free block is not joined with the first two; and if it has joined
the last block, there is nothing behind it, and the loop's condition reads the `next` of the
null pointer.  Both happen unless a block in use follows every two free neighbours
(`Blk.PairsEnd`); under this condition, and under no weaker one, `free` looks at the
headers only and leaves no two free neighbours (`free_coalesces_iff`).

The states are those that `malloc` and `free` lead to.  A block can be given out twice there,
when the search of `malloc` stops at the last block although this is in use; so the
invariant is not that of `HeapSafety`, but only that each pointer is that of a block in use
(`Sys.Begins`).
-/

namespace Ooows.Kernel

open Lib Blk

/-! ## what is looked at -/

/-- The `struct block`s that the loop of `merge` reads or writes. -/
def mergeTouches : Nat → ByteMem → Nat → List Nat
  | 0, _, _ => []
  | fuel + 1, m, curr =>
    curr :: if next m curr ≠ 0 then
      if isFree m curr ≠ 0 then
        next m curr :: if isFree m (next m curr) ≠ 0 then
          mergeTouches fuel (absorb m curr) (next (absorb m curr) curr)
        else mergeTouches fuel m (next m curr)
      else mergeTouches fuel m (next m curr)
    else []

namespace Heap

/-- The `struct block`s that `free` reads or writes. -/
def freeTouches (h : Heap) (ptr : Nat) : List Nat :=
  if h.memory ≤ ptr ∧ ptr ≤ h.memory + h.heapSz then
    let curr := ptr - sizeofBlock
    curr :: mergeTouches h.heapSz (h.mem.store (curr + 4) 4 1) h.freeList
  else []

/-- The blocks of the list. -/
def blocks (h : Heap) : List Blk := h.headers.map (blockAt h.mem)

/-- **`free` does its work**: it returns, it has looked at headers in the heap only, the blocks
with their headers are the heap, and no two neighbours are free. -/
structure Coalesces (h : Heap) (ptr : Nat) (h' : Heap) : Prop where
  returns : h.free ptr = some h'
  touches : ∀ p ∈ h.freeTouches ptr, p ∈ h.headers ∧ h.memory ≤ p ∧
    p + sizeofBlock ≤ h.memory + h.heapSz
  total : (h'.blocks.map fun b => b.size + sizeofBlock).sum = h.heapSz
  separated : Separated h'.blocks

/-- Once the block is marked, a block in use follows every two free neighbours. -/
def Mergeable (h : Heap) (ptr : Nat) : Prop :=
  PairsEnd (h.headers.map (blockAt (h.mem.store (ptr - sizeofBlock + 4) 4 1)))

instance (h : Heap) (ptr : Nat) : Decidable (h.Mergeable ptr) := decidablePairsEnd _

end Heap

section Touches

variable {m : ByteMem} {a : Nat} {b c : Blk} {bs : List Blk} (fuel : Nat)

/-- Two free neighbours: both are looked at, and then what is behind them. -/
theorem mergeTouches_join (h : Chain m a (b :: c :: bs)) (hfree : b.free = true ∧ c.free = true)
    (ha : sizeofBlock ≤ a) (hend : a + span sizeofBlock (b :: c :: bs) < 0x100000000) :
    Chain (absorb m a) (a + (sizeofBlock + (b.size + c.size + sizeofBlock))) bs ∧
    mergeTouches (fuel + 1) m a = a :: (a + (sizeofBlock + b.size)) ::
      mergeTouches fuel (absorb m a)
        (linkTo (a + (sizeofBlock + (b.size + c.size + sizeofBlock))) bs) := by
  have hheader : sizeofBlock = 12 := rfl
  have hlink : next m a = a + (sizeofBlock + b.size) := h.1.next_eq
  obtain ⟨hchain, -⟩ := h.join hfree.1 hend
  refine ⟨hchain.2, ?_⟩
  rw [mergeTouches, if_pos (by omega), if_pos (h.1.free_iff.2 hfree.1), hlink,
    if_pos (h.2.1.free_iff.2 hfree.2), hchain.1.next_eq]

/-- Otherwise the second one is looked at if the first is free, and the loop goes on with
it. -/
theorem mergeTouches_keep (h : Chain m a (b :: c :: bs))
    (hfree : ¬ (b.free = true ∧ c.free = true)) (ha : sizeofBlock ≤ a) :
    mergeTouches (fuel + 1) m a = a :: ((if b.free then [a + (sizeofBlock + b.size)] else []) ++
      mergeTouches fuel m (a + (sizeofBlock + b.size))) := by
  have hheader : sizeofBlock = 12 := rfl
  have hlink : next m a = a + (sizeofBlock + b.size) := h.1.next_eq
  rw [mergeTouches, if_pos (by omega), hlink]
  by_cases hb : b.free = true
  · have hc : ¬ isFree m (a + (sizeofBlock + b.size)) ≠ 0 := fun hc =>
      hfree ⟨hb, h.2.1.free_iff.1 hc⟩
    rw [if_pos (h.1.free_iff.2 hb), if_neg hc, if_pos hb]
    rfl
  · rw [if_neg (mt h.1.free_iff.1 hb), if_neg hb]
    rfl

/-- The last block. -/
theorem mergeTouches_last (h : Chain m a [b]) : mergeTouches (fuel + 1) m a = [a] := by
  rw [mergeTouches, if_neg fun hnext => hnext h.1.next_eq]

/-- **Only headers are looked at**, if the last block is not joined. -/
theorem mergeTouches_headers (h : Chain m a bs) (hne : bs ≠ []) (ha : sizeofBlock ≤ a)
    (hend : a + span sizeofBlock bs < 0x100000000) (hlast : joinsLast bs = false) :
    ∀ p ∈ mergeTouches fuel m a, p ∈ headers sizeofBlock a bs := by
  intro p hp
  fun_induction joinsLast bs generalizing m a fuel with
  | case1 b c bs hfree ih =>
    cases fuel with
    | zero => cases hp
    | succ fuel =>
      rw [Bool.or_eq_false_iff] at hlast
      have hbs : bs ≠ [] := fun hnil => by simp [hnil] at hlast
      obtain ⟨hchain, htouches⟩ := mergeTouches_join fuel h hfree ha hend
      have hbehind : a + (sizeofBlock + b.size) + (sizeofBlock + c.size) =
          a + (sizeofBlock + (b.size + c.size + sizeofBlock)) := by omega
      simp only [span] at hend
      rw [htouches, linkTo_of_ne hbs] at hp
      rw [headers, headers, hbehind]
      rcases List.mem_cons.1 hp with rfl | hp
      · exact List.mem_cons_self ..
      rcases List.mem_cons.1 hp with rfl | hp
      · exact List.mem_cons_of_mem _ (List.mem_cons_self ..)
      · exact List.mem_cons_of_mem _ (List.mem_cons_of_mem _
          (ih fuel hchain hbs (by omega) (by omega) hlast.2 hp))
  | case2 b c bs hfree ih =>
    cases fuel with
    | zero => cases hp
    | succ fuel =>
      rw [span] at hend
      rw [mergeTouches_keep fuel h hfree ha] at hp
      rw [headers]
      rcases List.mem_cons.1 hp with rfl | hp
      · exact List.mem_cons_self ..
      refine List.mem_cons_of_mem _ ?_
      rcases List.mem_append.1 hp with hp | hp
      · split at hp
        next =>
          cases List.mem_singleton.1 hp
          exact List.mem_cons_self ..
        next => cases hp
      · exact ih fuel h.2 (List.cons_ne_nil _ _) (by omega) (by omega) hlast hp
  | case3 bs hbs =>
    cases bs with
    | nil => contradiction
    | cons b bs =>
      cases bs with
      | nil =>
        cases fuel with
        | zero => cases hp
        | succ fuel =>
          rw [mergeTouches_last fuel h] at hp
          exact hp
      | cons c bs => exact (hbs b c bs rfl).elim

/-- **The null pointer is looked at**, if the last block is joined. -/
theorem zero_mem_mergeTouches (h : Chain m a bs) (ha : sizeofBlock ≤ a)
    (hend : a + span sizeofBlock bs < 0x100000000) (hfuel : bs.length ≤ fuel)
    (hlast : joinsLast bs = true) : 0 ∈ mergeTouches fuel m a := by
  fun_induction joinsLast bs generalizing m a fuel with
  | case1 b c bs hfree ih =>
    obtain ⟨fuel, rfl⟩ := Nat.exists_eq_succ_of_ne_zero (Nat.ne_zero_of_lt hfuel)
    obtain ⟨hchain, htouches⟩ := mergeTouches_join fuel h hfree ha hend
    simp only [span, List.length_cons] at hend hfuel
    rw [htouches]
    refine List.mem_cons_of_mem _ (List.mem_cons_of_mem _ ?_)
    cases bs with
    | nil =>
      -- the link is null, and the loop's condition reads its `next`
      obtain ⟨fuel, rfl⟩ := Nat.exists_eq_succ_of_ne_zero (show fuel ≠ 0 by omega)
      exact List.mem_cons_self ..
    | cons d bs =>
      rw [linkTo]
      exact ih fuel hchain (by omega) (by omega) (by omega) hlast
  | case2 b c bs hfree ih =>
    obtain ⟨fuel, rfl⟩ := Nat.exists_eq_succ_of_ne_zero (Nat.ne_zero_of_lt hfuel)
    rw [span] at hend
    rw [mergeTouches_keep fuel h hfree ha]
    exact List.mem_cons_of_mem _ (List.mem_append_right _
      (ih fuel h.2 (by omega) (by omega) (Nat.le_of_succ_le_succ hfuel) hlast))
  | case3 => contradiction

end Touches

/-! ## one call -/

namespace Holds

variable {h : Heap} {bs : List Blk} {x : Nat × Nat}

theorem blocks_eq (hh : Holds h bs) : h.blocks = bs := by
  rw [Heap.blocks, hh.headers_eq]
  exact hh.chain.map_blockAt

theorem mem_headers (hh : Holds h bs) {p : Nat} (hp : p ∈ h.headers) :
    h.memory ≤ p ∧ p + sizeofBlock ≤ h.memory + h.heapSz := by
  rw [hh.headers_eq] at hp
  rw [hh.memory, ← hh.span_eq]
  exact mem_headers_bounds hp

/-- **One call of `free`** does its work exactly if a block in use follows every two free
neighbours. -/
theorem coalesces_iff (hh : Holds h bs) (hx : x ∈ used sizeofBlock h.freeList bs) :
    (∃ h', h.Coalesces x.1 h') ↔ h.Mergeable x.1 := by
  obtain ⟨bs', hmark, hcurr, hheaders, -⟩ := hh.mark hx
  have hblocks : h.headers.map (blockAt (h.mem.store (x.1 - sizeofBlock + 4) 4 1)) = bs' := by
    rw [← hheaders]
    exact hmark.chain.map_blockAt
  have htouches : h.freeTouches x.1 = (x.1 - sizeofBlock) ::
      mergeTouches h.heapSz (h.mem.store (x.1 - sizeofBlock + 4) 4 1) h.freeList := by
    have hbounds := mem_used_bounds hx
    rw [hh.span_eq, ← hh.memory] at hbounds
    exact if_pos ⟨by omega, by omega⟩
  have hhigh := hmark.high
  rw [← hmark.span_eq] at hhigh
  rw [Heap.Mergeable, hblocks, ← separated_coalesce_iff (H := sizeofBlock)]
  constructor
  · rintro ⟨h', hcoalesces⟩
    have hlast : joinsLast bs' = false := by
      by_contra hjoins
      have hzero := zero_mem_mergeTouches h.heapSz hmark.chain hmark.low hhigh
        (Nat.le_of_lt hmark.length_lt) (Bool.eq_true_of_not_eq_false hjoins)
      obtain ⟨hheader, -⟩ := hcoalesces.touches 0 (by
        rw [htouches]
        exact List.mem_cons_of_mem _ hzero)
      have hlow := (hh.mem_headers hheader).1
      rw [hh.memory] at hlow
      exact absurd hh.pos (Nat.not_lt.2 hlow)
    obtain ⟨m, hmerge, hholds⟩ := hmark.merge (.inr hlast)
    have hfree : h.free x.1 = some { h with mem := m } := by
      rw [hh.free_eq hx]
      exact congrArg (Option.map _) hmerge
    obtain rfl : { h with mem := m } = h' :=
      Option.some.inj (hfree.symm.trans hcoalesces.returns)
    refine ⟨hlast, ?_⟩
    rw [← hholds.blocks_eq]
    exact hcoalesces.separated
  · rintro ⟨hlast, hseparated⟩
    obtain ⟨m, hmerge, hholds⟩ := hmark.merge (.inr hlast)
    refine ⟨{ h with mem := m }, ?_, fun p hp => ?_, ?_, ?_⟩
    · rw [hh.free_eq hx]
      exact congrArg (Option.map _) hmerge
    · have hheader : p ∈ h.headers := by
        rw [htouches] at hp
        rcases List.mem_cons.1 hp with rfl | hp
        · exact hcurr
        · rw [← hheaders]
          exact mergeTouches_headers h.heapSz hmark.chain hmark.ne hmark.low hhigh hlast p hp
      exact ⟨hheader, hh.mem_headers hheader⟩
    · rw [hholds.blocks_eq, ← span_eq_sum]
      exact hholds.span_eq
    · rw [hholds.blocks_eq]
      exact hseparated

end Holds

/-! ## any calls -/

/-- The programs' pointers are those of blocks in use; two of them may be the same. -/
structure Sys.Begins (s : Sys) (bs : List Blk) : Prop where
  holds : Holds s.heap bs
  live : ∀ x ∈ s.live, ∃ n, (x.1, n) ∈ used sizeofBlock s.heap.freeList bs

/-- **`malloc`**, of whatever block its search stops at: null, or the pointer of a block in use,
and no other pointer is lost. -/
theorem Holds.malloc_begins {h : Heap} {bs : List Blk} {n : Nat} (hh : Holds h bs)
    (hn : n + sizeofBlock < 0x100000000) :
    h.malloc n = some (h, 0) ∨
    ∃ m r bs', h.malloc n = some ({ h with mem := m }, r) ∧ Holds { h with mem := m } bs' ∧
      (r, n) ∈ used sizeofBlock h.freeList bs' ∧
      ∀ p k, (p, k) ∈ used sizeofBlock h.freeList bs →
        ∃ k', (p, k') ∈ used sizeofBlock h.freeList bs' := by
  have hspan := hh.span_eq
  have hhigh := hh.high
  unfold Heap.malloc
  by_cases hzero : size h.mem h.freeList = 0
  · exact .inl (if_pos hzero)
  obtain ⟨pre, b, post, rfl, hsearch, -⟩ :=
    search_spec (n := n) hh.chain hh.ne hh.pos (Nat.le_of_lt hh.length_lt)
  simp only [span_append, span] at hspan
  have hblock := hh.chain.tail.1
  have haddr : wrap (h.freeList + span sizeofBlock pre + sizeofBlock) =
      h.freeList + span sizeofBlock pre + sizeofBlock := by
    unfold wrap
    omega
  have hwrap : wrap (n + sizeofBlock) = n + sizeofBlock := Nat.mod_eq_of_lt hn
  rw [if_neg hzero, hsearch, Option.map_some, hblock.size_eq, haddr, hwrap]
  by_cases hexact : b.size = n
  · rw [if_pos hexact]
    subst hexact
    have hone : span sizeofBlock (⟨b.size, false⟩ :: []) = sizeofBlock + b.size := rfl
    obtain ⟨hnew, hold⟩ := used_replace hone
    exact .inr ⟨_, _, _, rfl, hh.setFree rfl, hnew, hold⟩
  rw [if_neg hexact]
  by_cases hlarge : n + sizeofBlock < b.size
  · rw [if_pos hlarge]
    have hrest : span sizeofBlock (⟨n, false⟩ :: [⟨b.size - n - sizeofBlock, true⟩]) =
        sizeofBlock + b.size := by
      simp only [span]
      omega
    obtain ⟨hnew, hold⟩ := used_replace hrest
    exact .inr ⟨_, _, _, rfl, hh.split hlarge, hnew, hold⟩
  · exact .inl (by rw [if_neg hlarge])

namespace Sys

/-- The call neither asks for so much that the header does not fit behind it, nor lets
`merge` run past the end; and programs do not write to headers. -/
def Orderly (s : Sys) : Act → Prop
  | .malloc n => n.toNat + sizeofBlock < 0x100000000
  | .free ptr => s.heap.FreeSafe ptr
  | .write addr _ => ∀ p ∈ s.heap.headers, addr < p ∨ p + sizeofBlock ≤ addr

instance (s : Sys) : (a : Act) → Decidable (s.Orderly a)
  | .malloc n => inferInstanceAs (Decidable (n.toNat + sizeofBlock < 0x100000000))
  | .free ptr => inferInstanceAs (Decidable (s.heap.FreeSafe ptr))
  | .write addr _ =>
    inferInstanceAs (Decidable (∀ p ∈ s.heap.headers, addr < p ∨ p + sizeofBlock ≤ addr))

namespace Begins

variable {s t : Sys} {bs : List Blk}

theorem malloc (h : s.Begins bs) {n : UInt32} (hn : n.toNat + sizeofBlock < 0x100000000)
    (ht : s.step (.malloc n) = some t) : ∃ bs', t.Begins bs' := by
  obtain ⟨⟨heap, r⟩, hmalloc, rfl⟩ := Option.map_eq_some_iff.1 ht
  rcases h.holds.malloc_begins hn with hnull | ⟨m, r', bs', hnew, hholds, hr, hold⟩
  · cases hmalloc.symm.trans hnull
    exact ⟨bs, h⟩
  · cases hmalloc.symm.trans hnew
    refine ⟨bs', hholds, fun x hx => ?_⟩
    have hmem : x = (r, n.toNat) ∨ x ∈ s.live := by
      dsimp only at hx
      split at hx
      next => exact .inr hx
      next => exact List.mem_cons.1 hx
    rcases hmem with rfl | hx
    · exact ⟨_, hr⟩
    · obtain ⟨k, hk⟩ := h.live x hx
      exact hold _ k hk

theorem free (h : s.Begins bs) {ptr : Nat} (hsafe : s.heap.FreeSafe ptr)
    (ht : s.step (.free ptr) = some t) : ∃ bs', t.Begins bs' := by
  obtain ⟨hmem, ht⟩ := Option.ite_none_right_eq_some.1 ht
  obtain ⟨x, hx, rfl⟩ := List.mem_map.1 hmem
  obtain ⟨n, hn⟩ := h.live x hx
  obtain ⟨heap, hfree, rfl⟩ := Option.map_eq_some_iff.1 ht
  obtain ⟨m, bs', hfree', hholds, hused⟩ := h.holds.free hn hsafe
  cases hfree.symm.trans hfree'
  refine ⟨bs', hholds, fun y hy => ?_⟩
  obtain ⟨hlive, hne⟩ := List.mem_filter.1 hy
  obtain ⟨k, hk⟩ := h.live y hlive
  rcases List.mem_cons.1 (hused.mem_iff.1 hk) with heq | hk
  · exact absurd (congrArg Prod.fst heq) (of_decide_eq_true hne)
  · exact ⟨k, hk⟩

/-- **One call.** -/
theorem step (h : ∃ bs, s.Begins bs) {a : Act} (horderly : s.Orderly a)
    (ht : s.step a = some t) : ∃ bs, t.Begins bs := by
  obtain ⟨bs, h⟩ := h
  cases a with
  | malloc n => exact h.malloc horderly ht
  | free ptr => exact h.free horderly ht
  | write addr v =>
    cases (Option.ite_none_right_eq_some.1 ht).2
    refine ⟨bs, h.holds.write v fun p hp => horderly p ?_, h.live⟩
    rw [h.holds.headers_eq]
    exact hp

end Begins

/-- **What `free` does.**  After any calls of `malloc` and `free` that are orderly, `free` of any
pointer that a program has got returns, has looked at nothing but headers in the heap, keeps
the sum of the blocks and leaves no two free neighbours, exactly if, once the block is
marked, a block in use follows every two free neighbours. -/
theorem free_coalesces_iff {m : ByteMem} {ptr sz : Nat} {acts : List Act} {s : Sys}
    (hptr : sizeofBlock ≤ ptr) (hsz : sizeofBlock ≤ sz) (hend : ptr + sz < 0x100000000)
    (hrun : Run (Guarded Orderly fun s a t => s.step a = some t) (init m ptr sz) acts s)
    {x : Nat × Nat} (hx : x ∈ s.live) :
    (∃ h', s.heap.Coalesces x.1 h') ↔ s.heap.Mergeable x.1 := by
  have hinit : (init m ptr sz).Begins [⟨sz - sizeofBlock, true⟩] :=
    ⟨(Ok.init m hptr hsz hend).holds, fun x hx => by cases hx⟩
  obtain ⟨bs, hbegins⟩ : ∃ bs, s.Begins bs :=
    hrun.invariant (I := fun s => ∃ bs, s.Begins bs)
      (fun _ _ _ h hstep => Begins.step h hstep.1 hstep.2) ⟨_, hinit⟩
  obtain ⟨n, hn⟩ := hbegins.live x hx
  exact hbegins.holds.coalesces_iff (x := (x.1, n)) hn

/-- The first two of three blocks are freed and joined, in front of the third. -/
theorem free_coalesces_two : ∃ s,
    Run (Guarded Orderly fun s a t => s.step a = some t) (init (fun _ => 0) 0x1000 0x100)
      [.malloc 0x10, .malloc 0x10, .malloc 0x10, .free 0x100c] s ∧
    (0x1028, 0x10) ∈ s.live ∧ ∃ h', s.heap.Coalesces 0x1028 h' := by
  have hexec : (exec (fun s a => if Orderly s a then s.step a else none)
      (init (fun _ => 0) 0x1000 0x100)
      [.malloc 0x10, .malloc 0x10, .malloc 0x10, .free 0x100c]).map (fun s =>
        (s.live, decide (s.heap.Mergeable 0x1028))) =
      some ([(0x1044, 0x10), (0x1028, 0x10)], true) := by decide +kernel
  obtain ⟨s, hs, hend⟩ := Option.map_eq_some_iff.1 hexec
  rw [Prod.mk.injEq] at hend
  have hrun := run_guarded_of_exec hs
  have hlive : (0x1028, 0x10) ∈ s.live := by
    rw [hend.1]
    decide
  exact ⟨s, hrun, hlive, (free_coalesces_iff (by decide) (by decide) (by decide) hrun hlive).2
    (of_decide_eq_true hend.2)⟩

/-- **Two slips.**  The only block that was taken is freed: it is joined with the rest of the
heap, and `merge` goes on at the null pointer.  The second of three blocks is freed after
the others: it is joined with the first, and the third stays beside them. -/
theorem free_coalesces_not :
    (∃ s, Run (fun s a t => s.step a = some t) (init (fun _ => 0) 0x1000 0x100)
      [.malloc 0x10] s ∧ s.live = [(0x100c, 0x10)] ∧ 0 ∈ s.heap.freeTouches 0x100c) ∧
    ∃ s h', Run (fun s a t => s.step a = some t) (init (fun _ => 0) 0x1000 0x100)
      [.malloc 0x10, .malloc 0x10, .malloc 0x10, .malloc 0x10, .free 0x100c, .free 0x1044] s ∧
      s.live = [(0x1060, 0x10), (0x1028, 0x10)] ∧ s.heap.free 0x1028 = some h' ∧
      h'.blocks = [⟨0x2c, true⟩, ⟨0x10, true⟩, ⟨0x10, false⟩, ⟨0x84, true⟩] := by
  have hnull : (exec step (init (fun _ => 0) 0x1000 0x100) [.malloc 0x10]).map (fun s =>
      (s.live, decide (0 ∈ s.heap.freeTouches 0x100c))) = some ([(0x100c, 0x10)], true) := by
    decide +kernel
  have hthree : (exec step (init (fun _ => 0) 0x1000 0x100)
      [.malloc 0x10, .malloc 0x10, .malloc 0x10, .malloc 0x10, .free 0x100c, .free 0x1044]).bind
        (fun s => (s.heap.free 0x1028).map fun h' => (s.live, h'.blocks)) =
      some ([(0x1060, 0x10), (0x1028, 0x10)],
        [⟨0x2c, true⟩, ⟨0x10, true⟩, ⟨0x10, false⟩, ⟨0x84, true⟩]) := by
    decide +kernel
  constructor
  · obtain ⟨s, hs, hend⟩ := Option.map_eq_some_iff.1 hnull
    rw [Prod.mk.injEq] at hend
    exact ⟨s, (run_iff_exec step).2 hs, hend.1, of_decide_eq_true hend.2⟩
  · obtain ⟨s, hs, hrest⟩ := Option.bind_eq_some_iff.1 hthree
    obtain ⟨h', hfree, hend⟩ := Option.map_eq_some_iff.1 hrest
    rw [Prod.mk.injEq] at hend
    exact ⟨s, h', (run_iff_exec step).2 hs, hend.1, hfree, hend.2⟩

end Sys

end Ooows.Kernel
