import Ooows.Lib.ByteMem
import Ooows.Lib.Path
import Mathlib.Data.List.Induction

/-!
# Ooows.Lib.Wire

Messages written to and read from buffers of limited size, block by block.

Writing (`putAll`) stops at the first block that does not fit.  Blocks that fit
together are written one behind the other (`putAll_eq`).

Reading is described twice.  A `Fetch` says which blocks a message declares: each
block's length may depend on the bytes before it.  `Fetch.run` reads them under a
budget, as a decoder does, and records every access; `Fetch.ends` lists where the
declared blocks end, whatever the budget.  `run_fst` and `exists_read_iff` connect
the two: a decoder succeeds if all declared blocks end inside the budget, and the
blocks it reads are those that do.  `Fetch.Parses` says which bytes a format reads as
which value, with one rule for each way to build formats.
-/

namespace Ooows.Lib

/-! ## writing -/

/-- Append a block to the output, if it fits. -/
def put (limit : Nat) (out block : Bytes) : Option Bytes :=
  if limit < out.length + block.length then none else some (out ++ block)

/-- Append blocks one after the other. -/
def putAll (limit : Nat) : Bytes → List Bytes → Option Bytes
  | out, [] => some out
  | out, b :: bs => (put limit out b).bind fun out => putAll limit out bs

/-- **Bounded writing** succeeds if everything fits. -/
theorem putAll_eq {limit : Nat} {out : Bytes} (bs : List Bytes) (h : out.length ≤ limit) :
    putAll limit out bs =
      if out.length + bs.flatten.length ≤ limit then some (out ++ bs.flatten) else none := by
  induction bs generalizing out with
  | nil => simp [putAll, h]
  | cons b bs ih =>
    simp only [putAll, put, List.flatten_cons, List.length_append]
    by_cases hfit : limit < out.length + b.length
    · rw [if_pos hfit, if_neg (by omega)]
      rfl
    · rw [if_neg hfit, Option.bind_some, ih (by rw [List.length_append]; omega),
        List.length_append, List.append_assoc, Nat.add_assoc]

/-! ## reading -/

/-- A message format: blocks of known length, each of which may decide what follows. -/
inductive Fetch (α : Type)
  | done (a : α)
  | block (n : Nat) (next : Bytes → Fetch α)

/-- A decoder's position, what is left of its budget, and the blocks it has read, as
start and length. -/
structure Cursor where
  offset : Nat
  size : Nat
  reads : List (Nat × Nat)

namespace Fetch

variable {α β : Type} {m m' : ByteMem} {o l budget : Nat} {rs : List (Nat × Nat)}

def bind : Fetch α → (α → Fetch β) → Fetch β
  | done a, f => f a
  | block n next, f => block n fun bs => bind (next bs) f

instance : Monad Fetch where
  pure := done
  bind := bind

/-- Read a block. -/
def bytes (n : Nat) : Fetch Bytes := block n done

/-- Read an `n`-byte number. -/
def number (n : Nat) : Fetch Nat := block n fun bs => done (Bits.ofBytes bs)

/-- Read one thing after the other. -/
def times (f : Nat → Fetch α) : Nat → Fetch (List α)
  | 0 => pure []
  | n + 1 => do
      let as ← times f n
      let a ← f n
      return as ++ [a]

/-- Decode under a budget; `none` is a block that does not fit. -/
def run : Fetch α → ByteMem → Cursor → Option α × Cursor
  | done a, _, c => (some a, c)
  | block n next, m, c =>
    if c.size < n then (none, c)
    else run (next (m.readBytes c.offset n)) m
      ⟨c.offset + n, c.size - n, c.reads ++ [(c.offset, n)]⟩

/-- The ends of the declared blocks. -/
def ends : Fetch α → ByteMem → Nat → List Nat
  | done _, _, _ => []
  | block n next, m, o => (o + n) :: ends (next (m.readBytes o n)) m (o + n)

/-- What is decoded when every block fits. -/
def value : Fetch α → ByteMem → Nat → α
  | done a, _, _ => a
  | block n next, m, o => value (next (m.readBytes o n)) m (o + n)

/-- Where the last block ends. -/
def stop : Fetch α → ByteMem → Nat → Nat
  | done _, _, o => o
  | block n next, m, o => stop (next (m.readBytes o n)) m (o + n)

/-- The end of the first block that ends behind `l`. -/
def overrun (f : Fetch α) (m : ByteMem) (o l : Nat) : Option Nat :=
  (f.ends m o).find? fun e => l < e

/-! ## decoding under a budget -/

/-- Blocks follow each other. -/
theorem le_of_mem_ends (f : Fetch α) : ∀ e ∈ f.ends m o, o ≤ e := by
  induction f generalizing o with
  | done a => simp [ends]
  | block n next ih =>
    intro e he
    rcases List.mem_cons.1 he with rfl | he
    · exact Nat.le_add_right _ _
    · exact Nat.le_trans (Nat.le_add_right _ _) (ih _ e he)

/-- **A decoder succeeds** exactly if all declared blocks end inside its budget. -/
theorem run_fst (f : Fetch α) : (f.run m ⟨o, budget, rs⟩).1 =
    if ∀ e ∈ f.ends m o, e ≤ o + budget then some (f.value m o) else none := by
  induction f generalizing o budget rs with
  | done a => simp [run, ends, value]
  | block n next ih =>
    simp only [run, ends, value, List.forall_mem_cons]
    by_cases hfit : budget < n
    · rw [if_pos hfit, if_neg fun h => absurd h.1 (by omega)]
    · have hsum : o + n + (budget - n) = o + budget := by omega
      rw [if_neg hfit, ih, hsum]
      exact if_congr (iff_and_self.2 fun _ => by omega) rfl rfl

/-- **What a decoder reads**: the declared blocks that end inside its budget. -/
theorem exists_read_iff (f : Fetch α) (e : Nat) :
    (∃ b ∈ (f.run m ⟨o, budget, rs⟩).2.reads, b.1 + b.2 = e) ↔
      (∃ b ∈ rs, b.1 + b.2 = e) ∨ e ∈ f.ends m o ∧ e ≤ o + budget := by
  induction f generalizing o budget rs with
  | done a => simp [run, ends]
  | block n next ih =>
    simp only [run, ends, List.mem_cons]
    by_cases hfit : budget < n
    · rw [if_pos hfit]
      refine ⟨.inl, ?_⟩
      rintro (h | ⟨rfl | he, hle⟩)
      · exact h
      · omega
      · have hge := le_of_mem_ends _ e he
        omega
    · have hsum : o + n + (budget - n) = o + budget := by omega
      rw [if_neg hfit, ih, hsum]
      simp only [List.mem_append, List.mem_singleton, or_and_right, exists_or, exists_eq_left]
      constructor
      · rintro ((h | rfl) | h)
        · exact .inl h
        · exact .inr (.inl ⟨rfl, by omega⟩)
        · exact .inr (.inr h)
      · rintro (h | ⟨rfl, -⟩ | h)
        · exact .inl (.inl h)
        · exact .inl (.inr rfl)
        · exact .inr h

/-! ## where a message overruns -/

theorem overrun_eq_none_iff (f : Fetch α) : f.overrun m o l = none ↔ ∀ e ∈ f.ends m o, e ≤ l := by
  simp [overrun]

/-- The first block behind `l` depends only on the bytes before `l`. -/
theorem overrun_congr (f : Fetch α) (h : ∀ x, o ≤ x → x < l → m x = m' x) :
    f.overrun m o l = f.overrun m' o l := by
  induction f generalizing o with
  | done a => rfl
  | block n next ih =>
    simp only [overrun, ends, List.find?_cons]
    by_cases hl : l < o + n
    · simp [hl]
    · have hread : m.readBytes o n = m'.readBytes o n :=
        ByteMem.readBytes_congr fun x hx hlt => h x hx (by omega)
      simp only [hl, decide_false, hread]
      exact ih _ fun x hx hlt => h x (by omega) hlt

/-- Blocks behind the first one that overruns end later still. -/
theorem le_of_overrun (f : Fetch α) {e e' : Nat} (h : f.overrun m o l = some e)
    (hmem : e' ∈ f.ends m o) (hl : l < e') : e ≤ e' := by
  induction f generalizing o with
  | done a => simp [ends] at hmem
  | block n next ih =>
    simp only [overrun, ends, List.find?_cons] at h hmem
    by_cases hn : l < o + n
    · simp only [hn, decide_true, Option.some.injEq] at h
      subst h
      rcases List.mem_cons.1 hmem with rfl | hmem
      · exact Nat.le_refl _
      · exact le_of_mem_ends _ e' hmem
    · simp only [hn, decide_false] at h
      rcases List.mem_cons.1 hmem with rfl | hmem
      · exact absurd hl hn
      · exact ih _ h hmem

/-! ## formats and the bytes they stand for -/

theorem self_le_stop (f : Fetch α) (o : Nat) : o ≤ f.stop m o := by
  induction f generalizing o with
  | done a => exact Nat.le_refl _
  | block n next ih => exact Nat.le_trans (Nat.le_add_right _ _) (ih _ _)

theorem le_stop (f : Fetch α) : ∀ e ∈ f.ends m o, e ≤ f.stop m o := by
  induction f generalizing o with
  | done a => simp [ends]
  | block n next ih =>
    intro e he
    rcases List.mem_cons.1 he with rfl | he
    · exact self_le_stop _ _
    · exact ih _ e he

/-- The bytes `bs`, wherever they are in memory, are read as `a`. -/
def Parses (f : Fetch α) (bs : Bytes) (a : α) : Prop :=
  ∀ m o, ByteMem.readBytes m o bs.length = bs → f.value m o = a ∧ f.stop m o = o + bs.length

theorem Parses.pure (a : α) : Parses (pure a) [] a := fun _ _ _ => ⟨rfl, rfl⟩

theorem Parses.bytes (bs : Bytes) : Parses (bytes bs.length) bs bs := fun _ _ h => ⟨h, rfl⟩

theorem Parses.number {n v : Nat} (hv : v < 256 ^ n) :
    Parses (number n) (ByteMem.bytesOfNat n v) v := by
  intro m o h
  rw [ByteMem.length_bytesOfNat] at h
  refine ⟨?_, by simp [Fetch.number, stop]⟩
  simp only [Fetch.number, value, h, ByteMem.ofBytes_bytesOfNat]
  exact Nat.mod_eq_of_lt hv

theorem value_bind (f : Fetch α) (g : α → Fetch β) :
    (f >>= g).value m o = (g (f.value m o)).value m (f.stop m o) := by
  induction f generalizing o with
  | done a => rfl
  | block n next ih => exact ih _

theorem stop_bind (f : Fetch α) (g : α → Fetch β) :
    (f >>= g).stop m o = (g (f.value m o)).stop m (f.stop m o) := by
  induction f generalizing o with
  | done a => rfl
  | block n next ih => exact ih _

/-- One format after the other. -/
theorem Parses.bind {f : Fetch α} {g : α → Fetch β} {bs cs : Bytes} {a : α} {b : β}
    (hf : Parses f bs a) (hg : Parses (g a) cs b) : Parses (f >>= g) (bs ++ cs) b := by
  intro m o h
  rw [List.length_append, ByteMem.readBytes_add] at h
  obtain ⟨hbs, hcs⟩ := List.append_inj h (ByteMem.length_readBytes _ _ _)
  obtain ⟨hval, hstop⟩ := hf m o hbs
  obtain ⟨hval', hstop'⟩ := hg m (o + bs.length) hcs
  rw [value_bind, stop_bind, hval, hstop, List.length_append]
  exact ⟨hval', by omega⟩

theorem Parses.map {f : Fetch α} {bs : Bytes} {a : α} (hf : Parses f bs a) (g : α → β) :
    Parses (f >>= fun a => Pure.pure (g a)) bs (g a) := by
  have h : Parses (f >>= fun a => Pure.pure (g a)) (bs ++ []) (g a) := hf.bind (.pure (g a))
  rwa [List.append_nil] at h

/-- A list of things, one after the other. -/
theorem Parses.times {γ : Type} {f : Nat → Fetch α} {enc : γ → Bytes} {dec : Nat → γ → α}
    (cs : List γ) (h : ∀ i (hi : i < cs.length), Parses (f i) (enc (cs.get ⟨i, hi⟩))
      (dec i (cs.get ⟨i, hi⟩))) :
    Parses (Fetch.times f cs.length) (cs.flatMap enc) (cs.mapIdx dec) := by
  induction cs using List.reverseRecOn with
  | nil => exact .pure []
  | append_singleton cs c ih =>
    have hcs := ih fun i hi => by
      have := h i (by rw [List.length_append]; omega)
      simpa [List.getElem_append_left hi] using this
    have hc := h cs.length (by simp)
    simp only [List.get_eq_getElem, List.getElem_concat_length] at hc
    rw [List.length_append, List.length_singleton, List.flatMap_append, List.mapIdx_concat]
    refine hcs.bind ?_
    simpa using hc.map fun a => cs.mapIdx dec ++ [a]

/-- Bytes that are read as `a` are decoded as `a`, under any budget they fit into. -/
theorem Parses.run_fst {f : Fetch α} {bs : Bytes} {a : α} (hf : Parses f bs a)
    (hm : m.readBytes o bs.length = bs) (hle : bs.length ≤ budget) :
    (f.run m ⟨o, budget, rs⟩).1 = some a := by
  obtain ⟨hval, hstop⟩ := hf m o hm
  have hall : ∀ e ∈ f.ends m o, e ≤ o + budget := by
    intro e he
    have := f.le_stop e he
    omega
  rw [Fetch.run_fst, if_pos hall, hval]

end Fetch

end Ooows.Lib
