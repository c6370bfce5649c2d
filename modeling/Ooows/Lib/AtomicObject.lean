import Ooows.Lib.Run
import Mathlib.Logic.Function.Basic

/-!
# Ooows.Lib.AtomicObject

Objects shared by any number of threads whose operations look as if each took effect at one
moment between its call and its return.

`Op` says what the operations do to the object one by one: from a state, an operation leads
to a state with a result.  In `Atomic` every thread calls an operation, which takes effect in
one silent step, and returns its result.  An implementation is such an object if each of its
steps is one of these (`Run.simulates`): its runs then have the same calls and returns.
-/

namespace Ooows.Lib

namespace Atomic

/-- Where a thread is with its operation. -/
inductive Phase (ω ρ : Type)
  | idle
  | called (o : ω)
  | done (r : ρ)

/-- What can be seen of a step. -/
inductive Label (ω ρ : Type)
  | call (t : Nat) (o : ω)
  | ret (t : Nat) (r : ρ)
  | silent

/-- The object and the threads. -/
structure State (σ ω ρ : Type) where
  obj : σ
  phase : Nat → Phase ω ρ

variable {σ ω ρ : Type}

/-- The steps of the threads of an object with the operations `op`. -/
inductive Step (op : σ → ω → σ → ρ → Prop) : State σ ω ρ → Label ω ρ → State σ ω ρ → Prop
  | call {a : State σ ω ρ} {t : Nat} (o : ω) (h : a.phase t = .idle) :
      Step op a (.call t o) ⟨a.obj, Function.update a.phase t (.called o)⟩
  /-- The operation takes effect. -/
  | commit {a : State σ ω ρ} {t : Nat} {o : ω} {x : σ} {r : ρ} (h : a.phase t = .called o)
      (hop : op a.obj o x r) : Step op a .silent ⟨x, Function.update a.phase t (.done r)⟩
  | ret {a : State σ ω ρ} {t : Nat} {r : ρ} (h : a.phase t = .done r) :
      Step op a (.ret t r) ⟨a.obj, Function.update a.phase t .idle⟩
  | stutter {a : State σ ω ρ} : Step op a .silent a

/-- No thread has called anything. -/
def init (x : σ) : State σ ω ρ := ⟨x, fun _ => .idle⟩

/-- What every operation keeps holds of the object in every run. -/
theorem invariant {op : σ → ω → σ → ρ → Prop} {I : σ → Prop}
    (hop : ∀ x o y r, I x → op x o y r → I y) {a b : State σ ω ρ} {ls : List (Label ω ρ)}
    (h : Run (Step op) a ls b) (ha : I a.obj) : I b.obj := by
  refine h.invariant (I := fun a => I a.obj) ?_ ha
  intro a l b hi hstep
  cases hstep with
  | call o _ => exact hi
  | commit _ hcommit => exact hop _ _ _ _ hi hcommit
  | ret _ => exact hi
  | stutter => exact hi

end Atomic

/-- **Simulation**: if every step of one system is one of another with the same label, between
related states, so is every run. -/
theorem Run.simulates {σ τ ℓ : Type} {step : σ → ℓ → σ → Prop} {step' : τ → ℓ → τ → Prop}
    {R : σ → τ → Prop}
    (hstep : ∀ s l t a, R s a → step s l t → ∃ b, step' a l b ∧ R t b)
    {s t : σ} {a : τ} {ls : List ℓ} (h : Run step s ls t) (hR : R s a) :
    ∃ b, Run step' a ls b ∧ R t b := by
  induction h with
  | refl => exact ⟨a, .refl, hR⟩
  | tail _ hl ih =>
    obtain ⟨b, hrun, hb⟩ := ih
    obtain ⟨c, hc, hRc⟩ := hstep _ _ _ _ hb hl
    exact ⟨c, .tail hrun hc, hRc⟩

end Ooows.Lib
