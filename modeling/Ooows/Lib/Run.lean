/-!
# Ooows.Lib.Run

Runs of labelled transition systems, and the two rules every safety argument
of this development goes through: an invariant that every step keeps holds at
the end of every run (`Run.invariant`), and every prefix of a run is a run, so
it holds in every state on the way (`Run.split`).

A run may be *guarded*: `Guarded ok step` is the system whose steps are those
of `step` taken from a state and a label that satisfy `ok`.  Conditional
results ("if no step does X, then ...") are invariants of guarded systems.

This module depends only on the Lean 4 core library.
-/

namespace Ooows.Lib

/-- `Run step s ls t`: the steps labelled `ls`, taken in this order from `s`,
lead to `t`. -/
inductive Run (step : σ → ℓ → σ → Prop) (s : σ) : List ℓ → σ → Prop
  | refl : Run step s [] s
  | tail {t u : σ} {ls : List ℓ} {l : ℓ} :
      Run step s ls t → step t l u → Run step s (ls ++ [l]) u

/-- The steps of `step` whose source and label satisfy `ok`. -/
def Guarded (ok : σ → ℓ → Prop) (step : σ → ℓ → σ → Prop) (s : σ) (l : ℓ) (t : σ) : Prop :=
  ok s l ∧ step s l t

namespace Run

variable {s t u : σ} {l : ℓ} {ls ms : List ℓ} {step : σ → ℓ → σ → Prop} {I : σ → Prop}

/-- **Invariant rule**: what every step keeps, every run keeps. -/
theorem invariant (hstep : ∀ s l t, I s → step s l t → I t) (h : Run step s ls t)
    (hs : I s) : I t := by
  induction h with
  | refl => exact hs
  | tail _ hl ih => exact hstep _ _ _ ih hl

/-- A run of a step relation is a run of every larger one. -/
theorem mono {step' : σ → ℓ → σ → Prop} (hsub : ∀ s l t, step s l t → step' s l t)
    (h : Run step s ls t) : Run step' s ls t := by
  induction h with
  | refl => exact .refl
  | tail _ hl ih => exact .tail ih (hsub _ _ _ hl)

theorem append (h₁ : Run step s ls t) (h₂ : Run step t ms u) : Run step s (ls ++ ms) u := by
  induction h₂ with
  | refl => simpa using h₁
  | tail _ hl ih =>
    rw [← List.append_assoc]
    exact .tail ih hl

theorem single (h : step s l t) : Run step s [l] t := .tail .refl h

/-- A run whose labels end in `l` ends with an `l`-step. -/
theorem concat_inv (h : Run step s (ls ++ [l]) u) :
    ∃ t, Run step s ls t ∧ step t l u := by
  generalize hms : ls ++ [l] = ms at h
  cases h with
  | refl => simp at hms
  | tail hr hl =>
    obtain ⟨rfl, hl'⟩ := List.append_inj' hms rfl
    cases hl'
    exact ⟨_, hr, hl⟩

/-- Every prefix of a run's labels is the label sequence of a run. -/
theorem split (h : Run step s (ls ++ ms) u) :
    ∃ t, Run step s ls t ∧ Run step t ms u := by
  induction ms generalizing ls with
  | nil => exact ⟨u, by simpa using h, .refl⟩
  | cons m ms ih =>
    have h' : Run step s ((ls ++ [m]) ++ ms) u := by simpa using h
    obtain ⟨t, ht, hu⟩ := ih h'
    obtain ⟨v, hv, hm⟩ := concat_inv ht
    exact ⟨v, hv, (single hm).append hu⟩

end Run

/-! ## Deterministic systems -/

/-- The end of the run of a partial step function, if it gets there. -/
def exec (step : σ → ℓ → Option σ) : σ → List ℓ → Option σ
  | s, [] => some s
  | s, l :: ls => (step s l).bind fun t => exec step t ls

theorem exec_append (step : σ → ℓ → Option σ) (s : σ) (ls ms : List ℓ) :
    exec step s (ls ++ ms) = (exec step s ls).bind fun t => exec step t ms := by
  induction ls generalizing s with
  | nil => rfl
  | cons l ls ih =>
    simp only [List.cons_append, exec]
    cases step s l with
    | none => rfl
    | some t => simp [ih]

theorem exec_concat (step : σ → ℓ → Option σ) (s : σ) (ls : List ℓ) (l : ℓ) :
    exec step s (ls ++ [l]) = (exec step s ls).bind fun t => step t l := by
  rw [exec_append]
  congr 1
  funext t
  simp only [exec]
  cases step t l <;> rfl

/-- `exec` computes the runs of the step function read as a relation. -/
theorem run_iff_exec (step : σ → ℓ → Option σ) {s t : σ} {ls : List ℓ} :
    Run (fun s l t => step s l = some t) s ls t ↔ exec step s ls = some t := by
  constructor
  · intro h
    induction h with
    | refl => rfl
    | tail _ hl ih =>
      rw [exec_concat, ih]
      exact hl
  · intro h
    induction ls generalizing s with
    | nil =>
      cases h
      exact .refl
    | cons l ls ih =>
      simp only [exec] at h
      cases hl : step s l with
      | none => rw [hl] at h; contradiction
      | some u =>
        rw [hl, Option.bind_some] at h
        exact (Run.single hl).append (ih h)

/-- The labels determine where a run of a step function ends. -/
theorem Run.unique {step : σ → ℓ → Option σ} {s t t' : σ} {ls : List ℓ}
    (h : Run (fun s l t => step s l = some t) s ls t)
    (h' : Run (fun s l t => step s l = some t) s ls t') : t = t' :=
  Option.some.inj (((run_iff_exec step).1 h).symm.trans ((run_iff_exec step).1 h'))

/-- The run of a step function that is total. -/
theorem Run.foldl (f : σ → ℓ → σ) (s : σ) (ls : List ℓ) :
    Run (fun s l t => t = f s l) s ls (ls.foldl f s) := by
  induction ls generalizing s with
  | nil => exact .refl
  | cons l ls ih => exact (Run.single rfl).append (ih (f s l))

/-- A run of a guarded step function, computed. -/
theorem run_guarded_of_exec {ok : σ → ℓ → Prop} [∀ s l, Decidable (ok s l)]
    {step : σ → ℓ → Option σ} {s t : σ} {ls : List ℓ}
    (h : exec (fun s l => if ok s l then step s l else none) s ls = some t) :
    Run (Guarded ok fun s l t => step s l = some t) s ls t :=
  ((run_iff_exec _).2 h).mono fun _ _ _ hstep => Option.ite_none_right_eq_some.1 hstep

end Ooows.Lib
