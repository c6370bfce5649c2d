import Mathlib.Logic.Function.Basic

/-!
# Ooows.Lib.Wakeup

Threads that sleep until a job they have issued is done.

A job has an owner: the thread that its end wakes, or none.  A thread sleeps once it
issues a job it owns (`sleep`) and is ready again when the job is done (`wake`).
`Balanced` says that no wake-up is lost or made twice; it does not depend on the order
of the jobs, and issuing and finishing a job keep it.
-/

namespace Ooows.Lib.Wakeup

variable {κ : Type} [DecidableEq κ] {ready : κ → Bool} {owners owners' : List (Option κ)}
  {owner : Option κ}

/-- How many jobs will wake a thread. -/
def wakes (c : κ) (owners : List (Option κ)) : Nat := owners.countP fun o => o = some c

/-- **Each sleeping thread has exactly one job that wakes it, a ready one has none.** -/
def Balanced (ready : κ → Bool) (owners : List (Option κ)) : Prop :=
  ∀ c, wakes c owners = if ready c then 0 else 1

/-- The owner of a job that is being issued goes to sleep. -/
def sleep (ready : κ → Bool) : Option κ → κ → Bool
  | none => ready
  | some c => Function.update ready c false

/-- The owner of a job that is done is ready. -/
def wake (ready : κ → Bool) : Option κ → κ → Bool
  | none => ready
  | some c => Function.update ready c true

theorem wakes_cons (c : κ) (o : Option κ) (owners : List (Option κ)) :
    wakes c (o :: owners) = wakes c owners + if o = some c then 1 else 0 := by
  simp [wakes, List.countP_cons]

/-- Waking makes nobody sleep. -/
theorem wake_of_ready {c : κ} (h : ready c = true) (owner : Option κ) : wake ready owner c = true := by
  cases owner with
  | none => exact h
  | some d =>
    by_cases hd : c = d
    · subst hd
      exact Function.update_self ..
    · exact (Function.update_of_ne hd ..).trans h

namespace Balanced

theorem nil (h : ∀ c, ready c = true) : Balanced ready [] := by
  intro c
  rw [h c]
  rfl

theorem perm (h : Balanced ready owners) (hperm : owners.Perm owners') :
    Balanced ready owners' :=
  fun c => (hperm.countP_eq _).symm.trans (h c)

/-- A thread that issues a job was ready. -/
theorem issue (h : Balanced ready owners) (howner : ∀ c, owner = some c → ready c = true) :
    Balanced (sleep ready owner) (owner :: owners) := by
  intro c
  rw [wakes_cons, h c]
  cases owner with
  | none => rfl
  | some d =>
    by_cases hd : d = c
    · subst hd
      simp [sleep, howner d rfl]
    · simp [sleep, hd, Function.update_of_ne (Ne.symm hd)]

theorem finish (h : Balanced ready (owner :: owners)) : Balanced (wake ready owner) owners := by
  intro c
  have hc := h c
  rw [wakes_cons] at hc
  cases owner with
  | none => exact hc
  | some d =>
    by_cases hd : d = c
    · subst hd
      -- the job that ends is the one the thread has waited for
      have hzero : wakes d owners = 0 := by
        cases hready : ready d <;> simp [hready] at hc
        exact hc
      simp [wake, hzero]
    · simpa [wake, hd, Function.update_of_ne (Ne.symm hd)] using hc

theorem asleep_iff (h : Balanced ready owners) (c : κ) :
    ready c = false ↔ wakes c owners = 1 := by
  rw [h c]
  cases ready c <;> simp

theorem wakes_le_one (h : Balanced ready owners) (c : κ) : wakes c owners ≤ 1 := by
  rw [h c]
  cases ready c <;> simp

end Balanced

end Ooows.Lib.Wakeup
