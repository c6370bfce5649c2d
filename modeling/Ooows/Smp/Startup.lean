import Ooows.Smp.Machine

/-!
# Ooows.Smp.Startup

How application processors start.

A vCPU other than the first is to enter `runVcpu` only when a SIPI has named it, and at the
address of this SIPI.  Three things can go wrong: `vcpuThread` does not look at what
`waitForSipi` returns, it reads its state without the lock that `lapicDoSipi` holds, and a
vCPU is in the table before it is reset.  As long as none of them happens, the application
processors wait (`starts_at_sipi`).
-/

namespace Ooows.Smp

open Lib

/-- The thread has not run its vCPU yet. -/
def Place.Before : Place → Prop
  | .absent | .start | .scan false _ _ | .wait false | .enter => True
  | _ => False

/-- The vCPU that the thread wakes up. -/
def Place.wakes? : Place → Option Nat
  | .sendWake _ dest _ => some dest
  | _ => none

namespace Exit

variable (reason : Exit)

theorem next_not_before : ¬ reason.next.Before :=
  reason.next_cases id id id (fun _ => id) (fun _ => id) fun _ _ => id

theorem next_wakes? : reason.next.wakes? = none :=
  reason.next_cases rfl rfl rfl (fun _ => rfl) (fun _ => rfl) fun _ _ => rfl

theorem next_ne_sipiDirty (vector : UInt32) : reason.next ≠ .sipiDirty vector :=
  reason.next_cases (by simp) (by simp) (by simp) (by simp) (by simp) (by simp)

end Exit

namespace Machine

variable {s t : Machine} {u v w : Nat} {p : Place} {c : Choice}

/-- `x86CpuReset` has set the registers. -/
def isReset (s : Machine) (v : Nat) : Bool :=
  v < s.started || (s.main == .start && v + 1 == s.gNvcpus)

theorem isReset_iff :
    s.isReset v ↔ v < s.started ∨ (s.main = .start ∧ v + 1 = s.gNvcpus) := by
  simp [isReset]

/-- `initVcpu` has set the state. -/
def isStateSet (s : Machine) (v : Nat) : Bool :=
  v < s.started || ((s.main == .reset || s.main == .start) && v + 1 == s.gNvcpus)

theorem isStateSet_iff : s.isStateSet v ↔
    v < s.started ∨ ((s.main = .reset ∨ s.main = .start) ∧ v + 1 = s.gNvcpus) := by
  simp [isStateSet]

/-- A SIPI has set the state of the vCPU, and not yet stored its address. -/
def midSipi (s : Machine) (v : Nat) : Bool :=
  (List.range s.gNvcpus).any fun u =>
    match s.threads u with
    | .sipiEip vector => sipiTarget vector == v
    | _ => false

/-- No vCPU that has not been started finds all halted; none reads its state in the middle of
its first SIPI; and no SIPI stores its address before the registers are reset. -/
def inOrder (s : Machine) : Act → Bool
  | .vcpu v _ =>
    match s.threads v with
    | .start => !((s.vcpus v).state == .running && s.midSipi v && (s.vcpus v).sipis.isEmpty)
    | .scan false i true => i < s.gNvcpus
    | .sipiEip vector => s.isReset (sipiTarget vector)
    | _ => true
  | _ => true

/-! ## what a thread can do -/

/-- A thread that has run its vCPU has done so for good. -/
theorem Moves.before (h : s.Moves v p c t) (hp : s.threads v = p) (hw : (t.threads w).Before) :
    (s.threads w).Before := by
  by_cases hwv : w = v
  · subst hwv
    rw [hp]
    cases h with
    | start | enter => trivial
    | @scan hlt | @allHalted hlt | @hope hlt | @wake hlt =>
      cases hlt with
      | true => simp [Place.Before] at hw
      | false => trivial
    | exit => simp [Exit.next_not_before] at hw
    | sendState | sendHalted | sipi =>
      simp only [goto_threads, Function.update_self] at hw
      split at hw <;> exact hw.elim
    | _ => simp [Place.Before] at hw
  · rwa [← h.threads_of_ne hwv]

/-- A thread halts its own vCPU only. -/
theorem Moves.halted (h : s.Moves v p c t) (hw : (t.vcpus w).state = .halted)
    (hbefore : (t.threads w).Before) : (s.vcpus w).state = .halted := by
  cases h with
  | halt =>
    by_cases hwv : w = v
    · subst hwv
      simp [Place.Before] at hbefore
    · simpa [hwv] using hw
  | @sendWake irq dest =>
    by_cases hdest : w = dest
    · subst hdest
      simp at hw
    · simpa [hdest] using hw
  | @sipiState vector =>
    by_cases htarget : w = sipiTarget vector
    · subst htarget
      simp at hw
    · simpa [htarget] using hw
  | top | request | inject | exit | sipiEip | sipiDirty | eoi =>
    refine (Eq.symm ?_).trans hw
    exact update_field Vcpu.state rfl
  | start | scan | allHalted | hope | wake | enter | check | ready | noRequest | dequeue | noEntry
  | send | noDest | sendState | sendHalted | noInject | sent | sipi | redtbl => exact hw

/-- A thread wakes up a vCPU that it has found halted. -/
theorem Moves.wakes (h : s.Moves v p c t) (hw : (t.threads v).wakes? = some w) :
    (s.vcpus w).state = .halted := by
  cases h with
  | @sendHalted irq dest vector =>
    simp only [goto_threads, Function.update_self] at hw
    split at hw
    next hstate => cases hw; exact hstate
    next => cases hw
  | exit => simp [Exit.next_wakes?] at hw
  | start | allHalted | wake | sendState | sipi =>
    simp only [goto_threads, Function.update_self] at hw
    split at hw <;> cases hw
  | _ => simp [Place.wakes?] at hw

/-! ## what `main` can do -/

theorem MainMoves.before (h : s.MainMoves t) (hs : s.Started) (hw : (t.threads w).Before) :
    (s.threads w).Before := by
  cases h with
  | create | setUp => exact hw
  | start hmain =>
    by_cases hid : w = s.gNvcpus - 1
    · rw [hid, hs.threads_id (by simp [hmain])]
      trivial
    · simpa [hid] using hw

theorem SetsUp.halted {id : Nat} {m m' : Main} {f : Vcpu → Vcpu} {c : Vcpu} (h : SetsUp id m m' f)
    (hc : (f c).state = .halted) : c.state = .halted := by
  cases h with
  | initState =>
    simp only at hc
    split at hc <;> cases hc
  | publish | initSync | reset => exact hc

theorem MainMoves.halted (h : s.MainMoves t) (hw : (t.vcpus w).state = .halted) :
    (s.vcpus w).state = .halted := by
  cases h with
  | create | start => exact hw
  | setUp _ hf =>
    by_cases hid : w = s.gNvcpus - 1
    · subst hid
      exact hf.halted (by simpa using hw)
    · simpa [hid] using hw

theorem MainMoves.wakes (h : s.MainMoves t) (hw : (t.threads u).wakes? = some w) :
    (s.threads u).wakes? = some w := by
  cases h with
  | create | setUp => exact hw
  | start =>
    by_cases hid : u = s.gNvcpus - 1
    · simp [hid, Place.wakes?] at hw
    · simpa [hid] using hw

/-! ## halted vCPUs have run -/

/-- A vCPU that is halted, or is woken up, has run. -/
structure Entered (s : Machine) : Prop where
  halted : ∀ v, (s.vcpus v).state = .halted → ¬ (s.threads v).Before
  woken : ∀ u v, (s.threads u).wakes? = some v → ¬ (s.threads v).Before

namespace Entered

theorem init (n : Nat) : (Machine.init n).Entered := ⟨nofun, nofun⟩

theorem step (h : s.Entered) (hs : s.Started) {a : Act} (ht : s.step a = some t) : t.Entered := by
  cases a with
  | main =>
    have hmoves := moves_of_mainStep ht
    refine ⟨fun w hw hbefore => ?_, fun u w hu hbefore => ?_⟩
    · exact h.halted w (hmoves.halted hw) (hmoves.before hs hbefore)
    · exact h.woken u w (hmoves.wakes hu) (hmoves.before hs hbefore)
  | irq irq =>
    obtain ⟨queue, n, rfl⟩ := setQueue_of_irq ht
    exact ⟨h.halted, h.woken⟩
  | vcpu v c =>
    have hmoves := moves_of_threadStep ht
    refine ⟨fun w hw hbefore => ?_, fun u w hu hbefore => ?_⟩
    · exact h.halted w (hmoves.halted hw hbefore) (hmoves.before rfl hbefore)
    · by_cases huv : u = v
      · subst huv
        exact h.halted w (hmoves.wakes hu) (hmoves.before rfl hbefore)
      · rw [hmoves.threads_of_ne huv] at hu
        exact h.woken u w hu (hmoves.before rfl hbefore)

end Entered

/-! ## addresses -/

/-- A thread stores the address of a SIPI, or leaves those alone that have not run. -/
theorem Moves.stores (h : s.Moves v p c t) :
    (∃ vector, p = .sipiEip vector ∧ t = (s.setVcpu (sipiTarget vector) fun c =>
      { c with eip := sipiAddr vector, sipis := c.sipis ++ [vector] }).goto v (.sipiDirty vector)) ∨
    ((∀ w, (t.vcpus w).sipis = (s.vcpus w).sipis) ∧
      (∀ w, (t.threads w).Before → (t.vcpus w).eip = (s.vcpus w).eip) ∧
      ∀ vector, t.threads v ≠ .sipiDirty vector) := by
  cases h with
  | sipiEip => exact .inl ⟨_, rfl, rfl⟩
  | exit =>
    refine .inr ⟨fun w => update_field Vcpu.sipis rfl, fun w hw => ?_, fun vector => ?_⟩
    · by_cases hwv : w = v
      · subst hwv
        simp [Exit.next_not_before] at hw
      · simp [hwv]
    · simp [Exit.next_ne_sipiDirty]
  | top | request | sendWake | inject | halt | sipiState | sipiDirty | eoi =>
    exact .inr ⟨fun w => update_field Vcpu.sipis rfl, fun w _ => update_field Vcpu.eip rfl, by simp⟩
  | start | allHalted | wake | sendState | sendHalted | sipi =>
    refine .inr ⟨fun _ => rfl, fun _ _ => rfl, fun vector => ?_⟩
    simp only [goto_threads, Function.update_self]
    split <;> nofun
  | scan | hope | enter | check | ready | noRequest | dequeue | noEntry | send | noDest | noInject
  | sent | redtbl => exact .inr ⟨fun _ => rfl, fun _ _ => rfl, by simp⟩

theorem Moves.isReset (h : s.Moves v p c t) : t.isReset w = s.isReset w := by
  unfold Machine.isReset
  rw [h.started, h.main, h.gNvcpus]

/-- No SIPI is forgotten. -/
theorem Moves.sipis_ne_nil (h : s.Moves v p c t) (hw : (s.vcpus w).sipis ≠ []) :
    (t.vcpus w).sipis ≠ [] := by
  rcases h.stores with ⟨vector, -, rfl⟩ | ⟨hsipis, -, -⟩
  · by_cases htarget : w = sipiTarget vector
    · simp [htarget]
    · simpa [htarget] using hw
  · rwa [hsipis]

theorem Moves.isStateSet (h : s.Moves v p c t) : t.isStateSet w = s.isStateSet w := by
  unfold Machine.isStateSet
  rw [h.started, h.main, h.gNvcpus]

theorem MainMoves.isReset (h : s.MainMoves t) (hs : s.Started) (hw : s.isReset w) : t.isReset w := by
  rw [isReset_iff] at hw ⊢
  cases h with
  | create hmain => simpa [started, hmain] using hw
  | setUp hmain hf =>
    have hne : s.main ≠ .start := by
      rw [hmain]
      cases hf <;> simp
    have hlt : w < s.started := by simpa [hne] using hw
    exact .inl (by simpa [started, hmain, hf.ne_create] using hlt)
  | start hmain =>
    have hpos := hs.pos (by simp [hmain])
    have hlt : w < s.gNvcpus := by
      simp only [started, hmain] at hw
      grind
    exact .inl (by simpa [started] using hlt)

theorem MainMoves.sipis (h : s.MainMoves t) : (t.vcpus w).sipis = (s.vcpus w).sipis := by
  cases h with
  | create | start => rfl
  | setUp _ hf =>
    refine update_field Vcpu.sipis ?_
    cases hf <;> rfl

theorem MainMoves.eip (h : s.MainMoves t) (w : Nat) :
    (t.vcpus w).eip = (s.vcpus w).eip ∨ s.isReset w = false := by
  cases h with
  | create | start => exact .inl rfl
  | setUp hmain hf =>
    cases hf with
    | reset =>
      by_cases hid : w = s.gNvcpus - 1
      · exact .inr (by simp [Machine.isReset, started, hmain, hid])
      · exact .inl (by simp [hid])
    | publish | initSync | initState => exact .inl (update_field Vcpu.eip rfl)

theorem MainMoves.enter (h : s.MainMoves t) (hu : t.threads u = .enter) : s.threads u = .enter := by
  cases h with
  | create | setUp => exact hu
  | start =>
    by_cases hid : u = s.gNvcpus - 1
    · simp [hid] at hu
    · simpa [hid] using hu

theorem MainMoves.sipiDirty (h : s.MainMoves t) {vector : UInt32}
    (hu : t.threads u = .sipiDirty vector) : s.threads u = .sipiDirty vector := by
  cases h with
  | create | setUp => exact hu
  | start =>
    by_cases hid : u = s.gNvcpus - 1
    · simp [hid] at hu
    · simpa [hid] using hu

/-- What the SIPIs have stored. -/
structure Stored (s : Machine) : Prop where
  target : ∀ v, ∀ vector ∈ (s.vcpus v).sipis, sipiTarget vector = v
  reset : ∀ v, s.isReset v = false → (s.vcpus v).sipis = []
  dirty : ∀ u vector, s.threads u = .sipiDirty vector → (s.vcpus (sipiTarget vector)).sipis ≠ []
  addr : ∀ v vector, (s.threads v).Before → (s.vcpus v).sipis.getLast? = some vector →
    (s.vcpus v).eip = sipiAddr vector

namespace Stored

theorem init (n : Nat) : (Machine.init n).Stored := ⟨nofun, fun _ _ => rfl, nofun, nofun⟩

/-- An address is stored. -/
theorem sipiEip (h : s.Stored) {vector : UInt32} (hreset : s.isReset (sipiTarget vector)) :
    ((s.setVcpu (sipiTarget vector) fun c =>
      { c with eip := sipiAddr vector, sipis := c.sipis ++ [vector] }).goto v
        (.sipiDirty vector)).Stored := by
  refine ⟨fun w x hx => ?_, fun w hw => ?_, fun u x hu => ?_, fun w x hw hlast => ?_⟩ <;>
    simp only [goto_vcpus, goto_threads, setVcpu_vcpus] at *
  · by_cases htarget : w = sipiTarget vector
    · subst htarget
      simp only [Function.update_self, List.mem_append, List.mem_singleton] at hx
      rcases hx with hx | rfl
      · exact h.target _ x hx
      · rfl
    · rw [Function.update_of_ne htarget] at hx
      exact h.target w x hx
  · have htarget : w ≠ sipiTarget vector := by
      rintro rfl
      exact absurd (hreset.symm.trans hw) nofun
    rw [Function.update_of_ne htarget]
    exact h.reset w hw
  · by_cases htarget : sipiTarget x = sipiTarget vector
    · simp [htarget]
    · rw [Function.update_of_ne htarget]
      have huv : u ≠ v := by
        rintro rfl
        rw [Function.update_self] at hu
        cases hu
        exact htarget rfl
      exact h.dirty u x (by rwa [Function.update_of_ne huv] at hu)
  · by_cases htarget : w = sipiTarget vector
    · subst htarget
      simp only [Function.update_self, List.getLast?_concat] at hlast ⊢
      cases hlast
      rfl
    · rw [Function.update_of_ne htarget] at hlast ⊢
      refine h.addr w x ?_ hlast
      by_cases hwv : w = v
      · subst hwv
        simp [Place.Before] at hw
      · rwa [Function.update_of_ne hwv] at hw

theorem step (h : s.Stored) (hs : s.Started) {a : Act} (hguard : s.inOrder a) (ht : s.step a = some t) :
    t.Stored := by
  cases a with
  | main =>
    have hmoves := moves_of_mainStep ht
    refine ⟨fun w => ?_, fun w hw => ?_, fun u vector hu => ?_, fun w vector hw hlast => ?_⟩
    · rw [hmoves.sipis]
      exact h.target w
    · rw [hmoves.sipis]
      refine h.reset w (Bool.eq_false_iff.2 fun hreset => ?_)
      exact absurd (hmoves.isReset hs hreset) (by simp [hw])
    · rw [hmoves.sipis]
      exact h.dirty u vector (hmoves.sipiDirty hu)
    · rw [hmoves.sipis] at hlast
      rcases hmoves.eip w with heip | hreset
      · rw [heip]
        exact h.addr w vector (hmoves.before hs hw) hlast
      · simp [h.reset w hreset] at hlast
  | irq irq =>
    obtain ⟨queue, n, rfl⟩ := setQueue_of_irq ht
    exact ⟨h.target, h.reset, h.dirty, h.addr⟩
  | vcpu v c =>
    have hmoves := moves_of_threadStep ht
    rcases hmoves.stores with ⟨vector, hp, rfl⟩ | ⟨hsipis, heip, hdirty⟩
    · exact h.sipiEip (by simpa [inOrder, hp] using hguard)
    · refine ⟨fun w => ?_, fun w hw => ?_, fun u vector hu => ?_, fun w vector hw hlast => ?_⟩
      · rw [hsipis]
        exact h.target w
      · rw [hsipis]
        exact h.reset w (hmoves.isReset ▸ hw)
      · have huv : u ≠ v := by
          rintro rfl
          exact hdirty vector hu
        rw [hsipis]
        exact h.dirty u vector (hmoves.threads_of_ne huv ▸ hu)
      · rw [heip w hw]
        exact h.addr w vector (hmoves.before rfl hw) (hsipis w ▸ hlast)

end Stored

/-! ## running vCPUs are named -/

/-- A SIPI has stored its address, or it will before it gives back the lock. -/
def Named (s : Machine) (v : Nat) : Prop :=
  (s.vcpus v).sipis ≠ [] ∨ ∃ u vector, s.threads u = .sipiEip vector ∧ sipiTarget vector = v ∧
    (s.vcpus v).stateMutex = some u

theorem Named.frame (h : s.Named w) (hsipis : (t.vcpus w).sipis = (s.vcpus w).sipis)
    (hmutex : (t.vcpus w).stateMutex = (s.vcpus w).stateMutex)
    (hthreads : ∀ u vector, s.threads u = .sipiEip vector → sipiTarget vector = w →
      t.threads u = .sipiEip vector) : t.Named w := by
  rcases h with hs | ⟨u, vector, hu, htarget, hlock⟩
  · exact .inl (hsipis ▸ hs)
  · exact .inr ⟨u, vector, hthreads u vector hu htarget, htarget, hmutex ▸ hlock⟩

/-- A thread that sets a vCPU running names it. -/
theorem Moves.named (h : s.Moves v p c t) (hp : s.threads v = p) (hstored : s.Stored)
    (hbefore : (t.threads w).Before) (hwakes : p.wakes? ≠ some w)
    (hrunning : (t.vcpus w).state = .running) (ih : (s.vcpus w).state = .running → s.Named w) :
    t.Named w := by
  have hframe : (∀ vector, p = .sipiEip vector → sipiTarget vector ≠ w) →
      (t.vcpus w).state = (s.vcpus w).state → (t.vcpus w).sipis = (s.vcpus w).sipis →
      (t.vcpus w).stateMutex = (s.vcpus w).stateMutex → t.Named w := by
    intro hother hstate hsipis hmutex
    refine (ih (hstate ▸ hrunning)).frame hsipis hmutex fun u vector hu htarget => ?_
    have huv : u ≠ v := by
      rintro rfl
      exact hother vector (hp.symm.trans hu) htarget
    rwa [h.threads_of_ne huv]
  cases h with
  | @sipiState vector =>
    by_cases htarget : w = sipiTarget vector
    · subst htarget
      exact .inr ⟨v, vector, by simp, rfl, by simp⟩
    · exact hframe nofun (by simp [htarget]) (by simp [htarget]) (by simp [htarget])
  | @sipiEip vector =>
    by_cases htarget : w = sipiTarget vector
    · subst htarget
      exact .inl (by simp)
    · refine hframe (fun x hx => ?_) (by simp [htarget]) (by simp [htarget]) (by simp [htarget])
      cases hx
      exact Ne.symm htarget
  | @sipiDirty vector =>
    by_cases htarget : w = sipiTarget vector
    · subst htarget
      exact .inl (by simpa using hstored.dirty v vector hp)
    · exact hframe nofun (by simp [htarget]) (by simp [htarget]) (by simp [htarget])
  | @sendWake irq dest vector =>
    have hdest : w ≠ dest := fun hdest => hwakes (by rw [hdest]; rfl)
    exact hframe nofun (by simp [hdest]) (by simp [hdest]) (by simp [hdest])
  | halt =>
    have hwv : w ≠ v := by
      rintro rfl
      simp [Place.Before] at hbefore
    exact hframe nofun (by simp [hwv]) (by simp [hwv]) (by simp [hwv])
  | top | request | inject | exit | eoi =>
    exact hframe nofun (update_field Vcpu.state rfl) (update_field Vcpu.sipis rfl)
      (update_field Vcpu.stateMutex rfl)
  | start | scan | allHalted | hope | wake | enter | check | ready | noRequest | dequeue | noEntry
  | send | noDest | sendState | sendHalted | noInject | sent | sipi | redtbl =>
    exact hframe nofun rfl rfl rfl

theorem MainMoves.named (h : s.MainMoves t) (hs : s.Started) (hw : w ≠ 0) (hset : t.isStateSet w)
    (hrunning : (t.vcpus w).state = .running)
    (ih : s.isStateSet w → (s.vcpus w).state = .running → s.Named w) : t.Named w := by
  rw [isStateSet_iff] at hset ih
  cases h with
  | create hmain => exact ih (.inl (by simpa [started, hmain] using hset)) hrunning
  | @setUp m m' f hmain hf =>
    have hold : w < s.gNvcpus - 1 → ((s.setVcpu (s.gNvcpus - 1) f).setMain m').Named w := by
      intro hlt
      have hne : w ≠ s.gNvcpus - 1 := Nat.ne_of_lt hlt
      have hvcpu : ((s.setVcpu (s.gNvcpus - 1) f).setMain m').vcpus w = s.vcpus w := by simp [hne]
      refine (ih (.inl (by simpa [started, hmain, hf.ne_create] using hlt)) (hvcpu ▸ hrunning)).frame
        (by rw [hvcpu]) (by rw [hvcpu]) fun _ _ hu _ => hu
    cases hf with
    | publish | initSync => exact hold (by simpa [started] using hset)
    | initState =>
      by_cases hid : w = s.gNvcpus - 1
      · subst hid
        simp [hw] at hrunning
      · refine hold ?_
        simp [started] at hset
        omega
    | reset =>
      have hstate : (s.vcpus w).state = .running := by
        refine (Eq.symm ?_).trans hrunning
        exact update_field Vcpu.state rfl
      refine (ih ?_ hstate).frame (update_field Vcpu.sipis rfl) (update_field Vcpu.stateMutex rfl)
        fun _ _ hu _ => hu
      simpa [started, hmain] using hset
  | start hmain =>
    have hpos := hs.pos (by simp [hmain])
    refine (ih ?_ hrunning).frame rfl rfl fun u vector hu _ => ?_
    · simp [started] at hset
      simp [started, hmain]
      omega
    · have hne : u ≠ s.gNvcpus - 1 := by
        rintro rfl
        rw [hs.threads_id (by simp [hmain])] at hu
        cases hu
      simpa [hne] using hu

/-- How a thread gets to run its vCPU for the first time. -/
theorem Moves.enters (h : s.Moves v p c t) (hv : t.threads v = .enter) :
    (p = .start ∧ (s.vcpus v).state ≠ .notStarted) ∨ (∃ i, p = .scan false i true ∧ s.gNvcpus ≤ i) ∨
    (p = .wait false ∧ (s.vcpus v).state = .running ∧ (s.vcpus v).stateMutex = none) := by
  cases h with
  | start =>
    simp only [goto_threads, Function.update_self] at hv
    split at hv
    next => cases hv
    next hstate => exact .inl ⟨rfl, hstate⟩
  | @allHalted hlt i hi =>
    cases hlt with
    | true => simp at hv
    | false => exact .inr (.inl ⟨i, rfl, hi⟩)
  | @wake hlt hstate hmutex =>
    cases hlt with
    | true => simp at hv
    | false => exact .inr (.inr ⟨rfl, hstate, hmutex⟩)
  | exit =>
    simp only [goto_threads, Function.update_self] at hv
    exact absurd (by rw [hv]; trivial) (Exit.next_not_before _)
  | sendState | sendHalted | sipi =>
    simp only [goto_threads, Function.update_self] at hv
    split at hv <;> cases hv
  | _ => simp at hv

/-! ## the run -/

/-- What holds while the vCPUs start. -/
structure Startup (s : Machine) : Prop where
  started : s.Started
  entered : s.Entered
  stored : s.Stored
  running : ∀ v, v ≠ 0 → (s.threads v).Before → s.isStateSet v → (s.vcpus v).state = .running →
    s.Named v
  enter : ∀ v, v ≠ 0 → s.threads v = .enter → (s.vcpus v).sipis ≠ []

namespace Startup

theorem init (n : Nat) : (Machine.init n).Startup where
  started := .init n
  entered := .init n
  stored := .init n
  running := nofun
  enter := nofun

/-- A thread that gets to run its vCPU has the address of a SIPI. -/
theorem sipis_of_enters (h : s.Startup) (hv : v ≠ 0) (hguard : s.inOrder (.vcpu v c))
    (hmoves : s.Moves v (s.threads v) c t) (henter : t.threads v = .enter) :
    (s.vcpus v).sipis ≠ [] := by
  have hset : s.isStateSet v := isStateSet_iff.2 (.inl (h.started.lt hmoves.ne_absent))
  rcases hmoves.enters henter with ⟨hp, hstate⟩ | ⟨i, hp, hi⟩ | ⟨hp, hrunning, hmutex⟩
  · have hbefore : (s.threads v).Before := by rw [hp]; trivial
    have hrunning : (s.vcpus v).state = .running := by
      cases hs : (s.vcpus v).state with
      | notStarted => exact absurd hs hstate
      | running => rfl
      | halted => exact absurd hbefore (h.entered.halted v hs)
    rcases h.running v hv hbefore hset hrunning with hsipis | ⟨u, vector, hu, htarget, -⟩
    · exact hsipis
    · have hmid : s.midSipi v := by
        have hlt : u < s.started := h.started.lt (by rw [hu]; nofun)
        refine List.any_eq_true.2 ⟨u, List.mem_range.2 ?_, by simp [hu, htarget]⟩
        exact Nat.lt_of_lt_of_le hlt s.started_le
      simpa [inOrder, hp, hrunning, hmid] using hguard
  · have hlt : i < s.gNvcpus := by simpa [inOrder, hp] using hguard
    exact absurd hlt (Nat.not_lt.2 hi)
  · rcases h.running v hv (by rw [hp]; trivial) hset hrunning with hsipis | ⟨u, vector, -, -, hlock⟩
    · exact hsipis
    · exact absurd (hlock.symm.trans hmutex) nofun

/-- **One step.** -/
theorem step (h : s.Startup) {a : Act} (hguard : s.inOrder a) (ht : s.step a = some t) : t.Startup := by
  refine ⟨h.started.step ht, h.entered.step h.started ht, h.stored.step h.started hguard ht, ?_, ?_⟩
  · intro w hw hbefore hset hrunning
    cases a with
    | main =>
      have hmoves := moves_of_mainStep ht
      exact hmoves.named h.started hw hset hrunning (h.running w hw (hmoves.before h.started hbefore))
    | irq irq =>
      obtain ⟨queue, n, rfl⟩ := setQueue_of_irq ht
      exact h.running w hw hbefore hset hrunning
    | vcpu v c =>
      have hmoves := moves_of_threadStep ht
      have hs := hmoves.before rfl hbefore
      refine hmoves.named rfl h.stored hbefore (fun hwakes => ?_) hrunning (h.running w hw hs ?_)
      · exact h.entered.woken v w hwakes hs
      · rwa [← hmoves.isStateSet]
  · intro w hw henter
    cases a with
    | main =>
      have hmoves := moves_of_mainStep ht
      rw [hmoves.sipis]
      exact h.enter w hw (hmoves.enter henter)
    | irq irq =>
      obtain ⟨queue, n, rfl⟩ := setQueue_of_irq ht
      exact h.enter w hw henter
    | vcpu v c =>
      have hmoves := moves_of_threadStep ht
      refine hmoves.sipis_ne_nil ?_
      by_cases hwv : w = v
      · subst hwv
        exact h.sipis_of_enters hw hguard hmoves henter
      · exact h.enter w hw (hmoves.threads_of_ne hwv ▸ henter)

end Startup

/-- **Application processors wait for their SIPI**, as long as all is in order: a vCPU other than
the first that calls `runVcpu` has been named by a SIPI, and its `eip` is what that SIPI says. -/
theorem starts_at_sipi {n : Nat} {acts : List Act}
    (h : Run (Guarded (fun s a => s.inOrder a) fun s a t => s.step a = some t) (init n) acts s)
    (hv : v ≠ 0) (henter : s.threads v = .enter) :
    ∃ vector ∈ (s.vcpus v).sipis, sipiTarget vector = v ∧ (s.vcpus v).eip = sipiAddr vector := by
  have hinv : s.Startup := h.invariant (I := Startup) (fun _ _ _ h ht => h.step ht.1 ht.2) (.init n)
  obtain ⟨vector, hlast⟩ := Option.ne_none_iff_exists'.1
    (mt List.getLast?_eq_none_iff.1 (hinv.enter v hv henter))
  have hmem : vector ∈ (s.vcpus v).sipis := List.mem_of_getLast? hlast
  exact ⟨vector, hmem, hinv.stored.target v vector hmem,
    hinv.stored.addr v vector (by rw [henter]; trivial) hlast⟩

/-- The second vCPU waits, and the first one starts it. -/
theorem starts_at_sipi_second : ∃ s,
    Run (Guarded (fun s a => s.inOrder a) fun s a t => s.step a = some t) (init 2)
      (createVcpu ++ createVcpu ++ go 1 4 ++ go 0 2 ++ startAp 0x1001 ++ go 1 1) s ∧
    s.threads 1 = .enter ∧
    ∃ vector ∈ (s.vcpus 1).sipis, sipiTarget vector = 1 ∧ (s.vcpus 1).eip = sipiAddr vector := by
  have hexec : ∃ s ∈ exec (fun s a => if s.inOrder a then s.step a else none) (init 2)
      (createVcpu ++ createVcpu ++ go 1 4 ++ go 0 2 ++ startAp 0x1001 ++ go 1 1),
      s.threads 1 = .enter := by decide +kernel
  obtain ⟨s, hs, henter⟩ := hexec
  have hrun := run_guarded_of_exec hs
  exact ⟨s, hrun, henter, starts_at_sipi hrun (by decide) henter⟩

/-- The first vCPU halts before the second is created, which then finds all halted. -/
def ignoresShutdown : List Act :=
  createVcpu ++ go 0 5 ++ [exitOpen 0 .hlt] ++ go 0 1 ++ createVcpu ++ go 1 4

/-- The first vCPU starts the second before `main` has reset it. -/
def beforeReset : List Act :=
  createVcpu ++ go 0 2 ++ List.replicate 4 .main ++ startAp 0x1001 ++ List.replicate 2 .main ++ go 1 1

/-- The second vCPU reads its state in the middle of the SIPI. -/
def midFirstSipi : List Act :=
  createVcpu ++ createVcpu ++ go 0 5 ++ [exitOpen 0 (sipiWrite 0x1001)] ++ go 0 2 ++ go 1 1

/-- The second vCPU calls `runVcpu` with the reset vector, and no SIPI has said that. -/
def StartsAtReset (acts : List Act) : Prop :=
  ∃ s, Run (fun s a t => s.step a = some t) (init 2) acts s ∧ s.threads 1 = .enter ∧
    (s.vcpus 1).eip = 0xfff0 ∧ ∀ vector ∈ (s.vcpus 1).sipis, (s.vcpus 1).eip ≠ sipiAddr vector

/-- **In each of these runs the second vCPU runs from the reset vector.** -/
theorem starts_at_reset : StartsAtReset ignoresShutdown ∧ StartsAtReset beforeReset ∧
    StartsAtReset midFirstSipi := by
  have hexec : ∀ acts ∈ [ignoresShutdown, beforeReset, midFirstSipi],
      ∃ s ∈ exec step (init 2) acts, s.threads 1 = .enter ∧ (s.vcpus 1).eip = 0xfff0 ∧
        (s.vcpus 1).sipis.all fun vector => (s.vcpus 1).eip != sipiAddr vector := by decide +kernel
  have hstarts : ∀ acts ∈ [ignoresShutdown, beforeReset, midFirstSipi], StartsAtReset acts := by
    intro acts hacts
    obtain ⟨s, hs, henter, heip, hsipis⟩ := hexec acts hacts
    exact ⟨s, (run_iff_exec step).2 hs, henter, heip, fun vector hmem =>
      bne_iff_ne.1 (List.all_eq_true.1 hsipis vector hmem)⟩
  exact ⟨hstarts _ (by simp), hstarts _ (by simp), hstarts _ (by simp)⟩

end Machine

end Ooows.Smp
