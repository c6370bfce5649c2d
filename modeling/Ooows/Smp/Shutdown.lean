import Ooows.Smp.Machine

/-!
# Ooows.Smp.Shutdown

How the VM ends when all vCPUs are halted.

A vCPU that halts looks at the states of all vCPUs, and when none of them runs it ends.
Nobody wakes up those that already wait.  The VM shuts down as a whole as long as a vCPU
finds all halted only when all others are about to find the same (`shuts_down`).
-/

namespace Ooows.Smp

open Lib

/-- The thread is at its end, or gets there if no vCPU runs. -/
def Place.isEnding : Place → Bool
  | .halt | .finished _ => true
  | .scan hlt _ allHalted => hlt && allHalted
  | _ => false

theorem Exit.next_ne_finished (reason : Exit) : reason.next ≠ .finished true :=
  reason.next_cases (by simp) (by simp) (by simp) (by simp) (by simp) (by simp)

namespace Machine

variable {s t : Machine} {u v w : Nat} {p : Place} {c : Choice}

/-- A thread waits, and no vCPU that runs is left to signal it. -/
def Stranded (s : Machine) (w : Nat) : Prop :=
  (s.threads w = .wait true ∨ s.threads w = .wait false) ∧ (s.vcpus w).state ≠ .running ∧
  ∀ u < s.gNvcpus, (s.vcpus u).state = .running →
    s.threads u = .finished true ∨ s.threads u = .finished false

instance : Decidable (s.Stranded w) := inferInstanceAs (Decidable (_ ∧ _ ∧ _))

/-- All vCPUs have been created, none of them runs, and all threads end. -/
def quiet (s : Machine) : Bool :=
  s.main == .create && s.gNvcpus == s.nvcpus &&
    (List.range s.gNvcpus).all fun u => (s.vcpus u).state != .running && (s.threads u).isEnding

/-- A vCPU finds all halted only when all is quiet. -/
def endsQuietly (s : Machine) : Act → Bool
  | .vcpu v _ =>
    match s.threads v with
    | .scan true i true => i < s.gNvcpus || s.quiet
    | _ => true
  | _ => true

/-! ## quiet machines -/

/-- `quiet`, as a proposition. -/
structure Quiet (s : Machine) : Prop where
  main : s.main = .create
  gNvcpus : s.gNvcpus = s.nvcpus
  state : ∀ u < s.gNvcpus, (s.vcpus u).state ≠ .running
  ending : ∀ u < s.gNvcpus, (s.threads u).isEnding

theorem quiet_iff : s.quiet ↔ s.Quiet := by
  constructor
  · intro h
    simp only [quiet, Bool.and_eq_true, beq_iff_eq, List.all_eq_true, List.mem_range, bne_iff_ne] at h
    exact ⟨h.1.1, h.1.2, fun u hu => (h.2 u hu).1, fun u hu => (h.2 u hu).2⟩
  · intro h
    simp only [quiet, Bool.and_eq_true, beq_iff_eq, List.all_eq_true, List.mem_range, bne_iff_ne]
    exact ⟨⟨h.main, h.gNvcpus⟩, fun u hu => ⟨h.state u hu, h.ending u hu⟩⟩

theorem Moves.nvcpus (h : s.Moves v p c t) : t.nvcpus = s.nvcpus := by
  cases h <;> rfl

namespace Quiet

/-- A thread goes on to its end. -/
theorem goOn (h : s.Quiet) (hmain : t.main = s.main) (hg : t.gNvcpus = s.gNvcpus)
    (hn : t.nvcpus = s.nvcpus) (hstate : ∀ w, (t.vcpus w).state = .running → (s.vcpus w).state = .running)
    (hthreads : ∀ w, w ≠ v → t.threads w = s.threads w) (hending : (t.threads v).isEnding) :
    t.Quiet := by
  refine ⟨hmain ▸ h.main, by rw [hg, hn, h.gNvcpus], fun u hu hrunning => ?_, fun u hu => ?_⟩
  · exact h.state u (hg ▸ hu) (hstate u hrunning)
  · by_cases huv : u = v
    · rwa [huv]
    · rw [hthreads u huv]
      exact h.ending u (hg ▸ hu)

/-- **Once all is quiet, it stays so.** -/
theorem moves (h : s.Quiet) (hv : v < s.gNvcpus) (hp : s.threads v = p) (hmoves : s.Moves v p c t) :
    t.Quiet := by
  have hending : p.isEnding := hp ▸ h.ending v hv
  refine h.goOn hmoves.main hmoves.gNvcpus hmoves.nvcpus ?_ (fun w hw => hmoves.threads_of_ne hw) ?_
  · intro w hw
    cases hmoves with
    | halt =>
      by_cases hwv : w = v
      · simp [hwv] at hw
      · simpa [hwv] using hw
    | scan | allHalted | hope => exact hw
    | _ => cases hending
  · cases hmoves with
    | halt => simp [Place.isEnding]
    | @scan hlt i allHalted hi => simpa [Place.isEnding, h.state i hi] using hending
    | @allHalted hlt =>
      have hhlt : hlt = true := by simpa [Place.isEnding] using hending
      simp [hhlt, Place.isEnding]
    | hope => simp [Place.isEnding] at hending
    | _ => cases hending

theorem step (h : s.Quiet) (hs : s.Started) {a : Act} (ht : s.step a = some t) : t.Quiet := by
  cases a with
  | main =>
    cases moves_of_mainStep ht with
    | create _ hlt => exact absurd h.gNvcpus (Nat.ne_of_lt hlt)
    | setUp hmain hf => exact absurd (hmain.symm.trans h.main) hf.ne_create.1
    | start hmain => exact absurd (hmain.symm.trans h.main) nofun
  | irq irq =>
    obtain ⟨queue, n, rfl⟩ := setQueue_of_irq ht
    exact ⟨h.main, h.gNvcpus, h.state, h.ending⟩
  | vcpu v c =>
    have hmoves := moves_of_threadStep ht
    exact h.moves (Nat.lt_of_lt_of_le (hs.lt hmoves.ne_absent) s.started_le) rfl hmoves

end Quiet

/-- A thread that ends because all are halted has looked at all states. -/
theorem Moves.finishes (h : s.Moves v p c t) (hv : t.threads v = .finished true) :
    ∃ i, p = .scan true i true ∧ s.gNvcpus ≤ i := by
  cases h with
  | @allHalted hlt i hi =>
    cases hlt with
    | true => exact ⟨i, rfl, hi⟩
    | false => simp at hv
  | @exit _ _ reason =>
    simp only [goto_threads, Function.update_self] at hv
    exact absurd hv reason.next_ne_finished
  | start | wake | sendState | sendHalted | sipi =>
    simp only [goto_threads, Function.update_self] at hv
    split at hv <;> cases hv
  | _ => simp at hv

/-! ## the table -/

/-- Every vCPU that has a thread is in the table. -/
structure Published (s : Machine) : Prop where
  started : ∀ i < s.started, (s.vcpus i).present
  setUp : s.main ≠ .create → s.main ≠ .publish → (s.vcpus (s.gNvcpus - 1)).present

theorem Moves.present (h : s.Moves v p c t) : (t.vcpus w).present = (s.vcpus w).present := by
  cases h with
  | top | request | sendWake | inject | exit | halt | sipiState | sipiEip | sipiDirty | eoi =>
    exact update_field Vcpu.present rfl
  | _ => rfl

theorem Published.init (n : Nat) : (Machine.init n).Published :=
  ⟨fun _ hi => absurd hi (Nat.not_lt_zero _), fun h => absurd rfl h⟩

theorem Published.step (h : s.Published) {a : Act} (ht : s.step a = some t) : t.Published := by
  cases a with
  | main =>
    cases moves_of_mainStep ht with
    | create hmain =>
      exact ⟨fun i hi => h.started i (by simpa [Machine.started, hmain] using hi),
        fun _ hne => absurd rfl hne⟩
    | @setUp m m' f hmain hf =>
      have hkeeps : ∀ {c : Vcpu}, c.present → (f c).present := by
        intro c hc
        cases hf with
        | publish => rfl
        | initSync | initState | reset => exact hc
      refine ⟨fun i hi => ?_, fun _ _ => ?_⟩
      · have hlt : i < s.gNvcpus - 1 := by simpa [Machine.started, hf.ne_create] using hi
        have hi := h.started i (by simpa [Machine.started, hmain, hf.ne_create] using hlt)
        simpa [Nat.ne_of_lt hlt] using hi
      · simp only [setMain_vcpus, setMain_gNvcpus, setVcpu_vcpus, setVcpu_gNvcpus,
          Function.update_self]
        cases hf with
        | publish => rfl
        | initSync | initState | reset => exact hkeeps (h.setUp (by simp [hmain]) (by simp [hmain]))
    | start hmain =>
      refine ⟨fun i hi => ?_, fun hne => absurd rfl hne⟩
      have hlt : i < s.gNvcpus := by simpa [Machine.started] using hi
      by_cases hid : i = s.gNvcpus - 1
      · subst hid
        exact h.setUp (by simp [hmain]) (by simp [hmain])
      · refine h.started i ?_
        simp only [Machine.started, hmain]
        grind
  | irq irq =>
    obtain ⟨queue, n, rfl⟩ := setQueue_of_irq ht
    exact ⟨h.started, h.setUp⟩
  | vcpu v c =>
    have hmoves := moves_of_threadStep ht
    refine ⟨fun i hi => ?_, fun hcreate hpublish => ?_⟩
    · rw [hmoves.present]
      exact h.started i (hmoves.started ▸ hi)
    · rw [hmoves.present, hmoves.gNvcpus]
      exact h.setUp (hmoves.main ▸ hcreate) (hmoves.main ▸ hpublish)

/-! ## the end -/

/-- From `s` the thread of `v` gets to `t` on its own, and all stays quiet. -/
structure Advances (v : Nat) (s t : Machine) : Prop where
  run : ∃ acts, Run (fun s a t => s.step a = some t) s acts t
  quiet : t.Quiet
  gNvcpus : t.gNvcpus = s.gNvcpus
  present : ∀ i, (t.vcpus i).present = (s.vcpus i).present
  threads : ∀ w, w ≠ v → t.threads w = s.threads w

namespace Advances

theorem refl (h : s.Quiet) : Advances v s s := ⟨⟨[], .refl⟩, h, rfl, fun _ => rfl, fun _ _ => rfl⟩

theorem step {t' : Machine} (h : s.Quiet) (hv : v < s.gNvcpus) (ht : s.step (.vcpu v c) = some t)
    (hadv : t.Quiet → Advances v t t') : Advances v s t' := by
  have hmoves := moves_of_threadStep ht
  have hnext := hadv (h.moves hv rfl hmoves)
  obtain ⟨acts, hrun⟩ := hnext.run
  refine ⟨⟨_, (Run.single ht).append hrun⟩, hnext.quiet, hnext.gNvcpus.trans hmoves.gNvcpus,
    fun i => (hnext.present i).trans hmoves.present, fun w hw => ?_⟩
  rw [hnext.threads w hw, hmoves.threads_of_ne hw]

end Advances

/-- A thread that looks at the states in a quiet machine ends. -/
theorem finishes_of_scan (k : Nat) : ∀ {s : Machine} {i : Nat}, s.Quiet →
    (∀ i < s.gNvcpus, (s.vcpus i).present) → v < s.gNvcpus → s.threads v = .scan true i true →
    s.gNvcpus - i = k → ∃ t, Advances v s t ∧ t.threads v = .finished true := by
  induction k with
  | zero =>
    intro s i h hpresent hv hplace hk
    have hstep : s.step (.vcpu v .go) = some (s.goto v (.finished true)) := by
      have hi : ¬ i < s.gNvcpus := by omega
      simp [Machine.step, hplace, threadStep, Machine.goOn, hi]
    exact ⟨_, .step h hv hstep .refl, by simp⟩
  | succ k ih =>
    intro s i h hpresent hv hplace hk
    have hi : i < s.gNvcpus := by omega
    have hstate : ((s.vcpus i).state != .running) = true := bne_iff_ne.2 (h.state i hi)
    have hstep : s.step (.vcpu v .go) = some (s.goto v (.scan true (i + 1) true)) := by
      simp [Machine.step, hplace, threadStep, Machine.goOn, hi, hpresent i hi, hstate]
    have hquiet : (s.goto v (.scan true (i + 1) true)).Quiet :=
      h.moves hv rfl (moves_of_threadStep (c := .go) hstep)
    obtain ⟨t, ht, hend⟩ := @ih (s.goto v (.scan true (i + 1) true)) (i + 1) hquiet hpresent hv
      (by simp) (by simp only [goto_gNvcpus]; omega)
    exact ⟨t, .step h hv hstep fun _ => ht, hend⟩

/-- In a quiet machine every thread ends. -/
theorem Quiet.finishes (h : s.Quiet) (hpresent : ∀ i < s.gNvcpus, (s.vcpus i).present)
    (hv : v < s.gNvcpus) :
    ∃ t, Advances v s t ∧ (t.threads v = .finished true ∨ t.threads v = .finished false) := by
  cases hplace : s.threads v with
  | finished b => exact ⟨s, .refl h, by cases b <;> simp [hplace]⟩
  | scan hlt i allHalted =>
    have hending := h.ending v hv
    rw [hplace, Place.isEnding, Bool.and_eq_true] at hending
    obtain ⟨rfl, rfl⟩ := hending
    obtain ⟨t, ht, hend⟩ := finishes_of_scan _ h hpresent hv hplace rfl
    exact ⟨t, ht, .inl hend⟩
  | halt =>
    have hstep : s.step (.vcpu v .go) = some ((s.setVcpu v fun c => { c with state := .halted }).goto v
        (.scan true 0 true)) := by
      simp [Machine.step, hplace, threadStep, Machine.goOn]
    have hmoves := moves_of_threadStep (c := .go) hstep
    obtain ⟨t, ht, hend⟩ := finishes_of_scan (i := 0) _ (h.moves hv rfl hmoves)
      (fun i hi => by rw [hmoves.present]; exact hpresent i hi) hv (by simp) rfl
    exact ⟨t, .step h hv hstep fun _ => ht, .inl hend⟩
  | _ => exact absurd (h.ending v hv) (by simp [hplace, Place.isEnding])

/-- So all of them do, one after the other. -/
theorem Quiet.all_finish (h : s.Quiet) (hpresent : ∀ i < s.gNvcpus, (s.vcpus i).present) (k : Nat)
    (hk : k ≤ s.gNvcpus) : ∃ acts t, Run (fun s a t => s.step a = some t) s acts t ∧ t.Quiet ∧
      t.gNvcpus = s.gNvcpus ∧ (∀ i, (t.vcpus i).present = (s.vcpus i).present) ∧
      ∀ u < k, t.threads u = .finished true ∨ t.threads u = .finished false := by
  induction k with
  | zero => exact ⟨[], s, .refl, h, rfl, fun _ => rfl, fun _ hu => absurd hu (Nat.not_lt_zero _)⟩
  | succ k ih =>
    obtain ⟨acts, t, hrun, hquiet, hg, hp, hdone⟩ := ih (Nat.le_of_succ_le hk)
    obtain ⟨t', hadv, hend⟩ := hquiet.finishes (v := k)
      (fun i hi => by rw [hp]; exact hpresent i (hg ▸ hi)) (hg.symm ▸ hk)
    obtain ⟨acts', hrun'⟩ := hadv.run
    refine ⟨_, t', hrun.append hrun', hadv.quiet, hadv.gNvcpus.trans hg,
      fun i => (hadv.present i).trans (hp i), fun u hu => ?_⟩
    by_cases huk : u = k
    · rwa [huk]
    · rw [hadv.threads u huk]
      exact hdone u (Nat.lt_of_le_of_ne (Nat.le_of_lt_succ hu) huk)

/-! ## the run -/

/-- Where a vCPU has found all halted, all is quiet. -/
structure Ends (s : Machine) : Prop where
  started : s.Started
  published : s.Published
  quiet : ∀ v, s.threads v = .finished true → s.Quiet

namespace Ends

theorem init (n : Nat) : (Machine.init n).Ends := ⟨.init n, .init n, nofun⟩

theorem step (h : s.Ends) {a : Act} (hguard : s.endsQuietly a) (ht : s.step a = some t) : t.Ends := by
  refine ⟨h.started.step ht, h.published.step ht, fun w hw => ?_⟩
  suffices hquiet : s.Quiet from hquiet.step h.started ht
  cases a with
  | main =>
    cases moves_of_mainStep ht with
    | create | setUp => exact h.quiet w hw
    | start =>
      by_cases hid : w = s.gNvcpus - 1
      · simp [hid] at hw
      · exact h.quiet w (by simpa [hid] using hw)
  | irq irq =>
    obtain ⟨queue, n, rfl⟩ := setQueue_of_irq ht
    exact h.quiet w hw
  | vcpu v c =>
    have hmoves := moves_of_threadStep ht
    by_cases hwv : w = v
    · subst hwv
      obtain ⟨i, hp, hi⟩ := hmoves.finishes hw
      have hor : i < s.gNvcpus ∨ s.quiet := by simpa [endsQuietly, hp] using hguard
      exact quiet_iff.1 (hor.resolve_left (Nat.not_lt.2 hi))
    · exact h.quiet w (hmoves.threads_of_ne hwv ▸ hw)

end Ends

/-- **Halting all vCPUs shuts the whole VM down**, as long as a vCPU finds all halted only when
all is quiet: then no thread is left behind, and all threads can end. -/
theorem shuts_down {n : Nat} {acts : List Act}
    (h : Run (Guarded (fun s a => s.endsQuietly a) fun s a t => s.step a = some t) (init n) acts s)
    (hv : s.threads v = .finished true) :
    (∀ w, ¬ s.Stranded w) ∧ ∃ acts' t, Run (fun s a t => s.step a = some t) s acts' t ∧
      t.gNvcpus = t.nvcpus ∧
      ∀ u < t.gNvcpus, t.threads u = .finished true ∨ t.threads u = .finished false := by
  have hinv : s.Ends := h.invariant (I := Ends) (fun _ _ _ h ht => h.step ht.1 ht.2) (.init n)
  have hquiet : s.Quiet := hinv.quiet v hv
  have hstarted : s.started = s.gNvcpus := by simp [started, hquiet.main]
  constructor
  · rintro w ⟨hwait, -, -⟩
    have hlt : w < s.started := hinv.started.lt (by rcases hwait with hw | hw <;> simp [hw])
    have hending := hquiet.ending w (hstarted ▸ hlt)
    rcases hwait with hw | hw <;> simp [hw, Place.isEnding] at hending
  · obtain ⟨acts', t, hrun, ht, hg, -, hdone⟩ := hquiet.all_finish
      (fun i hi => hinv.published.started i (hstarted.symm ▸ hi)) s.gNvcpus (Nat.le_refl _)
    exact ⟨acts', t, hrun, ht.gNvcpus, fun u hu => hdone u (hg ▸ hu)⟩

/-- From the top of their loops both vCPUs halt, and only then they look at each other. -/
def bothHalt : List Act :=
  go 0 3 ++ go 1 3 ++ [exitOpen 0 .hlt, exitOpen 1 .hlt] ++ go 0 1 ++ go 1 1 ++ go 0 3

/-- The first vCPU starts the second, and both halt. -/
theorem shuts_down_both : ∃ s,
    Run (Guarded (fun s a => s.endsQuietly a) fun s a t => s.step a = some t) (init 2)
      (createVcpu ++ createVcpu ++ go 0 2 ++ startAp 0x1001 ++ go 1 2 ++ bothHalt) s ∧
    s.threads 0 = .finished true ∧ s.threads 1 = .scan true 0 true ∧
    (∀ w, ¬ s.Stranded w) ∧ ∃ acts' t, Run (fun s a t => s.step a = some t) s acts' t ∧
      t.gNvcpus = t.nvcpus ∧
      ∀ u < t.gNvcpus, t.threads u = .finished true ∨ t.threads u = .finished false := by
  have hexec : ∃ s ∈ exec (fun s a => if s.endsQuietly a then s.step a else none) (init 2)
      (createVcpu ++ createVcpu ++ go 0 2 ++ startAp 0x1001 ++ go 1 2 ++ bothHalt),
      s.threads 0 = .finished true ∧ s.threads 1 = .scan true 0 true := by decide +kernel
  obtain ⟨s, hs, hfirst, hsecond⟩ := hexec
  have hrun := run_guarded_of_exec hs
  exact ⟨s, hrun, hfirst, hsecond, shuts_down hrun hfirst⟩

/-- **The second vCPU still waits for its SIPI when the first one halts**: that finds all halted
and ends, and nothing can wake up the second any more. -/
theorem strands_waiting : ∃ s,
    Run (fun s a t => s.step a = some t) (init 2)
      (createVcpu ++ createVcpu ++ go 1 4 ++ go 0 5 ++ [exitOpen 0 .hlt] ++ go 0 4) s ∧
    s.threads 0 = .finished true ∧ s.Stranded 1 ∧
    s.step .main = none ∧ ∀ v < s.gNvcpus, ∀ c, s.step (.vcpu v c) = none := by
  have hexec : ∃ s ∈ exec step (init 2)
      (createVcpu ++ createVcpu ++ go 1 4 ++ go 0 5 ++ [exitOpen 0 .hlt] ++ go 0 4),
      s.threads 0 = .finished true ∧ s.threads 1 = .wait false ∧ s.Stranded 1 ∧ s.step .main = none ∧
        s.gNvcpus = 2 := by decide +kernel
  obtain ⟨s, hs, hfirst, hsecond, hstranded, hmain, hg⟩ := hexec
  refine ⟨s, (run_iff_exec step).2 hs, hfirst, hstranded, hmain, fun v hv c => ?_⟩
  rw [hg] at hv
  match v, hv with
  | 0, _ => cases c <;> simp [step, hfirst, threadStep, goOn, exitStep, injectStep]
  | 1, _ => cases c <;> simp [step, hsecond, threadStep, goOn, exitStep, injectStep, hstranded.2.1]

end Machine

end Ooows.Smp
