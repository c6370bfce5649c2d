import Ooows.Smp.Interrupts

/-!
# Ooows.Smp.Delivery

How an interrupt gets from the queue into a vCPU.

`checkAndSendInterrupt` tests the window of the vCPU that calls it, but the interrupt goes to
the vCPU of the redirection table.  When these are the same, the window is open
(`injects_through_window`).  And the entry is freed whatever `ioApicSendInterrupt` returns:
an interrupt that is taken from the queue is delivered as long as that does not fail
(`delivered_of_deliverable`).
-/

namespace Ooows.Smp

open Lib

/-! ## windows -/

/-- The thread has found its window open and has an interrupt to send. -/
def Place.Sending : Place → Prop
  | .dequeue | .send _ | .sendState _ _ _ | .sendHalted _ _ _ | .sendWake _ _ _
  | .sendInject _ _ _ => True
  | _ => False

/-- The thread may have injected an interrupt since its last exit. -/
def Place.Spent : Place → Prop
  | .sent _ | .run => True
  | _ => False

/-- An interrupt on its way. -/
structure Message where
  irq : UInt8
  dest : Nat
  vector : Nat
  deriving DecidableEq, Repr

/-- The thread holds the lock of the IOAPIC. -/
def Place.InLock : Place → Prop
  | .sendState _ _ _ | .sendHalted _ _ _ | .sendWake _ _ _ | .sendInject _ _ _ | .sent _ => True
  | _ => False

/-- The entry that the thread has taken from the queue and not yet sent. -/
def Place.held? : Place → Option UInt8
  | .send irq | .sendState irq _ _ | .sendHalted irq _ _ | .sendWake irq _ _
  | .sendInject irq _ _ => some irq
  | _ => none

/-- What the thread is sending, once it has looked for the destination. -/
def Place.message? : Place → Option Message
  | .sendState irq dest vector | .sendHalted irq dest vector | .sendWake irq dest vector
  | .sendInject irq dest vector => some ⟨irq, dest, vector⟩
  | _ => none

/-! After an exit a thread has nothing to send. -/

namespace Exit

variable (reason : Exit)

theorem next_not_sending : ¬ reason.next.Sending :=
  reason.next_cases id id id (fun _ => id) (fun _ => id) fun _ _ => id

theorem next_not_inLock : ¬ reason.next.InLock :=
  reason.next_cases id id id (fun _ => id) (fun _ => id) fun _ _ => id

theorem next_message? : reason.next.message? = none :=
  reason.next_cases rfl rfl rfl (fun _ => rfl) (fun _ => rfl) fun _ _ => rfl

theorem next_held? : reason.next.held? = none :=
  reason.next_cases rfl rfl rfl (fun _ => rfl) (fun _ => rfl) fun _ _ => rfl

theorem next_ne_sent (irq : UInt8) : reason.next ≠ .sent irq := by
  intro h
  exact reason.next_not_inLock (by rw [h]; trivial)

end Exit

/-- A vCPU takes an entry or frees it. -/
def Event.Handles (v : Nat) : Event → Prop
  | .dequeued w _ | .freed w _ => w = v
  | _ => False

/-- A vCPU has taken an entry, and that is the last it has done with entries. -/
def Holds (v : Nat) (irq : UInt8) (log : List Event) : Prop :=
  Latched (· = .dequeued v irq) (Event.Handles v) log

/-- And since then it was injected. -/
def Delivered (v : Nat) (irq : UInt8) (log : List Event) : Prop :=
  ∃ a b dest vector, log = a ++ .injected v dest (line irq) vector :: b ∧ Holds v irq a ∧
    ∀ e ∈ b, ¬ e.Handles v

/-- No entry is freed before it is delivered. -/
def FreedLast (log : List Event) : Event → Prop
  | .freed v irq => Delivered v irq log
  | _ => True

theorem Holds.concat {v : Nat} {irq : UInt8} {log : List Event} {e : Event} (h : Holds v irq log)
    (he : ¬ e.Handles v) : Holds v irq (log ++ [e]) :=
  latched_concat.2 (.inr ⟨h, he⟩)

theorem Delivered.concat {v : Nat} {irq : UInt8} {log : List Event} {e : Event}
    (h : Delivered v irq log) (he : ¬ e.Handles v) : Delivered v irq (log ++ [e]) := by
  obtain ⟨a, b, dest, vector, rfl, ha, hb⟩ := h
  refine ⟨a, b ++ [e], dest, vector, by simp, ha, fun e' he' => ?_⟩
  rcases List.mem_append.1 he' with hmem | hmem
  · exact hb e' hmem
  · rwa [List.mem_singleton.1 hmem]

namespace Machine

variable {s t : Machine} {v : Nat} {p : Place} {c : Choice}

/-- The window was open at the last exit, and is not used. -/
def WindowOpen (s : Machine) (v : Nat) : Prop := (s.vcpus v).ready = true ∧ (s.vcpus v).used = false

/-- What a thread knows of its window. -/
structure Window (c : Vcpu) (p : Place) : Prop where
  ready : p.Sending → c.ready = true
  used : ¬ p.Spent → c.used = true → c.foreign = true
  foreign : c.foreign = true → c.used = true

namespace Window

variable {c c' : Vcpu} {p q : Place}

/-- The thread goes on. -/
theorem goOn (h : Window c p) (hp : ¬ p.Spent) (hq : q.Sending → p.Sending) : Window c q :=
  ⟨fun hs => h.ready (hq hs), fun _ => h.used hp, h.foreign⟩

/-- The vCPU is written, but not its window. -/
theorem congr (h : Window c p) (hready : c'.ready = c.ready) (hused : c'.used = c.used)
    (hforeign : c'.foreign = c.foreign) : Window c' p :=
  ⟨fun hs => hready ▸ h.ready hs, fun hp hu => hforeign ▸ h.used hp (hused ▸ hu),
    fun hf => hused ▸ h.foreign (hforeign ▸ hf)⟩

end Window

/-- A write that leaves the windows as they are. -/
theorem window_update {vcpus : Nat → Vcpu} {x : Vcpu} {w u : Nat} {q : Place}
    (h : Window (vcpus u) q) (hready : x.ready = (vcpus w).ready) (hused : x.used = (vcpus w).used)
    (hforeign : x.foreign = (vcpus w).foreign) : Window (Function.update vcpus w x u) q :=
  h.congr (update_field Vcpu.ready hready) (update_field Vcpu.used hused)
    (update_field Vcpu.foreign hforeign)

/-- **One step of a thread**, seen from its own window. -/
theorem Moves.window_self (h : s.Moves v p c t) (hp : Window (s.vcpus v) p) :
    Window (t.vcpus v) (t.threads v) := by
  cases h with
  | start | allHalted | wake | sendState | sendHalted | sipi =>
    simp only [goto_vcpus, goto_threads, Function.update_self]
    split <;> exact hp.goOn id (by simp [Place.Sending])
  | scan | hope | enter | check | noRequest | dequeue | noEntry | send | noDest | noInject | redtbl =>
    simp only [goto_vcpus, goto_threads, setMutex_vcpus, setQueue_vcpus, emit_vcpus, setEntry_vcpus,
      Function.update_self]
    exact hp.goOn id (by simp [Place.Sending])
  | ready hready =>
    simp only [goto_vcpus, goto_threads, Function.update_self]
    exact ⟨fun _ => hready, fun _ => hp.used id, hp.foreign⟩
  | sent =>
    simp only [goto_threads, Function.update_self]
    exact ⟨False.elim, fun hspent => absurd trivial hspent, hp.foreign⟩
  | top | request | halt | eoi =>
    simp only [goto_vcpus, goto_threads, setVcpu_vcpus, emit_vcpus, Function.update_self]
    exact Window.congr (hp.goOn id False.elim) rfl rfl rfl
  | sendWake | sipiState | sipiEip | sipiDirty =>
    simp only [goto_vcpus, goto_threads, setVcpu_vcpus, Function.update_self]
    exact window_update (hp.goOn id (by simp [Place.Sending])) rfl rfl rfl
  | @inject irq dest vector _ =>
    simp only [goto_vcpus, goto_threads, setVcpu_vcpus, emit_vcpus, Function.update_self]
    refine ⟨False.elim, fun hspent => absurd trivial hspent, ?_⟩
    by_cases hv : v = dest
    · subst hv
      rw [Function.update_self]
      exact fun _ => rfl
    · rw [Function.update_of_ne hv]
      exact hp.foreign
  | exit =>
    simp only [goto_vcpus, goto_threads, setVcpu_vcpus, Function.update_self]
    exact ⟨fun hs => absurd hs (Exit.next_not_sending _), fun _ hused => absurd hused nofun,
      fun hforeign => absurd hforeign nofun⟩

/-- Seen from another window. -/
theorem Moves.window_other (h : s.Moves v p c t) {w : Nat} {q : Place} (hw : w ≠ v)
    (hq : Window (s.vcpus w) q) : Window (t.vcpus w) q := by
  cases h with
  | top | request | sendWake | halt | sipiState | sipiEip | sipiDirty | eoi =>
    simp only [goto_vcpus, setVcpu_vcpus, emit_vcpus]
    exact window_update hq rfl rfl rfl
  | exit =>
    simp only [goto_vcpus, setVcpu_vcpus, Function.update_of_ne hw]
    exact hq
  | @inject irq dest vector _ =>
    simp only [goto_vcpus, setVcpu_vcpus, emit_vcpus]
    by_cases hdest : w = dest
    · subst hdest
      rw [Function.update_self]
      exact ⟨hq.ready, fun _ _ => by simp [hw], fun _ => rfl⟩
    · rw [Function.update_of_ne hdest]
      exact hq
  | start | scan | allHalted | hope | wake | enter | check | ready | noRequest | dequeue | noEntry
  | send | noDest | sendState | sendHalted | noInject | sent | sipi | redtbl => exact hq

/-- The windows of all vCPUs. -/
structure Windows (s : Machine) : Prop where
  started : s.Started
  window : ∀ v, Window (s.vcpus v) (s.threads v)

theorem Windows.init (n : Nat) : (Machine.init n).Windows :=
  ⟨.init n, fun _ => ⟨False.elim, fun _ => id, id⟩⟩

theorem Windows.step (h : s.Windows) {a : Act} (ht : s.step a = some t) : t.Windows := by
  refine ⟨h.started.step ht, fun w => ?_⟩
  have hw := h.window w
  cases a with
  | main =>
    cases moves_of_mainStep ht with
    | create => exact hw
    | setUp _ hf => exact window_update hw (hf.ready _) (hf.used _) (hf.foreign _)
    | start hmain =>
      by_cases hid : w = s.gNvcpus - 1
      · subst hid
        rw [h.started.threads_id (by simp [hmain])] at hw
        simpa using hw.goOn id (q := .start) id
      · simpa [hid] using hw
  | irq irq =>
    obtain ⟨queue, n, rfl⟩ := setQueue_of_irq ht
    exact hw
  | vcpu v c =>
    have hmoves := moves_of_threadStep ht
    by_cases hwv : w = v
    · subst hwv
      exact hmoves.window_self hw
    · rw [hmoves.threads_of_ne hwv]
      exact hmoves.window_other hwv hw

/-- The line goes to the vCPU that sends it. -/
def ownLine (s : Machine) : Act → Bool
  | .vcpu v _ =>
    match s.threads v with
    | .send irq => s.dest irq == v
    | _ => true
  | _ => true

/-- Nobody has interrupted another vCPU, or is about to. -/
structure Own (s : Machine) : Prop where
  foreign : ∀ v, (s.vcpus v).foreign = false
  dest : ∀ v m, (s.threads v).message? = some m → m.dest = v

theorem Own.init (n : Nat) : (Machine.init n).Own := ⟨fun _ => rfl, nofun⟩

/-- A thread goes on, and no vCPU is marked. -/
theorem Own.goOn (h : s.Own) (hforeign : ∀ w, (t.vcpus w).foreign = (s.vcpus w).foreign)
    (hthreads : ∀ w, w ≠ v → t.threads w = s.threads w)
    (hdest : ∀ m, (t.threads v).message? = some m → m.dest = v) : t.Own := by
  refine ⟨fun w => (hforeign w).trans (h.foreign w), fun w m hm => ?_⟩
  by_cases hw : w = v
  · subst hw
    exact hdest m hm
  · exact h.dest w m (hthreads w hw ▸ hm)

/-- One step of a thread. -/
theorem Own.moves (h : s.Own) (hp : s.threads v = p) (hguard : ∀ irq, p = .send irq → s.dest irq = v)
    (hmoves : s.Moves v p c t) : t.Own := by
  have hthreads : ∀ w, w ≠ v → t.threads w = s.threads w := fun w hw => hmoves.threads_of_ne hw
  have hown : ∀ m, p.message? = some m → m.dest = v := fun m hm => h.dest v m (hp ▸ hm)
  cases hmoves with
  | send hmutex hdest =>
    refine h.goOn (fun _ => rfl) hthreads fun m hm => ?_
    simp only [goto_threads, Function.update_self] at hm
    cases hm
    exact hguard _ rfl
  | sendState =>
    refine h.goOn (fun _ => rfl) hthreads fun m hm => ?_
    simp only [goto_threads, Function.update_self] at hm
    split at hm
    next => cases hm
    next => exact hown m hm
  | sendHalted =>
    refine h.goOn (fun _ => rfl) hthreads fun m hm => ?_
    simp only [goto_threads, Function.update_self] at hm
    split at hm <;> exact hown m hm
  | sendWake =>
    refine h.goOn (fun _ => update_field Vcpu.foreign rfl) hthreads fun m hm => ?_
    simp only [goto_threads, Function.update_self] at hm
    exact hown m hm
  | @inject irq dest vector _ =>
    cases hown _ rfl
    refine h.goOn (fun _ => update_field Vcpu.foreign (by simp)) hthreads fun m hm => ?_
    simp only [goto_threads, Function.update_self] at hm
    cases hm
  | exit =>
    refine h.goOn (fun _ => update_field Vcpu.foreign (h.foreign v).symm) hthreads fun m hm => ?_
    simp only [goto_threads, Function.update_self, Exit.next_message?] at hm
    cases hm
  | top | request | halt | sipiState | sipiEip | sipiDirty | eoi =>
    refine h.goOn (fun _ => update_field Vcpu.foreign rfl) hthreads fun m hm => ?_
    simp only [goto_threads, Function.update_self] at hm
    cases hm
  | start | allHalted | wake | sipi =>
    refine h.goOn (fun _ => rfl) hthreads fun m hm => ?_
    simp only [goto_threads, Function.update_self] at hm
    split at hm <;> cases hm
  | scan | hope | enter | check | ready | noRequest | dequeue | noEntry | noDest | noInject | sent
  | redtbl =>
    refine h.goOn (fun _ => rfl) hthreads fun m hm => ?_
    simp only [goto_threads, Function.update_self] at hm
    cases hm

theorem Own.step (h : s.Own) {a : Act} (hguard : s.ownLine a) (ht : s.step a = some t) : t.Own := by
  cases a with
  | main =>
    cases moves_of_mainStep ht with
    | create => exact ⟨h.foreign, h.dest⟩
    | setUp _ hf =>
      exact ⟨fun w => (update_field Vcpu.foreign (hf.foreign _)).trans (h.foreign w), h.dest⟩
    | start =>
      exact h.goOn (fun _ => rfl) (fun w hw => Function.update_of_ne hw ..) (by simp [Place.message?])
  | irq irq =>
    obtain ⟨queue, n, rfl⟩ := setQueue_of_irq ht
    exact ⟨h.foreign, h.dest⟩
  | vcpu v c =>
    refine h.moves rfl (fun irq hirq => ?_) (moves_of_threadStep ht)
    simpa [ownLine, hirq] using hguard

/-- **Interrupts go through open windows**, as long as each is taken by the vCPU it is for.  And
in any run the window of a vCPU that injects an interrupt into itself is open if and only if
no other vCPU has injected one since its last exit. -/
theorem injects_through_window {n : Nat} {acts : List Act} :
    (Run (Guarded (fun s a => s.ownLine a) fun s a t => s.step a = some t) (init n) acts s →
      ∀ v irq dest vector, s.threads v = .sendInject irq dest vector → s.WindowOpen dest) ∧
    (Run (fun s a t => s.step a = some t) (init n) acts s →
      ∀ v irq vector, s.threads v = .sendInject irq v vector →
        (s.WindowOpen v ↔ (s.vcpus v).foreign = false)) := by
  have hself : Run (fun s a t => s.step a = some t) (init n) acts s →
      ∀ v irq vector, s.threads v = .sendInject irq v vector →
        (s.WindowOpen v ↔ (s.vcpus v).foreign = false) := by
    intro hrun v irq vector hplace
    have hwindow := (hrun.invariant (I := Windows) (fun _ _ _ h ht => h.step ht) (.init n)).window v
    rw [hplace] at hwindow
    have hready : (s.vcpus v).ready = true := hwindow.ready trivial
    have hused : (s.vcpus v).used = true ↔ (s.vcpus v).foreign = true :=
      ⟨hwindow.used id, hwindow.foreign⟩
    unfold WindowOpen
    rw [← Bool.not_eq_true, ← Bool.not_eq_true, hused]
    simp [hready]
  refine ⟨fun hrun v irq dest vector hplace => ?_, hself⟩
  have hown : s.Own := hrun.invariant (I := Own) (fun _ _ _ h ht => h.step ht.1 ht.2) (.init n)
  have hdest : dest = v := hown.dest v ⟨irq, dest, vector⟩ (by rw [hplace]; rfl)
  subst hdest
  exact (hself (hrun.mono fun _ _ _ ht => ht.2) _ irq vector hplace).2 (hown.foreign _)

/-- A vCPU takes an interrupt of its own. -/
theorem injects_through_window_own : ∃ s,
    Run (Guarded (fun s a => s.ownLine a) fun s a t => s.step a = some t) (init 1)
      (createVcpu ++ go 0 5 ++ [exitOpen 0 .handled, .irq 5] ++ go 0 7) s ∧
    s.threads 0 = .sendInject 5 0 0 ∧ s.WindowOpen 0 ∧ (s.vcpus 0).foreign = false := by
  have hexec : ∃ s ∈ exec (fun s a => if s.ownLine a then s.step a else none) (init 1)
      (createVcpu ++ go 0 5 ++ [exitOpen 0 .handled, .irq 5] ++ go 0 7),
      s.threads 0 = .sendInject 5 0 0 := by decide +kernel
  obtain ⟨s, hs, hplace⟩ := hexec
  have hrun := run_guarded_of_exec hs
  have hopen := injects_through_window.1 hrun 0 5 0 0 hplace
  exact ⟨s, hrun, hplace, hopen, (injects_through_window.2 (hrun.mono fun _ _ _ ht => ht.2)
    0 5 0 hplace).1 hopen⟩

/-- **The first vCPU interrupts the second one**, whose window is not open: it has never run. -/
theorem injects_closed_window : ∃ s,
    Run (fun s a t => s.step a = some t) (init 2)
      (createVcpu ++ createVcpu ++ go 0 2 ++ startAp 0x1001 ++ go 0 3 ++
        [exitOpen 0 (redtblWrite 5 0x10025)] ++ go 0 1 ++ [.irq 5] ++ go 0 7) s ∧
    s.threads 0 = .sendInject 5 1 0x25 ∧ (s.vcpus 1).ready = false ∧
    ∃ t ∈ s.step (.vcpu 0 (.ioctl true)), .injected 0 1 5 0x25 ∈ t.log := by
  have hexec : ∃ s ∈ exec step (init 2)
      (createVcpu ++ createVcpu ++ go 0 2 ++ startAp 0x1001 ++ go 0 3 ++
        [exitOpen 0 (redtblWrite 5 0x10025)] ++ go 0 1 ++ [.irq 5] ++ go 0 7),
      s.threads 0 = .sendInject 5 1 0x25 ∧ (s.vcpus 1).ready = false ∧
      ∃ t ∈ s.step (.vcpu 0 (.ioctl true)), .injected 0 1 5 0x25 ∈ t.log := by decide +kernel
  obtain ⟨s, hs, hplace, hready, hinject⟩ := hexec
  exact ⟨s, (run_iff_exec step).2 hs, hplace, hready, hinject⟩

/-! ## the lock of the IOAPIC -/

theorem inLock_of_message? {m : Message} (h : p.message? = some m) : p.InLock := by
  cases p with
  | sendState | sendHalted | sendWake | sendInject => trivial
  | _ => cases h

/-- What is sent is what the redirection table says: nobody writes this under the lock. -/
structure Addressed (s : Machine) : Prop where
  mutex : ∀ v, (s.threads v).InLock → s.ioapicMutex = some v
  entry : ∀ v m, (s.threads v).message? = some m →
    m.dest = s.dest m.irq ∧ m.vector = entryVector (s.irqRedirTable (line m.irq))

namespace Addressed

theorem init (n : Nat) : (Machine.init n).Addressed := ⟨nofun, nofun⟩

/-- A thread goes on; the lock and the table stay. -/
theorem goOn (h : s.Addressed) (hmutex : t.ioapicMutex = s.ioapicMutex)
    (htable : t.irqRedirTable = s.irqRedirTable) (hthreads : ∀ w, w ≠ v → t.threads w = s.threads w)
    (hlock : (t.threads v).InLock → (s.threads v).InLock)
    (hmessage : ∀ m, (t.threads v).message? = some m → (s.threads v).message? = some m) :
    t.Addressed := by
  refine ⟨fun w hw => ?_, fun w m hm => ?_⟩
  · rw [hmutex]
    by_cases hwv : w = v
    · subst hwv
      exact h.mutex w (hlock hw)
    · exact h.mutex w (hthreads w hwv ▸ hw)
  · unfold dest
    rw [htable]
    by_cases hwv : w = v
    · subst hwv
      exact h.entry w m (hmessage m hm)
    · exact h.entry w m (hthreads w hwv ▸ hm)

/-- A thread that is alone in the lock. -/
theorem alone (v : Nat) (hthreads : ∀ w, w ≠ v → ¬ (t.threads w).InLock)
    (hmutex : (t.threads v).InLock → t.ioapicMutex = some v)
    (hentry : ∀ m, (t.threads v).message? = some m →
      m.dest = t.dest m.irq ∧ m.vector = entryVector (t.irqRedirTable (line m.irq))) :
    t.Addressed := by
  refine ⟨fun w hw => ?_, fun w m hm => ?_⟩
  · by_cases hwv : w = v
    · subst hwv
      exact hmutex hw
    · exact absurd hw (hthreads w hwv)
  · by_cases hwv : w = v
    · subst hwv
      exact hentry m hm
    · exact absurd (inLock_of_message? hm) (hthreads w hwv)

theorem moves (h : s.Addressed) (hp : s.threads v = p) (hmoves : s.Moves v p c t) : t.Addressed := by
  have hthreads : ∀ w, w ≠ v → t.threads w = s.threads w := fun w hw => hmoves.threads_of_ne hw
  have hfree : s.ioapicMutex = none → ∀ w, w ≠ v → ¬ (t.threads w).InLock := by
    intro hnone w hw hlock
    rw [hthreads w hw] at hlock
    exact absurd ((h.mutex w hlock).symm.trans hnone) nofun
  cases hmoves with
  | send hmutex =>
    refine alone v (hfree hmutex) (fun _ => rfl) fun m hm => ?_
    simp only [goto_threads, Function.update_self] at hm
    cases hm
    exact ⟨rfl, rfl⟩
  | noDest hmutex =>
    refine alone v (hfree hmutex) (fun _ => rfl) fun m hm => ?_
    simp only [goto_threads, Function.update_self] at hm
    cases hm
  | sent =>
    have hmutex := h.mutex v (by rw [hp]; trivial)
    refine alone v (fun w hw hlock => ?_) (fun hlock => ?_) fun m hm => ?_
    · rw [hthreads w hw] at hlock
      exact hw (Option.some.inj ((h.mutex w hlock).symm.trans hmutex))
    · simp only [goto_threads, Function.update_self] at hlock
      exact hlock.elim
    · simp only [goto_threads, Function.update_self] at hm
      cases hm
  | redtbl hmutex =>
    refine alone v (hfree hmutex) (fun hlock => ?_) fun m hm => ?_
    · simp only [goto_threads, Function.update_self] at hlock
      exact hlock.elim
    · simp only [goto_threads, Function.update_self] at hm
      cases hm
  | exit =>
    refine h.goOn rfl rfl hthreads ?_ ?_
    · simp [Exit.next_not_inLock]
    · simp [Exit.next_message?]
  | sendState | sendHalted =>
    refine h.goOn rfl rfl hthreads ?_ ?_ <;> simp only [goto_threads, Function.update_self, hp]
    · exact fun _ => trivial
    · intro m hm
      split at hm
      next => first | exact hm | cases hm
      next => exact hm
  | sendWake | inject | noInject =>
    refine h.goOn rfl rfl hthreads ?_ ?_ <;> simp only [goto_threads, Function.update_self, hp]
    · exact fun _ => trivial
    · first | exact fun _ => id | exact nofun
  | start | allHalted | wake | sipi =>
    refine h.goOn rfl rfl hthreads ?_ ?_ <;> simp only [goto_threads, Function.update_self]
    · intro hlock
      split at hlock <;> exact hlock.elim
    · intro m hm
      split at hm <;> cases hm
  | scan | hope | enter | top | check | ready | request | noRequest | dequeue | noEntry | halt
  | sipiState | sipiEip | sipiDirty | eoi =>
    refine h.goOn rfl rfl hthreads ?_ ?_ <;> simp only [goto_threads, Function.update_self]
    · exact False.elim
    · exact nofun

theorem step (h : s.Addressed) {a : Act} (ht : s.step a = some t) : t.Addressed := by
  cases a with
  | main =>
    cases moves_of_mainStep ht with
    | create | setUp => exact ⟨h.mutex, h.entry⟩
    | start =>
      refine h.goOn rfl rfl (fun w hw => Function.update_of_ne hw ..) ?_ ?_
      · simp [Place.InLock]
      · simp [Place.message?]
  | irq irq =>
    obtain ⟨queue, n, rfl⟩ := setQueue_of_irq ht
    exact ⟨h.mutex, h.entry⟩
  | vcpu v c => exact h.moves rfl (moves_of_threadStep ht)

end Addressed

/-! ## every entry -/

/-- The destination can take the interrupt, at each step that finds out. -/
def deliverable (s : Machine) : Act → Bool
  | .vcpu v c =>
    match s.threads v with
    | .send irq => s.hasDest irq
    | .sendState _ dest _ => (s.vcpus dest).state != .notStarted
    | .sendInject irq dest _ => !(s.vcpus dest).isr.getLsbD (line irq) && c == .ioctl true
    | _ => true
  | _ => true

/-- What has become of the entries. -/
structure Delivers (s : Machine) : Prop where
  freed : Justified FreedLast s.log
  held : ∀ v irq, (s.threads v).held? = some irq → Holds v irq s.log
  sent : ∀ v irq, s.threads v = .sent irq → Delivered v irq s.log

namespace Delivers

theorem init (n : Nat) : (Machine.init n).Delivers := ⟨justified_nil, nofun, nofun⟩

/-- A thread goes on with what it has. -/
theorem goOn (h : s.Delivers) (hlog : t.log = s.log) (hthreads : ∀ w, w ≠ v → t.threads w = s.threads w)
    (hheld : ∀ irq, (t.threads v).held? = some irq → (s.threads v).held? = some irq)
    (hsent : ∀ irq, t.threads v ≠ .sent irq) : t.Delivers := by
  refine ⟨hlog ▸ h.freed, fun w irq hw => ?_, fun w irq hw => ?_⟩ <;> rw [hlog] <;>
    by_cases hwv : w = v
  · subst hwv
    exact h.held w irq (hheld irq hw)
  · exact h.held w irq (hthreads w hwv ▸ hw)
  · subst hwv
    exact absurd hw (hsent irq)
  · exact h.sent w irq (hthreads w hwv ▸ hw)

/-- A thread does something that is recorded. -/
theorem emit (h : s.Delivers) {e : Event} (hlog : t.log = s.log ++ [e])
    (hthreads : ∀ w, w ≠ v → t.threads w = s.threads w) (he : ∀ w, w ≠ v → ¬ e.Handles w)
    (hfreed : FreedLast s.log e)
    (hheld : ∀ irq, (t.threads v).held? = some irq → Holds v irq (s.log ++ [e]))
    (hsent : ∀ irq, t.threads v = .sent irq → Delivered v irq (s.log ++ [e])) : t.Delivers := by
  refine ⟨hlog ▸ h.freed.concat hfreed, fun w irq hw => ?_, fun w irq hw => ?_⟩ <;> rw [hlog] <;>
    by_cases hwv : w = v
  · subst hwv
    exact hheld irq hw
  · exact (h.held w irq (hthreads w hwv ▸ hw)).concat (he w hwv)
  · subst hwv
    exact hsent irq hw
  · exact (h.sent w irq (hthreads w hwv ▸ hw)).concat (he w hwv)

/-- **One step of a thread.** -/
theorem moves (h : s.Delivers) (hp : s.threads v = p) (hguard : s.deliverable (.vcpu v c))
    (hmoves : s.Moves v p c t) : t.Delivers := by
  have hthreads : ∀ w, w ≠ v → t.threads w = s.threads w := fun w hw => hmoves.threads_of_ne hw
  simp only [deliverable, hp] at hguard
  cases hmoves with
  | dequeue =>
    refine h.emit rfl hthreads (fun w hw he => hw he.symm) trivial ?_ ?_ <;>
      simp only [goto_threads, Function.update_self]
    · intro irq hirq
      cases hirq
      exact latched_concat.2 (.inl rfl)
    · exact nofun
  | @inject irq dest vector hisr =>
    have hholds : Holds v irq s.log := h.held v irq (by rw [hp]; rfl)
    refine h.emit rfl hthreads (fun _ _ => id) trivial ?_ ?_ <;>
      simp only [goto_threads, Function.update_self]
    · exact nofun
    · intro irq' hirq
      cases hirq
      exact ⟨s.log, [], dest, vector, rfl, hholds, nofun⟩
  | @sent irq =>
    have hdelivered : Delivered v irq s.log := h.sent v irq hp
    refine h.emit rfl hthreads (fun w hw he => hw he.symm) hdelivered ?_ ?_ <;>
      simp only [goto_threads, Function.update_self] <;> exact nofun
  | eoi =>
    refine h.emit rfl hthreads (fun _ _ => id) trivial ?_ ?_ <;>
      simp only [goto_threads, Function.update_self] <;> exact nofun
  | noDest hmutex hdest => simp [hdest] at hguard
  | noInject hfails =>
    rcases hfails with hisr | rfl
    · simp [hisr] at hguard
    · simp at hguard
  | @sendState irq dest vector =>
    have hstate : ¬ (s.vcpus dest).state = .notStarted := by simpa using hguard
    refine h.goOn rfl hthreads ?_ ?_ <;> simp only [goto_threads, Function.update_self, hp, if_neg hstate]
    · exact fun _ => id
    · exact nofun
  | sendHalted =>
    refine h.goOn rfl hthreads ?_ ?_ <;> simp only [goto_threads, Function.update_self, hp]
    · split <;> exact fun _ => id
    · split <;> exact nofun
  | send | sendWake =>
    refine h.goOn rfl hthreads ?_ ?_ <;> simp only [goto_threads, Function.update_self, hp]
    · exact fun _ => id
    · exact nofun
  | exit =>
    refine h.goOn rfl hthreads ?_ ?_ <;> simp only [goto_threads, Function.update_self]
    · simp [Exit.next_held?]
    · exact Exit.next_ne_sent _
  | start | allHalted | wake | sipi =>
    refine h.goOn rfl hthreads ?_ ?_ <;> simp only [goto_threads, Function.update_self]
    · split <;> exact nofun
    · split <;> exact nofun
  | scan | hope | enter | top | check | ready | request | noRequest | noEntry | halt | sipiState
  | sipiEip | sipiDirty | redtbl =>
    refine h.goOn rfl hthreads ?_ ?_ <;> simp only [goto_threads, Function.update_self] <;> exact nofun

theorem step (h : s.Delivers) {a : Act} (hguard : s.deliverable a) (ht : s.step a = some t) :
    t.Delivers := by
  cases a with
  | main =>
    cases moves_of_mainStep ht with
    | create | setUp => exact ⟨h.freed, h.held, h.sent⟩
    | start =>
      refine h.goOn rfl (fun w hw => Function.update_of_ne hw ..) ?_ ?_
      · simp [Place.held?]
      · simp
  | irq irq =>
    obtain ⟨queue, n, rfl⟩ := setQueue_of_irq ht
    exact ⟨h.freed, h.held, h.sent⟩
  | vcpu v c => exact h.moves rfl hguard (moves_of_threadStep ht)

end Delivers

/-- **Interrupts taken from the queue are delivered**, as long as their destinations can take
them: before an entry is freed, the vCPU that took it has injected its line.  And in every run
an interrupt is injected into the vCPU that its line is redirected to. -/
theorem delivered_of_deliverable {n : Nat} {acts : List Act} :
    (Run (Guarded (fun s a => s.deliverable a) fun s a t => s.step a = some t) (init n) acts s →
      ∀ a b v irq, s.log = a ++ .freed v irq :: b → ∃ a₁ a₂ a₃ dest vector,
        a = a₁ ++ .dequeued v irq :: (a₂ ++ .injected v dest (line irq) vector :: a₃) ∧
        ∀ e ∈ a₂ ++ a₃, ¬ e.Handles v) ∧
    (Run (fun s a t => s.step a = some t) (init n) acts s →
      ∀ v irq dest vector, s.threads v = .sendInject irq dest vector →
        dest = s.dest irq ∧ vector = entryVector (s.irqRedirTable (line irq))) := by
  refine ⟨fun hrun a b v irq hlog => ?_, fun hrun v irq dest vector hplace => ?_⟩
  · have hinv : s.Delivers :=
      hrun.invariant (I := Delivers) (fun _ _ _ h ht => h.step ht.1 ht.2) (.init n)
    obtain ⟨a', a₃, dest, vector, rfl, ⟨a₁, e, a₂, rfl, rfl, ha₂⟩, ha₃⟩ := hinv.freed a _ b hlog
    refine ⟨a₁, a₂, a₃, dest, vector, by simp, fun e he => ?_⟩
    rcases List.mem_append.1 he with hmem | hmem
    · exact ha₂ e hmem
    · exact ha₃ e hmem
  · have hinv : s.Addressed :=
      hrun.invariant (I := Addressed) (fun _ _ _ h ht => h.step ht) (.init n)
    exact hinv.entry v ⟨irq, dest, vector⟩ (by rw [hplace]; rfl)

/-- An interrupt is delivered. -/
theorem delivered_of_deliverable_once : ∃ s,
    Run (Guarded (fun s a => s.deliverable a) fun s a t => s.step a = some t) (init 1)
      (createVcpu ++ go 0 5 ++ [exitOpen 0 .handled] ++ deliver 0 5) s ∧
    s.log = [.dequeued 0 5, .injected 0 0 5 0] ++ [.freed 0 5] ∧
    ∃ a₁ a₂ a₃ dest vector, [Event.dequeued 0 5, .injected 0 0 5 0] =
        a₁ ++ .dequeued 0 5 :: (a₂ ++ .injected 0 dest (line 5) vector :: a₃) ∧
      ∀ e ∈ a₂ ++ a₃, ¬ e.Handles 0 := by
  have hexec : ∃ s ∈ exec (fun s a => if s.deliverable a then s.step a else none) (init 1)
      (createVcpu ++ go 0 5 ++ [exitOpen 0 .handled] ++ deliver 0 5),
      s.log = [.dequeued 0 5, .injected 0 0 5 0] ++ [.freed 0 5] := by decide +kernel
  obtain ⟨s, hs, hlog⟩ := hexec
  have hrun := run_guarded_of_exec hs
  exact ⟨s, hrun, hlog, delivered_of_deliverable.1 hrun _ [] 0 5 hlog⟩

/-- **The line is raised again before the guest has ended it**: the second entry is taken from
the queue and freed, and nothing is injected. -/
theorem freed_undelivered : ∃ s,
    Run (fun s a t => s.step a = some t) (init 1)
      (createVcpu ++ go 0 5 ++ [exitOpen 0 .handled] ++ deliver 0 5 ++ [exitOpen 0 .handled] ++
        deliver 0 5) s ∧
    s.log = [.dequeued 0 5, .injected 0 0 5 0, .freed 0 5, .dequeued 0 5, .freed 0 5] ∧
    s.interruptQueue = [] := by
  have hexec : ∃ s ∈ exec step (init 1)
      (createVcpu ++ go 0 5 ++ [exitOpen 0 .handled] ++ deliver 0 5 ++ [exitOpen 0 .handled] ++
        deliver 0 5),
      s.log = [.dequeued 0 5, .injected 0 0 5 0, .freed 0 5, .dequeued 0 5, .freed 0 5] ∧
      s.interruptQueue = [] := by decide +kernel
  obtain ⟨s, hs, hlog, hqueue⟩ := hexec
  exact ⟨s, (run_iff_exec step).2 hs, hlog, hqueue⟩

end Machine

end Ooows.Smp
