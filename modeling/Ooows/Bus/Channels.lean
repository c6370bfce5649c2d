import Mathlib.Data.List.Basic
import Mathlib.Logic.Function.Basic
import Ooows.Lib.Run

/-!
# Ooows.Bus.Channels

The processes behind the devices: `channelForDevice` and `instantiateDevice`, run by the
threads of the vCPUs while `main` still creates vCPUs.

The mutex of the bus is held by one thread at a time, but `g_nvcpus` is not under it, and
every loop of `instantiateDevice` reads it anew.  A device that is used before all vCPUs
are there has no channel for the later ones: each of them starts it again, and the channels
of the earlier ones are replaced.  When devices are started only with all vCPUs created,
each is started once and its channels stay (`instantiated_once`).
-/

namespace Ooows.Bus

open Lib

/-! ## the code -/

/-- Where the thread is that holds `bus_access_mutex`. -/
inductive Place
  /-- `channelForDeviceUnlocked` reads `channel_fd[vcpu->id]`. -/
  | check
  /-- The loop of `socketpair`. -/
  | pairs (i : Nat) (sv : Nat → Nat × Nat)
  | fork (sv : Nat → Nat × Nat)
  /-- The handshake. -/
  | recv (sv : Nat → Nat × Nat)
  /-- The loop that fills `response.fds`. -/
  | response (i : Nat) (sv : Nat → Nat × Nat)
  | send (sv : Nat → Nat × Nat)
  /-- The loop that closes the device ends. -/
  | close (i : Nat) (sv : Nat → Nat × Nat)
  /-- The loop that fills `channel_fd`. -/
  | channels (i : Nat) (sv : Nat → Nat × Nat)
  /-- The loop behind `failed`. -/
  | failed (i : Nat) (sv : Nat → Nat × Nat)

def Place.isCheck : Place → Bool
  | .check => true
  | _ => false

/-- The VMM with some device nodes. -/
structure Vmm (δ : Type) where
  /-- How many vCPUs `main` is to create. -/
  nvcpus : Nat
  gNvcpus : Nat
  /-- How many threads there are. -/
  started : Nat
  /-- The open descriptors. -/
  fds : List Nat
  channelFd : δ → Nat → Nat
  /-- How often a device was instantiated. -/
  instances : δ → Nat
  /-- `bus_access_mutex`: the thread, its device and place. -/
  holder : Option (Nat × δ × Place)

inductive Move (δ : Type)
  /-- `main` raises `g_nvcpus` in `createVcpu`. -/
  | createVcpu
  /-- `main` starts the thread of the vCPU. -/
  | startThread
  /-- A thread takes the mutex for a device. -/
  | access (v : Nat) (d : δ)
  /-- The holder goes on. -/
  | next
  /-- Its `socketpair` returns these. -/
  | socketpair (vmmEnd deviceEnd : Nat)
  /-- Its system call fails, or the handshake is wrong. -/
  | fails

namespace Vmm

variable {δ : Type} [DecidableEq δ]

def init (nvcpus : Nat) (fds : List Nat) : Vmm δ where
  nvcpus := nvcpus
  gNvcpus := 0
  started := 0
  fds := fds
  channelFd _ _ := 0
  instances _ := 0
  holder := none

/-- The holder goes on, from its place. -/
def next (s : Vmm δ) (v : Nat) (d : δ) : Place → Option (Vmm δ)
  | .check =>
    if s.channelFd d v ≠ 0 then some { s with holder := none }
    else some { s with holder := some (v, d, .pairs 0 fun _ => (0, 0)) }
  | .pairs i sv =>
    if i < s.gNvcpus then none else some { s with holder := some (v, d, .fork sv) }
  | .fork sv => some { s with holder := some (v, d, .recv sv) }
  | .recv sv => some { s with holder := some (v, d, .response 0 sv) }
  | .response i sv =>
    if i < s.gNvcpus then some { s with holder := some (v, d, .response (i + 1) sv) }
    else some { s with holder := some (v, d, .send sv) }
  | .send sv => some { s with holder := some (v, d, .close 0 sv) }
  | .close i sv =>
    if i < s.gNvcpus then
      some { s with fds := s.fds.erase (sv i).2, holder := some (v, d, .close (i + 1) sv) }
    else some { s with holder := some (v, d, .channels 0 sv) }
  | .channels i sv =>
    if i < s.gNvcpus then
      some { s with
        channelFd := Function.update s.channelFd d (Function.update (s.channelFd d) i (sv i).1)
        holder := some (v, d, .channels (i + 1) sv) }
    else
      some { s with
        instances := Function.update s.instances d (s.instances d + 1), holder := none }
  | .failed i sv =>
    if i < s.gNvcpus then
      some { s with fds := s.fds.erase (sv i).1, holder := some (v, d, .failed (i + 1) sv) }
    else some { s with holder := none }

def step (s : Vmm δ) : Move δ → Option (Vmm δ)
  | .createVcpu =>
    if s.gNvcpus < s.nvcpus ∧ s.started = s.gNvcpus then some { s with gNvcpus := s.gNvcpus + 1 }
    else none
  | .startThread =>
    if s.started < s.gNvcpus then some { s with started := s.started + 1 } else none
  | .access v d =>
    if v < s.started ∧ s.holder.isNone then some { s with holder := some (v, d, .check) } else none
  | .next => s.holder.bind fun h => s.next h.1 h.2.1 h.2.2
  | .socketpair a b =>
    match s.holder with
    | some (v, d, .pairs i sv) =>
      -- new descriptors are none of the open ones
      if i < s.gNvcpus ∧ a ∉ s.fds ∧ b ∉ s.fds ∧ a ≠ b then
        some { s with
          fds := a :: b :: s.fds
          holder := some (v, d, .pairs (i + 1) (Function.update sv i (a, b))) }
      else none
    | _ => none
  | .fails =>
    match s.holder with
    | some (_, _, .pairs i _) => if i < s.gNvcpus then some { s with holder := none } else none
    | some (v, d, .recv sv) => some { s with holder := some (v, d, .failed 0 sv) }
    | some (v, d, .send sv) => some { s with holder := some (v, d, .failed 0 sv) }
    | _ => none

/-- All vCPUs are created when a device is to be started. -/
def AllCreated (s : Vmm δ) : Move δ → Prop
  | .next => ∀ h ∈ s.holder, h.2.2.isCheck → s.channelFd h.2.1 h.1 = 0 → s.gNvcpus = s.nvcpus
  | _ => True

instance (s : Vmm δ) : (m : Move δ) → Decidable (s.AllCreated m)
  | .next => inferInstanceAs (Decidable (∀ h ∈ s.holder, _))
  | .createVcpu | .startThread | .access _ _ | .socketpair _ _ | .fails =>
    inferInstanceAs (Decidable True)

/-! ## the invariant -/

/-- A device that was not started. -/
def Fresh (s : Vmm δ) (d : δ) : Prop := s.instances d = 0 ∧ ∀ i, s.channelFd d i = 0

/-- A device that was started, with a channel for each vCPU. -/
def Live (s : Vmm δ) (d : δ) : Prop :=
  s.instances d = 1 ∧ ∀ i < s.nvcpus, s.channelFd d i ≠ 0

/-- Both ends of some first pairs are there. -/
def Paired (n : Nat) (sv : Nat → Nat × Nat) : Prop := ∀ i < n, (sv i).1 ≠ 0 ∧ (sv i).2 ≠ 0

/-- What holds of the device that is being started. -/
def Starting (s : Vmm δ) (d : δ) : Place → Prop
  | .check => s.Fresh d ∨ s.Live d
  | .pairs i sv => s.Fresh d ∧ Paired i sv
  | .channels i sv => s.instances d = 0 ∧ Paired s.nvcpus sv ∧ (∀ j < i, s.channelFd d j = (sv j).1) ∧
      ∀ j, i ≤ j → s.channelFd d j = 0
  | .fork sv | .recv sv | .response _ sv | .send sv | .close _ sv | .failed _ sv =>
    s.Fresh d ∧ Paired s.nvcpus sv

structure Ok (s : Vmm δ) : Prop where
  created : s.gNvcpus ≤ s.nvcpus
  threads : s.started ≤ s.gNvcpus
  /-- Zero is the standard input's. -/
  zero : 0 ∈ s.fds
  /-- The devices that nobody is about to start. -/
  settled : ∀ d, (∀ v p, s.holder ≠ some (v, d, p)) → s.Fresh d ∨ s.Live d
  holder : ∀ v d p, s.holder = some (v, d, p) → v < s.nvcpus ∧ s.Starting d p ∧
    (p ≠ .check → s.gNvcpus = s.nvcpus)

namespace Ok

variable {s : Vmm δ} {v : Nat} {d : δ} {p p' : Place} {fds : List Nat}

omit [DecidableEq δ] in
theorem init (n : Nat) (hzero : 0 ∈ fds) : (Vmm.init n fds : Vmm δ).Ok where
  created := Nat.zero_le _
  threads := Nat.le_refl _
  zero := hzero
  settled _ _ := .inl ⟨rfl, fun _ => rfl⟩
  holder := nofun

omit [DecidableEq δ] in
/-- The holder goes on with the device as it is. -/
theorem goOn (h : s.Ok) (hold : s.holder = some (v, d, p)) (hzero : 0 ∈ fds)
    (hstart : s.Starting d p') (hcreated : s.gNvcpus = s.nvcpus) :
    Ok { s with fds := fds, holder := some (v, d, p') } where
  created := h.created
  threads := h.threads
  zero := hzero
  settled d' hd' := h.settled d' fun w q hq => by
    cases hold.symm.trans hq
    exact hd' v p' rfl
  holder := by
    rintro _ _ _ ⟨⟩
    exact ⟨(h.holder v d p hold).1, hstart, fun _ => hcreated⟩

omit [DecidableEq δ] in
/-- The holder gives the mutex back. -/
theorem release (h : s.Ok) (hold : s.holder = some (v, d, p)) (hd : s.Fresh d ∨ s.Live d) :
    Ok { s with holder := none } where
  created := h.created
  threads := h.threads
  zero := h.zero
  settled d' _ := by
    by_cases heq : d' = d
    · exact heq ▸ hd
    · refine h.settled d' fun w q hq => heq ?_
      cases hold.symm.trans hq
      rfl
  holder := nofun

/-- A channel is written. -/
theorem channel (h : s.Ok) {i : Nat} {sv : Nat → Nat × Nat}
    (hold : s.holder = some (v, d, .channels i sv)) :
    Ok { s with
      channelFd := Function.update s.channelFd d (Function.update (s.channelFd d) i (sv i).1)
      holder := some (v, d, .channels (i + 1) sv) } := by
  obtain ⟨hv, ⟨hinstances, hpaired, hbelow, habove⟩, hcreated⟩ := h.holder v d _ hold
  refine ⟨h.created, h.threads, h.zero, fun d' hd' => ?_, ?_⟩
  · have hne : d' ≠ d := by
      rintro rfl
      exact hd' v _ rfl
    have hold' : s.Fresh d' ∨ s.Live d' := h.settled d' fun w q hq => by
      cases hold.symm.trans hq
      exact hne rfl
    simpa [Fresh, Live, Function.update_of_ne hne] using hold'
  · rintro _ _ _ ⟨⟩
    refine ⟨hv, ⟨hinstances, hpaired, fun j hj => ?_, fun j hj => ?_⟩,
      fun _ => hcreated nofun⟩
    · by_cases hji : j = i
      · simp [hji]
      · simpa [Function.update_of_ne hji] using hbelow j (by omega)
    · simpa [Function.update_of_ne (show j ≠ i by omega)] using habove j (by omega)

/-- The device is started. -/
theorem started (h : s.Ok) {i : Nat} {sv : Nat → Nat × Nat}
    (hold : s.holder = some (v, d, .channels i sv)) (hi : s.gNvcpus ≤ i) :
    Ok { s with
      instances := Function.update s.instances d (s.instances d + 1), holder := none } := by
  obtain ⟨hv, ⟨hinstances, hpaired, hbelow, habove⟩, hcreated⟩ := h.holder v d _ hold
  refine ⟨h.created, h.threads, h.zero, fun d' _ => ?_, nofun⟩
  by_cases heq : d' = d
  · subst heq
    refine .inr ⟨by simp [hinstances], fun j hj => ?_⟩
    have hlt : j < i := Nat.lt_of_lt_of_le hj (hcreated nofun ▸ hi)
    exact fun hzero => (hpaired j hj).1 ((hbelow j hlt).symm.trans hzero)
  · have hold' : s.Fresh d' ∨ s.Live d' := h.settled d' fun w q hq => by
      cases hold.symm.trans hq
      exact heq rfl
    simpa [Fresh, Live, Function.update_of_ne heq] using hold'

/-- **The holder goes on**, from each of its places. -/
theorem next {t : Vmm δ} (h : s.Ok) (hold : s.holder = some (v, d, p)) (hguard : s.AllCreated .next)
    (ht : s.next v d p = some t) : t.Ok := by
  obtain ⟨hv, hstart, hcreated⟩ := h.holder v d p hold
  cases p with
  | check =>
    simp only [Vmm.next] at ht
    split at ht
    next => cases ht; exact h.release hold hstart
    next hchannel =>
      cases ht
      have hzero : s.channelFd d v = 0 := by simpa using hchannel
      have hfresh : s.Fresh d := hstart.resolve_right fun hlive => hlive.2 v hv hzero
      exact h.goOn hold h.zero ⟨hfresh, nofun⟩ (hguard _ hold rfl hzero)
  | pairs i sv =>
    simp only [Vmm.next] at ht
    split at ht
    next => cases ht
    next hi =>
      cases ht
      have hn : s.gNvcpus = s.nvcpus := hcreated nofun
      exact h.goOn hold h.zero ⟨hstart.1, fun j hj => hstart.2 j (by omega)⟩ hn
  | fork sv | recv sv | send sv =>
    cases ht
    exact h.goOn hold h.zero hstart (hcreated nofun)
  | response i sv =>
    simp only [Vmm.next] at ht
    split at ht <;> cases ht <;> exact h.goOn hold h.zero hstart (hcreated nofun)
  | close i sv =>
    simp only [Vmm.next] at ht
    split at ht
    next hi =>
      cases ht
      have hne := (hstart.2 i (Nat.lt_of_lt_of_le hi h.created)).2
      exact h.goOn hold ((List.mem_erase_of_ne hne.symm).2 h.zero) hstart (hcreated nofun)
    next =>
      cases ht
      obtain ⟨⟨hinstances, hchannels⟩, hpaired⟩ := hstart
      exact h.goOn hold h.zero ⟨hinstances, hpaired, nofun, fun j _ => hchannels j⟩ (hcreated nofun)
  | channels i sv =>
    simp only [Vmm.next] at ht
    split at ht
    next => cases ht; exact h.channel hold
    next hi => cases ht; exact h.started hold (Nat.le_of_not_lt hi)
  | failed i sv =>
    simp only [Vmm.next] at ht
    split at ht
    next hi =>
      cases ht
      have hne := (hstart.2 i (Nat.lt_of_lt_of_le hi h.created)).1
      exact h.goOn hold ((List.mem_erase_of_ne hne.symm).2 h.zero) hstart (hcreated nofun)
    next => cases ht; exact h.release hold (.inl hstart.1)

/-- **One step.** -/
theorem step {t : Vmm δ} {m : Move δ} (h : s.Ok) (hguard : s.AllCreated m)
    (ht : s.step m = some t) : t.Ok := by
  cases m with
  | createVcpu =>
    simp only [Vmm.step] at ht
    split at ht
    next hlt =>
      cases ht
      refine ⟨hlt.1, by simp only; omega, h.zero, h.settled, fun v d p hold => ?_⟩
      obtain ⟨hv, hstart, hcreated⟩ := h.holder v d p hold
      exact ⟨hv, hstart, fun hp => absurd (hcreated hp) (by omega)⟩
    next => cases ht
  | startThread =>
    simp only [Vmm.step] at ht
    split at ht
    next hlt => cases ht; exact { h with threads := hlt }
    next => cases ht
  | access v d =>
    simp only [Vmm.step] at ht
    split at ht
    next hfree =>
      cases ht
      have hnone : s.holder = none := by simpa using hfree.2
      have hsettled : ∀ d, s.Fresh d ∨ s.Live d := fun d => h.settled d (by simp [hnone])
      refine ⟨h.created, h.threads, h.zero, fun d _ => hsettled d, ?_⟩
      rintro _ _ _ ⟨⟩
      have := h.threads
      have := h.created
      exact ⟨by simp only; omega, hsettled d, fun hp => absurd rfl hp⟩
    next => cases ht
  | next =>
    obtain ⟨⟨v, d, p⟩, hold, ht⟩ := Option.bind_eq_some_iff.1 ht
    exact h.next hold hguard ht
  | socketpair a b =>
    simp only [Vmm.step] at ht
    split at ht
    next v d i sv hold =>
      split at ht
      next hnew =>
        cases ht
        obtain ⟨hv, ⟨hfresh, hpaired⟩, hcreated⟩ := h.holder v d _ hold
        obtain ⟨hi, ha, hb, -⟩ := hnew
        have hzero : ∀ {c}, c ∉ s.fds → c ≠ 0 := fun hc h0 => hc (h0 ▸ h.zero)
        refine h.goOn hold (by simp [h.zero]) ⟨hfresh, fun j hj => ?_⟩ (hcreated nofun)
        by_cases hji : j = i
        · simp [hji, hzero ha, hzero hb]
        · simpa [Function.update_of_ne hji] using hpaired j (by omega)
      next => cases ht
    next => cases ht
  | fails =>
    simp only [Vmm.step] at ht
    split at ht
    next v d i sv hold =>
      split at ht
      next => cases ht; exact h.release hold (.inl (h.holder v d _ hold).2.1.1)
      next => cases ht
    next v d sv hold =>
      cases ht
      obtain ⟨hv, hstart, hcreated⟩ := h.holder v d _ hold
      exact h.goOn hold h.zero hstart (hcreated nofun)
    next v d sv hold =>
      cases ht
      obtain ⟨hv, hstart, hcreated⟩ := h.holder v d _ hold
      exact h.goOn hold h.zero hstart (hcreated nofun)
    next => cases ht

omit [DecidableEq δ] in
theorem instances_le (h : s.Ok) (d : δ) : s.instances d ≤ 1 := by
  have hsettled : s.Fresh d ∨ s.Live d → s.instances d ≤ 1 := by
    rintro (hfresh | hlive)
    · exact hfresh.1 ▸ Nat.zero_le 1
    · exact Nat.le_of_eq hlive.1
  by_cases hheld : ∃ v p, s.holder = some (v, d, p)
  · obtain ⟨v, p, hold⟩ := hheld
    have hstart := (h.holder v d p hold).2.1
    cases p with
    | check => exact hsettled hstart
    | channels i sv => exact hstart.1 ▸ Nat.zero_le 1
    | pairs i sv | fork sv | recv sv | response i sv | send sv | close i sv | failed i sv =>
      exact hsettled (.inl hstart.1)
  · simp only [not_exists] at hheld
    exact hsettled (h.settled d hheld)

end Ok

/-! ## runs -/

variable {s t : Vmm δ}

/-- Only the loop of `channel_fd` writes channels. -/
theorem step_channelFd {m : Move δ} (ht : s.step m = some t) : t.channelFd = s.channelFd ∨
    ∃ v d i sv, s.holder = some (v, d, .channels i sv) ∧
      t.channelFd = Function.update s.channelFd d (Function.update (s.channelFd d) i (sv i).1) := by
  cases m with
  | next =>
    obtain ⟨⟨v, d, p⟩, hold, ht⟩ := Option.bind_eq_some_iff.1 ht
    cases p with
    | channels i sv =>
      simp only [next] at ht
      split at ht
      next => cases ht; exact .inr ⟨v, d, i, sv, hold, rfl⟩
      next => cases ht; exact .inl rfl
    | fork sv | recv sv | send sv => cases ht; exact .inl rfl
    | check | pairs i sv | response i sv | close i sv | failed i sv =>
      simp only [next] at ht
      split at ht <;> cases ht <;> exact .inl rfl
  | createVcpu | startThread | access v d =>
    simp only [step] at ht
    split at ht <;> cases ht
    exact .inl rfl
  | socketpair a b | fails =>
    simp only [step] at ht
    (repeat' split at ht) <;> cases ht <;> exact .inl rfl

/-- A channel that is there stays. -/
theorem Ok.channelFd_step {m : Move δ} (h : s.Ok) (ht : s.step m = some t) {d : δ} {v : Nat}
    (hv : s.channelFd d v ≠ 0) : t.channelFd d v = s.channelFd d v := by
  rcases step_channelFd ht with hsame | ⟨w, d', i, sv, hold, hwrite⟩
  · rw [hsame]
  · obtain ⟨-, -, -, habove⟩ := (h.holder w d' _ hold).2.1
    rw [hwrite]
    by_cases hd : d = d'
    · subst hd
      have hvi : v ≠ i := by
        rintro rfl
        exact hv (habove v (Nat.le_refl v))
      rw [Function.update_self, Function.update_of_ne hvi]
    · rw [Function.update_of_ne hd]

/-- **One process per device.**  When devices are started only with all vCPUs created, in
every interleaving of `main` and the threads each device is instantiated at most once, and
a channel that is there never changes. -/
theorem instantiated_once {n : Nat} {fds : List Nat} {ms ms' : List (Move δ)} (hzero : 0 ∈ fds)
    (hs : Run (Guarded AllCreated fun s m t => s.step m = some t) (init n fds) ms s)
    (ht : Run (Guarded AllCreated fun s m t => s.step m = some t) s ms' t) (d : δ) :
    t.instances d ≤ 1 ∧ ∀ v, s.channelFd d v ≠ 0 → t.channelFd d v = s.channelFd d v := by
  have hok : s.Ok := hs.invariant (I := Ok) (fun _ _ _ h hstep => h.step hstep.1 hstep.2)
    (.init n hzero)
  have hkeep : t.Ok ∧ ∀ v, s.channelFd d v ≠ 0 → t.channelFd d v = s.channelFd d v := by
    refine ht.invariant (I := fun t : Vmm δ => t.Ok ∧
      ∀ v, s.channelFd d v ≠ 0 → t.channelFd d v = s.channelFd d v) ?_ ⟨hok, fun _ _ => rfl⟩
    rintro t m u ⟨htok, hsame⟩ hstep
    refine ⟨htok.step hstep.1 hstep.2, fun v hv => ?_⟩
    have hvt : t.channelFd d v ≠ 0 := by rwa [hsame v hv]
    rw [htok.channelFd_step hstep.2 hvt, hsame v hv]
  exact ⟨hkeep.1.instances_le d, hkeep.2⟩

/-- A vCPU is created and its thread started. -/
def newVcpu : List (Move Unit) := [.createVcpu, .startThread]

/-- A thread starts the device: so many pairs, and so many steps to the end. -/
def startDevice (v : Nat) (pairs : List (Nat × Nat)) (n : Nat) : List (Move Unit) :=
  [Move.access v (), .next] ++ pairs.map (fun p => Move.socketpair p.1 p.2) ++
    List.replicate n Move.next

/-- Two vCPUs, and then both use the device. -/
theorem instantiated_once_two_vcpus : ∃ s t : Vmm Unit,
    Run (Guarded AllCreated fun s m t => s.step m = some t) (init 2 [0, 1, 2])
      (newVcpu ++ newVcpu ++ startDevice 0 [(10, 11), (12, 13)] 13) s ∧
    Run (Guarded AllCreated fun s m t => s.step m = some t) s [.access 1 (), .next] t ∧
    s.channelFd () 1 = 12 ∧ t.instances () ≤ 1 ∧ t.channelFd () 1 = 12 := by
  have hexec : ∃ s ∈ exec (fun s m => if AllCreated s m then s.step m else none)
      (init 2 [0, 1, 2]) (newVcpu ++ newVcpu ++ startDevice 0 [(10, 11), (12, 13)] 13),
      s.channelFd () 1 = 12 ∧ (exec (fun s m => if AllCreated s m then s.step m else none) s
        [.access 1 (), .next]).isSome := by decide
  obtain ⟨s, hs, hchannel, ht⟩ := hexec
  obtain ⟨t, ht⟩ := Option.isSome_iff_exists.1 ht
  have hsrun := run_guarded_of_exec hs
  have htrun := run_guarded_of_exec ht
  obtain ⟨hinstances, hstays⟩ := instantiated_once (by decide) hsrun htrun ()
  exact ⟨s, t, hsrun, htrun, hchannel, hinstances, (hstays 1 (by rw [hchannel]; decide)).trans hchannel⟩

/-- **The first vCPU uses the device before the second is created**, and then the second
does: the device is started twice, and the first vCPU has a new channel. -/
theorem instantiated_twice : ∃ s t : Vmm Unit,
    Run (fun s m t => s.step m = some t) (init 2 [0, 1, 2])
      (newVcpu ++ startDevice 0 [(10, 11)] 10) s ∧
    Run (fun s m t => s.step m = some t) s
      (newVcpu ++ startDevice 1 [(12, 13), (14, 15)] 13) t ∧
    t.instances () = 2 ∧ s.channelFd () 0 = 10 ∧ t.channelFd () 0 = 12 := by
  have hexec : ∃ s ∈ exec step (init 2 [0, 1, 2]) (newVcpu ++ startDevice 0 [(10, 11)] 10),
      s.channelFd () 0 = 10 ∧ ∃ t ∈ exec step s (newVcpu ++ startDevice 1 [(12, 13), (14, 15)] 13),
        t.instances () = 2 ∧ t.channelFd () 0 = 12 := by decide
  obtain ⟨s, hs, hfirst, t, ht, htwice, hsecond⟩ := hexec
  exact ⟨s, t, (run_iff_exec step).2 hs, (run_iff_exec step).2 ht, htwice, hfirst, hsecond⟩

end Vmm

end Ooows.Bus
