import Ooows.Lib.Latch
import Ooows.Smp.Machine

/-!
# Ooows.Smp.Interrupts

What the guest can rely on when devices interrupt it.

The in-service bits are right in every run (`in_service`).
-/

namespace Ooows.Smp

open Lib

/-! ## bits -/

theorem getLsbD_set {x : BitVec 32} {k i : Nat} (hi : i < 32) :
    (x ||| 1#32 <<< k).getLsbD i = (x.getLsbD i || decide (i = k)) := by
  simp only [BitVec.getLsbD_or, BitVec.getLsbD_shiftLeft, BitVec.getLsbD_one, hi, decide_true]
  grind

theorem getLsbD_clear {x : BitVec 32} {k i : Nat} (hi : i < 32) :
    (x &&& ~~~(1#32 <<< k)).getLsbD i = (x.getLsbD i && !decide (i = k)) := by
  simp only [BitVec.getLsbD_and, BitVec.getLsbD_not, BitVec.getLsbD_shiftLeft, BitVec.getLsbD_one,
    hi, decide_true]
  grind

/-! ## in service -/

/-- A line was injected into a vCPU. -/
def Event.Injects (v i : Nat) : Event → Prop
  | .injected _ dest line _ => dest = v ∧ line = i
  | _ => False

/-- A vCPU has written a line to its EOI register. -/
def Event.Ends (v i : Nat) : Event → Prop
  | .eoi w line => w = v ∧ line = i
  | _ => False

namespace Machine

variable {s t : Machine} {v : Nat} {c : Choice}

theorem line_lt (irq : UInt8) : line irq < 32 := by
  unfold line
  rw [UInt8.toNat_and]
  exact Nat.lt_of_le_of_lt Nat.and_le_right (by decide)

/-- A step that neither injects nor ends an interrupt. -/
structure Neutral (s t : Machine) : Prop where
  isr : ∀ w, (t.vcpus w).isr = (s.vcpus w).isr
  log : t.log = s.log ∨ ∃ e, t.log = s.log ++ [e] ∧ ∀ w i, ¬ e.Injects w i ∧ ¬ e.Ends w i

/-- What a thread does to the in-service bits. -/
theorem Moves.isr {p : Place} (h : s.Moves v p c t) : s.Neutral t ∨
    (∃ irq dest vector, (s.vcpus dest).isr.getLsbD (line irq) = false ∧
      t.log = s.log ++ [.injected v dest (line irq) vector] ∧
      (t.vcpus dest).isr = (s.vcpus dest).isr ||| 1#32 <<< line irq ∧
      ∀ w, w ≠ dest → (t.vcpus w).isr = (s.vcpus w).isr) ∨
    ∃ vector : UInt32, t.log = s.log ++ [.eoi v (vector &&& 0x1f).toNat] ∧
      (t.vcpus v).isr = (s.vcpus v).isr &&& ~~~(1#32 <<< (vector &&& 0x1f).toNat) ∧
      ∀ w, w ≠ v → (t.vcpus w).isr = (s.vcpus w).isr := by
  cases h with
  | inject hisr =>
    exact .inr (.inl ⟨_, _, _, hisr, rfl, by simp, fun w hw => by simp [hw]⟩)
  | eoi =>
    exact .inr (.inr ⟨_, rfl, by simp, fun w hw => by simp [hw]⟩)
  | dequeue | sent =>
    exact .inl ⟨fun _ => rfl, .inr ⟨_, rfl, fun _ _ => ⟨id, id⟩⟩⟩
  | top | request | sendWake | exit | halt | sipiState | sipiEip | sipiDirty =>
    exact .inl ⟨fun _ => update_field Vcpu.isr rfl, .inl rfl⟩
  | start | scan | allHalted | hope | wake | enter | check | ready | noRequest | noEntry | send
  | noDest | sendState | sendHalted | noInject | sipi | redtbl =>
    exact .inl ⟨fun _ => rfl, .inl rfl⟩

theorem MainMoves.neutral (h : s.MainMoves t) : s.Neutral t := by
  cases h with
  | create | start => exact ⟨fun _ => rfl, .inl rfl⟩
  | setUp _ hf => exact ⟨fun _ => update_field Vcpu.isr (hf.isr _), .inl rfl⟩

/-- The bits say what the log says, and the log is in order. -/
structure InService (s : Machine) : Prop where
  isr : ∀ v i, i < 32 →
    ((s.vcpus v).isr.getLsbD i = true ↔ Latched (Event.Injects v i) (Event.Ends v i) s.log)
  alternates : ∀ v i, Alternates (Event.Injects v i) (Event.Ends v i) s.log

namespace InService

theorem init (n : Nat) : (Machine.init n).InService where
  isr v i _ := by simpa [Machine.init] using not_latched_nil
  alternates _ _ := alternates_nil

theorem neutral (h : s.InService) (hst : s.Neutral t) : t.InService := by
  rcases hst.log with hlog | ⟨e, hlog, he⟩
  · refine ⟨fun v i hi => ?_, fun v i => ?_⟩
    · rw [hst.isr, hlog]
      exact h.isr v i hi
    · rw [hlog]
      exact h.alternates v i
  · refine ⟨fun v i hi => ?_, fun v i => ?_⟩
    · rw [hst.isr, hlog, h.isr v i hi, latched_concat]
      simp [he v i]
    · rw [hlog]
      exact (h.alternates v i).concat fun hset => absurd hset (he v i).1

/-- A line is injected. -/
theorem inject (h : s.InService) {dest vector : Nat} {irq : UInt8}
    (hclear : (s.vcpus dest).isr.getLsbD (line irq) = false)
    (hlog : t.log = s.log ++ [.injected v dest (line irq) vector])
    (hself : (t.vcpus dest).isr = (s.vcpus dest).isr ||| 1#32 <<< line irq)
    (hother : ∀ w, w ≠ dest → (t.vcpus w).isr = (s.vcpus w).isr) : t.InService := by
  refine ⟨fun w i hi => ?_, fun w i => ?_⟩
  · rw [hlog, latched_concat, ← h.isr w i hi]
    by_cases hw : w = dest
    · subst hw
      rw [hself, getLsbD_set hi]
      grind [Event.Injects, Event.Ends]
    · rw [hother w hw]
      simp [Event.Injects, Event.Ends, Ne.symm hw]
  · rw [hlog]
    refine (h.alternates w i).concat ?_
    rintro ⟨rfl, rfl⟩
    rw [← h.isr dest (line irq) (line_lt irq), hclear]
    simp

/-- A vCPU ends a line. -/
theorem eoi (h : s.InService) {vector : UInt32}
    (hlog : t.log = s.log ++ [.eoi v (vector &&& 0x1f).toNat])
    (hself : (t.vcpus v).isr = (s.vcpus v).isr &&& ~~~(1#32 <<< (vector &&& 0x1f).toNat))
    (hother : ∀ w, w ≠ v → (t.vcpus w).isr = (s.vcpus w).isr) : t.InService := by
  refine ⟨fun w i hi => ?_, fun w i => ?_⟩
  · rw [hlog, latched_concat, ← h.isr w i hi]
    by_cases hw : w = v
    · subst hw
      rw [hself, getLsbD_clear hi]
      grind [Event.Injects, Event.Ends]
    · rw [hother w hw]
      simp [Event.Injects, Event.Ends, Ne.symm hw]
  · rw [hlog]
    exact (h.alternates w i).concat fun hset => absurd hset id

/-- **One step.** -/
theorem step (h : s.InService) {a : Act} (ht : s.step a = some t) : t.InService := by
  cases a with
  | main => exact h.neutral (moves_of_mainStep ht).neutral
  | irq irq =>
    obtain ⟨queue, n, rfl⟩ := setQueue_of_irq ht
    exact h.neutral ⟨fun _ => rfl, .inl rfl⟩
  | vcpu v c =>
    rcases (moves_of_threadStep ht).isr with hst | ⟨irq, dest, vector, hclear, hlog, hself, hother⟩ |
      ⟨vector, hlog, hself, hother⟩
    · exact h.neutral hst
    · exact h.inject hclear hlog hself hother
    · exact h.eoi hlog hself hother

end InService

/-- **In-service discipline.**  In every run, between two injections of a line into a vCPU this
vCPU has ended the line; and the line's bit is set from an injection to that end. -/
theorem in_service {n : Nat} {acts : List Act}
    (h : Run (fun s a t => s.step a = some t) (init n) acts s) :
    (∀ a b c v i x x' y y',
      s.log = a ++ .injected x v i y :: (b ++ .injected x' v i y' :: c) → Event.eoi v i ∈ b) ∧
    ∀ v i, i < 32 → ((s.vcpus v).isr.getLsbD i = true ↔
      ∃ a b x y, s.log = a ++ .injected x v i y :: b ∧ Event.eoi v i ∉ b) := by
  have hinv : s.InService := h.invariant (I := InService) (fun _ _ _ h ht => h.step ht) (.init n)
  have hends : ∀ {v i} {b : List Event}, (∃ e ∈ b, e.Ends v i) ↔ .eoi v i ∈ b := by
    refine ⟨?_, fun hmem => ⟨_, hmem, rfl, rfl⟩⟩
    rintro ⟨e, hmem, he⟩
    cases e with
    | eoi w line => obtain ⟨rfl, rfl⟩ := he; exact hmem
    | _ => exact he.elim
  refine ⟨fun a b c v i x x' y y' hlog => ?_, fun v i hi => ?_⟩
  · exact hends.1 (hinv.alternates v i a _ b _ c hlog ⟨rfl, rfl⟩ ⟨rfl, rfl⟩)
  · rw [hinv.isr v i hi]
    constructor
    · rintro ⟨a, e, b, hlog, he, hb⟩
      cases e with
      | injected w dest line vector =>
        obtain ⟨rfl, rfl⟩ := he
        exact ⟨a, b, _, _, hlog, fun hmem => hb _ hmem ⟨rfl, rfl⟩⟩
      | _ => exact he.elim
    · rintro ⟨a, b, x, y, hlog, hb⟩
      exact ⟨a, _, b, hlog, ⟨rfl, rfl⟩, fun e hmem he => hb (hends.1 ⟨e, hmem, he⟩)⟩

/-- A write to the EOI register. -/
def eoiWrite (line : UInt32) : Exit := .mmioWrite 0xfee00900 0xfee00008 line 4

/-- A device interrupts; from the top of its loop a vCPU takes this and injects it. -/
def deliver (v : Nat) (irq : UInt8) : List Act := .irq irq :: go v 7 ++ [.vcpu v (.ioctl true)] ++ go v 1

/-- Line 5 is injected into the first vCPU, ended, and injected again. -/
theorem in_service_twice : ∃ s,
    Run (fun s a t => s.step a = some t) (init 1)
      (createVcpu ++ go 0 5 ++ [exitOpen 0 .handled] ++ deliver 0 5 ++ [exitOpen 0 (eoiWrite 5)] ++
        go 0 1 ++ deliver 0 0x25) s ∧
    s.log = [.dequeued 0 5, .injected 0 0 5 0] ++ ([.freed 0 5, .eoi 0 5, .dequeued 0 0x25] ++
      [.injected 0 0 5 0, .freed 0 0x25]) ∧
    Event.eoi 0 5 ∈ [Event.freed 0 5, .eoi 0 5, .dequeued 0 0x25] ∧
    (s.vcpus 0).isr.getLsbD 5 = true := by
  have hexec : ∃ s ∈ exec step (init 1)
      (createVcpu ++ go 0 5 ++ [exitOpen 0 .handled] ++ deliver 0 5 ++ [exitOpen 0 (eoiWrite 5)] ++
        go 0 1 ++ deliver 0 0x25),
      s.log = [.dequeued 0 5, .injected 0 0 5 0] ++ ([.freed 0 5, .eoi 0 5, .dequeued 0 0x25] ++
        [.injected 0 0 5 0, .freed 0 0x25]) := by decide +kernel
  obtain ⟨s, hs, hlog⟩ := hexec
  have hrun := (run_iff_exec step).2 hs
  obtain ⟨hends, hisr⟩ := in_service hrun
  exact ⟨s, hrun, hlog, hends [.dequeued 0 5] _ [.freed 0 0x25] 0 5 0 0 0 0 hlog,
    (hisr 0 5 (by decide)).2 ⟨[.dequeued 0 5, .injected 0 0 5 0, .freed 0 5, .eoi 0 5,
      .dequeued 0 0x25], [.freed 0 0x25], 0, 0, hlog, by decide⟩⟩

end Machine

end Ooows.Smp
