import Ooows.Ogx.GuestDevice
import Mathlib.Data.List.Infix

/-!
# Ooows.Ogx.Screening

Which code the workers run.

`Execute` searches a payload's code only if `unprivileged` is set, and the first payload that
gets past that test sets it.  `main` means this to be the flag enclave's, which it schedules
before it serves the guest; but a task that is scheduled has not been started, and the
payload of a guest that another worker takes may be tested first.  `Late` is the condition:
a payload of the guest that holds an illegal instruction is tested when `unprivileged` is set.

What is searched is what is run: the mutex of an enclave keeps its code region as it was
loaded (`Screened.region`), and an instruction that is in the code is found in the region
(`memmem_of_isInfix`).
-/

namespace Ooows.Ogx

open Lib

/-- Code with an instruction that `Execute` looks for, at any offset. -/
def Illegal (code : Bytes) : Prop := ∃ instruction ∈ illegalInstructions, instruction <:+: code

instance (code : Bytes) : Decidable (Illegal code) :=
  inferInstanceAs (Decidable (∃ instruction ∈ illegalInstructions, _))

theorem memmem_of_isInfix {code needle : Bytes} (hcode : code.length ≤ regionSize)
    (h : needle <:+: code) : memmem (memcpy zeroed code) needle = true := by
  obtain ⟨before, behind, rfl⟩ := h
  rw [List.length_append, List.length_append] at hcode
  simp only [memmem, List.any_eq_true, List.all_eq_true, List.mem_range, decide_eq_true_eq]
  refine ⟨before.length, by omega, fun j hj => ?_⟩
  rw [byteAt_memcpy_zeroed (by omega), List.append_assoc, List.getD_append_right _ _ _ _ (by omega),
    Nat.add_sub_cancel_left, List.getD_append _ _ _ _ hj]

theorem hasIllegalInstruction_of_illegal {code : Bytes} (hcode : code.length ≤ regionSize)
    (h : Illegal code) : hasIllegalInstruction (memcpy zeroed code) = true := by
  obtain ⟨instruction, hmem, hinfix⟩ := h
  exact List.any_eq_true.2 ⟨instruction, hmem, memmem_of_isInfix hcode hinfix⟩

namespace Worker

/-- The task whose code is in the enclave. -/
def inCode : Worker → Option Task
  | loaded t | screened t | marked t | running t => some t
  | waiting | taken _ | entered _ | returned _ _ => none

/-- The task whose code has passed the test. -/
def passed : Worker → Option Task
  | screened t | marked t | running t => some t
  | waiting | taken _ | entered _ | loaded _ | returned _ _ => none

end Worker

namespace GuestDevice

/-- The task whose code is tested in a step. -/
def testing (s : GuestDevice) : Act → Option Task
  | .work w =>
    match s.workers w with
    | .loaded t => some t
    | _ => none
  | _ => none

/-- **Condition**: an illegal payload of the guest is tested when `unprivileged` is set. -/
def Late (s : GuestDevice) (a : Act) : Prop :=
  ∀ t ∈ s.testing a, t.ticket ≠ 0 → Illegal t.event.code → s.unprivileged = true

instance (s : GuestDevice) (a : Act) : Decidable (s.Late a) :=
  inferInstanceAs (Decidable (∀ t ∈ s.testing a, _))

end GuestDevice

/-- **The invariant**, of the workers, the enclaves and the code that was run. -/
structure Screened (workers : Fin 4 → Worker) (enclaves : Fin numEnclaves → Enclave)
    (executed : List (Task × Region)) : Prop where
  /-- An enclave's mutex has one owner. -/
  mutex : ∀ w w' id, (workers w).holds = some id → (workers w').holds = some id → w = w'
  /-- The code of a task stays as it was loaded. -/
  region : ∀ w t, (workers w).inCode = some t → (enclaves t.id).code = memcpy zeroed t.event.code
  passed : ∀ w t, (workers w).passed = some t → t.ticket ≠ 0 → ¬ Illegal t.event.code
  executed : ∀ x ∈ executed, x.2 = memcpy zeroed x.1.event.code ∧
    (x.1.ticket ≠ 0 → ¬ Illegal x.1.event.code)

section Screened

variable {workers : Fin 4 → Worker} {enclaves : Fin numEnclaves → Enclave}
  {executed : List (Task × Region)} {w : Fin 4} {id : Fin numEnclaves} {p : Worker} {t : Task}

theorem holds_of_inCode (h : p.inCode = some t) : p.holds = some t.id := by
  cases p <;> cases h <;> rfl

theorem inCode_of_passed (h : p.passed = some t) : p.inCode = some t := by
  cases p <;> cases h <;> rfl

/-- A worker changes that gets no mutex but what it had. -/
theorem Screened.setWorker (h : Screened workers enclaves executed)
    (hholds : ∀ id, p.holds = some id → ∀ w' ≠ w, (workers w').holds ≠ some id)
    (hregion : ∀ t, p.inCode = some t → (enclaves t.id).code = memcpy zeroed t.event.code)
    (hpassed : ∀ t, p.passed = some t → t.ticket ≠ 0 → ¬ Illegal t.event.code) :
    Screened (Function.update workers w p) enclaves executed where
  mutex w₁ w₂ id h₁ h₂ := by
    by_cases heq₁ : w₁ = w
    · by_cases heq₂ : w₂ = w
      · rw [heq₁, heq₂]
      · rw [heq₁, Function.update_self] at h₁
        rw [Function.update_of_ne heq₂] at h₂
        exact absurd h₂ (hholds id h₁ w₂ heq₂)
    · rw [Function.update_of_ne heq₁] at h₁
      by_cases heq₂ : w₂ = w
      · rw [heq₂, Function.update_self] at h₂
        exact absurd h₁ (hholds id h₂ w₁ heq₁)
      · rw [Function.update_of_ne heq₂] at h₂
        exact h.mutex w₁ w₂ id h₁ h₂
  region w' t ht := by
    by_cases heq : w' = w
    · rw [heq, Function.update_self] at ht
      exact hregion t ht
    · rw [Function.update_of_ne heq] at ht
      exact h.region w' t ht
  passed w' t ht := by
    by_cases heq : w' = w
    · rw [heq, Function.update_self] at ht
      exact hpassed t ht
    · rw [Function.update_of_ne heq] at ht
      exact h.passed w' t ht
  executed := h.executed

/-- A worker changes that has no mutex afterwards. -/
theorem Screened.idle (h : Screened workers enclaves executed) (hp : p.holds = none) :
    Screened (Function.update workers w p) enclaves executed := by
  have hnone : ∀ t, p.inCode ≠ some t := fun t ht => by
    rw [holds_of_inCode ht] at hp
    contradiction
  refine h.setWorker (fun id hid => ?_) (fun t ht => absurd ht (hnone t))
    fun t ht => absurd (inCode_of_passed ht) (hnone t)
  rw [hp] at hid
  contradiction

/-- A worker that has an enclave's mutex goes on, and the enclave changes. -/
theorem Screened.update (h : Screened workers enclaves executed)
    (hw : (workers w).holds = some id) (e : Enclave) (hholds : p.holds = none ∨ p.holds = some id)
    (hregion : ∀ t, p.inCode = some t → e.code = memcpy zeroed t.event.code)
    (hpassed : ∀ t, p.passed = some t → t.ticket ≠ 0 → ¬ Illegal t.event.code) :
    Screened (Function.update workers w p) (Function.update enclaves id e) executed := by
  have hothers : ∀ w' ≠ w, (workers w').holds ≠ some id := fun w' hne hw' =>
    hne (h.mutex w' w id hw' hw)
  have hid : ∀ id', p.holds = some id' → id' = id := by
    intro id' hid'
    rcases hholds with hnone | hsome
    · rw [hnone] at hid'
      contradiction
    · rw [hsome] at hid'
      exact (Option.some_inj.1 hid').symm
  -- no other worker's code is in the enclave
  have hkept : Screened (Function.update workers w .waiting) (Function.update enclaves id e)
      executed := by
    have hidle : Screened (Function.update workers w .waiting) enclaves executed := h.idle rfl
    refine ⟨hidle.mutex, fun w' t ht => ?_, hidle.passed, hidle.executed⟩
    have hne : t.id ≠ id := by
      intro heq
      by_cases hw' : w' = w
      · rw [hw', Function.update_self] at ht
        contradiction
      · rw [Function.update_of_ne hw'] at ht
        exact hothers w' hw' (heq ▸ holds_of_inCode ht)
    rw [Function.update_of_ne hne]
    exact hidle.region w' t ht
  have hnew := hkept.setWorker (w := w) (p := p) (fun id' hid' w' hne => ?_) (fun t ht => ?_) hpassed
  · rwa [Function.update_idem] at hnew
  · rw [hid id' hid', Function.update_of_ne hne]
    exact hothers w' hne
  · rw [hid t.id (holds_of_inCode ht), Function.update_self]
    exact hregion t ht

/-- A worker that has an enclave's mutex goes on with the code that is there. -/
theorem Screened.advance (h : Screened workers enclaves executed) (hw : (workers w).inCode = some t)
    (hholds : p.holds = some t.id) (hcode : p.inCode = some t)
    (hpassed : t.ticket ≠ 0 → ¬ Illegal t.event.code) :
    Screened (Function.update workers w p) enclaves executed := by
  have hnew := h.update (p := p) (holds_of_inCode hw) (enclaves t.id) (.inr hholds)
    (fun t' ht' => ?_) fun t' ht' => ?_
  · rwa [Function.update_eq_self] at hnew
  · rw [hcode] at ht'
    cases ht'
    exact h.region w t hw
  · have hcode' := inCode_of_passed ht'
    rw [hcode] at hcode'
    cases hcode'
    exact hpassed

theorem Screened.log (h : Screened workers enclaves executed) (hw : (workers w).passed = some t) :
    Screened workers enclaves (executed ++ [(t, (enclaves t.id).code)]) where
  mutex := h.mutex
  region := h.region
  passed := h.passed
  executed := by
    rw [List.forall_mem_append, List.forall_mem_singleton]
    exact ⟨h.executed, h.region w t (inCode_of_passed hw), h.passed w t hw⟩

end Screened

namespace GuestDevice

variable {box : Box} {keys : KeyPair} {s t : GuestDevice} {a : Act} {w : Fin 4}

/-- The invariant of a device. -/
abbrev IsScreened (s : GuestDevice) : Prop := Screened s.workers s.enclaves s.executed

/-- The test. -/
theorem isScreened_screen (h : s.IsScreened) {task : Task} (hw : s.workers w = .loaded task)
    (hlate : task.ticket ≠ 0 → Illegal task.event.code → s.unprivileged = true) :
    (s.screen w task).IsScreened := by
  have hregion := h.region w task (by rw [hw]; rfl)
  unfold screen
  dsimp only
  split
  next => exact h.update (by rw [hw]; rfl) _ (.inl rfl) (fun _ ht => nomatch ht) fun _ ht => nomatch ht
  next hpass =>
    refine h.advance (by rw [hw]; rfl) rfl rfl fun hguest hillegal => hpass ?_
    rw [hlate hguest hillegal, hregion,
      hasIllegalInstruction_of_illegal task.event.code_le hillegal]
    rfl

theorem isScreened_work (h : s.IsScreened) (hlate : s.Late (.work w)) (hstep : s.work w = some t) :
    t.IsScreened := by
  unfold GuestDevice.work at hstep
  cases hw : s.workers w with
  | waiting =>
    rw [hw] at hstep
    dsimp only at hstep
    split at hstep
    next => contradiction
    next task queue hqueue =>
      cases hstep
      exact h.idle rfl
  | taken task =>
    rw [hw] at hstep
    obtain ⟨hfree, hstep⟩ := Option.ite_none_right_eq_some.1 hstep
    cases hstep
    refine h.setWorker (fun id hid w' _ => ?_) (fun _ ht => nomatch ht) fun _ ht => nomatch ht
    cases hid
    exact hfree w'
  | entered task =>
    rw [hw] at hstep
    cases hstep
    rw [load_eq]
    refine h.update (by rw [hw]; rfl) _ (.inr rfl) (fun t ht => ?_) fun _ ht => nomatch ht
    cases ht
    rfl
  | loaded task =>
    rw [hw] at hstep
    cases hstep
    exact isScreened_screen h hw (hlate task (by rw [testing, hw]; rfl))
  | screened task =>
    rw [hw] at hstep
    cases hstep
    exact h.advance (by rw [hw]; rfl) rfl rfl (h.passed w task (by rw [hw]; rfl))
  | marked task =>
    rw [hw] at hstep
    cases hstep
    have hlog := h.log (w := w) (t := task) (by rw [hw]; rfl)
    refine hlog.update (by rw [hw]; rfl) _ (.inr rfl) (fun t ht => ?_) fun t ht => ?_
    · cases ht
      exact h.region w task (by rw [hw]; rfl)
    · cases ht
      exact h.passed w task (by rw [hw]; rfl)
  | running task =>
    rw [hw] at hstep
    contradiction
  | returned task result =>
    rw [hw] at hstep
    cases hstep
    exact h.idle rfl

theorem isScreened_finish (h : s.IsScreened) {outcome : Int32 × Region × Region}
    (hstep : s.finish w outcome = some t) : t.IsScreened := by
  unfold GuestDevice.finish at hstep
  split at hstep
  next task hw =>
    cases hstep
    exact h.update (by rw [hw]; rfl) _ (.inl rfl) (fun _ ht => nomatch ht) fun _ ht => nomatch ht
  next => contradiction

theorem isScreened_step (h : s.IsScreened) (hlate : s.Late a) (hstep : Step box keys s a t) :
    t.IsScreened := by
  cases step_effect hstep with
  | serve | accept | lock | skip | prune | put => exact h
  | work hwork => exact isScreened_work h hlate hwork
  | finish hfinish => exact isScreened_finish h hfinish
  | collect nonce _ _ _ _ _ =>
    obtain ⟨_, _, _, heq⟩ := collect_eq box keys s _ _ _ _ _ nonce
    rw [heq]
    exact h

theorem isScreened_start (box : Box) (keys : KeyPair) (secret : Vector UInt8 4096)
    (flagEnclave : FlagEnclave) (vendorId : UInt32) (mem : ByteMem) :
    (start box keys secret flagEnclave vendorId mem).IsScreened where
  mutex _ _ _ hw := nomatch hw
  region _ _ ht := nomatch ht
  passed _ _ ht := nomatch ht
  executed _ hx := nomatch hx

/-- An event for enclave 1, with some code. -/
def eventOf (code : Bytes) (h : code.length ≤ regionSize) : LoadEvent :=
  ⟨1, code, [], one_lt_numEnclaves, h, nil_fits⟩

/-- The flag enclave is taken by one worker; another takes the guest's payload and runs it. -/
def overtake : List Act :=
  setupActs ++ [Act.gotWrite 0 0, .work 0, .work 1, .work 1, .work 1, .work 1, .work 1, .work 1]

/-- The guest's payload is taken when the flag enclave runs. -/
def follow : List Act :=
  setupActs ++ [Act.gotWrite 0 0] ++ List.replicate 6 (.work 0) ++ List.replicate 5 (.work 1)

/-- **Which code is run.**  In every run in which no illegal payload of the guest is tested
before `unprivileged` is set, the code that is run is that of the event, and no payload but
the flag enclave's holds an illegal instruction. -/
theorem illegal_code_not_run (box : Box) (keys : KeyPair) (secret : Vector UInt8 4096)
    (flagEnclave : FlagEnclave) (vendorId : UInt32) (mem : ByteMem) {acts : List Act}
    {s : GuestDevice} (hrun : Run (Guarded Late (Step box keys))
      (start box keys secret flagEnclave vendorId mem) acts s) :
    ∀ x ∈ s.executed, x.2 = memcpy zeroed x.1.event.code ∧
      (x.1.ticket ≠ 0 → ¬ Illegal x.1.event.code) := by
  have hscreened : s.IsScreened :=
    hrun.invariant (fun _ _ _ h hstep => isScreened_step h hstep.1 hstep.2)
      (isScreened_start box keys secret flagEnclave vendorId mem)
  exact hscreened.executed

/-- A payload that returns at once overtakes the flag enclave.  One with `wrpkru` that is taken
after it is refused, and only the flag enclave's code is run. -/
theorem illegal_code_not_run_ret :
    (∃ (s : GuestDevice) (x : Task × Region),
      Run (Guarded Late (Step plainBox zeroKeys)) (sampleStart (eventOf [0xc3] (by decide)))
        overtake s ∧
      s.executed = [x] ∧ x.1.ticket = 1 ∧ x.2 = memcpy zeroed x.1.event.code ∧
        ¬ Illegal x.1.event.code) ∧
    ∃ (s : GuestDevice) (x : Task × Region),
      Run (Guarded Late (Step plainBox zeroKeys))
        (sampleStart (eventOf [0x0f, 0x01, 0xef] (by decide))) follow s ∧
      s.executed = [x] ∧ x.1.ticket = 0 ∧ x.2 = memcpy zeroed x.1.event.code ∧
        (s.promises 1).map Except.isOk = some false := by
  constructor
  · have hexec : (exec (fun s a => if Late s a then step plainBox zeroKeys s a else none)
        (sampleStart (eventOf [0xc3] (by decide))) overtake).map (fun s =>
          s.executed.map fun x => x.1.ticket) = some [1] := by
      decide +kernel
    obtain ⟨s, hs, hexecuted⟩ := Option.map_eq_some_iff.1 hexec
    obtain ⟨x, hx, hticket⟩ := List.map_eq_singleton_iff.1 hexecuted
    have hrun := run_guarded_of_exec hs
    obtain ⟨hregion, hlegal⟩ := illegal_code_not_run _ _ _ _ _ _ hrun x (by simp [hx])
    exact ⟨s, x, hrun, hx, hticket, hregion, hlegal (by rw [hticket]; decide)⟩
  · have hexec : (exec (fun s a => if Late s a then step plainBox zeroKeys s a else none)
        (sampleStart (eventOf [0x0f, 0x01, 0xef] (by decide))) follow).map (fun s =>
          (s.executed.map fun x => x.1.ticket, (s.promises 1).map Except.isOk)) =
            some ([0], some false) := by
      decide +kernel
    obtain ⟨s, hs, hend⟩ := Option.map_eq_some_iff.1 hexec
    obtain ⟨hexecuted, hrefused⟩ := Prod.mk.inj hend
    obtain ⟨x, hx, hticket⟩ := List.map_eq_singleton_iff.1 hexecuted
    have hrun := run_guarded_of_exec hs
    obtain ⟨hregion, -⟩ := illegal_code_not_run _ _ _ _ _ _ hrun x (by simp [hx])
    exact ⟨s, x, hrun, hx, hticket, hregion, hrefused⟩

/-- **A payload with `syscall`** that another worker takes while the flag enclave is about to
start is run. -/
theorem syscall_overtakes_flag : ∃ (s : GuestDevice) (x : Task × Region),
    Run (Step plainBox zeroKeys) (sampleStart (eventOf [0x0f, 0x05] (by decide))) overtake s ∧
    x ∈ s.executed ∧ x.1.ticket = 1 ∧ Illegal x.1.event.code := by
  have hexec : (exec (step plainBox zeroKeys) (sampleStart (eventOf [0x0f, 0x05] (by decide)))
      overtake).map (fun s => s.executed.map fun x => (x.1.ticket, x.1.event.code)) =
        some [(1, [0x0f, 0x05])] := by
    decide +kernel
  obtain ⟨s, hs, hexecuted⟩ := Option.map_eq_some_iff.1 hexec
  obtain ⟨x, hx, hcode⟩ := List.map_eq_singleton_iff.1 hexecuted
  rw [Prod.mk.injEq] at hcode
  refine ⟨s, x, (run_iff_exec _).2 hs, by rw [hx]; exact List.mem_singleton_self x, hcode.1, ?_⟩
  rw [hcode.2]
  decide

end GuestDevice

end Ooows.Ogx
