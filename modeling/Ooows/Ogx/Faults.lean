import Ooows.Ogx.Entry

/-!
# Ooows.Ogx.Faults

Faults of payloads, and the enclaves that are stopped for them.

The signal handler stores the address of a fault and, for a protection-key fault, the key of
the page.  The device's loop polls the address; if there is one it looks for the enclave whose
label is the key, or without a key for the enclave whose label is the *address*, sets its exit
flag and clears the two variables.  Handlers run in the threads of the payloads and the loop
in its own, so every access to a variable is a step of its own.

The key of a page is the label of the enclave that the page belongs to, not of the one that
faulted.  `Names` says when a fault leads to the enclave it happened in, and `Orderly` when
it is on record alone.
-/

namespace Ooows.Ogx

open Lib

/-! ## the program -/

/-- The protection keys of the enclaves, and their pages. -/
structure Labels where
  label : Fin numEnclaves → UInt32
  /-- `pkey_alloc` never returns the default key. -/
  label_ne_zero : ∀ i, label i ≠ 0
  label_inj : Function.Injective label
  /-- The enclave whose regions an address lies in. -/
  owner : UInt64 → Option (Fin numEnclaves)

/-- `si_pkey`: the key of the page; it is zero outside all enclaves. -/
def Labels.pkey (l : Labels) (addr : UInt64) : UInt32 := (l.owner addr).elim 0 l.label

/-- Where the loop in `GuestDevice::Execute` is. -/
inductive FaultCheck
  /-- About to test `fault_addr_`. -/
  | polling
  /-- About to test `fault_key_`. -/
  | attributing
  /-- About to compare the label of enclave `k`. -/
  | scanning (byKey : Bool) (k : Nat)
  /-- About to clear `fault_addr_`. -/
  | clearing
  /-- About to clear `fault_key_`. -/
  | clearingKey
  deriving DecidableEq, Repr

/-- What is recorded about faults; nothing reads it. -/
inductive FaultEvent
  | fault (i : Fin numEnclaves)
  | stopped (i : Fin numEnclaves)
  | cleared
  deriving DecidableEq, Repr

structure FaultState where
  faultAddr : UInt64
  faultKey : UInt32
  /-- The key that the handler in an enclave's thread is about to store. -/
  handlers : Fin numEnclaves → Option UInt32
  check : FaultCheck
  enclaves : Fin numEnclaves → Enclave
  log : List FaultEvent

inductive FaultAct
  /-- A payload faults, and the handler stores the address; `pku` is `SEGV_PKUERR`. -/
  | fault (i : Fin numEnclaves) (addr : UInt64) (pku : Bool)
  /-- The handler stores the key. -/
  | storeKey (i : Fin numEnclaves)
  /-- The loop's next access. -/
  | loop
  /-- A worker or its payload changes the regions of its enclave. -/
  | enclave (i : Fin numEnclaves) (e : Enclave)

namespace FaultState

variable (l : Labels) (s : FaultState)

/-- The comparison with the label of an enclave. -/
def matchesLabel (byKey : Bool) (i : Fin numEnclaves) : Bool :=
  if byKey then l.label i = s.faultKey else (l.label i).toUInt64 = s.faultAddr

/-- `Stop`. -/
def stop (i : Fin numEnclaves) : FaultState :=
  { s with
    enclaves := Function.update s.enclaves i (s.enclaves i).stop
    log := s.log ++ [.stopped i] }

/-- A round of the loop over the enclaves. -/
def scan (byKey : Bool) (k : Nat) : FaultState :=
  if h : k < numEnclaves then
    if s.matchesLabel l byKey ⟨k, h⟩ then { s.stop ⟨k, h⟩ with check := .clearing }
    else { s with check := .scanning byKey (k + 1) }
  else { s with check := .clearing }

/-- The fault check of `Execute`, one access at a time. -/
def loop : FaultState :=
  match s.check with
  | .polling => if s.faultAddr = 0 then s else { s with check := .attributing }
  | .attributing => { s with check := .scanning (s.faultKey ≠ 0) 0 }
  | .scanning byKey k => s.scan l byKey k
  | .clearing => { s with faultAddr := 0, check := .clearingKey, log := s.log ++ [.cleared] }
  | .clearingKey => { s with faultKey := 0, check := .polling }

/-- One step; `none` if it is not possible. -/
def step : FaultAct → Option FaultState
  | .fault i addr pku =>
    if s.handlers i = none then
      some { s with
        faultAddr := addr
        handlers := if pku then Function.update s.handlers i (some (l.pkey addr)) else s.handlers
        log := s.log ++ [.fault i] }
    else none
  | .storeKey i =>
    (s.handlers i).map fun key =>
      { s with faultKey := key, handlers := Function.update s.handlers i none }
  | .loop => some (s.loop l)
  | .enclave i e => some { s with enclaves := Function.update s.enclaves i e }

def Step (s : FaultState) (a : FaultAct) (t : FaultState) : Prop := s.step l a = some t

/-- No fault yet. -/
def init (enclaves : Fin numEnclaves → Enclave) : FaultState where
  faultAddr := 0
  faultKey := 0
  handlers _ := none
  check := .polling
  enclaves := enclaves
  log := []

end FaultState

/-! ## what is asked of a run -/

/-- Faults are attributed: an enclave is stopped only after it faulted, and when the record is
cleared every enclave that faulted since it was cleared last has been stopped. -/
structure Attributed (log : List FaultEvent) : Prop where
  stopped : ∀ before i after, log = before ++ .stopped i :: after → .fault i ∈ before
  cleared : ∀ before i between after, log = before ++ .fault i :: between ++ .cleared :: after →
    .cleared ∉ between → .stopped i ∈ between

/-- The fault leads to the enclave it happened in: it is a protection-key fault in the
enclave's own regions, or its address is the enclave's label. -/
def Labels.Names (l : Labels) (i : Fin numEnclaves) (addr : UInt64) (pku : Bool) : Prop :=
  addr ≠ 0 ∧ (if pku ∧ l.owner addr ≠ none then l.owner addr = some i
    else (l.label i).toUInt64 = addr)

instance (l : Labels) (i : Fin numEnclaves) (addr : UInt64) (pku : Bool) :
    Decidable (l.Names i addr pku) := inferInstanceAs (Decidable (_ ∧ _))

namespace FaultState

/-- Nothing is on record, and nobody is about to change that. -/
structure Idle (s : FaultState) : Prop where
  check : s.check = .polling
  faultAddr : s.faultAddr = 0
  faultKey : s.faultKey = 0
  handlers : ∀ i, s.handlers i = none

instance (s : FaultState) : Decidable s.Idle :=
  decidable_of_iff (s.check = .polling ∧ s.faultAddr = 0 ∧ s.faultKey = 0 ∧
      ∀ i, s.handlers i = none)
    ⟨fun h => ⟨h.1, h.2.1, h.2.2.1, h.2.2.2⟩, fun h => ⟨h.1, h.2, h.3, h.4⟩⟩

/-- **Condition**: a fault leads to its enclave and happens when nothing is on record, and the
loop finds it when the handler is done. -/
def Orderly (l : Labels) (s : FaultState) : FaultAct → Prop
  | .fault i addr pku => s.Idle ∧ l.Names i addr pku
  | .loop => s.check = .polling → s.faultAddr ≠ 0 → ∀ i, s.handlers i = none
  | .storeKey _ | .enclave _ _ => True

instance (l : Labels) (s : FaultState) (a : FaultAct) : Decidable (s.Orderly l a) :=
  match a with
  | .fault _ _ _ => inferInstanceAs (Decidable (_ ∧ _))
  | .loop => inferInstanceAs (Decidable (_ → _))
  | .storeKey _ | .enclave _ _ => inferInstanceAs (Decidable True)

end FaultState

/-! ## the log -/

section Log

variable {log : List FaultEvent} {i : Fin numEnclaves}

/-- Every enclave that faulted since the record was cleared last has been stopped, but for the
ones in `open_`. -/
def HandledBut (open_ : Fin numEnclaves → Prop) (log : List FaultEvent) : Prop :=
  ∀ before j between, log = before ++ .fault j :: between → .cleared ∉ between →
    open_ j ∨ .stopped j ∈ between

/-- An event in a log that grows is the new one or was there before. -/
theorem concat_eq_append_cons {x y : FaultEvent} {before after : List FaultEvent}
    (h : log ++ [x] = before ++ y :: after) :
    (after = [] ∧ log = before ∧ x = y) ∨
      ∃ rest, after = rest ++ [x] ∧ log = before ++ y :: rest := by
  rcases List.eq_nil_or_concat after with rfl | ⟨rest, z, rfl⟩
  · obtain ⟨rfl, hxy⟩ := List.append_inj' h rfl
    exact .inl ⟨rfl, rfl, (List.cons.inj hxy).1⟩
  · rw [List.concat_eq_append, ← List.cons_append, ← List.append_assoc] at h
    obtain ⟨rfl, hxz⟩ := List.append_inj' h rfl
    cases hxz
    exact .inr ⟨rest, List.concat_eq_append .., rfl⟩

theorem attributed_nil : Attributed [] where
  stopped before i after h := by simp at h
  cleared before i between after h := by simp at h

theorem Attributed.concat (h : Attributed log) (x : FaultEvent)
    (hstopped : ∀ i, x = .stopped i → .fault i ∈ log)
    (hcleared : x = .cleared → HandledBut (fun _ => False) log) : Attributed (log ++ [x]) where
  stopped before i after hlog := by
    rcases concat_eq_append_cons hlog with ⟨-, rfl, hx⟩ | ⟨rest, -, hlog⟩
    · exact hstopped i hx
    · exact h.stopped before i rest hlog
  cleared before i between after hlog hbetween := by
    rcases concat_eq_append_cons hlog with ⟨-, hlog, hx⟩ | ⟨rest, -, hlog⟩
    · exact (hcleared hx before i between hlog hbetween).resolve_left id
    · exact h.cleared before i between rest hlog hbetween

theorem HandledBut.fault (h : HandledBut (fun _ => False) log) :
    HandledBut (· = i) (log ++ [.fault i]) := by
  intro before j between hlog hbetween
  rcases concat_eq_append_cons hlog with ⟨-, -, hx⟩ | ⟨rest, rfl, hlog'⟩
  · cases hx
    exact .inl rfl
  · have hrest : FaultEvent.cleared ∉ rest := fun hmem => hbetween (List.mem_append_left _ hmem)
    exact .inr (List.mem_append_left _ ((h before j rest hlog' hrest).resolve_left id))

theorem HandledBut.stopped (h : HandledBut (· = i) log) :
    HandledBut (fun _ => False) (log ++ [.stopped i]) := by
  intro before j between hlog hbetween
  rcases concat_eq_append_cons hlog with ⟨-, -, hx⟩ | ⟨rest, rfl, hlog'⟩
  · cases hx
  · have hrest : FaultEvent.cleared ∉ rest := fun hmem => hbetween (List.mem_append_left _ hmem)
    rcases h before j rest hlog' hrest with rfl | hmem
    · exact .inr (List.mem_append_right _ (List.mem_singleton_self _))
    · exact .inr (List.mem_append_left _ hmem)

theorem handledBut_cleared (log : List FaultEvent) :
    HandledBut (fun _ => False) (log ++ [.cleared]) := by
  intro before j between hlog hbetween
  rcases concat_eq_append_cons hlog with ⟨-, -, hx⟩ | ⟨rest, rfl, -⟩
  · cases hx
  · exact absurd (List.mem_append_right _ (List.mem_singleton_self _)) hbetween

end Log

/-! ## one fault at a time -/

namespace FaultState

variable {l : Labels} {s t : FaultState} {i : Fin numEnclaves}

/-- What is on record leads to an enclave. -/
def Points (l : Labels) (i : Fin numEnclaves) (addr : UInt64) (key : UInt32) : Prop :=
  if key ≠ 0 then l.label i = key else (l.label i).toUInt64 = addr

/-- What happens to a fault. -/
inductive Phase (l : Labels) (s : FaultState) : Prop
  | idle (h : s.Idle) (hlog : HandledBut (fun _ => False) s.log)
  /-- The handler has stored the address only. -/
  | storing (i : Fin numEnclaves) (key : UInt32) (hcheck : s.check = .polling)
      (haddr : s.faultAddr ≠ 0) (hself : s.handlers i = some key)
      (hothers : ∀ j, j ≠ i → s.handlers j = none) (hpoints : Points l i s.faultAddr key)
      (hfault : .fault i ∈ s.log) (hlog : HandledBut (· = i) s.log)
  | recorded (i : Fin numEnclaves) (hcheck : s.check = .polling ∨ s.check = .attributing)
      (haddr : s.faultAddr ≠ 0) (hdone : ∀ j, s.handlers j = none)
      (hpoints : Points l i s.faultAddr s.faultKey)
      (hfault : .fault i ∈ s.log) (hlog : HandledBut (· = i) s.log)
  | scanning (i : Fin numEnclaves) (byKey : Bool) (k : Nat) (hcheck : s.check = .scanning byKey k)
      (hle : k ≤ i.val) (hdone : ∀ j, s.handlers j = none)
      (hmatch : s.matchesLabel l byKey i = true)
      (hfault : .fault i ∈ s.log) (hlog : HandledBut (· = i) s.log)
  | clearing (hcheck : s.check = .clearing) (hdone : ∀ j, s.handlers j = none)
      (hlog : HandledBut (fun _ => False) s.log)
  | clearingKey (hcheck : s.check = .clearingKey) (haddr : s.faultAddr = 0)
      (hdone : ∀ j, s.handlers j = none) (hlog : HandledBut (fun _ => False) s.log)

/-- The invariant. -/
structure Sound (l : Labels) (s : FaultState) : Prop where
  attributed : Attributed s.log
  phase : Phase l s

theorem points_of_names {addr : UInt64} {pku : Bool} (h : l.Names i addr pku) :
    Points l i addr (if pku then l.pkey addr else 0) := by
  obtain ⟨-, h⟩ := h
  unfold Points Labels.pkey
  cases howner : l.owner addr with
  | none =>
    rw [howner, if_neg (by simp)] at h
    simp [h]
  | some j =>
    rw [howner] at h
    cases pku with
    | false =>
      rw [if_neg (by simp)] at h
      simp [h]
    | true =>
      rw [if_pos (by simp)] at h
      cases h
      simp [l.label_ne_zero]

/-- One enclave at most has the label. -/
theorem matchesLabel_unique {byKey : Bool} {j : Fin numEnclaves}
    (hi : s.matchesLabel l byKey i = true) (hj : s.matchesLabel l byKey j = true) : i = j := by
  unfold matchesLabel at hi hj
  cases byKey with
  | true =>
    simp only [if_true, decide_eq_true_eq] at hi hj
    exact l.label_inj (hi.trans hj.symm)
  | false =>
    simp only [Bool.false_eq_true, if_false, decide_eq_true_eq] at hi hj
    exact l.label_inj (UInt32.toUInt64_inj.1 (hi.trans hj.symm))

/-- A fault of an enclave in an idle device. -/
theorem Sound.fault {addr : UInt64} {pku : Bool} (h : Sound l s)
    (hok : s.Orderly l (.fault i addr pku)) (hstep : Step l s (.fault i addr pku) t) :
    Sound l t := by
  obtain ⟨hidle, hnames⟩ := hok
  have hpoints := points_of_names hnames
  have hlog : HandledBut (fun _ => False) s.log := by
    cases h.phase with
    | idle _ hlog | clearing _ _ hlog | clearingKey _ _ _ hlog => exact hlog
    | storing _ _ _ haddr | recorded _ _ haddr => exact absurd hidle.faultAddr haddr
    | scanning _ _ _ hcheck =>
      rw [hidle.check] at hcheck
      contradiction
  obtain ⟨-, hstep⟩ := Option.ite_none_right_eq_some.1 hstep
  cases hstep
  refine ⟨h.attributed.concat _ (by simp) (by simp), ?_⟩
  have hmem : FaultEvent.fault i ∈ s.log ++ [.fault i] :=
    List.mem_append_right _ (List.mem_singleton_self _)
  cases pku with
  | true =>
    refine .storing i (l.pkey addr) hidle.check hnames.1 ?_ (fun j hj => ?_) hpoints hmem
      hlog.fault
    · simp
    · simp [Function.update_of_ne hj, hidle.handlers j]
  | false =>
    refine .recorded i (.inl hidle.check) hnames.1 hidle.handlers ?_ hmem hlog.fault
    rw [hidle.faultKey]
    exact hpoints

/-- The handler stores the key. -/
theorem Sound.storeKey (h : Sound l s) (hstep : Step l s (.storeKey i) t) : Sound l t := by
  obtain ⟨key, hkey, rfl⟩ := Option.map_eq_some_iff.1 hstep
  have hnot : ¬ ∀ j, s.handlers j = none := fun hall => by
    rw [hall i] at hkey
    contradiction
  refine ⟨h.attributed, ?_⟩
  cases h.phase with
  | idle hidle => exact absurd hidle.handlers hnot
  | recorded _ _ _ hdone | scanning _ _ _ _ _ hdone | clearing _ hdone | clearingKey _ _ hdone =>
    exact absurd hdone hnot
  | storing j key' hcheck haddr hself hothers hpoints hfault hlog =>
    have hij : i = j := by
      by_contra hne
      rw [hothers i hne] at hkey
      contradiction
    subst hij
    rw [hkey] at hself
    cases hself
    refine .recorded i (.inl hcheck) haddr (fun j => ?_) hpoints hfault hlog
    by_cases hji : j = i
    · rw [hji]
      exact Function.update_self ..
    · exact (Function.update_of_ne hji ..).trans (hothers j hji)

/-- A round of the loop over the enclaves. -/
theorem Sound.scan {byKey : Bool} {k : Nat} (h : Sound l s) (hle : k ≤ i.val)
    (hdone : ∀ j, s.handlers j = none) (hmatch : s.matchesLabel l byKey i = true)
    (hfault : .fault i ∈ s.log) (hlog : HandledBut (· = i) s.log) :
    Sound l (s.scan l byKey k) := by
  have hlt : k < numEnclaves := Nat.lt_of_le_of_lt hle i.isLt
  rw [FaultState.scan, dif_pos hlt]
  by_cases heq : k = i.val
  · subst heq
    rw [if_pos hmatch]
    refine ⟨h.attributed.concat _ (fun j hj => ?_) (by simp), .clearing rfl hdone hlog.stopped⟩
    cases hj
    exact hfault
  · have hno : ¬ s.matchesLabel l byKey ⟨k, hlt⟩ = true := fun hk =>
      heq (congrArg Fin.val (matchesLabel_unique hmatch hk)).symm
    rw [if_neg hno]
    exact ⟨h.attributed, .scanning i byKey (k + 1) rfl (by omega) hdone hmatch hfault hlog⟩

/-- The loop's next access. -/
theorem Sound.loop (h : Sound l s) (hok : s.Orderly l .loop) : Sound l (s.loop l) := by
  unfold FaultState.loop
  cases h.phase with
  | idle hidle =>
    rw [hidle.check]
    simp only [hidle.faultAddr, if_true]
    exact h
  | storing i key hcheck haddr hself =>
    rw [hok hcheck haddr i] at hself
    contradiction
  | recorded i hcheck haddr hdone hpoints hfault hlog =>
    rcases hcheck with hcheck | hcheck
    · rw [hcheck]
      simp only [haddr, if_false]
      exact ⟨h.attributed, .recorded i (.inr rfl) haddr hdone hpoints hfault hlog⟩
    · rw [hcheck]
      refine ⟨h.attributed, .scanning i _ 0 rfl (Nat.zero_le _) hdone ?_ hfault hlog⟩
      unfold Points at hpoints
      unfold matchesLabel
      by_cases hkey : s.faultKey = 0
      · simpa [hkey] using hpoints
      · simpa [hkey] using hpoints
  | scanning i byKey k hcheck hle hdone hmatch hfault hlog =>
    rw [hcheck]
    exact h.scan hle hdone hmatch hfault hlog
  | clearing hcheck hdone hlog =>
    rw [hcheck]
    exact ⟨h.attributed.concat _ (by simp) fun _ => hlog,
      .clearingKey rfl rfl hdone (handledBut_cleared _)⟩
  | clearingKey hcheck haddr hdone hlog =>
    rw [hcheck]
    exact ⟨h.attributed, .idle ⟨rfl, haddr, rfl, hdone⟩ hlog⟩

/-- Nothing on record is in the regions. -/
theorem Sound.enclave (h : Sound l s) (i : Fin numEnclaves) (e : Enclave) :
    Sound l { s with enclaves := Function.update s.enclaves i e } := by
  refine ⟨h.attributed, ?_⟩
  cases h.phase with
  | idle hidle hlog => exact .idle ⟨hidle.1, hidle.2, hidle.3, hidle.4⟩ hlog
  | storing i key h₁ h₂ h₃ h₄ h₅ h₆ h₇ => exact .storing i key h₁ h₂ h₃ h₄ h₅ h₆ h₇
  | recorded i h₁ h₂ h₃ h₄ h₅ h₆ => exact .recorded i h₁ h₂ h₃ h₄ h₅ h₆
  | scanning i byKey k h₁ h₂ h₃ h₄ h₅ h₆ => exact .scanning i byKey k h₁ h₂ h₃ h₄ h₅ h₆
  | clearing h₁ h₂ h₃ => exact .clearing h₁ h₂ h₃
  | clearingKey h₁ h₂ h₃ h₄ => exact .clearingKey h₁ h₂ h₃ h₄

theorem Sound.step {a : FaultAct} (h : Sound l s) (hok : s.Orderly l a) (hstep : Step l s a t) :
    Sound l t := by
  cases a with
  | fault i addr pku => exact h.fault hok hstep
  | storeKey i => exact h.storeKey hstep
  | loop =>
    cases hstep
    exact h.loop hok
  | enclave i e =>
    cases hstep
    exact h.enclave i e

theorem sound_init (l : Labels) (enclaves : Fin numEnclaves → Enclave) :
    Sound l (init enclaves) where
  attributed := attributed_nil
  phase := .idle ⟨rfl, rfl, rfl, fun _ => rfl⟩ fun before j between h => by simp [init] at h

/-- An enclave that is stopped has its exit flag set. -/
theorem exit_of_stopped (hstep : Step l s .loop t) (hlog : t.log = s.log ++ [.stopped i]) :
    (t.enclaves i).data exitOffset = 1 := by
  cases hstep
  unfold FaultState.loop FaultState.scan at hlog ⊢
  cases hcheck : s.check with
  | polling =>
    rw [hcheck] at hlog
    dsimp only at hlog
    split at hlog <;> simp at hlog
  | attributing | clearing | clearingKey =>
    rw [hcheck] at hlog
    simp at hlog
  | scanning byKey k =>
    rw [hcheck] at hlog
    dsimp only at hlog ⊢
    split at hlog
    next hk =>
      split at hlog
      next hmatch =>
        have hi : (⟨k, hk⟩ : Fin numEnclaves) = i := by simpa [stop] using hlog
        subst hi
        simp [hk, hmatch, stop, Enclave.stop]
      next => simp at hlog
    next => simp at hlog

/-- **Faults are attributed to the enclave that faulted**, in every run in which each fault
leads to its enclave and is on record alone; and what is logged as a stop sets the exit flag. -/
theorem faults_attributed (l : Labels) (enclaves : Fin numEnclaves → Enclave)
    {acts : List FaultAct} {s : FaultState}
    (hrun : Run (Guarded (Orderly l) (Step l)) (init enclaves) acts s) :
    Attributed s.log ∧ ∀ i t, Step l s .loop t → t.log = s.log ++ [.stopped i] →
      (t.enclaves i).data exitOffset = 1 := by
  have hsound : Sound l s :=
    hrun.invariant (fun _ _ _ h hstep => h.step hstep.1 hstep.2) (sound_init l enclaves)
  exact ⟨hsound.attributed, fun _ _ hstep hlog => exit_of_stopped hstep hlog⟩

/-! ## two runs -/

/-- Labels from one on. -/
def sampleLabel (i : Fin numEnclaves) : UInt32 := UInt32.ofNat (i.val + 1)

theorem sampleLabel_ne_zero : ∀ i, sampleLabel i ≠ 0 := by decide

theorem sampleLabel_inj : ∀ i j, sampleLabel i = sampleLabel j → i = j := by decide

/-- A region of 64 KiB for each enclave but the first. -/
def sampleLabels : Labels where
  label := sampleLabel
  label_ne_zero := sampleLabel_ne_zero
  label_inj i j h := sampleLabel_inj i j h
  owner addr :=
    if h : addr.toNat / 0x10000 < numEnclaves ∧ 0x10000 ≤ addr.toNat then
      some ⟨addr.toNat / 0x10000, h.1⟩
    else none

/-- Enclaves without a flag. -/
def sampleEnclaves : Fin numEnclaves → Enclave := fun _ => .init 1 (Vector.replicate 4096 0)

theorem two_lt_numEnclaves : 2 < numEnclaves := by decide

def enclaveOne : Fin numEnclaves := ⟨1, one_lt_numEnclaves⟩
def enclaveTwo : Fin numEnclaves := ⟨2, two_lt_numEnclaves⟩

/-- A protection-key fault in the region of enclave 2, and the loop handles it. -/
def faultInTwo (i : Fin numEnclaves) : List FaultAct :=
  [FaultAct.fault i 0x20008 true, .storeKey i] ++ List.replicate 7 .loop

/-- Enclave 2 faults in its own region, and then enclave 1 at the address that is its label; the
loop is about to stop it. -/
def ownFaults : List FaultAct :=
  faultInTwo enclaveTwo ++ [.fault enclaveOne 2 false, .loop, .loop, .loop]

theorem faults_attributed_own : ∃ s t,
    Run (Guarded (Orderly sampleLabels) (Step sampleLabels)) (init sampleEnclaves) ownFaults s ∧
    s.log = [.fault enclaveTwo, .stopped enclaveTwo, .cleared, .fault enclaveOne] ∧
    Attributed s.log ∧ Step sampleLabels s .loop t ∧ (t.enclaves enclaveOne).data exitOffset = 1 := by
  have hexec : (exec (fun s a => if Orderly sampleLabels s a then step sampleLabels s a else none)
      (init sampleEnclaves) ownFaults).map (fun s => (s.log, (s.loop sampleLabels).log)) =
        some ([.fault enclaveTwo, .stopped enclaveTwo, .cleared, .fault enclaveOne],
          [.fault enclaveTwo, .stopped enclaveTwo, .cleared, .fault enclaveOne,
            .stopped enclaveOne]) := by
    decide +kernel
  obtain ⟨s, hs, hlogs⟩ := Option.map_eq_some_iff.1 hexec
  obtain ⟨hlog, hnext⟩ := Prod.mk.inj hlogs
  have hrun := run_guarded_of_exec hs
  obtain ⟨hattributed, hexit⟩ := faults_attributed sampleLabels sampleEnclaves hrun
  exact ⟨s, s.loop sampleLabels, hrun, hlog, hattributed, rfl,
    hexit enclaveOne _ rfl (by rw [hnext, hlog]; rfl)⟩

/-- **An access to another enclave stops the other enclave**: the key is the one of the page. -/
theorem fault_stops_victim : ∃ s,
    Run (Step sampleLabels) (init sampleEnclaves) (faultInTwo enclaveOne) s ∧
    s.log = [.fault enclaveOne, .stopped enclaveTwo, .cleared] ∧ ¬ Attributed s.log := by
  have hexec : (exec (step sampleLabels) (init sampleEnclaves) (faultInTwo enclaveOne)).map log =
      some [.fault enclaveOne, .stopped enclaveTwo, .cleared] := by
    decide +kernel
  obtain ⟨s, hs, hlog⟩ := Option.map_eq_some_iff.1 hexec
  refine ⟨s, (run_iff_exec _).2 hs, hlog, fun h => ?_⟩
  have hmem := h.stopped [.fault enclaveOne] enclaveTwo [.cleared] hlog
  rw [List.mem_singleton] at hmem
  cases hmem

end FaultState

end Ooows.Ogx
