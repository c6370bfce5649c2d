import Ooows.Ogx.Enclave
import Mathlib.Data.List.GetD

/-!
# Ooows.Ogx.Isolation

What one payload can see of the payloads before it.

An enclave is `Clean` when its data and stack regions are zero, the exit flag aside.
`execute` clears the regions when the payload returns zero or more.  It does not when
the payload returns a negative value, nor are the data of a rejected payload removed,
and the next call loads its own data over them without clearing.  `LeavesNothing` is
the condition on a call under which a clean enclave stays clean
(`clean_execute_iff`); as long as all calls meet it two histories can be told apart only
by the global `unprivileged`, which is set once a call on any enclave got past the size
checks (`entered`), and the first call that does not can be seen (`exists_probe`).
-/

namespace Ooows.Ogx

open Lib

/-- Nothing is left of earlier payloads; the exit flag is reset on every call. -/
structure Clean (e : Enclave) : Prop where
  data : ∀ i ≠ exitOffset, e.data i = 0
  stack : ∀ i, e.stack i = 0

namespace Enclave

/-- The data region a payload finds. -/
def dataFor (e : Enclave) (call : Call) : Region :=
  Function.update (memcpy e.baseData call.data) exitOffset 0

/-- What the payload of a call does. -/
def outcome (e : Enclave) (call : Call) : Int32 × Region × Region :=
  call.payload (memcpy zeroed call.code) (e.dataFor call) e.stack

end Enclave

/-- A payload is refused for its instructions. -/
def Refused (unprivileged : Bool) (call : Call) : Prop :=
  (unprivileged && hasIllegalInstruction (memcpy zeroed call.code)) = true

/-- A call leaves nothing behind: it is too large to be loaded, or it is refused and has
only zeros for data, or its payload does not return a negative value, or returns one
and leaves only zeros. -/
def LeavesNothing (e : Enclave) (unprivileged : Bool) (call : Call) : Prop :=
  call.code.length > regionSize ∨ call.data.length > regionSize ∨
  (Refused unprivileged call ∧
    ∀ i : Fin regionSize, i ≠ exitOffset → call.data.getD i.val 0 = 0) ∨
  (¬ Refused unprivileged call ∧
    (¬ (e.outcome call).1 < 0 ∨
      (∀ i ≠ exitOffset, (e.outcome call).2.1 i = 0) ∧ ∀ i, (e.outcome call).2.2 i = 0))

/-! ## the ways out of a call -/

section Execute

variable {e : Enclave} {unprivileged : Bool} {call : Call}

theorem execute_code_size (hcode : call.code.length > regionSize) :
    e.execute unprivileged call =
      (.error (sizeExceeded "code" call.code.length), e, unprivileged) :=
  if_pos hcode

theorem execute_data_size (hcode : ¬ call.code.length > regionSize)
    (hdata : call.data.length > regionSize) :
    e.execute unprivileged call =
      (.error (sizeExceeded "data" call.data.length),
        { e with code := memcpy zeroed call.code }, unprivileged) := by
  rw [Enclave.execute, if_neg hcode]
  exact if_pos hdata

theorem execute_refused (hcode : ¬ call.code.length > regionSize)
    (hdata : ¬ call.data.length > regionSize) (hrefused : Refused unprivileged call) :
    e.execute unprivileged call = (.error "found illegal instruction, aborting load",
      { e with code := zeroed, data := memcpy e.baseData call.data }, unprivileged) := by
  rw [Enclave.execute, if_neg hcode]
  dsimp only
  rw [if_neg hdata]
  exact if_pos hrefused

/-- What comes back from a payload that was run. -/
def resultOf (outcome : Int32 × Region × Region) : List UInt8 :=
  if 0 < outcome.1 ∧ outcome.1 < 128 then
    (List.range outcome.1.toNatClampNeg).map (byteAt outcome.2.1)
  else []

/-- The enclave after a payload that was run: it is cleaned unless the value returned is
negative. -/
def Enclave.settle (e : Enclave) (call : Call) (outcome : Int32 × Region × Region) : Enclave :=
  if outcome.1 < 0 then
    ⟨memcpy zeroed call.code, outcome.2.1, outcome.2.2, e.flag⟩
  else ⟨zeroed, zeroed, zeroed, e.flag⟩

theorem execute_run (hcode : ¬ call.code.length > regionSize)
    (hdata : ¬ call.data.length > regionSize) (hrun : ¬ Refused unprivileged call) :
    e.execute unprivileged call =
      (.ok (resultOf (e.outcome call)), e.settle call (e.outcome call), true) := by
  have hpos : ∀ r : Int32, 0 < r → ¬ r < 0 := fun r hr => by
    rw [Int32.lt_iff_toInt_lt] at hr ⊢
    have : (0 : Int32).toInt = 0 := rfl
    omega
  rw [Enclave.execute, if_neg hcode]
  dsimp only
  rw [if_neg hdata]
  refine (if_neg hrun).trans ?_
  change (if 0 < (e.outcome call).1 ∧ (e.outcome call).1 < 128 then _
    else if (e.outcome call).1 < 0 then _ else _) = _
  unfold resultOf Enclave.settle
  by_cases hpositive : 0 < (e.outcome call).1 ∧ (e.outcome call).1 < 128
  · rw [if_pos hpositive, if_pos hpositive, if_neg (hpos _ hpositive.1)]
    rfl
  · rw [if_neg hpositive, if_neg hpositive]
    by_cases hneg : (e.outcome call).1 < 0
    · rw [if_pos hneg, if_pos hneg]
      rfl
    · rw [if_neg hneg, if_neg hneg]

end Execute

theorem flag_execute (e : Enclave) (unprivileged : Bool) (call : Call) :
    (e.execute unprivileged call).2.1.flag = e.flag := by
  by_cases hcode : call.code.length > regionSize
  · rw [execute_code_size hcode]
  by_cases hdata : call.data.length > regionSize
  · rw [execute_data_size hcode hdata]
  by_cases hrefused : Refused unprivileged call
  · rw [execute_refused hcode hdata hrefused]
  · rw [execute_run hcode hdata hrefused]
    show (Enclave.settle _ _ _).flag = _
    unfold Enclave.settle
    split <;> rfl

/-- The code and the data of a call have room in their regions. -/
def Call.fits (call : Call) : Bool :=
  call.code.length ≤ regionSize && call.data.length ≤ regionSize

/-- `unprivileged` is set by every call that has room, and never reset. -/
theorem unprivileged_execute (e : Enclave) (unprivileged : Bool) (call : Call) :
    (e.execute unprivileged call).2.2 = (unprivileged || call.fits) := by
  by_cases hcode : call.code.length > regionSize
  · rw [execute_code_size hcode]
    simp [Call.fits, Nat.not_le.2 hcode]
  by_cases hdata : call.data.length > regionSize
  · rw [execute_data_size hcode hdata]
    simp [Call.fits, Nat.not_le.2 hdata]
  have hfits : call.fits = true := by simp [Call.fits, Nat.not_lt.1 hcode, Nat.not_lt.1 hdata]
  rw [hfits, Bool.or_true]
  by_cases hrefused : Refused unprivileged call
  · rw [execute_refused hcode hdata hrefused]
    exact (Bool.and_eq_true_iff.1 hrefused).1
  · rw [execute_run hcode hdata hrefused]

/-! ## clean enclaves -/

section Clean

variable {e e' : Enclave} {unprivileged : Bool} {call : Call}

theorem memcpy_eq_zero_iff {r : Region} {bytes : List UInt8} {i : Fin regionSize} (hr : r i = 0) :
    memcpy r bytes i = 0 ↔ bytes.getD i.val 0 = 0 := by
  rw [memcpy, hr]

theorem baseData_of_flag (hflag : e.flag = none) : e.baseData = e.data := by
  rw [Enclave.baseData, hflag]

/-- All clean enclaves show a payload the same. -/
theorem outcome_eq (he : Clean e) (he' : Clean e') (hflag : e.flag = none) (hflag' : e'.flag = none)
    (call : Call) : e.outcome call = e'.outcome call := by
  have hdata : e.dataFor call = e'.dataFor call := by
    funext i
    rw [Enclave.dataFor, Enclave.dataFor, baseData_of_flag hflag, baseData_of_flag hflag']
    by_cases hi : i = exitOffset
    · rw [hi, Function.update_self, Function.update_self]
    · rw [Function.update_of_ne hi, Function.update_of_ne hi, memcpy, memcpy, he.data i hi,
        he'.data i hi]
  have hstack : e.stack = e'.stack := by
    funext i
    rw [he.stack, he'.stack]
  rw [Enclave.outcome, Enclave.outcome, hdata, hstack]

/-- What a call on a clean enclave returns does not depend on the enclave. -/
theorem result_eq (he : Clean e) (he' : Clean e') (hflag : e.flag = none) (hflag' : e'.flag = none) :
    (e.execute unprivileged call).1 = (e'.execute unprivileged call).1 := by
  by_cases hcode : call.code.length > regionSize
  · rw [execute_code_size hcode, execute_code_size hcode]
  by_cases hdata : call.data.length > regionSize
  · rw [execute_data_size hcode hdata, execute_data_size hcode hdata]
  by_cases hrefused : Refused unprivileged call
  · rw [execute_refused hcode hdata hrefused, execute_refused hcode hdata hrefused]
  · rw [execute_run hcode hdata hrefused, execute_run hcode hdata hrefused,
      outcome_eq he he' hflag hflag']

/-- **A clean enclave stays clean exactly when the call leaves nothing behind.** -/
theorem clean_execute_iff (he : Clean e) (hflag : e.flag = none) :
    Clean (e.execute unprivileged call).2.1 ↔ LeavesNothing e unprivileged call := by
  unfold LeavesNothing
  by_cases hcode : call.code.length > regionSize
  · rw [execute_code_size hcode]
    exact ⟨fun _ => .inl hcode, fun _ => he⟩
  by_cases hdata : call.data.length > regionSize
  · rw [execute_data_size hcode hdata]
    exact ⟨fun _ => .inr (.inl hdata), fun _ => ⟨he.data, he.stack⟩⟩
  simp only [hcode, hdata, false_or]
  by_cases hrefused : Refused unprivileged call
  · simp only [hrefused, not_true_eq_false, true_and, false_and, or_false]
    rw [execute_refused hcode hdata hrefused, baseData_of_flag hflag]
    constructor
    · intro hclean i hi
      exact (memcpy_eq_zero_iff (he.data i hi)).1 (hclean.data i hi)
    · intro hzero
      exact ⟨fun i hi => (memcpy_eq_zero_iff (he.data i hi)).2 (hzero i hi), he.stack⟩
  · simp only [hrefused, not_false_eq_true, true_and, false_and, false_or]
    rw [execute_run hcode hdata hrefused]
    unfold Enclave.settle
    by_cases hneg : (e.outcome call).1 < 0
    · simp only [hneg, if_true, not_true_eq_false, false_or]
      exact ⟨fun hclean => ⟨hclean.data, hclean.stack⟩, fun hzero => ⟨hzero.1, hzero.2⟩⟩
    · simp only [hneg, if_false, not_false_eq_true, true_or, iff_true]
      exact ⟨fun _ _ => rfl, fun _ => rfl⟩

end Clean

/-! ## looking into an enclave -/

/-- The bytes occur in the code itself. -/
def occurs (code needle : List UInt8) : Bool :=
  (List.range code.length).any fun i =>
    (List.range needle.length).all fun j => code.getD (i + j) 0 = needle.getD j 0

theorem byteAt_memcpy_zeroed {code : List UInt8} {k : Nat} (hk : k < regionSize) :
    byteAt (memcpy zeroed code) k = code.getD k 0 := by
  rw [byteAt, dif_pos hk]
  rfl

/-- Bytes that do not begin with zero are only found where the code was loaded. -/
theorem occurs_of_memmem {code needle : List UInt8} (hneedle : needle.getD 0 0 ≠ 0)
    (h : memmem (memcpy zeroed code) needle = true) : occurs code needle = true := by
  have hpos : 0 < needle.length := by
    cases needle with
    | nil => exact absurd rfl hneedle
    | cons b rest => exact Nat.succ_pos _
  simp only [memmem, List.any_eq_true, List.all_eq_true, List.mem_range, decide_eq_true_eq] at h
  obtain ⟨i, hi, hall⟩ := h
  have hcode : ∀ j < needle.length, code.getD (i + j) 0 = needle.getD j 0 := by
    intro j hj
    rw [← hall j hj, byteAt_memcpy_zeroed (by omega)]
  have hlt : i < code.length := by
    by_contra hge
    have hzero := hcode 0 hpos
    rw [Nat.add_zero, List.getD_eq_default _ _ (Nat.not_lt.1 hge)] at hzero
    exact hneedle hzero.symm
  simp only [occurs, List.any_eq_true, List.all_eq_true, List.mem_range, decide_eq_true_eq]
  exact ⟨i, hlt, hcode⟩

/-- The code of `ogx_enclave_read`: the tag, `mov eax, 64` and `ret`. -/
def enclaveRead : List UInt8 :=
  [0x42, 0x42, 0x59, 0x4f, 0x4f, 0x4f, 0x47, 0x58, 0xb8, 0x40, 0x00, 0x00, 0x00, 0xc3]

theorem not_refused_of_not_occurs {call : Call} (unprivileged : Bool)
    (h : illegalInstructions.any (occurs call.code) = false) : ¬ Refused unprivileged call := by
  intro hrefused
  rw [Refused, Bool.and_eq_true, hasIllegalInstruction, List.any_eq_true] at hrefused
  obtain ⟨needle, hmem, hfound⟩ := hrefused.2
  have hne : ∀ needle ∈ illegalInstructions, needle.getD 0 0 ≠ 0 := by decide
  have hoccurs := occurs_of_memmem (hne needle hmem) hfound
  exact absurd (List.any_eq_true.2 ⟨needle, hmem, hoccurs⟩) (by rw [h]; exact Bool.false_ne_true)

/-- A payload that hands out one byte of what it finds. -/
def probe (look : (data stack : Region) → UInt8) : Call where
  code := enclaveRead
  data := []
  payload _ data stack := (1, fun _ => look data stack, stack)

/-- The first byte of a region. -/
def firstOffset : Fin regionSize := ⟨0, by decide⟩

theorem byteAt_zero (r : Region) : byteAt r 0 = r firstOffset := dif_pos firstOffset.isLt

theorem resultOf_one (data stack : Region) : resultOf (1, data, stack) = [data firstOffset] := by
  have hone : (1 : Int32).toNatClampNeg = 1 := by decide
  have hpos : (0 : Int32) < 1 ∧ (1 : Int32) < 128 := by decide
  rw [resultOf, if_pos hpos, hone]
  rfl

theorem execute_probe (e : Enclave) (hflag : e.flag = none) (unprivileged : Bool)
    (look : (data stack : Region) → UInt8) :
    (e.execute unprivileged (probe look)).1 =
      .ok [look (Function.update e.data exitOffset 0) e.stack] := by
  have hcode : ¬ enclaveRead.length > regionSize := by decide
  have hnone : ¬ ([] : List UInt8).length > regionSize := by decide
  have hlegal : illegalInstructions.any (occurs enclaveRead) = false := by decide
  have hdata : e.dataFor (probe look) = Function.update e.data exitOffset 0 := by
    rw [Enclave.dataFor, baseData_of_flag hflag]
    rfl
  rw [execute_run hcode hnone (not_refused_of_not_occurs unprivileged hlegal), Enclave.outcome,
    hdata]
  exact congrArg Except.ok (resultOf_one _ _)

/-- **What is left can be seen**: a call tells an enclave that is not clean from one that is. -/
theorem exists_probe {e e' : Enclave} (unprivileged : Bool) (hflag : e.flag = none)
    (hflag' : e'.flag = none) (he : ¬ Clean e) (he' : Clean e') :
    ∃ next, (e.execute unprivileged next).1 ≠ (e'.execute unprivileged next).1 := by
  have hsome : (∃ i, i ≠ exitOffset ∧ e.data i ≠ 0) ∨ ∃ i, e.stack i ≠ 0 := by
    by_contra hnone
    refine he ⟨fun i hi => ?_, fun i => ?_⟩
    · by_contra hne
      exact hnone (.inl ⟨i, hi, hne⟩)
    · by_contra hne
      exact hnone (.inr ⟨i, hne⟩)
  rcases hsome with ⟨i, hi, hne⟩ | ⟨i, hne⟩
  · refine ⟨probe fun data _ => data i, ?_⟩
    rw [execute_probe e hflag unprivileged, execute_probe e' hflag' unprivileged, Function.update_of_ne hi,
      Function.update_of_ne hi, he'.data i hi]
    intro h
    injection h with h
    injection h with h
    exact hne h
  · refine ⟨probe fun _ stack => stack i, ?_⟩
    rw [execute_probe e hflag unprivileged, execute_probe e' hflag' unprivileged, he'.stack i]
    intro h
    injection h with h
    injection h with h
    exact hne h

/-- A payload that holds a `syscall`. -/
def syscallCall : Call := ⟨[0x0f, 0x05], [], fun _ data stack => (0, data, stack)⟩

/-- It is run as long as `unprivileged` is not set. -/
theorem execute_syscall_ne (e e' : Enclave) :
    (e.execute true syscallCall).1 ≠ (e'.execute false syscallCall).1 := by
  have hcode : ¬ syscallCall.code.length > regionSize := by decide
  have hdata : ¬ syscallCall.data.length > regionSize := by decide
  have hfound : memmem (memcpy zeroed syscallCall.code) [0x0f, 0x05] = true := by
    simp only [memmem, List.any_eq_true, List.mem_range]
    refine ⟨0, by decide, ?_⟩
    simp only [List.all_eq_true, List.mem_range, decide_eq_true_eq]
    intro j hj
    rw [Nat.zero_add, byteAt_memcpy_zeroed (Nat.lt_trans hj (by decide))]
    rfl
  have hrefused : Refused true syscallCall := by
    rw [Refused, Bool.true_and, hasIllegalInstruction, List.any_eq_true]
    exact ⟨_, by decide, hfound⟩
  have hrun : ¬ Refused false syscallCall := Bool.false_ne_true
  rw [execute_refused hcode hdata hrefused, execute_run hcode hdata hrun]
  exact nofun

/-! ## the device -/

section Device

variable {d t : Device} {id : Fin numEnclaves}

theorem load_eq (d : Device) (id : Fin numEnclaves) (call : Call) :
    d.load id.val call =
      (((d.enclaves id).execute d.unprivileged call).1,
        ⟨Function.update d.enclaves id ((d.enclaves id).execute d.unprivileged call).2.1,
          ((d.enclaves id).execute d.unprivileged call).2.2⟩) :=
  dif_pos id.isLt

theorem load_result (d : Device) (id : Fin numEnclaves) (call : Call) :
    (d.load id.val call).1 = ((d.enclaves id).execute d.unprivileged call).1 := by
  rw [load_eq]

theorem load_self (d : Device) (id : Fin numEnclaves) (call : Call) :
    (d.load id.val call).2.enclaves id = ((d.enclaves id).execute d.unprivileged call).2.1 := by
  rw [load_eq]
  exact Function.update_self _ _ _

/-- A load event changes one enclave at most. -/
theorem load_other {n : Nat} (hn : n ≠ id.val) (call : Call) :
    (d.load n call).2.enclaves id = d.enclaves id := by
  unfold Device.load
  split
  next hlt => exact Function.update_of_ne (fun h => hn (congrArg Fin.val h).symm) _ _
  next => rfl

theorem unprivileged_load (d : Device) (n : Nat) (call : Call) :
    (d.load n call).2.unprivileged = (d.unprivileged || (n < numEnclaves && call.fits)) := by
  unfold Device.load
  split
  next hlt =>
    rw [decide_eq_true hlt, Bool.true_and]
    exact unprivileged_execute _ _ call
  next hge => rw [decide_eq_false hge, Bool.false_and, Bool.or_false]

/-- Some call of a history got past the size checks. -/
def entered (history : List (Nat × Call)) : Bool :=
  history.any fun load => load.1 < numEnclaves && load.2.fits

/-- **The invariant**: an enclave without the secret holds nothing of earlier payloads. -/
structure Sealed (id : Fin numEnclaves) (d : Device) : Prop where
  flag : (d.enclaves id).flag = none
  clean : Clean (d.enclaves id)

/-- A load event leaves nothing behind in the enclave `id`. -/
def LoadSafe (id : Fin numEnclaves) (d : Device) (load : Nat × Call) : Prop :=
  load.1 = id.val → LeavesNothing (d.enclaves id) d.unprivileged load.2

theorem Sealed.load_iff (h : Sealed id d) (call : Call) :
    Sealed id (d.load id.val call).2 ↔ LeavesNothing (d.enclaves id) d.unprivileged call := by
  rw [← clean_execute_iff h.clean h.flag, ← load_self]
  refine ⟨fun ht => ht.clean, fun hclean => ⟨?_, hclean⟩⟩
  rw [load_self, flag_execute]
  exact h.flag

theorem Sealed.step (h : Sealed id d) {load : Nat × Call} (hsafe : LoadSafe id d load)
    (ht : d.step load t) : Sealed id t := by
  subst ht
  by_cases hid : load.1 = id.val
  · rw [hid]
    exact (h.load_iff load.2).2 (hsafe hid)
  · refine ⟨?_, ?_⟩
    · rw [load_other hid]
      exact h.flag
    · rw [load_other hid]
      exact h.clean

/-- At the start every enclave but the flag enclave is sealed. -/
theorem sealed_start (secret : Vector UInt8 4096) (id : Fin numEnclaves) (hid : id.val ≠ 0) :
    Sealed id (Device.start secret) :=
  ⟨if_neg hid, fun _ _ => rfl, fun _ => rfl⟩

/-- The guarded runs of the device. -/
abbrev SafeRun (id : Fin numEnclaves) : Device → List (Nat × Call) → Device → Prop :=
  Run (Guarded (LoadSafe id) Device.step)

/-- After a history the enclave is sealed, and `unprivileged` says whether a call was entered. -/
theorem sealed_of_run {secret : Vector UInt8 4096} {history : List (Nat × Call)}
    (hid : id.val ≠ 0) (hrun : SafeRun id (Device.start secret) history t) :
    Sealed id t ∧ t.unprivileged = entered history := by
  induction hrun with
  | refl => exact ⟨sealed_start secret id hid, rfl⟩
  | tail _ hstep ih =>
    refine ⟨ih.1.step hstep.1 hstep.2, ?_⟩
    obtain ⟨-, rfl⟩ := hstep
    simp [unprivileged_load, ih.2, entered]

/-- What sealed enclaves return. -/
theorem Sealed.result_eq (hd : Sealed id d) (ht : Sealed id t)
    (hpriv : d.unprivileged = t.unprivileged) (next : Call) :
    (d.load id.val next).1 = (t.load id.val next).1 := by
  rw [load_result, load_result, hpriv]
  exact Ogx.result_eq hd.clean ht.clean hd.flag ht.flag

/-- The two values of `unprivileged` can be told apart. -/
theorem unprivileged_eq_of_results (h : ∀ next, (d.load id.val next).1 = (t.load id.val next).1) :
    d.unprivileged = t.unprivileged := by
  have hcall := h syscallCall
  rw [load_result, load_result] at hcall
  cases hd : d.unprivileged with
  | false =>
    cases ht : t.unprivileged with
    | false => rfl
    | true =>
      rw [hd, ht] at hcall
      exact absurd hcall.symm (execute_syscall_ne _ _)
  | true =>
    cases ht : t.unprivileged with
    | false =>
      rw [hd, ht] at hcall
      exact absurd hcall (execute_syscall_ne _ _)
    | true => rfl

/-- **Payload isolation.**  After two histories of load events whose calls on the enclave all leave
nothing behind, every next call returns the same exactly if in both or in neither of them some call
got past the size checks; and one more call `c` that does not change this keeps it so exactly when
`c` leaves nothing behind. -/
theorem isolated_iff_leavesNothing (secret : Vector UInt8 4096) (hid : id.val ≠ 0)
    {h₁ h₂ : List (Nat × Call)} {s₁ s₂ : Device} (r₁ : SafeRun id (Device.start secret) h₁ s₁)
    (r₂ : SafeRun id (Device.start secret) h₂ s₂) :
    ((∀ next, (s₁.load id.val next).1 = (s₂.load id.val next).1) ↔ entered h₁ = entered h₂) ∧
    ∀ c, entered (h₁ ++ [(id.val, c)]) = entered h₂ →
      ((∀ next, ((s₁.load id.val c).2.load id.val next).1 = (s₂.load id.val next).1) ↔
        LeavesNothing (s₁.enclaves id) s₁.unprivileged c) := by
  obtain ⟨hs₁, hpriv₁⟩ := sealed_of_run hid r₁
  obtain ⟨hs₂, hpriv₂⟩ := sealed_of_run hid r₂
  refine ⟨⟨fun hsame => ?_, fun heq => hs₁.result_eq hs₂ (by rw [hpriv₁, hpriv₂, heq])⟩,
    fun c hc => ?_⟩
  · rw [← hpriv₁, ← hpriv₂]
    exact unprivileged_eq_of_results hsame
  · have hpriv : (s₁.load id.val c).2.unprivileged = s₂.unprivileged := by
      rw [unprivileged_load, hpriv₁, hpriv₂, ← hc]
      simp [entered]
    refine ⟨fun hsame => ?_, fun hleaves => ((hs₁.load_iff c).2 hleaves).result_eq hs₂ hpriv⟩
    rw [← hs₁.load_iff]
    have hflag : ((s₁.load id.val c).2.enclaves id).flag = none := by
      rw [load_self, flag_execute]
      exact hs₁.flag
    refine ⟨hflag, ?_⟩
    by_contra hclean
    obtain ⟨next, hnext⟩ := exists_probe s₂.unprivileged hflag hs₂.flag hclean hs₂.clean
    have heq := hsame next
    rw [load_result, load_result, hpriv] at heq
    exact hnext heq

/-- Code that stores a seven at the start of the data region and returns a value:
`mov byte [rdx], 7`, `mov eax, imm32` and `ret`, after the tag. -/
def storeSeven (imm32 : List UInt8) (result : Int32) : Call where
  code := [0x42, 0x42, 0x59, 0x4f, 0x4f, 0x4f, 0x47, 0x58, 0xc6, 0x02, 0x07, 0xb8] ++ imm32 ++ [0xc3]
  data := []
  payload _ data stack := (result, Function.update data firstOffset 7, stack)

theorem outcome_storeSeven (e : Enclave) (imm32 : List UInt8) (result : Int32) :
    e.outcome (storeSeven imm32 result) =
      (result, Function.update (e.dataFor (storeSeven imm32 result)) firstOffset 7, e.stack) := rfl

/-- A flag enclave that returns at once. -/
def idleFlag : FlagEnclave := ⟨[], by decide, fun _ data stack => (0, data, stack)⟩

/-- The call that `main` schedules. -/
def flagCall : Call := ⟨idleFlag.code, [], idleFlag.payload⟩

/-- A payload that returns zero is not seen by the next one, be it the guest's or the flag
enclave's that came before. -/
theorem isolated_after_zero : ∃ s₁ s₂,
    SafeRun ⟨1, by decide⟩ (Device.start (.replicate 4096 0)) [(1, storeSeven [0, 0, 0, 0] 0)] s₁ ∧
    SafeRun ⟨1, by decide⟩ (Device.start (.replicate 4096 0)) [(0, flagCall)] s₂ ∧
    ∀ next, (s₁.load 1 next).1 = (s₂.load 1 next).1 := by
  have hsafe : LoadSafe ⟨1, by decide⟩ (Device.start (.replicate 4096 0))
      (1, storeSeven [0, 0, 0, 0] 0) := by
    intro _
    have hlegal : illegalInstructions.any (occurs (storeSeven [0, 0, 0, 0] 0).code) = false := by
      decide
    have hnonneg : ¬ (0 : Int32) < 0 := by decide
    exact .inr (.inr (.inr ⟨not_refused_of_not_occurs _ hlegal, .inl hnonneg⟩))
  have hrun : SafeRun ⟨1, by decide⟩ (Device.start (.replicate 4096 0))
      [(1, storeSeven [0, 0, 0, 0] 0)] _ := .single ⟨hsafe, rfl⟩
  have hrun' : SafeRun ⟨1, by decide⟩ (Device.start (.replicate 4096 0)) [(0, flagCall)] _ :=
    .single ⟨nofun, rfl⟩
  exact ⟨_, _, hrun, hrun', (isolated_iff_leavesNothing _ (by decide) hrun hrun').1.2 (by decide)⟩

/-- `ogx_enclave_read`: hands out the first 64 bytes of the data region. -/
def readCall : Call := ⟨enclaveRead, [], fun _ data stack => (64, data, stack)⟩

theorem execute_read {e : Enclave} (hflag : e.flag = none) (unprivileged : Bool) :
    (e.execute unprivileged readCall).1 =
      .ok ((List.range 64).map (byteAt (Function.update e.data exitOffset 0))) := by
  have hcode : ¬ enclaveRead.length > regionSize := by decide
  have hnone : ¬ ([] : List UInt8).length > regionSize := by decide
  have hlegal : illegalInstructions.any (occurs enclaveRead) = false := by decide
  have hpos : (0 : Int32) < 64 ∧ (64 : Int32) < 128 := by decide
  have hdata : e.dataFor readCall = Function.update e.data exitOffset 0 := by
    rw [Enclave.dataFor, baseData_of_flag hflag]
    rfl
  rw [execute_run hcode hnone (not_refused_of_not_occurs unprivileged hlegal), Enclave.outcome,
    hdata]
  exact congrArg Except.ok (if_pos hpos)

/-- What a payload leaves when it returns a negative value. -/
theorem data_after_negative (d : Device) (id : Fin numEnclaves) (call : Call)
    (hcode : ¬ call.code.length > regionSize) (hdata : ¬ call.data.length > regionSize)
    (hrun : ¬ Refused d.unprivileged call) (hneg : ((d.enclaves id).outcome call).1 < 0) :
    ((d.load id.val call).2.enclaves id).data = ((d.enclaves id).outcome call).2.1 := by
  rw [load_self, execute_run hcode hdata hrun, Enclave.settle, if_pos hneg]

theorem read_after_negative (h : Sealed id d) :
    ((d.load id.val (storeSeven [0xff, 0xff, 0xff, 0xff] (-1))).2.load id.val readCall).1 ≠
      (d.load id.val readCall).1 := by
  have hneg : (-1 : Int32) < 0 := by decide
  have hlegal : illegalInstructions.any (occurs (storeSeven [0xff, 0xff, 0xff, 0xff] (-1)).code) =
      false := by decide
  have hdata := data_after_negative d id (storeSeven [0xff, 0xff, 0xff, 0xff] (-1))
    (by decide) (by decide) (not_refused_of_not_occurs _ hlegal)
    (by rw [outcome_storeSeven]; exact hneg)
  rw [outcome_storeSeven] at hdata
  dsimp only at hdata
  have hflag : ((d.load id.val (storeSeven [0xff, 0xff, 0xff, 0xff] (-1))).2.enclaves id).flag =
      none := by
    rw [load_self, flag_execute]
    exact h.flag
  have hne : firstOffset ≠ exitOffset := by decide
  intro heq
  rw [load_result, load_result, execute_read hflag, execute_read h.flag, hdata] at heq
  injection heq with heq
  have hbyte := List.map_inj_left.1 heq 0 (by decide)
  rw [byteAt_zero, byteAt_zero, Function.update_of_ne hne, Function.update_of_ne hne,
    h.clean.data _ hne, Function.update_self] at hbyte
  exact absurd hbyte (by decide)

/-- With the flag enclave's call first: after a payload stored a seven and returned -1, the next
payload reads the seven; without that payload it reads zeros. -/
theorem negative_result_leaks :
    ((((Device.start (.replicate 4096 0)).load 0 flagCall).2.load 1
      (storeSeven [0xff, 0xff, 0xff, 0xff] (-1))).2.load 1 readCall).1 ≠
    (((Device.start (.replicate 4096 0)).load 0 flagCall).2.load 1 readCall).1 := by
  have hsealed := (sealed_start (.replicate 4096 0) ⟨1, by decide⟩ (by decide)).step
    (show LoadSafe ⟨1, by decide⟩ _ (0, flagCall) from nofun) rfl
  generalize ((Device.start (.replicate 4096 0)).load 0 flagCall).2 = d at hsealed ⊢
  exact read_after_negative hsealed

end Device

end Ooows.Ogx
