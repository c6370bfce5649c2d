import Ooows.Ogx.GuestDevice

/-!
# Ooows.Ogx.Entry

What a payload finds in its regions.

`Execute` loads code and data, may refuse the code, resets the exit flag and enters the
trampoline.  The exit flag is a byte of the data region, `exitOffset`: resetting it writes
over the payload's own data, and so does `Stop`, which the device's loop may call at any
time.
-/

namespace Ooows.Ogx

open Lib

/-- `Stop`: the exit flag is set. -/
def Enclave.stop (e : Enclave) : Enclave := { e with data := Function.update e.data exitOffset 1 }

/-- The regions when the trampoline is entered: `Stop` was called `before` times between the
load and the reset of the exit flag, and `after` times since. -/
def Enclave.entered (e : Enclave) (before after : Nat) : Enclave :=
  Enclave.stop^[after] (Enclave.stop^[before] e).start

/-- What the exit flag is when the trampoline is entered. -/
def exitFlag (after : Nat) : UInt8 := if after = 0 then 0 else 1

namespace Enclave

variable {e : Enclave} {code data : Bytes}

/-- `Stop` any number of times is `Stop` once. -/
theorem iterate_stop (e : Enclave) (n : Nat) :
    stop^[n] e = if n = 0 then e else e.stop := by
  induction n with
  | zero => rfl
  | succ n ih =>
    rw [Function.iterate_succ_apply', ih, if_neg n.succ_ne_zero]
    split
    · rfl
    · simp [stop]

theorem entered_eq (e : Enclave) (before after : Nat) :
    e.entered before after =
      { e with data := Function.update e.data exitOffset (exitFlag after) } := by
  have hstart : (stop^[before] e).start = e.start := by
    rw [iterate_stop]
    split
    · rfl
    · simp [stop, start]
  rw [entered, hstart, iterate_stop, exitFlag]
  split
  · rfl
  · simp [stop, start]

/-- The regions after a load that was not too large. -/
theorem load_of_le (e : Enclave) (hcode : code.length ≤ regionSize)
    (hdata : data.length ≤ regionSize) :
    e.load code data =
      (none, { e with code := memcpy zeroed code, data := memcpy e.baseData data }) := by
  rw [load, if_neg (Nat.not_lt.2 hcode)]
  exact if_neg (Nat.not_lt.2 hdata)

end Enclave

/-! ## the start of a region -/

/-- A region starts with some bytes. -/
def StartsWith (r : Region) (bytes : Bytes) : Prop :=
  ∀ k < bytes.length, byteAt r k = bytes.getD k 0

theorem startsWith_memcpy (r : Region) {bytes : Bytes} (h : bytes.length ≤ regionSize) :
    StartsWith (memcpy r bytes) bytes := by
  intro k hk
  rw [byteAt, dif_pos (Nat.lt_of_lt_of_le hk h), memcpy, List.getD_eq_getElem _ _ hk,
    List.getD_eq_getElem _ _ hk]

theorem byteAt_update_self (r : Region) (i : Fin regionSize) (v : UInt8) :
    byteAt (Function.update r i v) i.val = v := by
  rw [byteAt, dif_pos i.isLt, Function.update_self]

/-- A byte is written over: the region still starts with the bytes if it is behind them, or
if it was that byte. -/
theorem startsWith_update {r : Region} {bytes : Bytes} (h : StartsWith r bytes)
    (i : Fin regionSize) (v : UInt8) :
    StartsWith (Function.update r i v) bytes ↔
      bytes.length ≤ i.val ∨ bytes.getD i.val 0 = v := by
  have hself := byteAt_update_self r i v
  have hother : ∀ k, k ≠ i.val → byteAt (Function.update r i v) k = byteAt r k := by
    intro k hk
    unfold byteAt
    split
    next hlt => exact Function.update_of_ne (fun heq => hk (congrArg Fin.val heq)) ..
    next => rfl
  constructor
  · intro hall
    by_cases hlt : i.val < bytes.length
    · exact .inr ((hall i.val hlt).symm.trans hself)
    · exact .inl (Nat.le_of_not_lt hlt)
  · intro hor k hk
    by_cases heq : k = i.val
    · subst heq
      rw [hself, hor.resolve_left (Nat.not_le.2 hk)]
    · rw [hother k heq, h k hk]

/-- **What a payload finds**: its code, and its data exactly if that does not reach the exit
flag or holds at its place what the exit flag is.  `Stop` may be called at any time. -/
theorem payload_sees_data (e : Enclave) (code data : Bytes) (hcode : code.length ≤ regionSize)
    (hdata : data.length ≤ regionSize) (before after : Nat) :
    ∃ loaded, e.load code data = (none, loaded) ∧
      StartsWith (loaded.entered before after).code code ∧
      (StartsWith (loaded.entered before after).data data ↔
        data.length ≤ exitOffset.val ∨ data.getD exitOffset.val 0 = exitFlag after) := by
  refine ⟨_, e.load_of_le hcode hdata, ?_, ?_⟩
  · rw [Enclave.entered_eq]
    exact startsWith_memcpy zeroed hcode
  · rw [Enclave.entered_eq]
    exact startsWith_update (startsWith_memcpy _ hdata) exitOffset _

/-- The regions that `execute` calls the payload with are those. -/
theorem execute_enters (e : Enclave) (unprivileged : Bool) (call : Call) {loaded : Enclave}
    (hload : e.load call.code call.data = (none, loaded))
    (hpass : ¬ (unprivileged && hasIllegalInstruction loaded.code) = true) :
    let r := loaded.entered 0 0
    (e.execute unprivileged call).1 = .ok (r.finish (call.payload r.code r.data r.stack)).1 := by
  rw [Enclave.execute_eq, hload]
  dsimp only
  rw [if_neg hpass]
  rfl

/-- Data that ends before the exit flag. -/
theorem payload_sees_data_short : ∃ loaded,
    (Enclave.init 1 (Vector.replicate 4096 0)).load [0xc3] [1, 2, 3] = (none, loaded) ∧
      StartsWith (loaded.entered 0 0).data [1, 2, 3] := by
  obtain ⟨loaded, hload, -, hdata⟩ := payload_sees_data (Enclave.init 1 (Vector.replicate 4096 0))
    [0xc3] [1, 2, 3] (by decide) (by decide) 0 0
  exact ⟨loaded, hload, hdata.2 (.inl (by decide))⟩

/-- **The exit flag is written into the data**: the last of 0x1025 bytes is lost. -/
theorem exit_flag_in_data : ∃ loaded,
    (Enclave.init 1 (Vector.replicate 4096 0)).load [0xc3] (List.replicate 0x1025 1) =
      (none, loaded) ∧
    byteAt (loaded.entered 0 0).data 0x1024 = 0 ∧
    (List.replicate 0x1025 (1 : UInt8)).getD 0x1024 0 = 1 := by
  refine ⟨_, Enclave.load_of_le _ (by decide) (by rw [List.length_replicate]; decide), ?_, ?_⟩
  · rw [Enclave.entered_eq]
    exact byteAt_update_self _ exitOffset _
  · rw [List.getD_replicate _ (by decide)]

end Ooows.Ogx
