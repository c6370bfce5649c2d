import Ooows.Ogx.GuestDevice

/-!
# Ooows.Ogx.Drain

One notification of the write queue: the loop of `got_data` as a whole.

The loop goes on while `put_buf` returns something other than zero.  Zero is what `put_buf`
returns when it takes a buffer back, so the loop ends with the first buffer that is returned
and goes on after the ones that are not.  The other buffers stay in the queue until the next
notification.
-/

namespace Ooows.Ogx

open Lib Virtio

/-- A call of `got_data` for `VQ_WRITE`. -/
structure Drain where
  dev : Dev
  /-- The buffers passed to `ReadDriverMessage`. -/
  passed : List VirtBuf
  /-- The buffers that `put_buf` took back. -/
  returned : List VirtBuf
  /-- What `got_data` returns. -/
  ret : Int

namespace Drain

/-- The loop of `got_data` for `VQ_WRITE`; `none` without fuel, or if an exception leaves it.
`uninit` is what `m_nbytes_written` of a new buffer holds. -/
def gotData (uninit : Nat → UInt32) : Nat → Drain → Option Drain
  | 0, _ => none
  | fuel + 1, s =>
    match s.dev.getBuf GuestDevice.vqWrite (uninit s.passed.length) with
    | .error _ => none
    | .ok (none, dev) => some { s with dev := dev }
    | .ok (some buffer, dev) =>
      -- the buffer goes to `ReadDriverMessage`, which changes nothing of the queue
      match dev.putBuf GuestDevice.vqWrite buffer with
      | .error _ => none
      | .ok (true, dev) =>
        some ⟨dev, s.passed ++ [buffer], s.returned ++ [buffer], 0⟩
      | .ok (false, dev) =>
        gotData uninit fuel ⟨dev, s.passed ++ [buffer], s.returned, -1⟩

/-- The call begins. -/
def start (dev : Dev) : Drain := ⟨dev, [], [], 0⟩

/-- The buffers from the tail index of a queue up to the driver's index; the first of them is
buffer `n` of the call. -/
def Available (mem : ByteMem) (vq : VirtQueue) (uninit : Nat → UInt32) :
    Nat → UInt16 → List VirtBuf → Prop
  | _, tail, [] => UInt16.ofNat (availIdx mem vq) = tail
  | n, tail, buffer :: buffers =>
    UInt16.ofNat (availIdx mem vq) ≠ tail ∧
      Dev.bufAt mem vq (UInt16.ofNat (tail.toNat % vq.size)) (uninit n) = some buffer ∧
      Available mem vq uninit (n + 1) (tail + 1) buffers

instance decidableAvailable (mem : ByteMem) (vq : VirtQueue) (uninit : Nat → UInt32) :
    (n : Nat) → (tail : UInt16) → (buffers : List VirtBuf) →
      Decidable (Available mem vq uninit n tail buffers)
  | _, tail, [] => inferInstanceAs (Decidable (UInt16.ofNat (availIdx mem vq) = tail))
  | n, tail, buffer :: buffers =>
    have := decidableAvailable mem vq uninit (n + 1) (tail + 1) buffers
    inferInstanceAs (Decidable (UInt16.ofNat (availIdx mem vq) ≠ tail ∧
      Dev.bufAt mem vq (UInt16.ofNat (tail.toNat % vq.size)) (uninit n) = some buffer ∧
      Available mem vq uninit (n + 1) (tail + 1) buffers))

variable {uninit : Nat → UInt32} {s r : Drain} {vq : VirtQueue} {tail : UInt16}
  {buffer : VirtBuf} {buffers : List VirtBuf}

/-- The queue of a call, with a tail index. -/
def Serves (s : Drain) (vq : VirtQueue) (tail : UInt16) : Prop :=
  s.dev.readyVq GuestDevice.vqWrite = some { vq with availTailIdx := tail }

/-- The device once the next buffer is taken. -/
def took (s : Drain) (vq : VirtQueue) (tail : UInt16) : Dev :=
  s.dev.taken GuestDevice.vqWrite { vq with availTailIdx := tail }

/-- The call ends with a buffer that is returned. -/
def returns (s : Drain) (vq : VirtQueue) (tail : UInt16) (buffer : VirtBuf) : Drain where
  dev := { s.took vq tail with mem := Virtio.returned s.dev.mem vq buffer }
  passed := s.passed ++ [buffer]
  returned := s.returned ++ [buffer]
  ret := 0

/-- The call goes on after a buffer that is not. -/
def goesOn (s : Drain) (vq : VirtQueue) (tail : UInt16) (buffer : VirtBuf) : Drain where
  dev := s.took vq tail
  passed := s.passed ++ [buffer]
  returned := s.returned
  ret := -1

/-- The call ends with an empty queue. -/
theorem gotData_empty (hserves : s.Serves vq tail) (hok : QueueOk vq)
    (hempty : UInt16.ofNat (availIdx s.dev.mem vq) = tail) (fuel : Nat) :
    gotData uninit (fuel + 1) s = some s := by
  rw [gotData, getBuf_moveTail hserves hok, if_pos hempty]

/-- **A round of the loop.** -/
theorem gotData_buffer (hserves : s.Serves vq tail) (hok : QueueOk vq)
    (hne : UInt16.ofNat (availIdx s.dev.mem vq) ≠ tail)
    (hbuf : Dev.bufAt s.dev.mem vq (UInt16.ofNat (tail.toNat % vq.size))
      (uninit s.passed.length) = some buffer) (fuel : Nat) :
    gotData uninit (fuel + 1) s =
      if Accepts s.dev.mem { vq with availTailIdx := tail + 1 } then
        some (s.returns vq tail buffer)
      else gotData uninit fuel (s.goesOn vq tail buffer) := by
  have hput : (s.took vq tail).putBuf GuestDevice.vqWrite buffer =
      .ok (if Accepts s.dev.mem { vq with availTailIdx := tail + 1 } then
        (true, { s.took vq tail with mem := Virtio.returned s.dev.mem vq buffer })
      else (false, s.took vq tail)) :=
    putBuf_eq (readyVq_taken hserves) (hok.moveTail (tail + 1)) buffer
  rw [gotData, getBuf_moveTail hserves hok, if_neg hne, hbuf]
  dsimp only
  rw [← took, hput]
  by_cases haccepts : Accepts s.dev.mem { vq with availTailIdx := tail + 1 }
  · rw [if_pos haccepts, if_pos haccepts]
    rfl
  · rw [if_neg haccepts, if_neg haccepts]
    rfl

/-- A buffer that is not returned is never made up for. -/
theorem length_returned_lt {fuel : Nat} (h : gotData uninit fuel s = some r)
    (hlt : s.returned.length < s.passed.length) : r.returned.length < r.passed.length := by
  induction fuel generalizing s with
  | zero => contradiction
  | succ fuel ih =>
    rw [gotData] at h
    split at h
    next => contradiction
    next =>
      cases h
      exact hlt
    next =>
      split at h
      next => contradiction
      next =>
        cases h
        simpa using hlt
      next =>
        refine ih h ?_
        rw [List.length_append]
        exact Nat.lt_add_right _ hlt

/-- **The call ends** after at most as many rounds as there are buffers. -/
theorem gotData_terminates (hok : QueueOk vq) (hserves : s.Serves vq tail)
    (havail : Available s.dev.mem vq uninit s.passed.length tail buffers) :
    ∃ r, ∀ fuel, buffers.length < fuel → gotData uninit fuel s = some r := by
  induction buffers generalizing s tail with
  | nil =>
    refine ⟨s, fun fuel hfuel => ?_⟩
    obtain ⟨fuel, rfl⟩ := Nat.exists_eq_add_one.2 hfuel
    exact gotData_empty hserves hok havail fuel
  | cons buffer buffers ih =>
    obtain ⟨hne, hbuf, hrest⟩ := havail
    by_cases haccepts : Accepts s.dev.mem { vq with availTailIdx := tail + 1 }
    · refine ⟨s.returns vq tail buffer, fun fuel hfuel => ?_⟩
      obtain ⟨fuel, rfl⟩ := Nat.exists_eq_add_one.2 (Nat.zero_lt_of_lt hfuel)
      rw [gotData_buffer hserves hok hne hbuf, if_pos haccepts]
    · have hrest' : Available (s.goesOn vq tail buffer).dev.mem vq uninit
          (s.goesOn vq tail buffer).passed.length (tail + 1) buffers := by
        rw [goesOn, List.length_append]
        exact hrest
      have hserves' : (s.goesOn vq tail buffer).Serves vq (tail + 1) := readyVq_taken hserves
      obtain ⟨r, hr⟩ := ih hserves' hrest'
      refine ⟨r, fun fuel hfuel => ?_⟩
      obtain ⟨fuel, rfl⟩ := Nat.exists_eq_add_one.2 (Nat.zero_lt_of_lt hfuel)
      rw [gotData_buffer hserves hok hne hbuf, if_neg haccepts]
      exact hr fuel (by simpa using hfuel)

/-- **One notification drains the queue only of one buffer.**  The call of `got_data` ends; all
buffers that were available have been passed to `ReadDriverMessage` in order and returned if and
only if there was none, or one and `put_buf` took it back. -/
theorem one_notification_drains_iff {dev : Dev}
    (hready : dev.readyVq GuestDevice.vqWrite = some vq) (hok : QueueOk vq)
    (havail : Available dev.mem vq uninit 0 vq.availTailIdx buffers) :
    ∃ r, (∀ fuel, buffers.length < fuel → gotData uninit fuel (start dev) = some r) ∧
      (r.passed = buffers ∧ r.returned = buffers ↔ buffers.length = 0 ∨
        buffers.length = 1 ∧ Accepts dev.mem { vq with availTailIdx := vq.availTailIdx + 1 }) := by
  have hserves : (start dev).Serves vq vq.availTailIdx := hready
  obtain ⟨r, hr⟩ := gotData_terminates (s := start dev) hok hserves havail
  refine ⟨r, hr, ?_⟩
  have hone := hr (buffers.length + 1) (Nat.lt_succ_self _)
  cases buffers with
  | nil =>
    rw [gotData_empty hserves hok havail] at hone
    cases hone
    exact ⟨fun _ => .inl rfl, fun _ => ⟨rfl, rfl⟩⟩
  | cons buffer buffers =>
    obtain ⟨hne, hbuf, -⟩ := havail
    rw [gotData_buffer hserves hok hne hbuf] at hone
    by_cases haccepts : Accepts (start dev).dev.mem
        { vq with availTailIdx := vq.availTailIdx + 1 }
    · rw [if_pos haccepts] at hone
      cases hone
      -- the loop ended with the first buffer
      change [buffer] = buffer :: buffers ∧ [buffer] = buffer :: buffers ↔ _
      cases buffers with
      | nil => exact ⟨fun _ => .inr ⟨rfl, haccepts⟩, fun _ => ⟨rfl, rfl⟩⟩
      | cons => simp
    · rw [if_neg haccepts] at hone
      have hlt := length_returned_lt hone (by simp [start, goesOn])
      constructor
      · rintro ⟨hpassed, hreturned⟩
        rw [hpassed, hreturned] at hlt
        exact absurd hlt (Nat.lt_irrefl _)
      · rintro (hzero | ⟨-, hyes⟩)
        · exact absurd hzero (Nat.succ_ne_zero _)
        · exact absurd hyes haccepts

/-- A round of the loop is a round of the device that runs: the message goes to
`ReadDriverMessage`, and the buffer to `put_buf`. -/
theorem gotWrite_eq (box : Box) (keys : KeyPair) (s : GuestDevice) {virt virt' : Dev}
    {uninit : UInt32} {taken : Bool} (hget : s.virt.getBuf GuestDevice.vqWrite uninit =
      .ok (some buffer, virt))
    (hput : virt.putBuf GuestDevice.vqWrite buffer = .ok (taken, virt')) (messageSize : UInt16) :
    s.gotWrite box keys uninit messageSize =
      GuestDevice.onMessage box keys { s with virt := virt' }
        (readDriverMessage messageSize (.fresh virt.mem buffer)).1 := by
  rw [GuestDevice.gotWrite, hget]
  dsimp only
  rw [hput]

/-! ## two buffers -/

/-- A device whose driver posted buffers of 16 bytes. -/
def sampleDev (mem : ByteMem) : Dev :=
  let dev := Dev.init 2 25 0 0 mem
  { dev with vqs := Function.update dev.vqs 1 GuestDevice.writeQueue }

def oneBuffer : ByteMem := postAt (fun _ => 0) GuestDevice.writeQueue 0 0x120000 16

def twoBuffers : ByteMem := postAt oneBuffer GuestDevice.writeQueue 1 0x120100 16

/-- The buffers of `twoBuffers`. -/
def firstBuffer : VirtBuf := ⟨0x120000, 16, 0, 0, 0⟩
def secondBuffer : VirtBuf := ⟨0x120100, 16, 1, 0, 0⟩

theorem queueOk_writeQueue : QueueOk GuestDevice.writeQueue where
  pos := by decide
  lt := by decide
  desc := by decide
  avail := by decide
  used := by decide

/-- One buffer. -/
theorem one_notification_drains_one : ∃ r, gotData (fun _ => 0) 2 (start (sampleDev oneBuffer)) =
    some r ∧ r.passed = [firstBuffer] ∧ r.returned = [firstBuffer] := by
  have havail : Available (sampleDev oneBuffer).mem GuestDevice.writeQueue (fun _ => 0) 0 0
      [firstBuffer] := by
    decide +kernel
  have hready : (sampleDev oneBuffer).readyVq GuestDevice.vqWrite = some GuestDevice.writeQueue :=
    rfl
  obtain ⟨r, hr, hiff⟩ := one_notification_drains_iff hready queueOk_writeQueue havail
  exact ⟨r, hr 2 (by decide), hiff.2 (.inr ⟨rfl, by decide +kernel⟩)⟩

/-- **Two buffers**: the second one stays in the queue. -/
theorem second_buffer_left :
    Available twoBuffers GuestDevice.writeQueue (fun _ => 0) 0 0 [firstBuffer, secondBuffer] ∧
    (gotData (fun _ => 0) 3 (start (sampleDev twoBuffers))).map (fun r => (r.passed, r.returned)) =
      some ([firstBuffer], [firstBuffer]) :=
  ⟨by decide +kernel, by decide +kernel⟩

end Drain

end Ooows.Ogx
