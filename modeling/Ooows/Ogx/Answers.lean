import Ooows.Ogx.Screening
import Mathlib.Data.List.Nodup

/-!
# Ooows.Ogx.Answers

Which load events are answered.

The thread in `Execute` takes the result of a future that is ready, seals it for the sender,
writes it to a response buffer and gives the buffer back; at the end of a round the futures
whose result was taken are removed.  If the task threw an exception, taking the result throws
it again: nothing is written, and the next round removes the future.  A payload that is
refused for its instructions ends in that way.  The results of `write` and `put_buf` are not
looked at.

`Answerable` is the condition on a step: the result that is taken is a value, its frame fits
into the response buffer, and the queue can take the buffer back.  The invariant says where
an event is: it has a future whose result was not taken, or its response is being given
back, or it was (`Accounts.covered`), and not two of these at once.  That a response was
written means that the guest's memory holds its frame, and that it was given back that the
guest finds the buffer in the used ring.
-/

namespace Ooows.Ogx

open Lib Cbor Virtio

/-! ## promises are kept once -/

/-- The task that a worker is at. -/
def Worker.task : Worker → Option Task
  | waiting => none
  | taken t | entered t | loaded t | screened t | marked t | running t | returned t _ => some t

/-- **Tasks and promises**: every task has a ticket of its own, below `n`, whose promise is not
kept yet. -/
structure Tasks (queue : List Task) (tasks : Fin 4 → Option Task)
    (promises : Nat → Option (Except String Bytes)) (n : Nat) : Prop where
  nodup : (queue.map Task.ticket).Nodup
  queued : ∀ t ∈ queue, t.ticket < n ∧ promises t.ticket = none ∧
    ∀ w t', tasks w = some t' → t'.ticket ≠ t.ticket
  taken : ∀ w t, tasks w = some t → t.ticket < n ∧ promises t.ticket = none
  distinct : ∀ w w' t t', tasks w = some t → tasks w' = some t' → t.ticket = t'.ticket → w = w'
  later : ∀ i, n ≤ i → promises i = none

section Tasks

variable {queue : List Task} {tasks : Fin 4 → Option Task}
  {promises : Nat → Option (Except String Bytes)} {n : Nat} {w : Fin 4} {t : Task}

/-- A task is scheduled. -/
theorem Tasks.schedule (h : Tasks queue tasks promises n) (event : LoadEvent) :
    Tasks (queue ++ [⟨n, event⟩]) tasks promises (n + 1) where
  nodup := by
    rw [List.map_append]
    refine List.nodup_append.2 ⟨h.nodup, List.nodup_singleton _, fun i hi j hj => ?_⟩
    obtain ⟨t, ht, rfl⟩ := List.mem_map.1 hi
    cases List.mem_singleton.1 hj
    exact Nat.ne_of_lt (h.queued t ht).1
  queued := by
    rw [List.forall_mem_append, List.forall_mem_singleton]
    refine ⟨fun t ht => ⟨Nat.lt_succ_of_lt (h.queued t ht).1, (h.queued t ht).2⟩,
      Nat.lt_succ_self n, h.later n (Nat.le_refl n), fun w t' ht' => ?_⟩
    exact Nat.ne_of_lt (h.taken w t' ht').1
  taken w t ht := ⟨Nat.lt_succ_of_lt (h.taken w t ht).1, (h.taken w t ht).2⟩
  distinct := h.distinct
  later i hi := h.later i (Nat.le_of_succ_le hi)

/-- A worker takes a task. -/
theorem Tasks.take (h : Tasks (t :: queue) tasks promises n) :
    Tasks queue (Function.update tasks w (some t)) promises n := by
  obtain ⟨hlt, hnone, hothers⟩ := h.queued t List.mem_cons_self
  obtain ⟨hhead, htail⟩ := List.nodup_cons.1 h.nodup
  -- the task of a worker, before and after
  have hcases : ∀ w' t', Function.update tasks w (some t) w' = some t' →
      w' = w ∧ t' = t ∨ w' ≠ w ∧ tasks w' = some t' := by
    intro w' t' ht'
    by_cases heq : w' = w
    · rw [heq, Function.update_self] at ht'
      exact .inl ⟨heq, (Option.some_inj.1 ht').symm⟩
    · rw [Function.update_of_ne heq] at ht'
      exact .inr ⟨heq, ht'⟩
  refine ⟨htail, fun t' ht' => ?_, fun w' t' ht' => ?_, fun w₁ w₂ t₁ t₂ h₁ h₂ heq => ?_, h.later⟩
  · obtain ⟨hlt', hnone', hothers'⟩ := h.queued t' (List.mem_cons_of_mem t ht')
    refine ⟨hlt', hnone', fun w' t'' ht'' => ?_⟩
    rcases hcases w' t'' ht'' with ⟨-, rfl⟩ | ⟨-, hold⟩
    · exact fun heq => hhead (heq ▸ List.mem_map_of_mem ht')
    · exact hothers' w' t'' hold
  · rcases hcases w' t' ht' with ⟨-, rfl⟩ | ⟨-, hold⟩
    · exact ⟨hlt, hnone⟩
    · exact h.taken w' t' hold
  · rcases hcases w₁ t₁ h₁ with ⟨hw₁, rfl⟩ | ⟨-, hold₁⟩
    · rcases hcases w₂ t₂ h₂ with ⟨hw₂, -⟩ | ⟨-, hold₂⟩
      · rw [hw₁, hw₂]
      · exact absurd heq.symm (hothers w₂ t₂ hold₂)
    · rcases hcases w₂ t₂ h₂ with ⟨-, rfl⟩ | ⟨-, hold₂⟩
      · exact absurd heq (hothers w₁ t₁ hold₁)
      · exact h.distinct w₁ w₂ t₁ t₂ hold₁ hold₂ heq

/-- A worker keeps a promise. -/
theorem Tasks.keep (h : Tasks queue tasks promises n) (hw : tasks w = some t)
    (result : Except String Bytes) :
    Tasks queue (Function.update tasks w none)
      (Function.update promises t.ticket (some result)) n := by
  have hcases : ∀ w' t', Function.update tasks w none w' = some t' →
      w' ≠ w ∧ tasks w' = some t' := by
    intro w' t' ht'
    by_cases heq : w' = w
    · rw [heq, Function.update_self] at ht'
      contradiction
    · rw [Function.update_of_ne heq] at ht'
      exact ⟨heq, ht'⟩
  refine ⟨h.nodup, fun t' ht' => ?_, fun w' t' ht' => ?_, fun w₁ w₂ t₁ t₂ h₁ h₂ heq => ?_,
    fun i hi => ?_⟩
  · obtain ⟨hlt, hnone, hothers⟩ := h.queued t' ht'
    rw [Function.update_of_ne (hothers w t hw).symm]
    exact ⟨hlt, hnone, fun w' t'' ht'' => hothers w' t'' (hcases w' t'' ht'').2⟩
  · obtain ⟨hne, hold⟩ := hcases w' t' ht'
    obtain ⟨hlt, hnone⟩ := h.taken w' t' hold
    rw [Function.update_of_ne fun heq => hne (h.distinct w' w t' t hold hw heq)]
    exact ⟨hlt, hnone⟩
  · exact h.distinct w₁ w₂ t₁ t₂ (hcases w₁ t₁ h₁).2 (hcases w₂ t₂ h₂).2 heq
  · rw [Function.update_of_ne (Nat.ne_of_gt (Nat.lt_of_lt_of_le (h.taken w t hw).1 hi))]
    exact h.later i hi

end Tasks

namespace GuestDevice

variable {box : Box} {keys : KeyPair} {s t : GuestDevice} {a : Act} {w : Fin 4}

/-- The invariant of a device. -/
abbrev HasTasks (s : GuestDevice) : Prop :=
  Tasks s.queue (Worker.task ∘ s.workers) s.promises s.accepted.length

/-- A promise that is kept stays kept. -/
def Extends (promises promises' : Nat → Option (Except String Bytes)) : Prop :=
  ∀ i result, promises i = some result → promises' i = some result

/-- A worker goes on with its task. -/
theorem hasTasks_setWorker (h : s.HasTasks) {p : Worker} (hp : p.task = (s.workers w).task) :
    (s.setWorker w p).HasTasks := by
  have hsame : Worker.task ∘ Function.update s.workers w p = Worker.task ∘ s.workers := by
    rw [Function.comp_update, hp]
    exact Function.update_eq_self w (Worker.task ∘ s.workers)
  show Tasks s.queue (Worker.task ∘ Function.update s.workers w p) _ _
  rw [hsame]
  exact h

theorem hasTasks_work (h : s.HasTasks) (hstep : s.work w = some t) :
    t.HasTasks ∧ Extends s.promises t.promises := by
  have hsame : ∀ p : Worker, p.task = (s.workers w).task → (s.setWorker w p).HasTasks :=
    fun _ => hasTasks_setWorker h
  unfold GuestDevice.work at hstep
  cases hw : s.workers w with
  | waiting =>
    rw [hw] at hstep
    dsimp only at hstep
    split at hstep
    next => contradiction
    next task queue hqueue =>
      cases hstep
      rw [HasTasks, hqueue] at h
      refine ⟨?_, fun _ _ hr => hr⟩
      show Tasks queue (Worker.task ∘ Function.update s.workers w (.taken task)) _ _
      rw [Function.comp_update]
      exact h.take
  | taken task =>
    rw [hw] at hstep
    obtain ⟨-, hstep⟩ := Option.ite_none_right_eq_some.1 hstep
    cases hstep
    exact ⟨hsame _ (by rw [hw]; rfl), fun _ _ hr => hr⟩
  | entered task =>
    rw [hw] at hstep
    cases hstep
    rw [load_eq]
    exact ⟨hsame _ (by rw [hw]; rfl), fun _ _ hr => hr⟩
  | loaded task =>
    rw [hw] at hstep
    cases hstep
    unfold screen
    dsimp only
    split <;> exact ⟨hsame _ (by rw [hw]; rfl), fun _ _ hr => hr⟩
  | screened task =>
    rw [hw] at hstep
    cases hstep
    exact ⟨hsame _ (by rw [hw]; rfl), fun _ _ hr => hr⟩
  | marked task =>
    rw [hw] at hstep
    cases hstep
    exact ⟨hsame _ (by rw [hw]; rfl), fun _ _ hr => hr⟩
  | running task =>
    rw [hw] at hstep
    contradiction
  | returned task result =>
    rw [hw] at hstep
    cases hstep
    have htask : (Worker.task ∘ s.workers) w = some task := congrArg Worker.task hw
    refine ⟨?_, fun i r hr => ?_⟩
    · show Tasks s.queue (Worker.task ∘ Function.update s.workers w .waiting) _ _
      rw [Function.comp_update]
      exact h.keep htask result
    · have hne : i ≠ task.ticket := by
        rintro rfl
        rw [(h.taken w task htask).2] at hr
        contradiction
      exact (Function.update_of_ne hne _ _).trans hr

theorem hasTasks_finish (h : s.HasTasks) {outcome : Int32 × Region × Region}
    (hstep : s.finish w outcome = some t) : t.HasTasks ∧ Extends s.promises t.promises := by
  unfold GuestDevice.finish at hstep
  split at hstep
  next task hw =>
    cases hstep
    refine ⟨hasTasks_setWorker h ?_, fun _ _ hr => hr⟩
    rw [hw]
    rfl
  next => contradiction

theorem hasTasks_step (h : s.HasTasks) (hstep : Step box keys s a t) :
    t.HasTasks ∧ Extends s.promises t.promises := by
  cases step_effect hstep with
  | serve | lock | skip | prune | put => exact ⟨h, fun _ _ hr => hr⟩
  | accept _ virt event _ _ _ _ =>
    refine ⟨?_, fun _ _ hr => hr⟩
    show Tasks (s.queue ++ [⟨s.accepted.length, event⟩]) _ _ (s.accepted ++ [_]).length
    rw [List.length_append]
    exact h.schedule event
  | work hwork => exact hasTasks_work h hwork
  | finish hfinish => exact hasTasks_finish h hfinish
  | collect nonce _ _ _ _ _ =>
    obtain ⟨_, _, _, heq⟩ := collect_eq box keys s _ _ _ _ _ nonce
    rw [heq]
    exact ⟨h, fun _ _ hr => hr⟩

end GuestDevice

/-! ## the condition -/

/-- The response that is being given back. -/
def Collector.pending : Collector → Option Answer
  | out | visiting _ => none
  | returning _ a => some a

namespace GuestDevice

variable (box : Box) (keys : KeyPair)

/-- The future whose result is taken in a step, the result, and the buffer. -/
def collecting (s : GuestDevice) : Option (Future × Except String Bytes × VirtBuf) :=
  match s.collector, s.responseBuffers with
  | .visiting i, vbuf :: _ =>
    (s.futures[i]?.filter (·.valid)).bind fun f =>
      (s.promises f.ticket).map fun result => (f, result, vbuf)
  | _, _ => none

/-- The message that a result is sent in. -/
def sealed (f : Future) (response : Bytes) (nonce : Nonce) : Except Thrown Bytes :=
  encrypt box (keys.pub box) keys.sec f.sender
    ((Event.response f.id response).serialize box.toCodec) nonce

/-- A result is a value, and its frame is not longer than the buffer. -/
def Fits (f : Future) (nonce : Nonce) (vbuf : VirtBuf) : Except String Bytes → Prop
  | .error _ => False
  | .ok response => ∀ ciphertext ∈ (sealed box keys f response nonce).toOption,
      2 + ciphertext.length ≤ vbuf.len.toNat

/-- **Condition**: the result that is taken is a value, its frame fits into the buffer, and a
buffer is given back when the queue can take it: not all that were taken were given back
already, and the element behind the used ring is in memory. -/
def Answerable (s : GuestDevice) : Act → Prop
  | .visit nonce => ∀ x ∈ s.collecting, Fits box keys x.1 nonce x.2.2 x.2.1
  | .put => (s.virt.readyVq vqRead).any fun vq => Accepts s.virt.mem vq
  | _ => True

instance (f : Future) (nonce : Nonce) (vbuf : VirtBuf) :
    ∀ result, Decidable (Fits box keys f nonce vbuf result)
  | .error _ => isFalse id
  | .ok _ => inferInstanceAs (Decidable (∀ ciphertext ∈ _, _))

instance (s : GuestDevice) : ∀ a, Decidable (Answerable box keys s a)
  | .visit _ => inferInstanceAs (Decidable (∀ x ∈ s.collecting, _))
  | .put => inferInstanceAs (Decidable (_ = true))
  | .read _ | .write _ | .guest _ | .gotRead _ | .gotWrite _ _ | .work _ | .finish _ _ | .lock =>
    isTrue trivial

end GuestDevice

/-! ## the invariant -/

/-- A response to an event: sealed for its sender, with what its payload returned, written to
a buffer that has room for it, and given back. -/
structure Answer.To (box : Box) (keys : KeyPair) (promises : Nat → Option (Except String Bytes))
    (x : Bytes × LoadEvent) (a : Answer) : Prop where
  sender : a.sender = x.1
  id : a.id = x.2.id
  result : promises a.ticket = some (.ok a.response)
  ciphertext : ∃ nonce, encrypt box (keys.pub box) keys.sec x.1
    ((Event.response x.2.id a.response).serialize box.toCodec) nonce = .ok a.ciphertext
  frame : a.frame = ByteMem.bytesOfNat 2 a.ciphertext.length ++ a.ciphertext
  room : a.frame.length ≤ a.vbuf.len.toNat
  returned : a.returned = true

/-- **Where an event is**: it has a future whose result was not taken, or its response is being
given back, or it was. -/
structure Accounts (box : Box) (keys : KeyPair) (accepted : List (Bytes × LoadEvent))
    (promises : Nat → Option (Except String Bytes)) (futures : List Future) (answers : List Answer)
    (pending : Option Answer) : Prop where
  /-- Every sender can be answered. -/
  senders : ∀ x ∈ accepted, x.1.length = keyBytes ∧ (box.beforenm x.1 keys.sec).isSome = true
  nodup : (futures.map Future.ticket).Nodup
  future : ∀ f ∈ futures, ∃ event, accepted[f.ticket]? = some (f.sender, event) ∧ f.id = event.id
  unanswered : ∀ f ∈ futures, f.valid = true → ∀ a ∈ answers, a.ticket ≠ f.ticket
  unique : (answers.map Answer.ticket).Nodup
  answer : ∀ a ∈ answers, ∃ x, accepted[a.ticket]? = some x ∧ a.To box keys promises x
  written : ∀ a ∈ pending, ∃ x, accepted[a.ticket]? = some x ∧
    { a with returned := true }.To box keys promises x
  /-- The future of a response that is being given back is there still. -/
  taken : ∀ a ∈ pending, ∃ f ∈ futures, f.ticket = a.ticket ∧ f.valid = false
  fresh : ∀ a ∈ pending, ∀ a' ∈ answers, a'.ticket ≠ a.ticket
  covered : ∀ i < accepted.length, (∃ f ∈ futures, f.ticket = i ∧ f.valid = true) ∨
    (∃ a ∈ pending, a.ticket = i) ∨ ∃ a ∈ answers, a.ticket = i

section Accounts

variable {box : Box} {keys : KeyPair} {accepted : List (Bytes × LoadEvent)}
  {promises promises' : Nat → Option (Except String Bytes)} {futures : List Future}
  {answers : List Answer} {pending : Option Answer} {x : Bytes × LoadEvent} {a : Answer}

theorem Answer.To.extends (h : a.To box keys promises x)
    (hext : GuestDevice.Extends promises promises') : a.To box keys promises' x :=
  ⟨h.sender, h.id, hext _ _ h.result, h.ciphertext, h.frame, h.room, h.returned⟩

/-- More promises are kept. -/
theorem Accounts.extends (h : Accounts box keys accepted promises futures answers pending)
    (hext : GuestDevice.Extends promises promises') :
    Accounts box keys accepted promises' futures answers pending where
  senders := h.senders
  nodup := h.nodup
  future := h.future
  unanswered := h.unanswered
  unique := h.unique
  answer a ha := by
    obtain ⟨x, hx, hto⟩ := h.answer a ha
    exact ⟨x, hx, hto.extends hext⟩
  written a ha := by
    obtain ⟨x, hx, hto⟩ := h.written a ha
    exact ⟨x, hx, hto.extends hext⟩
  taken := h.taken
  fresh := h.fresh
  covered := h.covered

/-- An event is accepted. -/
theorem Accounts.accept (h : Accounts box keys accepted promises futures answers pending)
    {sender : Bytes} (event : LoadEvent) (hsize : sender.length = keyBytes)
    (hkey : (box.beforenm sender keys.sec).isSome = true) :
    Accounts box keys (accepted ++ [(sender, event)]) promises
      (futures ++ [⟨accepted.length, event.id, sender, true⟩]) answers pending := by
  have hlt : ∀ {i y}, accepted[i]? = some y → i < accepted.length :=
    fun hy => (List.getElem?_eq_some_iff.1 hy).1
  -- an event that was accepted keeps its ticket
  have hold : ∀ {i y}, accepted[i]? = some y → (accepted ++ [(sender, event)])[i]? = some y :=
    fun hy => (List.getElem?_append_left (hlt hy)).trans hy
  refine ⟨?_, ?_, ?_, ?_, h.unique, fun a ha => ?_, fun a ha => ?_, fun a ha => ?_, h.fresh,
    fun i hi => ?_⟩
  · rw [List.forall_mem_append, List.forall_mem_singleton]
    exact ⟨h.senders, hsize, hkey⟩
  · rw [List.map_append]
    refine List.nodup_append.2 ⟨h.nodup, List.nodup_singleton _, fun i hi j hj => ?_⟩
    obtain ⟨f, hf, rfl⟩ := List.mem_map.1 hi
    obtain ⟨_, hf', -⟩ := h.future f hf
    cases List.mem_singleton.1 hj
    exact Nat.ne_of_lt (hlt hf')
  · rw [List.forall_mem_append, List.forall_mem_singleton]
    refine ⟨fun f hf => ?_, event, List.getElem?_concat_length, rfl⟩
    obtain ⟨event', hf', hid⟩ := h.future f hf
    exact ⟨event', hold hf', hid⟩
  · rw [List.forall_mem_append, List.forall_mem_singleton]
    refine ⟨h.unanswered, fun _ a ha => ?_⟩
    obtain ⟨x, hx, -⟩ := h.answer a ha
    exact Nat.ne_of_lt (hlt hx)
  · obtain ⟨x, hx, hto⟩ := h.answer a ha
    exact ⟨x, hold hx, hto⟩
  · obtain ⟨x, hx, hto⟩ := h.written a ha
    exact ⟨x, hold hx, hto⟩
  · obtain ⟨f, hf, hticket⟩ := h.taken a ha
    exact ⟨f, List.mem_append_left _ hf, hticket⟩
  · rw [List.length_append, List.length_singleton] at hi
    by_cases hnew : i = accepted.length
    · exact .inl ⟨_, List.mem_append_right _ (List.mem_singleton_self _), hnew.symm, rfl⟩
    · rcases h.covered i (by omega) with ⟨f, hf, hticket⟩ | hrest
      · exact .inl ⟨f, List.mem_append_left _ hf, hticket⟩
      · exact .inr hrest

/-- Futures whose result was taken are removed. -/
theorem Accounts.prune (h : Accounts box keys accepted promises futures answers none) :
    Accounts box keys accepted promises (futures.filter (·.valid)) answers none where
  senders := h.senders
  nodup := (List.filter_sublist.map _).nodup h.nodup
  future f hf := h.future f (List.mem_of_mem_filter hf)
  unanswered f hf := h.unanswered f (List.mem_of_mem_filter hf)
  unique := h.unique
  answer := h.answer
  written := h.written
  taken _ ha := nomatch ha
  fresh := h.fresh
  covered i hi := by
    rcases h.covered i hi with ⟨f, hf, hticket, hvalid⟩ | hrest
    · exact .inl ⟨f, List.mem_filter.2 ⟨hf, hvalid⟩, hticket, hvalid⟩
    · exact .inr hrest

/-- A result is taken and written. -/
theorem Accounts.collect (h : Accounts box keys accepted promises futures answers none)
    {i : Nat} {f : Future} (hf : futures[i]? = some f) (hvalid : f.valid = true)
    (hticket : a.ticket = f.ticket)
    (hto : ∃ x, accepted[a.ticket]? = some x ∧ { a with returned := true }.To box keys promises x) :
    Accounts box keys accepted promises (futures.set i { f with valid := false }) answers
      (some a) := by
  obtain ⟨hi, hfi⟩ := List.getElem?_eq_some_iff.1 hf
  have hmem : f ∈ futures := hfi ▸ List.getElem_mem hi
  have hmap : (futures.set i { f with valid := false }).map Future.ticket =
      futures.map Future.ticket := by
    rw [List.map_set]
    refine List.ext_getElem? fun j => ?_
    rw [List.getElem?_set]
    split
    next hij =>
      rw [← hij, List.length_map, if_pos hi, List.getElem?_map, hf]
      rfl
    next => rfl
  have hcases : ∀ g ∈ futures.set i { f with valid := false },
      g ∈ futures ∨ g = { f with valid := false } := fun g hg => List.mem_or_eq_of_mem_set hg
  refine ⟨h.senders, hmap ▸ h.nodup, fun g hg => ?_, fun g hg hgvalid => ?_, h.unique, h.answer, ?_,
    ?_, ?_, fun j hj => ?_⟩
  · rcases hcases g hg with hold | rfl
    · exact h.future g hold
    · exact h.future f hmem
  · rcases hcases g hg with hold | rfl
    · exact h.unanswered g hold hgvalid
    · contradiction
  · rintro _ ⟨⟩
    exact hto
  · rintro _ ⟨⟩
    exact ⟨_, List.mem_set hi _, hticket.symm, rfl⟩
  · rintro _ ⟨⟩ a' ha'
    rw [hticket]
    exact h.unanswered f hmem hvalid a' ha'
  · rcases h.covered j hj with ⟨g, hg, hgticket, hgvalid⟩ | ⟨_, hnone, _⟩ | hanswered
    · by_cases hsame : g.ticket = f.ticket
      · exact .inr (.inl ⟨a, rfl, by rw [hticket, ← hsame, hgticket]⟩)
      · obtain ⟨k, hk⟩ := List.mem_iff_getElem?.1 hg
        have hne : i ≠ k := by
          rintro rfl
          rw [hf] at hk
          exact hsame (congrArg Future.ticket (Option.some_inj.1 hk)).symm
        have hkept : (futures.set i { f with valid := false })[k]? = some g := by
          rw [List.getElem?_set_ne hne, hk]
        exact .inl ⟨g, List.mem_of_getElem? hkept, hgticket, hgvalid⟩
    · contradiction
    · exact .inr (.inr hanswered)

/-- A response is given back. -/
theorem Accounts.put (h : Accounts box keys accepted promises futures answers (some a)) :
    Accounts box keys accepted promises futures (answers ++ [{ a with returned := true }])
      none := by
  obtain ⟨f, hf, hticket, hinvalid⟩ := h.taken a rfl
  refine ⟨h.senders, h.nodup, h.future, fun g hg hgvalid => ?_, ?_, ?_, (fun _ hnone => nomatch hnone),
    (fun _ hnone => nomatch hnone), (fun _ hnone => nomatch hnone), fun i hi => ?_⟩
  · rw [List.forall_mem_append, List.forall_mem_singleton]
    refine ⟨h.unanswered g hg hgvalid, fun heq => ?_⟩
    have hsame := List.inj_on_of_nodup_map h.nodup hf hg (hticket.trans heq)
    rw [hsame, hgvalid] at hinvalid
    contradiction
  · rw [List.map_append]
    refine List.nodup_append.2 ⟨h.unique, List.nodup_singleton _, fun i hi j hj => ?_⟩
    obtain ⟨a', ha', rfl⟩ := List.mem_map.1 hi
    cases List.mem_singleton.1 hj
    exact h.fresh a rfl a' ha'
  · rw [List.forall_mem_append, List.forall_mem_singleton]
    exact ⟨h.answer, h.written a rfl⟩
  · rcases h.covered i hi with hvalid | ⟨a', ha', hticket'⟩ | ⟨a', ha', hticket'⟩
    · exact .inl hvalid
    · cases ha'
      exact .inr (.inr ⟨_, List.mem_append_right _ (List.mem_singleton_self _), hticket'⟩)
    · exact .inr (.inr ⟨a', List.mem_append_left _ ha', hticket'⟩)

end Accounts

namespace GuestDevice

variable {box : Box} {keys : KeyPair} {s t : GuestDevice} {act : Act}

/-- The invariant of a device. -/
abbrev HasAccounts (box : Box) (keys : KeyPair) (s : GuestDevice) : Prop :=
  Accounts box keys s.accepted s.promises s.futures s.answers s.collector.pending

/-- A result is taken. -/
theorem hasAccounts_collect (h : s.HasAccounts box keys) {i : Nat} {f : Future}
    {result : Except String Bytes} {vbuf : VirtBuf} {buffers : List VirtBuf} {nonce : Nonce}
    (hat : s.collector = .visiting i) (hf : s.futures[i]? = some f) (hvalid : f.valid = true)
    (hresult : s.promises f.ticket = some result) (hfits : Fits box keys f nonce vbuf result)
    (hinside : Inside vbuf.guestAddr vbuf.len.toNat) :
    (collect box keys s i f result vbuf buffers nonce).HasAccounts box keys := by
  cases result with
  | error e => exact absurd hfits id
  | ok response =>
    obtain ⟨event, haccepted, hid⟩ := h.future f (List.mem_of_getElem? hf)
    obtain ⟨hsize, hkey⟩ := h.senders _ (List.mem_of_getElem? haccepted)
    obtain ⟨key, hkey⟩ := Option.isSome_iff_exists.1 hkey
    have hencrypt := encrypt_eq (keys.pub box) keys.size hsize hkey
      ((Event.response f.id response).serialize box.toCodec) nonce
    generalize hmessage : box.toCbor (envelope (keys.pub box) _ nonce.bytes) = ciphertext at hencrypt
    have hpos : 0 < ciphertext.length := by
      rw [← hmessage, box.length_toCbor, toCbor, List.length_append]
      exact Nat.add_pos_left (length_head_pos ..) _
    have hroom : 2 + ciphertext.length ≤ vbuf.len.toNat :=
      hfits ciphertext (by rw [sealed, hencrypt]; rfl)
    have hin : Inside vbuf.guestAddr (2 + ciphertext.length) :=
      ⟨hinside.1, hinside.2.1, Nat.le_trans (Nat.add_le_add_left hroom _) hinside.2.2⟩
    have hframe : (writeFrame ciphertext (.fresh s.virt.mem vbuf)).2.mem.readBytes
        vbuf.guestAddr.toNat (2 + ciphertext.length) =
        ByteMem.bytesOfNat 2 ciphertext.length ++ ciphertext := by
      rw [mem_writeFrame s.virt.mem hin hpos]
      have hread := ByteMem.readBytes_writeBytes s.virt.mem vbuf.guestAddr.toNat
        (ByteMem.bytesOfNat 2 ciphertext.length ++ ciphertext)
      rwa [List.length_append, ByteMem.length_bytesOfNat] at hread
    rw [HasAccounts, hat] at h
    rw [collect, hencrypt]
    refine h.collect hf hvalid rfl ⟨(f.sender, event), haccepted, rfl, hid, hresult, ?_, hframe,
      ?_, rfl⟩
    · exact ⟨nonce, by rw [← hid]; exact hencrypt⟩
    · rw [ByteMem.length_readBytes]
      exact hroom

/-- Taking a result leaves the queues alone, and takes the first buffer at most. -/
theorem served_collect {i : Nat} {f : Future} {result : Except String Bytes} {vbuf : VirtBuf}
    {buffers : List VirtBuf} {nonce : Nonce} (h : Served s.virt s.responseBuffers)
    (hbuffers : s.responseBuffers = vbuf :: buffers) :
    Served (collect box keys s i f result vbuf buffers nonce).virt
      (collect box keys s i f result vbuf buffers nonce).responseBuffers := by
  unfold collect
  cases result with
  | error _ => exact h
  | ok response =>
    dsimp only
    split
    next => exact h
    next =>
      refine Served.withMem ⟨h.ready, fun vbuf' hvbuf' => ?_⟩ _
      exact h.inside vbuf' (hbuffers ▸ List.mem_cons_of_mem vbuf hvbuf')

/-- `put_buf` on a queue that can take a buffer back. -/
theorem returnSeen_of_accepts {virt virt' : Virtio.Dev} {vbuf : VirtBuf} {ok : Bool}
    (hready : Ready virt) (haccepts : (virt.readyVq vqRead).any fun vq => Accepts virt.mem vq)
    (hput : virt.putBuf vqRead vbuf = .ok (ok, virt')) : returnSeen virt virt' vbuf = true := by
  obtain ⟨vq, hvq, haccepts⟩ := (Option.any_eq_true _ _).1 haccepts
  have haccepts := of_decide_eq_true haccepts
  have hok : QueueOk vq := by
    obtain ⟨-, heq, hr⟩ := readyVq_eq hvq
    exact heq ▸ hready.queues _ (heq.symm ▸ hr)
  rw [putBuf_eq hvq hok, if_pos haccepts] at hput
  cases hput
  refine (Option.any_eq_true _ _).2 ⟨vq, hvq, decide_eq_true ⟨usedIdx_returned vbuf, ?_⟩⟩
  exact (holdsElem_behind vbuf).1

theorem served_step (h : Served s.virt s.responseBuffers) (hstep : Step box keys s act t) :
    Served t.virt t.responseBuffers := by
  cases step_effect hstep with
  | serve _ _ _ hserved => exact hserved h
  | accept _ _ _ hserved _ _ _ => exact hserved h
  | work hwork =>
    obtain ⟨_, _, _, _, _, _, rfl⟩ := work_eq hwork
    exact h
  | finish hfinish =>
    obtain ⟨_, _, rfl⟩ := finish_eq hfinish
    exact h
  | lock | skip | prune => exact h
  | collect nonce hat hbuffers hf hvalid hresult => exact served_collect h hbuffers
  | put hat hput =>
    obtain ⟨p, hp, hkeeps⟩ := putBuf_keeps h.ready vqRead _
    cases hp.symm.trans hput
    exact h.of_keeps hkeeps

theorem hasAccounts_step (h : s.HasAccounts box keys) (htasks : s.HasTasks)
    (hserved : Served s.virt s.responseBuffers) (hok : Answerable box keys s act)
    (hstep : Step box keys s act t) : t.HasAccounts box keys := by
  cases step_effect hstep with
  | serve => exact h
  | accept _ virt event _ _ hsize hkey => exact h.accept event hsize hkey
  | work hwork =>
    have hext := (hasTasks_work htasks hwork).2
    obtain ⟨_, _, _, _, _, _, rfl⟩ := work_eq hwork
    exact h.extends hext
  | finish hfinish =>
    obtain ⟨_, _, rfl⟩ := finish_eq hfinish
    exact h
  | lock hout =>
    rw [HasAccounts, hout] at h
    exact h
  | skip nonce hat =>
    rw [HasAccounts, hat] at h
    exact h
  | prune nonce hat =>
    rw [HasAccounts, hat] at h
    exact h.prune
  | collect nonce hat hbuffers hf hvalid hresult =>
    have hinside := hserved.inside _ (hbuffers ▸ List.mem_cons_self)
    refine hasAccounts_collect h hat hf hvalid hresult (hok (_, _, _) ?_) hinside
    rw [collecting, hat, hbuffers]
    dsimp only
    rw [hf, Option.filter_some, hvalid]
    exact congrArg (Option.map _) hresult
  | put hat hput =>
    rw [HasAccounts, hat] at h
    rw [returnSeen_of_accepts hserved.ready hok hput]
    exact h.put

theorem hasTasks_start (box : Box) (keys : KeyPair) (secret : Vector UInt8 4096)
    (flagEnclave : FlagEnclave) (vendorId : UInt32) (mem : ByteMem) :
    (start box keys secret flagEnclave vendorId mem).HasTasks := by
  have hinit : (init secret vendorId mem).HasTasks :=
    ⟨List.nodup_nil, List.forall_mem_nil _, (fun _ _ ht => nomatch ht), (fun _ _ _ _ ht => nomatch ht),
      fun _ _ => rfl⟩
  exact hinit.schedule _

theorem served_start (box : Box) (keys : KeyPair) (secret : Vector UInt8 4096)
    (flagEnclave : FlagEnclave) (vendorId : UInt32) (mem : ByteMem) :
    Served (start box keys secret flagEnclave vendorId mem).virt
      (start box keys secret flagEnclave vendorId mem).responseBuffers := by
  have hready : Ready (Virtio.Dev.init 2 25 vendorId 0 mem) := .init (by decide) ..
  exact ⟨⟨hready.sel, Nat.zero_le _, hready.size, hready.queues⟩, List.forall_mem_nil _⟩

theorem hasAccounts_start (box : Box) (keys : KeyPair) (secret : Vector UInt8 4096)
    (flagEnclave : FlagEnclave) (vendorId : UInt32) (mem : ByteMem) :
    (start box keys secret flagEnclave vendorId mem).HasAccounts box keys := by
  have hinit : (init secret vendorId mem).HasAccounts box keys :=
    ⟨List.forall_mem_nil _, List.nodup_nil, List.forall_mem_nil _, List.forall_mem_nil _,
      List.nodup_nil, List.forall_mem_nil _, (fun _ ha => nomatch ha), (fun _ ha => nomatch ha),
      (fun _ ha => nomatch ha), fun _ hi => absurd hi (Nat.not_lt_zero _)⟩
  obtain ⟨key, hkey, -⟩ := box.agree keys.sec keys.sec keys.size keys.size
  exact hinit.accept _ (box.length_publicKey _) (Option.isSome_iff_exists.2 ⟨key, hkey⟩)

/-- Tickets are not used twice. -/
theorem filter_ticket {answers : List Answer} (h : (answers.map Answer.ticket).Nodup) {a : Answer}
    (ha : a ∈ answers) : answers.filter (fun b => b.ticket = a.ticket) = [a] := by
  induction answers with
  | nil => contradiction
  | cons b answers ih =>
    obtain ⟨hb, hnodup⟩ := List.nodup_cons.1 h
    rcases List.mem_cons.1 ha with rfl | hmem
    · have hnone : answers.filter (fun c => c.ticket = a.ticket) = [] := by
        refine List.filter_eq_nil_iff.2 fun c hc hticket => hb ?_
        exact of_decide_eq_true hticket ▸ List.mem_map_of_mem hc
      rw [List.filter_cons, if_pos (decide_eq_true rfl), hnone]
    · have hne : b.ticket ≠ a.ticket := fun heq => hb (heq ▸ List.mem_map_of_mem hmem)
      rw [List.filter_cons_of_neg (by rw [decide_eq_true_eq]; exact hne)]
      exact ih hnodup hmem

/-! ## every event -/

/-- The payload of the guest returns, and its response is given back. -/
def answerActs : List Act :=
  setupActs ++ [Act.gotRead 0, .gotWrite 0 0, .work 0, .work 1, .work 1, .work 1, .work 1, .work 1,
    .work 1, .finish 1 (0, zeroed, zeroed), .work 1, .lock, .visit zeroNonce, .visit zeroNonce, .put,
    .visit zeroNonce]

/-- The payload of the guest is refused, and the next two rounds of `Execute`. -/
def refuseActs : List Act :=
  setupActs ++ [Act.gotRead 0, .work 0, .work 0, .work 0, .work 0, .work 0, .work 0, .gotWrite 0 0,
    .work 1, .work 1, .work 1, .work 1, .work 1, .lock, .visit zeroNonce, .visit zeroNonce, .lock,
    .visit zeroNonce, .visit zeroNonce, .visit zeroNonce]

/-- **Answers to load events.**  In every run whose steps meet the condition: an event that was
accepted and has no future any more has exactly one response, which was sealed for its
sender, is in the guest's memory in a buffer with room for it, and was given back; and every
response is the only one to an event that was accepted. -/
theorem events_answered_once (box : Box) (keys : KeyPair) (secret : Vector UInt8 4096)
    (flagEnclave : FlagEnclave) (vendorId : UInt32) (mem : ByteMem) {acts : List Act}
    {s : GuestDevice} (hrun : Run (Guarded (Answerable box keys) (Step box keys))
      (start box keys secret flagEnclave vendorId mem) acts s) :
    (∀ i x, s.accepted[i]? = some x → (∀ f ∈ s.futures, f.ticket ≠ i) →
      ∃ a, s.answers.filter (fun b => b.ticket = i) = [a] ∧ a.To box keys s.promises x) ∧
    ∀ a ∈ s.answers, s.answers.filter (fun b => b.ticket = a.ticket) = [a] ∧
      ∃ x, s.accepted[a.ticket]? = some x ∧ a.To box keys s.promises x := by
  obtain ⟨-, -, h⟩ := hrun.invariant
    (I := fun s => s.HasTasks ∧ Served s.virt s.responseBuffers ∧ s.HasAccounts box keys)
    (fun _ _ _ h hstep => ⟨(hasTasks_step h.1 hstep.2).1, served_step h.2.1 hstep.2,
      hasAccounts_step h.2.2 h.1 h.2.1 hstep.1 hstep.2⟩)
    ⟨hasTasks_start box keys secret flagEnclave vendorId mem,
      served_start box keys secret flagEnclave vendorId mem,
      hasAccounts_start box keys secret flagEnclave vendorId mem⟩
  refine ⟨fun i x hx hgone => ?_, fun a ha => ⟨filter_ticket h.unique ha, h.answer a ha⟩⟩
  rcases h.covered i (List.getElem?_eq_some_iff.1 hx).1 with
    ⟨f, hf, hticket, -⟩ | ⟨a, ha, hticket⟩ | ⟨a, ha, rfl⟩
  · exact absurd hticket (hgone f hf)
  · obtain ⟨f, hf, hsame, -⟩ := h.taken a ha
    exact absurd (hsame.trans hticket) (hgone f hf)
  · obtain ⟨y, hy, hto⟩ := h.answer a ha
    cases Option.some_inj.1 (hy.symm.trans hx)
    exact ⟨a, filter_ticket h.unique ha, hto⟩

/-- The event of a guest is answered. -/
theorem events_answered_once_ret : ∃ (s : GuestDevice) (x : Bytes × LoadEvent) (a : Answer),
    Run (Guarded (Answerable plainBox zeroKeys) (Step plainBox zeroKeys))
      (sampleStart (eventOf [0xc3] (by decide))) answerActs s ∧
    s.accepted[1]? = some x ∧ (∀ f ∈ s.futures, f.ticket ≠ 1) ∧
    s.answers.filter (fun b => b.ticket = 1) = [a] ∧ a.To plainBox zeroKeys s.promises x := by
  have hexec : (exec (fun s a => if Answerable plainBox zeroKeys s a then
      step plainBox zeroKeys s a else none) (sampleStart (eventOf [0xc3] (by decide)))
      answerActs).map (fun s => (s.accepted.length, s.futures.map Future.ticket)) = some (2, [0]) := by
    decide +kernel
  obtain ⟨s, hs, heq⟩ := Option.map_eq_some_iff.1 hexec
  rw [Prod.mk.injEq] at heq
  obtain ⟨hlen, hfutures⟩ := heq
  have hx : s.accepted[1]? = some (s.accepted[1]) := List.getElem?_eq_getElem (by omega)
  have hgone : ∀ f ∈ s.futures, f.ticket ≠ 1 := by
    intro f hf hticket
    have hmem : f.ticket ∈ s.futures.map Future.ticket := List.mem_map_of_mem hf
    rw [hfutures, hticket] at hmem
    exact absurd hmem (by decide)
  have hrun := run_guarded_of_exec hs
  obtain ⟨a, ha, hto⟩ := (events_answered_once _ _ _ _ _ _ hrun).1 1 _ hx hgone
  exact ⟨s, _, a, hrun, hx, hgone, ha, hto⟩

/-- **A payload with `wrpkru`** is refused, and its future removed without a response. -/
theorem refused_not_answered : ∃ s : GuestDevice,
    Run (Step plainBox zeroKeys) (sampleStart (eventOf [0x0f, 0x01, 0xef] (by decide))) refuseActs s ∧
    s.accepted.length = 2 ∧ s.futures.map Future.ticket = [0] ∧ s.responseBuffers.length = 1 ∧
    s.answers.length = 0 := by
  have hexec : (exec (step plainBox zeroKeys) (sampleStart (eventOf [0x0f, 0x01, 0xef] (by decide)))
      refuseActs).map (fun s => (s.accepted.length, s.futures.map Future.ticket,
        s.responseBuffers.length, s.answers.length)) = some (2, [0], 1, 0) := by
    decide +kernel
  obtain ⟨s, hs, heq⟩ := Option.map_eq_some_iff.1 hexec
  simp only [Prod.mk.injEq] at heq
  exact ⟨s, (run_iff_exec _).2 hs, heq⟩

end GuestDevice

end Ooows.Ogx
