import Ooows.P9.Fids

/-!
# Ooows.P9.Answer

What `Process` returns.

A request is *answered* if `Process` comes back with one response that carries
the request's tag and is an `RError` or the R-message that goes with the
T-message (`Answered`).  Every `Execute` sees to that but three:

* `TStat::Execute` goes on with a null pointer after it has reported that the
  fid is unknown;
* `TWstat` has no `Respond`;
* `TAttach::Execute` lets the exception of `new QidObject` pass when the
  mountpoint cannot be examined.

`answered_iff_answerable` says that nothing else can go wrong, in any state.
-/

namespace Ooows.P9

open Lib Lib.Path

namespace Dev

variable {env : Env} {s t : Dev} {m : TMsg}

/-- **Answered**: one response, with the request's tag, that is an error or of
the type that follows the request's. -/
def Answered (env : Env) (r : TRequest) (s : Dev) : Prop :=
  ∃ t resp, process env r s = some (t, some resp) ∧ resp.tag = r.tag ∧
    (resp.body.type = p9RERROR ∨ resp.body.type = r.msg.type + 1)

/-- **The condition**: no `TStat` of a fid that is not bound, no `TAttach` that gets to the
mountpoint when that cannot be examined, and no `TWstat`. -/
def answerable (env : Env) (s : Dev) (m : TMsg) : Bool := returns env s m && m.type ≠ 126

/-- A response has the body that goes with the request. -/
theorem Exit.type_eq {b : RBody} (h : Exit env s m t (.ok (some b))) : b.type = m.type + 1 := by
  cases h with
  | answered _ htype _ => exact htype
  | _ => rfl

/-- Only a `TWstat` says nothing. -/
theorem Exit.type_of_silent (h : Exit env s m t (.ok none)) : m.type = 126 := by
  cases h
  rfl

/-- Registering a tag does not touch what the condition reads. -/
theorem returns_register (env : Env) (s : Dev) (tag : UInt16) (m : TMsg) :
    returns env (s.register tag) m = returns env s m := by
  unfold register
  split
  · rfl
  · cases m <;> rfl

/-- `Process` returns exactly if `Execute` does: an invalid request is not executed, but those that
take the device down are valid. -/
theorem process_eq_none_iff (env : Env) (r : TRequest) (s : Dev) :
    process env r s = none ↔ returns env s r.msg = false := by
  rw [← returns_register env s r.tag]
  cases hret : returns env (s.register r.tag) r.msg with
  | false =>
    have hvalid : r.msg.valid = true := by
      cases hm : r.msg with
      | stat fid => rfl
      | attach fid afid uname aname => rfl
      | _ => simp [hm, returns] at hret
    simp [process, hvalid, execute_eq_none hret]
  | true =>
    obtain ⟨t, res, hx, -⟩ := execute_ends hret
    cases hvalid : r.msg.valid <;> simp [process, hvalid, hx, fail]

/-- **One response per request**: in every state that is reached without the walks that leave a fid
bound to a deleted object, any other request finds and leaves all fids with live objects, and it is
answered exactly if it meets the condition. -/
theorem answered_iff_answerable (host : Host) (authRequired : Bool) (sharename mountpoint : Bytes)
    {ls : List (Env × TRequest)} {s : Dev}
    (hs : Run SafeStep (init host authRequired sharename mountpoint) ls s)
    (env : Env) (r : TRequest) (hr : s.cloneSafe r.msg) :
    s.FidsOk ∧ (∀ t, s.step (env, r) = some t → t.FidsOk) ∧
      (Answered env r s ↔ answerable env s r.msg) := by
  refine ⟨(fidsOk_of_run hs).2, fun t ht => (fidsOk_of_run (hs.tail ⟨hr, ht⟩)).2, ?_⟩
  have hnone := process_eq_none_iff env r s
  constructor
  · rintro ⟨t, resp, hp, -⟩
    have hret : returns env s r.msg = true := by
      by_contra hnot
      simp [hnone.2 (by simpa using hnot)] at hp
    have htype : r.msg.type ≠ 126 := by
      intro htype
      cases hm : r.msg with
      | wstat fid st => simp [process, hm, TMsg.valid, execute, respond] at hp
      | _ => simp [hm, TMsg.type] at htype
    simp [answerable, hret, htype]
  · intro h
    simp only [answerable, Bool.and_eq_true, decide_eq_true_eq] at h
    cases hp : process env r s with
    | none => simp [hnone.1 hp] at h
    | some x =>
      obtain ⟨t, resp⟩ := x
      obtain ⟨u, res, hexit, -, rfl, rfl⟩ := process_exit hp
      rcases res with e | _ | b
      · exact ⟨_, _, hp, rfl, .inl rfl⟩
      · exact absurd hexit.type_of_silent h.2
      · exact ⟨_, _, hp, rfl, .inr hexit.type_eq⟩

/-- The share after fid 1 was attached to it. -/
def attached : List (Env × TRequest) := [(calmEnv, ⟨0, .attach 1 0xffffffff [] (ascii ['s'])⟩)]

/-- There a `TStat` of fid 1 is answered. -/
theorem stat_answered : ∃ s, Run SafeStep
    (init (shareHost [ascii ['s']]) false (ascii ['s']) (render [ascii ['s']])) attached s ∧
      Answered calmEnv ⟨7, .stat 1⟩ s := by
  have hrun : ∃ s, Run SafeStep
      (init (shareHost [ascii ['s']]) false (ascii ['s']) (render [ascii ['s']])) attached s ∧
        answerable calmEnv s (.stat 1) := ⟨_, .single ⟨rfl, rfl⟩, rfl⟩
  obtain ⟨s, hs, hans⟩ := hrun
  exact ⟨s, hs, (answered_iff_answerable _ _ _ _ hs calmEnv ⟨7, .stat 1⟩ rfl).2.2.2 hans⟩

/-- On a fresh device a `TStat` of a fid nobody bound takes the device down, and a
`TWstat` gets no response. -/
theorem stat_and_wstat_unanswered :
    ¬ Answered calmEnv ⟨1, .stat 7⟩
        (init (shareHost [ascii ['s']]) false (ascii ['s']) (render [ascii ['s']])) ∧
      ¬ Answered calmEnv ⟨1, .wstat 7 []⟩
        (init (shareHost [ascii ['s']]) false (ascii ['s']) (render [ascii ['s']])) := by
  constructor
  · rintro ⟨t, resp, h, -⟩
    exact absurd h (by simp [process, TMsg.valid, execute, executeStat, getFid, register, init])
  · rintro ⟨t, resp, h, -⟩
    exact absurd h (by simp [process, TMsg.valid, execute, respond])

end Dev

end Ooows.P9
