import Ooows.Lib.Wire
import Ooows.P9.Request

/-!
# Ooows.P9.Decode

`P9FsDev::handleTMesg` and the constructors of the T-messages, built without
`P9PATCH1`: from the buffer the guest supplied to a request object.

A constructor is the sequence of its `READ`s (`Fetch`); the macro's `size` counter is
the budget they run under.  `handleTMesg` starts it at the size of the whole message,
header included, so it is seven too large: a block that ends within seven bytes behind
the message is read all the same.  The copy the constructors read from holds four
bytes that nobody wrote behind the message, and the last three such reads lie outside
it; `Leftover` says what is there.

* `decodesInside_iff_budgetHarmless`: decoding stays inside the message, and throws exactly if the
  declared fields do not fit, exactly if no declared block ends there.
-/

namespace Ooows.P9

open Lib

/-- Memory that nobody initialised: behind the copied message, and behind the copy of
each string a constructor reads, up to the next zero byte. -/
structure Leftover where
  raw : ByteMem
  str : Nat → Bytes

/-! ## READ -/

def readU8 : Fetch UInt8 := do return UInt8.ofNat (← Fetch.number 1)
def readU16 : Fetch UInt16 := do return UInt16.ofNat (← Fetch.number 2)
def readU32 : Fetch UInt32 := do return UInt32.ofNat (← Fetch.number 4)
def readU64 : Fetch UInt64 := do return UInt64.ofNat (← Fetch.number 8)

/-- The string a `char *` points to. -/
def cString (bs : Bytes) : Bytes := bs.takeWhile (· ≠ 0)

/-- `READSTR`: the copy is not terminated, so the string goes on into what is behind. -/
def readStr (behind : Bytes) : Fetch Bytes := do
  let l ← readU16
  let s ← Fetch.bytes l.toNat
  return cString (s ++ behind)

/-! ## the constructors -/

variable (u : Leftover)

def tVersion : Fetch TMsg := do
  let msize ← readU32
  let version ← readStr (u.str 0)
  return .version msize version

def tAuth : Fetch TMsg := do
  let afid ← readU32
  let uname ← readStr (u.str 0)
  let aname ← readStr (u.str 1)
  return .auth afid uname aname

def tFlush : Fetch TMsg := do
  let oldtag ← readU32
  return .flush oldtag

def tAttach : Fetch TMsg := do
  let fid ← readU32
  let afid ← readU32
  let uname ← readStr (u.str 0)
  let aname ← readStr (u.str 1)
  return .attach fid afid uname aname

def tWalk : Fetch TMsg := do
  let fid ← readU32
  let newfid ← readU32
  let nwname ← readU16
  let wnames ← Fetch.times (fun i => readStr (u.str i)) nwname.toNat
  return .walk fid newfid wnames

def tOpen : Fetch TMsg := do
  let fid ← readU32
  let mode ← readU8
  return .open fid mode

def tCreate : Fetch TMsg := do
  let fid ← readU32
  let name ← readStr (u.str 0)
  let perm ← readU32
  let mode ← readU8
  return .create fid name perm mode

def tRead : Fetch TMsg := do
  let fid ← readU32
  let offset ← readU64
  let count ← readU32
  return .read fid offset count

def tWrite : Fetch TMsg := do
  let fid ← readU32
  let offset ← readU64
  let count ← readU32
  let data ← Fetch.bytes count.toNat
  return .write fid offset data

def tClunk : Fetch TMsg := do
  let fid ← readU32
  return .clunk fid

def tRemove : Fetch TMsg := do
  let fid ← readU32
  return .remove fid

def tStat : Fetch TMsg := do
  let fid ← readU32
  return .stat fid

def tWstat : Fetch TMsg := do
  let fid ← readU32
  let nstat ← readU16
  let stat ← Fetch.bytes nstat.toNat
  return .wstat fid stat

/-- `ToTRequest`: the constructor for a type byte; other types give no request. -/
def toTRequest (type : UInt8) : Option (Fetch TMsg) :=
  if type = 100 then some (tVersion u)
  else if type = 102 then some (tAuth u)
  else if type = 108 then some tFlush
  else if type = 104 then some (tAttach u)
  else if type = 110 then some (tWalk u)
  else if type = 112 then some tOpen
  else if type = 114 then some (tCreate u)
  else if type = 116 then some tRead
  else if type = 118 then some tWrite
  else if type = 120 then some tClunk
  else if type = 122 then some tRemove
  else if type = 124 then some tStat
  else if type = 126 then some tWstat
  else none

/-! ## handleTMesg -/

/-- `sizeof(p9_pkt_t)`: the size field, the type and the tag. -/
def sizeofPkt : Nat := 7

/-- The size field of the message in a buffer. -/
def pktSize (buf : ByteMem) : Nat := buf.load 0 4

/-- The message without its size field, copied to `raw`. -/
def rawMsg (buf : ByteMem) : ByteMem := fun i => if i < pktSize buf - 4 then buf (i + 4) else u.raw i

/-- `msg->body` in the copy. -/
def rawBody (buf : ByteMem) : ByteMem := fun i => rawMsg u buf (i + 3)

/-- Construct a request from the copy: the budget is the size of the whole message. -/
def construct (buf : ByteMem) (f : Fetch TMsg) : Option TMsg × Cursor :=
  f.run (rawBody u buf) ⟨0, pktSize buf, []⟩

/-- What becomes of a message: it is refused for its size, ignored for its type, an
exception leaves the function, or a request is queued. -/
inductive Handled
  | refused
  | ignored
  | thrown
  | queued (r : TRequest)
  deriving DecidableEq, Repr

/-- `handleTMesg`. -/
def handleTMesg (buf : ByteMem) (mLen : UInt32) : Handled :=
  if mLen.toNat < sizeofPkt then .refused
  else if pktSize buf < sizeofPkt then .refused
  else match toTRequest u (rawMsg u buf 0) with
    | none => .ignored
    | some f =>
      match (construct u buf f).1 with
      | none => .thrown
      | some msg => .queued ⟨UInt16.ofNat ((rawMsg u buf).load 1 2), msg⟩

/-! ## staying inside the message -/

variable {u} {buf : ByteMem} {mLen : UInt32} {f : Fetch TMsg}

/-- The body of the message in the guest's buffer. -/
def pktBody (buf : ByteMem) : ByteMem := fun i => buf (i + sizeofPkt)

/-- **Inside**: the message's constructor reads only bytes of the message that are in the
buffer, and it throws exactly if the declared fields do not fit into the message. -/
def DecodesInside (u : Leftover) (buf : ByteMem) (mLen : UInt32) : Prop :=
  ∀ f ∈ toTRequest u (rawMsg u buf 0),
    (∀ b ∈ (construct u buf f).2.reads,
        sizeofPkt + b.1 + b.2 ≤ pktSize buf ∧ sizeofPkt + b.1 + b.2 ≤ mLen.toNat) ∧
      ((construct u buf f).1 = none ↔
        ∃ e ∈ f.ends (pktBody buf) 0, pktSize buf - sizeofPkt < e)

/-- The body bytes of the message that are in the buffer. -/
def bodyRoom (buf : ByteMem) (mLen : UInt32) : Nat :=
  min (pktSize buf) mLen.toNat - sizeofPkt

/-- The first declared block that leaves the message or the buffer ends more than the
message's size behind the start of the body. -/
def OverrunsFar (buf : ByteMem) (mLen : UInt32) (f : Fetch TMsg) : Prop :=
  ∀ e ∈ f.overrun (pktBody buf) 0 (bodyRoom buf mLen), pktSize buf < e

/-- **The condition**: the fields the message declares stay inside it, or the first one
that does not goes so far that the budget does not allow it either. -/
def budgetHarmless (u : Leftover) (buf : ByteMem) (mLen : UInt32) : Prop :=
  ∀ f ∈ toTRequest u (rawMsg u buf 0), OverrunsFar buf mLen f

/-- The copy holds the body of the message. -/
theorem rawBody_eq {x : Nat} (h : x < pktSize buf - sizeofPkt) : rawBody u buf x = pktBody buf x := by
  unfold sizeofPkt at h
  simp only [rawBody, rawMsg, pktBody, sizeofPkt]
  rw [if_pos (by omega)]

/-- So a block leaves the copy's body where it leaves the message's. -/
theorem overrun_rawBody {l : Nat} (h : l ≤ pktSize buf - sizeofPkt) :
    f.overrun (rawBody u buf) 0 l = f.overrun (pktBody buf) 0 l :=
  f.overrun_congr fun _ _ hx => rawBody_eq (Nat.lt_of_lt_of_le hx h)

theorem bodyRoom_le (buf : ByteMem) (mLen : UInt32) : bodyRoom buf mLen ≤ pktSize buf - sizeofPkt :=
  Nat.sub_le_sub_right (Nat.min_le_left _ _) _

/-- The ends of the blocks a constructor reads. -/
theorem exists_read_construct_iff (e : Nat) :
    (∃ b ∈ (construct u buf f).2.reads, b.1 + b.2 = e) ↔
      e ∈ f.ends (rawBody u buf) 0 ∧ e ≤ pktSize buf := by
  rw [construct, Fetch.exists_read_iff]
  simp

/-- A constructor throws exactly if a declared block ends behind its budget. -/
theorem construct_eq_none_iff :
    (construct u buf f).1 = none ↔ ∃ e ∈ f.ends (rawBody u buf) 0, pktSize buf < e := by
  rw [construct, Fetch.run_fst]
  simp

/-- Under the condition, what is read lies in the message and in the buffer. -/
theorem le_bodyRoom_of_read (hcond : OverrunsFar buf mLen f) {e : Nat}
    (hmem : e ∈ f.ends (rawBody u buf) 0) (hle : e ≤ pktSize buf) : e ≤ bodyRoom buf mLen := by
  by_contra hfar
  have hnone : f.overrun (rawBody u buf) 0 (bodyRoom buf mLen) ≠ none := fun hnone =>
    hfar ((f.overrun_eq_none_iff).1 hnone e hmem)
  obtain ⟨e', he'⟩ := Option.ne_none_iff_exists'.1 hnone
  have hfirst := f.le_of_overrun he' hmem (Nat.lt_of_not_le hfar)
  rw [overrun_rawBody (bodyRoom_le buf mLen)] at he'
  have := hcond e' he'
  omega

/-- A message whose blocks all end inside it is the same message in the copy. -/
theorem exists_end_behind_iff (hcond : OverrunsFar buf mLen f) :
    (∃ e ∈ f.ends (rawBody u buf) 0, pktSize buf < e) ↔
      ∃ e ∈ f.ends (pktBody buf) 0, pktSize buf - sizeofPkt < e := by
  have hsame := overrun_rawBody (u := u) (f := f) (Nat.le_refl (pktSize buf - sizeofPkt))
  constructor
  · rintro ⟨e, hmem, hlt⟩
    by_contra hnone
    have hfits : f.overrun (pktBody buf) 0 (pktSize buf - sizeofPkt) = none :=
      (f.overrun_eq_none_iff).2 fun e he => Nat.le_of_not_lt fun h => hnone ⟨e, he, h⟩
    have := (f.overrun_eq_none_iff).1 (hsame.trans hfits) e hmem
    omega
  · rintro ⟨e, hmem, hlt⟩
    by_contra hnone
    have hfits : f.overrun (rawBody u buf) 0 (pktSize buf - sizeofPkt) = none := by
      refine (f.overrun_eq_none_iff).2 fun e he => ?_
      have hle : e ≤ pktSize buf := Nat.le_of_not_lt fun h => hnone ⟨e, he, h⟩
      exact Nat.le_trans (le_bodyRoom_of_read hcond he hle) (bodyRoom_le buf mLen)
    have := (f.overrun_eq_none_iff).1 (hsame.symm.trans hfits) e hmem
    omega

/-- One constructor. -/
theorem readsInside_iff (hlen : sizeofPkt ≤ mLen.toNat) (hsize : sizeofPkt ≤ pktSize buf) :
    (∀ b ∈ (construct u buf f).2.reads,
        sizeofPkt + b.1 + b.2 ≤ pktSize buf ∧ sizeofPkt + b.1 + b.2 ≤ mLen.toNat) ↔
      OverrunsFar buf mLen f := by
  constructor
  · intro hreads e he
    by_contra hle
    have hroom : bodyRoom buf mLen < e := by simpa using List.find?_some he
    rw [← overrun_rawBody (u := u) (bodyRoom_le buf mLen)] at he
    obtain ⟨b, hb, rfl⟩ := (exists_read_construct_iff e).2
      ⟨List.mem_of_find?_eq_some he, Nat.le_of_not_lt hle⟩
    obtain ⟨hmsg, hbuf⟩ := hreads b hb
    unfold bodyRoom at hroom
    omega
  · intro hcond b hb
    obtain ⟨hmem, hle⟩ := (exists_read_construct_iff _).1 ⟨b, hb, rfl⟩
    have hroom := le_bodyRoom_of_read hcond hmem hle
    unfold bodyRoom at hroom
    omega

/-- **Decoding stays inside the message**, for every message whose size `handleTMesg`
accepts, exactly under the condition. -/
theorem decodesInside_iff_budgetHarmless (u : Leftover) (buf : ByteMem) (mLen : UInt32)
    (hlen : sizeofPkt ≤ mLen.toNat) (hsize : sizeofPkt ≤ pktSize buf) :
    DecodesInside u buf mLen ↔ budgetHarmless u buf mLen := by
  constructor
  · intro h f hf
    exact (readsInside_iff hlen hsize).1 (h f hf).1
  · intro h f hf
    exact ⟨(readsInside_iff hlen hsize).2 (h f hf),
      construct_eq_none_iff.trans (exists_end_behind_iff (h f hf))⟩

/-- A buffer that holds the given bytes. -/
def bufOf (bs : Bytes) : ByteMem := fun i => bs.getD i 0

/-- Nothing but zeros behind the message. -/
def noLeftover : Leftover := ⟨fun _ => 0, fun _ => []⟩

/-- A `TClunk` with its four body bytes is decoded inside the message. -/
theorem clunk_decodesInside :
    DecodesInside noLeftover (bufOf [11, 0, 0, 0, 120, 1, 0, 5, 0, 0, 0]) 11 := by
  refine (decodesInside_iff_budgetHarmless _ _ _ (by decide) (by decide)).2 ?_
  intro f hf
  obtain rfl : tClunk = f := Option.some.inj hf
  have hnone : tClunk.overrun (pktBody (bufOf [11, 0, 0, 0, 120, 1, 0, 5, 0, 0, 0])) 0
      (bodyRoom (bufOf [11, 0, 0, 0, 120, 1, 0, 5, 0, 0, 0]) 11) = none := by decide
  simp [OverrunsFar, hnone]

/-- A `TClunk` that ends with its header: the fid is read from the four bytes behind the
message, and the request is queued. -/
theorem clunk_without_fid_reads_behind :
    ¬ DecodesInside noLeftover (bufOf [7, 0, 0, 0, 120, 1, 0]) 7 ∧
      handleTMesg noLeftover (bufOf [7, 0, 0, 0, 120, 1, 0]) 7 = .queued ⟨1, .clunk 0⟩ := by
  refine ⟨fun h => ?_, by decide⟩
  have hreads := (h tClunk rfl).1 (0, 4) (by decide)
  exact absurd hreads (by decide)

end Ooows.P9
