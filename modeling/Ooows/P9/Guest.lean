import Ooows.P9.Decode

/-!
# Ooows.P9.Guest

The guest kernel's 9P encoders, and the way from them to the device's constructors.

Each encoder lays a message out at an address, field by field; the kernel is a 32-bit
one, so its `size_t` has four bytes and `p9_msg_t` is the packet header the device
expects.  `encode_eq` says what that comes to: the bytes of `Call.layout`, one behind
the other.  On the device's side each constructor reads these bytes as a request
(`parses_body`), but for one thing: every string it reads goes on into the memory
behind its temporary copy.

* `roundTrips_iff_restoresStrings`: encoder and constructor are inverse exactly if
  there is a zero byte behind the copy of every string, and the message is small
  enough for its size field.
-/

namespace Ooows.P9.Guest

open Lib Lib.ByteMem

/-- The encoders of `p9.c` with their arguments. -/
inductive Call
  | version
  | attach (fid : UInt32) (u a : Bytes)
  | walk (fid newfid : UInt32) (wnames : List Bytes)
  | create (fid : UInt32) (newf : Bytes) (perms : UInt32) (mode : UInt8)
  | open (fid : UInt32) (mode : UInt8)
  | read (fid offset count : UInt32)
  | write (fid offset : UInt32) (data : Bytes)
  | clunk (fid : UInt32)
  | remove (fid : UInt32)
  deriving DecidableEq, Repr

/-! ## p9.c -/

def p92021 : Bytes := ascii ['P', '9', '2', '0', '2', '1']

section encoders

variable (mem : ByteMem) (addr : Nat) (tag : UInt32)

/-- `msg->size`, `msg->type` and `msg->tag`. -/
def putHeader (total : Nat) (type : UInt8) : ByteMem :=
  ((mem.store addr 4 total).writeBytes (addr + 4) [type]).store (addr + 5) 2 tag.toNat

/-- A `p9_string_t`: its 16-bit size, and the whole string behind it. -/
def putString (a : Nat) (s : Bytes) : ByteMem := (mem.store a 2 s.length).writeBytes (a + 2) s

def p9Version : ByteMem :=
  let mem := putHeader mem addr tag (7 + 4 + 2 + p92021.length) 100
  let mem := mem.store (addr + 7) 4 0x10000
  putString mem (addr + 11) p92021

def p9Attach (fid : UInt32) (u a : Bytes) : ByteMem :=
  let mem := putHeader mem addr tag (7 + 8 + 2 + 2 + u.length + a.length) 104
  let mem := mem.store (addr + 7) 4 fid.toNat
  let mem := mem.store (addr + 11) 4 0xffffffff
  let mem := putString mem (addr + 15) u
  -- the second string is found by the size field of the first
  putString mem (addr + 15 + u.length % 65536 + 2) a

/-- The loop of `p9_walk`; `tail` moves by the size field just written. -/
def putNames (mem : ByteMem) : Nat → List Bytes → ByteMem
  | _, [] => mem
  | tail, w :: ws => putNames (putString mem tail w) (tail + (2 + w.length % 65536)) ws

def p9Walk (fid newfid : UInt32) (wnames : List Bytes) : ByteMem :=
  let total := 7 + 10 + (wnames.map fun w => 2 + w.length).sum
  let mem := putHeader mem addr tag total 110
  let mem := mem.store (addr + 7) 4 fid.toNat
  let mem := mem.store (addr + 11) 4 newfid.toNat
  let mem := mem.store (addr + 15) 2 wnames.length
  putNames mem (addr + 17) wnames

def p9Create (fid : UInt32) (newf : Bytes) (perms : UInt32) (mode : UInt8) : ByteMem :=
  let mem := putHeader mem addr tag (7 + 4 + 2 + newf.length + 4 + 1) 114
  let mem := mem.store (addr + 7) 4 fid.toNat
  let mem := mem.store (addr + 11) 2 newf.length
  -- here the size field also says how much is copied
  let mem := mem.writeBytes (addr + 13) (newf.take (newf.length % 65536))
  let mem := mem.store (addr + 13 + newf.length % 65536) 4 perms.toNat
  mem.writeBytes (addr + 13 + newf.length % 65536 + 4) [mode]

def p9Open (fid : UInt32) (mode : UInt8) : ByteMem :=
  let mem := putHeader mem addr tag (7 + 5) 112
  let mem := mem.store (addr + 7) 4 fid.toNat
  mem.writeBytes (addr + 11) [mode]

def p9Read (fid offset count : UInt32) : ByteMem :=
  let mem := putHeader mem addr tag (7 + 16) 116
  let mem := mem.store (addr + 7) 4 fid.toNat
  let mem := mem.store (addr + 11) 8 offset.toNat
  mem.store (addr + 19) 4 count.toNat

def p9Write (fid offset : UInt32) (data : Bytes) : ByteMem :=
  let mem := putHeader mem addr tag (7 + 16 + data.length) 118
  let mem := mem.store (addr + 7) 4 fid.toNat
  let mem := mem.store (addr + 11) 8 offset.toNat
  let mem := mem.store (addr + 19) 4 data.length
  mem.writeBytes (addr + 23) data

def p9Clunk (fid : UInt32) : ByteMem :=
  (putHeader mem addr tag (7 + 4) 120).store (addr + 7) 4 fid.toNat

def p9Remove (fid : UInt32) : ByteMem :=
  (putHeader mem addr tag (7 + 4) 122).store (addr + 7) 4 fid.toNat

/-- The memory after a call; `tag` is the counter the encoders share. -/
def encode : Call → ByteMem
  | .version => p9Version mem addr tag
  | .attach fid u a => p9Attach mem addr tag fid u a
  | .walk fid newfid wnames => p9Walk mem addr tag fid newfid wnames
  | .create fid newf perms mode => p9Create mem addr tag fid newf perms mode
  | .open fid mode => p9Open mem addr tag fid mode
  | .read fid offset count => p9Read mem addr tag fid offset count
  | .write fid offset data => p9Write mem addr tag fid offset data
  | .clunk fid => p9Clunk mem addr tag fid
  | .remove fid => p9Remove mem addr tag fid

end encoders

/-! ## what the encoders lay out -/

namespace Call

/-- The request a call stands for. -/
def msg : Call → TMsg
  | .version => .version 0x10000 p92021
  | .attach fid u a => .attach fid 0xffffffff u a
  | .walk fid newfid wnames => .walk fid newfid wnames
  | .create fid newf perms mode => .create fid newf perms mode
  | .open fid mode => .open fid mode
  | .read fid offset count => .read fid offset.toUInt64 count
  | .write fid offset data => .write fid offset.toUInt64 data
  | .clunk fid => .clunk fid
  | .remove fid => .remove fid

/-- Arguments the C functions can be called with: strings without zero bytes that are as
long as their size field can say, as many names as theirs can say, and a count of bytes
that is a `uint32_t`. -/
def InRange : Call → Prop
  | .attach _ u a => (u.length < 65536 ∧ 0 ∉ u) ∧ a.length < 65536 ∧ 0 ∉ a
  | .walk _ _ wnames => wnames.length < 65536 ∧ ∀ w ∈ wnames, w.length < 65536 ∧ 0 ∉ w
  | .create _ newf _ _ => newf.length < 65536 ∧ 0 ∉ newf
  | .write _ _ data => data.length < 2 ^ 32
  | _ => True

instance : DecidablePred InRange
  | .attach _ _ _ => inferInstanceAs (Decidable (_ ∧ _))
  | .walk _ _ _ => inferInstanceAs (Decidable (_ ∧ _))
  | .create _ _ _ _ => inferInstanceAs (Decidable (_ ∧ _))
  | .write _ _ _ => inferInstanceAs (Decidable (_ < _))
  | .version | .open _ _ | .read _ _ _ | .clunk _ | .remove _ =>
    inferInstanceAs (Decidable True)

/-- A string on the wire. -/
def strBytes (s : Bytes) : Bytes := bytesOfNat 2 s.length ++ s

/-- The body of the message. -/
def body : Call → Bytes
  | .version => bytesOfNat 4 0x10000 ++ strBytes p92021
  | .attach fid u a =>
    bytesOfNat 4 fid.toNat ++ (bytesOfNat 4 0xffffffff ++ (strBytes u ++ strBytes a))
  | .walk fid newfid wnames =>
    bytesOfNat 4 fid.toNat ++ (bytesOfNat 4 newfid.toNat ++
      (bytesOfNat 2 wnames.length ++ wnames.flatMap strBytes))
  | .create fid newf perms mode =>
    bytesOfNat 4 fid.toNat ++ (strBytes newf ++ (bytesOfNat 4 perms.toNat ++ [mode]))
  | .open fid mode => bytesOfNat 4 fid.toNat ++ [mode]
  | .read fid offset count =>
    bytesOfNat 4 fid.toNat ++ (bytesOfNat 8 offset.toNat ++ bytesOfNat 4 count.toNat)
  | .write fid offset data =>
    bytesOfNat 4 fid.toNat ++ (bytesOfNat 8 offset.toNat ++
      (bytesOfNat 4 data.length ++ data))
  | .clunk fid => bytesOfNat 4 fid.toNat
  | .remove fid => bytesOfNat 4 fid.toNat

/-- The whole message. -/
def layout (tag : UInt32) (c : Call) : Bytes :=
  bytesOfNat 4 (7 + c.body.length) ++ ([c.msg.type] ++ (bytesOfNat 2 tag.toNat ++ c.body))

end Call

open Call

variable {mem : ByteMem} {addr : Nat} {tag : UInt32} {c : Call} {u : Leftover}

@[simp] theorem length_strBytes (s : Bytes) : (strBytes s).length = 2 + s.length := by
  simp [strBytes]

@[simp] theorem length_layout (tag : UInt32) (c : Call) :
    (c.layout tag).length = 7 + c.body.length := by
  simp [layout]
  omega

theorem putString_eq (mem : ByteMem) (a : Nat) (s : Bytes) :
    putString mem a s = mem.writeBytes a (strBytes s) := by
  rw [strBytes, writeBytes_append, length_bytesOfNat]
  rfl

/-- The loop lays the names out one behind the other. -/
theorem putNames_eq (mem : ByteMem) (a : Nat) (ws : List Bytes) (h : ∀ w ∈ ws, w.length < 65536) :
    putNames mem a ws = mem.writeBytes a (ws.flatMap strBytes) := by
  induction ws generalizing mem a with
  | nil =>
    funext x
    simp [putNames, writeBytes]
  | cons w ws ih =>
    have hw : w.length < 65536 := h w List.mem_cons_self
    rw [putNames, ih _ _ fun v hv => h v (List.mem_cons_of_mem w hv), putString_eq,
      Nat.mod_eq_of_lt hw, List.flatMap_cons, writeBytes_append, length_strBytes]

theorem length_flatMap_strBytes (ws : List Bytes) :
    (ws.flatMap strBytes).length = (ws.map fun w => 2 + w.length).sum := by
  simp [List.length_flatMap]

/-- The header, and a body behind it. -/
theorem putHeader_eq (total : Nat) (type : UInt8) (body : Bytes) :
    (putHeader mem addr tag total type).writeBytes (addr + 7) body =
      mem.writeBytes addr (bytesOfNat 4 total ++ ([type] ++ (bytesOfNat 2 tag.toNat ++ body))) := by
  simp only [putHeader, store, writeBytes_append, length_bytesOfNat, List.length_singleton,
    Nat.add_assoc]

/-- The encoders compute the length of what they lay out. -/
theorem encode_header (mem : ByteMem) (addr : Nat) (tag : UInt32) (c : Call) :
    putHeader mem addr tag (7 + c.body.length) c.msg.type =
      match c with
      | .version => putHeader mem addr tag (7 + 4 + 2 + p92021.length) 100
      | .attach _ u a => putHeader mem addr tag (7 + 8 + 2 + 2 + u.length + a.length) 104
      | .walk _ _ wnames =>
        putHeader mem addr tag (7 + 10 + (wnames.map fun w => 2 + w.length).sum) 110
      | .create _ newf _ _ => putHeader mem addr tag (7 + 4 + 2 + newf.length + 4 + 1) 114
      | .open _ _ => putHeader mem addr tag (7 + 5) 112
      | .read _ _ _ => putHeader mem addr tag (7 + 16) 116
      | .write _ _ data => putHeader mem addr tag (7 + 16 + data.length) 118
      | .clunk _ => putHeader mem addr tag (7 + 4) 120
      | .remove _ => putHeader mem addr tag (7 + 4) 122 := by
  cases c <;> simp only [body, msg, TMsg.type, List.length_append, length_bytesOfNat,
    length_strBytes, length_flatMap_strBytes, List.length_singleton] <;> congr 1 <;> omega

/-- **The encoders** write their message, and nothing else. -/
theorem encode_eq (h : c.InRange) : encode mem addr tag c = mem.writeBytes addr (c.layout tag) := by
  rw [layout, ← putHeader_eq, encode_header]
  cases c with
  | version =>
    simp only [encode, p9Version, putString_eq, body, writeBytes_append, store,
      length_bytesOfNat]
  | attach fid u a =>
    have hu : u.length % 65536 = u.length := Nat.mod_eq_of_lt h.1.1
    have haddr : addr + 15 + u.length + 2 = addr + 15 + (2 + u.length) := by omega
    simp only [encode, p9Attach, putString_eq, body, writeBytes_append, store,
      length_bytesOfNat, length_strBytes, hu, haddr]
  | walk fid newfid wnames =>
    have hnames : ∀ w ∈ wnames, w.length < 65536 := fun w hw => (h.2 w hw).1
    simp only [encode, p9Walk, putNames_eq _ _ _ hnames, body, writeBytes_append, store,
      length_bytesOfNat]
  | create fid newf perms mode =>
    have hlen : newf.length % 65536 = newf.length := Nat.mod_eq_of_lt h.1
    have haddr : addr + 13 + newf.length = addr + 11 + (2 + newf.length) := by omega
    simp only [encode, p9Create, body, strBytes, writeBytes_append, store, length_bytesOfNat,
      hlen, List.take_length, List.length_append, haddr]
  | «open» fid mode =>
    simp only [encode, p9Open, body, writeBytes_append, store, length_bytesOfNat]
  | read fid offset count =>
    simp only [encode, p9Read, body, writeBytes_append, store, length_bytesOfNat]
  | write fid offset data =>
    simp only [encode, p9Write, body, writeBytes_append, store, length_bytesOfNat]
  | clunk fid => rfl
  | remove fid => rfl

/-! ## what the constructors read -/

theorem readU32_parses (x : UInt32) : Fetch.Parses readU32 (bytesOfNat 4 x.toNat) x := by
  have h := (Fetch.Parses.number (show x.toNat < 256 ^ 4 from x.toNat_lt)).map UInt32.ofNat
  rwa [UInt32.ofNat_toNat] at h

theorem readU64_parses (x : UInt32) :
    Fetch.Parses readU64 (bytesOfNat 8 x.toNat) x.toUInt64 := by
  have hlt : x.toNat < 256 ^ 8 := Nat.lt_of_lt_of_le x.toNat_lt (by decide)
  have hval : UInt64.ofNat x.toNat = x.toUInt64 := by
    rw [← UInt64.toNat_inj, UInt64.toNat_ofNat', UInt32.toNat_toUInt64]
    exact Nat.mod_eq_of_lt hlt
  have h := (Fetch.Parses.number hlt).map UInt64.ofNat
  rwa [hval] at h

theorem readU16_parses {n : Nat} (h : n < 65536) :
    Fetch.Parses readU16 (bytesOfNat 2 n) (UInt16.ofNat n) :=
  (Fetch.Parses.number h).map UInt16.ofNat

theorem readU8_parses (x : UInt8) : Fetch.Parses readU8 [x] x := by
  have hlt : x.toNat < 256 ^ 1 := x.toNat_lt
  have h := (Fetch.Parses.number hlt).map UInt8.ofNat
  rwa [UInt8.ofNat_toNat, show bytesOfNat 1 x.toNat = [x] by simp [bytesOfNat]] at h

/-- A string without zero bytes is read with what lies behind its copy. -/
theorem readStr_parses {s : Bytes} (hlen : s.length < 65536) (hzero : 0 ∉ s) (behind : Bytes) :
    Fetch.Parses (readStr behind) (strBytes s) (s ++ cString behind) := by
  have hl : (UInt16.ofNat s.length).toNat = s.length := by
    rw [UInt16.toNat_ofNat']
    exact Nat.mod_eq_of_lt hlen
  have hstr : cString (s ++ behind) = s ++ cString behind := by
    refine List.takeWhile_append_of_pos fun a ha => ?_
    simp only [ne_eq, decide_eq_true_eq]
    rintro rfl
    exact hzero ha
  refine (readU16_parses hlen).bind ?_
  rw [hl, ← hstr]
  exact (Fetch.Parses.bytes s).map fun s => cString (s ++ behind)

namespace Call

/-- The constructor for each message. -/
def format (u : Leftover) : Call → Fetch TMsg
  | .version => tVersion u
  | .attach _ _ _ => tAttach u
  | .walk _ _ _ => tWalk u
  | .create _ _ _ _ => tCreate u
  | .open _ _ => tOpen
  | .read _ _ _ => tRead
  | .write _ _ _ => tWrite
  | .clunk _ => tClunk
  | .remove _ => tRemove

/-- The request the device gets: every string goes on into what is behind its copy. -/
def received (u : Leftover) : Call → TMsg
  | .version => .version 0x10000 (p92021 ++ cString (u.str 0))
  | .attach fid un a =>
    .attach fid 0xffffffff (un ++ cString (u.str 0)) (a ++ cString (u.str 1))
  | .walk fid newfid wnames =>
    .walk fid newfid (wnames.mapIdx fun i w => w ++ cString (u.str i))
  | .create fid newf perms mode => .create fid (newf ++ cString (u.str 0)) perms mode
  | c => c.msg

/-- How many strings a message has. -/
def strings : Call → Nat
  | .version => 1
  | .attach _ _ _ => 2
  | .walk _ _ wnames => wnames.length
  | .create _ _ _ _ => 1
  | _ => 0

end Call

theorem toTRequest_type (u : Leftover) (c : Call) :
    toTRequest u c.msg.type = some (c.format u) := by
  cases c <;> rfl

/-- **The constructors** read the encoders' messages. -/
theorem parses_body (u : Leftover) (h : c.InRange) :
    Fetch.Parses (c.format u) c.body (c.received u) := by
  cases c with
  | version =>
    refine (readU32_parses 0x10000).bind ?_
    exact (readStr_parses (by decide) (by decide) (u.str 0)).map (TMsg.version 0x10000)
  | attach fid un a =>
    refine (readU32_parses fid).bind ((readU32_parses 0xffffffff).bind ?_)
    refine (readStr_parses h.1.1 h.1.2 (u.str 0)).bind ?_
    exact (readStr_parses h.2.1 h.2.2 (u.str 1)).map (TMsg.attach fid 0xffffffff _)
  | walk fid newfid wnames =>
    have hn : (UInt16.ofNat wnames.length).toNat = wnames.length := by
      rw [UInt16.toNat_ofNat']
      exact Nat.mod_eq_of_lt h.1
    refine (readU32_parses fid).bind ((readU32_parses newfid).bind ?_)
    refine (readU16_parses h.1).bind ?_
    rw [hn]
    refine Fetch.Parses.map (Fetch.Parses.times wnames fun i hi => ?_) (TMsg.walk fid newfid)
    obtain ⟨hlen, hzero⟩ := h.2 _ (List.get_mem wnames ⟨i, hi⟩)
    exact readStr_parses hlen hzero (u.str i)
  | create fid newf perms mode =>
    refine (readU32_parses fid).bind ((readStr_parses h.1 h.2 (u.str 0)).bind ?_)
    refine (readU32_parses perms).bind ?_
    exact (readU8_parses mode).map (TMsg.create fid _ perms)
  | «open» fid mode => exact (readU32_parses fid).bind ((readU8_parses mode).map (TMsg.open fid))
  | read fid offset count =>
    refine (readU32_parses fid).bind ((readU64_parses offset).bind ?_)
    exact (readU32_parses count).map (TMsg.read fid offset.toUInt64)
  | write fid offset data =>
    have hcount : (UInt32.ofNat data.length).toNat = data.length := by
      rw [UInt32.toNat_ofNat']
      exact Nat.mod_eq_of_lt h
    refine (readU32_parses fid).bind ((readU64_parses offset).bind ?_)
    have hread := readU32_parses (UInt32.ofNat data.length)
    rw [hcount] at hread
    refine hread.bind ?_
    rw [hcount]
    exact (Fetch.Parses.bytes data).map (TMsg.write fid offset.toUInt64)
  | clunk fid => exact (readU32_parses fid).map TMsg.clunk
  | remove fid => exact (readU32_parses fid).map TMsg.remove

/-! ## the round trip -/

/-- The guest's memory from an address on, as the device's buffer. -/
def bufferAt (mem : ByteMem) (addr : Nat) : ByteMem := fun i => mem (addr + i)

/-- **Round trip**: the encoder lays out its message, with a size field that says how long
it is, and the constructor for the type it wrote recovers the arguments. -/
def RoundTrips (u : Leftover) (mem : ByteMem) (addr : Nat) (tag : UInt32) (c : Call) : Prop :=
  encode mem addr tag c = mem.writeBytes addr (c.layout tag) ∧
    pktSize (bufferAt (encode mem addr tag c) addr) = (c.layout tag).length ∧
    ∃ f ∈ toTRequest u (bufferAt (encode mem addr tag c) addr 4),
      (construct u (bufferAt (encode mem addr tag c) addr) f).1 = some c.msg

/-- **The condition**: there is a zero byte behind the copy of every string, and the
message's length fits into its size field. -/
def restoresStrings (u : Leftover) (c : Call) : Prop :=
  7 + c.body.length < 2 ^ 32 ∧ ∀ i < c.strings, cString (u.str i) = []

theorem readBytes_bufferAt (mem : ByteMem) (addr o n : Nat) :
    (bufferAt mem addr).readBytes o n = mem.readBytes (addr + o) n := by
  simp [readBytes, bufferAt, Nat.add_assoc]

/-- The parts of the message in the buffer. -/
theorem buffer_parts (mem : ByteMem) (addr : Nat) (tag : UInt32) (h : c.InRange) :
    pktSize (bufferAt (encode mem addr tag c) addr) = (7 + c.body.length) % 2 ^ 32 ∧
      bufferAt (encode mem addr tag c) addr 4 = c.msg.type ∧
      (bufferAt (encode mem addr tag c) addr).readBytes 7 c.body.length = c.body := by
  have hall := readBytes_writeBytes mem addr (c.layout tag)
  rw [← encode_eq h, length_layout, layout, ← Nat.add_zero addr, ← readBytes_bufferAt,
    show 7 + c.body.length = 4 + (1 + (2 + c.body.length)) by omega, readBytes_add,
    readBytes_add, readBytes_add] at hall
  simp only [Nat.add_zero, Nat.zero_add] at hall
  obtain ⟨hsize, hrest⟩ := List.append_inj hall (by simp)
  obtain ⟨htype, hrest⟩ := List.append_inj hrest (by simp)
  obtain ⟨-, hbody⟩ := List.append_inj hrest (by simp)
  refine ⟨?_, ?_, hbody⟩
  · rw [pktSize, load, hsize, ofBytes_bytesOfNat]
    congr 1
    omega
  · simpa [readBytes] using htype

/-- What the constructor makes of the message. -/
theorem construct_encode (u : Leftover) (h : c.InRange) (hfits : 7 + c.body.length < 2 ^ 32) :
    (construct u (bufferAt (encode mem addr tag c) addr) (c.format u)).1 =
      some (c.received u) := by
  obtain ⟨hsize, -, hbody⟩ := buffer_parts mem addr tag h
  rw [Nat.mod_eq_of_lt hfits] at hsize
  refine (parses_body u h).run_fst ?_ (by omega)
  rw [← hbody, length_readBytes]
  have hcopy : ∀ x, 0 ≤ x → x < 0 + c.body.length →
      rawBody u (bufferAt (encode mem addr tag c) addr) x =
        pktBody (bufferAt (encode mem addr tag c) addr) x := fun x _ hx =>
    rawBody_eq (by rw [hsize, sizeofPkt]; omega)
  rw [readBytes_congr hcopy]
  simp [readBytes, pktBody, sizeofPkt, Nat.add_comm]

/-- The device gets the arguments exactly if nothing is behind the copies. -/
theorem received_eq_msg_iff (u : Leftover) (c : Call) :
    c.received u = c.msg ↔ ∀ i < c.strings, cString (u.str i) = [] := by
  cases c with
  | version => simp [received, msg, strings]
  | attach fid un a =>
    simp only [received, msg, strings, TMsg.attach.injEq, List.append_right_eq_self, true_and]
    constructor
    · rintro ⟨h0, h1⟩ i hi
      obtain rfl | rfl : i = 0 ∨ i = 1 := by omega
      · exact h0
      · exact h1
    · exact fun h => ⟨h 0 (by decide), h 1 (by decide)⟩
  | walk fid newfid wnames =>
    simp only [received, msg, strings, TMsg.walk.injEq, true_and]
    constructor
    · intro h i hi
      have hget := congrArg (fun l => l[i]?) h
      simpa [hi] using hget
    · intro h
      refine List.ext_getElem (by simp) fun i h₁ h₂ => ?_
      simp [h i h₂]
  | create fid newf perms mode => simp [received, msg, strings]
  | _ => simp [received, msg, strings]

/-- **Encoders and constructors are inverse** for every call, whatever is in memory,
exactly under the condition. -/
theorem roundTrips_iff_restoresStrings (u : Leftover) (mem : ByteMem) (addr : Nat) (tag : UInt32)
    (c : Call) (h : c.InRange) : RoundTrips u mem addr tag c ↔ restoresStrings u c := by
  obtain ⟨hsize, htype, -⟩ := buffer_parts mem addr tag h
  unfold RoundTrips restoresStrings
  rw [hsize, htype, length_layout, toTRequest_type, Nat.mod_eq_iff_lt (by decide)]
  constructor
  · rintro ⟨-, hfits, f, hf, hmsg⟩
    obtain rfl : c.format u = f := Option.some.inj hf
    rw [construct_encode u h hfits, Option.some.injEq, received_eq_msg_iff] at hmsg
    exact ⟨hfits, hmsg⟩
  · rintro ⟨hfits, hstr⟩
    refine ⟨encode_eq h, hfits, _, rfl, ?_⟩
    rw [construct_encode u h hfits, (received_eq_msg_iff u c).2 hstr]

/-- Attaching to the share, with zeros behind everything. -/
theorem attach_roundTrips : RoundTrips noLeftover (fun _ => 0xff) 0x1000 0x100
    (.attach 1 (ascii ['m', 'e']) (ascii ['s', 'h', 'a', 'r', 'e'])) :=
  (roundTrips_iff_restoresStrings noLeftover (fun _ => 0xff) 0x1000 0x100
    (.attach 1 (ascii ['m', 'e']) (ascii ['s', 'h', 'a', 'r', 'e'])) (by decide)).2
    ⟨by decide, fun _ _ => rfl⟩

/-- One byte behind the copy of the share's name, and the device looks for another share. -/
theorem attach_with_byte_behind :
    ¬ RoundTrips ⟨fun _ => 0, fun _ => [33]⟩ (fun _ => 0) 0x1000 0x100
      (.attach 1 (ascii ['m', 'e']) (ascii ['s', 'h', 'a', 'r', 'e'])) := by
  rintro ⟨-, -, f, hf, hmsg⟩
  have hrange : InRange (.attach 1 (ascii ['m', 'e']) (ascii ['s', 'h', 'a', 'r', 'e'])) := by
    decide
  rw [(buffer_parts _ _ _ hrange).2.1, toTRequest_type] at hf
  obtain rfl := Option.some.inj hf
  rw [construct_encode _ hrange (by decide)] at hmsg
  exact absurd hmsg (by decide)

end Ooows.P9.Guest
