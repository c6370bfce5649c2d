import Ooows.Lib.Wire
import Ooows.P9.Answer

/-!
# Ooows.P9.Response

`RResponse::SerializeTo` and `SerializedSize`: how responses are laid out, and
whether the length they announce is the length they have.

* `RMesg` is a response object with its contents; an `RWalk` stands here with the
  qids its objects have when it is serialised (`RMesg.ofBody`);
* `bodyBlocks` are the `WRITE`s of each class, and `serializedBodySize` is what the
  class says its body takes;
* `framed_iff_framesRight`: the two agree for every class but `RWalk`, whose size is a constant
  that no number of qids has, and for an `RRead` they agree up to the count at which
  the 32-bit size wraps.
-/

namespace Ooows.P9

open Lib Lib.ByteMem

/-- `p9_stat_t`. -/
structure StatImage where
  size : UInt16
  type : UInt16
  dev : UInt32
  qid : Qid
  mode : UInt32
  atime : UInt32
  mtime : UInt32
  length : UInt64
  deriving DecidableEq, Repr

/-- The R-messages with their contents. -/
inductive RMesg
  | error (error : Bytes)
  | version (msize : UInt32) (version : Bytes)
  | auth (aqid : Qid)
  | flush
  | attach (qid : Qid)
  | walk (qids : List Qid)
  | open (qid : Qid) (iounit : UInt32)
  | create (qid : Qid) (iounit : UInt32)
  | read (data : Bytes)
  | write (count : UInt32)
  | clunk
  | remove
  | stat (stat : StatImage)
  deriving DecidableEq, Repr

namespace RMesg

/-- The type byte of the header. -/
def type : RMesg → UInt8
  | .error _ => p9RERROR
  | .version _ _ => 101
  | .auth _ => 103
  | .attach _ => 105
  | .flush => 109
  | .walk _ => 111
  | .open _ _ => 113
  | .create _ _ => 115
  | .read _ => 117
  | .write _ => 119
  | .clunk => 121
  | .remove => 123
  | .stat _ => 125

/-! ## the layout -/

/-- `qid_t` is packed. -/
def qidBytes (q : Qid) : Bytes :=
  q.type :: bytesOfNat 4 q.version.toNat ++ bytesOfNat 8 q.path.toNat

/-- `p9_stat_t` is not: `mode` and `length` are aligned, and what lies between the
fields is zero. -/
def statBytes (s : StatImage) : Bytes :=
  bytesOfNat 2 s.size.toNat ++ bytesOfNat 2 s.type.toNat ++ bytesOfNat 4 s.dev.toNat ++
    qidBytes s.qid ++ [0, 0, 0] ++ bytesOfNat 4 s.mode.toNat ++ bytesOfNat 4 s.atime.toNat ++
    bytesOfNat 4 s.mtime.toNat ++ [0, 0, 0, 0] ++ bytesOfNat 8 s.length.toNat

/-- `WRITESTR`: the length is cut to 16 bits, and the text with it. -/
def strBlocks (str : Bytes) : List Bytes :=
  [bytesOfNat 2 str.length, str.take (str.length % 65536)]

/-- `m_count` of an `RRead`. -/
def count (data : Bytes) : UInt32 := UInt32.ofNat data.length

/-- The `WRITE`s of `SerializeBodyTo`. -/
def bodyBlocks : RMesg → List Bytes
  | .error e => strBlocks e
  | .version msize v => bytesOfNat 4 msize.toNat :: strBlocks v
  | .auth aqid => [qidBytes aqid]
  | .flush => []
  | .attach qid => [qidBytes qid]
  | .walk qids => bytesOfNat 2 qids.length :: qids.map qidBytes
  | .open qid iounit => [qidBytes qid, bytesOfNat 4 iounit.toNat]
  | .create qid iounit => [qidBytes qid, bytesOfNat 4 iounit.toNat]
  | .read data => [bytesOfNat 4 (count data).toNat, data.take (count data).toNat]
  | .write count => [bytesOfNat 4 count.toNat]
  | .clunk => []
  | .remove => []
  | .stat st => [statBytes st]

def sizeofQid : Nat := 13

/-- `SerializedBodySize`: computed in `size_t`, returned as `uint32_t`. -/
def serializedBodySize : RMesg → UInt32
  | .error e => UInt32.ofNat (2 + e.length)
  | .version _ v => UInt32.ofNat (4 + 2 + v.length)
  | .auth _ => UInt32.ofNat sizeofQid
  | .flush => 0
  | .attach _ => UInt32.ofNat sizeofQid
  | .walk _ => UInt32.ofNat (2 * sizeofQid)
  | .open _ _ => UInt32.ofNat (sizeofQid + 4)
  | .create _ _ => UInt32.ofNat (sizeofQid + 4)
  | .read data => UInt32.ofNat (4 + (count data).toNat)
  | .write _ => 4
  | .clunk => 0
  | .remove => 0
  | .stat _ => 48

/-- `SerializedSize`. -/
def serializedSize (m : RMesg) : UInt32 := UInt32.ofNat (4 + 3 + m.serializedBodySize.toNat)

/-- The `WRITE`s of the header. -/
def headerBlocks (tag : UInt16) (m : RMesg) : List Bytes :=
  [bytesOfNat 4 m.serializedSize.toNat, [m.type], bytesOfNat 2 tag.toNat]

/-- `SerializeTo`: the bytes it writes to the buffer; `none` is the exception. -/
def serializeTo (tag : UInt16) (m : RMesg) (limit : Nat) : Option Bytes :=
  (putAll limit [] (headerBlocks tag m)).bind fun header =>
    (putAll (limit - header.length) [] m.bodyBlocks).map fun body => header ++ body

/-- The response an `RResponse` of the request thread is, with the objects as they are
when it is serialised. -/
def ofBody (s : Dev) : RBody → RMesg
  | .error e => .error e.toUTF8.data.toList
  | .version msize v => .version msize v
  | .auth aqid => .auth aqid
  | .flush => .flush
  | .attach qid => .attach qid
  | .walk qids => .walk (qids.map fun p => Dev.qid (s.obj p))
  | .open qid iounit => .open qid iounit
  | .create qid iounit => .create qid iounit
  | .read data => .read data
  | .write count => .write count
  | .clunk => .clunk
  | .remove => .remove
  | .stat st => .stat ⟨st.size, 0, 0, st.qid, 0, 0, 0, st.length⟩

/-! ## lengths -/

variable {m : RMesg} {tag : UInt16} {limit : Nat}

/-- The bytes of the body. -/
def bodyLength (m : RMesg) : Nat := m.bodyBlocks.flatten.length

@[simp] theorem length_qidBytes (q : Qid) : (qidBytes q).length = 13 := by simp [qidBytes]

@[simp] theorem length_statBytes (s : StatImage) : (statBytes s).length = 48 := by
  simp [statBytes]

theorem length_headerBlocks (tag : UInt16) (m : RMesg) :
    (headerBlocks tag m).flatten.length = 7 := by
  simp [headerBlocks]

/-- **`SerializeTo`** writes the header and the body, if they fit. -/
theorem serializeTo_eq (tag : UInt16) (m : RMesg) (limit : Nat) :
    serializeTo tag m limit = if 7 + m.bodyLength ≤ limit then
      some ((headerBlocks tag m).flatten ++ m.bodyBlocks.flatten) else none := by
  have hlen := length_headerBlocks tag m
  have hbody : m.bodyBlocks.flatten.length = m.bodyLength := rfl
  unfold serializeTo
  rw [putAll_eq _ (Nat.zero_le _), List.length_nil, Nat.zero_add, List.nil_append, hlen]
  by_cases hhead : 7 ≤ limit
  · rw [if_pos hhead, Option.bind_some, hlen, putAll_eq _ (Nat.zero_le _), List.length_nil,
      Nat.zero_add, List.nil_append, hbody]
    by_cases hbody : m.bodyLength ≤ limit - 7
    · rw [if_pos hbody, if_pos (by omega), Option.map_some]
    · rw [if_neg hbody, if_neg (by omega), Option.map_none]
  · rw [if_neg hhead, if_neg (by omega), Option.bind_none]

theorem length_strBlocks {str : Bytes} (h : str.length < 65536) :
    (strBlocks str).flatten.length = 2 + str.length := by
  simp [strBlocks, Nat.mod_eq_of_lt h]

theorem length_walk (qids : List Qid) : (RMesg.walk qids).bodyLength = 2 + 13 * qids.length := by
  have hmap : (qids.map qidBytes).flatten.length = 13 * qids.length := by
    induction qids with
    | nil => rfl
    | cons q qids ih => simp [ih]; omega
  simp [bodyLength, bodyBlocks, hmap]

theorem length_read (data : Bytes) :
    (RMesg.read data).bodyLength = 4 + (count data).toNat := by
  have hle : (count data).toNat ≤ data.length := by
    rw [count, UInt32.toNat_ofNat']
    exact Nat.mod_le _ _
  simp [bodyLength, bodyBlocks, hle]

/-! ## framing -/

/-- **Framed**: `SerializeTo` writes as many bytes as `SerializedSize` says, and says so
in the first four. -/
def Framed (tag : UInt16) (m : RMesg) (limit : Nat) : Prop :=
  ∃ bs, serializeTo tag m limit = some bs ∧ bs.length = m.serializedSize.toNat ∧
    Bits.ofBytes (bs.take 4) = m.serializedSize.toNat

/-- The strings of a response are as long as their 16-bit length can say. -/
def ShortStrings : RMesg → Prop
  | .error e => e.length < 65536
  | .version _ v => v.length < 65536
  | _ => True

/-- **The condition**: the response is no `RWalk`, and no `RRead` whose size wraps. -/
def framesRight : RMesg → Bool
  | .walk _ => false
  | .read data => (count data).toNat + 11 < 2 ^ 32
  | _ => true

/-- The first four bytes hold what `SerializedSize` returns. -/
theorem ofBytes_take_four (tag : UInt16) (m : RMesg) (body : Bytes) :
    Bits.ofBytes (((headerBlocks tag m).flatten ++ body).take 4) = m.serializedSize.toNat := by
  have hlt := m.serializedSize.toNat_lt
  have htake : ((headerBlocks tag m).flatten ++ body).take 4 =
      bytesOfNat 4 m.serializedSize.toNat := by
    simp [headerBlocks]
  rw [htake, ofBytes_bytesOfNat]
  exact Nat.mod_eq_of_lt hlt

/-- The response is framed exactly if the announced size is the real one. -/
theorem framed_iff_length (hlimit : m.serializedSize.toNat ≤ limit) :
    Framed tag m limit ↔ 7 + m.bodyLength = m.serializedSize.toNat := by
  have hlen : ((headerBlocks tag m).flatten ++ m.bodyBlocks.flatten).length =
      7 + m.bodyLength := by
    rw [List.length_append, length_headerBlocks]
    rfl
  unfold Framed
  rw [serializeTo_eq]
  constructor
  · rintro ⟨bs, hbs, hsize, -⟩
    split at hbs
    · rw [← Option.some.inj hbs, hlen] at hsize
      exact hsize
    · contradiction
  · intro h
    rw [if_pos (by omega)]
    exact ⟨_, rfl, hlen.trans h, ofBytes_take_four tag m _⟩

/-- Where the announced size is right. -/
theorem size_eq_iff (hstr : m.ShortStrings) :
    7 + m.bodyLength = m.serializedSize.toNat ↔ m.framesRight := by
  cases m with
  | error e =>
    have hlen := length_strBlocks hstr
    simp only [ShortStrings] at hstr
    simp only [bodyLength, bodyBlocks, hlen, serializedSize, serializedBodySize,
      UInt32.toNat_ofNat', framesRight, iff_true]
    omega
  | version msize v =>
    have hlen := length_strBlocks hstr
    simp only [ShortStrings] at hstr
    simp only [bodyLength, bodyBlocks, List.flatten_cons, List.length_append,
      length_bytesOfNat, hlen, serializedSize, serializedBodySize, UInt32.toNat_ofNat',
      framesRight, iff_true]
    omega
  | walk qids =>
    have hsize : (RMesg.walk qids).serializedSize.toNat = 33 := rfl
    rw [length_walk, hsize]
    simp only [framesRight, Bool.false_eq_true, iff_false]
    omega
  | read data =>
    have hlt := (count data).toNat_lt
    rw [length_read]
    simp only [serializedSize, serializedBodySize, UInt32.toNat_ofNat', framesRight,
      decide_eq_true_eq, Nat.add_mod_mod]
    generalize (count data).toNat = c at hlt
    rw [eq_comm, show 4 + 3 + (4 + c) = 7 + (4 + c) from rfl, Nat.mod_eq_iff_lt (by decide)]
    omega
  | _ =>
    simp [bodyLength, bodyBlocks, serializedSize, serializedBodySize, sizeofQid, framesRight]

/-- **Framing**: a response object is framed, in every buffer that is as long as it says
it is, exactly if it is no `RWalk` and no `RRead` whose size wraps. -/
theorem framed_iff_framesRight (tag : UInt16) (m : RMesg) (limit : Nat) (hstr : m.ShortStrings)
    (hlimit : m.serializedSize.toNat ≤ limit) : Framed tag m limit ↔ m.framesRight := by
  rw [framed_iff_length hlimit, size_eq_iff hstr]

/-- The response to a read of three bytes. -/
theorem read_three_framed : Framed 7 (.read [1, 2, 3]) 4096 :=
  (framed_iff_framesRight 7 (.read [1, 2, 3]) 4096 trivial (by decide +kernel)).2
    (by decide +kernel)

/-- The response to a walk without names has 22 bytes and announces 33. -/
theorem walk_announces_too_much :
    ¬ Framed 7 (.walk [⟨0x80, 0, 5381⟩]) 4096 ∧
      (serializeTo 7 (.walk [⟨0x80, 0, 5381⟩]) 4096).map List.length = some 22 ∧
      (RMesg.walk [⟨0x80, 0, 5381⟩]).serializedSize = 33 := by
  refine ⟨?_, by decide +kernel, by decide +kernel⟩
  rw [framed_iff_length (by decide +kernel)]
  decide +kernel

end RMesg

end Ooows.P9
