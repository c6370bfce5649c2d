import Ooows.Lib.ByteMem
import Ooows.Lib.Path

/-!
# Ooows.Lib.Cbor

CBOR, as far as flat objects need it: fields that are numbers, strings and arrays of numbers.

Every item starts with a head, which holds its major type and a number; the number is written
in as few bytes as possible and read in any of the five widths.  A `Reader` takes an item from
the front of its input.  Two things are proved of each reader and kept by sequencing: what it
makes of an encoding with anything behind it (`Reads`), and that more input does not change
what was read (`Steady`).  Together they give the round trip (`fromCbor_toCbor`), and that no
encoding can be cut short (`fromCbor_take`).
-/

namespace Ooows.Lib.Cbor

open Bits ByteMem

/-! ## readers -/

/-- What is read from the front of the input, and the input behind it. -/
abbrev Reader (α : Type) := Bytes → Option (α × Bytes)

variable {α β : Type}

namespace Reader

def bind (r : Reader α) (f : α → Reader β) : Reader β := fun input =>
  match r input with
  | none => none
  | some (a, rest) => f a rest

def pure (a : α) : Reader α := fun input => some (a, input)

def fail : Reader α := fun _ => none

def map (f : α → β) (r : Reader α) : Reader β := r.bind fun a => pure (f a)

/-- A number of bytes. -/
def take (n : Nat) : Reader Bytes := fun input =>
  if n ≤ input.length then some (input.take n, input.drop n) else none

/-- The same thing several times. -/
def times (r : Reader α) : Nat → Reader (List α)
  | 0 => pure []
  | n + 1 => r.bind fun a => (times r n).map (a :: ·)

end Reader

/-- The bytes are read as `a`, whatever is behind them. -/
def Reads (r : Reader α) (bytes : Bytes) (a : α) : Prop := ∀ rest, r (bytes ++ rest) = some (a, rest)

/-- More input does not change what is read. -/
def Steady (r : Reader α) : Prop :=
  ∀ ⦃input a rest⦄ more, r input = some (a, rest) → r (input ++ more) = some (a, rest ++ more)

section Rules

variable {r : Reader α} {f : α → Reader β} {a : α} {b : β} {bytes bytes' : Bytes}

theorem Reads.pure (a : α) : Reads (.pure a) [] a := fun _ => rfl

/-- One thing behind another. -/
theorem Reads.bind (h : Reads r bytes a) (h' : Reads (f a) bytes' b) :
    Reads (r.bind f) (bytes ++ bytes') b := by
  intro rest
  rw [Reader.bind, List.append_assoc, h]
  exact h' rest

theorem Reads.map (g : α → β) (h : Reads r bytes a) : Reads (r.map g) bytes (g a) := by
  have hmap : Reads (r.map g) (bytes ++ []) (g a) :=
    Reads.bind (f := fun a => .pure (g a)) h (.pure (g a))
  rwa [List.append_nil] at hmap

theorem Reads.take (bytes : Bytes) : Reads (.take bytes.length) bytes bytes := by
  intro rest
  rw [Reader.take, if_pos (by rw [List.length_append]; omega), List.take_left, List.drop_left]

/-- A list, one element behind another. -/
theorem Reads.times {encode : α → Bytes} {as : List α} (h : ∀ a ∈ as, Reads r (encode a) a) :
    Reads (r.times as.length) (as.flatMap encode) as := by
  induction as with
  | nil => exact .pure []
  | cons a as ih =>
    rw [List.flatMap_cons]
    refine (h a List.mem_cons_self).bind (Reads.map (a :: ·) (ih fun b hb => ?_))
    exact h b (List.mem_cons_of_mem a hb)

theorem Steady.pure (a : α) : Steady (.pure a) := by
  intro input b rest more h
  cases h
  rfl

theorem Steady.fail : Steady (.fail : Reader α) := by
  intro input a rest more h
  cases h

/-- Readers that go on where the last one stopped. -/
theorem Steady.bind (h : Steady r) (h' : ∀ a, Steady (f a)) : Steady (r.bind f) := by
  intro input b rest more hread
  unfold Reader.bind at hread ⊢
  cases hr : r input with
  | none =>
    rw [hr] at hread
    contradiction
  | some read =>
    rw [hr] at hread
    rw [h more hr]
    exact h' read.1 more hread

theorem Steady.map (g : α → β) (h : Steady r) : Steady (r.map g) := h.bind fun a => .pure (g a)

theorem Steady.take (n : Nat) : Steady (.take n) := by
  intro input a rest more h
  obtain ⟨hle, h⟩ := Option.ite_none_right_eq_some.1 h
  cases h
  rw [Reader.take, if_pos (by rw [List.length_append]; omega), List.take_append_of_le_length hle,
    List.drop_append_of_le_length hle]

theorem Steady.times (h : Steady r) (n : Nat) : Steady (r.times n) := by
  induction n with
  | zero => exact .pure []
  | succ n ih => exact h.bind fun a => ih.map (a :: ·)

/-- **No encoding can be cut short.** -/
theorem Reads.not_of_cut (h : Reads r (bytes ++ bytes') a) (hr : Steady r) (hne : bytes' ≠ [])
    (b : α) : r bytes ≠ some (b, []) := by
  intro hread
  have hlong := hr bytes' hread
  have hwhole := h []
  rw [List.append_nil, hlong] at hwhole
  cases hwhole
  exact hne rfl

end Rules

/-! ## heads -/

/-- A number in big-endian order. -/
def bigEndian (width n : Nat) : Bytes := (bytesOfNat width n).reverse

/-- The head of an item. -/
def head (major n : Nat) : Bytes :=
  if n < 24 then [UInt8.ofNat (32 * major + n)]
  else if n < 2 ^ 8 then UInt8.ofNat (32 * major + 24) :: bigEndian 1 n
  else if n < 2 ^ 16 then UInt8.ofNat (32 * major + 25) :: bigEndian 2 n
  else if n < 2 ^ 32 then UInt8.ofNat (32 * major + 26) :: bigEndian 4 n
  else UInt8.ofNat (32 * major + 27) :: bigEndian 8 n

/-- The number in a head whose first byte ends in `info`. -/
def argument (info : Nat) : Reader Nat :=
  if info < 24 then .pure info
  else if info = 24 then (Reader.take 1).map fun bs => ofBytes bs.reverse
  else if info = 25 then (Reader.take 2).map fun bs => ofBytes bs.reverse
  else if info = 26 then (Reader.take 4).map fun bs => ofBytes bs.reverse
  else if info = 27 then (Reader.take 8).map fun bs => ofBytes bs.reverse
  else .fail

/-- Major type and number. -/
def readHead : Reader (Nat × Nat)
  | [] => none
  | b :: rest => ((argument (b.toNat % 32)).map fun n => (b.toNat / 32, n)) rest

/-- The number of a head with a given major type. -/
def expect (major : Nat) : Reader Nat :=
  readHead.bind fun h => if h.1 = major then .pure h.2 else .fail

theorem reads_argument_of_lt {n : Nat} (h : n < 24) : Reads (argument n) [] n := by
  rw [argument, if_pos h]
  exact .pure n

/-- A number that fits is read back. -/
theorem reads_bigEndian (width : Nat) {n : Nat} (h : n < 256 ^ width) :
    Reads ((Reader.take width).map fun bs => ofBytes bs.reverse) (bigEndian width n) n := by
  have htake := Reads.take (bigEndian width n)
  have hlen : (bigEndian width n).length = width := by
    rw [bigEndian, List.length_reverse, length_bytesOfNat]
  have hval : ofBytes (bigEndian width n).reverse = n := by
    rw [bigEndian, List.reverse_reverse, ofBytes_bytesOfNat, Nat.mod_eq_of_lt h]
  have hmap := htake.map fun bs => ofBytes bs.reverse
  rwa [hlen, hval] at hmap

/-- A head from its first byte and what is behind it. -/
theorem reads_head_of {major info n : Nat} {bytes : Bytes} (hmajor : major < 8) (hinfo : info < 32)
    (h : Reads (argument info) bytes n) :
    Reads readHead (UInt8.ofNat (32 * major + info) :: bytes) (major, n) := by
  intro rest
  have hbyte : (UInt8.ofNat (32 * major + info)).toNat = 32 * major + info := by
    rw [UInt8.toNat_ofNat']
    exact Nat.mod_eq_of_lt (show 32 * major + info < 256 by omega)
  have hmap := h.map (fun n => (major, n)) rest
  rw [List.cons_append, readHead, hbyte, show (32 * major + info) % 32 = info by omega,
    show (32 * major + info) / 32 = major by omega]
  exact hmap

/-- **Heads** are read back. -/
theorem reads_head {major n : Nat} (hmajor : major < 8) (hn : n < 2 ^ 64) :
    Reads readHead (head major n) (major, n) := by
  unfold head
  split
  next h => exact reads_head_of hmajor (by omega) (reads_argument_of_lt h)
  next =>
    split
    next h => exact reads_head_of hmajor (by decide) (reads_bigEndian 1 h)
    next =>
      split
      next h => exact reads_head_of hmajor (by decide) (reads_bigEndian 2 h)
      next =>
        split
        next h => exact reads_head_of hmajor (by decide) (reads_bigEndian 4 h)
        next => exact reads_head_of hmajor (by decide) (reads_bigEndian 8 hn)

theorem steady_argument (info : Nat) : Steady (argument info) := by
  unfold argument
  repeat' split
  · exact .pure info
  all_goals first | exact .fail | exact (Steady.take _).map _

theorem steady_readHead : Steady readHead := by
  intro input a rest more h
  cases input with
  | nil => contradiction
  | cons b input => exact (steady_argument _).map _ more h

/-- A head of the kind that is expected. -/
theorem reads_expect {major n : Nat} (hmajor : major < 8) (hn : n < 2 ^ 64) :
    Reads (expect major) (head major n) n := by
  have h : Reads (expect major) (head major n ++ []) n :=
    (reads_head hmajor hn).bind (by rw [if_pos rfl]; exact .pure n)
  rwa [List.append_nil] at h

theorem steady_expect (major : Nat) : Steady (expect major) := by
  refine steady_readHead.bind fun h => ?_
  split
  · exact .pure h.2
  · exact .fail

/-! ## flat objects -/

/-- The value of a field. -/
inductive Value
  | unsigned (n : UInt64)
  | text (s : Bytes)
  | array (ns : List UInt64)
  deriving DecidableEq, Repr

/-- The fields of an object. -/
abbrev Object := List (Bytes × Value)

def unsignedBytes (n : UInt64) : Bytes := head 0 n.toNat

def textBytes (s : Bytes) : Bytes := head 3 s.length ++ s

def Value.bytes : Value → Bytes
  | unsigned n => unsignedBytes n
  | text s => textBytes s
  | array ns => head 4 ns.length ++ ns.flatMap unsignedBytes

def fieldBytes (field : Bytes × Value) : Bytes := textBytes field.1 ++ field.2.bytes

/-- `to_cbor`. -/
def toCbor (object : Object) : Bytes := head 5 object.length ++ object.flatMap fieldBytes

def readUnsigned : Reader UInt64 := (expect 0).map UInt64.ofNat

def readText : Reader Bytes := (expect 3).bind .take

def readValue : Reader Value := readHead.bind fun h =>
  if h.1 = 0 then .pure (.unsigned (.ofNat h.2))
  else if h.1 = 3 then (Reader.take h.2).map .text
  else if h.1 = 4 then (readUnsigned.times h.2).map .array
  else .fail

def readField : Reader (Bytes × Value) := readText.bind fun key => readValue.map fun v => (key, v)

def readObject : Reader Object := (expect 5).bind readField.times

/-- `from_cbor`: nothing may be behind the object. -/
def fromCbor (input : Bytes) : Option Object :=
  match readObject input with
  | some (object, []) => some object
  | _ => none

/-- A field: of several with one name, the last. -/
def field (object : Object) (key : Bytes) : Option Value := object.reverse.lookup key

namespace Value

/-- An array of bytes. -/
def ofBytes (bytes : Bytes) : Value := array (bytes.map UInt8.toUInt64)

def getText : Value → Option Bytes
  | text s => some s
  | _ => none

def getUInt32 : Value → Option UInt32
  | unsigned n => some n.toUInt32
  | _ => none

def getBytes : Value → Option Bytes
  | array ns => some (ns.map UInt64.toUInt8)
  | _ => none

@[simp] theorem getBytes_ofBytes (bytes : Bytes) : (ofBytes bytes).getBytes = some bytes := by
  have hid : ∀ b : UInt8, b.toUInt64.toUInt8 = b := UInt8.toUInt8_toUInt64
  simp [ofBytes, getBytes, Function.comp_def, hid]

end Value

/-- The lengths in a value can be written. -/
def Value.Short : Value → Prop
  | unsigned _ => True
  | text s => s.length < 2 ^ 64
  | array ns => ns.length < 2 ^ 64

/-- The lengths in an object can be written. -/
structure Short (object : Object) : Prop where
  fields : object.length < 2 ^ 64
  key : ∀ field ∈ object, field.1.length < 2 ^ 64
  value : ∀ field ∈ object, field.2.Short

theorem short_ofBytes {bytes : Bytes} (h : bytes.length < 2 ^ 64) : (Value.ofBytes bytes).Short :=
  (List.length_map UInt8.toUInt64).trans_lt h

theorem reads_unsigned (n : UInt64) : Reads readUnsigned (unsignedBytes n) n := by
  have h : Reads readUnsigned (unsignedBytes n) (.ofNat n.toNat) :=
    (reads_expect (by decide) n.toNat_lt).map UInt64.ofNat
  rwa [UInt64.ofNat_toNat] at h

theorem reads_text {s : Bytes} (h : s.length < 2 ^ 64) : Reads readText (textBytes s) s :=
  (reads_expect (by decide) h).bind (.take s)

/-- The three kinds of value are read back. -/
theorem reads_value {v : Value} (h : v.Short) : Reads readValue v.bytes v := by
  cases v with
  | unsigned n =>
    have hread : Reads readValue (unsignedBytes n ++ []) (.unsigned n) := by
      refine (reads_head (by decide) n.toNat_lt).bind ?_
      dsimp only
      rw [if_pos rfl, UInt64.ofNat_toNat]
      exact .pure _
    rwa [List.append_nil] at hread
  | text s =>
    refine (reads_head (by decide) h).bind ?_
    dsimp only
    rw [if_neg (by decide), if_pos rfl]
    exact (Reads.take s).map _
  | array ns =>
    refine (reads_head (by decide) h).bind ?_
    dsimp only
    rw [if_neg (by decide), if_neg (by decide), if_pos rfl]
    exact (Reads.times fun n _ => reads_unsigned n).map _

theorem reads_field {field : Bytes × Value} (hkey : field.1.length < 2 ^ 64)
    (hvalue : field.2.Short) : Reads readField (fieldBytes field) field :=
  (reads_text hkey).bind ((reads_value hvalue).map fun v => (field.1, v))

variable {object : Object}

/-- An object is read back, field by field. -/
theorem reads_object (h : Short object) :
    Reads readObject (toCbor object) object :=
  (reads_expect (by decide) h.fields).bind
    (Reads.times fun field hmem => reads_field (h.key field hmem) (h.value field hmem))

theorem steady_value : Steady readValue := by
  refine steady_readHead.bind fun h => ?_
  repeat' split
  · exact .pure _
  · exact (Steady.take _).map _
  · exact (((steady_expect 0).map _).times _).map _
  · exact .fail

theorem steady_field : Steady readField :=
  ((steady_expect 3).bind .take).bind fun _ => steady_value.map _

theorem steady_object : Steady readObject := (steady_expect 5).bind steady_field.times

/-- **Round trip.** -/
theorem fromCbor_toCbor (h : Short object) :
    fromCbor (toCbor object) = some object := by
  have hread := reads_object h []
  rw [List.append_nil] at hread
  rw [fromCbor, hread]

/-- **An encoding that is cut short** is refused. -/
theorem fromCbor_take (h : Short object) {n : Nat}
    (hn : n < (toCbor object).length) : fromCbor ((toCbor object).take n) = none := by
  have hread := reads_object h
  rw [← List.take_append_drop n (toCbor object)] at hread
  have hne : (toCbor object).drop n ≠ [] := mt List.drop_eq_nil_iff.1 (Nat.not_le.2 hn)
  unfold fromCbor
  split
  next other hother => exact absurd hother (hread.not_of_cut steady_object hne other)
  next => rfl

/-! ## lengths -/

theorem length_head_pos (major n : Nat) : 0 < (head major n).length := by
  unfold head
  repeat' split
  all_goals exact Nat.succ_pos _

/-- A head has at most an eight-byte number. -/
theorem length_head_le (major n : Nat) : (head major n).length ≤ 9 := by
  have hlen : ∀ width, (bigEndian width n).length = width := fun width => by
    rw [bigEndian, List.length_reverse, length_bytesOfNat]
  unfold head
  repeat' split
  all_goals simp only [List.length_cons, List.length_nil, hlen]
  all_goals decide

/-- An array of bytes takes from one to nine bytes for each of them. -/
theorem length_ofBytes (bytes : Bytes) :
    bytes.length ≤ (Value.ofBytes bytes).bytes.length ∧
      (Value.ofBytes bytes).bytes.length ≤ 9 * bytes.length + 9 := by
  have hitems : ∀ ns : List UInt64, ns.length ≤ (ns.flatMap unsignedBytes).length ∧
      (ns.flatMap unsignedBytes).length ≤ 9 * ns.length := by
    intro ns
    induction ns with
    | nil => exact ⟨Nat.le_refl _, Nat.le_refl _⟩
    | cons n ns ih =>
      have hpos := length_head_pos 0 n.toNat
      have hle := length_head_le 0 n.toNat
      rw [List.flatMap_cons, List.length_append, List.length_cons, unsignedBytes]
      omega
  have hns := hitems (bytes.map UInt8.toUInt64)
  have hhead := length_head_le 4 (bytes.map UInt8.toUInt64).length
  rw [Value.ofBytes, Value.bytes, List.length_append]
  rw [List.length_map] at hns hhead ⊢
  omega

/-- An object is as long as each of its values at least. -/
theorem length_value_le {key : Bytes} {v : Value} (h : (key, v) ∈ object) :
    v.bytes.length ≤ (toCbor object).length := by
  have hsub := (List.sublist_flatten_of_mem (List.mem_map_of_mem (f := fieldBytes) h)).length_le
  rw [toCbor, List.length_append, List.flatMap]
  rw [fieldBytes, List.length_append] at hsub
  dsimp only at hsub
  omega

end Ooows.Lib.Cbor
