import Ooows.Lib.Cbor
import Ooows.Ogx.Enclave
import Ooows.Ogx.Frame

/-!
# Ooows.Ogx.Event

The messages of the O(OO)GX device: events, their encryption, and the frames they travel in.

An event is a CBOR object; of the JSON library that writes and reads it only what `Codec` says is
used, and `Lib.Cbor` is one (`cborCodec`).  `encrypt` seals it for the receiver and puts the
ciphertext, the nonce and the sender's public key into another object.  Of libsodium only what its
documentation promises is used: two parties agree on a key, and what is sealed with a key is opened
with it (`Box`).

Bytes are written as arrays of numbers, and a frame has 16 bits for its length.  A message
that is longer is read up to its length modulo 2^16, and no CBOR object can be cut short: it
is lost (`decrypt_take_iff`).
-/

namespace Ooows.Ogx

open Lib Bits ByteMem Cbor Virtio

/-! ## events -/

/-- What is thrown. -/
inductive Thrown
  /-- An exception of the JSON library. -/
  | json
  /-- A `runtime_error`. -/
  | error (text : String)
  /-- The `runtime_error` of `Deserialize`: "unable to parse event during deserialization",
  and the cause. -/
  | deserialization (cause : Thrown)
  deriving DecidableEq, Repr

/-- `LoadEvent`, with what its constructor checks. -/
structure LoadEvent where
  id : UInt32
  code : Bytes
  data : Bytes
  id_lt : id.toNat < numEnclaves
  code_le : code.length ≤ regionSize
  data_le : data.length ≤ regionSize

theorem zero_lt_numEnclaves : (0 : UInt32).toNat < numEnclaves := by decide

theorem one_lt_numEnclaves : (1 : UInt32).toNat < numEnclaves := by decide

theorem nil_fits : ([] : Bytes).length ≤ regionSize := by decide

/-- The constructor of `LoadEvent`.  The text of the last error has the size of a vector that
was moved from. -/
def LoadEvent.make (id : UInt32) (code data : Bytes) : Except Thrown LoadEvent :=
  if hid : id.toNat < numEnclaves then
    if hcode : code.length ≤ regionSize then
      if hdata : data.length ≤ regionSize then .ok ⟨id, code, data, hid, hcode, hdata⟩
      else .error (.error (sizeExceeded "data" 0))
    else .error (.error (sizeExceeded "code" code.length))
  else .error (.error s!"requested enclave ID too large: {id} > {numEnclaves - 1}")

inductive Event
  | load (event : LoadEvent)
  | response (id : UInt32) (response : Bytes)

/-- The names of the fields, and the two types. -/
def keyC : Bytes := [0x63]
def keyD : Bytes := [0x64]
def keyI : Bytes := [0x69]
def keyM : Bytes := [0x6d]
def keyN : Bytes := [0x6e]
def keyR : Bytes := [0x72]
def keyS : Bytes := [0x73]
def keyT : Bytes := [0x74]
def loadType : Bytes := [0x6c, 0x6f, 0x61, 0x64]
def responseType : Bytes := [0x72, 0x65, 0x73, 0x70, 0x6f, 0x6e, 0x73, 0x65]

/-- The object of an event; its fields are ordered by name. -/
def Event.object : Event → Object
  | load event => [(keyC, .ofBytes event.code), (keyD, .ofBytes event.data),
      (keyI, .unsigned event.id.toUInt64), (keyT, .text loadType)]
  | response id bytes => [(keyI, .unsigned id.toUInt64), (keyR, .ofBytes bytes),
      (keyT, .text responseType)]

/-- **The JSON library**, for objects whose fields are numbers, texts and arrays of numbers. -/
structure Codec where
  /-- `to_cbor`. -/
  toCbor (object : Object) : Bytes
  /-- `from_cbor`. -/
  fromCbor (data : Bytes) : Option Object
  fromCbor_toCbor : ∀ {object}, Short object → fromCbor (toCbor object) = some object
  /-- What is cut short is not read. -/
  fromCbor_take : ∀ {object} {n : Nat}, Short object → n < (toCbor object).length →
    fromCbor ((toCbor object).take n) = none
  /-- Numbers are written in their shortest form. -/
  length_toCbor : ∀ object, (toCbor object).length = (Cbor.toCbor object).length

def cborCodec : Codec where
  toCbor := Cbor.toCbor
  fromCbor := Cbor.fromCbor
  fromCbor_toCbor := Cbor.fromCbor_toCbor
  fromCbor_take h hn := Cbor.fromCbor_take h hn
  length_toCbor _ := rfl

/-- `Serialize`. -/
def Event.serialize (codec : Codec) (event : Event) : Bytes := codec.toCbor event.object

/-- A result of the JSON library. -/
def json {α : Type} : Option α → Except Thrown α
  | none => .error .json
  | some a => .ok a

/-- The part of `Deserialize` whose exceptions are caught. -/
def parse (codec : Codec) (data : Bytes) : Except Thrown (Option Event) := do
  let object ← json (codec.fromCbor data)
  let type ← json ((field object keyT).bind Value.getText)
  if type = loadType then
    let id ← json ((field object keyI).bind Value.getUInt32)
    let code ← json ((field object keyC).bind Value.getBytes)
    let data ← json ((field object keyD).bind Value.getBytes)
    let event ← LoadEvent.make id code data
    return some (.load event)
  else if type = responseType then
    let id ← json ((field object keyI).bind Value.getUInt32)
    let response ← json ((field object keyR).bind Value.getBytes)
    return some (.response id response)
  else return none

/-- `Deserialize`. -/
def deserialize (codec : Codec) (data : Bytes) : Except Thrown Event :=
  match parse codec data with
  | .error cause => .error (.deserialization cause)
  | .ok none => .error (.error "unknown event type during deserialization")
  | .ok (some event) => .ok event

/-! ## encryption -/

/-- `crypto_box_PUBLICKEYBYTES` and `crypto_box_SECRETKEYBYTES`. -/
def keyBytes : Nat := 32

/-- `crypto_box_NONCEBYTES`. -/
def nonceBytes : Nat := 24

/-- `crypto_box_MACBYTES`. -/
def macBytes : Nat := 16

/-- `crypto_box`: a key is agreed on, and messages are sealed and opened with it; and the library
that they are written with. -/
structure Box extends Codec where
  publicKey (sec : Bytes) : Bytes
  /-- `crypto_box_beforenm`. -/
  beforenm (pub sec : Bytes) : Option Bytes
  /-- `crypto_secretbox`, with the key that was agreed on. -/
  secretbox (key nonce message : Bytes) : Bytes
  secretboxOpen (key nonce ciphertext : Bytes) : Option Bytes
  length_publicKey : ∀ sec, (publicKey sec).length = keyBytes
  /-- Two parties agree on a key. -/
  agree : ∀ sec sec', sec.length = keyBytes → sec'.length = keyBytes →
    ∃ key, beforenm (publicKey sec') sec = some key ∧ beforenm (publicKey sec) sec' = some key
  length_secretbox : ∀ key nonce message,
    (secretbox key nonce message).length = macBytes + message.length
  /-- What was sealed can be opened. -/
  secretboxOpen_secretbox : ∀ key nonce message,
    secretboxOpen key nonce (secretbox key nonce message) = some message

/-- A secret key, and the public key that belongs to it. -/
structure KeyPair where
  sec : Bytes
  size : sec.length = keyBytes

def KeyPair.pub (box : Box) (keys : KeyPair) : Bytes := box.publicKey keys.sec

/-- A nonce. -/
structure Nonce where
  bytes : Bytes
  size : bytes.length = nonceBytes

variable (box : Box)

/-- `crypto_box_easy`. -/
def Box.easy (message nonce pub sec : Bytes) : Option Bytes :=
  (box.beforenm pub sec).map fun key => box.secretbox key nonce message

/-- `crypto_box_open_easy`. -/
def Box.openEasy (ciphertext nonce pub sec : Bytes) : Option Bytes :=
  (box.beforenm pub sec).bind fun key => box.secretboxOpen key nonce ciphertext

/-- The object that is sent. -/
def envelope (senderPub ciphertext nonce : Bytes) : Object :=
  [(keyM, .ofBytes ciphertext), (keyN, .ofBytes nonce), (keyS, .ofBytes senderPub)]

/-- `Encrypt`, with the nonce it draws. -/
def encrypt (senderPub senderSec receiverPub message : Bytes) (nonce : Nonce) :
    Except Thrown Bytes :=
  if senderSec.length ≠ keyBytes then .error (.error "sender secret key is ill-formed")
  else if receiverPub.length ≠ keyBytes then .error (.error "receiver public key is ill-formed")
  else match box.easy message nonce.bytes receiverPub senderSec with
    | none => .error (.error "unable to encrypt message")
    | some ciphertext => .ok (box.toCbor (envelope senderPub ciphertext nonce.bytes))

/-- `Decrypt`: the sender's key and the event. -/
def decrypt (receiverSec data : Bytes) : Except Thrown (Bytes × Event) := do
  if receiverSec.length ≠ keyBytes then throw (.error "receiver secret key is ill-formed")
  let object ← json (box.fromCbor data)
  let senderPub ← json ((field object keyS).bind Value.getBytes)
  let ciphertext ← json ((field object keyM).bind Value.getBytes)
  let nonce ← json ((field object keyN).bind Value.getBytes)
  if senderPub.length ≠ keyBytes then throw (.error "sender_pub_key public key is ill-formed")
  if ciphertext.length < macBytes then throw (.error "ciphertext is truncated")
  if nonce.length ≠ nonceBytes then throw (.error "ill-formed nonce")
  match box.openEasy ciphertext nonce senderPub receiverSec with
  | none => throw (.error "unable to decrypt message")
  | some plaintext => return (senderPub, ← deserialize box.toCodec plaintext)

/-! ## frames on a socket -/

/-- What `WriteEvent` sends: the length, as 16 bits, and the message. -/
def frame (message : Bytes) : Bytes := bytesOfNat 2 message.length ++ message

/-- `ReadEvent`, up to the call of `Decrypt`. -/
def readFrame : Reader Bytes := (Reader.take 2).bind fun length => .take (ofBytes length)

/-- `ReadEvent`: the event, and what is still on the socket; `none` if it blocks. -/
def readEvent (sec stream : Bytes) : Option (Except Thrown (Bytes × Event) × Bytes) :=
  (readFrame stream).map fun data => (decrypt box sec data.1, data.2)

/-! ## events are read back -/

variable {box : Box}

theorem short_object (event : LoadEvent) : Short (Event.load event).object := by
  have hcode := event.code_le
  have hdata := event.data_le
  unfold regionSize at hcode hdata
  have htype : (Value.text loadType).Short := show loadType.length < 2 ^ 64 by decide
  refine ⟨show 4 < 2 ^ 64 by decide, ?_, ?_⟩
  · simp only [Event.object, List.forall_mem_cons]
    decide
  · simp only [Event.object, List.forall_mem_cons]
    exact ⟨short_ofBytes (by omega), short_ofBytes (by omega), trivial, htype,
      List.forall_mem_nil _⟩

theorem make_eq (event : LoadEvent) : LoadEvent.make event.id event.code event.data = .ok event := by
  rw [LoadEvent.make, dif_pos event.id_lt, dif_pos event.code_le, dif_pos event.data_le]

theorem deserialize_serialize (codec : Codec) (event : LoadEvent) :
    deserialize codec ((Event.load event).serialize codec) = .ok (.load event) := by
  have hparse : parse codec ((Event.load event).serialize codec) = .ok (some (.load event)) := by
    have ho : json (codec.fromCbor ((Event.load event).serialize codec)) =
        .ok (Event.load event).object := by
      rw [Event.serialize, codec.fromCbor_toCbor (short_object event), json]
    have ht : json ((field (Event.load event).object keyT).bind Value.getText) = .ok loadType := rfl
    have hi : json ((field (Event.load event).object keyI).bind Value.getUInt32) = .ok event.id :=
      congrArg Except.ok (UInt32.toUInt32_toUInt64 event.id)
    have hc : json ((field (Event.load event).object keyC).bind Value.getBytes) = .ok event.code :=
      congrArg json (Value.getBytes_ofBytes event.code)
    have hd : json ((field (Event.load event).object keyD).bind Value.getBytes) = .ok event.data :=
      congrArg json (Value.getBytes_ofBytes event.data)
    simp only [parse, ho, ht, hi, hc, hd, make_eq, bind, Except.bind, if_pos]
    rfl
  rw [deserialize, hparse]

/-- The length of a load event, for the code of which at least one byte each is needed. -/
theorem length_serialize (codec : Codec) (event : LoadEvent) :
    event.code.length ≤ ((Event.load event).serialize codec).length ∧
      ((Event.load event).serialize codec).length < 2 ^ 32 := by
  have hcode := length_ofBytes event.code
  have hdata := length_ofBytes event.data
  have hc := event.code_le
  have hd := event.data_le
  have hid : (Value.unsigned event.id.toUInt64).bytes.length ≤ 9 := length_head_le ..
  have hc' : (textBytes keyC).length = 2 := rfl
  have hd' : (textBytes keyD).length = 2 := rfl
  have hi' : (textBytes keyI).length = 2 := rfl
  have ht' : (textBytes keyT).length = 2 := rfl
  have htype : (Value.text loadType).bytes.length = 5 := rfl
  have hhead := length_head_le 5 (Event.load event).object.length
  rw [Event.serialize, codec.length_toCbor, toCbor, List.length_append]
  simp only [Event.object, List.flatMap_cons, List.flatMap_nil, fieldBytes, List.length_append,
    List.length_nil] at hhead ⊢
  unfold regionSize at hc hd
  omega

/-! ## messages are read back -/

section Messages

variable {senderPub receiverSec ciphertext nonce data : Bytes}

theorem short_envelope (hpub : senderPub.length = keyBytes) (hcipher : ciphertext.length < 2 ^ 64)
    (hnonce : nonce.length = nonceBytes) : Short (envelope senderPub ciphertext nonce) := by
  unfold keyBytes at hpub
  unfold nonceBytes at hnonce
  refine ⟨show 3 < 2 ^ 64 by decide, ?_, ?_⟩
  · simp only [envelope, List.forall_mem_cons]
    decide
  · simp only [envelope, List.forall_mem_cons]
    exact ⟨short_ofBytes hcipher, short_ofBytes (by omega), short_ofBytes (by omega),
      List.forall_mem_nil _⟩

theorem decrypt_of_fromCbor (hsec : receiverSec.length = keyBytes) (h : box.fromCbor data = none) :
    decrypt box receiverSec data = .error .json := by
  rw [decrypt, if_neg (not_not.2 hsec), h]
  rfl

/-- What `Decrypt` makes of what `Encrypt` sends. -/
theorem decrypt_envelope (hsec : receiverSec.length = keyBytes)
    (hpub : senderPub.length = keyBytes) (hmac : macBytes ≤ ciphertext.length)
    (hcipher : ciphertext.length < 2 ^ 64) (hnonce : nonce.length = nonceBytes) {plaintext : Bytes}
    (hopen : box.openEasy ciphertext nonce senderPub receiverSec = some plaintext) :
    decrypt box receiverSec (box.toCbor (envelope senderPub ciphertext nonce)) =
      (deserialize box.toCodec plaintext).map fun event => (senderPub, event) := by
  have ho : json (box.fromCbor (box.toCbor (envelope senderPub ciphertext nonce))) =
      .ok (envelope senderPub ciphertext nonce) := by
    rw [box.fromCbor_toCbor (short_envelope hpub hcipher hnonce), json]
  have hs : json ((field (envelope senderPub ciphertext nonce) keyS).bind Value.getBytes) =
      .ok senderPub := congrArg json (Value.getBytes_ofBytes senderPub)
  have hm : json ((field (envelope senderPub ciphertext nonce) keyM).bind Value.getBytes) =
      .ok ciphertext := congrArg json (Value.getBytes_ofBytes ciphertext)
  have hn : json ((field (envelope senderPub ciphertext nonce) keyN).bind Value.getBytes) =
      .ok nonce := congrArg json (Value.getBytes_ofBytes nonce)
  simp only [decrypt, ho, hs, hm, hn, hopen, bind, Except.bind, ne_eq, hsec, hpub, hnonce,
    not_true_eq_false, if_false, Nat.not_lt.2 hmac]
  cases deserialize box.toCodec plaintext <;> rfl

/-- A message that can be decrypted can be answered. -/
theorem sender_of_decrypt {event : Event}
    (h : decrypt box receiverSec data = .ok (senderPub, event)) :
    senderPub.length = keyBytes ∧ (box.beforenm senderPub receiverSec).isSome = true := by
  simp only [decrypt, bind, Except.bind, throw, throwThe, MonadExceptOf.throw, pure,
    Except.pure] at h
  -- every way out but the last is an exception
  repeat' split at h
  all_goals try contradiction
  next hsize _ _ _ plaintext hopen _ _ _ =>
    cases h
    obtain ⟨key, hkey, -⟩ := Option.bind_eq_some_iff.1 hopen
    exact ⟨not_not.1 hsize, Option.isSome_iff_exists.2 ⟨key, hkey⟩⟩

end Messages

/-- Whoever shares a key can be written to. -/
theorem encrypt_eq (senderPub : Bytes) {senderSec receiverPub key : Bytes}
    (hsec : senderSec.length = keyBytes) (hpub : receiverPub.length = keyBytes)
    (hkey : box.beforenm receiverPub senderSec = some key) (message : Bytes) (nonce : Nonce) :
    encrypt box senderPub senderSec receiverPub message nonce =
      .ok (box.toCbor (envelope senderPub (box.secretbox key nonce.bytes message) nonce.bytes)) := by
  rw [encrypt, if_neg (not_not.2 hsec), if_neg (not_not.2 hpub), Box.easy, hkey]
  rfl

/-- A message of a load event. -/
theorem encrypt_load (box : Box) (sender receiver : KeyPair) (event : LoadEvent) (nonce : Nonce) :
    ∃ ciphertext, encrypt box (sender.pub box) sender.sec (receiver.pub box)
        ((Event.load event).serialize box.toCodec) nonce =
      .ok (box.toCbor (envelope (sender.pub box) ciphertext nonce.bytes)) ∧
    ciphertext.length = macBytes + ((Event.load event).serialize box.toCodec).length ∧
    box.openEasy ciphertext nonce.bytes (sender.pub box) receiver.sec =
      some ((Event.load event).serialize box.toCodec) := by
  obtain ⟨key, hseal, hopen⟩ := box.agree sender.sec receiver.sec sender.size receiver.size
  refine ⟨box.secretbox key nonce.bytes ((Event.load event).serialize box.toCodec),
    encrypt_eq _ sender.size (box.length_publicKey _) hseal _ nonce, box.length_secretbox .., ?_⟩
  rw [Box.openEasy, KeyPair.pub, hopen, Option.bind_some, box.secretboxOpen_secretbox]

/-- **What a reader makes of a message** whose length it knows modulo 2^16. -/
theorem decrypt_take_iff {sender receiver : KeyPair} {event : LoadEvent} {nonce : Nonce}
    {message : Bytes} (hencrypt : encrypt box (sender.pub box) sender.sec (receiver.pub box)
      ((Event.load event).serialize box.toCodec) nonce = .ok message) :
    decrypt box receiver.sec (message.take (message.length % 65536)) =
      .ok (sender.pub box, .load event) ↔ message.length < 65536 := by
  obtain ⟨ciphertext, heq, hlen, hopen⟩ := encrypt_load box sender receiver event nonce
  rw [hencrypt] at heq
  cases heq
  have hbound := (length_serialize box.toCodec event).2
  have hpub : (sender.pub box).length = keyBytes := box.length_publicKey _
  have hlt : ciphertext.length < 2 ^ 64 := by
    rw [hlen, macBytes]
    omega
  by_cases hsmall : (box.toCbor (envelope (sender.pub box) ciphertext nonce.bytes)).length < 65536
  · rw [Nat.mod_eq_of_lt hsmall, List.take_length, decrypt_envelope receiver.size hpub
      (by rw [hlen]; exact Nat.le_add_right ..) hlt nonce.size hopen, deserialize_serialize]
    exact iff_of_true rfl hsmall
  · have hcut : box.fromCbor ((box.toCbor (envelope (sender.pub box) ciphertext nonce.bytes)).take
        ((box.toCbor (envelope (sender.pub box) ciphertext nonce.bytes)).length % 65536)) = none :=
      box.fromCbor_take (short_envelope hpub hlt nonce.size) (by omega)
    rw [decrypt_of_fromCbor receiver.size hcut]
    exact iff_of_false (fun h => nomatch h) hsmall

/-! ## frames -/

theorem ofBytes_two (n : Nat) : ofBytes (bytesOfNat 2 n) = n % 65536 := ofBytes_bytesOfNat 2 n

/-- A frame on a socket. -/
theorem readFrame_frame (message rest : Bytes) :
    readFrame (frame message ++ rest) = some (message.take (message.length % 65536),
      message.drop (message.length % 65536) ++ rest) := by
  have hlength := Reads.take (bytesOfNat 2 message.length) (message ++ rest)
  have hle : message.length % 65536 ≤ message.length := Nat.mod_le ..
  rw [length_bytesOfNat] at hlength
  rw [readFrame, Reader.bind, frame, List.append_assoc, hlength]
  dsimp only
  rw [ofBytes_two, Reader.take, if_pos (by rw [List.length_append]; omega),
    List.take_append_of_le_length hle, List.drop_append_of_le_length hle]

/-- A frame in a buffer. -/
theorem readDriverMessage_frame (uninit : UInt16) (mem : ByteMem) (vbuf : VirtBuf) {message : Bytes}
    (hin : Inside vbuf.guestAddr (frame message).length) :
    (readDriverMessage uninit
      (.fresh (mem.writeBytes vbuf.guestAddr.toNat (frame message)) vbuf)).1 =
      message.take (message.length % 65536) := by
  have hlen : (frame message).length = 2 + message.length := by
    rw [frame, List.length_append, length_bytesOfNat]
  have hle : message.length % 65536 ≤ message.length := Nat.mod_le ..
  have hblock := readBytes_writeBytes mem vbuf.guestAddr.toNat (frame message)
  have hadd : (vbuf.guestAddr + 2).toNat = vbuf.guestAddr.toNat + 2 :=
    hin.toNat_add (by decide)
  generalize mem.writeBytes vbuf.guestAddr.toNat (frame message) = mem at hblock ⊢
  have hlength : mem.readBytes vbuf.guestAddr.toNat 2 = bytesOfNat 2 message.length := by
    have hread := take_drop_readBytes (i := 0) (k := 2) mem vbuf.guestAddr.toNat
      (n := (frame message).length) (by omega)
    rw [hblock, List.drop_zero, frame, List.take_left' (length_bytesOfNat ..), Nat.add_zero] at hread
    exact hread.symm
  have hbody : mem.readBytes (vbuf.guestAddr.toNat + 2) (message.length % 65536) =
      message.take (message.length % 65536) := by
    have hread := take_drop_readBytes (i := 2) (k := message.length % 65536) mem
      vbuf.guestAddr.toNat (n := (frame message).length) (by omega)
    rw [hblock, frame, List.drop_left' (length_bytesOfNat ..)] at hread
    exact hread.symm
  have hsize : (message.length % 65536).toUInt64.toNat = message.length % 65536 := by
    rw [Nat.toUInt64, UInt64.toNat_ofNat']
    exact Nat.mod_eq_of_lt (show message.length % 65536 < 2 ^ 64 by omega)
  have htwo : Inside vbuf.guestAddr (2 : UInt64).toNat := by
    unfold Inside at hin ⊢
    exact ⟨hin.1, hin.2.1, by rw [show (2 : UInt64).toNat = 2 from rfl]; omega⟩
  have hread : (Buf.fresh mem vbuf).readU 2 = (some (bytesOfNat 2 message.length),
      { (Buf.fresh mem vbuf).touch vbuf.guestAddr.toNat 2 with head := vbuf.guestAddr + 2 }) := by
    rw [← hlength]
    exact Buf.readU_of_inside htwo
  rw [readDriverMessage, hread]
  dsimp only [Option.map_some, Option.getD_some]
  rw [ofBytes_two]
  rcases Nat.eq_zero_or_pos (message.length % 65536) with hzero | hpos
  · -- there is nothing to read, even if the guest's memory ends behind the length
    rw [hzero]
    by_cases hend : Inside (vbuf.guestAddr + 2) (0 : Nat).toUInt64.toNat
    · rw [Buf.readU_of_inside hend]
      rfl
    · rw [Buf.readU_of_not_inside hend]
      rfl
  · have hrest : Inside (vbuf.guestAddr + 2) (message.length % 65536).toUInt64.toNat := by
      rw [hsize]
      exact hin.part hpos (by rw [hlen]; exact Nat.add_le_add_left hle 2)
    rw [Buf.readU_of_inside hrest, hsize, hadd]
    exact hbody

/-! ## the round trip -/

/-- A box that hides nothing: the public key is the secret key. -/
def plainBox : Box where
  toCodec := cborCodec
  publicKey sec := (sec ++ .replicate keyBytes 0).take keyBytes
  beforenm _ _ := some []
  secretbox _ _ message := .replicate macBytes 0 ++ message
  secretboxOpen _ _ ciphertext := some (ciphertext.drop macBytes)
  length_publicKey sec := by
    rw [List.length_take, List.length_append, List.length_replicate]
    omega
  agree _ _ _ _ := ⟨[], rfl, rfl⟩
  length_secretbox _ _ message := by rw [List.length_append, List.length_replicate]
  secretboxOpen_secretbox _ _ message := by
    rw [List.drop_left' List.length_replicate]

/-- Keys and a nonce of zeros, and other keys. -/
def zeroKeys : KeyPair := ⟨.replicate keyBytes 0, rfl⟩

def otherKeys : KeyPair := ⟨.replicate keyBytes 7, rfl⟩

def zeroNonce : Nonce := ⟨.replicate nonceBytes 0, rfl⟩

/-- A load event with as much code as an enclave holds. -/
def fullEvent : LoadEvent where
  id := 1
  code := .replicate regionSize 0
  data := []
  id_lt := one_lt_numEnclaves
  code_le := Nat.le_of_eq List.length_replicate
  data_le := nil_fits

/-- A load event with code and data. -/
def sampleEvent : LoadEvent :=
  ⟨3, [0x90, 0x90, 0xc3], [1, 2, 0xff, 0], by decide, by decide, by decide⟩

/-- **Round trip of load events.**  For every load event and all keys, the message that is
sent is read back as the event, and as coming from the sender, exactly if it has fewer than
2^16 bytes: from a socket, and from a buffer that has the frame in it. -/
theorem load_event_round_trip_iff (box : Box) (sender receiver : KeyPair) (event : LoadEvent)
    (nonce : Nonce) : ∃ message,
    encrypt box (sender.pub box) sender.sec (receiver.pub box)
      ((Event.load event).serialize box.toCodec) nonce =
      .ok message ∧
    (∀ rest, readEvent box receiver.sec (frame message ++ rest) =
      some (.ok (sender.pub box, .load event), rest) ↔ message.length < 65536) ∧
    ∀ uninit (mem : ByteMem) (vbuf : VirtBuf), Inside vbuf.guestAddr (frame message).length →
      (decrypt box receiver.sec (readDriverMessage uninit
          (.fresh (mem.writeBytes vbuf.guestAddr.toNat (frame message)) vbuf)).1 =
        .ok (sender.pub box, .load event) ↔ message.length < 65536) := by
  obtain ⟨ciphertext, hencrypt, -⟩ := encrypt_load box sender receiver event nonce
  have hiff := decrypt_take_iff hencrypt
  refine ⟨_, hencrypt, fun rest => ?_, fun uninit mem vbuf hin => ?_⟩
  · rw [readEvent, readFrame_frame, Option.map_some, Option.some_inj, Prod.mk.injEq, hiff]
    refine and_iff_left_of_imp fun hsmall => ?_
    rw [Nat.mod_eq_of_lt hsmall, List.drop_length, List.nil_append]
  · rw [readDriverMessage_frame uninit mem vbuf hin]
    exact hiff

/-- An event with code and data from another sender, in a buffer at 0x110000. -/
theorem load_event_round_trip_sample : ∃ message,
    encrypt plainBox (otherKeys.pub plainBox) otherKeys.sec (zeroKeys.pub plainBox)
      ((Event.load sampleEvent).serialize plainBox.toCodec) zeroNonce = .ok message ∧
    message.length < 65536 ∧
    decrypt plainBox zeroKeys.sec (readDriverMessage 0 (.fresh
      (ByteMem.writeBytes (fun _ => 0) 0x110000 (frame message)) ⟨0x110000, 256, 0, 0, 0⟩)).1 =
        .ok (otherKeys.pub plainBox, .load sampleEvent) := by
  obtain ⟨message, hencrypt, -, hbuffer⟩ :=
    load_event_round_trip_iff plainBox otherKeys zeroKeys sampleEvent zeroNonce
  have hsmall : ((encrypt plainBox (otherKeys.pub plainBox) otherKeys.sec (zeroKeys.pub plainBox)
      ((Event.load sampleEvent).serialize plainBox.toCodec) zeroNonce).toOption.all fun message =>
        message.length < 65536) = true := by
    decide +kernel
  rw [hencrypt] at hsmall
  have hlt : message.length < 65536 := of_decide_eq_true hsmall
  have hlen : (frame message).length = 2 + message.length := by
    rw [frame, List.length_append, length_bytesOfNat]
  have hin : Inside 0x110000 (frame message).length :=
    ⟨by decide, by decide, by rw [hlen, show (0x110000 : UInt64).toNat = 0x110000 from rfl]; omega⟩
  exact ⟨message, hencrypt, hlt, (hbuffer 0 _ ⟨0x110000, 256, 0, 0, 0⟩ hin).2 hlt⟩

/-- **A full region of code** is accepted by the constructor and lost on the way. -/
theorem full_event_lost : ∃ message,
    encrypt plainBox (zeroKeys.pub plainBox) zeroKeys.sec (zeroKeys.pub plainBox)
      ((Event.load fullEvent).serialize plainBox.toCodec) zeroNonce = .ok message ∧
    LoadEvent.make 1 fullEvent.code [] = .ok fullEvent ∧
    ∀ rest, readEvent plainBox zeroKeys.sec (frame message) ≠
      some (.ok (zeroKeys.pub plainBox, .load fullEvent), rest) := by
  obtain ⟨ciphertext, hencrypt, hlen, -⟩ :=
    encrypt_load plainBox zeroKeys zeroKeys fullEvent zeroNonce
  have hfull : fullEvent.code.length = 65536 := List.length_replicate
  have hevent := (length_serialize plainBox.toCodec fullEvent).1
  have hcipher := (length_ofBytes ciphertext).1
  have hmessage : (Value.ofBytes ciphertext).bytes.length ≤
      (plainBox.toCbor (envelope (zeroKeys.pub plainBox) ciphertext zeroNonce.bytes)).length :=
    length_value_le List.mem_cons_self
  refine ⟨_, hencrypt, make_eq fullEvent, fun rest hread => ?_⟩
  have hframe := readFrame_frame (plainBox.toCbor (envelope (zeroKeys.pub plainBox) ciphertext
    zeroNonce.bytes)) []
  rw [List.append_nil] at hframe
  rw [readEvent, hframe, Option.map_some, Option.some_inj, Prod.mk.injEq] at hread
  have hshort := (decrypt_take_iff hencrypt).1 hread.1
  omega

end Ooows.Ogx
