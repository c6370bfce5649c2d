import Ooows.Lib.ByteMem
import Ooows.Lib.Run

/-!
# Ooows.Vga

The VGA device, `devices/ooows-vga.c`: the memory behind the window `0xA0000`-`0xBFFFF`,
and the two planes that the screen is drawn from.

The memory takes an access if its offset is less than the size of the window less the
length, so never one that ends with the window.  A plane takes a write if its index is less
than width times height less the length.  That leaves out a write that ends with the video
plane, and half of the text plane, which has two bytes for each place on the screen.  The
bus sends four bytes of data and takes no reply for a read of eight.  `Served` says which
accesses meet none of this.
-/

namespace Ooows.Vga

open Lib ByteMem Bits

/-! ## the device -/

def hostVgaSize : UInt32 := 0x20000
def vgaMemStart : UInt64 := 0xA0000
def textMemStart : UInt64 := 0xB8000
def textMemStartOff : Nat := 0x18000
def videoMemStart : UInt64 := vgaMemStart
def textPlaneSizeBytes : Nat := 4000
def videoPlaneSizeBytes : Nat := 64000

inductive Mode
  | text
  | video
  deriving DecidableEq, Repr

/-- `VGA_MODE_TEXT` and `VGA_MODE_VIDEO`. -/
def Mode.value : Mode → UInt8
  | text => 0x3
  | video => 0x13

def Mode.width : Mode → UInt32
  | text => 80
  | video => 320

def Mode.height : Mode → UInt32
  | text => 25
  | video => 200

/-- `struct ooows_vga_dev`, without what tells the frontend of a change. -/
structure Dev where
  width : UInt32
  height : UInt32
  mode : Mode
  mem : ByteMem
  textPlane : ByteMem
  vplane : ByteMem

/-- What is read of a PIO request to `VGA_PORT_CHANGE_MODE`. -/
structure IoportRequest where
  direction : UInt8
  data : UInt32
  deriving DecidableEq, Repr

structure MmioRequest where
  physAddr : UInt64
  data : UInt64
  len : UInt32
  isWrite : Bool
  deriving DecidableEq, Repr

/-- `InitDevice`: all memory is new. -/
def Dev.init : Dev where
  width := Mode.video.width
  height := Mode.video.height
  mode := .video
  mem := fun _ => 0
  textPlane := fun _ => 0
  vplane := fun _ => 0

/-- The reply, and the device after the request. -/
def Dev.vgaChangeMode (d : Dev) (pio : IoportRequest) : UInt32 × Dev :=
  if pio.direction = 0 then (d.mode.value.toUInt32, d)
  else
    let newMode := pio.data.toUInt8
    if newMode = Mode.video.value then
      (0, { d with
        mode := .video, width := Mode.video.width, height := Mode.video.height
        vplane := d.vplane.writeBytes 0 (d.mem.readBytes 0 videoPlaneSizeBytes) })
    else if newMode = Mode.text.value then
      (0, { d with
        mode := .text, width := Mode.text.width, height := Mode.text.height
        textPlane := d.textPlane.writeBytes 0
          (d.mem.readBytes textMemStartOff textPlaneSizeBytes) })
    else (0, d)

/-- The bytes that `memcpy` takes from `&mmio->data`. -/
def MmioRequest.bytes (mmio : MmioRequest) : List UInt8 := bytesOfNat mmio.len.toNat mmio.data.toNat

/-- The bound of both plane writes, and the copy. -/
def Dev.planeWrite (d : Dev) (plane : ByteMem) (start : UInt64) (mmio : MmioRequest) : ByteMem :=
  let index := (mmio.physAddr - start).toUInt32
  if index < d.width * d.height - mmio.len then plane.writeBytes index.toNat mmio.bytes else plane

def Dev.vgaTextWrite (d : Dev) (mmio : MmioRequest) : Dev :=
  { d with textPlane := d.planeWrite d.textPlane textMemStart mmio }

def Dev.vgaVideoWrite (d : Dev) (mmio : MmioRequest) : Dev :=
  { d with vplane := d.planeWrite d.vplane videoMemStart mmio }

def Dev.mirrorWrite (d : Dev) (mmio : MmioRequest) : Dev :=
  let offset := (mmio.physAddr - vgaMemStart).toUInt32
  if offset < hostVgaSize - mmio.len then
    { d with mem := d.mem.writeBytes offset.toNat mmio.bytes }
  else d

/-- `mmio->data` after the call. -/
def Dev.mirrorRead (d : Dev) (mmio : MmioRequest) : UInt64 :=
  let offset := (mmio.physAddr - vgaMemStart).toUInt32
  if offset < hostVgaSize - mmio.len then
    let data : ByteMem := fun i => (bytesOfNat 8 mmio.data.toNat).getD i 0
    UInt64.ofNat ((data.writeBytes 0 (d.mem.readBytes offset.toNat mmio.len.toNat)).load 0 8)
  else mmio.data

/-- The reply, which `HandledRequest` sends as an `int`, and the device. -/
def Dev.vgaHandleMmio (d : Dev) (mmio : MmioRequest) : UInt32 × Dev :=
  if mmio.isWrite then
    let d := d.mirrorWrite mmio
    match d.mode with
    | .text => (0, d.vgaTextWrite mmio)
    | .video => (0, d.vgaVideoWrite mmio)
  else ((d.mirrorRead mmio).toUInt32, d)

/-- `dbusHandleMmioAccess`, for an address that is the device's: its result, what `data`
points at afterwards, and the device. -/
def Dev.dbusHandleMmioAccess (d : Dev) (physAddr : UInt64) (data : ByteMem) (len : UInt32)
    (isWrite : Bool) : Int × ByteMem × Dev :=
  let reply := d.vgaHandleMmio ⟨physAddr, UInt64.ofNat (data.load 0 4), len, isWrite⟩
  let value := reply.1
  if isWrite then (0, data, reply.2)
  else if len = 1 then (0, data.store 0 8 (value &&& 0xff).toNat, reply.2)
  else if len = 2 then (0, data.store 0 2 (value &&& 0xffff).toNat, reply.2)
  else if len = 4 then (0, data.store 0 4 value.toNat, reply.2)
  else (-1, data, reply.2)

/-! ## what the guest does -/

/-- The lengths of an access. -/
inductive Width
  | one
  | two
  | four
  | eight
  deriving DecidableEq, Repr

def Width.len : Width → UInt32
  | one => 1
  | two => 2
  | four => 4
  | eight => 8

/-- A place in the window, by its offset. -/
structure Place where
  width : Width
  off : Nat
  inside : off + width.len.toNat ≤ 0x20000

def Place.len (p : Place) : Nat := p.width.len.toNat

def Place.physAddr (p : Place) : UInt64 := UInt64.ofNat (0xA0000 + p.off)

/-- An access of the guest.  `data` is what `data` of the exit points at. -/
inductive Access
  | write (p : Place) (data : ByteMem)
  | read (p : Place) (data : ByteMem)
  | mode (pio : IoportRequest)

/-- The device that a call leaves. -/
def leaves {α : Type} (result : α × Dev) : Dev := result.2

def Dev.step (d : Dev) : Access → Dev
  | .write p data => leaves (d.dbusHandleMmioAccess p.physAddr data p.width.len true).2
  | .read p data => leaves (d.dbusHandleMmioAccess p.physAddr data p.width.len false).2
  | .mode pio => leaves (d.vgaChangeMode pio)

/-- What a memory of the window's size holds after an access, by offset. -/
def Access.apply (m : ByteMem) : Access → ByteMem
  | .write p data => m.writeBytes p.off (data.readBytes 0 p.len)
  | .read _ _ => m
  | .mode _ => m

/-- The byte last written to each offset. -/
def lastWritten (as : List Access) : ByteMem := as.foldl Access.apply fun _ => 0

/-- The plane of the device's mode shows its part of the memory. -/
def Dev.Mirrors (d : Dev) : Prop :=
  match d.mode with
  | .text => ∀ i, i < textPlaneSizeBytes → d.textPlane i = d.mem (textMemStartOff + i)
  | .video => ∀ i, i < videoPlaneSizeBytes → d.vplane i = d.mem i

/-- The read succeeds, and its bytes are those of a memory. -/
def Dev.Reads (d : Dev) (m : ByteMem) (p : Place) (data : ByteMem) : Prop :=
  let (ret, data, _) := d.dbusHandleMmioAccess p.physAddr data p.width.len false
  ret = 0 ∧ data.readBytes 0 p.len = m.readBytes p.off p.len

/-- The write is in the half of the text plane that is copied, or in none of it. -/
def Place.ShownText (p : Place) : Prop :=
  p.off + p.len ≤ textMemStartOff ∨ textMemStartOff + textPlaneSizeBytes ≤ p.off ∨
    textMemStartOff ≤ p.off ∧ p.off + p.len < textMemStartOff + 2000

/-- The write ends before the video plane does, or is behind it. -/
def Place.ShownVideo (p : Place) : Prop :=
  p.off + p.len < videoPlaneSizeBytes ∨ videoPlaneSizeBytes ≤ p.off

/-- **Condition**: the access ends before the window does; a read has no eight bytes and the
last four of a write of eight are zero; and the plane of the mode takes a write or has no
part in it. -/
def Served (d : Dev) : Access → Prop
  | .read p _ => p.off + p.len < 0x20000 ∧ p.width ≠ .eight
  | .write p data =>
    p.off + p.len < 0x20000 ∧ (p.width = .eight → data.readBytes 4 4 = [0, 0, 0, 0]) ∧
      match d.mode with
      | .text => p.ShownText
      | .video => p.ShownVideo
  | .mode _ => True

/-! ## where an access goes -/

variable {d : Dev} {p : Place} {data : ByteMem} {as : List Access}

/-- The request that the bus makes of an access. -/
def Place.request (p : Place) (data : ByteMem) (isWrite : Bool) : MmioRequest :=
  ⟨p.physAddr, UInt64.ofNat (data.load 0 4), p.width.len, isWrite⟩

@[simp] theorem Place.request_physAddr (p : Place) (data : ByteMem) (w : Bool) :
    (p.request data w).physAddr = p.physAddr := rfl

@[simp] theorem Place.request_len (p : Place) (data : ByteMem) (w : Bool) :
    (p.request data w).len = p.width.len := rfl

@[simp] theorem Place.request_isWrite (p : Place) (data : ByteMem) (w : Bool) :
    (p.request data w).isWrite = w := rfl

theorem Place.len_bounds (p : Place) :
    1 ≤ p.len ∧ p.len ≤ 8 ∧ (p.width ≠ .eight → p.len ≤ 4) ∧ (p.width = .eight → p.len = 8) := by
  rw [Place.len]
  cases p.width <;> decide

theorem Place.toNat_physAddr (p : Place) : p.physAddr.toNat = 0xA0000 + p.off := by
  have hin := p.inside
  rw [Place.physAddr, UInt64.toNat_ofNat', Nat.mod_eq_of_lt (by omega)]

/-- An index is the distance from the start, modulo `2 ^ 32`. -/
theorem Place.toNat_index (p : Place) (start : UInt64) :
    (p.physAddr - start).toUInt32.toNat = (2 ^ 64 - start.toNat + (0xA0000 + p.off)) % 2 ^ 32 := by
  rw [UInt64.toNat_toUInt32, UInt64.toNat_sub, p.toNat_physAddr]
  omega

theorem Place.toNat_offset (p : Place) : (p.physAddr - vgaMemStart).toUInt32.toNat = p.off := by
  have hin := p.inside
  rw [p.toNat_index, show vgaMemStart.toNat = 0xA0000 from rfl]
  omega

theorem lt_sub_len {index size : UInt32} (h : p.len ≤ size.toNat) :
    index < size - p.width.len ↔ index.toNat + p.len < size.toNat := by
  rw [UInt32.lt_iff_toNat_lt, UInt32.toNat_sub_of_le _ _ (UInt32.le_iff_toNat_le.2 h), Place.len]
  rw [Place.len] at h
  omega

theorem Place.offset_lt (p : Place) :
    (p.physAddr - vgaMemStart).toUInt32 < hostVgaSize - p.width.len ↔ p.off + p.len < 0x20000 := by
  have hlen := p.len_bounds
  rw [lt_sub_len (by rw [show hostVgaSize.toNat = 0x20000 from rfl]; omega), p.toNat_offset,
    show hostVgaSize.toNat = 0x20000 from rfl]

/-! ## reads -/

theorem mirrorRead_bytes (d : Dev) (data : ByteMem) (h : p.off + p.len < 0x20000)
    (hlen : p.len ≤ 4) :
    bytesOfNat p.len (d.mirrorRead (p.request data false)).toUInt32.toNat =
      d.mem.readBytes p.off p.len := by
  have hmod (v : Nat) : (UInt64.ofNat v).toUInt32.toNat = v % 256 ^ 4 := by
    rw [UInt64.toNat_toUInt32, UInt64.toNat_ofNat']
    omega
  have hcopy (m : ByteMem) (bs : List UInt8) (hbs : bs.length = p.len) :
      (m.writeBytes 0 bs).readBytes 0 p.len = bs := by
    rw [← hbs, readBytes_writeBytes]
  simp only [Dev.mirrorRead, Place.request, if_pos (p.offset_lt.2 h), p.toNat_offset]
  rw [hmod, bytesOfNat_mod hlen, bytesOfNat_load (by omega)]
  exact hcopy _ _ (length_readBytes ..)

/-- A read within the bounds of device and bus gives the bytes of the memory. -/
theorem reads_mem (h : p.off + p.len < 0x20000) (hw : p.width ≠ .eight) :
    d.Reads d.mem p data := by
  have hbytes := mirrorRead_bytes d data h (p.len_bounds.2.2.1 hw)
  have hmask (v : UInt32) : (v &&& 0xff).toNat = v.toNat % 256 ^ 1 ∧
      (v &&& 0xffff).toNat = v.toNat % 256 ^ 2 :=
    ⟨Nat.and_two_pow_sub_one_eq_mod v.toNat 8, Nat.and_two_pow_sub_one_eq_mod v.toNat 16⟩
  obtain ⟨w, off, inside⟩ := p
  cases w with
  | one =>
    refine ⟨rfl, (readBytes_store_self (Nat.le_add_right 1 7) ..).trans ?_⟩
    rw [(hmask _).1]
    exact (bytesOfNat_mod Nat.le.refl _).trans hbytes
  | two =>
    refine ⟨rfl, (readBytes_store_self Nat.le.refl ..).trans ?_⟩
    rw [(hmask _).2]
    exact (bytesOfNat_mod Nat.le.refl _).trans hbytes
  | four => exact ⟨rfl, (readBytes_store_self Nat.le.refl ..).trans hbytes⟩
  | eight => exact absurd rfl hw

/-! ## writes -/

/-- The bus sends four bytes, and zeros behind them. -/
theorem request_bytes (hzero : p.width = .eight → data.readBytes 4 4 = [0, 0, 0, 0]) :
    (p.request data true).bytes = data.readBytes 0 p.len := by
  have hlt : data.load 0 4 < 2 ^ 64 :=
    Nat.lt_of_lt_of_le (ofBytes_lt (data.readBytes 0 4)) (by rw [length_readBytes]; decide)
  rw [MmioRequest.bytes, Place.request, UInt64.toNat_ofNat', Nat.mod_eq_of_lt hlt]
  by_cases hw : p.width = .eight
  · have hall : bytesOfNat 8 (ofBytes (data.readBytes 0 4)) = data.readBytes 0 8 := by
      rw [bytesOfNat_ofBytes_getD, show 8 = 4 + 4 from rfl, readBytes_add, Nat.zero_add, hzero hw]
      rfl
    rw [Place.len, hw]
    exact hall
  · exact bytesOfNat_load (p.len_bounds.2.2.1 hw) data 0

theorem mirrorWrite_mem (h : p.off + p.len < 0x20000) :
    d.mirrorWrite (p.request data true) =
      { d with mem := d.mem.writeBytes p.off (p.request data true).bytes } := by
  simp only [Dev.mirrorWrite, Place.request, if_pos (p.offset_lt.2 h), p.toNat_offset]

theorem dbusHandleMmioAccess_write (d : Dev) (p : Place) (data : ByteMem) :
    d.dbusHandleMmioAccess p.physAddr data p.width.len true =
      (0, data, leaves (d.vgaHandleMmio (p.request data true))) := by
  rw [Dev.dbusHandleMmioAccess, if_pos rfl, Place.request, leaves]

/-- The device after a write: the memory, then the plane of the mode. -/
theorem step_write (hend : p.off + p.len < 0x20000) :
    d.step (.write p data) =
      let d := { d with mem := d.mem.writeBytes p.off (p.request data true).bytes }
      match d.mode with
      | .text => d.vgaTextWrite (p.request data true)
      | .video => d.vgaVideoWrite (p.request data true) := by
  rw [Dev.step, dbusHandleMmioAccess_write, Dev.vgaHandleMmio, p.request_isWrite, if_pos rfl,
    mirrorWrite_mem hend]
  cases d.mode <;> rfl

/-- The places of a plane that a write of a mode gets to. -/
theorem Place.index_lt_text (p : Place) :
    (p.physAddr - textMemStart).toUInt32 < (2000 : UInt32) - p.width.len ↔
      textMemStartOff ≤ p.off ∧ p.off + p.len < textMemStartOff + 2000 := by
  have hlen := p.len_bounds
  have hin := p.inside
  rw [lt_sub_len (by rw [show (2000 : UInt32).toNat = 2000 from rfl]; omega), p.toNat_index,
    show textMemStart.toNat = 0xB8000 from rfl, show (2000 : UInt32).toNat = 2000 from rfl,
    textMemStartOff]
  omega

theorem Place.index_lt_video (p : Place) :
    (p.physAddr - videoMemStart).toUInt32 < (64000 : UInt32) - p.width.len ↔
      p.off + p.len < videoPlaneSizeBytes := by
  have hlen := p.len_bounds
  rw [lt_sub_len (by rw [show (64000 : UInt32).toNat = 64000 from rfl]; omega), videoMemStart,
    p.toNat_offset, show (64000 : UInt32).toNat = videoPlaneSizeBytes from rfl]

theorem textWrite_plane (p : Place) (data : ByteMem) (hsize : d.width * d.height = 2000) :
    (d.vgaTextWrite (p.request data true)).textPlane =
      if textMemStartOff ≤ p.off ∧ p.off + p.len < textMemStartOff + 2000 then
        d.textPlane.writeBytes (p.off - textMemStartOff) (p.request data true).bytes
      else d.textPlane := by
  have hin := p.inside
  have hindex (h : textMemStartOff ≤ p.off) :
      (p.physAddr - textMemStart).toUInt32.toNat = p.off - textMemStartOff := by
    rw [textMemStartOff] at h
    rw [p.toNat_index, show textMemStart.toNat = 0xB8000 from rfl, textMemStartOff]
    omega
  simp only [Dev.vgaTextWrite, Dev.planeWrite, hsize, p.request_physAddr, p.request_len]
  by_cases h : textMemStartOff ≤ p.off ∧ p.off + p.len < textMemStartOff + 2000
  · rw [if_pos (p.index_lt_text.2 h), if_pos h, hindex h.1]
  · rw [if_neg (mt p.index_lt_text.1 h), if_neg h]

theorem videoWrite_plane (p : Place) (data : ByteMem) (hsize : d.width * d.height = 64000) :
    (d.vgaVideoWrite (p.request data true)).vplane =
      if p.off + p.len < videoPlaneSizeBytes then
        d.vplane.writeBytes p.off (p.request data true).bytes
      else d.vplane := by
  simp only [Dev.vgaVideoWrite, Dev.planeWrite, hsize, p.request_physAddr, p.request_len]
  by_cases h : p.off + p.len < videoPlaneSizeBytes
  · rw [if_pos (p.index_lt_video.2 h), if_pos h, videoMemStart, p.toNat_offset]
  · rw [if_neg (mt p.index_lt_video.1 h), if_neg h]

/-- The invariant: what the memory holds, and what the planes show of it. -/
structure Dev.Shows (d : Dev) (m : ByteMem) : Prop where
  width : d.width = d.mode.width
  height : d.height = d.mode.height
  mem : d.mem = m
  mirrors : d.Mirrors

theorem shows_init : Dev.init.Shows fun _ => 0 :=
  ⟨rfl, rfl, rfl, fun _ _ => rfl⟩

/-- A write that the plane of the mode takes, or has no part in. -/
theorem shows_write {m : ByteMem} (h : d.Shows m) (hserved : Served d (.write p data)) :
    (d.step (.write p data)).Shows (m.writeBytes p.off (data.readBytes 0 p.len)) := by
  obtain ⟨hwidth, hheight, rfl, hmirrors⟩ := h
  obtain ⟨hend, hzero, hshown⟩ := hserved
  have hlen : (p.request data true).bytes.length = p.len := length_bytesOfNat ..
  rw [step_write hend, ← request_bytes hzero]
  unfold Dev.Mirrors at hmirrors
  cases hmode : d.mode with
  | text =>
    rw [hmode] at hwidth hheight hmirrors hshown
    refine ⟨hwidth, hheight, rfl, fun i hi => ?_⟩
    have hsize : d.width * d.height = 2000 := by rw [hwidth, hheight]; rfl
    have hplane := textWrite_plane (d := { d with
      mem := d.mem.writeBytes p.off (p.request data true).bytes
      mode := .text }) p data hsize
    refine (congrFun hplane i).trans ?_
    change _ = d.mem.writeBytes p.off (p.request data true).bytes (textMemStartOff + i)
    split
    next hin =>
      obtain ⟨k, hk⟩ := Nat.exists_eq_add_of_le hin.1
      rw [hk, Nat.add_sub_cancel_left]
      exact writeBytes_shift (hmirrors i hi)
    next hout =>
      refine (hmirrors i hi).trans (writeBytes_outside ?_).symm
      rw [hlen]
      rcases hshown with hbefore | hbehind | hin
      · omega
      · omega
      · exact absurd hin hout
  | video =>
    rw [hmode] at hwidth hheight hmirrors hshown
    refine ⟨hwidth, hheight, rfl, fun i hi => ?_⟩
    have hsize : d.width * d.height = 64000 := by rw [hwidth, hheight]; rfl
    have hplane := videoWrite_plane (d := { d with
      mem := d.mem.writeBytes p.off (p.request data true).bytes
      mode := .video }) p data hsize
    refine (congrFun hplane i).trans ?_
    change _ = d.mem.writeBytes p.off (p.request data true).bytes i
    split
    next =>
      have hold : d.vplane i = d.mem (0 + i) := by
        rw [Nat.zero_add]
        exact hmirrors i hi
      exact (writeBytes_shift hold).trans (by rw [Nat.zero_add, Nat.zero_add])
    next hout =>
      refine (hmirrors i hi).trans (writeBytes_outside ?_).symm
      rcases hshown with hin | hbehind
      · exact absurd hin hout
      · omega

/-- A change of mode copies the part of the memory that the new mode shows. -/
theorem shows_mode {m : ByteMem} (h : d.Shows m) (pio : IoportRequest) :
    (d.step (.mode pio)).Shows m := by
  have hcopy (plane : ByteMem) (a n i : Nat) (hi : i < n) :
      plane.writeBytes 0 (d.mem.readBytes a n) i = d.mem (a + i) := by
    have hread := congrArg (·.getD i 0) (readBytes_writeBytes plane 0 (d.mem.readBytes a n))
    simpa [readBytes, hi] using hread
  simp only [Dev.step, leaves, Dev.vgaChangeMode]
  split
  · exact h
  · split
    · have hplane := hcopy d.vplane 0 videoPlaneSizeBytes
      simp only [Nat.zero_add] at hplane
      refine ⟨rfl, rfl, h.mem, ?_⟩
      simp only [Dev.Mirrors]
      exact hplane
    · split
      · refine ⟨rfl, rfl, h.mem, ?_⟩
        simp only [Dev.Mirrors]
        exact hcopy d.textPlane textMemStartOff textPlaneSizeBytes
      · exact h

theorem shows_step {m : ByteMem} {a : Access} (h : d.Shows m) (hserved : Served d a) :
    (d.step a).Shows (a.apply m) := by
  cases a with
  | write p data => exact shows_write h hserved
  | read p data =>
    have hsame : d.step (.read p data) = d := by
      simp only [Dev.step, leaves, Dev.dbusHandleMmioAccess, Dev.vgaHandleMmio]
      cases p.width <;> rfl
    rw [hsame]
    exact h
  | mode pio => exact shows_mode h pio

/-- **VGA memory is memory, and the planes mirror it.**  In every run of accesses that device
and bus serve, a read gives the bytes last written, and after each access the plane of the
mode is the part of the memory that it shows. -/
theorem vga_mirrors (h : Run (Guarded Served fun d a d' => d' = d.step a) Dev.init as d) :
    d.Mirrors ∧ d.mem = lastWritten as ∧
      ∀ p data, Served d (.read p data) → d.Reads (lastWritten as) p data := by
  have hshows : d.Shows (lastWritten as) := by
    induction h with
    | refl => exact shows_init
    | tail _ hl ih =>
      obtain ⟨hserved, rfl⟩ := hl
      rw [lastWritten, List.foldl_append]
      exact shows_step ih hserved
  refine ⟨hshows.mirrors, hshows.mem, fun p data hread => ?_⟩
  rw [← hshows.mem]
  exact reads_mem hread.1 hread.2

/-- The first place of the text screen. -/
def firstPlace : Place := ⟨.two, 0x18000, by decide⟩

/-- The first place of the text screen, written and read. -/
theorem vga_mirrors_first_place :
    ∃ d : Dev, d.mode = .text ∧ d.Mirrors ∧
      d.mem = lastWritten [.mode ⟨1, 0x3⟩, .write firstPlace fun _ => 0x41] ∧
      d.Reads (lastWritten [.mode ⟨1, 0x3⟩, .write firstPlace fun _ => 0x41]) firstPlace
        fun _ => 0 := by
  have hserved : Served (Dev.init.step (.mode ⟨1, 0x3⟩)) (.write firstPlace fun _ => 0x41) :=
    ⟨by decide, fun h => absurd h (by decide), .inr (.inr (by decide))⟩
  have hmode : Served Dev.init (.mode ⟨1, 0x3⟩) := trivial
  have h := vga_mirrors (.tail (.tail .refl ⟨hmode, rfl⟩) ⟨hserved, rfl⟩)
  exact ⟨_, rfl, h.1, h.2.1, h.2.2 firstPlace (fun _ => 0) ⟨by decide, by decide⟩⟩

/-- A character from the middle of the text screen on is not in the plane, and the last byte of
the window does not keep what is written to it. -/
theorem vga_loses_writes :
    (∃ as : List Access, ¬ (as.foldl Dev.step Dev.init).Mirrors) ∧
    ∃ (as : List Access) (p : Place) (data : ByteMem),
      ¬ (as.foldl Dev.step Dev.init).Reads (lastWritten as) p data := by
  refine ⟨⟨[.mode ⟨1, 0x3⟩, .write ⟨.one, 0x18000 + 2000, by decide⟩ fun _ => 0x41], fun h => ?_⟩,
    [.write ⟨.one, 0x1ffff, by decide⟩ fun _ => 0x41], ⟨.one, 0x1ffff, by decide⟩, fun _ => 0,
    fun h => ?_⟩
  · exact absurd (h 2000 (by decide)) (by decide +kernel)
  · exact absurd h.2 (by decide +kernel)

end Ooows.Vga
