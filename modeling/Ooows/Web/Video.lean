import Ooows.Vga

/-!
# Ooows.Web.Video

The text screen as the frontend draws it: `parseTextMem` of `web/video.py`.

The loop takes the text plane two bytes at a time, as one signed number.  An attribute
byte with its top bit set makes that number negative, the shift that takes out the
background colour keeps the sign, and the colour is in no table.
-/

namespace Ooows.Web

open Lib ByteMem Vga

/-! ## the program -/

/-- What `parseTextMem` can raise. -/
inductive PyError
  | keyError (key : Int)
  | structError
  deriving DecidableEq, Repr

/-- The escape sequences of `fcolor_map`. -/
def fcolorMap : List (Int × String) :=
  [(0x0, ""), (0x1, "\u001b[34m"), (0x2, "\u001b[32m"), (0x3, "\u001b[36m"),
    (0x4, "\u001b[31m"), (0x5, "\u001b[35m"), (0x6, "\u001b[33m"), (0x7, "\u001b[37m"),
    (0x8, "\u001b[30;1m"), (0x9, "\u001b[34;1m"), (0xa, "\u001b[32;1m"), (0xb, "\u001b[36;1m"),
    (0xc, "\u001b[31;1m"), (0xd, "\u001b[35;1m"), (0xe, "\u001b[33;1m"), (0xf, "\u001b[37;1m")]

/-- The escape sequences of `bcolor_map`. -/
def bcolorMap : List (Int × String) :=
  [(0x0, ""), (0x1, "\u001b[44m"), (0x2, "\u001b[42m"), (0x3, "\u001b[46m"),
    (0x4, "\u001b[41m"), (0x5, "\u001b[45m"), (0x6, "\u001b[43m"), (0x7, "\u001b[47m"),
    (0x8, "\u001b[40;1m"), (0x9, "\u001b[44;1m"), (0xa, "\u001b[42;1m"), (0xb, "\u001b[46;1m"),
    (0xc, "\u001b[41;1m"), (0xd, "\u001b[45;1m"), (0xe, "\u001b[43;1m"), (0xf, "\u001b[47;1m")]

def reset : String := "\u001b[0m"

/-- A look-up in a dictionary. -/
def lookup (map : List (Int × String)) (key : Int) : Except PyError String :=
  (map.lookup key).elim (.error (.keyError key)) .ok

/-- `struct.unpack("h", ...)[0]`: two bytes as a signed number. -/
def unpackH : List UInt8 → Except PyError Int
  | [lo, hi] => .ok (BitVec.ofNat 16 (lo.toNat + 0x100 * hi.toNat)).toInt
  | _ => .error .structError

/-- The character of a cell; null bytes become spaces. -/
def cbytes (short : Int) : Int :=
  -- `short & 0xff`, of a number of either sign
  if short % 0x100 = 0 then 0x20 else short % 0x100

/-- What the loop adds to the string for one cell. -/
def parseCell (bytes : List UInt8) : Except PyError String := do
  let short ← unpackH bytes
  let abytes := short >>> (8 : Nat)
  let fcolor := abytes % 0x10
  let bcolor := abytes >>> (4 : Nat)
  return (← lookup bcolorMap bcolor) ++ (← lookup fcolorMap fcolor) ++
    (Char.ofNat (cbytes short).toNat).toString ++ reset

/-- `parseTextMem`, of the bytes of the shared memory. -/
def parseTextMem (buf : List UInt8) : Except PyError String :=
  (List.range' 0 ((buf.length + 1) / 2) 2).foldlM
    (fun termStr x => return termStr ++ (← parseCell ((buf.drop x).take 2))) ""

/-! ## the screen -/

/-- The colours of the screen in a terminal's numbering. -/
def ansi (colour : Nat) : String := ["0", "4", "2", "6", "1", "5", "3", "7"].getD (colour % 8) ""

/-- The sequence that selects a colour; black is the terminal's own. -/
def select (ground : String) (colour : Nat) : String :=
  if colour = 0 then ""
  else "\u001b[" ++ ground ++ ansi colour ++ (if colour < 8 then "m" else ";1m")

/-- The foreground colour of an attribute byte: its low nibble. -/
def foreground (attr : UInt8) : String := select "3" (attr.toNat % 16)

/-- The background colour of an attribute byte: its high nibble. -/
def background (attr : UInt8) : String := select "4" (attr.toNat / 16)

/-- A character as it is shown. -/
def shown (character : UInt8) : Char :=
  if character = 0 then ' ' else Char.ofNat character.toNat

/-- A cell of the screen. -/
def cell (character attr : UInt8) : String :=
  background attr ++ foreground attr ++ (shown character).toString ++ reset

/-- The cells of a text plane. -/
def cells (plane : ByteMem) : List String :=
  (List.range 2000).map fun i => cell (plane (2 * i)) (plane (2 * i + 1))

/-! ## the tables -/

theorem lookup_fcolorMap (attr : UInt8) :
    lookup fcolorMap (attr.toNat % 16 : Nat) = .ok (foreground attr) := by
  have htable : ∀ c : Fin 16, lookup fcolorMap (c.val : Int) = .ok (select "3" c) := by decide
  exact htable ⟨attr.toNat % 16, Nat.mod_lt _ (by decide)⟩

theorem lookup_bcolorMap (attr : UInt8) :
    lookup bcolorMap (attr.toNat / 16 : Nat) = .ok (background attr) := by
  have htable : ∀ c : Fin 16, lookup bcolorMap (c.val : Int) = .ok (select "4" c) := by decide
  have hlt := attr.toNat_lt
  exact htable ⟨attr.toNat / 16, by omega⟩

/-- No colour has a negative number. -/
theorem lookup_bcolorMap_neg {key : Int} (h : key < 0) :
    lookup bcolorMap key = .error (.keyError key) := by
  have hkeys : ∀ entry ∈ bcolorMap, 0 ≤ entry.1 := by decide
  have hnone : bcolorMap.lookup key = none := by
    rw [List.lookup_eq_none_iff]
    intro entry hmem
    have hpos := hkeys entry hmem
    rw [bne_iff_ne]
    omega
  rw [lookup, hnone]
  rfl

/-! ## one cell -/

/-- The number that two bytes are taken for. -/
def short (lo hi : UInt8) : Int := (BitVec.ofNat 16 (lo.toNat + 0x100 * hi.toNat)).toInt

variable {lo hi : UInt8}

theorem short_eq (lo hi : UInt8) :
    short lo hi =
      lo.toNat + 0x100 * (if hi < 0x80 then (hi.toNat : Int) else hi.toNat - 0x100) := by
  have hlo := lo.toNat_lt
  have hhi := hi.toNat_lt
  have htop : (hi < 0x80) = (hi.toNat < 0x80) := propext UInt8.lt_iff_toNat_lt
  rw [short, BitVec.toInt_eq_toNat_cond, BitVec.toNat_ofNat, Nat.mod_eq_of_lt (by omega)]
  simp only [htop]
  split_ifs <;> omega

theorem ofNat_cbytes (lo hi : UInt8) : Char.ofNat (cbytes (short lo hi)).toNat = shown lo := by
  have hmod : short lo hi % 0x100 = lo.toNat := by
    have hlo := lo.toNat_lt
    rw [short_eq]
    omega
  have hzero : ((lo.toNat : Int) = 0) = (lo = 0) := by
    rw [← UInt8.toNat_inj]
    exact propext Int.natCast_eq_zero
  simp only [cbytes, hmod, hzero, shown]
  split <;> rfl

/-- The attribute byte, with its sign. -/
theorem short_shiftRight (lo hi : UInt8) :
    short lo hi >>> (8 : Nat) = if hi < 0x80 then (hi.toNat : Int) else hi.toNat - 0x100 := by
  have hlo := lo.toNat_lt
  rw [Int.shiftRight_eq_div_pow, short_eq]
  omega

theorem parseCell_eq (lo hi : UInt8) :
    parseCell [lo, hi] = (do
      return (← lookup bcolorMap (short lo hi >>> (8 : Nat) >>> (4 : Nat))) ++
        (← lookup fcolorMap (short lo hi >>> (8 : Nat) % 0x10)) ++
        (Char.ofNat (cbytes (short lo hi)).toNat).toString ++ reset) := rfl

/-- **A cell is drawn** in the colours of its attribute. -/
theorem parseCell_of_lt (h : hi < 0x80) : parseCell [lo, hi] = .ok (cell lo hi) := by
  have hb : (hi.toNat : Int) >>> (4 : Nat) = (hi.toNat / 16 : Nat) := by
    rw [Int.shiftRight_eq_div_pow]
    omega
  have hf : (hi.toNat : Int) % 0x10 = (hi.toNat % 16 : Nat) := by omega
  rw [parseCell_eq, short_shiftRight, if_pos h, hb, hf, lookup_bcolorMap, lookup_fcolorMap,
    ofNat_cbytes]
  rfl

/-- **A cell raises** when the top bit of its attribute is set. -/
theorem parseCell_of_ge (h : ¬ hi < 0x80) :
    parseCell [lo, hi] = .error (.keyError (hi.toNat / 16 - 16)) := by
  have hlt := hi.toNat_lt
  have hb : ((hi.toNat : Int) - 0x100) >>> (4 : Nat) = hi.toNat / 16 - 16 := by
    rw [Int.shiftRight_eq_div_pow]
    omega
  rw [parseCell_eq, short_shiftRight, if_neg h, hb, lookup_bcolorMap_neg (by omega)]
  rfl

/-! ## the loop -/

section Loop

variable {f : Nat → Except PyError String} {g : Nat → String}

/-- A loop whose cells are all drawn. -/
theorem foldlM_of_ok (xs : List Nat) (h : ∀ x ∈ xs, f x = .ok (g x)) (termStr : String) :
    xs.foldlM (fun termStr x => return termStr ++ (← f x)) termStr =
      .ok ((xs.map g).foldl (· ++ ·) termStr) := by
  induction xs generalizing termStr with
  | nil => rfl
  | cons x xs ih =>
    have hx := h x List.mem_cons_self
    rw [List.foldlM_cons, hx, List.map_cons, List.foldl_cons]
    exact ih (fun y hy => h y (List.mem_cons_of_mem x hy)) _

/-- A loop stops at the first cell that raises. -/
theorem foldlM_of_error {p : PyError → Prop} (xs : List Nat)
    (hok : ∀ x ∈ xs, f x = .ok (g x) ∨ ∃ e, p e ∧ f x = .error e)
    (herror : ∃ x ∈ xs, f x ≠ .ok (g x)) (termStr : String) :
    ∃ e, p e ∧ xs.foldlM (fun termStr x => return termStr ++ (← f x)) termStr = .error e := by
  induction xs generalizing termStr with
  | nil => simp at herror
  | cons x xs ih =>
    rw [List.foldlM_cons]
    rcases hok x List.mem_cons_self with hx | ⟨e, he, hx⟩
    · rw [hx]
      refine ih (fun y hy => hok y (List.mem_cons_of_mem x hy)) ?_ _
      obtain ⟨y, hy, hne⟩ := herror
      rcases List.mem_cons.1 hy with rfl | hmem
      · exact absurd hx hne
      · exact ⟨y, hmem, hne⟩
    · rw [hx]
      exact ⟨e, he, rfl⟩

end Loop

/-! ## the plane -/

/-- The loop over the bytes of a plane. -/
theorem parseTextMem_plane (plane : ByteMem) :
    parseTextMem (plane.readBytes 0 textPlaneSizeBytes) =
      ((List.range 2000).map (2 * ·)).foldlM (fun termStr x => return termStr ++
        (← parseCell (((plane.readBytes 0 textPlaneSizeBytes).drop x).take 2))) "" := by
  have hplaces :
      List.range' 0 ((textPlaneSizeBytes + 1) / 2) 2 = (List.range 2000).map (2 * ·) := by
    refine List.ext_getElem (by simp [textPlaneSizeBytes]) fun i _ _ => ?_
    simp
  rw [parseTextMem, length_readBytes, hplaces]

/-- What the loop does at a cell of the plane. -/
theorem parseCell_plane (plane : ByteMem) {i : Nat} (h : i < 2000) :
    parseCell (((plane.readBytes 0 textPlaneSizeBytes).drop (2 * i)).take 2) =
      parseCell [plane (2 * i), plane (2 * i + 1)] := by
  have hle : 2 * i + 2 ≤ textPlaneSizeBytes := by
    rw [textPlaneSizeBytes]
    omega
  rw [take_drop_readBytes _ _ hle, Nat.zero_add]
  rfl

/-- **Screens are drawn exactly when no background is bright**: the frontend shows the
2000 cells of a plane in order if the top bit of every attribute is clear, and raises a
`KeyError` if it is not. -/
theorem text_screen_rendering (plane : ByteMem) :
    ((∀ i < 2000, plane (2 * i + 1) < 0x80) →
      parseTextMem (plane.readBytes 0 textPlaneSizeBytes) =
        .ok ((cells plane).foldl (· ++ ·) "")) ∧
    ((∃ i < 2000, ¬ plane (2 * i + 1) < 0x80) →
      ∃ key < 0,
        parseTextMem (plane.readBytes 0 textPlaneSizeBytes) = .error (.keyError key)) := by
  rw [parseTextMem_plane]
  constructor
  · intro hlow
    have hcells : cells plane = ((List.range 2000).map (2 * ·)).map fun x =>
        cell (plane x) (plane (x + 1)) := by
      simp only [cells, List.map_map, Function.comp_def]
    rw [hcells]
    refine foldlM_of_ok _ (fun x hx => ?_) ""
    obtain ⟨i, hi, rfl⟩ := List.mem_map.1 hx
    have hlt := List.mem_range.1 hi
    rw [parseCell_plane plane hlt, parseCell_of_lt (hlow i hlt)]
  · rintro ⟨i, hlt, hbright⟩
    have hcell : ∀ x ∈ (List.range 2000).map (2 * ·),
        parseCell (((plane.readBytes 0 textPlaneSizeBytes).drop x).take 2) =
            .ok (cell (plane x) (plane (x + 1))) ∨
          ∃ e, (∃ key < 0, e = .keyError key) ∧
            parseCell (((plane.readBytes 0 textPlaneSizeBytes).drop x).take 2) = .error e := by
      intro x hx
      obtain ⟨j, hj, rfl⟩ := List.mem_map.1 hx
      rw [parseCell_plane plane (List.mem_range.1 hj)]
      by_cases h : plane (2 * j + 1) < 0x80
      · exact .inl (parseCell_of_lt h)
      · have hbound := (plane (2 * j + 1)).toNat_lt
        exact .inr ⟨_, ⟨_, by omega, rfl⟩, parseCell_of_ge h⟩
    obtain ⟨e, ⟨key, hneg, rfl⟩, hraises⟩ := foldlM_of_error _ hcell
      ⟨2 * i, List.mem_map.2 ⟨i, List.mem_range.2 hlt, rfl⟩, by
        rw [parseCell_plane plane hlt, parseCell_of_ge hbright]
        simp⟩ ""
    exact ⟨key, hneg, hraises⟩

/-- A screen of letters, in all colours that are drawn. -/
def lettersPlane : ByteMem := fun x =>
  if x % 2 = 0 then UInt8.ofNat (0x41 + x / 2 % 26) else UInt8.ofNat (x / 2 % 128)

theorem lettersPlane_lt (i : Nat) : lettersPlane (2 * i + 1) < 0x80 := by
  have hodd : (2 * i + 1) % 2 ≠ 0 := by omega
  have hlt : (2 * i + 1) / 2 % 128 < 128 := Nat.mod_lt _ (by decide)
  rw [lettersPlane, if_neg hodd, UInt8.lt_iff_toNat_lt, UInt8.toNat_ofNat']
  exact Nat.lt_of_le_of_lt (Nat.mod_le ..) hlt

/-- The letters are drawn; cell 30 is a bright yellow `E` on blue. -/
theorem text_screen_rendering_letters :
    parseTextMem (lettersPlane.readBytes 0 textPlaneSizeBytes) =
        .ok ((cells lettersPlane).foldl (· ++ ·) "") ∧
      (cells lettersPlane)[30]? = some "\u001b[44m\u001b[33;1mE\u001b[0m" := by
  refine ⟨(text_screen_rendering lettersPlane).1 fun i _ => lettersPlane_lt i, ?_⟩
  rw [cells, List.getElem?_map, List.getElem?_range (by decide)]
  decide

/-- A single grey background in the first cell, and the whole screen is not drawn. -/
theorem bright_background_raises :
    ∃ plane : ByteMem, (∀ x, x ≠ 1 → plane x = 0) ∧
      parseTextMem (plane.readBytes 0 textPlaneSizeBytes) = .error (.keyError (-8)) := by
  refine ⟨fun x => if x = 1 then 0x80 else 0, fun x hx => if_neg hx, ?_⟩
  have hfirst : (List.range 2000).map (2 * ·) = 0 :: (List.range' 1 1999).map (2 * ·) := by
    rw [List.range_eq_range', List.range'_succ, List.map_cons]
  rw [parseTextMem_plane, hfirst, List.foldlM_cons,
    parseCell_plane (i := 0) (fun x => if x = 1 then 0x80 else 0) (by decide)]
  rfl

end Ooows.Web
