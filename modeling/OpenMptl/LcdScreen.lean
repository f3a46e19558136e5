/-
The character screen of the nokia3310 driver: cells of one glyph and one spacing
byte in a buffer of one bit per pixel.  Which bytes a call writes follows from
the range checks and the index alone, whatever the font holds.
-/
import OpenMptl.StoreBuffer
import Mathlib.Data.UInt

namespace OpenMptl

/-- `lcd_font<>`: rows from 96 on are what memory holds behind the table. -/
structure LcdFont where
  width : UInt32
  font : Nat → Nat → UInt8
  fontIllegalChar : Nat → UInt8
  /-- Plain `char` has a sign on the platform. -/
  charIsSigned : Bool

namespace LcdFont

def charPtr (f : LcdFont) (ch : UInt8) : Nat → UInt8 :=
  if ch < 32 ∨ (f.charIsSigned = true ∧ 128 ≤ ch) then f.fontIllegalChar
  else f.font (ch - 32).toNat

/-- The bytes that the loop of `copy_char()` reads. -/
def glyph (f : LcdFont) (ch : UInt8) : List UInt8 :=
  (List.range f.width.toNat).map (f.charPtr ch)

def copyChar (f : LcdFont) (mem : Buffer Nat UInt8) (dst : Nat) (ch : UInt8) :
    Buffer Nat UInt8 :=
  mem.storeUp dst (f.glyph ch ++ [0x00])

def copyCharInv (f : LcdFont) (mem : Buffer Nat UInt8) (dst : Nat) (ch : UInt8) :
    Buffer Nat UInt8 :=
  mem.storeUp dst ((f.glyph ch).map (~~~ ·) ++ [0xff])

/-- `font::height` -/
def height : UInt32 := 8

end LcdFont

/-- `lcd_screen<>`: the template arguments. -/
structure LcdScreen where
  resX : UInt32
  resY : UInt32
  font : LcdFont
  fontSpacing : UInt32

namespace LcdScreen

def lcdbufSize (s : LcdScreen) : UInt32 := s.resX * s.resY / 8

def rows (s : LcdScreen) : UInt32 := s.resY / LcdFont.height

def columns (s : LcdScreen) : UInt32 := s.resX / (s.font.width + s.fontSpacing)

def bufIndex (s : LcdScreen) (x y : UInt32) : UInt32 :=
  (x * s.resY + y * s.resY * s.columns) / 8

/-- Positions are counted from the start of `lcdbuf`. -/
def drawChar (s : LcdScreen) (mem : Buffer Nat UInt8) (x y : UInt32) (ch : UInt8) :
    Buffer Nat UInt8 :=
  if x > s.columns then mem
  else if y > s.rows then mem
  else s.font.copyChar mem (s.bufIndex x y).toNat ch

def drawCharInverse (s : LcdScreen) (mem : Buffer Nat UInt8) (x y : UInt32) (ch : UInt8) :
    Buffer Nat UInt8 :=
  if x > s.columns then mem
  else if y > s.rows then mem
  else s.font.copyCharInv mem (s.bufIndex x y).toNat ch

/-- The body of the loop of `print_line()`. -/
def drawCell (s : LcdScreen) (mem : Buffer Nat UInt8) (x y : UInt32) (inv : Bool) (ch : UInt8) :
    Buffer Nat UInt8 :=
  if inv then s.drawCharInverse mem x y ch else s.drawChar mem x y ch

/-- `while(*p)`, with the bytes that memory holds from `p` on. -/
def printFrom (s : LcdScreen) (row : UInt32) (inv : Bool) :
    Buffer Nat UInt8 → UInt32 → List UInt8 → Buffer Nat UInt8
  | mem, _, [] => mem
  | mem, x, ch :: p =>
      if ch = 0 then mem else printFrom s row inv (s.drawCell mem x row inv ch) (x + 1) p

def printLine (s : LcdScreen) (mem : Buffer Nat UInt8) (row : UInt32) (p : List UInt8)
    (inv : Bool) : Buffer Nat UInt8 :=
  s.printFrom row inv mem 0 p

/-- The bytes that a character drawn at a position takes, if the range checks let
it through. -/
def drawn (s : LcdScreen) (x y : UInt32) : Set Nat :=
  { i | x ≤ s.columns ∧ y ≤ s.rows ∧ (s.bufIndex x y).toNat ≤ i ∧
    i < (s.bufIndex x y).toNat + (s.font.width.toNat + 1) }

/-- The characters of a zero terminated string. -/
def cstring (p : List UInt8) : List UInt8 := p.takeWhile (· ≠ 0)

section Writes

variable {s : LcdScreen} (mem : Buffer Nat UInt8)

/-- Storing a glyph and its spacing byte behind the range checks. -/
theorem writes_checked {x y : UInt32} {cs : List UInt8} (h : cs.length = s.font.width.toNat + 1) :
    mem.Writes (if x > s.columns then mem else if y > s.rows then mem
      else mem.storeUp (s.bufIndex x y).toNat cs) (s.drawn x y) := by
  by_cases hx : x > s.columns
  · rw [if_pos hx]
    exact .nothing mem fun i hi => UInt32.not_lt.mpr hi.1 hx
  · rw [if_neg hx]
    by_cases hy : y > s.rows
    · rw [if_pos hy]
      exact .nothing mem fun i hi => UInt32.not_lt.mpr hi.2.1 hy
    · rw [if_neg hy]
      refine (Buffer.writes_storeUp mem _ cs).congr fun i => ?_
      simp only [drawn, Set.mem_ofPred_eq, h, UInt32.not_lt.mp hx, UInt32.not_lt.mp hy,
        true_and]

theorem length_glyph (f : LcdFont) (ch : UInt8) : (f.glyph ch).length = f.width.toNat := by
  simp [LcdFont.glyph]

theorem writes_drawChar (x y : UInt32) (ch : UInt8) :
    mem.Writes (s.drawChar mem x y ch) (s.drawn x y) :=
  writes_checked mem (by simp [length_glyph])

theorem writes_drawCharInverse (x y : UInt32) (ch : UInt8) :
    mem.Writes (s.drawCharInverse mem x y ch) (s.drawn x y) :=
  writes_checked mem (by simp [length_glyph])

theorem writes_drawCell (x y : UInt32) (inv : Bool) (ch : UInt8) :
    mem.Writes (s.drawCell mem x y inv ch) (s.drawn x y) := by
  unfold drawCell
  split
  · exact writes_drawCharInverse mem x y ch
  · exact writes_drawChar mem x y ch

/-- A string draws one cell after the other, with no end but its own. -/
theorem writes_printFrom (row : UInt32) (inv : Bool) (x : UInt32) (p : List UInt8) :
    mem.Writes (s.printFrom row inv mem x p)
      { i | ∃ k < (cstring p).length, i ∈ s.drawn (x + UInt32.ofNat k) row } := by
  induction p generalizing mem x with
  | nil => exact .nothing mem fun i => by simp [cstring]
  | cons ch p ih =>
      rw [printFrom]
      by_cases hch : ch = 0
      · rw [if_pos hch]
        exact .nothing mem fun i => by simp [cstring, hch]
      · have hrest := (writes_drawCell mem x row inv ch).trans
          (ih (s.drawCell mem x row inv ch) (x + 1))
        have hstring : cstring (ch :: p) = ch :: cstring p := by simp [cstring, hch]
        have hfirst : x + UInt32.ofNat 0 = x := UInt32.add_zero x
        have hnext : ∀ k, x + UInt32.ofNat (k + 1) = x + 1 + UInt32.ofNat k := by
          intro k
          rw [Nat.add_comm, UInt32.ofNat_add, UInt32.add_assoc]
          rfl
        rw [if_neg hch]
        refine hrest.congr fun i => ?_
        simp only [hstring, List.length_cons, Set.mem_ofPred_eq, Set.mem_union]
        rw [Nat.exists_lt_succ_left]
        simp only [hfirst, hnext]

end Writes

/-- The screen of `class nokia3310`, whatever its font tables hold. -/
def nokia3310 (font : Nat → Nat → UInt8) (fontIllegalChar : Nat → UInt8)
    (charIsSigned : Bool) : LcdScreen :=
  ⟨84, 48, ⟨5, font, fontIllegalChar, charIsSigned⟩, 1⟩

section Nokia3310

variable {font : Nat → Nat → UInt8} {fontIllegalChar : Nat → UInt8} {charIsSigned : Bool}

theorem columns_nokia3310 : (nokia3310 font fontIllegalChar charIsSigned).columns = 14 := by
  change (84 / (5 + 1) : UInt32) = 14
  decide

theorem rows_nokia3310 : (nokia3310 font fontIllegalChar charIsSigned).rows = 6 := by
  change (48 / 8 : UInt32) = 6
  decide

theorem bufIndex_nokia3310 {x y : UInt32} (hx : x.toNat ≤ 14) (hy : y.toNat ≤ 6) :
    ((nokia3310 font fontIllegalChar charIsSigned).bufIndex x y).toNat =
      84 * y.toNat + 6 * x.toNat := by
  rw [bufIndex, columns_nokia3310]
  change ((x * 48 + y * 48 * 14) / 8 : UInt32).toNat = _
  simp only [UInt32.toNat_div, UInt32.toNat_add, UInt32.toNat_mul, UInt32.reduceToNat]
  omega

/-- What a character takes on the 84x48 screen. -/
theorem mem_drawn_nokia3310 {x y : UInt32} {i : Nat} :
    i ∈ (nokia3310 font fontIllegalChar charIsSigned).drawn x y ↔
      x.toNat ≤ 14 ∧ y.toNat ≤ 6 ∧
        84 * y.toNat + 6 * x.toNat ≤ i ∧ i < 84 * y.toNat + 6 * x.toNat + 6 := by
  simp only [drawn, Set.mem_ofPred_eq, columns_nokia3310, rows_nokia3310,
    UInt32.le_iff_toNat_le, UInt32.reduceToNat]
  refine and_congr_right fun hx => and_congr_right fun hy => ?_
  rw [bufIndex_nokia3310 hx hy]
  rfl

end Nokia3310

end LcdScreen

section Draws

open LcdScreen

/-- On the 84x48 screen a character stays in its cell unless it is drawn right behind
the last column or row, a line stays in its row unless it is longer than the row or
printed right below the last one. -/
theorem nokia3310_draw_iff (font : Nat → Nat → UInt8) (fontIllegalChar : Nat → UInt8)
    (charIsSigned : Bool) (cells : Nat → UInt8) :
    (∀ (x y : UInt32) (inv : Bool) (ch : UInt8),
      (∀ i ∈ ((nokia3310 font fontIllegalChar charIsSigned).drawCell
          (.fresh cells) x y inv ch).stored,
        x.toNat < 14 ∧ y.toNat < 6 ∧
          84 * y.toNat + 6 * x.toNat ≤ i ∧ i < 84 * y.toNat + 6 * x.toNat + 6) ↔
      (x.toNat < 14 ∧ y.toNat < 6) ∨ 14 < x.toNat ∨ 6 < y.toNat) ∧
    (∀ (row : UInt32) (p : List UInt8) (inv : Bool),
      (∀ i ∈ ((nokia3310 font fontIllegalChar charIsSigned).printLine
          (.fresh cells) row p inv).stored,
        row.toNat < 6 ∧ 84 * row.toNat ≤ i ∧ i < 84 * row.toNat + 84) ↔
      6 < row.toNat ∨ (cstring p).length = 0 ∨
        (row.toNat < 6 ∧ (cstring p).length ≤ 14)) := by
  constructor
  · intro x y inv ch
    have hstored := (@writes_drawCell (nokia3310 font fontIllegalChar charIsSigned)
      (.fresh cells) x y inv ch).mem_stored
    simp only [hstored, mem_drawn_nokia3310]
    constructor
    · intro hall
      by_contra hcond
      have hcell := hall (84 * y.toNat + 6 * x.toNat) (by omega)
      omega
    · intro hcond i hi
      omega
  · intro row p inv
    have hstored := (@writes_printFrom (nokia3310 font fontIllegalChar charIsSigned)
      (.fresh cells) row inv 0 p).mem_stored
    have hcolumn : ∀ k, k < 2 ^ 32 → (0 + UInt32.ofNat k).toNat = k := by
      intro k hk
      rw [UInt32.zero_add, UInt32.toNat_ofNat_of_lt' hk]
    simp only [printLine, hstored, Set.mem_ofPred_eq, mem_drawn_nokia3310]
    constructor
    · intro hall
      by_contra hcond
      -- The first character is below the last row, or the fifteenth behind it.
      by_cases hrow : row.toNat = 6
      · have hfirst := hall 504 ⟨0, by omega, by
          rw [hcolumn 0 (by decide)]
          omega⟩
        omega
      · have hlast := hall (84 * row.toNat + 84) ⟨14, by omega, by
          rw [hcolumn 14 (by decide)]
          omega⟩
        omega
    · rintro hcond i ⟨k, hk, hi⟩
      by_cases hshort : (cstring p).length ≤ 14
      · rw [hcolumn k (by omega)] at hi
        omega
      · omega

end Draws

namespace LcdScreenTest

/-- Fifteen characters in the last row: the last one is written behind the buffer. -/
theorem nokia3310_line_overruns :
    ¬ ∀ (row : UInt32) (p : List UInt8) (inv : Bool),
      ∀ i ∈ ((LcdScreen.nokia3310 (fun _ _ => 0) (fun _ => 0) false).printLine
        (.fresh fun _ => 0) row p inv).stored,
        row.toNat < 6 ∧ 84 * row.toNat ≤ i ∧ i < 84 * row.toNat + 84 := by
  intro hall
  have hlast := hall 5 (List.replicate 15 48) false 504 (by decide)
  exact absurd hlast.2.2 (by decide)

end LcdScreenTest

end OpenMptl
