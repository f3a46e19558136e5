/-
The screen of the demo.  Joystick events turn a list of items round, and an update prints
the items from the top one on into the rows of the display.
-/
import OpenMptl.ScreenItem

namespace OpenMptl

/-- A row as `update()` reads it: the bytes from `c_str()` on, and `get_inverted()`. -/
structure ScreenItem where
  cStr : List UInt8
  inverted : Bool

namespace ScreenItem

/-- The characters and their colour. -/
def line (item : ScreenItem) : List UInt8 × Bool := (LcdScreen.cstring item.cStr, item.inverted)

end ScreenItem

inductive ScreenEvent
  | joystickUp
  | joystickDown
  | joystickLeft
  | joystickRight
  | joystickCenter
deriving DecidableEq, Repr

namespace Screen

/-! An iterator of the list is a position, at most the length for `end()`; there is no
position before `begin()` and none after `end()`. -/

/-- `Main::react(EvJoystickUp)` -/
def reactUp (size itemTop : Nat) : Option Nat :=
  let itemTop := if itemTop = 0 then size else itemTop
  if itemTop = 0 then none else some (itemTop - 1)

/-- `Main::react(EvJoystickDown)` -/
def reactDown (size itemTop : Nat) : Option Nat :=
  if itemTop = size then none
  else if itemTop + 1 = size then some 0 else some (itemTop + 1)

def react (size itemTop : Nat) : ScreenEvent → Option Nat
  | .joystickUp => reactUp size itemTop
  | .joystickDown => reactDown size itemTop
  | .joystickLeft => some itemTop
  | .joystickRight => some itemTop
  | .joystickCenter => some itemTop

/-- `lcd.clear()` -/
def clear (s : LcdScreen) (mem : Buffer Nat UInt8) : Buffer Nat UInt8 :=
  mem.storeUp 0 (List.replicate s.lcdbufSize.toNat 0)

/-- The loop of `update()`. -/
def printItems (s : LcdScreen) : Buffer Nat UInt8 → UInt32 → List ScreenItem → Buffer Nat UInt8
  | mem, _, [] => mem
  | mem, i, item :: items =>
      if i < s.rows then
        printItems s (s.printLine mem i item.cStr item.inverted) (i + 1) items
      else mem

/-- `update()` up to the transfer to the display. -/
def update (s : LcdScreen) (mem : Buffer Nat UInt8) (items : List ScreenItem) (itemTop : Nat) :
    Buffer Nat UInt8 :=
  printItems s (clear s mem) 0 (items.drop itemTop)

/-! The top item. -/

/-- How far an event turns the list. -/
def turn : ScreenEvent → Int
  | .joystickUp => -1
  | .joystickDown => 1
  | .joystickLeft => 0
  | .joystickRight => 0
  | .joystickCenter => 0

/-- The top item is one of the list, and the one that the turns lead to. -/
def IsTop (size : Nat) (turns : Int) (itemTop : Nat) : Prop := (itemTop : Int) = turns % size

variable {size itemTop : Nat} {turns : Int}

theorem IsTop.lt (hsize : 0 < size) (h : IsTop size turns itemTop) : itemTop < size := by
  have hlt := Int.emod_lt_of_pos turns (Int.natCast_pos.mpr hsize)
  rw [← h] at hlt
  exact Int.ofNat_lt.mp hlt

theorem isTop_of_lt {k : Nat} (hk : k < size) (h : (k : Int) % size = turns % size) :
    IsTop size turns k := by
  rw [IsTop, ← h]
  exact (Int.emod_eq_of_lt (Int.natCast_nonneg k) (Int.ofNat_lt.mpr hk)).symm

/-- An event moves the top by its turn, round the ends of the list. -/
theorem IsTop.react (hsize : 0 < size) (h : IsTop size turns itemTop) (e : ScreenEvent) :
    ∃ top, Screen.react size itemTop e = some top ∧ IsTop size (turns + turn e) top := by
  have hlt := h.lt hsize
  have hmod : ∀ d : Int, (turns + d) % size = (itemTop + d) % size := by
    intro d
    rw [h, Int.emod_add_emod]
  cases e with
  | joystickUp =>
      rw [Screen.react, reactUp]
      by_cases hzero : itemTop = 0
      · refine ⟨size - 1, by simp [hzero]; omega, isTop_of_lt (by omega) ?_⟩
        rw [turn, hmod, hzero, Nat.cast_sub hsize]
        simp
      · refine ⟨itemTop - 1, by simp [hzero], isTop_of_lt (by omega) ?_⟩
        rw [turn, hmod, Nat.cast_sub (Nat.pos_of_ne_zero hzero)]
        rfl
  | joystickDown =>
      rw [Screen.react, reactDown, if_neg (Nat.ne_of_lt hlt)]
      by_cases hlast : itemTop + 1 = size
      · refine ⟨0, if_pos hlast, isTop_of_lt hsize ?_⟩
        have hsum : (itemTop : Int) + 1 = size := by omega
        rw [turn, hmod, hsum]
        simp
      · refine ⟨itemTop + 1, if_neg hlast, isTop_of_lt (by omega) ?_⟩
        rw [turn, hmod]
        rfl
  | joystickLeft => exact ⟨itemTop, rfl, (Int.add_zero turns).symm ▸ h⟩
  | joystickRight => exact ⟨itemTop, rfl, (Int.add_zero turns).symm ▸ h⟩
  | joystickCenter => exact ⟨itemTop, rfl, (Int.add_zero turns).symm ▸ h⟩

/-! The picture. -/

/-- The bytes of a cell with a character. -/
def charCell (f : LcdFont) (inv : Bool) (ch : UInt8) : List UInt8 :=
  if inv then (f.glyph ch).map (~~~ ·) ++ [0xff] else f.glyph ch ++ [0x00]

/-- The byte `j` of column `x` in row `y` when the lines are on an empty screen. -/
def picture (f : LcdFont) (lines : List (List UInt8 × Bool)) (y x j : Nat) : UInt8 :=
  match lines[y]? with
  | none => 0
  | some (text, inv) =>
      match text[x]? with
      | none => 0
      | some ch => (charCell f inv ch).getD j 0

section Nokia3310

open LcdScreen

variable {font : Nat → Nat → UInt8} {fontIllegalChar : Nat → UInt8} {charIsSigned : Bool}

theorem length_charCell (inv : Bool) (ch : UInt8) :
    (charCell (nokia3310 font fontIllegalChar charIsSigned).font inv ch).length = 6 := by
  have hwidth : (nokia3310 font fontIllegalChar charIsSigned).font.width.toNat = 5 := rfl
  cases inv <;> simp [charCell, length_glyph, hwidth]

theorem lcdbufSize_nokia3310 :
    (nokia3310 font fontIllegalChar charIsSigned).lcdbufSize.toNat = 504 := by
  change (84 * 48 / 8 : UInt32).toNat = 504
  decide

theorem drawCell_nokia3310 (mem : Buffer Nat UInt8) {x y : UInt32} (hx : x.toNat < 14)
    (hy : y.toNat < 6) (inv : Bool) (ch : UInt8) :
    (nokia3310 font fontIllegalChar charIsSigned).drawCell mem x y inv ch =
      mem.storeUp (84 * y.toNat + 6 * x.toNat)
        (charCell (nokia3310 font fontIllegalChar charIsSigned).font inv ch) := by
  have hcolumn : ¬ x > (nokia3310 font fontIllegalChar charIsSigned).columns := by
    rw [columns_nokia3310, gt_iff_lt, UInt32.lt_iff_toNat_lt]
    exact Nat.not_lt.mpr (Nat.le_of_lt hx)
  have hrow : ¬ y > (nokia3310 font fontIllegalChar charIsSigned).rows := by
    rw [rows_nokia3310, gt_iff_lt, UInt32.lt_iff_toNat_lt]
    exact Nat.not_lt.mpr (Nat.le_of_lt hy)
  rw [← @bufIndex_nokia3310 font fontIllegalChar charIsSigned x y (by omega) (by omega)]
  cases inv with
  | true => exact (if_neg hcolumn).trans (if_neg hrow)
  | false => exact (if_neg hcolumn).trans (if_neg hrow)

/-- A character fills its cell, and no other. -/
theorem cells_drawCell (mem : Buffer Nat UInt8) {column row : UInt32}
    (hcolumn : column.toNat < 14) (hrow : row.toNat < 6) (inv : Bool) (ch : UInt8) {x y j : Nat}
    (hx : x < 14) (hj : j < 6) :
    ((nokia3310 font fontIllegalChar charIsSigned).drawCell mem column row inv ch).cells
        (84 * y + 6 * x + j) =
      if y = row.toNat ∧ x = column.toNat then
        (charCell (nokia3310 font fontIllegalChar charIsSigned).font inv ch).getD j 0
      else mem.cells (84 * y + 6 * x + j) := by
  have hlength := @length_charCell font fontIllegalChar charIsSigned inv ch
  rw [drawCell_nokia3310 mem hcolumn hrow inv ch]
  split
  · next hcell =>
      obtain ⟨rfl, rfl⟩ := hcell
      have hj' : j <
          (charCell (nokia3310 font fontIllegalChar charIsSigned).font inv ch).length :=
        hlength.symm ▸ hj
      rw [Buffer.cells_storeUp mem _ _ j hj', List.getD_eq_getElem?_getD,
        List.getElem?_eq_getElem hj', Option.getD_some]
  · next hcell =>
      refine (Buffer.writes_storeUp mem _ _).frame _ fun h => ?_
      obtain ⟨hlow, hhigh⟩ := h
      rw [hlength] at hhigh
      omega

/-- A string fills its cells of the row, and no others. -/
theorem cells_printFrom (inv : Bool) (mem : Buffer Nat UInt8) {row : UInt32}
    (hrow : row.toNat < 6) (p : List UInt8) (column : UInt32)
    (hfits : column.toNat + (cstring p).length ≤ 14) {x y j : Nat} (hx : x < 14)
    (hj : j < 6) :
    ((nokia3310 font fontIllegalChar charIsSigned).printFrom row inv mem column p).cells
        (84 * y + 6 * x + j) =
      if y = row.toNat ∧ column.toNat ≤ x then
        match (cstring p)[x - column.toNat]? with
        | none => mem.cells (84 * y + 6 * x + j)
        | some ch =>
            (charCell (nokia3310 font fontIllegalChar charIsSigned).font inv ch).getD j 0
      else mem.cells (84 * y + 6 * x + j) := by
  induction p generalizing mem column with
  | nil => simp [printFrom, cstring]
  | cons ch p ih =>
      rw [printFrom]
      by_cases hch : ch = 0
      · simp [hch, cstring]
      · have hstring : cstring (ch :: p) = ch :: cstring p := by simp [cstring, hch]
        rw [hstring, List.length_cons] at hfits
        have hnext : (column + 1).toNat = column.toNat + 1 := by
          rw [UInt32.toNat_add]
          change (column.toNat + 1) % 2 ^ 32 = _
          omega
        have hfirst := @cells_drawCell font fontIllegalChar charIsSigned mem column row
          (by omega) hrow inv ch x y j hx hj
        rw [if_neg hch, ih _ (column + 1) (by omega), hnext, hstring, hfirst]
        by_cases hy : y = row.toNat
        · rcases Nat.lt_trichotomy x column.toNat with hlt | rfl | hgt
          · rw [if_neg (by omega), if_neg (by omega), if_neg (by omega)]
          · rw [if_neg (by omega), if_pos ⟨hy, rfl⟩, if_pos ⟨hy, le_rfl⟩, Nat.sub_self]
            rfl
          · have hrest : x - column.toNat = x - (column.toNat + 1) + 1 := by omega
            rw [if_pos ⟨hy, hgt⟩, if_neg (by omega), if_pos ⟨hy, hgt.le⟩, hrest,
              List.getElem?_cons_succ]
        · rw [if_neg (fun h => hy h.1), if_neg (fun h => hy h.1), if_neg (fun h => hy h.1)]

theorem cells_printLine (item : ScreenItem) (mem : Buffer Nat UInt8) {row : UInt32}
    (hrow : row.toNat < 6) (hfits : item.line.1.length ≤ 14) {x y j : Nat} (hx : x < 14)
    (hj : j < 6) :
    ((nokia3310 font fontIllegalChar charIsSigned).printLine mem row item.cStr
        item.inverted).cells (84 * y + 6 * x + j) =
      if y = row.toNat then
        match item.line.1[x]? with
        | none => mem.cells (84 * y + 6 * x + j)
        | some ch => (charCell (nokia3310 font fontIllegalChar charIsSigned).font
            item.line.2 ch).getD j 0
      else mem.cells (84 * y + 6 * x + j) := by
  have hstart : (0 : UInt32).toNat + (cstring item.cStr).length ≤ 14 := by
    rw [UInt32.toNat_zero, Nat.zero_add]
    exact hfits
  have hcells := @cells_printFrom font fontIllegalChar charIsSigned item.inverted mem row hrow
    item.cStr 0 hstart x y j hx hj
  rw [UInt32.toNat_zero, Nat.sub_zero] at hcells
  simp only [Nat.zero_le, and_true] at hcells
  exact hcells

theorem cells_printItems (items : List ScreenItem) (mem : Buffer Nat UInt8) (i : UInt32)
    (hfits : ∀ item ∈ items, item.line.1.length ≤ 14) {x y j : Nat} (hx : x < 14)
    (hy : y < 6) (hj : j < 6) :
    (printItems (nokia3310 font fontIllegalChar charIsSigned) mem i items).cells
        (84 * y + 6 * x + j) =
      if i.toNat ≤ y then
        match items[y - i.toNat]? with
        | none => mem.cells (84 * y + 6 * x + j)
        | some item =>
            match item.line.1[x]? with
            | none => mem.cells (84 * y + 6 * x + j)
            | some ch => (charCell (nokia3310 font fontIllegalChar charIsSigned).font
                item.line.2 ch).getD j 0
      else mem.cells (84 * y + 6 * x + j) := by
  induction items generalizing mem i with
  | nil => simp [printItems]
  | cons item items ih =>
      rw [printItems, rows_nokia3310]
      by_cases hi : i.toNat < 6
      · have hlt : i < 6 := UInt32.lt_iff_toNat_lt.mpr hi
        have hnext : (i + 1).toNat = i.toNat + 1 := by
          rw [UInt32.toNat_add]
          change (i.toNat + 1) % 2 ^ 32 = _
          omega
        have hline := @cells_printLine font fontIllegalChar charIsSigned item mem i hi
          (hfits item List.mem_cons_self) x y j hx hj
        rw [if_pos hlt, ih _ _ fun item h => hfits item (List.mem_cons_of_mem _ h), hnext, hline]
        rcases Nat.lt_trichotomy y i.toNat with hlt | rfl | hgt
        · rw [if_neg (by omega), if_neg (by omega), if_neg (by omega)]
        · rw [if_neg (by omega), if_pos rfl, if_pos le_rfl, Nat.sub_self]
          rfl
        · have hrest : y - i.toNat = y - (i.toNat + 1) + 1 := by omega
          rw [if_pos (Nat.succ_le_of_lt hgt), if_neg (by omega), if_pos hgt.le, hrest,
            List.getElem?_cons_succ]
      · have hge : ¬ i < 6 := fun hlt => hi (UInt32.lt_iff_toNat_lt.mp hlt)
        rw [if_neg hge, if_neg (by omega)]

/-- What an update puts on the screen. -/
theorem cells_update (items : List ScreenItem) (mem : Buffer Nat UInt8) (itemTop : Nat)
    (hfits : ∀ item ∈ items, item.line.1.length ≤ 14) {x y j : Nat} (hx : x < 14)
    (hy : y < 6) (hj : j < 6) :
    (update (nokia3310 font fontIllegalChar charIsSigned) mem items itemTop).cells
        (84 * y + 6 * x + j) =
      picture (nokia3310 font fontIllegalChar charIsSigned).font
        ((items.drop itemTop).map ScreenItem.line) y x j := by
  have hcleared : (clear (nokia3310 font fontIllegalChar charIsSigned) mem).cells
      (84 * y + 6 * x + j) = 0 := by
    have hlt : 84 * y + 6 * x + j < (List.replicate 504 (0 : UInt8)).length := by
      rw [List.length_replicate]
      omega
    have hcell := mem.cells_storeUp 0 (List.replicate 504 0) _ hlt
    rw [Nat.zero_add, List.getElem_replicate] at hcell
    rw [clear, lcdbufSize_nokia3310, hcell]
  have hprinted := @cells_printItems font fontIllegalChar charIsSigned (items.drop itemTop)
    (clear (nokia3310 font fontIllegalChar charIsSigned) mem) 0
    (fun item h => hfits item (List.mem_of_mem_drop h)) x y j hx hy hj
  rw [update, hprinted, hcleared, picture, List.getElem?_map]
  simp only [UInt32.toNat_zero, Nat.zero_le, if_true, Nat.sub_zero]
  cases (items.drop itemTop)[y]? <;> rfl

/-! The stores. -/

theorem stored_printLine (item : ScreenItem) (mem : Buffer Nat UInt8) {row : UInt32}
    (hrow : row.toNat < 6) (hfits : item.line.1.length ≤ 14)
    (h : ∀ i ∈ mem.stored, i < 504) :
    ∀ i ∈ ((nokia3310 font fontIllegalChar charIsSigned).printLine mem row item.cStr
      item.inverted).stored, i < 504 := by
  intro i hi
  have hwrites := @writes_printFrom (nokia3310 font fontIllegalChar charIsSigned) mem row
    item.inverted 0 item.cStr
  rcases (hwrites.stored i).mp hi with hi | ⟨k, hk, hi⟩
  · exact h i hi
  · have hk : k < 14 := Nat.lt_of_lt_of_le hk hfits
    have hsize : k < UInt32.size := hk.trans (by decide)
    rw [UInt32.zero_add, mem_drawn_nokia3310, UInt32.toNat_ofNat_of_lt' hsize] at hi
    omega

theorem stored_printItems (items : List ScreenItem) (mem : Buffer Nat UInt8) (i : UInt32)
    (hfits : ∀ item ∈ items, item.line.1.length ≤ 14) (h : ∀ k ∈ mem.stored, k < 504) :
    ∀ k ∈ (printItems (nokia3310 font fontIllegalChar charIsSigned) mem i items).stored,
      k < 504 := by
  induction items generalizing mem i with
  | nil => exact h
  | cons item items ih =>
      rw [printItems, rows_nokia3310]
      split
      · next hlt =>
          have hrow : i.toNat < 6 := UInt32.lt_iff_toNat_lt.mp hlt
          exact ih _ _ (fun item h => hfits item (List.mem_cons_of_mem _ h))
            (stored_printLine item mem hrow (hfits item List.mem_cons_self) h)
      · exact h

theorem stored_update (items : List ScreenItem) (mem : Buffer Nat UInt8) (itemTop : Nat)
    (hfits : ∀ item ∈ items, item.line.1.length ≤ 14) (h : ∀ k ∈ mem.stored, k < 504) :
    ∀ k ∈ (update (nokia3310 font fontIllegalChar charIsSigned) mem items itemTop).stored,
      k < 504 := by
  refine stored_printItems _ _ _ (fun item h => hfits item (List.mem_of_mem_drop h)) ?_
  intro k hk
  rcases ((Buffer.writes_storeUp mem 0 _).stored k).mp hk with hk | hk
  · exact h k hk
  · obtain ⟨-, hhigh⟩ := hk
    rwa [List.length_replicate, lcdbufSize_nokia3310, Nat.zero_add] at hhigh

end Nokia3310

end Screen

end OpenMptl
