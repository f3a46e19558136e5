/-
When the index formula of `lcd_screen<>` is a layout of its cells.  The formula
takes the number of rows for the width of a cell and rows times columns for the
horizontal resolution.
-/
import OpenMptl.LcdScreen
import OpenMptl.CellGrid

namespace OpenMptl

namespace LcdScreen

variable {s : LcdScreen}

/-- The width of a glyph with its spacing. -/
def cellWidth (s : LcdScreen) : Nat := s.font.width.toNat + s.fontSpacing.toNat

/-- The condition on the template arguments. -/
def LayoutFits (s : LcdScreen) : Prop :=
  (s.columns.toNat ≤ 1 ∨ s.rows.toNat = s.cellWidth) ∧
  (s.rows.toNat ≤ 1 ∨ s.rows.toNat * s.columns.toNat = s.resX.toNat) ∧
  (s.rows.toNat - 1) * s.resX.toNat + (s.columns.toNat - 1) * s.cellWidth +
    (s.font.width.toNat + 1) ≤ s.lcdbufSize.toNat

theorem toNat_rows : s.rows.toNat = s.resY.toNat / 8 := by
  rw [rows, UInt32.toNat_div]
  rfl

theorem rows_lt : s.rows.toNat < 2 ^ 29 := by
  have hlt := s.resY.toNat_lt
  rw [toNat_rows]
  omega

theorem lcdbufSize_lt : s.lcdbufSize.toNat < 2 ^ 29 := by
  have hlt := (s.resX * s.resY).toNat_lt
  rw [lcdbufSize, UInt32.toNat_div]
  change (s.resX * s.resY).toNat / 8 < 2 ^ 29
  omega

theorem toNat_columns :
    s.columns.toNat = s.resX.toNat / (s.cellWidth % 2 ^ 32) := by
  rw [columns, UInt32.toNat_div, UInt32.toNat_add]
  rfl

section Index

variable (hrows : 8 ∣ s.resY.toNat)

include hrows

theorem resY_eq : s.resY.toNat = 8 * s.rows.toNat := by
  rw [toNat_rows]
  omega

/-- The buffer has at most a row of bytes for each character row. -/
theorem lcdbufSize_le : s.lcdbufSize.toNat ≤ s.rows.toNat * s.resX.toNat := by
  rw [lcdbufSize, UInt32.toNat_div, UInt32.toNat_mul, resY_eq hrows]
  change s.resX.toNat * (8 * s.rows.toNat) % 2 ^ 32 / 8 ≤ _
  have hle := Nat.mod_le (s.resX.toNat * (8 * s.rows.toNat)) (2 ^ 32)
  have hcomm : s.resX.toNat * (8 * s.rows.toNat) = 8 * (s.rows.toNat * s.resX.toNat) := by ring
  omega

/-- The index in units of bytes. -/
theorem toNat_bufIndex (x y : UInt32) :
    (s.bufIndex x y).toNat =
      (s.rows.toNat * x.toNat + s.rows.toNat * s.columns.toNat * y.toNat) % 2 ^ 29 := by
  have hfactor : x.toNat * (8 * s.rows.toNat) +
      y.toNat * (8 * s.rows.toNat) * s.columns.toNat =
        8 * (s.rows.toNat * x.toNat + s.rows.toNat * s.columns.toNat * y.toNat) := by ring
  have hsize : 2 ^ 32 = 8 * 2 ^ 29 := by decide
  rw [bufIndex, UInt32.toNat_div, UInt32.toNat_add, UInt32.toNat_mul, UInt32.toNat_mul,
    UInt32.toNat_mul, resY_eq hrows, Nat.mod_mul_mod, ← Nat.add_mod, hfactor, hsize,
    Nat.mul_mod_mul_left]
  exact Nat.mul_div_cancel_left _ (by decide)

end Index

/-- Where the cell of column `x` and row `y` should start. -/
def cellStart (s : LcdScreen) (x y : Nat) : Nat :=
  CellGrid.start s.resX.toNat s.cellWidth x y

theorem LayoutFits.last_le (h : s.LayoutFits) :
    s.cellStart (s.columns.toNat - 1) (s.rows.toNat - 1) + (s.font.width.toNat + 1) ≤
      s.lcdbufSize.toNat :=
  h.2.2

/-- Every cell ends within the buffer. -/
theorem LayoutFits.end_le (h : s.LayoutFits) {x y : Nat} (hx : x < s.columns.toNat)
    (hy : y < s.rows.toNat) :
    s.cellStart x y + (s.font.width.toNat + 1) ≤ s.lcdbufSize.toNat :=
  (Nat.add_le_add_right (CellGrid.start_le_last hx hy) _).trans h.last_le

/-- Cells as wide as there are rows do not exceed a row. -/
theorem rows_mul_columns_lt (hwidth : s.columns.toNat ≤ 1 ∨ s.rows.toNat = s.cellWidth)
    (hresX : s.resX.toNat < 2 ^ 29) : s.rows.toNat * s.columns.toNat < 2 ^ 29 := by
  have hrowsLt := @rows_lt s
  rcases hwidth with hone | heq
  · exact (Nat.mul_le_mul_left _ hone).trans_lt (by omega)
  · have hwrap : s.cellWidth % 2 ^ 32 = s.rows.toNat := by
      rw [← heq]
      exact Nat.mod_eq_of_lt (by omega)
    rw [toNat_columns, hwrap]
    exact (Nat.mul_div_le _ _).trans_lt hresX

/-- The last byte drawn for a cell is one of its bytes. -/
theorem last_mem_drawn {x y : UInt32} (hx : x.toNat < s.columns.toNat)
    (hy : y.toNat < s.rows.toNat) : (s.bufIndex x y).toNat + s.font.width.toNat ∈ s.drawn x y :=
  ⟨UInt32.le_iff_toNat_le.mpr hx.le, UInt32.le_iff_toNat_le.mpr hy.le, by omega, by omega⟩

section Fits

variable (hrows : 8 ∣ s.resY.toNat) {x y x' y' : UInt32}

include hrows

/-- Under the condition the formula gives the position of each cell. -/
theorem LayoutFits.bufIndex_eq (h : s.LayoutFits) (hx : x.toNat < s.columns.toNat)
    (hy : y.toNat < s.rows.toNat) : (s.bufIndex x y).toNat = s.cellStart x.toNat y.toNat := by
  have hend := h.end_le hx hy
  have hsize := @lcdbufSize_lt s
  obtain ⟨hcolumn, hrow, -⟩ := h
  have hstepX : s.rows.toNat * x.toNat = x.toNat * s.cellWidth := by
    rcases hcolumn with hone | heq
    · have hzero : x.toNat = 0 := by omega
      rw [hzero, Nat.mul_zero, Nat.zero_mul]
    · rw [heq, Nat.mul_comm]
  have hstepY : s.rows.toNat * s.columns.toNat * y.toNat = y.toNat * s.resX.toNat := by
    rcases hrow with hone | heq
    · have hzero : y.toNat = 0 := by omega
      rw [hzero, Nat.mul_zero, Nat.zero_mul]
    · rw [heq, Nat.mul_comm]
  have hlt : s.cellStart x.toNat y.toNat < 2 ^ 29 := by omega
  rw [toNat_bufIndex hrows, hstepX, hstepY, Nat.add_comm]
  exact Nat.mod_eq_of_lt hlt

/-- The cells of a row end within the row. -/
theorem LayoutFits.row_le (h : s.LayoutFits) (hpos : 0 < s.rows.toNat) :
    (s.columns.toNat - 1) * s.cellWidth + (s.font.width.toNat + 1) ≤ s.resX.toNat := by
  have hend := h.last_le
  have hbuf := lcdbufSize_le hrows
  obtain ⟨r, hr⟩ := Nat.exists_eq_add_of_le' hpos
  unfold cellStart CellGrid.start at hend
  rw [hr, Nat.add_sub_cancel] at hend
  rw [hr, Nat.succ_mul] at hbuf
  omega

theorem LayoutFits.inBuffer (h : s.LayoutFits) (hx : x.toNat < s.columns.toNat)
    (hy : y.toNat < s.rows.toNat) {i : Nat} (hi : i ∈ s.drawn x y) :
    i < s.lcdbufSize.toNat := by
  have hend := h.end_le hx hy
  have hbelow := hi.2.2.2
  rw [h.bufIndex_eq hrows hx hy] at hbelow
  omega

theorem LayoutFits.disjoint (h : s.LayoutFits) (hspacing : 1 ≤ s.fontSpacing.toNat)
    (hx : x.toNat < s.columns.toNat) (hy : y.toNat < s.rows.toNat)
    (hx' : x'.toNat < s.columns.toNat) (hy' : y'.toNat < s.rows.toNat)
    (hne : ¬ (x = x' ∧ y = y')) {i : Nat} (hi : i ∈ s.drawn x y) : i ∉ s.drawn x' y' := by
  intro hi'
  have hsize : s.font.width.toNat + 1 ≤ s.cellWidth := Nat.add_le_add_left hspacing _
  have hcells : ¬ (x.toNat = x'.toNat ∧ y.toNat = y'.toNat) := by
    rwa [UInt32.toNat_inj, UInt32.toNat_inj]
  obtain ⟨-, -, hlow, hhigh⟩ := hi
  obtain ⟨-, -, hlow', hhigh'⟩ := hi'
  rw [h.bufIndex_eq hrows hx hy] at hlow hhigh
  rw [h.bufIndex_eq hrows hx' hy'] at hlow' hhigh'
  rcases CellGrid.separated hsize (h.row_le hrows (Nat.zero_lt_of_lt hy)) hx hx' hcells with
    hle | hle
  · unfold cellStart at hlow' hhigh
    omega
  · unfold cellStart at hlow hhigh'
    omega

/-- The formula is right about the second column only if a cell is as wide as there
are rows. -/
theorem rows_eq_cellWidth (h : (s.bufIndex 1 0).toNat = s.cellStart 1 0) :
    s.rows.toNat = s.cellWidth := by
  have hrowsLt := @rows_lt s
  have hindex : s.rows.toNat * (1 : UInt32).toNat +
      s.rows.toNat * s.columns.toNat * (0 : UInt32).toNat = s.rows.toNat := by simp
  rw [toNat_bufIndex hrows, hindex, Nat.mod_eq_of_lt hrowsLt] at h
  rw [h, cellStart, CellGrid.start, Nat.zero_mul, Nat.zero_add, Nat.one_mul]

/-- The formula is right about the second row only if the cells fill a row. -/
theorem rows_mul_columns_eq (h : (s.bufIndex 0 1).toNat = s.cellStart 0 1)
    (hlt : s.rows.toNat * s.columns.toNat < 2 ^ 29) :
    s.rows.toNat * s.columns.toNat = s.resX.toNat := by
  have hindex : s.rows.toNat * (0 : UInt32).toNat +
      s.rows.toNat * s.columns.toNat * (1 : UInt32).toNat =
        s.rows.toNat * s.columns.toNat := by simp
  rw [toNat_bufIndex hrows, hindex, Nat.mod_eq_of_lt hlt] at h
  rw [h, cellStart, CellGrid.start, Nat.zero_mul, Nat.add_zero, Nat.one_mul]

/-- A formula that is right about the cells at the edges makes the arguments fit. -/
theorem layoutFits_of_cells (hcolumnsPos : 0 < s.columns.toNat) (hrowsPos : 0 < s.rows.toNat)
    (hstart : ∀ x y : UInt32, x.toNat < s.columns.toNat → y.toNat < s.rows.toNat →
      (s.bufIndex x y).toNat = s.cellStart x.toNat y.toNat)
    (hbuffer : ∀ x y : UInt32, x.toNat < s.columns.toNat → y.toNat < s.rows.toNat →
      ∀ i ∈ s.drawn x y, i < s.lcdbufSize.toNat) : s.LayoutFits := by
  have hcolumn : (UInt32.ofNat (s.columns.toNat - 1)).toNat = s.columns.toNat - 1 :=
    UInt32.toNat_ofNat_of_lt' ((Nat.sub_le _ 1).trans_lt s.columns.toNat_lt)
  have hrow : (UInt32.ofNat (s.rows.toNat - 1)).toNat = s.rows.toNat - 1 :=
    UInt32.toNat_ofNat_of_lt' ((Nat.sub_le _ 1).trans_lt s.rows.toNat_lt)
  have hlast : s.cellStart (s.columns.toNat - 1) (s.rows.toNat - 1) + s.font.width.toNat <
      s.lcdbufSize.toNat := by
    have hx : (UInt32.ofNat (s.columns.toNat - 1)).toNat < s.columns.toNat := by omega
    have hy : (UInt32.ofNat (s.rows.toNat - 1)).toNat < s.rows.toNat := by omega
    have hinside := hbuffer _ _ hx hy _ (last_mem_drawn hx hy)
    rwa [hstart _ _ hx hy, hcolumn, hrow] at hinside
  have hwidth : s.columns.toNat ≤ 1 ∨ s.rows.toNat = s.cellWidth := by
    refine or_iff_not_imp_left.mpr fun hmany => rows_eq_cellWidth hrows ?_
    exact hstart 1 0 (Nat.lt_of_not_le hmany) hrowsPos
  refine ⟨hwidth, ?_, hlast⟩
  refine or_iff_not_imp_left.mpr fun hmany => ?_
  have hresX : s.resX.toNat < 2 ^ 29 := by
    have hsize := @lcdbufSize_lt s
    have hmul : 1 * s.resX.toNat ≤ (s.rows.toNat - 1) * s.resX.toNat :=
      Nat.mul_le_mul_right _ (by omega)
    unfold cellStart CellGrid.start at hlast
    omega
  exact rows_mul_columns_eq hrows (hstart 0 1 hcolumnsPos (Nat.lt_of_not_le hmany))
    (rows_mul_columns_lt hwidth hresX)

end Fits

end LcdScreen

/-- The cells are laid out without overlap within the buffer exactly when the
template arguments fit the index formula. -/
theorem lcdScreen_layout_iff (s : LcdScreen) (hrows : 8 ∣ s.resY.toNat)
    (hspacing : 1 ≤ s.fontSpacing.toNat) (cells : Nat → UInt8) (inv inv' : Bool)
    (ch ch' : UInt8) :
    ((∀ x y : UInt32, x < s.columns → y < s.rows → (s.bufIndex x y).toNat =
        y.toNat * s.resX.toNat + x.toNat * (s.font.width.toNat + s.fontSpacing.toNat)) ∧
      (∀ x y : UInt32, x < s.columns → y < s.rows →
        ∀ i ∈ (s.drawCell (.fresh cells) x y inv ch).stored, i < s.lcdbufSize.toNat) ∧
      (∀ x y x' y' : UInt32, x < s.columns → y < s.rows → x' < s.columns → y' < s.rows →
        ¬ (x = x' ∧ y = y') → ∀ i ∈ (s.drawCell (.fresh cells) x y inv ch).stored,
          i ∉ (s.drawCell (.fresh cells) x' y' inv' ch').stored)) ↔
    s.columns.toNat = 0 ∨ s.rows.toNat = 0 ∨
      ((s.columns.toNat ≤ 1 ∨ s.rows.toNat = s.font.width.toNat + s.fontSpacing.toNat) ∧
        (s.rows.toNat ≤ 1 ∨ s.rows.toNat * s.columns.toNat = s.resX.toNat) ∧
        (s.rows.toNat - 1) * s.resX.toNat +
            (s.columns.toNat - 1) * (s.font.width.toNat + s.fontSpacing.toNat) +
            (s.font.width.toNat + 1) ≤ s.lcdbufSize.toNat) := by
  have hstored : ∀ (x y : UInt32) (inv : Bool) (ch : UInt8) (i : Nat),
      i ∈ (s.drawCell (.fresh cells) x y inv ch).stored ↔ i ∈ s.drawn x y :=
    fun x y inv ch i => (LcdScreen.writes_drawCell (.fresh cells) x y inv ch).mem_stored i
  simp only [hstored, UInt32.lt_iff_toNat_lt]
  constructor
  · rintro ⟨hstart, hbuffer, -⟩
    by_cases hcolumnsPos : 0 < s.columns.toNat
    · by_cases hrowsPos : 0 < s.rows.toNat
      · exact Or.inr (Or.inr
          (LcdScreen.layoutFits_of_cells hrows hcolumnsPos hrowsPos hstart hbuffer))
      · exact Or.inr (Or.inl (by omega))
    · exact Or.inl (by omega)
  · rintro (hnone | hnone | hfits)
    · exact ⟨fun x y hx => by omega, fun x y hx => by omega, fun x y x' y' hx => by omega⟩
    · exact ⟨fun x y _ hy => by omega, fun x y _ hy => by omega,
        fun x y x' y' _ hy => by omega⟩
    · have hlayout : s.LayoutFits := hfits
      exact ⟨fun x y hx hy => hlayout.bufIndex_eq hrows hx hy,
        fun x y hx hy i hi => hlayout.inBuffer hrows hx hy hi,
        fun x y x' y' hx hy hx' hy' hne i hi =>
          hlayout.disjoint hrows hspacing hx hy hx' hy' hne hi⟩

namespace LcdLayoutTest

/-- A display of 128x64 pixels with the 5x8 font. -/
def panel128x64 : LcdScreen := ⟨128, 64, ⟨5, fun _ _ => 0, fun _ => 0, false⟩, 1⟩

/-- The second cell of the first row starts at byte 8 instead of 6, and the last
cell ends behind the buffer. -/
theorem panel128x64_layout_broken :
    ¬ ∀ s : LcdScreen, 8 ∣ s.resY.toNat → 1 ≤ s.fontSpacing.toNat →
      (∀ x y : UInt32, x < s.columns → y < s.rows → (s.bufIndex x y).toNat =
        y.toNat * s.resX.toNat + x.toNat * (s.font.width.toNat + s.fontSpacing.toNat)) ∧
      ∀ x y : UInt32, x < s.columns → y < s.rows →
        ∀ i ∈ (s.drawCell (.fresh fun _ => 0) x y false 65).stored,
          i < s.lcdbufSize.toNat := by
  intro hall
  obtain ⟨hstart, -⟩ := hall panel128x64 (by decide) (by decide)
  exact absurd (hstart 1 0 (by decide) (by decide)) (by decide)

/-- The cell of the last column and row of the panel in use. -/
theorem lcdScreen_layout_iff_nokia3310 :
    ((LcdScreen.nokia3310 (fun _ _ => 0) (fun _ => 0) false).bufIndex 13 5).toNat =
      5 * 84 + 13 * 6 := by
  have hiff := lcdScreen_layout_iff (LcdScreen.nokia3310 (fun _ _ => 0) (fun _ => 0) false)
    (by decide) (by decide) (fun _ => 0) false false 65 66
  obtain ⟨hstart, -, -⟩ := hiff.mpr (Or.inr (Or.inr ⟨by decide, by decide, by decide⟩))
  exact hstart 13 5 (by decide) (by decide)

end LcdLayoutTest

end OpenMptl
