/-
The rows of the screen.  A data row keeps its value as text in a buffer of its own and
prints it again only when the value changes.
-/
import OpenMptl.LcdScreen
import OpenMptl.PoormanCstring

namespace OpenMptl

open LcdScreen (cstring)
open Numeral

/-- `uint32_t`, for which the text is printed. -/
def uint32Type : IntegralType := ⟨4, Nat.succ_pos 3, false⟩

theorem inRange_uint32 (v : UInt32) : uint32Type.InRange v.toNat :=
  ⟨Int.natCast_nonneg _, Int.ofNat_lt.mpr v.toNat_lt⟩

def uint32Value (v : UInt32) : uint32Type.Value := ⟨v.toNat, inRange_uint32 v⟩

theorem toUnsigned_uint32 (v : UInt32) : uint32Type.toUnsigned (uint32Value v) = v.toNat := by
  have hlt : (v.toNat : Int) < 2 ^ (8 * uint32Type.size) := Int.ofNat_lt.mpr v.toNat_lt
  change ((v.toNat : Int) % 2 ^ (8 * uint32Type.size)).toNat = v.toNat
  rw [Int.emod_eq_of_lt (Int.natCast_nonneg _) hlt, Int.toNat_natCast]

inductive NumberBase
  | hex
  | decimal
deriving DecidableEq, Repr

structure DataRow where
  value : UInt32
  buf : Buffer Int UInt8
  numbase : NumberBase

namespace DataRow

def nameWidth : Nat := 4

def colonWidth : Nat := 2

def valueWidth : Nat := 8

/-- The length of the array `buf`. -/
def bufSize : Nat := nameWidth + colonWidth + valueWidth + 1

/-- `while(*name) buf[i++] = *name++;` -/
def copyName (mem : Buffer Int UInt8) : Nat → List UInt8 → Buffer Int UInt8 × Nat
  | i, [] => (mem, i)
  | i, ch :: name => if ch = 0 then (mem, i) else copyName (mem.store i ch) (i + 1) name

/-- `while(i < name_width) buf[i++] = ' ';`, for so many turns. -/
def padName (mem : Buffer Int UInt8) (i : Nat) : Nat → Buffer Int UInt8 × Nat
  | 0 => (mem, i)
  | left + 1 => padName (mem.store i 32) (i + 1) left

/-- `&buf[name_width + colon_width]` -/
def valueStart : Int := ((nameWidth + colonWidth : Nat) : Int)

def printValue (row : DataRow) : DataRow :=
  let buf := match row.numbase with
    | .decimal => itoa row.buf valueStart row.value.toNat valueWidth 48
    | .hex => itoaHex row.buf valueStart (uint32Value row.value) valueWidth 48
  { row with buf := buf }

def initBuf (row : DataRow) (name : List UInt8) : DataRow :=
  let copied := copyName row.buf 0 name
  let padded := padName copied.1 copied.2 (nameWidth - copied.2)
  printValue { row with buf := (padded.1.store padded.2 58).store (padded.2 + 1) 32 }

/-- The constructors; the array holds anything before. -/
def construct (cells : Int → UInt8) (name : List UInt8) (value : UInt32)
    (numbase : NumberBase) : DataRow :=
  initBuf ⟨value, .fresh cells, numbase⟩ name

def set (row : DataRow) (value : UInt32) : DataRow :=
  if row.value ≠ value then printValue { row with value := value } else row

/-- The bytes from `c_str()` to the end of the array. -/
def cStr (row : DataRow) : List UInt8 := row.buf.text 0 bufSize

/-! What a row shows. -/

/-- What is stored in front of the value, and partly below it if the name is long. -/
def front (name : List UInt8) : List UInt8 :=
  cstring name ++ List.replicate (nameWidth - (cstring name).length) 32 ++ [58, 32]

/-- The name in its four columns, and the colon; a longer name is cut off by the value. -/
def label (name : List UInt8) : List UInt8 := (front name).take (nameWidth + colonWidth)

/-- The value in its columns, with a mark in front if it does not fit. -/
def valueText (numbase : NumberBase) (value : UInt32) : List UInt8 :=
  match numbase with
  | .decimal => rightAligned 48 126 valueWidth (decAlphabet.write (shortest 10 value.toNat))
  | .hex => rightAligned 48 126 valueWidth (hexAlphabet.write (shortest 16 value.toNat))

/-- The text of the row is that of its value, and no store has left the array. -/
structure Shows (label : List UInt8) (row : DataRow) : Prop where
  labelled : row.buf.text 0 6 = label
  valued : row.buf.text 6 8 = valueText row.numbase row.value
  terminated : row.buf.cells 14 = 0
  inside : ∀ i ∈ row.buf.stored, 0 ≤ i ∧ i < bufSize

variable {row : DataRow} {name : List UInt8}

theorem isField_printValue (row : DataRow) :
    IsField row.buf row.printValue.buf 6 valueWidth (valueText row.numbase row.value) := by
  obtain ⟨value, buf, numbase⟩ := row
  cases numbase with
  | decimal => exact itoa_isField buf 6 value.toNat (by decide) 48
  | hex =>
      have hfield := itoaHex_isField buf 6 (uint32Value value) (n := 8) (by decide) 48
      rwa [toUnsigned_uint32] at hfield

/-- Printing leaves the label. -/
theorem Shows.printValue {label : List UInt8} {row : DataRow}
    (htext : row.buf.text 0 6 = label)
    (hinside : ∀ i ∈ row.buf.stored, 0 ≤ i ∧ i < bufSize) : Shows label row.printValue := by
  have hfield := isField_printValue row
  refine ⟨?_, hfield.text_eq, hfield.terminated, fun i hi => ?_⟩
  · have hframe : row.printValue.buf.text 0 6 = row.buf.text 0 6 :=
      Buffer.text_congr fun i _ hi => hfield.writes.frame i (fun h => absurd h.1 (by omega))
    exact hframe.trans htext
  · rcases (hfield.writes.stored i).mp hi with hi | hi
    · exact hinside i hi
    · obtain ⟨hlow, hhigh⟩ := hi
      have hhigh : i ≤ 6 + 8 := hhigh
      change 0 ≤ i ∧ i < 15
      omega

theorem copyName_eq (mem : Buffer Int UInt8) (i : Nat) (name : List UInt8) :
    copyName mem i name = (mem.storeFrom i (cstring name), i + (cstring name).length) := by
  induction name generalizing mem i with
  | nil => rfl
  | cons ch name ih =>
      rw [copyName]
      by_cases hch : ch = 0
      · simp [hch, cstring, Buffer.storeFrom]
      · have hstring : cstring (ch :: name) = ch :: cstring name := by simp [cstring, hch]
        rw [if_neg hch, ih, hstring, Buffer.storeFrom, List.length_cons, Nat.cast_succ]
        simp [Nat.add_assoc, Nat.add_comm 1]

theorem padName_eq (mem : Buffer Int UInt8) (i left : Nat) :
    padName mem i left = (mem.storeFrom i (List.replicate left 32), i + left) := by
  induction left generalizing mem i with
  | zero => rfl
  | succ left ih =>
      rw [padName, ih, List.replicate_succ, Buffer.storeFrom, Nat.cast_succ]
      simp [Nat.add_assoc, Nat.add_comm 1]

theorem initBuf_eq (row : DataRow) (name : List UInt8) :
    row.initBuf name =
      DataRow.printValue { row with buf := row.buf.storeFrom 0 (front name) } := by
  have hpadded : ((0 : Nat) : Int) + ((cstring name).length : Nat) =
      ((0 + (cstring name).length : Nat) : Int) := by omega
  rw [initBuf, copyName_eq, padName_eq, front, Buffer.storeFrom_append, Buffer.storeFrom_append]
  simp [Buffer.storeFrom]

/-- A new row shows its value, if the name leaves room for the colon. -/
theorem shows_construct (cells : Int → UInt8) (value : UInt32) (numbase : NumberBase)
    (hname : (cstring name).length ≤ 13) :
    Shows (label name) (construct cells name value numbase) := by
  rw [construct, initBuf_eq]
  have hlength : (front name).length = max (cstring name).length 4 + 2 := by
    simp only [front, List.length_append, List.length_replicate, nameWidth, List.length_cons,
      List.length_nil]
    omega
  have hwrites := Buffer.writes_storeFrom (.fresh cells) 0 (front name)
  refine Shows.printValue ?_ fun i hi => ?_
  · have hsix : 6 ≤ (front name).length := by omega
    have htext := Buffer.take_text ((Buffer.fresh cells).storeFrom 0 (front name)) 0 hsix
    rw [Buffer.text_storeFrom] at htext
    exact htext.symm
  · obtain ⟨hlow, hhigh⟩ := (hwrites.mem_stored i).mp hi
    rw [hlength] at hhigh
    change 0 ≤ i ∧ i < 15
    omega

theorem Shows.set {label : List UInt8} (h : Shows label row) (value : UInt32) :
    Shows label (row.set value) := by
  rw [DataRow.set]
  split
  · exact Shows.printValue h.labelled h.inside
  · exact h

@[simp] theorem value_set (row : DataRow) (value : UInt32) : (row.set value).value = value := by
  rw [DataRow.set]
  split
  · rfl
  · next hsame => exact not_not.mp hsame

@[simp] theorem numbase_set (row : DataRow) (value : UInt32) :
    (row.set value).numbase = row.numbase := by
  rw [DataRow.set]
  split <;> rfl

/-- What `c_str()` gives. -/
theorem Shows.cStr_eq {label : List UInt8} (h : Shows label row) :
    row.cStr = label ++ valueText row.numbase row.value ++ [0] := by
  have hsplit := row.buf.text_add 0 6 8
  rw [h.labelled] at hsplit
  have hlast : row.buf.text 0 (14 + 1) = row.buf.text 0 14 ++ [row.buf.cells (0 + (14 : Nat))] :=
    row.buf.text_succ 14
  rw [cStr, bufSize]
  refine hlast.trans ?_
  have hterminated : row.buf.cells (0 + (14 : Nat)) = 0 := h.terminated
  rw [hsplit, hterminated]
  exact congrArg (fun t => label ++ t ++ [0]) h.valued

/-! The characters of a row. -/

theorem ne_zero_of_mem_cstring {p : List UInt8} {c : UInt8} (hc : c ∈ cstring p) : c ≠ 0 := by
  have hall : ∀ c ∈ cstring p, decide (c ≠ 0) = true := List.all_eq_true.mp List.all_takeWhile
  exact of_decide_eq_true (hall c hc)

theorem cstring_of_zero {text rest : List UInt8} (h : ∀ c ∈ text, c ≠ 0) :
    cstring (text ++ 0 :: rest) = text := by
  rw [cstring, List.takeWhile_append_of_pos (by simpa using h)]
  simp

theorem ne_zero_of_mem_label {c : UInt8} (hc : c ∈ label name) : c ≠ 0 := by
  have hfront := List.mem_of_mem_take hc
  simp only [front, List.mem_append, List.mem_replicate, List.mem_cons, List.not_mem_nil,
    or_false] at hfront
  rcases hfront with (hname | ⟨-, rfl⟩) | rfl | rfl
  · exact ne_zero_of_mem_cstring hname
  · decide
  · decide
  · decide

theorem ne_zero_of_mem_digits {b : Nat} (A : Alphabet b UInt8) (hb : 1 < b)
    (hdigit : ∀ d < b, A.digit d ≠ 0) {v : Nat} {c : UInt8} (hc : c ∈ A.write (shortest b v)) :
    c ≠ 0 := by
  obtain ⟨d, hd, rfl⟩ := List.mem_map.mp hc
  exact hdigit d (lt_of_mem_shortest hb hd)

theorem ne_zero_of_mem_rightAligned {k : Nat} {text : List UInt8} {c : UInt8}
    (htext : ∀ c ∈ text, c ≠ 0) (hc : c ∈ rightAligned 48 126 k text) : c ≠ 0 := by
  rw [rightAligned] at hc
  split at hc
  · rcases List.mem_append.mp hc with hc | hc
    · rw [List.eq_of_mem_replicate hc]
      decide
    · exact htext c hc
  · rcases List.mem_cons.mp hc with rfl | hc
    · decide
    · exact htext c (List.mem_of_mem_drop hc)

theorem length_rightAligned {α : Type} (padding mark : α) {k : Nat} (hk : 1 ≤ k)
    (text : List α) : (rightAligned padding mark k text).length = k := by
  rw [rightAligned]
  split
  · rw [List.length_append, List.length_replicate]
    omega
  · rw [List.length_cons, List.length_drop]
    omega

theorem ne_zero_of_mem_valueText {numbase : NumberBase} {value : UInt32} {c : UInt8}
    (hc : c ∈ valueText numbase value) : c ≠ 0 := by
  cases numbase with
  | decimal =>
      refine ne_zero_of_mem_rightAligned (fun c => ?_) hc
      exact ne_zero_of_mem_digits decAlphabet (by decide) (by decide)
  | hex =>
      refine ne_zero_of_mem_rightAligned (fun c => ?_) hc
      exact ne_zero_of_mem_digits hexAlphabet (by decide) (by decide)

theorem length_valueText (numbase : NumberBase) (value : UInt32) :
    (valueText numbase value).length = 8 := by
  cases numbase with
  | decimal => exact length_rightAligned 48 126 (by decide) _
  | hex => exact length_rightAligned 48 126 (by decide) _

theorem length_label (name : List UInt8) : (label name).length = 6 := by
  simp only [label, front, List.length_take, List.length_append, List.length_replicate,
    List.length_cons, List.length_nil, nameWidth, colonWidth]
  omega

/-- The string that a row shows. -/
theorem Shows.cstring_cStr (h : Shows (label name) row) :
    cstring row.cStr = label name ++ valueText row.numbase row.value := by
  rw [h.cStr_eq]
  refine cstring_of_zero fun c hc => ?_
  rcases List.mem_append.mp hc with hc | hc
  · exact ne_zero_of_mem_label hc
  · exact ne_zero_of_mem_valueText hc

/-- A row of the name shows the value in the base. -/
structure Holds (name : List UInt8) (numbase : NumberBase) (value : UInt32) (row : DataRow) :
    Prop where
  shows : Shows (label name) row
  numbase_eq : row.numbase = numbase
  value_eq : row.value = value

variable {numbase : NumberBase} {value : UInt32}

theorem holds_construct (cells : Int → UInt8) (value : UInt32) (numbase : NumberBase)
    (hname : (cstring name).length ≤ 13) :
    Holds name numbase value (construct cells name value numbase) where
  shows := shows_construct cells value numbase hname
  numbase_eq := by
    rw [construct, initBuf_eq]
    rfl
  value_eq := by
    rw [construct, initBuf_eq]
    rfl

theorem Holds.set (h : Holds name numbase value row) (v : UInt32) :
    Holds name numbase v (row.set v) where
  shows := h.shows.set v
  numbase_eq := (numbase_set row v).trans h.numbase_eq
  value_eq := value_set row v

theorem Holds.cstring_cStr (h : Holds name numbase value row) :
    cstring row.cStr = label name ++ valueText numbase value := by
  rw [h.shows.cstring_cStr, h.numbase_eq, h.value_eq]

end DataRow

end OpenMptl
