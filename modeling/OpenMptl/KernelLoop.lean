/-
The loop of the demo: each turn takes over what the joystick, the clocks and the counters
say, and shows the rows on the display.
-/
import OpenMptl.Screen

namespace OpenMptl

open LcdScreen (cstring)

/-- The bytes of a text in plain characters. -/
def asciiBytes (text : List Char) : List UInt8 := text.map fun c => UInt8.ofNat c.toNat

/-- `std::strcpy()` to an address in the memory. -/
def strcpy (mem : Buffer Int UInt8) (dst : Int) (src : List UInt8) : Buffer Int UInt8 :=
  mem.storeFrom dst (src ++ [0])

/-- `joy::position` -/
inductive Position
  | center
  | up
  | down
  | left
  | right
deriving DecidableEq, Repr

namespace Position

def event : Position → ScreenEvent
  | .center => .joystickCenter
  | .up => .joystickUp
  | .down => .joystickDown
  | .left => .joystickLeft
  | .right => .joystickRight

def text : Position → List UInt8
  | .center => asciiBytes ['c', 'e', 'n', 't', 'e', 'r']
  | .up => asciiBytes ['u', 'p']
  | .down => asciiBytes ['d', 'o', 'w', 'n']
  | .left => asciiBytes ['l', 'e', 'f', 't']
  | .right => asciiBytes ['r', 'i', 'g', 'h', 't']

end Position

/-- What one turn of the loop reads: the position if `joypos.poll()` says that it has
changed, the button, and the values of the rows. -/
structure LoopInput where
  position : Option Position
  buttonPressed : Bool
  rtcSeconds : UInt32
  systick : UInt32
  irqCount : UInt32
  irqErrors : UInt32
  cycles : UInt32

/-- The variables of `Kernel::run()`, the state of the screen and its buffer. -/
structure KernelLoop where
  joytextBuf : Buffer Int UInt8
  rtcSec : DataRow
  tick : DataRow
  cycle : DataRow
  irqCount : DataRow
  eirq : DataRow
  itemTop : Nat
  lcdbuf : Buffer Nat UInt8

/-- What the arrays hold before they are written. -/
structure LoopMemory where
  joytextBuf : Int → UInt8
  rows : Nat → Int → UInt8
  lcdbuf : Nat → UInt8

namespace KernelLoop

def title0 : List UInt8 :=
  asciiBytes ['>', '>', ' ', 'O', 'p', 'e', 'n', 'M', 'P', 'T', 'L', ' ', '<', '<']

def title1 : List UInt8 := asciiBytes (List.replicate 14 '-')

def rtcName : List UInt8 := asciiBytes ['r', 't', 'c']

def tickName : List UInt8 := asciiBytes ['t', 'i', 'c', 'k']

def cycleName : List UInt8 := asciiBytes ['c', 'y', 'c']

def irqCountName : List UInt8 := asciiBytes ['#', 'i', 'r', 'q']

def eirqName : List UInt8 := asciiBytes ['e', 'i', 'r', 'q']

def joyLabel : List UInt8 := asciiBytes ['j', 'o', 'y', ' ', ':', ' ']

/-- The row of the joystick without the position. -/
def joyText (button : UInt8) : List UInt8 := joyLabel ++ [button, 32]

/-- Before the loop. -/
def start (memory : LoopMemory) : KernelLoop where
  joytextBuf := strcpy (.fresh memory.joytextBuf) 0
    (joyText 111 ++ asciiBytes ['c', 'e', 'n', 't', 'e', 'r'])
  rtcSec := .construct (memory.rows 0) (rtcName ++ [0]) 0 .decimal
  tick := .construct (memory.rows 1) (tickName ++ [0]) 0 .hex
  cycle := .construct (memory.rows 2) (cycleName ++ [0]) 0 .decimal
  irqCount := .construct (memory.rows 3) (irqCountName ++ [0]) 0 .hex
  eirq := .construct (memory.rows 4) (eirqName ++ [0]) 0 .hex
  itemTop := 0
  lcdbuf := .fresh memory.lcdbuf

/-- The items of the list, in the order in which they are put into it. -/
def items (k : KernelLoop) : List ScreenItem :=
  [⟨title0 ++ [0], false⟩, ⟨title1 ++ [0], false⟩, ⟨k.joytextBuf.text 0 16, false⟩,
    ⟨k.rtcSec.cStr, false⟩, ⟨k.tick.cStr, false⟩, ⟨k.cycle.cStr, false⟩,
    ⟨k.irqCount.cStr, false⟩, ⟨k.eirq.cStr, false⟩]

/-- `if(joypos.poll()) switch(joypos)` -/
def pollJoystick (k : KernelLoop) : Option Position → Option KernelLoop
  | none => some k
  | some position => do
      let itemTop ← Screen.react k.items.length k.itemTop position.event
      return { k with itemTop, joytextBuf := strcpy k.joytextBuf 8 position.text }

/-- The assignments to the rows, and to the character of the button. -/
def setRows (k : KernelLoop) (input : LoopInput) : KernelLoop :=
  { k with
    joytextBuf := k.joytextBuf.store 6 (if input.buttonPressed then 120 else 111)
    rtcSec := k.rtcSec.set input.rtcSeconds
    tick := k.tick.set input.systick
    irqCount := k.irqCount.set input.irqCount
    eirq := k.eirq.set input.irqErrors
    cycle := k.cycle.set input.cycles }

def turn (s : LcdScreen) (k : KernelLoop) (input : LoopInput) : Option KernelLoop := do
  let k ← k.pollJoystick input.position
  let k := k.setRows input
  return { k with lcdbuf := Screen.update s k.lcdbuf k.items k.itemTop }

def run (s : LcdScreen) (memory : LoopMemory) (inputs : List LoopInput) : Option KernelLoop :=
  inputs.foldlM (turn s) (start memory)

end KernelLoop

/-! What a user sees. -/

/-- The values on the screen, and how far it has been turned. -/
structure LoopView where
  position : Position
  buttonPressed : Bool
  rtcSeconds : UInt32
  systick : UInt32
  irqCount : UInt32
  irqErrors : UInt32
  cycles : UInt32
  turns : Int

namespace LoopView

def start : LoopView := ⟨.center, false, 0, 0, 0, 0, 0, 0⟩

def next (v : LoopView) (input : LoopInput) : LoopView where
  position := input.position.getD v.position
  buttonPressed := input.buttonPressed
  rtcSeconds := input.rtcSeconds
  systick := input.systick
  irqCount := input.irqCount
  irqErrors := input.irqErrors
  cycles := input.cycles
  turns := v.turns + (input.position.map fun p => Screen.turn p.event).getD 0

/-- After a sequence of turns of the loop. -/
def after (inputs : List LoopInput) : LoopView := inputs.foldl next start

def button (v : LoopView) : UInt8 := if v.buttonPressed then 120 else 111

def texts (v : LoopView) : List (List UInt8) :=
  [KernelLoop.title0, KernelLoop.title1, KernelLoop.joyText v.button ++ v.position.text,
    DataRow.label KernelLoop.rtcName ++ DataRow.valueText .decimal v.rtcSeconds,
    DataRow.label KernelLoop.tickName ++ DataRow.valueText .hex v.systick,
    DataRow.label KernelLoop.cycleName ++ DataRow.valueText .decimal v.cycles,
    DataRow.label KernelLoop.irqCountName ++ DataRow.valueText .hex v.irqCount,
    DataRow.label KernelLoop.eirqName ++ DataRow.valueText .hex v.irqErrors]

def lines (v : LoopView) : List (List UInt8 × Bool) := v.texts.map fun text => (text, false)

end LoopView

namespace KernelLoop

/-- All stores have stayed in their arrays. -/
structure Inside (k : KernelLoop) : Prop where
  joytextBuf : ∀ i ∈ k.joytextBuf.stored, 0 ≤ i ∧ i < 16
  rtcSec : ∀ i ∈ k.rtcSec.buf.stored, 0 ≤ i ∧ i < DataRow.bufSize
  tick : ∀ i ∈ k.tick.buf.stored, 0 ≤ i ∧ i < DataRow.bufSize
  cycle : ∀ i ∈ k.cycle.buf.stored, 0 ≤ i ∧ i < DataRow.bufSize
  irqCount : ∀ i ∈ k.irqCount.buf.stored, 0 ≤ i ∧ i < DataRow.bufSize
  eirq : ∀ i ∈ k.eirq.buf.stored, 0 ≤ i ∧ i < DataRow.bufSize
  lcdbuf : ∀ i ∈ k.lcdbuf.stored, i < 504

/-- The text of the joystick is that of the position and the button. -/
structure JoyShows (button : UInt8) (position : Position) (buf : Buffer Int UInt8) : Prop where
  front : buf.text 0 6 = joyLabel
  button : buf.cells 6 = button
  space : buf.cells 7 = 32
  position : ∃ rest, buf.text 8 8 = position.text ++ 0 :: rest
  inside : ∀ i ∈ buf.stored, 0 ≤ i ∧ i < 16

/-- The variables are those of the view. -/
structure Agrees (v : LoopView) (k : KernelLoop) : Prop where
  joytext : JoyShows v.button v.position k.joytextBuf
  rtcSec : k.rtcSec.Holds rtcName .decimal v.rtcSeconds
  tick : k.tick.Holds tickName .hex v.systick
  cycle : k.cycle.Holds cycleName .decimal v.cycles
  irqCount : k.irqCount.Holds irqCountName .hex v.irqCount
  eirq : k.eirq.Holds eirqName .hex v.irqErrors
  itemTop : Screen.IsTop 8 v.turns k.itemTop
  lcdbuf : ∀ i ∈ k.lcdbuf.stored, i < 504

variable {v : LoopView} {k : KernelLoop} {button : UInt8} {position : Position}
  {buf : Buffer Int UInt8}

theorem Agrees.inside (h : Agrees v k) : Inside k where
  joytextBuf := h.joytext.inside
  rtcSec := h.rtcSec.shows.inside
  tick := h.tick.shows.inside
  cycle := h.cycle.shows.inside
  irqCount := h.irqCount.shows.inside
  eirq := h.eirq.shows.inside
  lcdbuf := h.lcdbuf

theorem length_text_le (position : Position) : position.text.length ≤ 6 := by
  cases position <;> decide

theorem ne_zero_of_mem_joyText {c : UInt8} (hbutton : button ≠ 0)
    (hc : c ∈ joyText button ++ position.text) : c ≠ 0 := by
  have hlabel : 0 ∉ joyLabel := by decide
  have htext : 0 ∉ position.text := by cases position <;> decide
  rw [joyText, List.append_assoc, List.mem_append, List.mem_append, List.mem_pair] at hc
  rcases hc with hc | (rfl | rfl) | hc
  · exact ne_of_mem_of_not_mem hc hlabel
  · exact hbutton
  · decide
  · exact ne_of_mem_of_not_mem hc htext

theorem JoyShows.cstring (hbutton : button ≠ 0) (h : JoyShows button position buf) :
    cstring (buf.text 0 16) = joyText button ++ position.text := by
  obtain ⟨rest, hrest⟩ := h.position
  have hbutton8 : buf.text 6 2 = [button, 32] := by
    change [buf.cells 6, buf.cells 7] = _
    rw [h.button, h.space]
  have hfront : buf.text 0 8 = joyText button :=
    (buf.text_add 0 6 2).trans (congrArg₂ (· ++ ·) h.front hbutton8)
  have htext : buf.text 0 16 = joyText button ++ position.text ++ 0 :: rest := by
    rw [List.append_assoc, ← hrest, ← hfront]
    exact buf.text_add 0 8 8
  rw [htext]
  exact DataRow.cstring_of_zero fun c => ne_zero_of_mem_joyText hbutton

/-- A new position is written over the old one. -/
theorem JoyShows.strcpy (h : JoyShows button position buf) (p : Position) :
    JoyShows button p (strcpy buf 8 p.text) := by
  have hlength := length_text_le p
  have hwrites := Buffer.writes_storeFrom buf 8 (p.text ++ [0])
  rw [List.length_append, List.length_singleton] at hwrites
  have hframe : ∀ i < 8, (OpenMptl.strcpy buf 8 p.text).cells i = buf.cells i :=
    fun i hi => hwrites.frame i fun h => absurd h.1 (by omega)
  refine ⟨?_, ?_, ?_, ?_, fun i hi => ?_⟩
  · exact (Buffer.text_congr fun i _ hi => hframe i (by omega)).trans h.front
  · exact (hframe 6 (by decide)).trans h.button
  · exact (hframe 7 (by decide)).trans h.space
  · have htext := Buffer.text_storeFrom buf 8 (p.text ++ [0])
    have hsplit := (OpenMptl.strcpy buf 8 p.text).text_add 8 (p.text.length + 1)
      (8 - (p.text.length + 1))
    rw [List.length_append, List.length_singleton] at htext
    rw [Nat.add_sub_cancel' (by omega), OpenMptl.strcpy, htext, List.append_assoc] at hsplit
    exact ⟨_, hsplit⟩
  · rcases (hwrites.stored i).mp hi with hi | hi
    · exact h.inside i hi
    · obtain ⟨hlow, hhigh⟩ := hi
      omega

theorem JoyShows.store (h : JoyShows button position buf) (b : UInt8) :
    JoyShows b position (buf.store 6 b) where
  front := (Buffer.text_congr fun i _ hi => Buffer.store_cells_ne (by omega) buf b).trans h.front
  button := buf.store_cells_self 6 b
  space := (Buffer.store_cells_ne (by decide) buf b).trans h.space
  position := by
    obtain ⟨rest, hrest⟩ := h.position
    refine ⟨rest, ?_⟩
    rw [← hrest]
    exact Buffer.text_congr fun i hi _ => Buffer.store_cells_ne (by omega) buf b
  inside := by
    intro i hi
    rcases List.mem_cons.mp hi with rfl | hi
    · exact ⟨by decide, by decide⟩
    · exact h.inside i hi

theorem button_ne_zero (v : LoopView) : v.button ≠ 0 := by
  rw [LoopView.button]
  split <;> decide

/-- The items are the lines of the view. -/
theorem Agrees.items (h : Agrees v k) : k.items.map ScreenItem.line = v.lines := by
  have htitle0 : LcdScreen.cstring (title0 ++ [0]) = title0 := by decide
  have htitle1 : LcdScreen.cstring (title1 ++ [0]) = title1 := by decide
  simp only [KernelLoop.items, List.map_cons, List.map_nil, ScreenItem.line, LoopView.lines,
    LoopView.texts, htitle0, htitle1, h.joytext.cstring (button_ne_zero v),
    h.rtcSec.cstring_cStr, h.tick.cstring_cStr, h.cycle.cstring_cStr, h.irqCount.cstring_cStr,
    h.eirq.cstring_cStr]

theorem length_le_of_mem_texts {text : List UInt8} (h : text ∈ v.texts) : text.length ≤ 14 := by
  have hjoy := length_text_le v.position
  have hrow : ∀ name numbase value,
      (DataRow.label name ++ DataRow.valueText numbase value).length = 14 := by
    intro name numbase value
    rw [List.length_append, DataRow.length_label, DataRow.length_valueText]
  simp only [LoopView.texts, List.mem_cons, List.not_mem_nil, or_false] at h
  rcases h with rfl | rfl | rfl | rfl | rfl | rfl | rfl | rfl
  · decide
  · decide
  · simp only [joyText, List.length_append]
    have hlabel : joyLabel.length = 6 := rfl
    simp only [hlabel, List.length_cons, List.length_nil]
    omega
  all_goals exact (hrow _ _ _).le

theorem Agrees.fits (h : Agrees v k) {item : ScreenItem} (hitem : item ∈ k.items) :
    item.line.1.length ≤ 14 := by
  have hline := List.mem_map_of_mem (f := ScreenItem.line) hitem
  rw [h.items] at hline
  obtain ⟨text, htext, heq⟩ := List.mem_map.mp hline
  rw [← heq]
  exact length_le_of_mem_texts htext

theorem agrees_start (memory : LoopMemory) : Agrees .start (start memory) where
  joytext := by
    refine ⟨rfl, rfl, rfl, ⟨[memory.joytextBuf 15], rfl⟩, fun i hi => ?_⟩
    obtain ⟨hlow, hhigh⟩ := ((Buffer.writes_storeFrom _ 0 _).mem_stored i).mp hi
    have hlength : i < 0 + 15 := hhigh
    omega
  rtcSec := DataRow.holds_construct _ 0 .decimal (by decide)
  tick := DataRow.holds_construct _ 0 .hex (by decide)
  cycle := DataRow.holds_construct _ 0 .decimal (by decide)
  irqCount := DataRow.holds_construct _ 0 .hex (by decide)
  eirq := DataRow.holds_construct _ 0 .hex (by decide)
  itemTop := rfl
  lcdbuf := fun i hi => by cases hi

theorem agrees_pollJoystick (h : Agrees v k) (position : Option Position) :
    ∃ k', k.pollJoystick position = some k' ∧
      Agrees { v with
        position := position.getD v.position
        turns := v.turns + (position.map fun p => Screen.turn p.event).getD 0 } k' := by
  cases position with
  | none => exact ⟨k, rfl, { h with itemTop := (Int.add_zero v.turns).symm ▸ h.itemTop }⟩
  | some p =>
      obtain ⟨top, hreact, htop⟩ := h.itemTop.react (by decide) p.event
      have hreact : Screen.react k.items.length k.itemTop p.event = some top := hreact
      refine ⟨{ k with
        itemTop := top
        joytextBuf := OpenMptl.strcpy k.joytextBuf 8 p.text }, ?_, ?_⟩
      · rw [pollJoystick, hreact]
        rfl
      · exact { h with joytext := h.joytext.strcpy p, itemTop := htop }

theorem Agrees.setRows (h : Agrees v k) (input : LoopInput) :
    Agrees { v with
      buttonPressed := input.buttonPressed
      rtcSeconds := input.rtcSeconds
      systick := input.systick
      irqCount := input.irqCount
      irqErrors := input.irqErrors
      cycles := input.cycles } (k.setRows input) where
  joytext := h.joytext.store _
  rtcSec := h.rtcSec.set _
  tick := h.tick.set _
  cycle := h.cycle.set _
  irqCount := h.irqCount.set _
  eirq := h.eirq.set _
  itemTop := h.itemTop
  lcdbuf := h.lcdbuf

variable {font : Nat → Nat → UInt8} {fontIllegalChar : Nat → UInt8} {charIsSigned : Bool}

/-- The display holds the lines from the top one on. -/
def Displays (f : LcdFont) (v : LoopView) (lcdbuf : Nat → UInt8) : Prop :=
  ∀ x y j, x < 14 → y < 6 → j < 6 → lcdbuf (84 * y + 6 * x + j) =
    Screen.picture f (v.lines.drop (v.turns % 8).toNat) y x j

/-- A turn of the loop never leaves the list or an array, and shows its view. -/
theorem Agrees.turn (h : Agrees v k) (input : LoopInput) :
    ∃ k', KernelLoop.turn (.nokia3310 font fontIllegalChar charIsSigned) k input = some k' ∧
      Agrees (v.next input) k' ∧
      Displays (LcdScreen.nokia3310 font fontIllegalChar charIsSigned).font (v.next input)
        k'.lcdbuf.cells := by
  obtain ⟨k', hpoll, hk'⟩ := agrees_pollJoystick h input.position
  have hrows : Agrees (v.next input) (k'.setRows input) := hk'.setRows input
  let shown := Screen.update (.nokia3310 font fontIllegalChar charIsSigned)
    (k'.setRows input).lcdbuf (k'.setRows input).items (k'.setRows input).itemTop
  refine ⟨{ k'.setRows input with lcdbuf := shown }, ?_, { hrows with lcdbuf := ?_ }, ?_⟩
  · rw [KernelLoop.turn, hpoll]
    rfl
  · exact Screen.stored_update _ _ _ (fun _ => hrows.fits) hrows.lcdbuf
  · intro x y j hx hy hj
    have htop : ((v.next input).turns % 8).toNat = (k'.setRows input).itemTop := by
      rw [← Int.toNat_natCast (k'.setRows input).itemTop, hrows.itemTop]
      rfl
    rw [htop, ← hrows.items, ← List.map_drop]
    exact Screen.cells_update _ _ _ (fun _ => hrows.fits) hx hy hj

/-- So does every turn of a run. -/
theorem agrees_run (memory : LoopMemory) (inputs : List LoopInput) :
    ∃ k, run (.nokia3310 font fontIllegalChar charIsSigned) memory inputs = some k ∧
      Agrees (.after inputs) k ∧
      (inputs ≠ [] → Displays (LcdScreen.nokia3310 font fontIllegalChar charIsSigned).font
        (.after inputs) k.lcdbuf.cells) := by
  induction inputs using List.reverseRecOn with
  | nil => exact ⟨_, rfl, agrees_start memory, fun h => absurd rfl h⟩
  | append_singleton inputs input ih =>
      obtain ⟨k, hrun, hk, -⟩ := ih
      obtain ⟨k', hturn, hk', hdisplays⟩ := @Agrees.turn _ _ font
        fontIllegalChar charIsSigned hk input
      have hafter : LoopView.after (inputs ++ [input]) = (LoopView.after inputs).next input := by
        rw [LoopView.after, List.foldl_append]
        rfl
      rw [hafter]
      refine ⟨k', ?_, hk', fun _ => hdisplays⟩
      rw [run, List.foldlM_append]
      change (run _ memory inputs).bind _ = _
      rw [hrun]
      exact (bind_pure _).trans hturn

end KernelLoop

/-- The loop of the demo, for any turns and values: the list is never left, nor an array,
and after each turn the display shows the values of this turn in the rows from the one on
that the joystick has turned to. -/
theorem kernelLoop_displays_view (font : Nat → Nat → UInt8) (fontIllegalChar : Nat → UInt8)
    (charIsSigned : Bool) (memory : LoopMemory) (inputs : List LoopInput) :
    ∃ k, KernelLoop.run (.nokia3310 font fontIllegalChar charIsSigned) memory inputs = some k ∧
      k.Inside ∧ (k.itemTop : Int) = (LoopView.after inputs).turns % 8 ∧
      (inputs ≠ [] → KernelLoop.Displays
        (LcdScreen.nokia3310 font fontIllegalChar charIsSigned).font
        (.after inputs) k.lcdbuf.cells) := by
  obtain ⟨k, hrun, hk, hdisplays⟩ := KernelLoop.agrees_run memory inputs
  exact ⟨k, hrun, hk.inside, hk.itemTop, hdisplays⟩

end OpenMptl
