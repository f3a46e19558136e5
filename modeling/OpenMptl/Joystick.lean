/-
The joystick of the demo, from its conversions to the rows on the screen.  One press turns
the screen once, however the contacts bounce before and however long it lasts.
-/
import OpenMptl.Debouncer
import OpenMptl.KernelLoop

namespace OpenMptl

namespace Joystick

def upValue : Int := 960

def downValue : Int := 190

def leftValue : Int := 1990

def rightValue : Int := 470

def threshold : Int := 30

/-- `get_position_blocking()`, with the result of the conversion. -/
def getPosition (value : Int) : Position :=
  if value > upValue - threshold ∧ value < upValue + threshold then .up
  else if value > downValue - threshold ∧ value < downValue + threshold then .down
  else if value > leftValue - threshold ∧ value < leftValue + threshold then .left
  else if value > rightValue - threshold ∧ value < rightValue + threshold then .right
  else .center

/-- The template arguments of `joypos`. -/
def joypos : DebouncerConfig := { timeFreq := 100, waitTimeMs := 10 }

/-- What one turn of the loop reads: a conversion and the system ticks in `joypos.poll()`,
the button, and the values of the rows. -/
structure DemoInput where
  adcValue : UInt16
  pollTicks : UInt32
  buttonPressed : Bool
  rtcSeconds : UInt32
  systick : UInt32
  irqCount : UInt32
  irqErrors : UInt32
  cycles : UInt32

variable (inputs : Nat → DemoInput)

/-- The positions that are polled; the first one is the argument of the constructor. -/
def polled : Nat → Position
  | 0 => .center
  | k + 1 => getPosition (inputs k).adcValue.toNat

def ticks : Nat → Nat
  | 0 => 0
  | k + 1 => (inputs k).pollTicks.toNat

/-- What `joypos` says after a number of turns. -/
def position (k : Nat) : Position := (Debouncer.after joypos (polled inputs) (ticks inputs) k).get

/-- `if(joypos.poll()) switch(joypos)`, and the other values. -/
def loopInput (k : Nat) : LoopInput where
  position := if Debouncer.result joypos (polled inputs) (ticks inputs) k then
    some (position inputs (k + 1)) else none
  buttonPressed := (inputs k).buttonPressed
  rtcSeconds := (inputs k).rtcSeconds
  systick := (inputs k).systick
  irqCount := (inputs k).irqCount
  irqErrors := (inputs k).irqErrors
  cycles := (inputs k).cycles

/-- The first turns of the loop. -/
def loopInputs (n : Nat) : List LoopInput := (List.range n).map (loopInput inputs)

def view (n : Nat) : LoopView := .after (loopInputs inputs n)

variable {inputs}

theorem view_succ (n : Nat) : view inputs (n + 1) = (view inputs n).next (loopInput inputs n) := by
  rw [view, loopInputs, List.range_succ, List.map_append, LoopView.after, List.foldl_append]
  rfl

/-- A poll returns true where the position changes. -/
theorem result_iff_ne (k : Nat) :
    Debouncer.result joypos (polled inputs) (ticks inputs) k = true ↔
      position inputs (k + 1) ≠ position inputs k := by
  have hsucc := @Debouncer.get_after_succ _ _ joypos (polled inputs) (ticks inputs) k
  rw [position, position, hsucc]
  constructor
  · intro hresult
    have haccepts := (Debouncer.result_iff k).mp hresult
    rw [if_pos hresult, Debouncer.get_after]
    exact haccepts.1
  · intro hne
    by_contra hresult
    rw [if_neg hresult] at hne
    exact hne rfl

/-- The row of the joystick has the position of `joypos`. -/
theorem position_view (n : Nat) : (view inputs n).position = position inputs n := by
  induction n with
  | zero => rfl
  | succ n ih =>
      rw [view_succ]
      change ((loopInput inputs n).position).getD (view inputs n).position = _
      rw [loopInput, ih]
      by_cases hne : position inputs (n + 1) = position inputs n
      · rw [if_neg (mt (result_iff_ne n).mp (not_not.mpr hne)), hne]
        rfl
      · rw [if_pos ((result_iff_ne n).mpr hne)]
        rfl

/-- The screen is turned where the position changes. -/
theorem turns_view_succ (n : Nat) : (view inputs (n + 1)).turns = (view inputs n).turns +
    if position inputs (n + 1) = position inputs n then 0
    else Screen.turn (position inputs (n + 1)).event := by
  rw [view_succ]
  change (view inputs n).turns +
    ((loopInput inputs n).position.map fun p => Screen.turn p.event).getD 0 = _
  rw [loopInput]
  by_cases hne : position inputs (n + 1) = position inputs n
  · rw [if_neg (mt (result_iff_ne n).mp (not_not.mpr hne)), if_pos hne]
    rfl
  · rw [if_pos ((result_iff_ne n).mpr hne), if_neg hne]
    rfl

/-- As long as the position stays, so does the screen. -/
theorem turns_view_of_stays {a b : Nat}
    (h : ∀ k, a ≤ k → k ≤ b → position inputs k = position inputs a) :
    ∀ k, a ≤ k → k ≤ b → (view inputs k).turns = (view inputs a).turns := by
  intro k hak
  induction k, hak using Nat.le_induction with
  | base => exact fun _ => rfl
  | succ k hak ih =>
      intro hk
      have hsame := (h (k + 1) (Nat.le_succ_of_le hak) hk).trans
        (h k hak (Nat.le_of_succ_le hk)).symm
      rw [turns_view_succ, if_pos hsame, Int.add_zero, ih (Nat.le_of_succ_le hk)]

/-- The joystick is pressed to `p` at turn `c`, after its contacts have bounced since turn
`a` for less than the wait time, and is held until turn `b`. -/
structure Press (inputs : Nat → DemoInput) (a c b : Nat) (p : Position) : Prop where
  start_lt : a < c
  le_last : c ≤ b
  settled : polled inputs a = position inputs a
  bounces : ∀ k, a < k → k < c → polled inputs k ≠ position inputs a →
    ticks inputs k < ticks inputs (a + 1) + joypos.waitTimeTicks
  change : polled inputs (c - 1) ≠ p
  held : ∀ k, c ≤ k → k ≤ b → polled inputs k = p
  ne : p ≠ position inputs a

/-- The ticks grow, and no deadline wraps. -/
structure Growing (inputs : Nat → DemoInput) (n : Nat) : Prop where
  mono : ∀ i j, 0 < i → i ≤ j → j ≤ n → ticks inputs i ≤ ticks inputs j
  noWrap : ∀ k, 0 < k → k ≤ n → ticks inputs k + joypos.waitTimeTicks < 2 ^ 32

section Press

variable {a c b : Nat} {p : Position}

theorem Press.stays (h : Press inputs a c b p) (hgrowing : Growing inputs b) :
    ∀ k, a ≤ k → k ≤ c - 1 → position inputs k = position inputs a := by
  have hac := h.start_lt
  have hcb := h.le_last
  exact Debouncer.get_stays hgrowing.mono hgrowing.noWrap (by omega) h.settled
    fun k hak hkc => h.bounces k hak (by omega)

theorem Press.isLastChange (h : Press inputs a c b p) {k : Nat} (hck : c ≤ k) (hkb : k ≤ b) :
    Settling.IsLastChange (polled inputs) c k where
  pos := Nat.zero_lt_of_lt h.start_lt
  le := hck
  change := by
    rw [h.held c le_rfl h.le_last]
    exact h.change.symm
  constant := fun i hci hik => by
    rw [h.held i hci.le (hik.trans hkb), h.held (i - 1) (by omega) (by omega)]

/-- From the wait time after the press on the position is the new one; the screen has been
turned then, and only once. -/
theorem Press.turned (h : Press inputs a c b p) (hgrowing : Growing inputs b) :
    ∀ k, c - 1 ≤ k → k ≤ b →
      let due := c ≤ k ∧ ticks inputs c + joypos.waitTimeTicks ≤ ticks inputs k
      (¬ due → position inputs k = position inputs a ∧
        (view inputs k).turns = (view inputs a).turns) ∧
      (due → position inputs k = p ∧
        (view inputs k).turns = (view inputs a).turns + Screen.turn p.event) := by
  have hac := h.start_lt
  have hstays := h.stays hgrowing
  intro k hk
  induction k, hk using Nat.le_induction with
  | base =>
      refine fun _ => ⟨fun _ => ⟨hstays _ (by omega) le_rfl, ?_⟩, fun hdue => ?_⟩
      · exact turns_view_of_stays hstays _ (by omega) le_rfl
      · exact absurd hdue.1 (by omega)
  | succ k hk ih =>
      intro hkb
      have hck : c ≤ k + 1 := by omega
      have hread : polled inputs (k + 1) = p := h.held _ hck hkb
      obtain ⟨hbefore, hafter⟩ := ih (Nat.le_of_succ_le hkb)
      have hsucc := @Debouncer.get_after_succ _ _ joypos (polled inputs) (ticks inputs) k
      by_cases hdue : c ≤ k ∧ ticks inputs c + joypos.waitTimeTicks ≤ ticks inputs k
      · obtain ⟨hposition, hturns⟩ := hafter hdue
        have hsame : position inputs (k + 1) = position inputs k := by
          rw [position, hsucc, hread]
          change (if _ then p else position inputs k) = position inputs k
          rw [hposition, ite_self]
        have hle := hgrowing.mono k (k + 1) (by omega) (Nat.le_succ k) hkb
        refine ⟨fun hnot => absurd ⟨hck, hdue.2.trans hle⟩ hnot, fun _ => ?_⟩
        rw [turns_view_succ, if_pos hsame, Int.add_zero]
        exact ⟨hsame.trans hposition, hturns⟩
      · obtain ⟨hposition, hturns⟩ := hbefore hdue
        have hpending : polled inputs (k + 1) ≠ position inputs k := by
          rw [hread, hposition]
          exact h.ne
        have hlast := (Settling.isLastChange_iff.mp (h.isLastChange hck hkb)).2
        have hresult : Debouncer.result joypos (polled inputs) (ticks inputs) k = true ↔
            ticks inputs c + joypos.waitTimeTicks ≤ ticks inputs (k + 1) := by
          have hdueIff := @Debouncer.due_iff_of_pending _ _ joypos (polled inputs)
            (ticks inputs) k hpending
          rw [hlast, Nat.mod_eq_of_lt (hgrowing.noWrap c (by omega) (hck.trans hkb))] at hdueIff
          rw [Debouncer.result_iff, Settling.Accepts, ← Debouncer.get_after, ← hdueIff]
          exact and_iff_right hpending
        have hsuccPosition : position inputs (k + 1) = if
            ticks inputs c + joypos.waitTimeTicks ≤ ticks inputs (k + 1) then p
            else position inputs a := by
          rw [position, hsucc, hread]
          simp only [hresult]
          change (if _ then p else position inputs k) = _
          rw [hposition]
        constructor
        · intro hnot
          have hlate : ¬ ticks inputs c + joypos.waitTimeTicks ≤ ticks inputs (k + 1) :=
            fun hlate => hnot ⟨hck, hlate⟩
          rw [if_neg hlate] at hsuccPosition
          rw [turns_view_succ, if_pos (hsuccPosition.trans hposition.symm), Int.add_zero]
          exact ⟨hsuccPosition, hturns⟩
        · intro hdue
          rw [if_pos hdue.2] at hsuccPosition
          have hchanges : position inputs (k + 1) ≠ position inputs k := by
            rw [hsuccPosition, hposition]
            exact h.ne
          rw [turns_view_succ, if_neg hchanges, hsuccPosition, hturns]
          exact ⟨rfl, rfl⟩

end Press

end Joystick

open Joystick

/-- A press of the joystick, from its contacts to the display: once it is held for the wait
time, and for as long as it is, the screen has been turned once, and it shows the position. -/
theorem joystick_press_turns_once (font : Nat → Nat → UInt8) (fontIllegalChar : Nat → UInt8)
    (charIsSigned : Bool) (memory : LoopMemory) {inputs : Nat → DemoInput} {a c b : Nat}
    {p : Position} (hgrowing : Growing inputs b) (h : Press inputs a c b p)
    (hlong : ticks inputs c + joypos.waitTimeTicks ≤ ticks inputs b) :
    ∃ ka kb, KernelLoop.run (.nokia3310 font fontIllegalChar charIsSigned) memory
        (loopInputs inputs a) = some ka ∧
      KernelLoop.run (.nokia3310 font fontIllegalChar charIsSigned) memory
        (loopInputs inputs b) = some kb ∧
      (kb.itemTop : Int) = (ka.itemTop + Screen.turn p.event) % 8 ∧
      (view inputs b).position = p ∧
      KernelLoop.Displays (LcdScreen.nokia3310 font fontIllegalChar charIsSigned).font
        (view inputs b) kb.lcdbuf.cells := by
  obtain ⟨ka, hruna, ha, -⟩ := @KernelLoop.agrees_run font fontIllegalChar charIsSigned memory
    (loopInputs inputs a)
  obtain ⟨kb, hrunb, hb, hdisplays⟩ := @KernelLoop.agrees_run font fontIllegalChar charIsSigned
    memory (loopInputs inputs b)
  have hac := h.start_lt
  have hcb := h.le_last
  obtain ⟨hposition, hturns⟩ := (h.turned hgrowing b (by omega) le_rfl).2 ⟨hcb, hlong⟩
  refine ⟨ka, kb, hruna, hrunb, ?_, (position_view b).trans hposition, hdisplays fun hnil => ?_⟩
  · have htopa : (ka.itemTop : Int) = (view inputs a).turns % 8 := ha.itemTop
    have htopb : (kb.itemTop : Int) = (view inputs b).turns % 8 := hb.itemTop
    rw [htopb, hturns, htopa, Int.emod_add_emod]
  · have hlength := congrArg List.length hnil
    rw [loopInputs, List.length_map, List.length_range] at hlength
    have hzero : b = 0 := hlength
    omega

namespace JoystickTest

/-- Down, with one bounce, and held to the next tick. -/
def inputs (k : Nat) : DemoInput where
  adcValue := if k = 1 then 4000 else 190
  pollTicks := if k < 3 then 7 else 8
  buttonPressed := false
  rtcSeconds := 0
  systick := 0
  irqCount := 0
  irqErrors := 0
  cycles := 0

theorem joystick_press_turns_once_down :
    ∃ kb, KernelLoop.run (.nokia3310 (fun _ _ => 0) (fun _ => 0) false)
        ⟨fun _ => 0, fun _ _ => 0, fun _ => 0⟩ (loopInputs inputs 4) = some kb ∧
      (kb.itemTop : Int) = 1 ∧ (view inputs 4).position = .down := by
  have hgrowing : Growing inputs 4 := by
    have hmono : ∀ j ≤ 4, ∀ i ≤ j, 0 < i → ticks inputs i ≤ ticks inputs j := by decide
    have hnoWrap : ∀ k ≤ 4, ticks inputs k + joypos.waitTimeTicks < 2 ^ 32 := by decide
    exact ⟨fun i j hi hij hj => hmono j hj i hij hi, fun k _ hk => hnoWrap k hk⟩
  have hpress : Press inputs 0 3 4 .down := by
    have hbounces : ∀ k < 3, 0 < k → polled inputs k ≠ position inputs 0 →
        ticks inputs k < ticks inputs (0 + 1) + joypos.waitTimeTicks := by decide
    have hheld : ∀ k ≤ 4, 3 ≤ k → polled inputs k = .down := by decide
    exact ⟨by decide, by decide, rfl, fun k hk hc => hbounces k hc hk, by decide,
      fun k hk hb => hheld k hb hk, by decide⟩
  obtain ⟨ka, kb, ha, hb, htop, hposition, -⟩ := joystick_press_turns_once (fun _ _ => 0)
    (fun _ => 0) false ⟨fun _ => 0, fun _ _ => 0, fun _ => 0⟩ hgrowing hpress (by decide)
  obtain rfl := Option.some.inj ha
  exact ⟨kb, hb, htop, hposition⟩

end JoystickTest

end OpenMptl
