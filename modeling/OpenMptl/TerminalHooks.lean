/-
The command table of the terminal.  `execute()` walks down the list of hooks and
carries the full list along, for the help text at its end; the listing pads every
command to the longest one.
-/
import Mathlib.Data.UInt
import OpenMptl.Regbits

namespace OpenMptl

/-- A zero terminated string, without its terminator. -/
structure CString where
  chars : List UInt8
  noNul : 0 ∉ chars
deriving DecidableEq

def CString.ascii (s : String) : List UInt8 := s.toList.map fun c => UInt8.ofNat c.toNat

/-- The bytes of a string that has none of value 0. -/
def CString.ofString (s : String) (h : 0 ∉ CString.ascii s) : CString := ⟨CString.ascii s, h⟩

def strlen (s : CString) : Nat := s.chars.length

def strcmpChars : List UInt8 → List UInt8 → Int
  | [], [] => 0
  | [], d :: _ => -d.toNat
  | c :: _, [] => c.toNat
  | c :: cs, d :: ds => if c = d then strcmpChars cs ds else (c.toNat : Int) - d.toNat

def strcmp (s t : CString) : Int := strcmpChars s.chars t.chars

/-- A class derived from `terminal_hook`; `name` tells the classes apart.  The literal
`cmd` is part of a program image, which is smaller than 2 GiB and holds the texts of
the terminal as well. -/
structure TerminalHook where
  name : Nat
  cmd : CString
  desc : CString
  cmd_lt : strlen cmd + 3 < 2 ^ 31
deriving DecidableEq

/-- The calls on the stream, and the call of a hook, which is given the stream. -/
inductive HookCall
  | run (h : TerminalHook)
  | put (c : UInt8)
  | puts (s : CString)
  | endl
deriving DecidableEq

namespace TerminalHooks

def cmdNotfound : CString :=
  .ofString ": command not found (type \"help\" for a list of available commands)" (by decide)

def cmdList : CString := .ofString "List of commands:" (by decide)

def help : CString := .ofString "help" (by decide)

def indent : CString := .ofString "   " (by decide)

/-- `mpl::max<Args...>` -/
def max : List Nat → Nat
  | [] => 0
  | t :: args => if t > max args then t else max args

/-- "maximum length of all commands (minimum 8, for formatting help text)", an
`unsigned`. -/
def cmdMaxlen (hooks : List TerminalHook) : Nat :=
  max (8 :: hooks.map fun h => strlen h.cmd) % 2 ^ 32

variable (T : Target)

/-- `HL::cmd_maxlen - strlen(T::cmd) + 3`, a `size_t`, which is as wide as `unsigned
long`, and its conversion to `int`. -/
def padding (maxlen len : Nat) : Int :=
  Int.bmod (((maxlen : Int) - len + 3) % 2 ^ T.ulongWidth) (2 ^ 32)

/-- `list<HL>()` -/
def list (hl : List TerminalHook) : List TerminalHook → List HookCall
  | [] => []
  | t :: args =>
      .puts indent :: .puts t.cmd ::
        (List.replicate (padding T (cmdMaxlen hl) (strlen t.cmd)).toNat (.put 32) ++
          .puts t.desc :: .endl :: list hl args)

/-- `execute<HL>()` -/
def execute (hl : List TerminalHook) (cmdBuf : CString) : List TerminalHook → List HookCall
  | [] =>
      if strcmp help cmdBuf = 0 then .puts cmdList :: .endl :: list T hl hl
      else [.puts cmdBuf, .puts cmdNotfound, .endl]
  | t :: args => if strcmp t.cmd cmdBuf = 0 then [.run t] else execute hl cmdBuf args

/-- What stands before a description. -/
def cell (hl : List TerminalHook) (t : TerminalHook) : List HookCall :=
  .puts indent :: .puts t.cmd ::
    List.replicate (padding T (cmdMaxlen hl) (strlen t.cmd)).toNat (.put 32)

theorem strcmpChars_eq_zero_iff {s t : List UInt8} (hs : 0 ∉ s) (ht : 0 ∉ t) :
    strcmpChars s t = 0 ↔ s = t := by
  induction s generalizing t with
  | nil =>
      cases t with
      | nil => simp [strcmpChars]
      | cons d ds =>
          have hd : d ≠ 0 := fun h => ht (h ▸ List.mem_cons_self)
          have hnat : d.toNat ≠ 0 := fun h => hd (UInt8.toNat_inj.mp h)
          simp [strcmpChars, hnat]
  | cons c cs ih =>
      cases t with
      | nil =>
          have hc : c ≠ 0 := fun h => hs (h ▸ List.mem_cons_self)
          have hnat : c.toNat ≠ 0 := fun h => hc (UInt8.toNat_inj.mp h)
          simp [strcmpChars, hnat]
      | cons d ds =>
          have hrest := ih (fun h => hs (List.mem_cons_of_mem c h))
            (fun h => ht (List.mem_cons_of_mem d h))
          by_cases heq : c = d
          · simp [strcmpChars, heq, hrest]
          · have hnat : (c.toNat : Int) - d.toNat ≠ 0 := by
              rw [sub_ne_zero, ne_eq, Int.ofNat_inj, UInt8.toNat_inj]
              exact heq
            simp [strcmpChars, heq, hnat]

theorem strcmp_eq_zero_iff (s t : CString) : strcmp s t = 0 ↔ s = t := by
  rw [strcmp, strcmpChars_eq_zero_iff s.noNul t.noNul]
  cases s
  cases t
  simp

theorem le_max {n : Nat} {args : List Nat} (h : n ∈ args) : n ≤ max args := by
  induction args with
  | nil => cases h
  | cons t args ih =>
      rw [max]
      rcases List.mem_cons.mp h with rfl | h
      · split <;> omega
      · have hle := ih h
        split <;> omega

theorem max_lt {n : Nat} {args : List Nat} (hn : 0 < n) (h : ∀ t ∈ args, t < n) :
    max args < n := by
  induction args with
  | nil => exact hn
  | cons t args ih =>
      rw [max]
      split
      · exact h t List.mem_cons_self
      · exact ih fun u hu => h u (List.mem_cons_of_mem t hu)

/-- The maximum covers every command, and stays clear of the sign of an `int`. -/
theorem cmdMaxlen_bounds (hooks : List TerminalHook) :
    cmdMaxlen hooks + 3 < 2 ^ 31 ∧ ∀ h ∈ hooks, strlen h.cmd ≤ cmdMaxlen hooks := by
  have hlt : max (8 :: hooks.map fun h => strlen h.cmd) < 2 ^ 31 - 3 := by
    refine max_lt (by decide) fun t ht => ?_
    rcases List.mem_cons.mp ht with rfl | ht
    · decide
    · obtain ⟨h, -, rfl⟩ := List.mem_map.mp ht
      have hcmd := h.cmd_lt
      omega
  have heq : cmdMaxlen hooks = max (8 :: hooks.map fun h => strlen h.cmd) :=
    Nat.mod_eq_of_lt (by omega)
  refine ⟨by omega, fun h hh => ?_⟩
  rw [heq]
  exact le_max (List.mem_cons_of_mem 8 (List.mem_map_of_mem hh))

theorem padding_eq {maxlen len : Nat} (hle : len ≤ maxlen) (hlt : maxlen + 3 < 2 ^ 31) :
    padding T maxlen len = (maxlen - len + 3 : Nat) := by
  have hwide : (2 : Int) ^ 32 ≤ 2 ^ T.ulongWidth := by
    exact_mod_cast Nat.pow_le_pow_right Nat.two_pos T.ulongWidth_ge
  have hmod : ((maxlen : Int) - len + 3) % 2 ^ T.ulongWidth = (maxlen : Int) - len + 3 :=
    Int.emod_eq_of_lt (by omega) (by omega)
  rw [padding, hmod, Int.bmod_eq_of_le (by omega) (by omega)]
  omega

/-- The blanks fill every cell of the listing up to one column. -/
theorem cell_eq {hl : List TerminalHook} {t : TerminalHook} (ht : t ∈ hl) :
    cell T hl t = [.puts indent, .puts t.cmd] ++
        List.replicate (cmdMaxlen hl + 6 - (strlen indent + strlen t.cmd)) (.put 32) ∧
      strlen indent + strlen t.cmd + 3 ≤ cmdMaxlen hl + 6 := by
  obtain ⟨hlt, hle⟩ := cmdMaxlen_bounds hl
  have hcmd := hle t ht
  have hindent : strlen indent = 3 := rfl
  have hpad : (padding T (cmdMaxlen hl) (strlen t.cmd)).toNat =
      cmdMaxlen hl + 6 - (strlen indent + strlen t.cmd) := by
    rw [padding_eq T hcmd hlt, Int.toNat_natCast, hindent]
    omega
  refine ⟨?_, by omega⟩
  rw [cell, hpad]
  rfl

theorem list_eq (hl hooks : List TerminalHook) :
    list T hl hooks = hooks.flatMap fun t => cell T hl t ++ [.puts t.desc, .endl] := by
  induction hooks with
  | nil => rfl
  | cons t hooks ih =>
      rw [list, ih, List.flatMap_cons, cell]
      simp

theorem execute_of_first {hl pre post : List TerminalHook} {t : TerminalHook} {line : CString}
    (hpre : ∀ h ∈ pre, h.cmd ≠ line) (ht : t.cmd = line) :
    execute T hl line (pre ++ t :: post) = [.run t] := by
  induction pre with
  | nil => rw [List.nil_append, execute, if_pos ((strcmp_eq_zero_iff _ _).mpr ht)]
  | cons h pre ih =>
      have hne := mt (strcmp_eq_zero_iff h.cmd line).mp (hpre h List.mem_cons_self)
      rw [List.cons_append, execute, if_neg hne]
      exact ih fun u hu => hpre u (List.mem_cons_of_mem h hu)

/-- Without a match the recursion arrives at the empty list. -/
theorem execute_of_none {hl hooks : List TerminalHook} {line : CString}
    (hnone : ∀ h ∈ hooks, h.cmd ≠ line) :
    execute T hl line hooks = execute T hl line [] := by
  induction hooks with
  | nil => rfl
  | cons h hooks ih =>
      have hne := mt (strcmp_eq_zero_iff h.cmd line).mp (hnone h List.mem_cons_self)
      have hstep : execute T hl line (h :: hooks) = execute T hl line hooks := if_neg hne
      rw [hstep]
      exact ih fun u hu => hnone u (List.mem_cons_of_mem h hu)

end TerminalHooks

section Execute

open TerminalHooks

/-- `execute()` runs the first hook of that name, or lists all hooks, each description from
the same column on, or reports the line, and does nothing else. -/
theorem terminalHookList_executes_one (T : Target) (hooks : List TerminalHook)
    (line : CString) :
    (∀ pre t post, hooks = pre ++ t :: post → (∀ h ∈ pre, h.cmd ≠ line) → t.cmd = line →
      execute T hooks line hooks = [.run t]) ∧
    ((∀ h ∈ hooks, h.cmd ≠ line) → line = help →
      ∃ column : Nat, (∀ h ∈ hooks, strlen indent + strlen h.cmd + 3 ≤ column) ∧
        execute T hooks line hooks = [.puts cmdList, .endl] ++ hooks.flatMap fun h =>
          [.puts indent, .puts h.cmd] ++
            List.replicate (column - (strlen indent + strlen h.cmd)) (.put 32) ++
              [.puts h.desc, .endl]) ∧
    ((∀ h ∈ hooks, h.cmd ≠ line) → line ≠ help →
      execute T hooks line hooks = [.puts line, .puts cmdNotfound, .endl]) := by
  refine ⟨?_, fun hnone hhelp => ?_, fun hnone hhelp => ?_⟩
  · rintro pre t post rfl hpre ht
    exact execute_of_first T hpre ht
  · have hlines : ∀ h ∈ hooks, cell T hooks h ++ [.puts h.desc, .endl] = _ :=
      fun h hh => congrArg (· ++ [.puts h.desc, .endl]) (cell_eq T hh).1
    refine ⟨cmdMaxlen hooks + 6, fun h hh => (cell_eq T hh).2, ?_⟩
    rw [execute_of_none T hnone, execute, if_pos ((strcmp_eq_zero_iff _ _).mpr hhelp.symm),
      list_eq, List.flatMap_congr hlines]
    rfl
  · have hne : strcmp help line ≠ 0 := fun h => hhelp ((strcmp_eq_zero_iff _ _).mp h).symm
    rw [execute_of_none T hnone, execute, if_neg hne]

end Execute

namespace TerminalHooksTest

/-- Two hooks of one name, the second one is shadowed. -/
def nrf : TerminalHook :=
  ⟨0, .ofString "nrf" (by decide), .ofString "radio" (by decide), by decide⟩

def shadowed : TerminalHook := { nrf with name := 1 }

example (T : Target) :
    TerminalHooks.execute T [nrf, shadowed] nrf.cmd [nrf, shadowed] = [.run nrf] := rfl

end TerminalHooksTest

end OpenMptl
