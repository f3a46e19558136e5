/-
Registers and how they are reached.  `Reg` is the `reg<>` type; its member
functions are written over a `RegAccess`, because the `reg_access` base class
has one body for the target and one for the simulation.  `Bus` is the access to
a plain register file that keeps a log of what was done.
-/
import Mathlib.Logic.Function.Basic
import OpenMptl.BitMask
import OpenMptl.Typelist

namespace OpenMptl

universe u

/-- Unsigned integral types used for register access. -/
inductive ValueType
  | uint8
  | uint16
  | uint32
  | uint64
deriving DecidableEq, Repr

def ValueType.width : ValueType → Nat
  | .uint8 => 8
  | .uint16 => 16
  | .uint32 => 32
  | .uint64 => 64

theorem ValueType.two_pow_width_pos (t : ValueType) : 0 < 2 ^ t.width := Nat.two_pow_pos _

/-- Register access permission. -/
inductive RegPerm
  | ro
  | wo
  | rw
deriving DecidableEq, Repr

/-- The type `reg<Tp, addr, permission, reset_value>`.  Two registers are the
same type exactly when all four arguments agree. -/
structure Reg where
  valueType : ValueType
  addr : Nat
  permission : RegPerm
  resetValue : Nat
  resetValue_lt : resetValue < 2 ^ valueType.width
deriving DecidableEq

def Reg.width (r : Reg) : Nat := r.valueType.width

theorem Reg.two_pow_width_pos (r : Reg) : 0 < 2 ^ r.width := r.valueType.two_pow_width_pos

/-- The assertion in `reg_access::load()`. -/
def Reg.checkLoad (r : Reg) : Except CompileError Unit :=
  if r.permission = .wo then .error .readWriteOnly else .ok ()

/-- The assertion in `reg_access::store()`, `bitset()` and `bitclear()`. -/
def Reg.checkStore (r : Reg) : Except CompileError Unit :=
  if r.permission = .ro then .error .writeReadOnly else .ok ()

/-- The static member functions of `reg_access<>`, over a machine state. -/
structure RegAccess (σ : Type u) where
  load : Reg → σ → Nat × σ
  store : Reg → Nat → σ → σ
  bitset : Reg → Nat → σ → σ
  bitclear : Reg → Nat → σ → σ
  bittest : Reg → Nat → σ → Bool × σ

namespace BitbandPeriph

def regionStart : Nat := 0x40000000

def regionEnd : Nat := 0x40100000

def aliasBase : Nat := 0x42000000

def covered (addr : Nat) : Bool := addr ≥ regionStart && addr < regionEnd

theorem covered_iff (addr : Nat) :
    covered addr = true ↔ regionStart ≤ addr ∧ addr < regionEnd := by
  simp [covered]

end BitbandPeriph

def Reg.bitopEnabled (r : Reg) : Bool := BitbandPeriph.covered r.addr

section RegFunctions

variable {σ : Type u} (A : RegAccess σ)

def Reg.test (r : Reg) (value : Nat) (s : σ) : Nat × σ :=
  let (v, s) := A.load r s
  (v &&& value, s)

def Reg.set (r : Reg) (value : Nat) (s : σ) : σ :=
  let (v, s) := A.load r s
  A.store r (v ||| value) s

/-- The two-argument overload `set(set_mask, clear_mask)`. -/
def Reg.setClear (r : Reg) (setMask clearMask : Nat) (s : σ) : σ :=
  let (v, s) := A.load r s
  A.store r ((v &&& bitNot r.width clearMask) ||| setMask) s

def Reg.clear (r : Reg) (value : Nat) (s : σ) : σ :=
  let (v, s) := A.load r s
  A.store r (v &&& bitNot r.width value) s

def Reg.mask (r : Reg) (value : Nat) (s : σ) : σ :=
  let (v, s) := A.load r s
  A.store r (v &&& value) s

def Reg.reset (r : Reg) (s : σ) : σ := A.store r r.resetValue s

end RegFunctions

/-! The register file behind a logging bus. -/

/-- One bus access, with the value a store leaves in the register. -/
inductive Access
  | load (r : Reg)
  | store (r : Reg) (value : Nat)
  | bitset (r : Reg) (bitNo : Nat)
  | bitclear (r : Reg) (bitNo : Nat)
  | bittest (r : Reg) (bitNo : Nat)
deriving DecidableEq

def Access.reg : Access → Reg
  | .load r => r
  | .store r _ => r
  | .bitset r _ => r
  | .bitclear r _ => r
  | .bittest r _ => r

/-- The content of every register, inside the range of its value type. -/
@[ext]
structure RegFile where
  value : Reg → Nat
  value_lt : ∀ r, value r < 2 ^ r.width

/-- A store keeps the low bits that fit the value type. -/
def RegFile.store (f : RegFile) (r : Reg) (v : Nat) : RegFile where
  value := Function.update f.value r (v % 2 ^ r.width)
  value_lt q := by
    rcases eq_or_ne q r with rfl | hne
    · simpa using Nat.mod_lt v (Nat.two_pow_pos q.width)
    · simpa [hne] using f.value_lt q

structure Bus where
  file : RegFile
  accesses : List Access

def Bus.start (file : RegFile) : Bus := ⟨file, []⟩

def Bus.log (b : Bus) (a : Access) : Bus := { b with accesses := b.accesses ++ [a] }

def Bus.write (b : Bus) (r : Reg) (v : Nat) (a : Access) : Bus :=
  ⟨b.file.store r v, b.accesses ++ [a]⟩

/-- A load returns the last stored value; a bit access touches its bit only. -/
def busAccess : RegAccess Bus where
  load r b := (b.file.value r, b.log (.load r))
  store r v b := b.write r v (.store r (v % 2 ^ r.width))
  bitset r n b := b.write r (b.file.value r ||| 2 ^ n) (.bitset r n)
  bitclear r n b := b.write r (b.file.value r &&& bitNot r.width (2 ^ n)) (.bitclear r n)
  bittest r n b := ((b.file.value r).testBit n, b.log (.bittest r n))

@[simp] theorem RegFile.store_value_self (f : RegFile) (r : Reg) (v : Nat) :
    (f.store r v).value r = v % 2 ^ r.width := by
  simp [RegFile.store]

@[simp] theorem RegFile.store_value_of_ne (f : RegFile) {q r : Reg} (h : q ≠ r)
    (v : Nat) : (f.store r v).value q = f.value q := by
  simp [RegFile.store, h]

theorem RegFile.store_value_of_lt (f : RegFile) (r : Reg) {v : Nat}
    (hv : v < 2 ^ r.width) : (f.store r v).value r = v := by
  rw [RegFile.store_value_self, Nat.mod_eq_of_lt hv]

/-- Register files are equal when every register shows the same bits. -/
theorem RegFile.ext_bits {f g : RegFile}
    (h : ∀ r, bits (f.value r) = bits (g.value r)) : f = g := by
  ext r
  exact bits_injective (h r) ▸ rfl

@[simp] theorem Bus.write_file (b : Bus) (r : Reg) (v : Nat) (a : Access) :
    (b.write r v a).file = b.file.store r v := rfl

@[simp] theorem Bus.write_accesses (b : Bus) (r : Reg) (v : Nat) (a : Access) :
    (b.write r v a).accesses = b.accesses ++ [a] := rfl

@[simp] theorem Bus.log_file (b : Bus) (a : Access) : (b.log a).file = b.file := rfl

@[simp] theorem Bus.log_accesses (b : Bus) (a : Access) :
    (b.log a).accesses = b.accesses ++ [a] := rfl

/-- What one write changes, in terms of bits: `r` becomes `content`, and every
other register keeps its value. -/
def RegFile.Becomes (f g : RegFile) (r : Reg) (content : Set Nat) : Prop :=
  bits (g.value r) = content ∧ ∀ q, q ≠ r → g.value q = f.value q

theorem RegFile.store_becomes (f : RegFile) (r : Reg) {v : Nat}
    (hv : v < 2 ^ r.width) : f.Becomes (f.store r v) r (bits v) :=
  ⟨by rw [f.store_value_of_lt r hv], fun _ hq => f.store_value_of_ne hq v⟩

/-- A masked read-modify-write acts on the register content as a set. -/
theorem Reg.setClear_becomes (r : Reg) {setMask : Nat} (hset : setMask < 2 ^ r.width)
    (clearMask : Nat) (b : Bus) :
    b.file.Becomes (r.setClear busAccess setMask clearMask b).file r
      (bits (b.file.value r) \ bits clearMask ∪ bits setMask) := by
  have hv := b.file.value_lt r
  have hlt := Nat.or_lt_two_pow (and_bitNot_lt hv clearMask) hset
  have h := b.file.store_becomes r hlt
  rw [bits_or, bits_and_bitNot hv] at h
  exact h

theorem Reg.clear_becomes (r : Reg) (clearMask : Nat) (b : Bus) :
    b.file.Becomes (r.clear busAccess clearMask b).file r
      (bits (b.file.value r) \ bits clearMask) := by
  have hv := b.file.value_lt r
  have h := b.file.store_becomes r (and_bitNot_lt hv clearMask)
  rw [bits_and_bitNot hv] at h
  exact h

end OpenMptl
