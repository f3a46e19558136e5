/-
Register lists.  A `reglist<>` flattens its arguments, merges every element with
all elements on the same register, and keeps one merged type per register; its
member functions run one command for each of these.
-/
import OpenMptl.MergedRegmask
import OpenMptl.Typelist

namespace OpenMptl

/-- Address of an interrupt service routine; 0 is `nullptr`. -/
abbrev Isr := Nat

/-- What `irq_handler<Tp, isr>` provides; `irqType` tells apart the classes
`Tp`, which may share one irq number. -/
structure IrqHandler where
  irqType : Nat
  irqn : Int
  value : Isr
deriving DecidableEq, Repr

/-- The classes derived from `typelist_element` that resource lists hold. -/
inductive Element
  | regmask (t : RegmaskType)
  | reg (r : Reg)
  | irqHandler (h : IrqHandler)
  | other (name : Nat)
deriving DecidableEq

/-- `std::is_base_of<mpl::regmask_tag, T>` -/
def Element.isRegmask : Element → Bool
  | .regmask _ => true
  | .reg _ => false
  | .irqHandler _ => false
  | .other _ => false

/-- The regmask members of an element, which other classes do not have. -/
def Element.asRegmask : Element → Except CompileError RegmaskType
  | .regmask t => .ok t
  | .reg _ => .error .noMember
  | .irqHandler _ => .error .noMember
  | .other _ => .error .noMember

/-- `typename T::reg_type`, which a `reg<>` has as well. -/
def Element.regType : Element → Except CompileError Reg
  | .regmask t => .ok t.reg
  | .reg r => .ok r
  | .irqHandler _ => .error .noMember
  | .other _ => .error .noMember

/-- `mpl::filter_reg_type<Tp>::filter<Tf>` for a `Tp` on the register `r`. -/
def filterRegType (r : Reg) (tf : RegmaskType) : Bool := decide (r = tf.reg)

/-- `mpl::pack_merged_regmask`; the empty pack gives `void`, which has no members. -/
def packMergedRegmask : List RegmaskType → Except CompileError RegmaskType
  | [] => .error .noMember
  | t :: ts => mergedRegmask t ts

/-- `mpl::map_merged_regmask`: the merge of all elements on the same register. -/
def mapMergedRegmask (t : RegmaskType) (list : List RegmaskType) :
    Except CompileError RegmaskType :=
  packMergedRegmask (Typelist.filter list (filterRegType t.reg))

/-- An instantiated `reglist<>`: its elements and its `merged_list`, whose
instantiation passed every assertion. -/
structure Reglist where
  elements : List RegmaskType
  mergedList : List RegmaskType
  compiles : elements.mapM (fun t => mapMergedRegmask t elements) = .ok mergedList

def Reglist.uniqueMergedList (l : Reglist) : List RegmaskType :=
  Typelist.filterUnique l.mergedList

/-- The member aliases of the class body, on given elements. -/
def Reglist.ofElements (elements : List RegmaskType) : Except CompileError Reglist :=
  match h : elements.mapM (fun t => mapMergedRegmask t elements) with
  | .ok mergedList => .ok ⟨elements, mergedList, h⟩
  | .error e => .error e

/-- The class `reglist<args...>` on regmasks. -/
def reglist (args : List (Option (ListArg Element))) : Except CompileError Reglist := do
  let elements ← (Typelist.typelist args).mapM Element.asRegmask
  Reglist.ofElements elements

/-- `mpl::merged_regmask<>` on any elements: one alone is kept as it is, so that
a lone `reg<>` passes, while a merge needs the masks of both sides. -/
def mergedElement (t : Element) : List Element → Except CompileError Element
  | [] => .ok t
  | u :: us => do
      let rest ← mergedElement u us
      let head ← t.asRegmask
      let rm ← rest.asRegmask
      let merged ← head.toRegmask.merge rm.toRegmask
      return .regmask ⟨merged, .regmask 0⟩

def packMergedElement : List Element → Except CompileError Element
  | [] => .error .noMember
  | e :: es => mergedElement e es

/-- `mpl::map_merged_regmask`; the filter looks up `reg_type` in every element. -/
def mapMergedElement (e : Element) (list : List Element) : Except CompileError Element := do
  let r ← e.regType
  let regs ← list.mapM Element.regType
  let filtered := Typelist.filter (list.zip regs) fun p => decide (r = p.2)
  packMergedElement (filtered.map Prod.fst)

/-- The member aliases of `reglist<>` for elements of any class. -/
def checkReglist (elements : List Element) : Except CompileError Unit := do
  let _ ← elements.mapM fun e => mapMergedElement e elements
  return ()

mutual

/-- Every `reglist<>` written inside a tree is instantiated as well. -/
def ListTree.check : ListTree Element → Except CompileError Unit
  | .void => .ok ()
  | .leaf _ => .ok ()
  | .node .typelist args => ListTree.checkAll args
  | .node .reglist args => do
      ListTree.checkAll args
      checkReglist (Typelist.typelist (ListTree.args args))

def ListTree.checkAll : List (ListTree Element) → Except CompileError Unit
  | [] => .ok ()
  | tree :: trees => do
      tree.check
      ListTree.checkAll trees

end

/-- The expression `reglist<trees...>`. -/
def reglistOf (trees : List (ListTree Element)) : Except CompileError Reglist := do
  ListTree.checkAll trees
  reglist (ListTree.args trees)

/-- The alias `make_reglist<trees...>`. -/
def makeReglist (trees : List (ListTree Element)) : Except CompileError Reglist := do
  ListTree.checkAll trees
  let filtered := Typelist.filter (Typelist.typelist (ListTree.args trees))
    Element.isRegmask
  reglist [some (.list filtered)]

section Functors

variable {σ : Type} (A : RegAccess σ) (cfg : BitbandConfig)

/-- `mpl::functor_reg_set`; both branches of `regmask::set()` are instantiated. -/
def functorRegSet (t : RegmaskType) : Except CompileError (σ → σ) := do
  t.reg.checkLoad
  t.reg.checkStore
  return t.set A cfg

/-- `mpl::functor_reg_clear` -/
def functorRegClear (t : RegmaskType) : Except CompileError (σ → σ) :=
  if t.spelling.clearPrivate then .error .clearPrivate
  else do
    t.reg.checkLoad
    t.reg.checkStore
    return t.clear A cfg

/-- `mpl::functor_reg_reset_to` -/
def functorRegResetTo (t : RegmaskType) : Except CompileError (σ → σ) := do
  t.reg.checkStore
  return t.resetTo A

namespace Reglist

def set (l : Reglist) : Except CompileError (σ → σ) :=
  Typelist.forEach (functorRegSet A cfg) l.uniqueMergedList

def clear (l : Reglist) : Except CompileError (σ → σ) :=
  Typelist.forEach (functorRegClear A cfg) l.uniqueMergedList

def resetTo (l : Reglist) : Except CompileError (σ → σ) :=
  Typelist.forEach (functorRegResetTo A) l.uniqueMergedList

end Reglist

end Functors

/-- `mpl::map_contains_reg_type<Treg...>` -/
def mapContainsRegType (treg : List Reg) (t : RegmaskType) (_list : List RegmaskType) :
    Bool :=
  Typelist.contains t.reg
    (Typelist.typelist (treg.map fun r => some (ListArg.element r)))

namespace Reglist

def allRegType (l : Reglist) (treg : List Reg) : Bool :=
  Typelist.allTrue (Typelist.map (mapContainsRegType treg) l.elements)

/-- The member `merged_regmask<Treg>`, with `none` for `void`. -/
def mergedRegmask (l : Reglist) (treg : Reg) : Except CompileError (Option RegmaskType) := do
  let unique ← reglist [some (.list (l.uniqueMergedList.map Element.regmask))]
  Typelist.uniqueElement (Typelist.filter unique.elements (filterRegType treg))

end Reglist

/-- The assertion in `strict_reset_to<>`. -/
def Reglist.strictAssert (l : Reglist) (strictRegType : List Reg) :
    Except CompileError Unit :=
  if l.allRegType strictRegType then .ok () else .error .notStrictRegType

def neutralArgs (regs : List Reg) : List (Option (ListArg Element)) :=
  regs.map fun r => some (.element (.regmask r.neutralRegmask))

/-- `reglist<trees...>::strict_reset_to<strictRegType...>()` -/
def strictResetTo {σ : Type} (A : RegAccess σ) (trees : List (ListTree Element))
    (strictRegType : List Reg) : Except CompileError (σ → σ) := do
  let l ← reglistOf trees
  l.strictAssert strictRegType
  let strictList ← reglist (neutralArgs strictRegType ++ ListTree.args trees)
  strictList.resetTo A

namespace Reg

variable {σ : Type} (A : RegAccess σ) (cfg : BitbandConfig)

/-- `reg::merge<rm0, rm...>` -/
def merge (r : Reg) (rm0 : RegmaskType) (rm : List RegmaskType) :
    Except CompileError RegmaskType := do
  let type ← mergedRegmask rm0 rm
  if type.reg = r then .ok type else .error .mergedDifferentReg

/-- `reg::set<rm0, rm...>()` -/
def setConstants (r : Reg) (rm0 : RegmaskType) (rm : List RegmaskType) :
    Except CompileError (σ → σ) := do
  let type ← r.merge rm0 rm
  functorRegSet A cfg type

/-- `reg::set<rm0, rm...>(value)` -/
def setValue (r : Reg) (rm0 : RegmaskType) (rm : List RegmaskType) (value : Nat) :
    Except CompileError (σ → σ) := do
  let type ← r.merge rm0 rm
  r.checkLoad
  r.checkStore
  return r.setClear A value type.clearMask

/-- `reg::clear<rm0, rm...>()` -/
def clearMasks (r : Reg) (rm0 : RegmaskType) (rm : List RegmaskType) :
    Except CompileError (σ → σ) := do
  let type ← r.merge rm0 rm
  functorRegClear A cfg type

/-- `reg::reset_to<rm...>()` -/
def resetTo (r : Reg) (rm : List RegmaskType) : Except CompileError (σ → σ) := do
  let merged ← r.merge r.neutralRegmask rm
  r.checkStore
  return A.store r ((r.resetValue &&& bitNot r.width merged.croppedClearMask) |||
    merged.setMask)

end Reg

end OpenMptl
