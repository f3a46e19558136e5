/-
Type lists.  A `sane_typelist<>` is the list of its arguments; the metafunctions
on it are recursions with an accumulator, as the partial specializations of the
source write them, and nested lists are unfolded by letting every argument
append itself.
-/
import Mathlib.Data.List.Forall2
import Mathlib.Data.List.Nodup
import Mathlib.Logic.Relator
import OpenMptl.Checked

namespace OpenMptl

universe u v w

variable {α : Type u} {β : Type v}

/-- Everything that stops a use of the templates from compiling. -/
inductive CompileError
  /-- "read access to a write-only register" -/
  | readWriteOnly
  /-- "write access to a read-only register" -/
  | writeReadOnly
  /-- "template argument is not of same reg<> type" -/
  | notSameReg
  /-- "set/clear check failed: setting a bit which was previously cleared" -/
  | settingCleared
  /-- "set/clear check failed: clearing a bit which was previously set" -/
  | clearingSet
  /-- "merged template arguments have different reg<> type" -/
  | mergedDifferentReg
  /-- "one or more elements (aka: Tp...) are not of reg_type listed in
  strict_reg_type" -/
  | notStrictRegType
  /-- "list contains more than one element" -/
  | notUnique
  /-- `clear()` is declared private in `regval<>`. -/
  | clearPrivate
  /-- A member (`reg_type`, `set()`, ...) is looked up in a type without it. -/
  | noMember
  /-- A constant expression leaves the range of its type. -/
  | constantOverflow
  /-- A template argument does not fit into the type of its parameter. -/
  | narrowing
  /-- "invalid width" -/
  | invalidWidth
  /-- "invalid width/offset" -/
  | invalidWidthOffset
  /-- "invalid bit_no" -/
  | invalidBitNo
  /-- "clear_mask does not cover all bits of set_mask" -/
  | notCovered
  /-- "irq::reset::irqn must be a negative value" -/
  | resetIrqnNotNegative
  /-- "invalid irq::numof_interrupt_channels" -/
  | invalidInterruptChannels
  /-- "IRQ vector table size error" -/
  | vectorTableSize
deriving DecidableEq, Repr

/-- A template argument other than `void`: an element, or a class that is or
derives from a `sane_typelist<>`. -/
inductive ListArg (α : Type u)
  | element (t : α)
  | list (ts : List α)

namespace Typelist

/-- `list::push_front<us...>` on a list with the elements `ts`. -/
def pushFront (ts us : List α) : List α := us ++ ts

def pushBack (ts us : List α) : List α := ts ++ us

/-- `T::_typelist_append<T, tp...>`: the argument `T` decides how it is added,
and a list puts the accumulated elements in front of its own. -/
def typelistAppend : ListArg α → List α → List α
  | .element t, tp => tp ++ [t]
  | .list ts, tp => pushFront ts tp

def append (tp : List α) (t : ListArg α) : List α := typelistAppend t tp

/-- `mpl::make_typelist<>`, where `none` is `void`. -/
def makeTypelist (list : List α) : List (Option (ListArg α)) → List α
  | [] => list
  | none :: args => makeTypelist list args
  | some t :: args => makeTypelist (append list t) args

/-- The alias `typelist<args...>`. -/
def typelist (args : List (Option (ListArg α))) : List α := makeTypelist [] args

def makeFilteredList (list : List α) (condition : α → Bool) : List α → List α
  | [] => list
  | head :: args =>
      makeFilteredList (if condition head then pushBack list [head] else list)
        condition args

def filter (ts : List α) (condition : α → Bool) : List α :=
  makeFilteredList [] condition ts

/-- `mpl::contains_impl<>` -/
def contains [DecidableEq α] (t : α) : List α → Bool
  | [] => false
  | head :: args => decide (t = head) || contains t args

def makeUniqueList [DecidableEq α] (list : List α) : List α → List α
  | [] => list
  | head :: args =>
      makeUniqueList (if contains head list then list else pushBack list [head]) args

def filterUnique [DecidableEq α] (ts : List α) : List α := makeUniqueList [] ts

/-- Each element is replaced by `T::map<Tp, type>::type`. -/
def map (f : α → List α → β) (ts : List α) : List β := ts.map fun t => f t ts

/-- `mpl::unique_element_impl<>`, with `none` for `void`. -/
def uniqueElement : List α → Except CompileError (Option α)
  | [] => .ok none
  | [t] => .ok (some t)
  | _ :: _ :: _ => .error .notUnique

def allTrue : List Bool → Bool
  | [] => true
  | head :: args => head && allTrue args

/-- `mpl::for_each_impl<>`: instantiating it instantiates every command. -/
def forEach {σ : Type w} (command : α → Except CompileError (σ → σ)) :
    List α → Except CompileError (σ → σ)
  | [] => .ok id
  | head :: args => do
      let first ← command head
      let rest ← forEach command args
      return fun s => rest (first s)

theorem makeFilteredList_eq (list ts : List α) (condition : α → Bool) :
    makeFilteredList list condition ts = list ++ ts.filter condition := by
  induction ts generalizing list with
  | nil => simp [makeFilteredList]
  | cons head args ih =>
      by_cases h : condition head = true
      · simp [makeFilteredList, ih, h, pushBack]
      · simp [makeFilteredList, ih, h]

theorem filter_eq (ts : List α) (condition : α → Bool) :
    filter ts condition = ts.filter condition := by
  simp [filter, makeFilteredList_eq]

theorem contains_eq_decide_mem [DecidableEq α] (t : α) (ts : List α) :
    contains t ts = decide (t ∈ ts) := by
  induction ts with
  | nil => simp [contains]
  | cons head args ih => simp [contains, ih]

theorem allTrue_iff (bs : List Bool) : allTrue bs = true ↔ ∀ b ∈ bs, b = true := by
  induction bs with
  | nil => simp [allTrue]
  | cons head args ih => simp [allTrue, ih]

theorem makeUniqueList_cons_of_mem [DecidableEq α] {head : α} {list : List α}
    (h : head ∈ list) (args : List α) :
    makeUniqueList list (head :: args) = makeUniqueList list args := by
  simp [makeUniqueList, contains_eq_decide_mem, h]

theorem makeUniqueList_cons_of_not_mem [DecidableEq α] {head : α} {list : List α}
    (h : head ∉ list) (args : List α) :
    makeUniqueList list (head :: args) = makeUniqueList (list ++ [head]) args := by
  simp [makeUniqueList, contains_eq_decide_mem, h, pushBack]

/-- De-duplication keeps first occurrences. -/
theorem makeUniqueList_eq [DecidableEq α] (list ts : List α) :
    makeUniqueList list ts = list ++ (ts.filter fun t => t ∉ list).eraseDups := by
  induction ts generalizing list with
  | nil => simp [makeUniqueList]
  | cons head args ih =>
      by_cases h : head ∈ list
      · simp [makeUniqueList_cons_of_mem h, ih, h]
      · have hfilter : (args.filter fun t => decide (t ∉ list ++ [head])) =
            (args.filter fun t => decide (t ∉ list)).filter fun t => !t == head := by
          rw [List.filter_filter]
          apply List.filter_congr
          intro t _
          by_cases ht : t = head <;> simp [ht]
        have hhead : ((head :: args).filter fun t => decide (t ∉ list)) =
            head :: args.filter fun t => decide (t ∉ list) := by
          simp [h]
        rw [makeUniqueList_cons_of_not_mem h, ih, hfilter, hhead, List.eraseDups_cons,
          List.append_assoc, List.singleton_append]

theorem filterUnique_eq_eraseDups [DecidableEq α] (ts : List α) :
    filterUnique ts = ts.eraseDups := by
  simp [filterUnique, makeUniqueList_eq]

theorem nodup_makeUniqueList [DecidableEq α] {list : List α} (hlist : list.Nodup)
    (ts : List α) : (makeUniqueList list ts).Nodup := by
  induction ts generalizing list with
  | nil => exact hlist
  | cons head args ih =>
      by_cases h : head ∈ list
      · rw [makeUniqueList_cons_of_mem h]
        exact ih hlist
      · rw [makeUniqueList_cons_of_not_mem h]
        apply ih
        rw [← List.concat_eq_append]
        exact List.Nodup.concat h hlist

theorem nodup_filterUnique [DecidableEq α] (ts : List α) : (filterUnique ts).Nodup :=
  nodup_makeUniqueList List.nodup_nil ts

/-- De-duplication commutes with a one-to-one correspondence of the elements. -/
theorem forall₂_makeUniqueList [DecidableEq α] [DecidableEq β] {R : α → β → Prop}
    (hR : Relator.BiUnique R) {list : List α} {list' : List β}
    (hlist : List.Forall₂ R list list') {ts : List α} {us : List β}
    (h : List.Forall₂ R ts us) :
    List.Forall₂ R (makeUniqueList list ts) (makeUniqueList list' us) := by
  induction h generalizing list list' with
  | nil => exact hlist
  | @cons t u ts us htu _ ih =>
      have hmem : t ∈ list ↔ u ∈ list' := List.rel_mem hR htu hlist
      by_cases ht : t ∈ list
      · rw [makeUniqueList_cons_of_mem ht, makeUniqueList_cons_of_mem (hmem.mp ht)]
        exact ih hlist
      · rw [makeUniqueList_cons_of_not_mem ht,
          makeUniqueList_cons_of_not_mem (mt hmem.mpr ht)]
        exact ih (List.rel_append hlist (.cons htu .nil))

theorem forall₂_filterUnique [DecidableEq α] [DecidableEq β] {R : α → β → Prop}
    (hR : Relator.BiUnique R) {ts : List α} {us : List β}
    (h : List.Forall₂ R ts us) :
    List.Forall₂ R (filterUnique ts) (filterUnique us) :=
  forall₂_makeUniqueList hR .nil h

/-- The commands run from left to right, each one instantiated. -/
theorem forEach_eq_ok_iff {σ : Type w} {command : α → Except CompileError (σ → σ)}
    {ts : List α} {prog : σ → σ} :
    forEach command ts = .ok prog ↔
      ∃ cs, List.Forall₂ (fun t c => command t = .ok c) ts cs ∧
        prog = fun s => cs.foldl (fun s c => c s) s := by
  induction ts generalizing prog with
  | nil =>
      simp only [forEach, Except.ok.injEq, List.forall₂_nil_left_iff, exists_eq_left,
        List.foldl_nil]
      exact eq_comm
  | cons head args ih =>
      simp only [forEach, bind_eq_ok_iff, pure_eq_ok_iff, ih]
      constructor
      · rintro ⟨first, hfirst, rest, ⟨cs, hcs, rfl⟩, rfl⟩
        exact ⟨first :: cs, .cons hfirst hcs, rfl⟩
      · rintro ⟨cs, hcs, rfl⟩
        cases hcs with
        | cons hfirst hrest => exact ⟨_, hfirst, _, ⟨_, hrest, rfl⟩, rfl⟩

/-- The elements that one argument contributes. -/
def argElements : Option (ListArg α) → List α
  | none => []
  | some (.element t) => [t]
  | some (.list ts) => ts

theorem makeTypelist_eq (list : List α) (args : List (Option (ListArg α))) :
    makeTypelist list args = list ++ args.flatMap argElements := by
  induction args generalizing list with
  | nil => simp [makeTypelist]
  | cons arg args ih =>
      rcases arg with _ | (t | ts)
      · simp [makeTypelist, ih, argElements]
      · simp [makeTypelist, ih, argElements, append, typelistAppend]
      · simp [makeTypelist, ih, argElements, append, typelistAppend, pushFront]

theorem typelist_eq (args : List (Option (ListArg α))) :
    typelist args = args.flatMap argElements := by
  simp [typelist, makeTypelist_eq]

end Typelist

/-- The two class templates that nest. -/
inductive ListKind
  | typelist
  | reglist
deriving DecidableEq, Repr

/-- A tree of template arguments as the user writes it. -/
inductive ListTree (α : Type u)
  | void
  | leaf (t : α)
  | node (kind : ListKind) (args : List (ListTree α))

mutual

/-- The argument that an expression denotes, its inner lists resolved first. -/
def ListTree.arg : ListTree α → Option (ListArg α)
  | .void => none
  | .leaf t => some (.element t)
  | .node _ args => some (.list (Typelist.typelist (ListTree.args args)))

def ListTree.args : List (ListTree α) → List (Option (ListArg α))
  | [] => []
  | tree :: trees => tree.arg :: ListTree.args trees

end

mutual

/-- The leaves other than `void`, from left to right. -/
def ListTree.leaves : ListTree α → List α
  | .void => []
  | .leaf t => [t]
  | .node _ args => ListTree.leavesAll args

def ListTree.leavesAll : List (ListTree α) → List α
  | [] => []
  | tree :: trees => tree.leaves ++ ListTree.leavesAll trees

end

mutual

theorem ListTree.argElements_arg : (tree : ListTree α) →
    Typelist.argElements tree.arg = tree.leaves
  | .void => by simp [ListTree.arg, ListTree.leaves, Typelist.argElements]
  | .leaf t => by simp [ListTree.arg, ListTree.leaves, Typelist.argElements]
  | .node _ args => by
      simp only [ListTree.arg, ListTree.leaves, Typelist.argElements,
        Typelist.typelist_eq]
      exact ListTree.flatMap_args args

theorem ListTree.flatMap_args : (trees : List (ListTree α)) →
    (ListTree.args trees).flatMap Typelist.argElements = ListTree.leavesAll trees
  | [] => by simp [ListTree.args, ListTree.leavesAll]
  | tree :: trees => by
      simp only [ListTree.args, ListTree.leavesAll, List.flatMap_cons]
      rw [tree.argElements_arg, ListTree.flatMap_args trees]

end

/-- Flattening keeps exactly the leaves, at any nesting and in their order. -/
theorem ListTree.typelist_args (trees : List (ListTree α)) :
    Typelist.typelist (ListTree.args trees) = ListTree.leavesAll trees := by
  rw [Typelist.typelist_eq, ListTree.flatMap_args]

end OpenMptl
