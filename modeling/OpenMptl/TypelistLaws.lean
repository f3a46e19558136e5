/-
What `typelist<>` makes of a tree of arguments.  Only a `reglist<>` inside the
tree can be rejected; apart from that the result is the list of the leaves, so
grouping with further `typelist<>` nodes and `void` arguments leave no trace.
-/
import OpenMptl.Reglist

namespace OpenMptl

universe u v

namespace Typelist

variable {α : Type u} {β : Type v}

/-- `filter_type<T>`, for the relation `std::is_base_of<T, Tf>`. -/
def filterType (isBaseOf : β → α → Bool) (base : β) (ts : List α) : List α :=
  filter ts (isBaseOf base)

theorem filter_append (ts us : List α) (condition : α → Bool) :
    filter (ts ++ us) condition = filter ts condition ++ filter us condition := by
  simp only [filter_eq, List.filter_append]

end Typelist

/-- The expression `typelist<trees...>`. -/
def typelistOf (trees : List (ListTree Element)) : Except CompileError (List Element) := do
  ListTree.checkAll trees
  return Typelist.typelist (ListTree.args trees)

/-- Two ways to write the same arguments: grouped by a further `typelist<>`, with
a `void` more, or so inside one of the nodes. -/
inductive Regroup : List (ListTree Element) → List (ListTree Element) → Prop
  | wrap (xs group ys : List (ListTree Element)) :
      Regroup (xs ++ group ++ ys) (xs ++ .node .typelist group :: ys)
  | void (xs ys : List (ListTree Element)) : Regroup (xs ++ ys) (xs ++ .void :: ys)
  | inside (xs ys : List (ListTree Element)) (kind : ListKind)
      {args args' : List (ListTree Element)} (h : Regroup args args') :
      Regroup (xs ++ .node kind args :: ys) (xs ++ .node kind args' :: ys)
  | refl (xs : List (ListTree Element)) : Regroup xs xs
  | symm {xs ys : List (ListTree Element)} (h : Regroup xs ys) : Regroup ys xs
  | trans {xs ys zs : List (ListTree Element)} (h : Regroup xs ys) (h' : Regroup ys zs) :
      Regroup xs zs

namespace ListTree

theorem leavesAll_append {α : Type u} (xs ys : List (ListTree α)) :
    leavesAll (xs ++ ys) = leavesAll xs ++ leavesAll ys := by
  induction xs with
  | nil => simp [leavesAll]
  | cons x xs ih => simp [leavesAll, ih]

/-- Checks run from left to right. -/
theorem checkAll_append (xs ys : List (ListTree Element)) :
    checkAll (xs ++ ys) = (do checkAll xs; checkAll ys) := by
  induction xs with
  | nil => simp [checkAll]
  | cons x xs ih => simp [checkAll, ih]

end ListTree

open ListTree

theorem typelistOf_eq (trees : List (ListTree Element)) :
    typelistOf trees = (do checkAll trees; return leavesAll trees) := by
  rw [typelistOf, typelist_args]

theorem typelistOf_append (xs ys : List (ListTree Element)) :
    typelistOf (xs ++ ys) =
      (do let ts ← typelistOf xs; let us ← typelistOf ys; return ts ++ us) := by
  simp only [typelistOf_eq, checkAll_append, leavesAll_append]
  cases checkAll xs <;> cases checkAll ys <;> rfl

theorem typelistOf_node (trees : List (ListTree Element)) :
    typelistOf [.node .typelist trees] = typelistOf trees := by
  simp only [typelistOf_eq, checkAll, check, leavesAll, leaves, List.append_nil]
  cases checkAll trees <;> rfl

namespace Regroup

variable {xs ys : List (ListTree Element)}

theorem leavesAll_eq (h : Regroup xs ys) : leavesAll xs = leavesAll ys := by
  induction h with
  | wrap xs group ys => simp [leavesAll_append, leavesAll, leaves]
  | void xs ys => simp [leavesAll_append, leavesAll, leaves]
  | inside xs ys kind h ih => simp [leavesAll_append, leavesAll, leaves, ih]
  | refl xs => rfl
  | symm h ih => exact ih.symm
  | trans h h' ih ih' => exact ih.trans ih'

/-- The same `reglist<>` nodes are instantiated, on the same elements. -/
theorem checkAll_eq (h : Regroup xs ys) : checkAll xs = checkAll ys := by
  induction h with
  | wrap xs group ys => simp [checkAll_append, checkAll, check]
  | void xs ys => simp [checkAll_append, checkAll, check]
  | @inside xs ys kind args args' h ih =>
      have hargs := h.leavesAll_eq
      cases kind with
      | typelist => simp [checkAll_append, checkAll, check, ih]
      | reglist => simp [checkAll_append, checkAll, check, ih, typelist_args, hargs]
  | refl xs => rfl
  | symm h ih => exact ih.symm
  | trans h h' ih ih' => exact ih.trans ih'

theorem typelistOf_eq (h : Regroup xs ys) : typelistOf xs = typelistOf ys := by
  rw [OpenMptl.typelistOf_eq, OpenMptl.typelistOf_eq, h.checkAll_eq, h.leavesAll_eq]

end Regroup

/-- A `typelist<>` whose `reglist<>` nodes compile is the list of its leaves; it does
not see how they are grouped, joins by concatenation, and is filtered part by part. -/
theorem typelist_eq_leaves :
    (∀ trees, typelistOf trees = (do checkAll trees; return leavesAll trees)) ∧
    (∀ xs ys, Regroup xs ys → typelistOf xs = typelistOf ys) ∧
    (∀ xs ys, typelistOf (xs ++ ys) =
        (do let ts ← typelistOf xs; let us ← typelistOf ys; return ts ++ us) ∧
      typelistOf [.node .typelist xs, .node .typelist ys] = typelistOf (xs ++ ys)) ∧
    (∀ (ts us : List Element) (condition : Element → Bool),
      Typelist.filter (ts ++ us) condition =
        Typelist.filter ts condition ++ Typelist.filter us condition) ∧
    (∀ (β : Type v) (isBaseOf : β → Element → Bool) (base : β) (ts us : List Element),
      Typelist.filterType isBaseOf base (ts ++ us) =
        Typelist.filterType isBaseOf base ts ++ Typelist.filterType isBaseOf base us) := by
  refine ⟨typelistOf_eq, fun xs ys h => h.typelistOf_eq, fun xs ys => ⟨?_, ?_⟩,
    Typelist.filter_append, ?_⟩
  · exact typelistOf_append xs ys
  · have hnodes := typelistOf_append [.node .typelist xs] [.node .typelist ys]
    rw [typelistOf_node, typelistOf_node] at hnodes
    exact hnodes.trans (typelistOf_append xs ys).symm
  · intro β isBaseOf base ts us
    exact Typelist.filter_append ts us (isBaseOf base)

namespace TypelistTest

def uniqA : Element := .other 0

def uniqB : Element := .other 1

/-- `typelist< void, uniq_a, typelist< typelist<uniq_b> >, typelist<void>, uniq_a >` -/
def nested : List (ListTree Element) :=
  [.void, .leaf uniqA, .node .typelist [.node .typelist [.leaf uniqB]],
    .node .typelist [.void], .leaf uniqA]

theorem typelist_eq_leaves_nested :
    typelistOf nested = .ok [uniqA, uniqB, uniqA] ∧
      typelistOf (.void :: nested) = .ok [uniqA, uniqB, uniqA] := by
  obtain ⟨hleaves, hregroup, -⟩ := typelist_eq_leaves.{0}
  have hnested : typelistOf nested = .ok [uniqA, uniqB, uniqA] := by
    rw [hleaves]
    rfl
  exact ⟨hnested, (hregroup _ _ (.void [] nested)).symm.trans hnested⟩

end TypelistTest

end OpenMptl
