import PartialEntity.Proofs.Tree.Traversal

/-!
# The order of trees is lawful

A tree is compared by its form and what it stores itself, and then child by child.  In this shape
the order is seen to be oriented and transitive whenever the order of members is.  Transitivity is
proved in the form in which it passes through lists: if neither of two steps goes down, their
composite is the first that goes up.
-/

namespace PartialEntity

open Std

/-! ## Scalars -/

namespace Scalar

private def number : Scalar → Nat
  | bool value => value.toNat
  | char value => value.toNat
  | _ => 0

private def string : Scalar → String
  | text value => value
  | _ => ""

private def int : Scalar → Int
  | integer value => value
  | _ => 0

private theorem compare_eq_lex (left right : Scalar) :
    left.compare right =
      compareLex (compareOn compare.rank)
        (compareLex (compareOn number) (compareLex (compareOn string) (compareOn int)))
        left right := by
  cases left <;> cases right <;> try rfl
  all_goals simp [compare, compareLex, compareOn, compare.rank, number, string, int]

instance : TransOrd Scalar where
  eq_swap := by
    intro left right
    change left.compare right = (right.compare left).swap
    rw [compare_eq_lex, compare_eq_lex]
    exact OrientedCmp.eq_swap
  isLE_trans := by
    intro left middle right hleft hright
    change (left.compare right).isLE = true
    change (left.compare middle).isLE = true at hleft
    change (middle.compare right).isLE = true at hright
    rw [compare_eq_lex] at *
    exact TransCmp.isLE_trans hleft hright

end Scalar

/-! ## Trees -/

namespace Tree

variable {α : Type}

/-- The trees directly under a tree; of a table each key before its value. -/
def children : Tree α → List (Tree α)
  | leaf _ | scalar _ | option none => []
  | option (some inner) => [inner]
  | sequence items | set _ items => items
  | table _ entries => entries.flatMap fun entry => [entry.1, entry.2]

private def member? : Tree α → Option α
  | leaf member => some member
  | _ => none

private def value : Tree α → Scalar
  | scalar value => value
  | _ => .unit

theorem induction_children {P : Tree α → Prop}
    (h : ∀ tree : Tree α, (∀ child ∈ tree.children, P child) → P tree) (tree : Tree α) :
    P tree := by
  induction tree with
  | leaf member => exact h _ (by simp [children])
  | scalar value => exact h _ (by simp [children])
  | none => exact h _ (by simp [children])
  | some inner ih => exact h _ (by simpa [children] using ih)
  | sequence items ih => exact h _ ih
  | set _ items ih => exact h _ ih
  | table _ entries ih =>
    refine h _ fun child hchild => ?_
    obtain ⟨entry, hentry, hchild⟩ := List.mem_flatMap.1 hchild
    rcases List.mem_cons.1 hchild with rfl | hchild
    · exact (ih entry hentry).1
    · rw [List.mem_singleton.1 hchild]
      exact (ih entry hentry).2

theorem children_map {β : Type} (f : α → β) (tree : Tree α) :
    (tree.map f).children = tree.children.map (map f) := by
  cases tree with
  | leaf | scalar => rfl
  | option inner => cases inner <;> rfl
  | sequence items | set _ items => exact mapAll_eq f items
  | table _ entries =>
    simp only [map, children, mapEntries_eq, List.flatMap_map, List.map_flatMap, List.map_cons,
      List.map_nil]

variable [Ord α]

def compareHead : Tree α → Tree α → Ordering :=
  compareLex (compareOn formRank) (compareLex (compareOn member?) (compareOn value))

instance [OrientedOrd α] : OrientedCmp (@compareHead α _) :=
  inferInstanceAs (OrientedCmp (compareLex _ _))

instance [TransOrd α] : TransCmp (@compareHead α _) :=
  inferInstanceAs (TransCmp (compareLex _ _))

theorem compareHead_map {β : Type} [Ord β] {f : α → β}
    (hf : ∀ left right, Ord.compare (f left) (f right) = Ord.compare left right)
    (left right : Tree α) : compareHead (left.map f) (right.map f) = compareHead left right := by
  have hrank : ∀ tree : Tree α, (tree.map f).formRank = tree.formRank := by
    intro tree
    cases tree with
    | option inner => cases inner <;> rfl
    | _ => rfl
  have hmember : ∀ tree : Tree α, (tree.map f).member? = tree.member?.map f := by
    intro tree
    cases tree with
    | option inner => cases inner <;> rfl
    | _ => rfl
  have hvalue : ∀ tree : Tree α, (tree.map f).value = tree.value := by
    intro tree
    cases tree with
    | option inner => cases inner <;> rfl
    | _ => rfl
  have hcompare : ∀ first second : Option α,
      Ord.compare (first.map f) (second.map f) = Ord.compare first second := by
    intro first second
    cases first <;> cases second <;> try rfl
    exact hf _ _
  simp only [compareHead, compareLex, compareOn, hrank, hmember, hvalue, hcompare]

theorem compareEntries_eq (left right : List (Tree α × Tree α)) :
    compareEntries left right =
      compareAll (left.flatMap fun entry => [entry.1, entry.2])
        (right.flatMap fun entry => [entry.1, entry.2]) := by
  induction left generalizing right with
  | nil => cases right <;> rfl
  | cons entry rest ih =>
    cases right with
    | nil => rfl
    | cons other others =>
      simp only [compareEntries, ih, List.flatMap_cons, List.cons_append, List.nil_append,
        compareAll, Ordering.then_assoc]

/-- Trees are compared by what they store themselves, then child by child. -/
theorem compare_eq (left right : Tree α) :
    left.compare right =
      (compareHead left right).then (compareAll left.children right.children) := by
  have hone : ∀ first second : Tree α,
      compareAll [first] [second] = first.compare second := fun first second =>
    Ordering.then_eq
  cases left with
  | leaf member =>
    cases right <;> try rfl
    simp [compare, compareHead, compareLex, compareOn, formRank, member?, value, children,
      compareAll]
    rfl
  | scalar stored =>
    cases right <;> try rfl
    simp [compare, compareHead, compareLex, compareOn, formRank, member?, value, children,
      compareAll]
    rfl
  | option inner =>
    rcases inner with _ | inner <;> cases right <;> try rfl
    · rename_i other
      cases other <;> rfl
    · rename_i other
      cases other with
      | none => rfl
      | some other => exact (hone inner other).symm
  | sequence items | set _ items => cases right <;> rfl
  | table _ entries =>
    cases right <;> try rfl
    exact compareEntries_eq _ _

private theorem compareAll_swap {left right : List (Tree α)}
    (h : ∀ item ∈ left, ∀ other, item.compare other = (other.compare item).swap) :
    compareAll left right = (compareAll right left).swap := by
  induction left generalizing right with
  | nil => cases right <;> rfl
  | cons item rest ih =>
    cases right with
    | nil => rfl
    | cons other others =>
      rw [List.forall_mem_cons] at h
      rw [compareAll, compareAll, Ordering.swap_then, ← h.1, ← ih h.2]

/-- Comparing two trees the other way round gives the opposite. -/
theorem compare_swap [OrientedOrd α] (left right : Tree α) :
    left.compare right = (right.compare left).swap := by
  induction left using induction_children generalizing right with
  | h left ih =>
    have hhead : compareHead left right = (compareHead right left).swap := OrientedCmp.eq_swap
    rw [compare_eq, compare_eq right, Ordering.swap_then, hhead, compareAll_swap ih]

/-- Two steps that do not go down make a step that is the first of them that goes up. -/
private theorem then_step {first second composite : Ordering} (hfirst : first.isLE = true)
    (hsecond : second.isLE = true) (hup : first = .lt ∨ second = .lt → composite = .lt)
    (heq : first = .eq → second = .eq → composite = .eq) : composite = first.then second := by
  cases first <;> cases second <;> simp_all

private theorem compareHead_step [TransOrd α] {left middle right : Tree α}
    (hleft : (compareHead left middle).isLE = true)
    (hright : (compareHead middle right).isLE = true) :
    compareHead left right = (compareHead left middle).then (compareHead middle right) := by
  refine then_step hleft hright ?_ ?_
  · rintro (hlt | hlt)
    · exact TransCmp.lt_of_lt_of_isLE hlt hright
    · exact TransCmp.lt_of_isLE_of_lt hleft hlt
  · intro hfirst hsecond
    rw [TransCmp.congr_left hfirst]
    exact hsecond

/-- The first differences of three lists compose if the comparisons of their items do. -/
private theorem then_then_step {first second third fourth composite rest : Ordering}
    (hleft : (first.then third).isLE = true) (hright : (second.then fourth).isLE = true)
    (hcomposite : first.isLE = true → second.isLE = true → composite = first.then second)
    (hrest : third.isLE = true → fourth.isLE = true → rest = third.then fourth) :
    composite.then rest = (first.then third).then (second.then fourth) := by
  cases first <;> cases second <;> cases third <;> simp_all

private theorem compareAll_step {left middle right : List (Tree α)}
    (h : ∀ item ∈ left, ∀ second third : Tree α, (item.compare second).isLE = true →
      (second.compare third).isLE = true →
      item.compare third = (item.compare second).then (second.compare third))
    (hleft : (compareAll left middle).isLE = true)
    (hright : (compareAll middle right).isLE = true) :
    compareAll left right = (compareAll left middle).then (compareAll middle right) := by
  induction left generalizing middle right with
  | nil =>
    cases middle with
    | nil => rfl
    | cons second middle =>
      cases right with
      | nil => cases hright
      | cons third right => rfl
  | cons item rest ih =>
    cases middle with
    | nil => cases hleft
    | cons second middle =>
      cases right with
      | nil => cases hright
      | cons third right =>
        rw [List.forall_mem_cons] at h
        exact then_then_step hleft hright (h.1 second third) (ih h.2)

theorem compare_step [TransOrd α] {left middle right : Tree α}
    (hleft : (left.compare middle).isLE = true) (hright : (middle.compare right).isLE = true) :
    left.compare right = (left.compare middle).then (middle.compare right) := by
  induction left using induction_children generalizing middle right with
  | h left ih =>
    rw [compare_eq] at hleft hright
    rw [compare_eq left right, compare_eq left middle, compare_eq middle right]
    exact then_then_step hleft hright compareHead_step
      (compareAll_step fun item hitem second third => ih item hitem)

instance [TransOrd α] : TransOrd (Tree α) where
  eq_swap := compare_swap _ _
  isLE_trans := by
    intro left middle right hleft hright
    change (left.compare right).isLE = true
    rw [compare_step hleft hright]
    cases hfirst : left.compare middle with
    | lt => rfl
    | eq => exact hright
    | gt =>
      change (left.compare middle).isLE = true at hleft
      rw [hfirst] at hleft
      cases hleft

end Tree

end PartialEntity
