import PartialEntity.Tree.Basic

/-!
# Order of trees and rebuilding of containers

Trees inherit the order of their members: containers are compared member by member.  Two trees are
equal for a container when the order says so.

A container whose members were changed is rebuilt, from the inside out.  Rebuilding drops members
that have become equal to others and puts sorted containers back in order; where nothing became
equal or changed places, it changes nothing.
-/

namespace PartialEntity.Tree

variable {α : Type}

/-! ## Order -/

section Order

variable [Ord α]

/-- The place of a form of tree among the others.  Values of one shape never differ in form. -/
def formRank : Tree α → Nat
  | leaf _ => 0
  | scalar _ => 1
  | option _ => 2
  | sequence _ => 3
  | set _ _ => 4
  | table _ _ => 5

mutual

def compare : Tree α → Tree α → Ordering
  | leaf left, leaf right => Ord.compare left right
  | scalar left, scalar right => Ord.compare left right
  | option none, option none => .eq
  | option none, option (some _) => .lt
  | option (some _), option none => .gt
  | option (some left), option (some right) => compare left right
  | sequence left, sequence right => compareAll left right
  | set _ left, set _ right => compareAll left right
  | table _ left, table _ right => compareEntries left right
  | left, right => Ord.compare left.formRank right.formRank

/-- The order of lists of trees: the first difference decides, then the length. -/
def compareAll : List (Tree α) → List (Tree α) → Ordering
  | [], [] => .eq
  | [], _ :: _ => .lt
  | _ :: _, [] => .gt
  | left :: lefts, right :: rights => (compare left right).then (compareAll lefts rights)

/-- The order of table entries: keys before values, the first difference decides. -/
def compareEntries : List (Tree α × Tree α) → List (Tree α × Tree α) → Ordering
  | [], [] => .eq
  | [], _ :: _ => .lt
  | _ :: _, [] => .gt
  | (leftKey, leftValue) :: lefts, (rightKey, rightValue) :: rights =>
    ((compare leftKey rightKey).then (compare leftValue rightValue)).then
      (compareEntries lefts rights)

end

instance : Ord (Tree α) := ⟨compare⟩

end Order

/-! ## Insertion into a container -/

section Insert

variable {β : Type}

/-- Inserts `new` into a container.  If a member equal to it is there already, `join` makes one of
the two, in the place of the old one.  A hashed container, whose places mean nothing, is listed in
order of insertion. -/
def insertBy (arrangement : Arrangement) (order : β → β → Ordering) (join : β → β → β)
    (new : β) : List β → List β
  | [] => [new]
  | old :: rest =>
    match order new old with
    | .eq => join old new :: rest
    | .lt =>
      match arrangement with
      | .sorted => new :: old :: rest
      | _ => old :: insertBy arrangement order join new rest
    | .gt => old :: insertBy arrangement order join new rest

def insertAllBy (arrangement : Arrangement) (order : β → β → Ordering) (join : β → β → β)
    (members : List β) : List β :=
  members.foldl (fun present new => insertBy arrangement order join new present) []

end Insert

/-! ## Rebuilding -/

/-- How members get back into their container. -/
inductive Rebuild where
  /-- One by one.  Of equal members the first stays; a later value replaces an earlier one under
  the earlier key. -/
  | inserted
  /-- All at once.  As one by one, but a sorted container keeps the last of equal members, and
  the last of equal keys with its value. -/
  | collected
deriving DecidableEq, Repr

namespace Rebuild

/-- What remains of an old member and a new one equal to it. -/
def joinMembers (rebuild : Rebuild) (arrangement : Arrangement) (old new : α) : α :=
  match rebuild, arrangement with
  | .collected, .sorted => new
  | _, _ => old

def joinEntries {β : Type} (rebuild : Rebuild) (arrangement : Arrangement) (old new : α × β) :
    α × β :=
  match rebuild, arrangement with
  | .collected, .sorted => new
  | _, _ => (old.1, new.2)

end Rebuild

variable [Ord α]

mutual

/-- Rebuilds every container of a tree. -/
def rebuild (how : Rebuild) : Tree α → Tree α
  | leaf member => leaf member
  | scalar value => scalar value
  | option none => option none
  | option (some inner) => option (some (rebuild how inner))
  | sequence items => sequence (rebuildAll how items)
  | set arrangement items =>
    set arrangement
      (insertAllBy arrangement Ord.compare (how.joinMembers arrangement) (rebuildAll how items))
  | table arrangement entries =>
    table arrangement
      (insertAllBy arrangement (fun left right => Ord.compare left.1 right.1)
        (how.joinEntries arrangement) (rebuildEntries how entries))

def rebuildAll (how : Rebuild) : List (Tree α) → List (Tree α)
  | [] => []
  | item :: rest => rebuild how item :: rebuildAll how rest

def rebuildEntries (how : Rebuild) : List (Tree α × Tree α) → List (Tree α × Tree α)
  | [] => []
  | (key, value) :: rest => (rebuild how key, rebuild how value) :: rebuildEntries how rest

end

/-! ## Traversals that keep containers in order -/

/-- Applies an action to every member and collects the results in containers of the same
arrangement. -/
def mapM {m : Type → Type} [Monad m] (f : α → m α) (tree : Tree α) : m (Tree α) := do
  return (← tree.traverse f).rebuild .collected

/-- Changes members in place and puts the members of containers back one by one, also when the
visitor stopped early. -/
def forEach {σ ε : Type} (f : σ → α → α × Except ε σ) (state : σ) (tree : Tree α) :
    Tree α × Except ε σ :=
  let (tree', result) := tree.visit f state
  (tree'.rebuild .inserted, result)

end PartialEntity.Tree
