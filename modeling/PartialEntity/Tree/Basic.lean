import PartialEntity.Shape

/-!
# Trees of members

The value stored in a field: members, scalars and containers of these, nested in any way.  Every
recursive operation on entities reaches the members of a field through the traversals here.  A
traversal changes members where they stand; `PartialEntity.Tree.Rebuild` puts containers in order
again whose members may have become equal or changed places.

A hashed container is kept in some order like the others, the one in which a traversal meets its
members.  What is said of order anywhere says nothing of hashed containers: there it is only a way
to say which members they have.
-/

namespace PartialEntity

/-- A stored value whose members are of type `α`. -/
inductive Tree (α : Type) where
  /-- A single member. -/
  | leaf (member : α)
  /-- A value without members. -/
  | scalar (value : Scalar)
  /-- At most one value. -/
  | option (value : Option (Tree α))
  /-- Values in order, equal ones included. -/
  | sequence (items : List (Tree α))
  /-- Values that differ from one another. -/
  | set (arrangement : Arrangement) (items : List (Tree α))
  /-- Values under keys that differ from one another. -/
  | table (arrangement : Arrangement) (entries : List (Tree α × Tree α))

namespace Tree

variable {α β : Type}

/-! ## Members -/

mutual

/-- The members of a tree, in the order in which traversals meet them. -/
def leaves : Tree α → List α
  | leaf member => [member]
  | scalar _ => []
  | option none => []
  | option (some inner) => leaves inner
  | sequence items => leavesAll items
  | set _ items => leavesAll items
  | table _ entries => leavesEntries entries

def leavesAll : List (Tree α) → List α
  | [] => []
  | item :: rest => leaves item ++ leavesAll rest

/-- The members of table entries, each key before its value. -/
def leavesEntries : List (Tree α × Tree α) → List α
  | [] => []
  | (key, value) :: rest => leaves key ++ leaves value ++ leavesEntries rest

end

/-! ## Replacing members -/

mutual

def map (f : α → β) : Tree α → Tree β
  | leaf member => leaf (f member)
  | scalar value => scalar value
  | option none => option none
  | option (some inner) => option (some (map f inner))
  | sequence items => sequence (mapAll f items)
  | set arrangement items => set arrangement (mapAll f items)
  | table arrangement entries => table arrangement (mapEntries f entries)

def mapAll (f : α → β) : List (Tree α) → List (Tree β)
  | [] => []
  | item :: rest => map f item :: mapAll f rest

def mapEntries (f : α → β) : List (Tree α × Tree α) → List (Tree β × Tree β)
  | [] => []
  | (key, value) :: rest => (map f key, map f value) :: mapEntries f rest

end

section Traverse

variable {m : Type → Type} [Monad m]

mutual

/-- Replaces every member by the result of an action, first to last. -/
def traverse (f : α → m β) : Tree α → m (Tree β)
  | leaf member => do return leaf (← f member)
  | scalar value => pure (scalar value)
  | option none => pure (option none)
  | option (some inner) => do return option (some (← traverse f inner))
  | sequence items => do return sequence (← traverseAll f items)
  | set arrangement items => do return set arrangement (← traverseAll f items)
  | table arrangement entries => do return table arrangement (← traverseEntries f entries)

def traverseAll (f : α → m β) : List (Tree α) → m (List (Tree β))
  | [] => pure []
  | item :: rest => do
    let item' ← traverse f item
    let rest' ← traverseAll f rest
    return item' :: rest'

def traverseEntries (f : α → m β) : List (Tree α × Tree α) → m (List (Tree β × Tree β))
  | [] => pure []
  | (key, value) :: rest => do
    let key' ← traverse f key
    let value' ← traverse f value
    let rest' ← traverseEntries f rest
    return (key', value') :: rest'

end

end Traverse

/-! ## Changing members in place

A visitor changes the member it is given and says with which state to go on, or with which error
to stop.  The change stands in both cases; after an error the members that follow stay as they
are. -/

section Visit

variable {σ ε : Type}

mutual

/-- Visits the members of a tree in place. -/
def visit (f : σ → α → α × Except ε σ) (state : σ) : Tree α → Tree α × Except ε σ
  | leaf member =>
    let (member', next) := f state member
    (leaf member', next)
  | scalar value => (scalar value, .ok state)
  | option none => (option none, .ok state)
  | option (some inner) =>
    let (inner', next) := visit f state inner
    (option (some inner'), next)
  | sequence items =>
    let (items', next) := visitAll f state items
    (sequence items', next)
  | set arrangement items =>
    let (items', next) := visitAll f state items
    (set arrangement items', next)
  | table arrangement entries =>
    let (entries', next) := visitEntries f state entries
    (table arrangement entries', next)

def visitAll (f : σ → α → α × Except ε σ) (state : σ) :
    List (Tree α) → List (Tree α) × Except ε σ
  | [] => ([], .ok state)
  | item :: rest =>
    match visit f state item with
    | (item', .error stop) => (item' :: rest, .error stop)
    | (item', .ok next) =>
      let (rest', last) := visitAll f next rest
      (item' :: rest', last)

def visitEntries (f : σ → α → α × Except ε σ) (state : σ) :
    List (Tree α × Tree α) → List (Tree α × Tree α) × Except ε σ
  | [] => ([], .ok state)
  | (key, value) :: rest =>
    match visit f state key with
    | (key', .error stop) => ((key', value) :: rest, .error stop)
    | (key', .ok next) =>
      match visit f next value with
      | (value', .error stop) => ((key', value') :: rest, .error stop)
      | (value', .ok next') =>
        let (rest', last) := visitEntries f next' rest
        ((key', value') :: rest', last)

end

end Visit

end Tree

end PartialEntity
