import PartialEntity.Entity.Basic
import PartialEntity.Graph.Basic

/-!
# Copying

Copies hold exactly what was asked for and store the values of a fresh reference elsewhere.  Trees
are copied member by member: in full, or through the subgraph that a graph attaches to the field.
A copy through a graph needs the field to declare the kind of members that it stores, whether or
not the graph attaches anything.
-/

namespace PartialEntity.Entity

variable {κ : Type} [Catalog κ]

/-- The copy that holds everything the entity holds, at every depth. -/
def cloneAll : Entity κ → Entity κ :=
  fold fun kind id held slots =>
    ⟨kind, id, held, slots.mapIdx fun field value =>
      if held.contains field then value.rebuild .collected else emptySlot kind field⟩

variable [DecidableEq κ]

mutual

/-- The copy that holds exactly what a graph selects.  Fails if the entity or a member that the
graph reaches lacks something selected there. -/
def cloneGraph : Graph κ → Entity κ → Except Error (Entity κ)
  | .node _ entries => fun entity => do
    entity.ensureFields (.ofList (entries.map (·.1)))
    cloneEntries entries entity entity.reference

/-- Copies the selected fields of one level into `copy`, in the order of the graph. -/
def cloneEntries : List (Nat × Option (Graph κ)) → Entity κ → Entity κ →
    Except Error (Entity κ)
  | [], _, copy => pure copy
  | (field, subgraph) :: rest, entity, copy => do
    let value ← match Catalog.content? entity.kind field with
      | some (.nested member _) => do
        Graph.checkNested entity.kind field member
        (entity.slot field).mapM (cloneMember subgraph)
      | _ => pure (entity.slot field)
    cloneEntries rest entity (copy.assign field value)

/-- Copies a member through what is attached to its field; through nothing, a reference is left. -/
def cloneMember : Option (Graph κ) → Entity κ → Except Error (Entity κ)
  | none => fun member => pure member.reference
  | some subgraph => cloneGraph subgraph

end

/-- Copies a tree of members of kind `member` for storage in `field`, through the subgraph that a
graph attaches to the field or, without a graph, in full. -/
def cloneTree (tree : Tree (Entity κ)) (member : κ) (field : Nat) (graph : Option (Graph κ)) :
    Except Error (Tree (Entity κ)) :=
  match graph with
  | none => pure ((tree.map cloneAll).rebuild .collected)
  | some graph => do
    let subgraph ← graph.subgraph field member
    tree.mapM (cloneGraph subgraph)

/-- Copies the value of one field from another entity and counts the field as loaded.  The identity
field brings the other's id.  Members are copied through a graph, or in full without one; if that
fails nothing changes. -/
def pull (entity : Entity κ) (field : Nat) (other : Entity κ) (graph : Option (Graph κ)) :
    Except Error (Entity κ) :=
  match Catalog.content? entity.kind field with
  | some .identity => pure ({ entity with id := other.id }.mark field)
  | some (.nested member _) => do
    let value ← cloneTree (other.slot field) member field graph
    pure (entity.assign field value)
  | _ => pure (entity.assign field (other.slot field))

def pullWhole (entity : Entity κ) (field : Nat) (other : Entity κ) : Entity κ :=
  match Catalog.content? entity.kind field with
  | some .identity => { entity with id := other.id }.mark field
  | some (.nested _ _) =>
    entity.assign field (((other.slot field).map cloneAll).rebuild .collected)
  | _ => entity.assign field (other.slot field)

theorem pull_none (entity : Entity κ) (field : Nat) (other : Entity κ) :
    entity.pull field other none = .ok (entity.pullWhole field other) := by
  unfold pull pullWhole
  split <;> rfl

def pullAll (entity other : Entity κ) : Entity κ :=
  other.held.toList.foldl (fun copy field => copy.pullWhole field other) entity

/-- Copies the listed fields in full from another entity, which must hold all of them. -/
def pullFields (entity other : Entity κ) (fields : FieldSet) : Except Error (Entity κ) := do
  other.ensureFields fields
  pure (fields.toList.foldl (fun copy field => copy.pullWhole field other) entity)

/-- The copy that holds the entity's fields with every member reduced to a reference. -/
def cloneFlat (entity : Entity κ) : Except Error (Entity κ) :=
  cloneGraph (.ofSet entity.kind entity.held) entity

end PartialEntity.Entity
