import PartialEntity.Entity.Clone
import PartialEntity.Entity.Describe
import PartialEntity.Entity.Intersect

/-!
# Extending an entity

An entity is extended by merging a second one of the same identity into it.  Fields that only the
extension holds are copied; under fields that both hold and to which the graph attaches a
subgraph, every member is extended by the member of the extension that is the same.

`extend` asks for exactly what is missing, and only if something is.
-/

namespace PartialEntity.Entity

variable {κ : Type} [DecidableEq κ] [Catalog κ]

mutual

/-- Merges an extension into an entity, the fields of the extension in declaration order. -/
def extendWith : Graph κ → Entity κ → Entity κ → Entity κ × Except Error Unit
  | .node kind entries => fun extension entity =>
    forFields
      (fun field entity =>
        if entity.hasField field then
          match extendMember kind field entries with
          | some change => forMembers (change (extension.slot field).leaves) field entity
          | none => (entity, pure ())
        else
          let graph := Graph.node kind entries
          match entity.pull field extension (if graph.contains field then some graph else none)
          with
          | .error stop => (entity, .error stop)
          | .ok entity' => (entity', pure ()))
      extension.held.toList entity

/-- How to extend a member under a field of the kind `owner` by the first of the candidates that is
the same, if the entries of a level attach something to the field. -/
def extendMember (owner : κ) (field : Nat) : List (Nat × Option (Graph κ)) →
    Option (List (Entity κ) → Entity κ → Entity κ × Except Error Unit)
  | [] => none
  | (other, none) :: rest => if other = field then none else extendMember owner field rest
  | (other, some subgraph) :: rest =>
    if other = field then
      if subgraph.isEmpty then none
      else some fun candidates member =>
        match candidates.find? fun candidate => candidate.same member with
        | some candidate => extendWith subgraph candidate member
        | none =>
          (member, Fault.raise (.entityUnavailable
            (Catalog.kindName member.kind ++ " " ++ member.describe ++
              " is missing from the extension of `" ++ Catalog.fieldName owner field ++ "`")))
    else extendMember owner field rest

end

structure Extended (κ : Type) where
  /-- The entity afterwards, also when the attempt failed. -/
  entity : Entity κ
  /-- Whether anything was merged. -/
  result : Except Error Bool
  /-- What was asked for, if anything was. -/
  asked : Option (Graph κ)

/-- Merges the answer to a request for `missing`.  An answer that holds less than that is refused
before anything changes. -/
def absorb (entity : Entity κ) (missing : Graph κ) (answer : Except Error (Option (Entity κ))) :
    Entity κ × Except Error Bool :=
  match answer with
  | .error stop => (entity, .error stop)
  | .ok none =>
    (entity, Fault.raise (.entityUnavailable
      (Catalog.kindName entity.kind ++ " with \x7b" ++ missing.render ++ "\x7d")))
  | .ok (some extension) =>
    match missingGraph missing extension with
    | .error stop => (entity, .error stop)
    | .ok lacking =>
      if lacking.isEmpty then
        let (entity', result) := extendWith missing extension entity
        (entity', result.map fun _ => true)
      else
        (entity, Fault.raise (.entityUnavailable
          (Catalog.kindName entity.kind ++ " extension lacks \x7b" ++ lacking.render ++ "\x7d")))

/-- Asks for what the entity lacks of a graph and merges the answer.  Nothing is asked for when
nothing is missing. -/
def extend (entity : Entity κ) (graph : Graph κ)
    (resolve : Graph κ → Except Error (Option (Entity κ))) : Extended κ :=
  match missingGraph graph entity with
  | .error stop => ⟨entity, .error stop, none⟩
  | .ok missing =>
    if missing.isEmpty then ⟨entity, .ok false, none⟩
    else
      let (entity', result) := entity.absorb missing (resolve missing)
      ⟨entity', result, some missing⟩

end Entity

/-- Looks entities of one kind up by id.  An answer holds at least the graph asked for; there is
none when no entity has the id. -/
abbrev Resolver (κ : Type) := Nat → Graph κ → Except Error (Option (Entity κ))

namespace Resolver

variable {κ : Type}

def exists? (resolver : Resolver κ) (kind : κ) (id : Nat) : Except Error Bool := do
  pure (← resolver id (.none kind)).isSome

end Resolver

namespace Entity

variable {κ : Type} [DecidableEq κ] [Catalog κ]

def absent {α : Type} (kind : κ) (id : Nat) : Except Error α :=
  Fault.raise (.entityUnavailable (label kind id))

def extendFrom (entity : Entity κ) (graph : Graph κ) (resolver : Resolver κ) : Extended κ :=
  entity.extend graph fun missing =>
    match resolver entity.id missing with
    | .ok none => absent entity.kind entity.id
    | answer => answer

/-- Extends an entity by an answer that arrives later: the gap is computed and asked for first, and
once more when the answer is there to be merged. -/
def extendDeferred (entity : Entity κ) (graph : Graph κ) (resolver : Resolver κ) : Extended κ :=
  match missingGraph graph entity with
  | .error stop => ⟨entity, .error stop, none⟩
  | .ok missing =>
    if missing.isEmpty then ⟨entity, .ok false, none⟩
    else
      match resolver entity.id missing with
      | .error stop => ⟨entity, .error stop, some missing⟩
      | .ok none => ⟨entity, absent entity.kind entity.id, some missing⟩
      | .ok (some extension) =>
        { entity.extend graph (fun _ => .ok (some extension)) with asked := some missing }

end Entity

end PartialEntity
