import PartialEntity.Entity.Missing

/-!
# Narrowing an entity to a graph

Fields outside the graph are unloaded; under the fields that stay, every member is narrowed to the
subgraph attached there.  What the graph selects and the entity does not hold is ignored.

A change of an entity gives the entity as it is afterwards together with the result.  After an
error the changes made before it stand.
-/

namespace PartialEntity.Entity

variable {κ : Type}

def forFields (change : Nat → Entity κ → Entity κ × Except Error Unit) :
    List Nat → Entity κ → Entity κ × Except Error Unit
  | [], entity => (entity, pure ())
  | field :: rest, entity =>
    match change field entity with
    | (entity', .error stop) => (entity', .error stop)
    | (entity', .ok _) => forFields change rest entity'

variable [DecidableEq κ] [Catalog κ]

def forMembers (change : Entity κ → Entity κ × Except Error Unit) (field : Nat)
    (entity : Entity κ) : Entity κ × Except Error Unit :=
  match descend entity.kind field with
  | .error stop => (entity, .error stop)
  | .ok _ =>
    let (value, result) := (entity.slot field).forEach (fun _ leaf => change leaf) ()
    (entity.store field value, result)

mutual

/-- Narrows an entity to a graph. -/
def intersect : Graph κ → Entity κ → Entity κ × Except Error Unit
  | .node _ entries => fun entity =>
    let selected := FieldSet.ofList (entries.map (·.1))
    forFields
      (fun field entity =>
        match intersectMember field entries with
        | some change =>
          if (Catalog.nested? entity.kind field).isSome then forMembers change field entity
          else (entity, pure ())
        | none => (entity, pure ()))
      entity.held.toList (entity.clearFields (entity.held.diff selected))

/-- What to do with the members under a field, if the entries of a level select it.  Where nothing
is attached, members are left as references. -/
def intersectMember (field : Nat) : List (Nat × Option (Graph κ)) →
    Option (Entity κ → Entity κ × Except Error Unit)
  | [] => none
  | (other, none) :: rest =>
    if other = field then some fun member => (member.clearFields member.held, pure ())
    else intersectMember field rest
  | (other, some subgraph) :: rest =>
    if other = field then some (intersect subgraph) else intersectMember field rest

end

end PartialEntity.Entity
