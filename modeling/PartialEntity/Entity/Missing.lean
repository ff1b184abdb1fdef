import PartialEntity.Entity.Basic
import PartialEntity.Graph.Printer

/-!
# What an entity lacks

The missing graph of an entity is the part of a graph that it does not hold.  A field that is not
loaded contributes everything asked for under it; under a loaded field the gaps of all members are
united.
-/

namespace PartialEntity.Entity

variable {κ : Type} [DecidableEq κ] [Catalog κ]

/-- The kind of the members under a field.  Fails if the field stores something that cannot have
members, or members of another kind than it declares. -/
def descend (kind : κ) (field : Nat) : Except Error κ :=
  match Catalog.content? kind field with
  | some (.nested member shape) => do
    if shape.isOpaque then
      Fault.raise
        (.unsupportedShape (Catalog.fieldName kind field) (shape.name Catalog.kindName))
    Graph.checkNested kind field member
    pure member
  | _ => Fault.raise (.unsupportedShape (Catalog.fieldName kind field) "a scalar value")

mutual

/-- The part of a graph that an entity does not hold. -/
def missingGraph : Graph κ → Entity κ → Except Error (Graph κ)
  | .node _ entries => fun entity => do
    let gap ← missingEntries entries entity (.none entity.kind)
    pure gap.normalize

def missingEntries : List (Nat × Option (Graph κ)) → Entity κ → Graph κ →
    Except Error (Graph κ)
  | [], _, gap => pure gap
  | (field, subgraph) :: rest, entity, gap => do
    let gap ←
      if entity.hasField field then missingUnder subgraph entity field gap
      else pure (gap.insertEntry field subgraph)
    missingEntries rest entity gap

def missingUnder : Option (Graph κ) → Entity κ → Nat → Graph κ → Except Error (Graph κ)
  | none, _, _, gap => pure gap
  | some subgraph, entity, field, gap =>
    if subgraph.isEmpty then pure gap
    else do
      let member ← descend entity.kind field
      let lacking ← (entity.slot field).leaves.foldlM
        (fun (lacking : Graph κ) leaf => do
          pure (lacking.merge (← missingGraph subgraph leaf)))
        (Graph.none member)
      pure (if lacking.isEmpty then gap else gap.insertEntry field (some lacking.normalize))

end

/-- Whether an entity holds everything that a graph selects, at every depth. -/
def hasGraph (entity : Entity κ) (graph : Graph κ) : Except Error Bool := do
  pure (← missingGraph graph entity).isEmpty

end PartialEntity.Entity
