import PartialEntity.Graph.Printer

/-!
# Building field graphs

A builder accumulates selections and gives the graph of them on demand.  Until then it may hold
subgraphs that select nothing.  Adding a field unites what is under it with the new subgraph; only
`set` replaces a subtree.  A step that fails gives no builder, so the one before it stays in use.
-/

namespace PartialEntity.Graph

/-- A graph in the making, over one kind. -/
structure Builder (κ : Type) where
  /-- What was selected so far, not in normal form. -/
  graph : Graph κ

namespace Builder

variable {κ : Type}

def empty (kind : κ) : Builder κ := ⟨Graph.none kind⟩

def ofGraph (graph : Graph κ) : Builder κ := ⟨graph⟩

def add (builder : Builder κ) (field : Nat) : Builder κ :=
  ⟨builder.graph.add field⟩

def addAll (builder : Builder κ) (fields : List Nat) : Builder κ :=
  fields.foldl add builder

def merge (builder : Builder κ) (graph : Graph κ) : Builder κ :=
  ⟨builder.graph.merge graph⟩

def remove (builder : Builder κ) (field : Nat) : Builder κ :=
  ⟨node builder.graph.kind (Assoc.erase field builder.graph.entries)⟩

def contains (builder : Builder κ) (field : Nat) : Bool :=
  builder.graph.contains field

def isEmpty (builder : Builder κ) : Bool :=
  builder.graph.isEmpty

def build (builder : Builder κ) : Graph κ :=
  builder.graph.normalize

variable [DecidableEq κ] [Catalog κ]

/-- Adds a field with a subgraph, which must be over the kind that the field declares. -/
def addGraph (builder : Builder κ) (field : Nat) (subgraph : Graph κ) :
    Except Error (Builder κ) := do
  checkNested builder.graph.kind field subgraph.kind
  pure ⟨builder.graph.insertEntry field (some subgraph)⟩

/-- Adds the field if it is absent and replaces what is under it.  A subgraph must be over the kind
that the field declares. -/
def set (builder : Builder κ) (field : Nat) (subgraph : Option (Graph κ)) :
    Except Error (Builder κ) := do
  if let some graph := subgraph then
    checkNested builder.graph.kind field graph.kind
  pure ⟨node builder.graph.kind (Assoc.insert field subgraph builder.graph.entries)⟩

def describe (builder : Builder κ) : String :=
  "Builder<" ++ Catalog.kindName builder.graph.kind ++ ">(" ++ builder.graph.render ++ ")"

end Builder

end PartialEntity.Graph
