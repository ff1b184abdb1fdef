import PartialEntity.Assoc
import PartialEntity.Error
import PartialEntity.FieldSet

/-!
# Field graphs

A field graph selects fields of one kind and, under fields that declare a nested kind, fields of
that kind, to any depth.  The order of a level is the order in which its fields first came in; it
shows in the text of a graph and nowhere else.
-/

namespace PartialEntity

/-- A recursive selection of fields.  Each entry is a field ordinal and the subgraph attached to
it, if any. -/
inductive Graph (κ : Type) where
  | node (kind : κ) (entries : List (Nat × Option (Graph κ)))

namespace Graph

variable {κ : Type}

def kind : Graph κ → κ
  | node kind _ => kind

def entries : Graph κ → List (Nat × Option (Graph κ))
  | node _ entries => entries

def none (kind : κ) : Graph κ :=
  node kind []

def isEmpty (graph : Graph κ) : Bool :=
  graph.entries.isEmpty

def size (graph : Graph κ) : Nat :=
  graph.entries.length

def contains (graph : Graph κ) (field : Nat) : Bool :=
  Assoc.contains field graph.entries

def toList (graph : Graph κ) : List Nat :=
  graph.entries.map (·.1)

def fields (graph : Graph κ) : FieldSet :=
  FieldSet.ofList graph.toList

def attached? (graph : Graph κ) (field : Nat) : Option (Graph κ) :=
  (Assoc.find? field graph.entries).join

/-- Whether a subgraph that selects something is attached to a field. -/
def hasSubgraph (graph : Graph κ) (field : Nat) : Bool :=
  (graph.attached? field).any fun subgraph => !subgraph.isEmpty

/-! ## Union -/

mutual

/-- The union of two graphs of one kind, at every depth.  Fields of the first keep their places,
new ones follow in the order of the second. -/
def merge (graph : Graph κ) : Graph κ → Graph κ
  | node _ added => node graph.kind (mergeEntries graph.entries added)

def mergeEntries (present : List (Nat × Option (Graph κ))) :
    List (Nat × Option (Graph κ)) → List (Nat × Option (Graph κ))
  | [] => present
  | (field, subgraph) :: rest =>
    mergeEntries (Assoc.alter field (fun old => mergeAttached old.join subgraph) present) rest

def mergeAttached (old : Option (Graph κ)) : Option (Graph κ) → Option (Graph κ)
  | .none => old
  | some added =>
    match old with
    | .none => some added
    | some present => some (merge present added)

end

/-- Selects a field, with what is under it united with `subgraph`. -/
def insertEntry (graph : Graph κ) (field : Nat) (subgraph : Option (Graph κ)) : Graph κ :=
  node graph.kind
    (Assoc.alter field (fun old => mergeAttached old.join subgraph) graph.entries)

/-- Selects a field, without changing what is attached to it. -/
def add (graph : Graph κ) (field : Nat) : Graph κ :=
  graph.insertEntry field .none

/-! ## Normal form -/

mutual

/-- Detaches subgraphs that select nothing, so that every selection has one form. -/
def normalize : Graph κ → Graph κ
  | node kind entries => node kind (normalizeEntries entries)

def normalizeEntries : List (Nat × Option (Graph κ)) → List (Nat × Option (Graph κ))
  | [] => []
  | (field, subgraph) :: rest => (field, normalizeAttached subgraph) :: normalizeEntries rest

def normalizeAttached : Option (Graph κ) → Option (Graph κ)
  | .none => .none
  | some subgraph =>
    let normal := normalize subgraph
    if normal.isEmpty then .none else some normal

end

/-! ## Comparison -/

mutual

/-- Whether every selection of the first graph is one of the second, at every depth. -/
def isSubset : Graph κ → Graph κ → Bool
  | node _ entries, other => entriesSubset entries other

def entriesSubset : List (Nat × Option (Graph κ)) → Graph κ → Bool
  | [], _ => true
  | (field, subgraph) :: rest, other =>
    other.contains field && attachedSubset subgraph (other.attached? field) &&
      entriesSubset rest other

def attachedSubset : Option (Graph κ) → Option (Graph κ) → Bool
  | .none, _ => true
  | some subgraph, .none => subgraph.isEmpty
  | some subgraph, some other => isSubset subgraph other

end

variable [DecidableEq κ]

mutual

/-- Whether two graphs select the same.  Order does not matter, and neither does the difference
between an empty subgraph and none. -/
def equal : Graph κ → Graph κ → Bool
  | node kind entries, other =>
    kind == other.kind && entries.length == other.size && entriesEqual entries other

def entriesEqual : List (Nat × Option (Graph κ)) → Graph κ → Bool
  | [], _ => true
  | (field, subgraph) :: rest, other =>
    other.contains field && attachedEqual subgraph (other.attached? field) &&
      entriesEqual rest other

def attachedEqual : Option (Graph κ) → Option (Graph κ) → Bool
  | some subgraph, some other => equal subgraph other
  | some subgraph, .none => subgraph.isEmpty
  | .none, some other => other.isEmpty
  | .none, .none => true

end

instance : BEq (Graph κ) := ⟨equal⟩

/-! ## Construction and extraction -/

variable [Catalog κ]

/-- The listed fields without subgraphs, each once, in the order of their first mention. -/
def ofList (kind : κ) (fields : List Nat) : Graph κ :=
  fields.foldl add (none kind)

/-- The fields of a set without subgraphs, in declaration order. -/
def ofSet (kind : κ) (fields : FieldSet) : Graph κ :=
  ofList kind fields.toList

def all (kind : κ) : Graph κ :=
  ofSet kind (FieldSet.all kind)

def complementOf (kind : κ) (fields : List Nat) : Graph κ :=
  ofSet kind (FieldSet.complementOf kind fields)

/-- Checks that a field declares `actual` as the kind nested under it. -/
def checkNested (kind : κ) (field : Nat) (actual : κ) : Except Error Unit :=
  match Catalog.nested? kind field with
  | some declared =>
    if declared = actual then pure ()
    else Fault.raise (.typeMismatch (Catalog.fieldName kind field) (Catalog.kindName declared)
      (Catalog.kindName actual))
  | .none =>
    Fault.raise (.typeMismatch (Catalog.fieldName kind field) "no nested type"
      (Catalog.kindName actual))

/-- The subgraph of a field, read over the kind `nested`; a field without one has the empty graph.
Fails unless the field declares that kind. -/
def subgraph (graph : Graph κ) (field : Nat) (nested : κ) : Except Error (Graph κ) := do
  checkNested graph.kind field nested
  pure ((graph.attached? field).getD (none nested))

end Graph

end PartialEntity
