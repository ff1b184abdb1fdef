import PartialEntity.Graph.Basic

/-!
# The text of a field graph

Field names separated by commas; a subgraph stands in braces behind its field.  Subgraphs that
select nothing are not written.
-/

namespace PartialEntity.Graph

variable {κ : Type} [Catalog κ]

mutual

def render : Graph κ → String
  | node kind entries => ",".intercalate (renderEntries kind entries)

def renderEntries (kind : κ) : List (Nat × Option (Graph κ)) → List String
  | [] => []
  | (field, subgraph) :: rest =>
    (Catalog.fieldName kind field ++ renderAttached subgraph) :: renderEntries kind rest

def renderAttached : Option (Graph κ) → String
  | .none => ""
  | some subgraph => if subgraph.isEmpty then "" else "\x7b" ++ render subgraph ++ "\x7d"

end

def describe (graph : Graph κ) : String :=
  "FieldGraph<" ++ Catalog.kindName graph.kind ++ ">(" ++ graph.render ++ ")"

end PartialEntity.Graph
