import PartialEntity.Graph.Parser
import PartialEntity.Graph.Printer

/-!
# Field graphs inside documents

In a document a field graph is a text value, the text of the graph.  Values of any other form are
refused.
-/

namespace PartialEntity.Graph

/-- The forms that a value of a document can have, with the content of those that matter here. -/
inductive Document where
  | null
  | bool (value : Bool)
  | integer (value : Int)
  | text (value : String)
  | sequence
  | map
deriving DecidableEq, Repr

def Document.describe : Document → String
  | null => "null"
  | bool value => "boolean `" ++ toString value ++ "`"
  | integer value => "integer `" ++ toString value ++ "`"
  | text _ => "string"
  | sequence => "sequence"
  | map => "map"

variable {κ : Type} [DecidableEq κ] [Catalog κ]

def toDocument (graph : Graph κ) : Document :=
  .text graph.render

/-- Reads a graph over `kind` from a value.  The error is a message for the reader of the
document. -/
def ofDocument (kind : κ) : Document → Except String (Graph κ)
  | .text text => (parse kind text).mapError Error.message
  | other =>
    .error ("invalid type: " ++ other.describe ++ ", expected a field graph over " ++
      Catalog.kindName kind)

end PartialEntity.Graph
