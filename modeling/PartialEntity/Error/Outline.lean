import PartialEntity.Error
import PartialEntity.Text.Quoted

/-!
# Errors over several lines

The full structure of an error, one field a line, for a reader who needs more than the message.
Each level is indented by four spaces and every member ends in a comma.
-/

namespace PartialEntity

/-- A value laid out over lines. -/
inductive Outline where
  /-- A text on one line. -/
  | atom (text : String)
  /-- A name with named members in braces. -/
  | record (name : String) (members : List (String × Outline))
  /-- A name with one member in parentheses. -/
  | wrapped (name : String) (member : Outline)
  /-- Members in square brackets. -/
  | sequence (members : List Outline)

namespace Outline

private def shift (line : String) : String := "    " ++ line

/-- The lines of a member, `label` in front of the first and a comma behind the last. -/
private def member (label : String) (lines : List String) : List String :=
  match lines with
  | [] => []
  | first :: rest =>
    let labelled := (label ++ first) :: rest
    (labelled.dropLast ++ [labelled.getLastD "" ++ ","]).map shift

/-- Members between an opening and a closing line; nothing but the two marks when there is no
member. -/
private def enclose (opening closing : String) (members : List String) : List String :=
  if members.isEmpty then [opening ++ closing] else opening :: members ++ [closing]

mutual

def lines : Outline → List String
  | atom text => [text]
  | record name members => enclose (name ++ " \x7b") "\x7d" (memberLines members)
  | wrapped name inner => enclose (name ++ "(") ")" (member "" (lines inner))
  | sequence members => enclose "[" "]" (sequenceLines members)

def memberLines : List (String × Outline) → List String
  | [] => []
  | (label, inner) :: rest => member (label ++ ": ") (lines inner) ++ memberLines rest

def sequenceLines : List Outline → List String
  | [] => []
  | inner :: rest => member "" (lines inner) ++ sequenceLines rest

end

def render (outline : Outline) : String :=
  "\n".intercalate (lines outline)

end Outline

namespace Fault

open Outline Text

def outline : Fault → Outline
  | adhoc message => wrapped "Adhoc" (record "AdhocError" [("message", atom (quote message))])
  | foreign message => wrapped "Anyhow" (atom (quote message))
  | fieldUnavailable kind fields =>
    wrapped "FieldUnavailable" (record "FieldUnavailable"
      [("tag_type", atom (quote kind)),
        ("fields", sequence (fields.map fun field => atom (quote field)))])
  | entityUnavailable entity =>
    wrapped "EntityUnavailable" (record "EntityUnavailable" [("entity", atom (quote entity))])
  | unknownField kind name offset =>
    wrapped "UnknownField" (record "UnknownField"
      [("tag_type", atom (quote kind)), ("name", atom (quote name)),
        ("offset", atom (toString offset))])
  | graphSyntax message offset =>
    wrapped "GraphSyntax" (record "GraphSyntax"
      [("message", atom (quote message)), ("offset", atom (toString offset))])
  | typeMismatch field expected actual =>
    wrapped "TypeMismatch" (record "TypeMismatch"
      [("field", atom (quote field)), ("expected", atom (quote expected)),
        ("actual", atom (quote actual))])
  | unsupportedShape field content =>
    wrapped "UnsupportedShape" (record "UnsupportedShape"
      [("field", atom (quote field)), ("ty", atom (quote content))])
  | invalidConfiguration message =>
    wrapped "InvalidConfiguration"
      (record "InvalidConfiguration" [("message", atom (quote message))])
  | unknown => atom "Unknown"

/-- The structure of a chain that begins with this fault. -/
def outlineWith (fault : Fault) : List Fault → Outline
  | [] => record "Error" [("kind", fault.outline), ("cause", atom "None")]
  | next :: rest =>
    record "Error" [("kind", fault.outline), ("cause", wrapped "Some" (next.outlineWith rest))]

end Fault

def Error.outline (error : Error) : String :=
  (error.outer.outlineWith error.causes).render

end PartialEntity
