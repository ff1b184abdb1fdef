import PartialEntity.Graph.Basic
import PartialEntity.Graph.Name
import PartialEntity.Text.Blank

/-!
# Reading a field graph

A graph is a list of items separated by commas; an item is a field name, and behind a field that
declares a nested kind there may be a graph over that kind in braces.  Blanks are allowed only
where nothing else stands.  Fields repeated at one level are united at the place of the first.

Errors carry an offset in characters from the start of the text.  The reader keeps the characters
still to be read; an offset is the length of the text less what is left.
-/

namespace PartialEntity.Graph

/-! ## Items -/

variable {κ : Type} [DecidableEq κ] [Catalog κ]

/-- What is left of a text after something was read off its front. -/
abbrev Shorter (text : List Char) :=
  { rest : List Char // rest.length < text.length }

/-- What is left of a text after something was perhaps read off its front. -/
abbrev NotLonger (text : List Char) :=
  { rest : List Char // rest.length ≤ text.length }

def NotLonger.whole (text : List Char) : NotLonger text :=
  ⟨text, Nat.le_refl _⟩

def NotLonger.behind (c : Char) {text : List Char} (rest : Shorter text) : NotLonger (c :: text) :=
  ⟨rest.1, by
    have := rest.2
    simp only [List.length_cons]
    omega⟩

def NotLonger.closed (opening : Char) {text : List Char} (rest : Shorter text) {closing : Char}
    {after : List Char} (hclose : rest.1 = closing :: after) : NotLonger (opening :: text) :=
  ⟨after, by
    have hrest := rest.2
    simp only [hclose, List.length_cons] at hrest ⊢
    omega⟩

def Shorter.behindName {text : List Char} (hname : (splitName text).1 ≠ [])
    (item : NotLonger (splitName text).2) (rest : NotLonger item.1) : Shorter text :=
  ⟨rest.1, by
    have hlength := length_splitName text
    have hpositive := List.length_pos_iff.2 hname
    have hitem := item.2
    have hrest := rest.2
    omega⟩

mutual

/-- Reads the items of one level into `graph`.  `total` is the length of the whole text.  A level
inside braces ends before the closing brace, the outermost one at the end of the text. -/
def readItems (total : Nat) (nested : Bool) (graph : Graph κ) (text : List Char) :
    Except Error (Graph κ × Shorter text) :=
  if hname : (splitName text).1 = [] then
    Fault.raise (.graphSyntax "zero-length field name" (total - text.length))
  else
    have _ := length_splitName text
    have _ := List.length_pos_iff.2 hname
    match Catalog.position? graph.kind (String.ofList (splitName text).1) with
    | .none =>
      Fault.raise (.unknownField (Catalog.kindName graph.kind) (String.ofList (splitName text).1)
        (total - text.length))
    | some field => do
      let (subgraph, afterItem) ←
        readBraces total (total - text.length) graph.kind field (splitName text).2
      have _ := afterItem.2
      let (graph, rest) ← readNext total nested (graph.insertEntry field subgraph) afterItem.1
      pure (graph, .behindName hname afterItem rest)
termination_by (text.length, 0)

/-- Reads the braces behind a field, if the text begins with one.  `start` is where the field's
name began. -/
def readBraces (total start : Nat) (kind : κ) (field : Nat) (text : List Char) :
    Except Error (Option (Graph κ) × NotLonger text) :=
  match text with
  | '\x7b' :: body =>
    match Catalog.nested? kind field with
    | .none =>
      Fault.raise (.graphSyntax
        ("field `" ++ Catalog.fieldName kind field ++ "` of " ++ Catalog.kindName kind ++
          " has no subfields")
        (total - (body.length + 1)))
    | some inner => do
      let (subgraph, rest) ← readItems total true (Graph.none inner) body
      match hclose : rest.1 with
      | '\x7d' :: after =>
        pure (some subgraph, .closed '\x7b' rest hclose)
      | _ =>
        Fault.raise (.graphSyntax
          ("unterminated subfields declaration (started at " ++ toString start ++ ")")
          (total - rest.1.length))
  | other => pure (.none, .whole other)
termination_by (text.length, 0)

/-- Goes on behind an item: the level ends, or a comma announces another item. -/
def readNext (total : Nat) (nested : Bool) (graph : Graph κ) (text : List Char) :
    Except Error (Graph κ × NotLonger text) :=
  match text with
  | [] => pure (graph, .whole [])
  | c :: after =>
    if c = ',' then do
      let (graph, rest) ← readItems total nested graph after
      pure (graph, .behind c rest)
    else if c = '\x7d' ∧ nested then pure (graph, .whole (c :: after))
    else
      Fault.raise (.graphSyntax ("illegal character '" ++ String.singleton c ++ "'")
        (total - (after.length + 1)))
termination_by (text.length, 1)

end

/-- Reads a graph over `kind`.  A blank text is the empty graph. -/
def parse (kind : κ) (text : String) : Except Error (Graph κ) :=
  if Text.isBlank text.toList then pure (none kind)
  else do
    let (graph, _) ← readItems text.toList.length false (none kind) text.toList
    pure graph.normalize

end PartialEntity.Graph
