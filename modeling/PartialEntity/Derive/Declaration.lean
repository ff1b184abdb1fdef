import PartialEntity.Text.Blank

/-!
# Declarations of kinds

A kind can be declared as an enumeration in the language of the generated code: each variant is a
field, and attributes say more about it.  This is such a declaration as it was written, with all
that may be wrong with it.
-/

namespace PartialEntity.Derive

/-- What is assigned to an argument. -/
inductive Value where
  /-- Nothing; the argument is a bare key. -/
  | absent
  /-- A string literal. -/
  | text (content : String)
  /-- Anything else, as it was written.  Whether it is a type is for the reading to find out. -/
  | type (source : String)
deriving DecidableEq, Repr

structure Argument where
  key : String
  value : Value
deriving DecidableEq, Repr

/-- What follows the path of an attribute. -/
inductive Form where
  /-- Arguments in parentheses. -/
  | list (arguments : List Argument)
  /-- Arguments in parentheses and behind them something that is no further argument.  The wording
  is what the parser of the language has to say to that. -/
  | broken (arguments : List Argument) (wording : String)
  /-- Nothing. -/
  | bare
  /-- A value after an equals sign. -/
  | assigned
deriving DecidableEq, Repr

structure Attribute where
  path : String
  form : Form
deriving DecidableEq, Repr

/-- Whether an attribute speaks of fields.  All others are left to whom they concern. -/
def Attribute.isOwn (attr : Attribute) : Bool :=
  attr.path == "field"

structure Variant where
  identifier : String
  attributes : List Attribute
  /-- The source of what follows the identifier; blank if nothing does. -/
  data : String
deriving DecidableEq, Repr

/-- Whether a variant carries nothing, not even an empty list.  A number that is assigned to it is
nothing that it carries. -/
def Variant.isUnit (variant : Variant) : Bool :=
  let behind := variant.data.toList.dropWhile Text.isBlankChar
  behind.isEmpty || behind.head? == some '='

inductive ItemSort where
  | enumeration
  | record
  | union
deriving DecidableEq, Repr

/-- An item that is to become a kind. -/
structure Declaration where
  sort : ItemSort
  identifier : String
  /-- The source of the parameter list; blank if there is none. -/
  generics : String
  attributes : List Attribute
  variants : List Variant
deriving DecidableEq, Repr

/-- Whether an item has parameters.  An empty list holds none. -/
def Declaration.isGeneric (declaration : Declaration) : Bool :=
  match declaration.generics.toList.filter (fun c => !Text.isBlankChar c) with
  | '<' :: c :: _ => c != '>'
  | _ => false

end PartialEntity.Derive
