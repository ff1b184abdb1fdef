import PartialEntity.Shape

/-!
# Catalogs of kinds

A catalog describes a closed family of entity kinds: how each kind is called, which fields it has
in declaration order, and what each field stores.  A field is addressed by its ordinal, the index
of its declaration, and may declare the kind nested under it.  Two kinds are the same exactly when
they are equal as elements of the index type `κ`; their names are for people.

Nothing forces a declaration to agree with what is stored.  A field may store members of a kind
that it does not declare, or declare one and store a scalar; operations that need the two to agree
check it and fail.
-/

namespace PartialEntity

/-- What a field stores. -/
inductive Content (κ : Type) where
  /-- The identity of the entity itself. -/
  | identity
  /-- A scalar. -/
  | plain (type : ScalarType)
  /-- A value of some shape whose members are of the kind `member`. -/
  | nested (member : κ) (shape : Shape κ)
deriving DecidableEq, Repr

/-- One field of a kind. -/
structure FieldInfo (κ : Type) where
  /-- The name used in the text of a field graph. -/
  name : String
  /-- The name used where sets of fields are shown in diagnostics. -/
  label : String
  /-- The kind of the values nested under the field, if it declares one. -/
  nested : Option κ
  /-- What the field stores. -/
  content : Content κ
deriving DecidableEq, Repr

/-- What makes two entities of a kind the same one. -/
inductive IdentityRule where
  /-- Equal ids. -/
  | byId
  /-- Equal ids below the bound; from the bound on, equal texts in a field. -/
  | byTextFrom (bound field : Nat)
deriving DecidableEq, Repr

/-- A family of kinds indexed by `κ`. -/
class Catalog (κ : Type) where
  /-- The name of a kind in diagnostics. -/
  kindName : κ → String
  /-- The fields of a kind, in declaration order. -/
  fields : κ → List (FieldInfo κ)
  /-- When two entities of a kind are the same. -/
  identity : κ → IdentityRule
  /-- The members of an entity behind its id and its set of fields, as diagnostics show them: the
  name of each and the ordinal of the field it stores. -/
  members : κ → List (String × Nat)

namespace Catalog

variable {κ : Type} [Catalog κ]

def size (kind : κ) : Nat :=
  (fields kind).length

/-- The field at an ordinal, or `none` past the last one. -/
def field? (kind : κ) (ordinal : Nat) : Option (FieldInfo κ) :=
  (fields kind)[ordinal]?

/-- The ordinal of the first field of that name. -/
def position? (kind : κ) (name : String) : Option Nat :=
  (fields kind).findIdx? (·.name == name)

/-- The name of a field; an ordinal that the kind does not have is shown as a question mark. -/
def fieldName (kind : κ) (ordinal : Nat) : String :=
  ((field? kind ordinal).map (·.name)).getD "?"

def fieldLabel (kind : κ) (ordinal : Nat) : String :=
  ((field? kind ordinal).map (·.label)).getD "?"

/-- The kind that a field declares for what is nested under it. -/
def nested? (kind : κ) (ordinal : Nat) : Option κ :=
  (field? kind ordinal).bind (·.nested)

def content? (kind : κ) (ordinal : Nat) : Option (Content κ) :=
  (field? kind ordinal).map (·.content)

/-- A kind as diagnostics show it.  Nested kinds may refer back to it, so only their names are
given.  `quote` puts a name between quotation marks. -/
def describe (quote : String → String) (kind : κ) : String :=
  "TagSchema \x7b name: " ++ quote (kindName kind) ++ ", fields: [" ++
    ", ".intercalate ((fields kind).map describeField) ++ "] \x7d"
where
  /-- One field with its name and the name of the kind nested under it. -/
  describeField (info : FieldInfo κ) : String :=
    "FieldInfo \x7b name: " ++ quote info.name ++ ", nested: " ++
      (match info.nested with
      | none => "None"
      | some inner => "Some(" ++ quote (kindName inner) ++ ")") ++ " \x7d"

end Catalog

end PartialEntity
