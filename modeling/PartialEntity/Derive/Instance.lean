import PartialEntity.Derive.Kind
import PartialEntity.Derive.TypeSource
import PartialEntity.Text.Camel

/-!
# Generated instances

What is generated for a kind: its catalogue of fields and the two functions between its variants
and their ordinals.  An instance says what the generated code does; `Instance.render` is the code.
-/

namespace PartialEntity.Derive

/-- What is generated for an enumeration. -/
structure Instance where
  /-- The enumeration. -/
  identifier : String
  /-- The name of the kind in diagnostics. -/
  name : String
  /-- The name and the nested type of every field, by ordinal. -/
  schema : List (String × Option String)
  /-- The branches of the function that gives the ordinal of a variant. -/
  ordinals : List (String × Nat)
  /-- The branches of the function that gives the variant of an ordinal. -/
  variants : List (Nat × String)
deriving DecidableEq, Repr

namespace Instance

def ofKind (kind : Kind) : Instance where
  identifier := kind.identifier
  name := kind.name
  schema := kind.fields.map fun field => (field.name, field.nested)
  ordinals := kind.fields.zipIdx.map fun (field, ordinal) => (field.variant, ordinal)
  variants := kind.fields.zipIdx.map fun (field, ordinal) => (ordinal, field.variant)

/-! ## What the code does -/

/-- The ordinal of a variant: the first branch that fits. -/
def ordinal? (generated : Instance) (variant : String) : Option Nat :=
  (generated.ordinals.find? fun branch => branch.1 == variant).map (·.2)

/-- The variant of an ordinal: the first branch that fits. -/
def variant? (generated : Instance) (ordinal : Nat) : Option String :=
  (generated.variants.find? fun branch => branch.1 == ordinal).map (·.2)

/-- The ordinal of the first field of a name. -/
def position? (generated : Instance) (name : String) : Option Nat :=
  generated.schema.findIdx? fun field => field.1 == name

/-- The name of a variant in the text of graphs. -/
def nameOf? (generated : Instance) (variant : String) : Option String :=
  (generated.ordinal? variant).bind fun ordinal => generated.schema[ordinal]?.map (·.1)

def ofName? (generated : Instance) (name : String) : Option String :=
  (generated.position? name).bind generated.variant?

/-! ## The code -/

/-- The tokens of a source text about the supporting library, which is written `P` there. -/
def code (source : String) : Tokens :=
  (Token.ofSource source).flatMap fun token =>
    if token.text == "P" then ["_fieldwise", "::", "codegen_support"] else [token]

def ordinalLiteral (n : Nat) : String :=
  toString n ++ "usize"

def nestedCode : Option String → Tokens
  | none => code "P::Option::None"
  | some source =>
    code "P::Option::Some(<" ++ TypeSource.tokens source ++
      code "as P::FieldTag>::schema as fn() -> &'static P::TagSchema)"

def fieldCode (field : String × Option String) : Tokens :=
  code "P::FieldInfo \x7b name:" ++ Token.plain [Literal.quote field.1] ++ code ", nested:" ++
    nestedCode field.2 ++ code ", \x7d,"

def ordinalCode (branch : String × Nat) : Tokens :=
  code "Self::" ++ Token.plain [branch.1, "=>", ordinalLiteral branch.2, ","]

def variantCode (branch : Nat × String) : Tokens :=
  Token.plain [ordinalLiteral branch.1, "=>"] ++ code "P::Option::Some(Self::" ++
    Token.plain [branch.2, ")", ","]

def tokens (generated : Instance) : Tokens :=
  code "const _: () = \x7b use fieldwise as _fieldwise; impl P::FieldTag for" ++
    Token.plain [generated.identifier] ++
    code "\x7b fn schema() -> &'static P::TagSchema \x7b
      static SCHEMA: P::TagSchema = P::TagSchema \x7b name:" ++
    Token.plain [Literal.quote generated.name] ++ code ", fields: &[" ++
    generated.schema.flatMap fieldCode ++
    code "], \x7d; &SCHEMA \x7d fn ordinal(self) -> usize \x7b match self \x7b" ++
    generated.ordinals.flatMap ordinalCode ++
    code "\x7d \x7d fn from_ordinal(ordinal: usize) -> P::Option<Self> \x7b match ordinal \x7b" ++
    generated.variants.flatMap variantCode ++
    code "_ => P::Option::None, \x7d \x7d \x7d \x7d;"

def render (generated : Instance) : String :=
  Token.render generated.tokens

end Instance

namespace Declaration

/-- The instance that is generated for a declaration where fields without a name of their own get it
from `camel`, or all problems of the declaration. -/
def instanceBy? (camel : String → String) (declaration : Declaration) :
    Except (List Problem) Instance :=
  (declaration.kind camel).map Instance.ofKind

/-- The instance that is generated for a declaration, or all problems of the declaration. -/
def instance? (declaration : Declaration) : Except (List Problem) Instance :=
  declaration.instanceBy? Text.lowerCamel

end Declaration

end PartialEntity.Derive
