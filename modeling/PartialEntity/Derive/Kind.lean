import PartialEntity.Derive.Declaration
import PartialEntity.Derive.Problem
import PartialEntity.Derive.TypeSource
import PartialEntity.Graph.Name

/-!
# The kind that a declaration describes

A declaration is read into the kind it describes or into the list of its problems.  What is wrong
with the item as a whole stands alone; after that the attributes of the enumeration and all variants
are read, whatever was found before.  Within one attribute reading ends at the first argument that
does not make sense, while an argument that is merely given once more is noted and passed over.

A field without a name of its own is called as its variant in lower camel case.  What that is, is
for a library to say, so the reading is given the function, here `camel`.
-/

namespace PartialEntity.Derive

structure Field where
  /-- The variant that stands for the field. -/
  variant : String
  /-- The name of the field in the text of graphs. -/
  name : String
  /-- The source of the type of the kind nested under the field, if it declares one. -/
  nested : Option String
deriving DecidableEq, Repr

/-- A kind as its declaration describes it. -/
structure Kind where
  /-- The enumeration. -/
  identifier : String
  /-- The name of the kind in diagnostics. -/
  name : String
  /-- The fields in the order of their variants. -/
  fields : List Field
deriving DecidableEq, Repr

/-! ## Arguments -/

namespace Value

def asText : Value → Except Problem String
  | absent => throw .valueMissing
  | text content => pure content
  | type _ => throw .notText

def asType : Value → Except Problem String
  | absent => throw .valueMissing
  | text _ => throw .notType
  | type source => if TypeSource.isType source then pure source else throw .notType

end Value

namespace Attribute

/-- The arguments of an attribute that are there to be read. -/
def arguments (attr : Attribute) : List Argument :=
  match attr.form with
  | .list arguments | .broken arguments _ => arguments
  | .bare | .assigned => []

/-- What is wrong with an attribute behind its arguments. -/
def ending (attr : Attribute) : Option Problem :=
  match attr.form with
  | .list _ => none
  | .broken _ wording => some (.malformed wording)
  | .bare => some (.argumentsMissing attr.path)
  | .assigned => some (.parenthesesMissing attr.path)

end Attribute

/-! ## The enumeration -/

/-- Reads arguments of the enumeration, behind which there is `ending`.  `name` is what was read
before. -/
def readName (ending : Option Problem) :
    Option String → List Argument → Except Problem (Option String)
  | name, [] => match ending with
    | none => pure name
    | some problem => throw problem
  | name, argument :: rest =>
    if argument.key = "name" then do
      let text ← argument.value.asText
      if name.isSome then throw (.duplicateArgument "name")
      readName ending (some text) rest
    else throw (.unknownArgument ["name"])

/-- The name that attributes give to the kind.  The first problem ends the reading. -/
def givenName (attributes : List Attribute) : Except Problem (Option String) :=
  (attributes.filter Attribute.isOwn).foldlM
    (fun name attr => readName attr.ending name attr.arguments) none

/-- The identifier of the enumeration without the word that such identifiers end in, if something
is left then. -/
def defaultName (identifier : String) : String :=
  let chars := identifier.toList
  let suffix := "Field".toList
  let stem := chars.take (chars.length - suffix.length)
  if suffix.isSuffixOf chars && !stem.isEmpty then String.ofList stem else identifier

/-! ## Variants -/

structure Settings where
  /-- The name of the field, if it is not the one that follows from the variant. -/
  rename : Option String
  /-- The type of the kind nested under the field. -/
  nested : Option String
deriving DecidableEq, Repr

namespace Settings

def empty : Settings :=
  ⟨none, none⟩

/-- Reads the arguments of an attribute, behind which there is `ending`.  Gives also the problems
found. -/
def readArguments (ending : Option Problem) : Settings → List Argument → Settings × List Problem
  | settings, [] => (settings, ending.toList)
  | settings, argument :: rest =>
    if argument.key = "rename" then
      match argument.value.asText, settings.rename with
      | .error problem, _ => (settings, [problem])
      | .ok text, none => readArguments ending { settings with rename := some text } rest
      | .ok _, some _ =>
        let (after, problems) := readArguments ending settings rest
        (after, .duplicateArgument "rename" :: problems)
    else if argument.key = "nested" then
      match argument.value.asType, settings.nested with
      | .error problem, _ => (settings, [problem])
      | .ok source, none => readArguments ending { settings with nested := some source } rest
      | .ok _, some _ =>
        let (after, problems) := readArguments ending settings rest
        (after, .duplicateArgument "nested" :: problems)
    else (settings, [.unknownArgument ["rename", "nested"]])

/-- Reads the attributes of a variant.  Gives also the problems found. -/
def readAttributes : Settings → List Attribute → Settings × List Problem
  | settings, [] => (settings, [])
  | settings, attr :: rest =>
    if attr.isOwn then
      let (between, found) := readArguments attr.ending settings attr.arguments
      let (after, problems) := readAttributes between rest
      (after, found ++ problems)
    else readAttributes settings rest

end Settings

section Reading

variable (camel : String → String)

def Variant.field (variant : Variant) : Except (List Problem) Field :=
  if variant.isUnit then
    let (settings, problems) := Settings.empty.readAttributes variant.attributes
    if problems.isEmpty then
      let name := settings.rename.getD (camel variant.identifier)
      if Graph.isName name.toList then pure ⟨variant.identifier, name, settings.nested⟩
      else throw [.invalidName name]
    else throw problems
  else throw [.carriesData]

/-- Reads the variants after those that gave the fields `before`.  Of several with one name the
first counts. -/
def readVariants : List Field → List Variant → List Field × List Problem
  | before, [] => (before, [])
  | before, variant :: rest =>
    match variant.field camel with
    | .error found =>
      let (fields, problems) := readVariants before rest
      (fields, found ++ problems)
    | .ok field =>
      match before.find? fun other => other.name == field.name with
      | some first =>
        let (fields, problems) := readVariants before rest
        (fields, .duplicateName field.name first.variant :: problems)
      | none => readVariants (before ++ [field]) rest

/-! ## The declaration -/

/-- The kind that a declaration describes, or all problems of the declaration in order. -/
def Declaration.kind (declaration : Declaration) : Except (List Problem) Kind :=
  if declaration.sort ≠ .enumeration then throw [.notEnumeration]
  else if declaration.isGeneric then throw [.generic]
  else
    let (name, found) := match givenName declaration.attributes with
      | .ok given => (given.getD (defaultName declaration.identifier), [])
      | .error problem => (defaultName declaration.identifier, [problem])
    let (fields, problems) := readVariants camel [] declaration.variants
    if (found ++ problems).isEmpty then pure ⟨declaration.identifier, name, fields⟩
    else throw (found ++ problems)

end Reading

end PartialEntity.Derive
