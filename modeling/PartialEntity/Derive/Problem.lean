/-!
# What can be wrong with a declaration

Everything that is found is reported at once, in the order of the declaration, so each problem
stands for itself and says all there is to say.
-/

namespace PartialEntity.Derive

/-- One thing that is wrong with a declaration. -/
inductive Problem where
  /-- The item is not an enumeration. -/
  | notEnumeration
  /-- The enumeration has parameters. -/
  | generic
  /-- A variant carries data. -/
  | carriesData
  /-- An attribute has no arguments at all. -/
  | argumentsMissing (path : String)
  /-- An attribute has a value in place of arguments. -/
  | parenthesesMissing (path : String)
  /-- An attribute goes on with something that is no argument. -/
  | malformed (wording : String)
  /-- An argument has a key other than those of its place. -/
  | unknownArgument (expected : List String)
  /-- An argument is given once more. -/
  | duplicateArgument (key : String)
  /-- An argument that needs a value is a bare key. -/
  | valueMissing
  /-- An argument that needs a string has another value. -/
  | notText
  /-- An argument that needs a type has another value.  The wording is that for a value with which
  no type could begin. -/
  | notType
  /-- A field would have a name that cannot stand in the text of a graph. -/
  | invalidName (name : String)
  /-- Two fields would have one name; the first is that of the variant `first`. -/
  | duplicateName (name first : String)
deriving DecidableEq, Repr

namespace Problem

/-- What can start a type, in the order in which it is looked for. -/
def typeStarts : List String :=
  ["`for`", "parentheses", "`fn`", "`unsafe`", "`extern`", "identifier", "`::`", "`<`", "`dyn`",
    "square brackets", "`*`", "`&`", "`!`", "`impl`", "`_`", "lifetime"]

def message : Problem → String
  | notEnumeration => "FieldTag can only be derived for enums"
  | generic => "FieldTag enums cannot be generic"
  | carriesData => "FieldTag variants cannot carry data"
  | argumentsMissing path => "expected attribute arguments in parentheses: #[" ++ path ++ "(...)]"
  | parenthesesMissing path => "expected parentheses: #[" ++ path ++ "(...)]"
  | malformed wording => wording
  | unknownArgument expected =>
    "unknown argument; expected " ++
      " or ".intercalate (expected.map fun key => "`" ++ key ++ "`")
  | duplicateArgument key => "duplicate `" ++ key ++ "` argument"
  | valueMissing => "expected `=`"
  | notText => "expected string literal"
  | notType => "expected one of: " ++ ", ".intercalate typeStarts
  | invalidName name =>
    "`" ++ name ++ "` is not a valid field name; expected [A-Za-z_$][A-Za-z0-9_$]*"
  | duplicateName name first =>
    "duplicate field name `" ++ name ++ "`; already used by `" ++ first ++ "`"

end Problem

end PartialEntity.Derive
