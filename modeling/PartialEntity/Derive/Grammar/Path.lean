import PartialEntity.Derive.AngleArgument
import PartialEntity.Derive.Grammar.Basic

/-!
# Paths

Names with separators between them.  Each can have arguments between angle brackets, and in a type
the last one can have the parameters of a function instead.
-/

namespace PartialEntity.Derive

structure ArgumentList where
  /-- The separator in front, if there is one. -/
  lead : Tokens
  arguments : List AngleArgument

def ArgumentList.tokens (list : ArgumentList) : Tokens :=
  list.lead ++ AngleArgument.enclose (AngleArgument.arrange list.arguments)

/-- A path that was read. -/
structure PathText where
  /-- Everything but the arguments of the last name. -/
  front : Tokens
  /-- The arguments of the last name. -/
  last : Option ArgumentList
  /-- Whether the path begins with a type. -/
  qualified : Bool
  /-- Whether no name has arguments. -/
  plain : Bool
  /-- Whether the path is one name, perhaps with arguments between angle brackets. -/
  single : Bool

def PathText.tokens (path : PathText) : Tokens :=
  path.front ++ (path.last.map ArgumentList.tokens).getD []

def PathText.form (path : PathText) : TypeForm :=
  if path.qualified then .other else if path.single then .name else .path

namespace Grammar

open Rule

variable (grammar : Grammar)

/-! ## Arguments -/

def constantArgument : Rule Tokens :=
  choose [
    (Ahead.literal, literal),
    (Ahead.group '\x7b', grammar.block),
    (Ahead.anyWord, anyWord)]

def constantAhead : Ahead.Test :=
  fun trees => Ahead.literal trees || Ahead.group '\x7b' trees

def boundAhead : Ahead.Test := fun trees =>
  Ahead.lifetime trees || (Ahead.anyWord trees && !Ahead.word "where" trees) ||
    Ahead.sign "::" trees || Ahead.sign "?" trees || Ahead.sign "~" trees ||
    Ahead.group '(' trees || Ahead.group '[' trees

/-- Reads bounds with plus signs between them, perhaps none. -/
def bounds : Rule Tokens :=
  separated "+" (fun trees => !boundAhead trees) grammar.bound

def colonBounds : Rule Tokens :=
  all [sign ":", grammar.bounds]

/-- Reads bounds behind a colon.  A colon without bounds is left out. -/
def bounds? : Rule Tokens := do
  if ← sees (Ahead.only ":" ["::"]) then
    let read ← grammar.colonBounds
    return if read.length ≤ 1 then [] else read
  else return []

def argumentTokens : Rule Tokens := do
  if ← sees constantAhead then grammar.constantArgument
  else
    let type ← grammar.type true
    if type.form != .name then return type.tokens
    else if ← sees (Ahead.sign "=") then
      all [return type.tokens, sign "=",
        choose [
          (constantAhead, grammar.constantArgument),
          (fun _ => true, grammar.typeTokens true)]]
    else if ← sees (Ahead.sign ":") then all [return type.tokens, grammar.colonBounds]
    else return type.tokens

/-- Reads what stands between angle brackets.  Every element says whether it is a lifetime. -/
def angled (element : Rule (Bool × Tokens)) : Rule (List AngleArgument) := do
  let _ ← sign "<"
  let elements ← list "," (Ahead.sign ">") element
  let _ ← sign ">"
  return elements.map fun ((lifetime, tokens), comma) => ⟨lifetime, tokens, comma⟩

def argumentList : Rule ArgumentList := do
  let lead ← sign? "::"
  let arguments ← angled do
    if ← sees fun trees => Ahead.lifetime trees && !Ahead.later 1 (Ahead.sign "+") trees then
      return (true, ← lifetime)
    else return (false, ← grammar.argumentTokens)
  return ⟨lead, arguments⟩

/-! ## Names -/

/-- Whether arguments come next.  In an expression there is a separator in front of them, since a
sign alone would compare. -/
def argumentsAhead (inExpression : Bool) : Ahead.Test := fun trees =>
  (!inExpression && Ahead.only "<" ["<=", "<<="] trees) ||
    (Ahead.sign "::" trees && Ahead.later 2 (Ahead.sign "<") trees)

/-- Reads a name of a path, with its arguments.  Some words cannot have any. -/
def segment (inExpression : Bool) : Rule (Tokens × Option ArgumentList) := do
  let bare ← sees (Ahead.words ["super", "self", "crate", "try"])
  let name ← if bare then anyWord else place
  if bare then return (name, none)
  else if ← sees (argumentsAhead inExpression) then return (name, some (← grammar.argumentList))
  else return (name, none)

/-- Reads the names behind the first one, each with the separator in front.  In front of the
parameters of a function a separator does not count. -/
def moreSegments (inExpression : Bool) : Rule (List (Tokens × Option ArgumentList)) :=
  many do
    if ← sees fun trees => Ahead.sign "::" trees && !Ahead.later 2 (Ahead.group '(') trees then
      let separator ← sign "::"
      let (name, arguments) ← grammar.segment inExpression
      return some (separator ++ name, arguments)
    else return none

def pathOf (qualified : Bool) (front : Tokens) (segments : List (Tokens × Option ArgumentList)) :
    PathText :=
  let written (segment : Tokens × Option ArgumentList) : Tokens :=
    segment.1 ++ (segment.2.map ArgumentList.tokens).getD []
  let final := segments.getLast?.getD ([], none)
  { front := front ++ segments.dropLast.flatMap written ++ final.1
    last := final.2
    qualified
    plain := !qualified && segments.all (·.2.isNone)
    single := !qualified && front.isEmpty && segments.length == 1 }

def unqualifiedPath (inExpression : Bool) : Rule PathText := do
  let front ← sign? "::"
  let first ← grammar.segment inExpression
  return pathOf false front (first :: (← grammar.moreSegments inExpression))

/-- Reads the parameters of a function behind a path that has no arguments.  A separator in front of
them is left out, and so are empty angle brackets. -/
def applied (path : PathText) : Rule PathText := do
  let vacant := path.last.all (·.arguments.isEmpty)
  let called ← sees fun trees =>
    Ahead.group '(' trees || (Ahead.sign "::" trees && Ahead.later 2 (Ahead.group '(') trees)
  if vacant && called then
    let _ ← sign? "::"
    let parameters ← all [
      enclosed '(' (commas (grammar.typeTokens true)),
      grammar.resultType false]
    return ⟨path.front ++ parameters, none, path.qualified, false, false⟩
  else return path

/-- Reads a path that begins with a type or not.  No path is a type alone. -/
def path (inExpression : Bool) : Rule PathText := do
  if ← sees (Ahead.sign "<") then
    let front ← all [
      sign "<",
      grammar.typeTokens true,
      ifAhead (Ahead.word "as") (all [anyWord, do
        return (← grammar.applied (← grammar.unqualifiedPath false)).tokens]),
      sign ">"]
    let segments ← grammar.moreSegments inExpression
    if segments.isEmpty then failure
    return pathOf true front segments
  else grammar.unqualifiedPath inExpression

def typePath : Rule PathText := do
  grammar.applied (← grammar.path false)

def callAhead : Ahead.Test :=
  Ahead.only "!" ["!="]

def call (path : PathText) : Rule Tokens :=
  all [return path.tokens, sign "!", anyGroup]

end Grammar

end PartialEntity.Derive
