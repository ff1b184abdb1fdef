import PartialEntity.Derive.Grammar.Item

/-!
# Statements

What stands between the brackets of a block, and with it the last of the rules, so that they can be
put together to a grammar.
-/

namespace PartialEntity.Derive.Grammar

open Rule

variable (grammar : Grammar)

/-! ## Macros -/

/-- Whether the call of a macro comes next and behind its path something certain. -/
def callAt (test : Ahead.Test) : Ahead.Test := fun trees =>
  match plainPath trees with
  | some (_, rest) => Ahead.sign "!" rest && test (rest.drop 1)
  | none => false

/-- Whether a macro comes next that is defined or that gives a name to something. -/
def namedCallAhead : Ahead.Test :=
  callAt fun trees => Ahead.name trees || Ahead.word "try" trees

/-- Whether a macro with braces comes next that is no part of an expression. -/
def bracedCallAhead : Ahead.Test :=
  callAt fun trees => Ahead.group '\x7b' trees &&
    !(Ahead.later 1 (Ahead.only "." [".."]) trees || Ahead.later 1 (Ahead.sign "?") trees)

/-! ## Statements -/

def localNames : Rule Tokens :=
  all [
    anyWord,
    grammar.pattern,
    ifAhead (Ahead.sign ":") grammar.colonType,
    ifAhead (Ahead.sign "=") (all [
      grammar.definition,
      ifAhead (Ahead.word "else") (all [anyWord, grammar.block])]),
    sign ";"]

/-- Reads a statement.  An expression that does not begin with a block needs a semicolon unless it
is the last one. -/
def statement : Rule Tokens := do
  let before ← get
  let attributes ← grammar.attributes
  let trees ← get
  if Ahead.sign ";" trees then sign ";"
  else if bracedCallAhead trees then return attributes ++ (← macroItem)
  else if Ahead.word "let" trees then return attributes ++ (← grammar.localNames)
  else if itemAhead trees || namedCallAhead trees then
    set before
    grammar.item
  else
    let expression := decorate attributes (← grammar.leading)
    let semicolon ← sign? ";"
    if semicolon.isEmpty && !blockAhead trees && !(← get).isEmpty then failure
    return expression.tokens ++ semicolon

def readStatements : Rule Tokens :=
  all [grammar.innerAttributes, toEnd grammar.statement]

/-! ## All rules -/

/-- The grammar whose parts are read by another one. -/
def next : Grammar where
  type := grammar.readType
  bound := grammar.readBound
  operand := grammar.readOperand
  expression := grammar.readExpression
  leading := grammar.readLeading
  pattern := grammar.readPattern
  statements := grammar.readStatements
  item := grammar.readItem

/-- The grammar for texts of a certain depth. -/
def ofDepth (depth : Nat) : Grammar :=
  Nat.repeat next depth empty

end PartialEntity.Derive.Grammar
