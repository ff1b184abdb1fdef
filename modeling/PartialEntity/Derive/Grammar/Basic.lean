import PartialEntity.Derive.Rule

/-!
# The grammar of the generated code

The rules of a grammar need each other in circles: types hold expressions, expressions hold items
and items hold types.  A `Grammar` gives the rules by which the parts of a text are read, and the
modules beside this one say how the whole is read by it.
-/

namespace PartialEntity.Derive

/-- What sort of type was read, as far as it matters for what is around it. -/
inductive TypeForm where
  /-- A name, perhaps with arguments between angle brackets. -/
  | name
  /-- Any other path that does not begin with a type. -/
  | path
  | other
deriving DecidableEq, Repr

structure TypeText where
  form : TypeForm
  tokens : Tokens

structure ExpressionText where
  /-- Whether the expression is a range, whose ends are all the rest of it. -/
  isRange : Bool
  tokens : Tokens

/-- The rules by which the parts of a text are read. -/
structure Grammar where
  /-- Reads a type.  It can be a sum of bounds if `sums` says so. -/
  type (sums : Bool) : Rule TypeText
  /-- Reads one bound. -/
  bound : Rule Tokens
  /-- Reads an operand.  It can be the value of a structure if `structs` says so. -/
  operand (structs : Bool) : Rule ExpressionText
  /-- Reads an expression. -/
  expression (structs : Bool) : Rule ExpressionText
  /-- Reads an expression at the beginning of a statement or of a branch.  If it ends in a block,
  then only a point or a question mark goes on with it. -/
  leading : Rule ExpressionText
  /-- Reads a pattern that is not a choice between patterns. -/
  pattern : Rule Tokens
  /-- Reads what stands between the brackets of a block. -/
  statements : Rule Tokens
  /-- Reads an item. -/
  item : Rule Tokens

namespace Grammar

open Rule

def empty : Grammar where
  type _ := failure
  bound := failure
  operand _ := failure
  expression _ := failure
  leading := failure
  pattern := failure
  statements := failure
  item := failure

variable (grammar : Grammar)

/-! ## Parts -/

def typeTokens (sums : Bool) : Rule Tokens :=
  TypeText.tokens <$> grammar.type sums

def expressionTokens (structs : Bool) : Rule Tokens :=
  ExpressionText.tokens <$> grammar.expression structs

def operandTokens (structs : Bool) : Rule Tokens :=
  ExpressionText.tokens <$> grammar.operand structs

def block : Rule Tokens :=
  enclosed '\x7b' grammar.statements

def resultType (sums : Bool) : Rule Tokens :=
  ifAhead (Ahead.sign "->") (all [sign "->", grammar.typeTokens sums])

/-! ## Attributes -/

/-- Reads a name, or a word that stands for a place. -/
def place : Rule Tokens := do
  if ← sees fun trees => Ahead.name trees || Ahead.words Ahead.places trees then anyWord
  else failure

def plainPath : Rule Tokens :=
  all [sign? "::", place, whileAhead (Ahead.sign "::") (all [sign "::", place])]

def annotation : Rule Tokens :=
  all [
    choose [(Ahead.word "unsafe", anyWord), (fun _ => true, plainPath)],
    choose [
      (Ahead.anyGroup, anyGroup),
      (Ahead.sign "=", all [sign "=", grammar.expressionTokens true]),
      (fun _ => true, return [])]]

def attributes : Rule Tokens :=
  whileAhead (Ahead.sign "#") (all [sign "#", enclosed '[' grammar.annotation])

/-- Reads the attributes of what they are inside of. -/
def innerAttributes : Rule Tokens :=
  whileAhead (fun trees => Ahead.sign "#" trees && Ahead.later 1 (Ahead.sign "!") trees)
    (all [sign "#", sign "!", enclosed '[' grammar.annotation])

/-! ## Visibility -/

/-- Whether brackets that restrict a visibility come next. -/
def restricts : Ahead.Test
  | .group '(' [.word text] :: _ => ["crate", "self", "super"].contains text
  | .group '(' (.word "in" :: _) :: _ => true
  | _ => false

def visibility : Rule Tokens :=
  ifAhead (Ahead.word "pub")
    (all [anyWord, ifAhead restricts (enclosed '(' (all [word? "in", plainPath]))])

end Grammar

end PartialEntity.Derive
