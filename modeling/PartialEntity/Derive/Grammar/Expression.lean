import PartialEntity.Derive.Grammar.Bound
import PartialEntity.Derive.Grammar.Pattern

/-!
# Expressions

An expression is a chain of operands with operators between them.  The operators are only told apart
as far as it matters where the chain ends; what is computed first makes no difference to how the
chain is written.
-/

namespace PartialEntity.Derive.Grammar

open Rule

variable (grammar : Grammar)

/-! ## Operators -/

/-- How tightly an operator binds, from the loosest on. -/
inductive Binding where
  | assignment
  | range
  | logical
  /-- Comparison, and everything that binds more tightly. -/
  | comparison
deriving DecidableEq, Repr

def Binding.rank : Binding → Nat
  | assignment => 0
  | range => 1
  | logical => 2
  | comparison => 3

/-- The operators that change what is on their left. -/
def assignments : List String :=
  ["+=", "-=", "*=", "/=", "%=", "^=", "&=", "|=", "<<=", ">>="]

/-- The operators between operands.  Longer ones are in front of those that they begin with. -/
def operators : List (String × Binding) :=
  assignments.map (·, .assignment) ++ [("&&", .logical), ("||", .logical)] ++
    ["<<", ">>", "==", "<=", "!=", ">=", "+", "-", "*", "/", "%", "^", "&", "|", "<", ">"].map
      (·, .comparison)

def operator? (trees : List TokenTree) : Option (String × Binding) :=
  operators.find? fun operator => Ahead.sign operator.1 trees

def rangeStops (structs : Bool) : Ahead.Test := fun trees =>
  trees.isEmpty || Ahead.only "." [".."] trees || (!structs && Ahead.group '\x7b' trees) ||
    Ahead.word "as" trees ||
    [",", ";", "?", "=>", "=", "+", "/", "%", "^", ">", "<=", "!=", "-=", "*=", "&=", "|=",
      "<<="].any (Ahead.sign · trees)

/-- Reads a link of a chain: an operator and the operand behind it.  `loosest` says how tightly the
operator has to bind. -/
def link (structs : Bool) (loosest : Binding)
    (rangeEnd : Rule Tokens) : Rule (Option (Binding × Tokens)) := do
  let trees ← get
  let fits (binding : Binding) : Bool := loosest.rank ≤ binding.rank
  let linked (binding : Binding) (operator : String) : Rule (Option (Binding × Tokens)) := do
    return some (binding, ← all [sign operator, grammar.operandTokens structs])
  match operator? trees with
  | some (operator, binding) => if fits binding then linked binding operator else return none
  | none =>
    if fits .assignment && Ahead.only "=" ["=>"] trees then linked .assignment "="
    else if fits .range && Ahead.sign ".." trees then return some (.range, ← rangeEnd)
    else if Ahead.word "as" trees then
      return some (.comparison, ← all [anyWord, grammar.typeTokens false])
    else return none

def chain (structs : Bool) (loosest : Binding)
    (rangeEnd : Rule Tokens) : Rule (List (Binding × Tokens)) :=
  many (grammar.link structs loosest rangeEnd)

/-- Reads a range from its sign on.  Its end is a chain as well, in which operators bind more
tightly than the sign. -/
def range (structs : Bool) : Rule Tokens := do
  if ← sees (Ahead.sign "..=") then
    return (← sign "..=") ++ (← upper)
  else
    let lead ← sign ".."
    if ← sees (rangeStops structs) then return lead else return lead ++ (← upper)
where
  /-- Reads the end of a range. -/
  upper : Rule Tokens := do
    let first ← grammar.operandTokens structs
    let links ← grammar.chain structs .logical (return [])
    return first ++ links.flatMap (·.2)

/-- Reads the rest of an expression behind its first operand.  A range can only be followed by what
is no part of it. -/
def complete (structs : Bool) (loosest : Binding) (first : ExpressionText) :
    Rule ExpressionText := do
  if first.isRange then return first
  let links ← grammar.chain structs loosest (grammar.range structs)
  let isRange := (links.map (·.1)).find? (·.rank ≤ 1) == some .range
  return ⟨isRange, first.tokens ++ links.flatMap (·.2)⟩

/-! ## Trailers -/

/-- Reads what is done with an operand: a call, an element, a field, or a question. -/
def trailer : Rule (Option Tokens) := do
  let trees ← get
  if Ahead.group '(' trees then enclosed '(' (commas (grammar.expressionTokens true))
  else if Ahead.group '[' trees then enclosed '[' (grammar.expressionTokens true)
  else if Ahead.sign "?" trees then sign "?"
  else if Ahead.only "." [".."] trees then all [sign ".", field]
  else return none
where
  /-- Reads the name of a field or a method behind its point, or positions.  A number with points is
  several positions, and if it ends with a point one more field follows. -/
  field : Rule Tokens := do
    match ← get with
    | .literal text :: rest =>
      let parts := text.splitOn "."
      let positions := (parts.filter (· != "")).map fun part =>
        (toString (Literal.wholeValue part) : Token)
      let written := positions.intersperse ("." : Token)
      set rest
      if parts.getLast? == some "" then
        return written ++ [("." : Token)] ++ (← choose [
          (Ahead.literal, member),
          (fun _ => true, method)])
      else return written
    | _ => method
  /-- Reads a name with its arguments between angle brackets. -/
  method : Rule Tokens :=
    all [
      anyWord,
      ifAhead (Ahead.sign "::") (ArgumentList.tokens <$> grammar.argumentList)]

def trailers (first : ExpressionText) : Rule ExpressionText := do
  if first.isRange then return first
  return ⟨false, first.tokens ++ (← many grammar.trailer).flatten⟩

/-! ## Blocks -/

def label : Rule Tokens :=
  all [lifetime, sign ":"]

/-- Reads a condition and the block behind it. -/
def guardedBlock : Rule Tokens :=
  all [anyWord, grammar.expressionTokens false, grammar.block]

def conditional : Rule Tokens :=
  all [
    grammar.guardedBlock,
    whileAhead (Ahead.word "else") (all [
      anyWord,
      choose [(Ahead.word "if", grammar.guardedBlock), (fun _ => true, grammar.block)]])]

def elementLoop : Rule Tokens :=
  all [anyWord, grammar.alternatives, word "in", grammar.expressionTokens false, grammar.block]

/-- Whether parameters come next and not a path that begins with a type. -/
def parametersAhead : Ahead.Test := fun trees =>
  let first := trees.drop 1
  let second := trees.drop 2
  Ahead.sign "<" trees && (Ahead.sign ">" first || Ahead.sign "#" first ||
    Ahead.word "const" first || ((Ahead.lifetime first || Ahead.name first) &&
      (Ahead.sign ">" second || Ahead.sign "," second || Ahead.only ":" ["::"] second ||
        Ahead.sign "=" second)))

/-- Whether an expression comes next that ends in a block. -/
def blockAhead : Ahead.Test := fun trees =>
  Ahead.words ["if", "while", "loop", "match", "unsafe"] trees || Ahead.group '\x7b' trees ||
    Ahead.lifetime trees ||
    (Ahead.word "for" trees && !Ahead.later 1 parametersAhead trees) ||
    (Ahead.words ["try", "const"] trees && Ahead.later 1 (Ahead.group '\x7b') trees)

def branch : Rule Tokens :=
  all [
    grammar.attributes,
    grammar.alternatives,
    ifAhead (Ahead.word "if") (all [anyWord, grammar.expressionTokens true]),
    sign "=>",
    ExpressionText.tokens <$> grammar.leading,
    sign? ","]

def blockExpression : Rule Tokens :=
  all [
    ifAhead Ahead.lifetime label,
    choose [
      (Ahead.word "if", grammar.conditional),
      (Ahead.word "while", grammar.guardedBlock),
      (Ahead.word "for", grammar.elementLoop),
      (Ahead.word "match", all [
        anyWord,
        grammar.expressionTokens false,
        enclosed '\x7b' (all [grammar.innerAttributes, toEnd grammar.branch])]),
      (Ahead.anyWord, all [anyWord, grammar.block]),
      (fun _ => true, grammar.block)]]

/-! ## Attributes -/

/-- An expression with attributes in front.  Those of a range are about all of it only if it stands
in parentheses. -/
def decorate (attributes : Tokens) (expression : ExpressionText) : ExpressionText :=
  if attributes.isEmpty then expression
  else if expression.isRange then
    ⟨false, attributes ++ Token.enclose '(' expression.tokens⟩
  else ⟨false, attributes ++ expression.tokens⟩

/-- Reads an expression at the beginning of a statement or of a branch. -/
def readLeading : Rule ExpressionText := do
  let attributes ← grammar.attributes
  if ← sees blockAhead then
    let block := ⟨false, ← grammar.blockExpression⟩
    if ← sees fun trees => Ahead.only "." [".."] trees || Ahead.sign "?" trees then
      grammar.complete true .assignment (decorate attributes (← grammar.trailers block))
    else return decorate attributes block
  else grammar.complete true .assignment (decorate attributes (← grammar.operand true))

/-! ## Values -/

def fieldValue : Rule Tokens :=
  all [
    grammar.attributes,
    choose [
      (Ahead.sign "..", all [
        sign "..",
        ifAhead (fun trees => !trees.isEmpty) (grammar.expressionTokens true)]),
      (fun _ => true, all [
        member,
        ifAhead (Ahead.sign ":") (all [sign ":", grammar.expressionTokens true])])]]

def pathExpression (structs : Bool) : Rule Tokens := do
  let path ← grammar.path true
  if path.plain && (← sees callAhead) then call path
  else
    all [
      return path.tokens,
      ifAhead (fun trees => structs && Ahead.group '\x7b' trees)
        (enclosed '\x7b' (commas grammar.fieldValue))]

/-- Reads elements, or an element and how often it is repeated. -/
def elements : Rule Tokens := do
  if ← sees List.isEmpty then return []
  all [
    grammar.expressionTokens true,
    choose [
      (Ahead.sign ";", all [sign ";", grammar.expressionTokens true]),
      (Ahead.sign ",", all [sign ",", commas (grammar.expressionTokens true)]),
      (fun _ => true, return [])]]

/-! ## Functions -/

def closureAhead : Ahead.Test := fun trees =>
  let first := trees.drop 1
  Ahead.sign "|" trees || Ahead.words ["move", "static"] trees ||
    (Ahead.word "for" trees && parametersAhead first) ||
    (Ahead.word "const" trees && !Ahead.group '\x7b' first) ||
    (Ahead.word "async" trees && (Ahead.sign "|" first || Ahead.word "move" first))

/-- Reads a parameter of a function without a name.  A boxed pattern without a type has no place for
attributes. -/
def closureParameter : Rule Tokens := do
  let attributes ← grammar.attributes
  let boxed ← sees (Ahead.word "box")
  let pattern ← grammar.pattern
  let type ← ifAhead (Ahead.sign ":") (all [sign ":", grammar.typeTokens true])
  return (if boxed && type.isEmpty then [] else attributes) ++ pattern ++ type

/-- Reads a function without a name.  If it says what type its result has, then it ends in a
block. -/
def closure (structs : Bool) : Rule Tokens :=
  all [
    grammar.binder?,
    word? "const",
    word? "static",
    word? "async",
    word? "move",
    sign "|",
    separated "," (Ahead.sign "|") grammar.closureParameter,
    sign "|",
    choose [
      (Ahead.sign "->", all [grammar.resultType true, grammar.block]),
      (fun _ => true, grammar.expressionTokens structs)]]

/-! ## Jumps -/

def valueAhead : Ahead.Test := fun trees =>
  (Ahead.anyWord trees && !Ahead.word "as" trees) || Ahead.anyGroup trees ||
    Ahead.literal trees || Ahead.lifetime trees ||
    ["..", "::", "#"].any (Ahead.sign · trees) ||
    Ahead.only "!" ["!="] trees || Ahead.only "-" ["-=", "->"] trees ||
    Ahead.only "*" ["*="] trees || Ahead.only "|" ["|="] trees || Ahead.only "&" ["&="] trees ||
    Ahead.only "<" ["<=", "<<="] trees

def value? (structs : Bool) : Rule Tokens :=
  ifAhead (fun trees => valueAhead trees && (structs || !Ahead.group '\x7b' trees))
    (grammar.expressionTokens true)

/-! ## Operands -/

/-- Reads a comparison with a pattern.  What is compared cannot be joined to something by a logical
operator. -/
def comparison (structs : Bool) : Rule Tokens :=
  all [
    anyWord,
    grammar.alternatives,
    sign "=",
    do return (← grammar.complete structs .comparison (← grammar.operand structs)).tokens]

/-- Whether a block comes next that is run later. -/
def laterBlockAhead : Ahead.Test := fun trees =>
  Ahead.word "async" trees && (Ahead.later 1 (Ahead.group '\x7b') trees ||
    (Ahead.later 1 (Ahead.word "move") trees && Ahead.later 2 (Ahead.group '\x7b') trees))

def pathExpressionAhead : Ahead.Test := fun trees =>
  Ahead.path trees || (Ahead.word "try" trees &&
    (Ahead.later 1 (Ahead.sign "!") trees || Ahead.later 1 (Ahead.sign "::") trees))

/-- Reads an operand that is neither a range nor ends in a block. -/
def simpleOperand (structs : Bool) : Rule Tokens :=
  choose [
    (Ahead.literal, literal),
    (laterBlockAhead, all [anyWord, word? "move", grammar.block]),
    (closureAhead, grammar.closure structs),
    (fun trees => Ahead.word "builtin" trees && Ahead.later 1 (Ahead.sign "#") trees,
      verbatim (all [anyWord, sign "#", anyWord, anyGroup])),
    (pathExpressionAhead, grammar.pathExpression structs),
    (Ahead.group '(', enclosed '(' (commas (grammar.expressionTokens true))),
    (Ahead.group '[', enclosed '[' grammar.elements),
    (Ahead.word "break", all [anyWord, ifAhead Ahead.lifetime lifetime, grammar.value? structs]),
    (Ahead.word "continue", all [anyWord, ifAhead Ahead.lifetime lifetime]),
    (Ahead.words ["return", "yield"], all [anyWord, grammar.value? true]),
    (Ahead.word "become", verbatim (all [anyWord, grammar.expressionTokens true])),
    (Ahead.word "let", grammar.comparison structs),
    (Ahead.word "_", anyWord)]

def atom (structs : Bool) : Rule ExpressionText := do
  if ← sees (Ahead.sign "..") then return ⟨true, ← grammar.range structs⟩
  else if ← sees blockAhead then
    return ⟨false, ← grammar.blockExpression⟩
  else return ⟨false, ← grammar.simpleOperand structs⟩

/-- Reads the signs in front of an operand, one of them. -/
def operandSign : Rule Tokens := do
  if ← sees (Ahead.sign "&") then
    let isRaw ← sees fun trees => Ahead.later 1 (Ahead.word "raw") trees &&
      Ahead.later 2 (Ahead.words ["mut", "const"]) trees
    if isRaw then all [sign "&", anyWord, anyWord] else all [sign "&", word? "mut"]
  else choose (["*", "!", "-"].map fun text => (Ahead.sign text, sign text))

def readOperand (structs : Bool) : Rule ExpressionText := do
  let attributes ← grammar.attributes
  if ← sees fun trees => ["&", "*", "!", "-"].any (Ahead.sign · trees) then
    return ⟨false, attributes ++ (← operandSign) ++ (← grammar.operandTokens structs)⟩
  else return decorate attributes (← grammar.trailers (← grammar.atom structs))

def readExpression (structs : Bool) : Rule ExpressionText := do
  grammar.complete structs .assignment (← grammar.operand structs)

end PartialEntity.Derive.Grammar
