import PartialEntity.Derive.Lexeme

/-!
# Tokens of the generated code

Generated code is a list of tokens.  It is written with one space between any two of them, except
that parentheses and square brackets stand close to what they enclose, and that a sign can stay as
close to the next token as it was in the source.
-/

namespace PartialEntity.Derive

/-- A token of the generated code. -/
structure Token where
  text : String
  /-- Whether the next token stands close behind. -/
  joint : Bool
deriving DecidableEq, Repr

abbrev Tokens := List Token

namespace Token

/-- A text is the token that is written so and does not touch the next one. -/
instance : Coe String Token := ⟨fun text => ⟨text, false⟩⟩

/-- Tokens that do not touch each other. -/
def plain (texts : List String) : Tokens :=
  texts.map fun text => ⟨text, false⟩

/-! ## Brackets -/

def closingBracket (bracket : Char) : Char :=
  if bracket = '(' then ')' else if bracket = '[' then ']' else '\x7d'

def enclose (bracket : Char) (inside : Tokens) : Tokens :=
  plain [String.singleton bracket] ++ inside ++ plain [String.singleton (closingBracket bracket)]

/-! ## Source texts -/

/-- The operators of two signs that occur in a declaration. -/
def joiners : List (Char × Char) :=
  [(':', ':'), ('-', '>'), ('=', '>')]

def ofLexemes : List Lexeme → Tokens
  | [] => []
  | [.sign mark _] => [String.singleton mark]
  | .sign mark joint :: .sign next nextJoint :: rest =>
    if joint && joiners.contains (mark, next) then
      (String.ofList [mark, next] : Token) :: ofLexemes rest
    else (String.singleton mark : Token) :: ofLexemes (.sign next nextJoint :: rest)
  | .sign mark _ :: lexeme :: rest => (String.singleton mark : Token) :: ofLexemes (lexeme :: rest)
  | .word text :: rest | .literal text :: rest | .lifetime text :: rest =>
    (text : Token) :: ofLexemes rest
  | .opening bracket :: rest | .closing bracket :: rest =>
    (String.singleton bracket : Token) :: ofLexemes rest

def ofSource (source : String) : Tokens :=
  ofLexemes (Lexeme.scan source.toList)

/-! ## Writing -/

def opens (token : Token) : Bool :=
  token.joint || token.text == "(" || token.text == "["

def closes (token : Token) : Bool :=
  token.text == ")" || token.text == "]"

def render : Tokens → String
  | [] => ""
  | [token] => token.text
  | token :: next :: rest =>
    token.text ++ (if opens token || closes next then "" else " ") ++ render (next :: rest)

end Token

end PartialEntity.Derive
