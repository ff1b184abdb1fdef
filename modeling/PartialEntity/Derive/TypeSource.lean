import PartialEntity.Derive.Grammar.Statement

/-!
# Types in generated code

A type is repeated in the generated code, though not always as it was written.  Signs that stood
close together fall apart where they are not one operator, as in `&&T` or at the end of `A<B<C>>`,
between angle brackets lifetimes come first, and what says nothing is left out.  A type can hold
expressions, and these can hold whole declarations; the arguments of other macros stay as they are.
-/

namespace PartialEntity.Derive.TypeSource

/-- How deep rules can stand inside each other in a text: each takes a lexeme or is one of a few
that begin at the same place. -/
def depth (lexemes : List Lexeme) : Nat :=
  8 * (lexemes.length + 1)

/-- Reads a text as a type.  Gives the tokens of the type in the generated code. -/
def read? (source : String) : Option Tokens :=
  let lexemes := Lexeme.scan source.toList
  match (Grammar.ofDepth (depth lexemes)).typeTokens true (TokenTree.ofLexemes lexemes) with
  | some (tokens, []) => some tokens
  | _ => none

def isType (source : String) : Bool :=
  (read? source).isSome

def tokens (source : String) : Tokens :=
  (read? source).getD []

end PartialEntity.Derive.TypeSource
