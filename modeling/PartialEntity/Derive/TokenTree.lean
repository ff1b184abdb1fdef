import PartialEntity.Derive.Token

/-!
# Token trees

Lexemes with matching brackets put together: what stands between two brackets is one tree.
-/

namespace PartialEntity.Derive

/-- A lexeme that is no bracket, or brackets with all that is between them. -/
inductive TokenTree where
  /-- An identifier or a keyword. -/
  | word (text : String)
  /-- A number, a character or a string. -/
  | literal (text : String)
  /-- A lifetime with its apostrophe. -/
  | lifetime (text : String)
  /-- A sign, and whether another one or an apostrophe stands close behind it. -/
  | sign (mark : Char) (joint : Bool)
  /-- An opening bracket, and what stands between it and the one that closes it. -/
  | group (bracket : Char) (inside : List TokenTree)
deriving Repr

namespace TokenTree

/-! ## Building -/

/-- The trees that are complete so far, the last first, and the brackets that are open around them,
each with what stands before it. -/
structure Builder where
  complete : List TokenTree
  around : List (Char × List TokenTree)

namespace Builder

def push (tree : TokenTree) (builder : Builder) : Builder :=
  { builder with complete := tree :: builder.complete }

def close (builder : Builder) : Builder :=
  match builder.around with
  | [] => builder
  | (bracket, before) :: around => ⟨.group bracket builder.complete.reverse :: before, around⟩

def add (builder : Builder) : Lexeme → Builder
  | .word text => builder.push (.word text)
  | .literal text => builder.push (.literal text)
  | .lifetime text => builder.push (.lifetime text)
  | .sign mark joint => builder.push (.sign mark joint)
  | .opening bracket => ⟨[], (bracket, builder.complete) :: builder.around⟩
  | .closing _ => builder.close

end Builder

/-- The trees of a text.  Brackets that were left open end with it. -/
def ofLexemes (lexemes : List Lexeme) : List TokenTree :=
  let read := lexemes.foldl Builder.add ⟨[], []⟩
  (Nat.repeat Builder.close read.around.length read).complete.reverse

/-! ## Tokens -/

mutual

/-- The tokens of a tree as it was written. -/
def tokens : TokenTree → Tokens
  | word text | literal text | lifetime text => [text]
  | sign mark joint => [⟨String.singleton mark, joint⟩]
  | group bracket inside => Token.enclose bracket (allTokens inside)

def allTokens : List TokenTree → Tokens
  | [] => []
  | tree :: rest => tree.tokens ++ allTokens rest

end

end TokenTree

end PartialEntity.Derive
