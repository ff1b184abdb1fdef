import PartialEntity.Derive.TokenTree

/-!
# What comes next

Tests of the token trees that are still to be read.  Which rule of the grammar applies is decided by
the first few of them and never by trying.
-/

namespace PartialEntity.Derive.Ahead

/-- A test of what comes next. -/
abbrev Test := List TokenTree → Bool

/-- Signs that stand close together.  Further signs can stand close behind the last one. -/
def signs : List Char → Test
  | [], _ => true
  | [c], .sign mark _ :: _ => mark == c
  | c :: more, .sign mark joint :: rest => mark == c && joint && signs more rest
  | _, _ => false

def sign (text : String) : Test :=
  signs text.toList

def anyWord : Test
  | .word _ :: _ => true
  | _ => false

def word (text : String) : Test
  | .word found :: _ => found == text
  | _ => false

def words (texts : List String) : Test :=
  fun trees => texts.any (word · trees)

/-- The words that cannot be names. -/
def keywords : List String :=
  ["_", "abstract", "as", "async", "await", "become", "box", "break", "const", "continue", "crate",
    "do", "dyn", "else", "enum", "extern", "false", "final", "fn", "for", "if", "impl", "in", "let",
    "loop", "macro", "match", "mod", "move", "mut", "override", "priv", "pub", "ref", "return",
    "Self", "self", "static", "struct", "super", "trait", "true", "try", "type", "typeof", "unsafe",
    "unsized", "use", "virtual", "where", "while", "yield"]

def name : Test
  | .word text :: _ => !keywords.contains text
  | _ => false

/-- The words that stand for a place among modules or types. -/
def places : List String :=
  ["super", "self", "Self", "crate"]

/-- The beginning of a path. -/
def path : Test :=
  fun trees => name trees || words places trees || sign "::" trees || sign "<" trees

def lifetime : Test
  | .lifetime _ :: _ => true
  | _ => false

/-- A literal.  A number can have a minus sign in front. -/
def literal : Test
  | .literal _ :: _ | .sign '-' _ :: .literal _ :: _ => true
  | .word text :: _ => text == "true" || text == "false"
  | _ => false

def group (bracket : Char) : Test
  | .group found _ :: _ => found == bracket
  | _ => false

def anyGroup : Test
  | .group _ _ :: _ => true
  | _ => false

/-- What comes `count` trees later. -/
def later (count : Nat) (test : Test) : Test :=
  fun trees => test (trees.drop count)

/-- An operator, but not as the beginning of certain longer ones. -/
def only (text : String) (longer : List String) : Test :=
  fun trees => sign text trees && !longer.any (sign · trees)

end PartialEntity.Derive.Ahead
