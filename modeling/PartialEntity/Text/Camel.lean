import PartialEntity.Text.Casing

/-!
# Lower camel case

An identifier in any of the usual styles is cut into words; in lower camel case the first word is
in lower case and every other starts with a capital.  A new word starts after a separator, where
lower case is followed by upper case, and before the last capital of several if lower case follows
it, as in `HTTPServer`.  Numbers belong to the word before them.
-/

namespace PartialEntity.Text

/-! ## Words -/

/-- The case of the last letter of a word that has case. -/
inductive WordCase where
  /-- No letter of the word so far has case. -/
  | uncased
  | lower
  | upper
deriving DecidableEq, Repr

def WordCase.add (case : WordCase) (c : Char) : WordCase :=
  if isLowercase c then .lower else if isUppercase c then .upper else case

/-- Cuts characters without separators into words.  `word` are the characters of the word under
way, the last first, and `case` is its case. -/
def cutWords (case : WordCase) (word : List Char) : List Char → List (List Char)
  | [] => if word.isEmpty then [] else [word.reverse]
  | [c] => [(c :: word).reverse]
  | c :: next :: rest =>
    if case.add c = .lower && isUppercase next then
      (c :: word).reverse :: cutWords .uncased [] (next :: rest)
    else if case = .upper && isUppercase c && isLowercase next then
      word.reverse :: cutWords .uncased [c] (next :: rest)
    else cutWords (case.add c) (c :: word) (next :: rest)

/-- The longest parts of a text without separators, some of them empty. -/
def splitSeparators : List Char → List (List Char)
  | [] => [[]]
  | c :: rest =>
    if isSeparator c then [] :: splitSeparators rest
    else
      match splitSeparators rest with
      | [] => [[c]]
      | part :: parts => (c :: part) :: parts

def words (identifier : List Char) : List (List Char) :=
  (splitSeparators identifier).flatMap (cutWords .uncased [])

/-! ## Case -/

/-- A word in lower case.  At the end a sigma has a form of its own. -/
def lowerWord : List Char → List Char
  | [] => []
  | [c] => if c = 'Σ' then ['ς'] else toLowercase c
  | c :: next :: rest => toLowercase c ++ lowerWord (next :: rest)

def capitalWord : List Char → List Char
  | [] => []
  | c :: rest => toUppercase c ++ lowerWord rest

def lowerCamel (identifier : String) : String :=
  match words identifier.toList with
  | [] => ""
  | first :: rest => String.ofList (lowerWord first ++ rest.flatMap capitalWord)

end PartialEntity.Text
