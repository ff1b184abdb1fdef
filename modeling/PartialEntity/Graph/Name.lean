/-!
# Names of fields

What a field can be called so that its name can stand in the text of a field graph: a letter, an
underscore or a dollar sign, followed by any number of these and of digits.  Letters and digits are
the ASCII ones.
-/

namespace PartialEntity.Graph

def isNameStart (c : Char) : Bool :=
  c.isAlpha || c == '_' || c == '$'

def isNameRest (c : Char) : Bool :=
  c.isAlphanum || c == '_' || c == '$'

def isName : List Char → Bool
  | [] => false
  | c :: rest => isNameStart c && rest.all isNameRest

/-- The longest name at the front of a text, which may be empty, and what follows it. -/
def splitName : List Char → List Char × List Char
  | [] => ([], [])
  | c :: rest =>
    if isNameStart c then (c :: rest.takeWhile isNameRest, rest.dropWhile isNameRest)
    else ([], c :: rest)

theorem splitName_append (text : List Char) :
    (splitName text).1 ++ (splitName text).2 = text := by
  cases text with
  | nil => rfl
  | cons c rest =>
    by_cases hc : isNameStart c <;> simp [splitName, hc, List.takeWhile_append_dropWhile]

theorem length_splitName (text : List Char) :
    (splitName text).1.length + (splitName text).2.length = text.length := by
  rw [← List.length_append, splitName_append]

end PartialEntity.Graph
