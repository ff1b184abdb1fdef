import PartialEntity.Text.Quoted

/-!
# Literals

How a text is written as a literal of the generated code, and what a whole number is worth that was
written as one.
-/

namespace PartialEntity.Derive.Literal

/-! ## Texts -/

/-- Characters between double quotes.  A zero character is written with two digits where the
character behind it would be read as a digit of the same number. -/
def quoteChars : List Char → List Char
  | [] => []
  | '\x00' :: c :: rest =>
    (if '0' ≤ c && c ≤ '7' then ['\\', 'x', '0', '0'] else ['\\', '0']) ++ quoteChars (c :: rest)
  | c :: rest => Text.escapeChar c ++ quoteChars rest

def quote (text : String) : String :=
  String.ofList ('"' :: quoteChars text.toList ++ ['"'])

/-! ## Whole numbers -/

def digitValue (c : Char) : Nat :=
  if c.isDigit then c.toNat - '0'.toNat else c.toLower.toNat - 'a'.toNat + 10

/-- What digits are worth.  Underscores between them count for nothing. -/
def digitsValue (base : Nat) (digits : List Char) : Nat :=
  (digits.filter (· != '_')).foldl (fun value digit => base * value + digitValue digit) 0

/-- What a whole number is worth.  Two characters in front can announce another base than ten. -/
def wholeValue (text : String) : Nat :=
  match text.toList with
  | '0' :: 'x' :: digits => digitsValue 16 digits
  | '0' :: 'o' :: digits => digitsValue 8 digits
  | '0' :: 'b' :: digits => digitsValue 2 digits
  | digits => digitsValue 10 digits

end PartialEntity.Derive.Literal
