import PartialEntity.Text.Graphic

/-!
# Quoted text

Text as diagnostics show it: between double quotes, with a backslash before what could be misread
and a numbered escape for characters that would not be visible.
-/

namespace PartialEntity.Text

def hexadecimal (n : Nat) : List Char :=
  Nat.toDigits 16 n

def escapeChar (c : Char) : List Char :=
  if c = '"' then ['\\', '"']
  else if c = '\\' then ['\\', '\\']
  else if c = '\n' then ['\\', 'n']
  else if c = '\t' then ['\\', 't']
  else if c = '\r' then ['\\', 'r']
  else if c = '\x00' then ['\\', '0']
  else if isGraphic c then [c]
  else ['\\', 'u', '\x7b'] ++ hexadecimal c.toNat ++ ['\x7d']

/-- A single character between single quotes.  Here the single quote is the one to be escaped. -/
def quoteChar (c : Char) : String :=
  if c = '\'' then "'\\''"
  else if c = '"' then "'\"'"
  else String.ofList ('\'' :: escapeChar c ++ ['\''])

def quote (text : String) : String :=
  String.ofList ('"' :: text.toList.flatMap escapeChar ++ ['"'])

end PartialEntity.Text
