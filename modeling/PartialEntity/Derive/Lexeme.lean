import PartialEntity.Derive.Literal
import PartialEntity.Text.Blank

/-!
# Lexemes

The smallest parts of a source text of the generated code: words, literals, lifetimes, signs and
brackets.  Blanks and comments separate lexemes and are none themselves, but a comment that is
documentation stands for an attribute.  Only what is around signs says which of them make up one
operator, so every sign is a lexeme and knows whether the next one stands close.
-/

namespace PartialEntity.Derive

/-- A smallest part of a source text. -/
inductive Lexeme where
  /-- An identifier or a keyword. -/
  | word (text : String)
  /-- A number, a character or a string, as it was written. -/
  | literal (text : String)
  /-- A lifetime with its apostrophe. -/
  | lifetime (text : String)
  /-- A sign, and whether another one or an apostrophe stands close behind it. -/
  | sign (mark : Char) (joint : Bool)
  /-- An opening bracket. -/
  | opening (bracket : Char)
  /-- A closing bracket. -/
  | closing (bracket : Char)
deriving DecidableEq, Repr

namespace Lexeme

/-! ## Characters -/

/-- Whether a character only separates: white space, and the two marks of direction. -/
def isSpace (c : Char) : Bool :=
  Text.isBlankChar c || c == '\u200e' || c == '\u200f'

def isWordChar (c : Char) : Bool :=
  c.isAlphanum || c == '_' || (0x80 ≤ c.toNat && !isSpace c)

def isWordStart (c : Char) : Bool :=
  isWordChar c && !c.isDigit

def isSign (c : Char) : Bool :=
  "~!@#$%^&*-=+|;:,<.>/?".toList.contains c

/-- Whether a character is a digit or divides digits into groups. -/
def isDecimal (c : Char) : Bool :=
  c.isDigit || c == '_'

/-! ## Lengths -/

def wordLength (chars : List Char) : Nat :=
  (chars.takeWhile isWordChar).length

def suffixLength (chars : List Char) : Nat :=
  if chars.head?.any isWordStart then wordLength chars else 0

/-- How many characters a quotation goes on, its closing mark and a type behind it included.  A
backslash takes away the meaning of the character behind it. -/
def quotedLength (mark : Char) : List Char → Nat
  | [] => 0
  | '\\' :: _ :: rest => 2 + quotedLength mark rest
  | c :: rest => if c = mark then 1 + suffixLength rest else 1 + quotedLength mark rest

/-- How many characters a quotation without backslashes goes on.  It ends at a double quote with as
many hash signs behind it as there were in front. -/
def rawLength (hashes : Nat) : List Char → Nat
  | [] => 0
  | c :: rest =>
    if c = '"' && (rest.takeWhile (· == '#')).length ≥ hashes then
      1 + hashes + suffixLength (rest.drop hashes)
    else 1 + rawLength hashes rest

/-- How many characters a comment goes on, with `depth` comments around it. -/
def commentLength : Nat → List Char → Nat
  | depth, '/' :: '*' :: rest => 2 + commentLength (depth + 1) rest
  | 0, '*' :: '/' :: _ => 2
  | depth + 1, '*' :: '/' :: rest => 2 + commentLength depth rest
  | depth, _ :: rest => 1 + commentLength depth rest
  | _, [] => 0

def exponentLength : List Char → Nat
  | c :: rest =>
    if (c == '+' || c == '-') && (rest.dropWhile (· == '_')).head?.any Char.isDigit then
      1 + wordLength rest
    else 0
  | [] => 0

/-- How many characters a number goes on behind a digit or a point: digits, an exponent, and the
type of the number. -/
def digitsLength (chars : List Char) : Nat :=
  match (chars.takeWhile isWordChar).dropWhile isDecimal with
  | c :: rest =>
    if (c == 'e' || c == 'E') && rest.all (· == '_') then
      wordLength chars + exponentLength (chars.drop (wordLength chars))
    else wordLength chars
  | [] => wordLength chars

/-- How many characters a number goes on behind its first digit.  A point belongs to it unless it
begins a range or a field stands behind it. -/
def numberLength (chars : List Char) : Nat :=
  let length := digitsLength chars
  if (chars.take length).all isDecimal then
    match chars.drop length with
    | ['.'] => length + 1
    | '.' :: c :: rest =>
      if c == '.' || isWordStart c then length else length + 1 + digitsLength (c :: rest)
    | _ => length
  else length

/-- Whether a sign or an apostrophe stands close behind a sign.  A comment is no sign. -/
def isJoint : List Char → Bool
  | '/' :: '/' :: _ | '/' :: '*' :: _ => false
  | c :: _ => isSign c || c == '\''
  | [] => false

/-! ## Comments -/

/-- The attribute that documentation stands for.  It can belong to what follows, or to what it is
inside of. -/
def documentation (inner : Bool) (text : List Char) : List Lexeme :=
  [.sign '#' false] ++ (if inner then [.sign '!' false] else []) ++
    [.opening '[', .word "doc", .sign '=' false,
      .literal (Literal.quote (String.ofList text)), .closing ']']

/-- What a comment stands for that takes up a line, without the two signs in front. -/
def readLine (ends : Bool) : List Char → List Lexeme
  | '/' :: text => if text.head? == some '/' then [] else documentation false (trim text)
  | '!' :: text => documentation true (trim text)
  | _ => []
where
  /-- The end of a line can be two characters. -/
  trim (text : List Char) : List Char :=
    if ends && text.getLast? == some '\r' then text.dropLast else text

/-- What a comment stands for that was closed, without the two signs in front. -/
def readBlock : List Char → List Lexeme
  | '*' :: text =>
    if text.head? == some '*' || text.head? == some '/' then [] else documentation false (trim text)
  | '!' :: text => documentation true (trim text)
  | _ => []
where
  /-- Two signs close a comment. -/
  trim (text : List Char) : List Char :=
    text.dropLast.dropLast

/-! ## Reading -/

/-- The word that begins with a character, or the literal if the word announces one, and how many
characters more it takes. -/
def readWord (c : Char) (rest : List Char) : Lexeme × Nat :=
  let length := wordLength rest
  let name := String.ofList (c :: rest.take length)
  let isRaw := ["r", "br", "cr"].contains name
  let literal (more : Nat) : Lexeme × Nat :=
    (.literal (String.ofList (c :: rest.take (length + more))), length + more)
  match rest.drop length with
  | '"' :: behind =>
    if isRaw then literal (1 + rawLength 0 behind)
    else if name == "b" || name == "c" then literal (1 + quotedLength '"' behind)
    else (.word name, length)
  | '\'' :: behind =>
    if name == "b" then literal (1 + quotedLength '\'' behind) else (.word name, length)
  | '#' :: behind =>
    let hashes := 1 + (behind.takeWhile (· == '#')).length
    match rest.drop (length + hashes) with
    | '"' :: text =>
      if isRaw then literal (hashes + 1 + rawLength hashes text) else (.word name, length)
    | first :: more =>
      if name == "r" && hashes == 1 && isWordStart first then
        let total := length + 2 + wordLength more
        (.word (String.ofList (c :: rest.take total)), total)
      else (.word name, length)
    | [] => (.word name, length)
  | _ => (.word name, length)

/-- What begins with an apostrophe: a character if another apostrophe ends it, else a lifetime. -/
def readApostrophe (rest : List Char) : Lexeme × Nat :=
  let character (length : Nat) : Lexeme × Nat :=
    (.literal (String.ofList ('\'' :: rest.take length)), length)
  match rest with
  | '\\' :: _ => character (quotedLength '\'' rest)
  | _ :: '\'' :: behind => character (2 + suffixLength behind)
  | first :: behind =>
    let (name, length) := readWord first behind
    match name with
    | .word text => (.lifetime ("'" ++ text), 1 + length)
    | _ => (.lifetime "'", 0)
  | [] => (.lifetime "'", 0)

/-- What begins with a character, and how many characters more it takes. -/
def read (c : Char) (rest : List Char) : List Lexeme × Nat :=
  if isSpace c then ([], 0)
  else if c = '/' && rest.head? = some '/' then
    let line := rest.takeWhile (· != '\n')
    (readLine (line.length < rest.length) line.tail, line.length)
  else if c = '/' && rest.head? = some '*' then
    let length := 1 + commentLength 0 rest.tail
    (readBlock (rest.take length).tail, length)
  else if c = '"' then
    ([.literal (String.ofList (c :: rest.take (quotedLength c rest)))], quotedLength c rest)
  else if c = '\'' then
    let (found, length) := readApostrophe rest
    ([found], length)
  else if c.isDigit then
    ([.literal (String.ofList (c :: rest.take (numberLength rest)))], numberLength rest)
  else if isWordChar c then
    let (found, length) := readWord c rest
    ([found], length)
  else if isSign c then ([.sign c (isJoint rest)], 0)
  else if ['(', '[', '\x7b'].contains c then ([.opening c], 0)
  else ([.closing c], 0)

/-- The lexemes of a text whose first characters belong to what was read before. -/
def scanBehind : Nat → List Char → List Lexeme
  | _, [] => []
  | skipped + 1, _ :: rest => scanBehind skipped rest
  | 0, c :: rest =>
    let (found, length) := read c rest
    found ++ scanBehind length rest

def scan (chars : List Char) : List Lexeme :=
  scanBehind 0 chars

end Lexeme

end PartialEntity.Derive
