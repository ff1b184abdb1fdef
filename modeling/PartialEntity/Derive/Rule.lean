import PartialEntity.Derive.Ahead

/-!
# Reading token trees

A rule takes token trees away from the front of a list and gives what it has read, most often the
tokens to be written for it.  It fails for good: there is no second try.
-/

namespace PartialEntity.Derive

/-- Reads something, or fails. -/
abbrev Rule := StateT (List TokenTree) Option

namespace Rule

variable {α : Type}

/-! ## Single trees -/

/-- Reads an operator, which becomes one token. -/
def sign (text : String) : Rule Tokens := fun trees =>
  if Ahead.sign text trees then some ([(text : Token)], trees.drop text.length) else none

def anyWord : Rule Tokens
  | .word text :: rest => some ([(text : Token)], rest)
  | _ => none

def word (text : String) : Rule Tokens := fun trees =>
  if Ahead.word text trees then anyWord trees else none

def lifetime : Rule Tokens
  | .lifetime text :: rest => some ([(text : Token)], rest)
  | _ => none

/-- Reads a literal.  The minus sign in front of a number is a token of its own. -/
def literal : Rule Tokens
  | .literal text :: rest | .word text :: rest => some ([(text : Token)], rest)
  | .sign mark _ :: .literal text :: rest =>
    some ([(String.singleton mark : Token), (text : Token)], rest)
  | _ => none

/-- Reads brackets and leaves what they hold as it is. -/
def anyGroup : Rule Tokens
  | .group bracket inside :: rest => some ((TokenTree.group bracket inside).tokens, rest)
  | _ => none

/-- Reads what brackets hold, all of it. -/
def inside (bracket : Char) (rule : Rule α) : Rule α
  | .group found trees :: rest =>
    if found = bracket then
      match rule trees with
      | some (result, []) => some (result, rest)
      | _ => none
    else none
  | _ => none

def enclosed (bracket : Char) (rule : Rule Tokens) : Rule Tokens :=
  Token.enclose bracket <$> inside bracket rule

/-! ## Choices and sequences -/

def sees (test : Ahead.Test) : Rule Bool :=
  return test (← get)

/-- Reads as the first rule says whose test holds. -/
def choose : List (Ahead.Test × Rule α) → Rule α
  | [] => failure
  | (test, rule) :: rest => do
    if ← sees test then rule else choose rest

def ifAhead (test : Ahead.Test) (rule : Rule Tokens) : Rule Tokens := do
  if ← sees test then rule else return []

def sign? (text : String) : Rule Tokens :=
  ifAhead (Ahead.sign text) (sign text)

def word? (text : String) : Rule Tokens :=
  ifAhead (Ahead.word text) anyWord

/-- Reads one thing after the other. -/
def all : List (Rule Tokens) → Rule Tokens
  | [] => return []
  | rule :: rest => do
    let first ← rule
    return first ++ (← all rest)

/-! ## Repetitions -/

/-- Reads again and again, at most `fuel` times, until there is nothing more to be read. -/
def manyUpTo (rule : Rule (Option α)) : Nat → Rule (List α)
  | 0 => return []
  | fuel + 1 => do
    match ← rule with
    | none => return []
    | some result => return result :: (← manyUpTo rule fuel)

/-- Reads again and again until there is nothing more to be read.  The rule takes something away
each time. -/
def many (rule : Rule (Option α)) : Rule (List α) := do
  manyUpTo rule (← get).length

def whileAhead (test : Ahead.Test) (rule : Rule Tokens) : Rule Tokens := do
  return (← many do if ← sees test then some <$> rule else return none).flatten

def toEnd (rule : Rule Tokens) : Rule Tokens :=
  whileAhead (fun trees => !trees.isEmpty) rule

/-- Reads a list up to a stop, at most `fuel` elements.  Every element says whether `separator` is
behind it, and without one the list ends. -/
def listUpTo (separator : String) (stop : Ahead.Test) (rule : Rule α) :
    Nat → Rule (List (α × Bool))
  | 0 => return []
  | fuel + 1 => do
    if ← sees stop then return []
    let element ← rule
    if ← sees (Ahead.sign separator) then
      let _ ← sign separator
      return (element, true) :: (← listUpTo separator stop rule fuel)
    else return [(element, false)]

def list (separator : String) (stop : Ahead.Test) (rule : Rule α) :
    Rule (List (α × Bool)) := do
  listUpTo separator stop rule (← get).length

/-- Reads a list up to a stop and writes it as it is. -/
def separated (separator : String) (stop : Ahead.Test) (rule : Rule Tokens) :
    Rule Tokens := do
  return (← list separator stop rule).flatMap fun (tokens, behind) =>
    if behind then tokens ++ [(separator : Token)] else tokens

def commas (rule : Rule Tokens) : Rule Tokens :=
  separated "," List.isEmpty rule

/-! ## What stays as it is -/

/-- The tokens of what was taken away of a list, as it was written. -/
def taken (before : List TokenTree) : Rule Tokens := do
  return TokenTree.allTokens (before.take (before.length - (← get).length))

/-- Reads something.  What the rule has no tokens for is left as it was written. -/
def asWritten (rule : Rule (Option Tokens)) : Rule Tokens := do
  let before ← get
  match ← rule with
  | some tokens => return tokens
  | none => taken before

def verbatim (rule : Rule Tokens) : Rule Tokens :=
  asWritten do
    let _ ← rule
    return none

end Rule

end PartialEntity.Derive
