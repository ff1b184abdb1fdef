import PartialEntity.Derive.Grammar.Bound

/-!
# Types

Paths, functions, references, arrays and the other forms of a type.  A sum of bounds is one as well,
but only where no operator could be meant by its plus signs.
-/

namespace PartialEntity.Derive.Grammar

open Rule

variable (grammar : Grammar)

/-! ## Functions -/

def callingConvention : Rule Tokens :=
  all [word? "extern", ifAhead Ahead.literal literal]

def labelAhead : Ahead.Test := fun trees =>
  Ahead.anyWord trees && Ahead.later 1 (Ahead.only ":" ["::"]) trees

def functionTypeParameter : Rule Tokens :=
  all [
    grammar.attributes,
    choose [
      (Ahead.sign "...", sign "..."),
      (fun trees => Ahead.word "mut" trees && Ahead.later 1 (Ahead.word "self") trees,
        verbatim (all [anyWord, anyWord,
          ifAhead (Ahead.sign ":") (all [sign ":", grammar.typeTokens true])])),
      (labelAhead, all [anyWord, sign ":",
        choose [
          (Ahead.sign "...", sign "..."),
          (fun _ => true, grammar.typeTokens true)]]),
      (fun _ => true, grammar.typeTokens true)]]

def functionType : Rule Tokens :=
  all [
    word? "unsafe",
    ifAhead (Ahead.word "extern") callingConvention,
    word "fn",
    enclosed '(' (commas grammar.functionTypeParameter),
    grammar.resultType false]

/-! ## Sums of bounds -/

def moreBounds : Rule Tokens :=
  ifAhead (Ahead.sign "+") (all [sign "+", grammar.bounds])

/-- Reads bounds, more than one if `sums` says so.  One of them has to be a trait. -/
def someBounds (sums : Bool) : Rule Tokens := do
  let read ← if sums then grammar.bounds else grammar.bound
  if read.all fun token => token.text == "+" || token.text.startsWith "'" then failure
  return read

/-- Reads a type behind the word for a trait object.  With a star there are no tokens for it. -/
def traitObject (sums : Bool) : Rule Tokens := asWritten do
  let lead ← word "dyn"
  let star ← sign? "*"
  let bounds ← grammar.someBounds sums
  return if star.isEmpty then some (lead ++ bounds) else none

/-! ## Types -/

/-- Reads what stands between the parentheses of a type: types, or one bound. -/
def parenthesizedTypes : Rule Tokens :=
  choose [
    (Ahead.sign "?", grammar.bound),
    (fun _ => true, commas (grammar.typeTokens true))]

def bracketedType : Rule Tokens :=
  all [
    grammar.typeTokens true,
    ifAhead (Ahead.sign ";") (all [sign ";", grammar.expressionTokens true])]

def pathType (sums : Bool) (binder : Tokens) : Rule TypeText := do
  let path ← grammar.typePath
  if path.plain && (← sees callAhead) then return ⟨.other, binder ++ (← call path)⟩
  else if path.qualified then return ⟨.other, path.tokens⟩
  else if sums && (← sees (Ahead.sign "+")) then
    return ⟨.other, binder ++ path.tokens ++ (← grammar.moreBounds)⟩
  else return ⟨if binder.isEmpty then path.form else .other, binder ++ path.tokens⟩

def functionAhead : Ahead.Test :=
  Ahead.words ["fn", "unsafe", "extern"]

def otherType (sums : Bool) : Rule Tokens :=
  choose [
    (Ahead.group '(', do
      let isBound ← sees fun
        | .group _ inside :: _ => Ahead.sign "?" inside
        | _ => false
      let first ← enclosed '(' grammar.parenthesizedTypes
      if sums || isBound then return first ++ (← grammar.moreBounds) else return first),
    (functionAhead, grammar.functionType),
    (Ahead.word "dyn", grammar.traitObject sums),
    (Ahead.group '[', enclosed '[' grammar.bracketedType),
    (Ahead.sign "*", all [
      sign "*",
      choose [(Ahead.words ["const", "mut"], anyWord)],
      grammar.typeTokens false]),
    (Ahead.sign "&", all [
      sign "&",
      ifAhead Ahead.lifetime lifetime,
      word? "mut",
      grammar.typeTokens false]),
    (Ahead.sign "!", sign "!"),
    (Ahead.word "impl", all [anyWord, grammar.someBounds sums]),
    (Ahead.word "_", anyWord),
    (Ahead.lifetime, grammar.someBounds true)]

def readType (sums : Bool) : Rule TypeText := do
  let binder ← grammar.binder?
  if ← sees Ahead.path then grammar.pathType sums binder
  else return ⟨.other, binder ++ (← grammar.otherType sums)⟩

end PartialEntity.Derive.Grammar
