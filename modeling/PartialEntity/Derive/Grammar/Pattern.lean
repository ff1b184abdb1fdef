import PartialEntity.Derive.Grammar.Path

/-!
# Patterns

What a value is compared with: paths with fields, ranges, and names for what is found there.  A word
is a new name unless what is behind it makes it a path.
-/

namespace PartialEntity.Derive.Grammar

open Rule

variable (grammar : Grammar)

/-! ## Choices -/

def alternativeAhead : Ahead.Test :=
  Ahead.only "|" ["||", "|="]

def alternatives : Rule Tokens :=
  all [
    sign? "|",
    grammar.pattern,
    whileAhead alternativeAhead (all [sign "|", grammar.pattern])]

/-! ## Ranges -/

/-- Reads the sign of a range.  Three points are another spelling of a closed range. -/
def patternRangeSign : Rule Tokens :=
  choose [
    (Ahead.sign "..=", sign "..="),
    (Ahead.sign "...", do
      let _ ← sign "..."
      return [("..=" : Token)]),
    (fun _ => true, sign "..")]

def openRangeAhead : Ahead.Test := fun trees =>
  trees.isEmpty || Ahead.sign "|" trees || Ahead.sign "=" trees || Ahead.only ":" ["::"] trees ||
    Ahead.sign "," trees || Ahead.sign ";" trees || Ahead.word "if" trees

def patternRangeEnd : Rule Tokens :=
  choose [
    (openRangeAhead, return []),
    (Ahead.literal, literal),
    (Ahead.word "const", all [anyWord, grammar.block]),
    (fun _ => true, PathText.tokens <$> grammar.path true)]

def patternRange? : Rule Tokens :=
  ifAhead (Ahead.sign "..") (all [patternRangeSign, grammar.patternRangeEnd])

/-! ## Fields -/

/-- Reads the name of a field or its position, which is written without regard to how it was. -/
def member : Rule Tokens := do
  if ← sees Ahead.literal then
    return (← literal).map fun token => (toString (Literal.wholeValue token.text) : Token)
  else anyWord

def fieldPattern : Rule Tokens :=
  all [
    grammar.attributes,
    choose [
      (Ahead.sign "..", sign ".."),
      (Ahead.word "box", verbatim (all [anyWord, word? "ref", word? "mut", anyWord])),
      (Ahead.words ["ref", "mut"], all [word? "ref", word? "mut", anyWord]),
      (fun _ => true, all [
        member,
        ifAhead (Ahead.sign ":") (all [sign ":", grammar.alternatives])])]]

/-! ## Patterns -/

def pathPattern : Rule Tokens := do
  let path ← grammar.path true
  if path.plain && (← sees callAhead) then call path
  else
    all [
      return path.tokens,
      choose [
        (Ahead.group '\x7b', enclosed '\x7b' (commas grammar.fieldPattern)),
        (Ahead.group '(', enclosed '(' (commas grammar.alternatives)),
        (fun _ => true, grammar.patternRange?)]]

def pathPatternAhead : Ahead.Test := fun trees =>
  let behind := trees.drop 1
  Ahead.sign "::" trees || Ahead.sign "<" trees || Ahead.words ["Self", "super", "crate"] trees ||
    (Ahead.word "self" trees && Ahead.sign "::" behind) ||
    (Ahead.name trees && (Ahead.sign "::" behind || Ahead.sign "!" behind ||
      Ahead.group '\x7b' behind || Ahead.group '(' behind || Ahead.sign ".." behind))

def namePattern : Rule Tokens :=
  all [
    word? "ref",
    word? "mut",
    anyWord,
    ifAhead (Ahead.sign "@") (all [sign "@", grammar.pattern])]

def readPattern : Rule Tokens :=
  choose [
    (pathPatternAhead, grammar.pathPattern),
    (Ahead.word "_", anyWord),
    (Ahead.word "box", verbatim (all [anyWord, grammar.pattern])),
    (fun trees => Ahead.literal trees || Ahead.word "const" trees,
      all [grammar.patternRangeEnd, grammar.patternRange?]),
    (Ahead.anyWord, grammar.namePattern),
    (Ahead.sign "&", all [sign "&", word? "mut", grammar.pattern]),
    (Ahead.group '(', enclosed '(' (commas grammar.alternatives)),
    (Ahead.group '[', enclosed '[' (commas grammar.alternatives)),
    (Ahead.sign "..", grammar.patternRange?)]

end PartialEntity.Derive.Grammar
