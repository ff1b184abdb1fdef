import PartialEntity.Derive.Grammar.Path

/-!
# Bounds and parameters

What a type has to be: bounds, the parameters that they are about, and the conditions on them that
stand at the end of a declaration.
-/

namespace PartialEntity.Derive.Grammar

open Rule

variable (grammar : Grammar)

/-! ## Parameters -/

def lifetimeParameter : Rule Tokens :=
  all [lifetime, grammar.bounds?]

def constantParameter : Rule Tokens :=
  all [anyWord, anyWord, sign ":", grammar.typeTokens true,
    ifAhead (Ahead.sign "=") (all [sign "=", grammar.constantArgument])]

def typeParameter : Rule Tokens :=
  all [anyWord, grammar.bounds?,
    ifAhead (Ahead.sign "=") (all [sign "=", grammar.typeTokens true])]

def parameter : Rule (Bool × Tokens) := do
  let attributes ← grammar.attributes
  let isLifetime ← sees Ahead.lifetime
  let tokens ← choose [
    (Ahead.lifetime, grammar.lifetimeParameter),
    (Ahead.word "const", grammar.constantParameter),
    (fun _ => true, grammar.typeParameter)]
  return (isLifetime, attributes ++ tokens)

/-- Reads the parameters of a declaration.  Angle brackets without parameters are left out. -/
def parameters : Rule Tokens := do
  if ← sees (Ahead.sign "<") then
    let parameters ← angled grammar.parameter
    return if parameters.isEmpty then []
      else AngleArgument.enclose (AngleArgument.arrange parameters)
  else return []

/-- Reads the parameters for which a bound holds, in the order in which they were written. -/
def binder : Rule Tokens := do
  let lead ← word "for"
  let parameters ← angled grammar.parameter
  return lead ++ AngleArgument.enclose (parameters.flatMap AngleArgument.written)

def binder? : Rule Tokens :=
  ifAhead (Ahead.word "for") grammar.binder

/-! ## Bounds -/

def constantMark : Rule Tokens :=
  choose [
    (Ahead.group '[', anyGroup),
    (Ahead.sign "~", all [sign "~", word "const"]),
    (Ahead.word "const", anyWord),
    (fun _ => true, return [])]

/-- Reads a trait as a bound.  A question mark is written in front of the binder.  There are no
tokens for a bound that holds in constants. -/
def traitBound : Rule (Option Tokens) := do
  let before ← grammar.binder?
  let mark ← constantMark
  let modifier ← sign? "?"
  let behind ← if before.isEmpty then grammar.binder? else pure []
  let path ← grammar.typePath
  return if mark.isEmpty then some (modifier ++ before ++ behind ++ path.tokens) else none

def captured : Rule Tokens := do
  let lead ← word "use"
  let arguments ← angled do
    return (← sees Ahead.lifetime, ← choose [(Ahead.lifetime, lifetime), (Ahead.anyWord, anyWord)])
  return lead ++ AngleArgument.enclose (AngleArgument.arrange arguments)

def readBound : Rule Tokens :=
  choose [
    (Ahead.lifetime, lifetime),
    (Ahead.word "use", captured),
    (Ahead.group '(', asWritten do
      return (← inside '(' grammar.traitBound).map (Token.enclose '(')),
    (fun _ => true, asWritten grammar.traitBound)]

/-! ## Conditions -/

def conditionsEnd : Ahead.Test := fun trees =>
  trees.isEmpty || Ahead.group '\x7b' trees || Ahead.sign "," trees || Ahead.sign ";" trees ||
    Ahead.sign "=" trees || Ahead.only ":" ["::"] trees

def condition : Rule Tokens :=
  choose [
    (fun trees => Ahead.lifetime trees && Ahead.later 1 (Ahead.sign ":") trees,
      all [lifetime, grammar.colonBounds]),
    (fun _ => true, all [grammar.binder?, grammar.typeTokens true, grammar.colonBounds])]

/-- Reads the conditions of a declaration.  Without any the word in front of them is left out. -/
def conditions : Rule Tokens := do
  let lead ← word? "where"
  if lead.isEmpty then return []
  let read ← separated "," conditionsEnd grammar.condition
  return if read.isEmpty then [] else lead ++ read

end PartialEntity.Derive.Grammar
