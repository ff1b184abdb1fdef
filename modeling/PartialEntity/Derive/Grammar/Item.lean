import PartialEntity.Derive.Grammar.Expression
import PartialEntity.Derive.Grammar.Type

/-!
# Items

Declarations inside of a block.  Those that only a later version of the language may allow can be
read as well, but they stay as they were written.
-/

namespace PartialEntity.Derive.Grammar

open Rule

variable (grammar : Grammar)

/-! ## Functions -/

/-- What comes behind a word, if it comes next. -/
def behind (text : String) (trees : List TokenTree) : List TokenTree :=
  if Ahead.word text trees then trees.drop 1 else trees

def functionItemAhead : Ahead.Test := fun trees =>
  let called := behind "safe" (behind "unsafe" (behind "async" (behind "const" trees)))
  let name :=
    if Ahead.word "extern" called then
      if Ahead.later 1 Ahead.literal called then called.drop 2 else called.drop 1
    else called
  Ahead.word "fn" name

def receiverAhead : Ahead.Test := fun trees =>
  let borrowed :=
    if Ahead.sign "&" trees then
      if Ahead.later 1 Ahead.lifetime trees then trees.drop 2 else trees.drop 1
    else trees
  let value := behind "mut" borrowed
  Ahead.word "self" value && !Ahead.later 1 (Ahead.sign "::") value

/-- Reads a parameter of a function.  A type with arguments can stand for a parameter without a
name. -/
def functionParameter : Rule Tokens :=
  all [
    grammar.attributes,
    choose [
      (Ahead.sign "...", sign "..."),
      (receiverAhead, all [
        sign? "&",
        ifAhead Ahead.lifetime lifetime,
        word? "mut",
        anyWord,
        ifAhead (Ahead.sign ":") (all [sign ":", grammar.typeTokens true])]),
      (fun trees => Ahead.name trees && Ahead.later 1 (Ahead.sign "<") trees,
        do return ("_" : Token) :: (":" : Token) :: (← grammar.typeTokens true)),
      (fun _ => true, all [
        grammar.pattern,
        sign ":",
        choose [
          (Ahead.sign "...", sign "..."),
          (fun _ => true, grammar.typeTokens true)]])]]

def signature : Rule Tokens :=
  all [
    word? "const",
    word? "async",
    word? "unsafe",
    word? "safe",
    ifAhead (Ahead.word "extern") callingConvention,
    word "fn",
    anyWord,
    grammar.parameters,
    enclosed '(' (commas grammar.functionParameter),
    grammar.resultType true,
    grammar.conditions]

/-- Reads a function.  There are no tokens for one without a body. -/
def functionItem : Rule (Option Tokens) := do
  let signature ← grammar.signature
  if ← sees (Ahead.sign ";") then
    let _ ← sign ";"
    return none
  else return some (signature ++ (← grammar.block))

/-! ## Values -/

def colonType : Rule Tokens :=
  all [sign ":", grammar.typeTokens true]

def definition : Rule Tokens :=
  ifAhead (Ahead.sign "=") (all [sign "=", grammar.expressionTokens true])

/-- Reads a variable.  There are no tokens for one without type or value. -/
def staticItem : Rule (Option Tokens) := do
  let front ← all [anyWord, word? "mut", anyWord]
  let type ← ifAhead (Ahead.sign ":") grammar.colonType
  let value ← grammar.definition
  let final ← sign ";"
  return if type.isEmpty || value.isEmpty then none else some (front ++ type ++ value ++ final)

/-- Reads a constant.  There are no tokens for one with parameters or conditions, nor for one
without a value where it needs one. -/
def constantItem (needsValue : Bool) : Rule (Option Tokens) := do
  let front ← all [anyWord, anyWord]
  let parametrized ← sees (Ahead.sign "<")
  let _ ← grammar.parameters
  let type ← grammar.colonType
  let value ← grammar.definition
  let conditioned ← sees (Ahead.word "where")
  let _ ← grammar.conditions
  let final ← sign ";"
  return if parametrized || conditioned || (needsValue && value.isEmpty) then none
    else some (front ++ type ++ value ++ final)

/-! ## Types -/

/-- Reads a name for a type.  Whether it has bounds and whether it has a definition decides whether
there are tokens for it. -/
def typeItem (fits : Bool → Bool → Bool) : Rule (Option Tokens) := do
  let front ← all [anyWord, anyWord, grammar.parameters]
  let bounded ← sees (Ahead.sign ":")
  let bounds ← grammar.bounds?
  let before ← grammar.conditions
  let defined ← sees (Ahead.sign "=")
  let type ← ifAhead (Ahead.sign "=") (all [sign "=", grammar.typeTokens true])
  let final ← all [grammar.conditions, sign ";"]
  return if fits bounded defined then some (front ++ bounds ++ before ++ type ++ final) else none

def positionalField : Rule Tokens :=
  all [grammar.attributes, visibility, grammar.typeTokens true]

def namedField : Rule Tokens :=
  all [
    grammar.attributes,
    visibility,
    anyWord,
    sign ":",
    choose [
      (fun trees => Ahead.words ["struct", "union"] trees && Ahead.later 1 Ahead.anyGroup trees,
        verbatim (all [anyWord, anyGroup])),
      (fun _ => true, grammar.typeTokens true)]]

def fields : Rule Tokens :=
  choose [
    (Ahead.group '(', enclosed '(' (commas grammar.positionalField)),
    (Ahead.group '\x7b', enclosed '\x7b' (commas grammar.namedField)),
    (fun _ => true, return [])]

def structureItem : Rule Tokens :=
  all [
    anyWord,
    anyWord,
    grammar.parameters,
    grammar.conditions,
    grammar.fields,
    grammar.conditions,
    sign? ";"]

/-- Reads a variant.  Its visibility is left out. -/
def variant : Rule Tokens := do
  let attributes ← grammar.attributes
  let _ ← visibility
  return attributes ++ (← all [anyWord, grammar.fields, grammar.definition])

def enumerationItem : Rule Tokens :=
  all [
    anyWord,
    anyWord,
    grammar.parameters,
    grammar.conditions,
    enclosed '\x7b' (commas grammar.variant)]

/-! ## Macros -/

/-- Reads the call of a macro, which can define something. -/
def macroItem : Rule Tokens :=
  all [plainPath, sign "!", ifAhead Ahead.anyWord anyWord, anyGroup, sign? ";"]

/-- Reads the definition of a macro. -/
def macroDefinition : Rule Tokens :=
  all [anyWord, anyWord, ifAhead (Ahead.group '(') anyGroup, anyGroup]

/-! ## Traits -/

def traitItem : Rule Tokens := asWritten do
  let attributes ← grammar.attributes
  let marks ← all [visibility, word? "default"]
  let tokens ← choose [
    (functionItemAhead, do
      let signature ← grammar.signature
      let body ← choose [(Ahead.sign ";", sign ";"), (fun _ => true, grammar.block)]
      return some (signature ++ body)),
    (Ahead.word "const", grammar.constantItem false),
    (Ahead.word "type", grammar.typeItem fun _ _ => true),
    (fun _ => true, some <$> macroItem)]
  return if marks.isEmpty then tokens.map (attributes ++ ·) else none

/-- Reads a trait, or a name for bounds. -/
def traitDeclaration : Rule Tokens :=
  all [
    word? "unsafe",
    word? "auto",
    word "trait",
    anyWord,
    grammar.parameters,
    choose [
      (Ahead.sign "=", all [sign "=", grammar.bounds, grammar.conditions, sign ";"]),
      (fun _ => true, all [
        grammar.bounds?,
        grammar.conditions,
        enclosed '\x7b' (all [grammar.innerAttributes, toEnd grammar.traitItem])])]]

def implementationItem : Rule Tokens := asWritten do
  let attributes ← grammar.attributes
  let marks ← all [
    visibility,
    ifAhead (fun trees => Ahead.word "default" trees && !Ahead.later 1 (Ahead.sign "!") trees)
      anyWord]
  let tokens ← choose [
    (functionItemAhead, grammar.functionItem),
    (Ahead.word "const", grammar.constantItem true),
    (Ahead.word "type", grammar.typeItem fun bounded defined => !bounded && defined),
    (fun _ => true, some <$> macroItem)]
  return tokens.map (attributes ++ marks ++ ·)

/-- Reads an implementation.  There are no tokens for one that holds in constants, nor for that of
something that is no trait.  What is denied without a type to deny it of stays as it was written. -/
def implementation : Rule (Option Tokens) := do
  let front ← all [
    word? "default",
    word? "unsafe",
    word "impl",
    ifAhead parametersAhead grammar.parameters]
  let constant ← ifAhead
    (fun trees => Ahead.word "const" trees ||
      (Ahead.sign "?" trees && Ahead.later 1 (Ahead.word "const") trees))
    (all [sign? "?", anyWord])
  let before ← get
  let negative ← ifAhead
    (fun trees => Ahead.sign "!" trees && !Ahead.later 1 (Ahead.group '\x7b') trees)
    (sign "!")
  let first ← grammar.type true
  let written ← taken before
  let subject ← ifAhead (Ahead.word "for") (all [anyWord, grammar.typeTokens true])
  let rest ← all [
    grammar.conditions,
    enclosed '\x7b' (all [grammar.innerAttributes, toEnd grammar.implementationItem])]
  return if !constant.isEmpty || (!subject.isEmpty && first.form == .other) then none
    else
      let head := if subject.isEmpty && !negative.isEmpty then written
        else negative ++ first.tokens
      some (front ++ head ++ subject ++ rest)

/-! ## Modules -/

def moduleItem : Rule Tokens :=
  all [
    word? "unsafe",
    anyWord,
    anyWord,
    choose [
      (Ahead.sign ";", sign ";"),
      (fun _ => true, enclosed '\x7b' (all [grammar.innerAttributes, toEnd grammar.item]))]]

mutual

/-- The tokens of a tree of imports. -/
def importTokens : TokenTree → Tokens
  | .group bracket inside => Token.enclose bracket (allImportTokens inside)
  | .word text | .literal text | .lifetime text => [(text : Token)]
  | .sign mark _ => [(String.singleton mark : Token)]

def allImportTokens : List TokenTree → Tokens
  | [] => []
  | .sign ':' true :: .sign ':' _ :: rest => ("::" : Token) :: allImportTokens rest
  | tree :: rest => importTokens tree ++ allImportTokens rest

end

/-- Whether an import in brackets begins at the root. -/
def isRooted : Tokens → Bool
  | first :: second :: rest =>
    (["\x7b", ","].contains first.text && second.text == "::") || isRooted (second :: rest)
  | _ => false

/-- Reads imports.  There are no tokens for those that begin at the root inside of brackets. -/
def imports : Rule (Option Tokens) := do
  let lead ← anyWord
  let trees ← get
  let tree := trees.takeWhile fun
    | .sign ';' _ => false
    | _ => true
  set (trees.drop tree.length)
  let final ← sign ";"
  let tokens := allImportTokens tree
  return if isRooted tokens then none else some (lead ++ tokens ++ final)

def foreignItem : Rule Tokens := asWritten do
  let front ← all [grammar.attributes, visibility]
  let tokens ← choose [
    (functionItemAhead, do
      let signature ← grammar.signature
      let isSafe := (signature.takeWhile (·.text != "fn")).any (·.text == "safe")
      if ← sees (Ahead.sign ";") then
        let final ← sign ";"
        return if isSafe then none else some (signature ++ final)
      else
        let _ ← grammar.block
        return none),
    (fun trees => Ahead.word "static" (behind "safe" (behind "unsafe" trees)), do
      let safety ← all [word? "unsafe", word? "safe"]
      let name ← all [anyWord, word? "mut", anyWord]
      let type ← grammar.colonType
      let value ← grammar.definition
      let final ← sign ";"
      return if safety.isEmpty && value.isEmpty then some (name ++ type ++ final) else none),
    (Ahead.word "type", grammar.typeItem fun bounded defined => !bounded && !defined),
    (fun _ => true, some <$> macroItem)]
  return tokens.map (front ++ ·)

def foreignModule : Rule Tokens :=
  all [
    word? "unsafe",
    callingConvention,
    enclosed '\x7b' (all [grammar.innerAttributes, toEnd grammar.foreignItem])]

/-! ## Items -/

def foreignName : Rule Tokens :=
  all [anyWord, anyWord, anyWord, ifAhead (Ahead.word "as") (all [anyWord, anyWord]), sign ";"]

/-- Whether a word comes next, perhaps behind others. -/
def declares (text : String) (before : List String) : Ahead.Test :=
  fun trees => Ahead.word text (before.foldl (fun trees word => behind word trees) trees)

/-- Reads an item behind its attributes and its visibility. -/
def itemBody (isPublic : Bool) : Rule (Option Tokens) :=
  choose [
    (functionItemAhead, grammar.functionItem),
    (fun trees => Ahead.word "extern" trees && Ahead.later 1 (Ahead.word "crate") trees,
      some <$> foreignName),
    (declares "extern" ["unsafe"], some <$> grammar.foreignModule),
    (Ahead.word "use", imports),
    (Ahead.word "static", grammar.staticItem),
    (Ahead.word "const", grammar.constantItem true),
    (declares "mod" ["unsafe"], some <$> grammar.moduleItem),
    (Ahead.word "type", grammar.typeItem fun bounded defined => !bounded && defined),
    (Ahead.word "struct", some <$> grammar.structureItem),
    (Ahead.word "enum", some <$> grammar.enumerationItem),
    (fun trees => Ahead.word "union" trees && Ahead.later 1 Ahead.name trees,
      some <$> grammar.structureItem),
    (declares "trait" ["unsafe", "auto"], some <$> grammar.traitDeclaration),
    (declares "impl" ["default", "unsafe"], do
      let tokens ← grammar.implementation
      return if isPublic then none else tokens),
    (Ahead.word "macro", do
      let _ ← macroDefinition
      return none),
    (fun _ => true, some <$> macroItem)]

def readItem : Rule Tokens := asWritten do
  let attributes ← grammar.attributes
  let visibility ← visibility
  return (← grammar.itemBody !visibility.isEmpty).map (attributes ++ visibility ++ ·)

/-- Whether a constant or a variable comes next, and not a function without a name or a block. -/
def valueItemAhead : Ahead.Test := fun trees =>
  let first := trees.drop 1
  (Ahead.word "static" trees && (Ahead.word "mut" first || Ahead.name first)) ||
    (Ahead.word "const" trees && !(Ahead.group '\x7b' first ||
      Ahead.words ["static", "move"] first || Ahead.sign "|" first ||
      (Ahead.word "async" first &&
        !Ahead.words ["unsafe", "extern", "fn"] (first.drop 1))))

def itemAhead : Ahead.Test := fun trees =>
  let first := trees.drop 1
  Ahead.words ["pub", "extern", "use", "fn", "mod", "type", "struct", "enum", "trait", "impl",
      "macro"] trees ||
    (Ahead.word "crate" trees && !Ahead.sign "::" first) || valueItemAhead trees ||
    (Ahead.word "unsafe" trees && !Ahead.group '\x7b' first) ||
    (Ahead.word "async" trees && Ahead.words ["unsafe", "extern", "fn"] first) ||
    (Ahead.word "union" trees && Ahead.name first) ||
    (Ahead.word "auto" trees && Ahead.word "trait" first) ||
    (Ahead.word "default" trees && Ahead.words ["unsafe", "impl"] first)

end PartialEntity.Derive.Grammar
