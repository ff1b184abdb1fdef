/-!
# Errors

An error is a chain of faults, the outermost first.  Adding context puts a fault in front of the
chain; the innermost fault is what went wrong in the first place.
-/

namespace PartialEntity

/-- One thing that can go wrong, or the remark that was added about it. -/
inductive Fault where
  /-- A free message. -/
  | adhoc (message : String)
  /-- An error that came from outside and is only passed on. -/
  | foreign (message : String)
  /-- Fields of a kind were read or copied while they were not held. -/
  | fieldUnavailable (kind : String) (fields : List String)
  /-- A resolver could not supply what an operation depends on. -/
  | entityUnavailable (entity : String)
  /-- A field graph in text form names a field that the kind does not have. -/
  | unknownField (kind name : String) (offset : Nat)
  /-- A field graph in text form is malformed at a character. -/
  | graphSyntax (message : String) (offset : Nat)
  /-- A subgraph was attached to, or asked of, a field that declares something else. -/
  | typeMismatch (field expected actual : String)
  /-- A field that declares a nested kind holds something without members of any kind. -/
  | unsupportedShape (field content : String)
  /-- Settings that contradict one another. -/
  | invalidConfiguration (message : String)
  /-- A layer whose own fault is not known. -/
  | unknown
deriving DecidableEq, Inhabited, Repr

/-- The names under which callers can tell faults apart. -/
inductive Category where
  | fieldUnavailable
  | entityUnavailable
  | unknownField
  | graphSyntax
  | typeMismatch
  | unsupportedShape
  | invalidConfiguration
  | adhoc
deriving DecidableEq, Repr

/-- A nonempty chain of faults. -/
structure Error where
  /-- The fault shown first. -/
  outer : Fault
  /-- What it wraps, from the outside in. -/
  causes : List Fault
deriving DecidableEq, Inhabited, Repr

namespace Fault

def message : Fault → String
  | adhoc text => text
  | foreign text => text
  | fieldUnavailable kind fields =>
    "field unavailable: " ++ kind ++ " \x7b" ++ ", ".intercalate fields ++ "\x7d"
  | entityUnavailable entity => "entity unavailable: " ++ entity
  | unknownField kind name offset =>
    "unknown field `" ++ name ++ "` for " ++ kind ++ " at offset " ++ toString offset
  | graphSyntax text offset => "invalid field graph at offset " ++ toString offset ++ ": " ++ text
  | typeMismatch field expected actual =>
    "type mismatch: field `" ++ field ++ "` declares nested " ++ expected ++ ", got " ++ actual
  | unsupportedShape field content =>
    "unsupported shape: field `" ++ field ++ "` holds " ++ content ++
      ", which has no field-aware members"
  | invalidConfiguration text => "invalid configuration: " ++ text
  | unknown => "unknown fieldwise error"

/-- The category of a fault; foreign and unknown ones have none. -/
def category? : Fault → Option Category
  | adhoc _ => some .adhoc
  | foreign _ => none
  | fieldUnavailable _ _ => some .fieldUnavailable
  | entityUnavailable _ => some .entityUnavailable
  | unknownField _ _ _ => some .unknownField
  | graphSyntax _ _ => some .graphSyntax
  | typeMismatch _ _ _ => some .typeMismatch
  | unsupportedShape _ _ => some .unsupportedShape
  | invalidConfiguration _ => some .invalidConfiguration
  | unknown => none

def offset? : Fault → Option Nat
  | graphSyntax _ offset => some offset
  | unknownField _ _ offset => some offset
  | _ => none

def unknownName? : Fault → Option (String × Nat)
  | unknownField _ name offset => some (name, offset)
  | _ => none

end Fault

namespace Category

/-- All categories, in the order in which they are tried. -/
def all : List Category :=
  [fieldUnavailable, entityUnavailable, unknownField, graphSyntax, typeMismatch, unsupportedShape,
    invalidConfiguration, adhoc]

/-- Whether a category is looked for in the whole chain.  The other two say something about the
outermost fault only. -/
def seesThroughContext : Category → Bool
  | adhoc | invalidConfiguration => false
  | _ => true

end Category

namespace Error

def of (fault : Fault) : Error := ⟨fault, []⟩

def chain (error : Error) : List Fault :=
  error.outer :: error.causes

/-- The wording of an error: its faults from the outside in. -/
def message (error : Error) : String :=
  ": ".intercalate (error.chain.map Fault.message)

/-- The innermost fault, as an error of its own. -/
def root (error : Error) : Error :=
  of (error.causes.getLastD error.outer)

/-- Puts `remark` in front of an error.  A remark that wraps something already has no room for
the error and is replaced by an unknown fault.  A remark that someone else still holds cannot be
given a cause; its wording is used in a layer of its own. -/
def context (error remark : Error) (held : Bool) : Error :=
  match remark.causes with
  | [] => ⟨if held then .adhoc remark.outer.message else remark.outer, error.chain⟩
  | _ :: _ => ⟨.unknown, error.chain⟩

def is (category : Category) (error : Error) : Bool :=
  if category.seesThroughContext then
    error.chain.any fun fault => fault.category? == some category
  else error.outer.category? == some category

def category? (error : Error) : Option Category :=
  Category.all.find? fun category => error.is category

/-- The outermost offset in the chain. -/
def offset? (error : Error) : Option Nat :=
  error.chain.findSome? Fault.offset?

def unknownName? (error : Error) : Option (String × Nat) :=
  error.chain.findSome? Fault.unknownName?

/-- The foreign error that the outermost fault passes on. -/
def source? (error : Error) : Option String :=
  match error.outer with
  | .foreign text => some text
  | _ => none

end Error

def Fault.raise {α : Type} (fault : Fault) : Except Error α :=
  .error (.of fault)

end PartialEntity
