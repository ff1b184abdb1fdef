import PartialEntity.Catalog

/-!
# Sets of fields

A set of field ordinals, held as the number whose binary digits are its membership bits.  Equal
sets are therefore equal as numbers, whatever history produced them, and enumeration is always in
declaration order.
-/

namespace PartialEntity

/-- A finite set of field ordinals. -/
structure FieldSet where
  /-- Bit `n` is set exactly when ordinal `n` is a member. -/
  bits : Nat
deriving DecidableEq, Repr

namespace FieldSet

def empty : FieldSet := ⟨0⟩

instance : EmptyCollection FieldSet := ⟨empty⟩

def contains (set : FieldSet) (ordinal : Nat) : Bool :=
  set.bits.testBit ordinal

def singleton (ordinal : Nat) : FieldSet := ⟨1 <<< ordinal⟩

def union (left right : FieldSet) : FieldSet := ⟨left.bits ||| right.bits⟩

def inter (left right : FieldSet) : FieldSet := ⟨left.bits &&& right.bits⟩

/-- Members of the left set that the right one lacks. -/
def diff (left right : FieldSet) : FieldSet :=
  ⟨left.bits ^^^ (left.bits &&& right.bits)⟩

def insert (set : FieldSet) (ordinal : Nat) : FieldSet :=
  set.union (singleton ordinal)

def erase (set : FieldSet) (ordinal : Nat) : FieldSet :=
  set.diff (singleton ordinal)

/-- Inserts an ordinal and tells whether it was new. -/
def insertNew (set : FieldSet) (ordinal : Nat) : Bool × FieldSet :=
  (!set.contains ordinal, set.insert ordinal)

/-- Erases an ordinal and tells whether it was there. -/
def eraseHeld (set : FieldSet) (ordinal : Nat) : Bool × FieldSet :=
  (set.contains ordinal, set.erase ordinal)

def insertAll (set : FieldSet) (ordinals : List Nat) : FieldSet :=
  ordinals.foldl insert set

def ofList (ordinals : List Nat) : FieldSet :=
  insertAll empty ordinals

/-- The members in ascending order. -/
def toList (set : FieldSet) : List Nat :=
  (List.range (set.bits.log2 + 1)).filter set.contains

def size (set : FieldSet) : Nat :=
  set.toList.length

def isEmpty (set : FieldSet) : Bool :=
  set.bits == 0

def isSubset (set other : FieldSet) : Bool :=
  (set.diff other).isEmpty

/-! ## Fields of a kind -/

variable {κ : Type} [Catalog κ]

def all (kind : κ) : FieldSet :=
  ofList (List.range (Catalog.size kind))

/-- Every field of a kind except the listed ones. -/
def complementOf (kind : κ) (ordinals : List Nat) : FieldSet :=
  ordinals.foldl erase (all kind)

/-- The names of the members, in declaration order. -/
def names (kind : κ) (set : FieldSet) : List String :=
  set.toList.map (Catalog.fieldName kind)

def describe (kind : κ) (set : FieldSet) : String :=
  "\x7b" ++ ", ".intercalate (set.toList.map (Catalog.fieldLabel kind)) ++ "\x7d"

end FieldSet

end PartialEntity
