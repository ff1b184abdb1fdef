/-!
# Shapes of stored values

What a field may store: a scalar, members of some kind, or containers of these.  A shape says how
an empty value looks, whether members can occur in it at all, and how it is called in diagnostics.
-/

namespace PartialEntity

inductive Scalar where
  | unit
  | bool (value : Bool)
  | char (value : Char)
  | text (value : String)
  | integer (value : Int)
deriving DecidableEq, Repr

inductive ScalarType where
  | unit
  | bool
  | char
  | text
  | signed (bits : Nat)
  | unsigned (bits : Nat)
deriving DecidableEq, Repr

/-- How a set or a table arranges its members. -/
inductive Arrangement where
  /-- By hash: no order that anyone may rely on. -/
  | hashed
  /-- By ascending member or key. -/
  | sorted
  /-- By arrival. -/
  | indexed
deriving DecidableEq, Repr

/-- The type of a stored value; `κ` are the kinds whose members it can hold. -/
inductive Shape (κ : Type) where
  | member (kind : κ)
  | scalar (type : ScalarType)
  | option (inner : Shape κ)
  | boxed (inner : Shape κ)
  | vector (inner : Shape κ)
  | deque (inner : Shape κ)
  | set (arrangement : Arrangement) (inner : Shape κ)
  | table (arrangement : Arrangement) (key value : Shape κ)
deriving DecidableEq, Repr

namespace Scalar

/-- The order of scalars: within a type the natural one, text by character codes. -/
def compare : Scalar → Scalar → Ordering
  | bool left, bool right => Ord.compare left.toNat right.toNat
  | char left, char right => Ord.compare left.toNat right.toNat
  | text left, text right => Ord.compare left right
  | integer left, integer right => Ord.compare left right
  | left, right => Ord.compare (rank left) (rank right)
where
  /-- Scalars of different types are ordered by type. -/
  rank : Scalar → Nat
    | unit => 0
    | bool _ => 1
    | char _ => 2
    | text _ => 3
    | integer _ => 4

instance : Ord Scalar := ⟨compare⟩

end Scalar

namespace ScalarType

def zero : ScalarType → Scalar
  | unit => .unit
  | bool => .bool false
  | char => .char '\x00'
  | text => .text ""
  | signed _ => .integer 0
  | unsigned _ => .integer 0

def name : ScalarType → String
  | unit => "()"
  | bool => "bool"
  | char => "char"
  | text => "alloc::string::String"
  | signed bits => "i" ++ toString bits
  | unsigned bits => "u" ++ toString bits

end ScalarType

namespace Shape

variable {κ : Type}

/-- Whether no value of the shape can have a member of any kind. -/
def isOpaque : Shape κ → Bool
  | member _ => false
  | scalar _ => true
  | option inner | boxed inner | vector inner | deque inner => inner.isOpaque
  | set _ inner => inner.isOpaque
  | table _ key value => key.isOpaque && value.isOpaque

def name (kindName : κ → String) : Shape κ → String
  | member kind => kindName kind
  | scalar type => type.name
  | option inner => "core::option::Option<" ++ name kindName inner ++ ">"
  | boxed inner => "alloc::boxed::Box<" ++ name kindName inner ++ ">"
  | vector inner => "alloc::vec::Vec<" ++ name kindName inner ++ ">"
  | deque inner => "alloc::collections::vec_deque::VecDeque<" ++ name kindName inner ++ ">"
  | set arrangement inner => setName arrangement ++ "<" ++ name kindName inner ++ ">"
  | table arrangement key value =>
    tableName arrangement ++ "<" ++ name kindName key ++ ", " ++ name kindName value ++ ">"
where
  /-- The name of a set without its member type. -/
  setName : Arrangement → String
    | .hashed => "std::collections::hash::set::HashSet"
    | .sorted => "alloc::collections::btree::set::BTreeSet"
    | .indexed => "indexmap::set::IndexSet"
  /-- The name of a table without its key and value types. -/
  tableName : Arrangement → String
    | .hashed => "std::collections::hash::map::HashMap"
    | .sorted => "alloc::collections::btree::map::BTreeMap"
    | .indexed => "indexmap::map::IndexMap"

end Shape

end PartialEntity
