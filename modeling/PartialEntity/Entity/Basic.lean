import PartialEntity.Catalog
import PartialEntity.Error
import PartialEntity.FieldSet
import PartialEntity.Tree.Rebuild

/-!
# Partially loaded entities

An entity has a kind, an id, the set of fields that it holds, and a stored value for each field.
Only the values of held fields mean anything; a field that is not held normally stores what a
fresh reference stores.  Two entities are the same when their identities agree, whatever they
hold.
-/

namespace PartialEntity

/-- An entity of which some fields are loaded. -/
structure Entity (κ : Type) where
  /-- What fields the entity can have. -/
  kind : κ
  /-- The number that identifies it among the entities of its kind. -/
  id : Nat
  /-- The fields that are loaded. -/
  held : FieldSet
  /-- The stored values in the order of the kind's fields, loaded or not.  The place of the
  identity field is taken by a unit value. -/
  slots : List (Tree (Entity κ))

/-- What tells entities apart: a class of identities, then a number or a text. -/
structure IdentityKey where
  rank : Nat
  id : Nat
  text : String
deriving DecidableEq, Ord, Repr

namespace Entity

variable {κ β : Type}

/-! ## Recursion through members -/

mutual

/-- Computes a result for an entity from the results for all members under it. -/
def fold (f : κ → Nat → FieldSet → List (Tree β) → β) : Entity κ → β
  | ⟨kind, id, held, slots⟩ => f kind id held (foldAll f slots)

/-- Computes the results for the members of a tree. -/
def foldTree (f : κ → Nat → FieldSet → List (Tree β) → β) : Tree (Entity κ) → Tree β
  | .leaf member => .leaf (fold f member)
  | .scalar value => .scalar value
  | .option none => .option none
  | .option (some inner) => .option (some (foldTree f inner))
  | .sequence items => .sequence (foldAll f items)
  | .set arrangement items => .set arrangement (foldAll f items)
  | .table arrangement entries => .table arrangement (foldEntries f entries)

def foldAll (f : κ → Nat → FieldSet → List (Tree β) → β) :
    List (Tree (Entity κ)) → List (Tree β)
  | [] => []
  | item :: rest => foldTree f item :: foldAll f rest

def foldEntries (f : κ → Nat → FieldSet → List (Tree β) → β) :
    List (Tree (Entity κ) × Tree (Entity κ)) → List (Tree β × Tree β)
  | [] => []
  | (key, value) :: rest => (foldTree f key, foldTree f value) :: foldEntries f rest

end

/-! ## Held fields -/

def hasField (entity : Entity κ) (field : Nat) : Bool :=
  entity.held.contains field

def hasFields (entity : Entity κ) (fields : List Nat) : Bool :=
  fields.all entity.hasField

/-- Counts a field as loaded, without touching its value. -/
def mark (entity : Entity κ) (field : Nat) : Entity κ :=
  { entity with held := entity.held.insert field }

def unmark (entity : Entity κ) (field : Nat) : Entity κ :=
  { entity with held := entity.held.erase field }

/-! ## Stored values -/

/-- The stored value of a field, loaded or not. -/
def slot (entity : Entity κ) (field : Nat) : Tree (Entity κ) :=
  entity.slots.getD field (.scalar .unit)

def store (entity : Entity κ) (field : Nat) (value : Tree (Entity κ)) : Entity κ :=
  { entity with slots := entity.slots.set field value }

/-- Replaces the stored value of a field and counts the field as loaded. -/
def assign (entity : Entity κ) (field : Nat) (value : Tree (Entity κ)) : Entity κ :=
  (entity.store field value).mark field

/-- The empty value of a shape: zero, the empty text, nothing, or a container without members. -/
def emptyValue : Shape κ → Tree (Entity κ)
  | .member _ => .scalar .unit
  | .scalar type => .scalar type.zero
  | .option _ => .option none
  | .boxed inner => emptyValue inner
  | .vector _ | .deque _ => .sequence []
  | .set arrangement _ => .set arrangement []
  | .table arrangement _ _ => .table arrangement []

/-- What a field stores in an entity that holds nothing. -/
def emptyContent : Content κ → Tree (Entity κ)
  | .identity => .scalar .unit
  | .plain type => .scalar type.zero
  | .nested _ shape => emptyValue shape

variable [Catalog κ]

def emptySlots (kind : κ) : List (Tree (Entity κ)) :=
  (Catalog.fields kind).map fun info => emptyContent info.content

def emptySlot (kind : κ) (field : Nat) : Tree (Entity κ) :=
  (emptySlots kind).getD field (.scalar .unit)

/-- The entity of that id that holds nothing. -/
def ofId (kind : κ) (id : Nat) : Entity κ :=
  ⟨kind, id, ∅, emptySlots kind⟩

def reference (entity : Entity κ) : Entity κ :=
  ofId entity.kind entity.id

/-! ## Identity -/

/-- The text stored in a field, or the empty one if the field stores something else. -/
def storedText (entity : Entity κ) (field : Nat) : String :=
  match entity.slot field with
  | .scalar (.text text) => text
  | _ => ""

def key (entity : Entity κ) : IdentityKey :=
  match Catalog.identity entity.kind with
  | .byId => ⟨0, entity.id, ""⟩
  | .byTextFrom bound field =>
    if entity.id < bound then ⟨0, entity.id, ""⟩ else ⟨1, 0, entity.storedText field⟩

instance : Ord (Entity κ) := ⟨fun left right => compare left.key right.key⟩

/-- Whether two entities of one kind are the same, whatever they hold. -/
def same (left right : Entity κ) : Bool :=
  left.key == right.key

/-! ## Guarded access -/

/-- The stored value of a field, which must be loaded. -/
def get (entity : Entity κ) (field : Nat) : Except Error (Tree (Entity κ)) :=
  if entity.hasField field then pure (entity.slot field)
  else Fault.raise
    (.fieldUnavailable (Catalog.kindName entity.kind) [Catalog.fieldName entity.kind field])

/-- Reads something off an entity if all listed fields are loaded. -/
def getIfPresent {β : Type} (entity : Entity κ) (fields : List Nat) (read : Entity κ → β) :
    Option β :=
  if entity.hasFields fields then some (read entity) else none

def parseField (kind : κ) (name : String) : Except Error Nat :=
  match Catalog.position? kind name with
  | some field => pure field
  | none => Fault.raise (.unknownField (Catalog.kindName kind) name 0)

/-- Whether all fields of the given names are loaded.  The first that is not settles the answer;
an unknown name before it is an error. -/
def hasFieldsNamed (entity : Entity κ) : List String → Except Error Bool
  | [] => pure true
  | name :: rest => do
    let field ← parseField entity.kind name
    if entity.hasField field then entity.hasFieldsNamed rest else pure false

/-- Fails, naming what is lacking, unless all wanted fields are loaded. -/
def ensureFields (entity : Entity κ) (wanted : FieldSet) : Except Error Unit :=
  let lacking := wanted.diff entity.held
  if lacking.isEmpty then pure ()
  else Fault.raise
    (.fieldUnavailable (Catalog.kindName entity.kind) (lacking.names entity.kind))

/-! ## Clearing -/

/-- Unloads fields: those that were loaded store again what a fresh reference stores.  The id
stays. -/
def clearFields (entity : Entity κ) (fields : FieldSet) : Entity κ :=
  let cleared := entity.held.inter fields
  { entity with
    held := entity.held.diff cleared
    slots := entity.slots.mapIdx fun field value =>
      if cleared.contains field then emptySlot entity.kind field else value }

/-- Whether any of the fields is loaded, that is, whether clearing them would change anything. -/
def holdsAny (entity : Entity κ) (fields : FieldSet) : Bool :=
  !(entity.held.inter fields).isEmpty

end Entity

end PartialEntity
