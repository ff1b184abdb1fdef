import PartialEntity.Catalog

/-!
# The kinds of the harbor

A catalog of people, boats and the places where boats lie, rich enough to nest in circles and
through every container.  Stores and items add the containers that harbors do not need and the
declarations that do not agree with what is stored.  `broad` has more fields than one machine word
has bits.
-/

namespace PartialEntity.Harbor

inductive Kind where
  | person
  | boat
  | marina
  | berth
  | carrier
  /-- A stored good; from id 1000 on goods are told apart by their labels. -/
  | item
  /-- A store of items, in every container there is. -/
  | depot
  /-- Seventy plain fields. -/
  | broad
deriving DecidableEq, Repr

namespace Kind

open Content Shape

/-- The field that stores the identity. -/
private def idField : FieldInfo Kind := ⟨"id", "Id", none, identity⟩

private def plainField (name label : String) (type : ScalarType) : FieldInfo Kind :=
  ⟨name, label, none, plain type⟩

private def nestedField (name label : String) (kind : Kind) (shape : Shape Kind) :
    FieldInfo Kind :=
  ⟨name, label, some kind, nested kind shape⟩

def fields : Kind → List (FieldInfo Kind)
  | person => [
    idField,
    plainField "name" "Name" .text,
    plainField "email" "Email" .text,
    nestedField "boat" "Boat" boat (option (member boat))]
  | boat => [
    idField,
    plainField "name" "Name" .text,
    plainField "type" "Kind" .text,
    nestedField "homePort" "HomePort" marina (option (member marina)),
    nestedField "crew" "Crew" person (vector (member person))]
  | marina => [
    idField,
    plainField "name" "Name" .text,
    nestedField "boats" "Boats" boat (table .indexed (scalar .text) (member boat)),
    nestedField "berths" "Berths" berth (set .hashed (member berth))]
  | berth => [
    idField,
    plainField "number" "Number" (.unsigned 32),
    nestedField "occupant" "Occupant" boat (option (member boat))]
  | carrier => [
    idField,
    plainField "name" "Name" .text,
    nestedField "fleet" "Fleet" boat (table .sorted (scalar .text) (vector (member boat))),
    nestedField "leases" "Leases" berth (table .hashed (member berth) (vector (scalar .text))),
    nestedField "swaps" "Swaps" berth (table .hashed (member berth) (member berth)),
    nestedField "tally" "Tally" berth (table .hashed (scalar .text) (scalar (.unsigned 32)))]
  | item => [
    idField,
    plainField "label" "Label" .text,
    plainField "weight" "Weight" (.signed 64),
    nestedField "inner" "Inner" item (option (boxed (member item))),
    ⟨"bad", "Bad", some item, plain (.unsigned 32)⟩]
  | depot => [
    idField,
    plainField "note" "Note" .text,
    nestedField "queue" "Queue" item (deque (member item)),
    nestedField "hashed" "Hashed" item (set .hashed (member item)),
    nestedField "sorted" "Sorted" item (set .sorted (member item)),
    nestedField "ordered" "Ordered" item (set .indexed (member item)),
    nestedField "byItem" "ByItem" item (table .sorted (member item) (vector (scalar .text))),
    nestedField "links" "Links" item (table .indexed (member item) (member item)),
    nestedField "named" "Named" item (table .hashed (scalar .text) (vector (member item))),
    nestedField "keyed" "Keyed" item (table .hashed (member item) (option (member item))),
    nestedField "sole" "Sole" item (option (boxed (member item))),
    nestedField "grid" "Grid" item (vector (vector (option (member item)))),
    nestedField "deep" "Deep" item
      (table .sorted (member item) (table .indexed (scalar .text) (deque (member item)))),
    nestedField "labels" "Labels" item (table .indexed (scalar .text) (scalar (.signed 64))),
    nestedField "codes" "Codes" item (set .sorted (scalar .text)),
    ⟨"rogue", "Rogue", none, nested item (vector (member item))⟩,
    ⟨"misfit", "Misfit", some berth, nested item (vector (member item))⟩,
    ⟨"mute", "Mute", some item, plain .text⟩]
  | broad =>
    (List.range 70).map fun n => plainField ("w" ++ toString n) ("W" ++ toString n) .text

def name : Kind → String
  | person => "Person"
  | boat => "Boat"
  | marina => "Marina"
  | berth => "Berth"
  | carrier => "Carrier"
  | item => "Item"
  | depot => "Depot"
  | broad => "Broad"

def identityRule : Kind → IdentityRule
  | item => .byTextFrom 1000 1
  | _ => .byId

/-- The members of an entity behind its id and its set of fields. -/
def members : Kind → List (String × Nat)
  | person => [("name", 1), ("email", 2), ("boat", 3)]
  | boat => [("name", 1), ("kind", 2), ("home_port", 3), ("crew", 4)]
  | marina => [("name", 1), ("boats", 2), ("berths", 3)]
  | berth => [("number", 1), ("occupant", 2)]
  | carrier => [("name", 1), ("fleet", 2), ("leases", 3), ("swaps", 4), ("tally", 5)]
  | item => [("label", 1), ("weight", 2), ("bad", 4), ("inner", 3)]
  | depot => [("note", 1), ("mute", 17), ("queue", 2), ("hashed", 3), ("sorted", 4),
    ("ordered", 5), ("by_item", 6), ("links", 7), ("named", 8), ("keyed", 9), ("sole", 10),
    ("grid", 11), ("deep", 12), ("labels", 13), ("codes", 14), ("rogue", 15), ("misfit", 16)]
  | broad => []

instance : Catalog Kind := ⟨name, fields, identityRule, members⟩

end Kind

end PartialEntity.Harbor
