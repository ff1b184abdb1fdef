import PartialEntity.Entity.Basic
import PartialEntity.Harbor.Kinds

/-!
# Sample entities of the harbor

Fully loaded entities: every field is held at every depth that the samples reach.
-/

namespace PartialEntity.Harbor

/-- An entity of the harbor with the first fields of its kind loaded: the id, then the given
values in declaration order. -/
def loaded (kind : Kind) (id : Nat) (values : List (Tree (Entity Kind))) : Entity Kind :=
  (values.zipIdx 1).foldl (fun entity (value, field) => entity.assign field value)
    ((Entity.ofId kind id).mark 0)

def text {α : Type} (value : String) : Tree α :=
  .scalar (.text value)

def number {α : Type} (value : Nat) : Tree α :=
  .scalar (.integer value)

namespace Samples

def berth (id number : Nat) : Entity Kind :=
  loaded .berth id [Harbor.number number, .option none]

def northport : Entity Kind :=
  loaded .marina 100 [text "Northport", .table .indexed [], .set .hashed [.leaf (berth 500 7)]]

def bob : Entity Kind :=
  loaded .person 2 [text "Bob", text "bob@example.com", .option none]

/-- A boat at home in Northport, with Bob as its crew. -/
def osprey : Entity Kind :=
  loaded .boat 10 [text "Osprey", text "sloop", .option (some (.leaf northport)),
    .sequence [.leaf bob]]

def ann : Entity Kind :=
  loaded .person 1 [text "Ann", text "ann@example.com", .option (some (.leaf osprey))]

def tidewater : Entity Kind :=
  loaded .carrier 300 [
    text "Tidewater",
    .table .sorted [
      (text "north", .sequence [.leaf osprey]),
      (text "south", .sequence [.leaf (loaded .boat 11 [text "Gull", text "ketch"])])],
    .table .hashed [
      (.leaf (berth 500 7), .sequence [text "north"]),
      (.leaf (berth 501 8), .sequence [text "south"])],
    .table .hashed [(.leaf (berth 500 7), .leaf (berth 501 8))],
    .table .hashed [(text "north", number 4)]]

end Samples

end PartialEntity.Harbor
