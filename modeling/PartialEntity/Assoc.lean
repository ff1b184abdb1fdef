/-!
# Ordered association lists

Finite maps whose entries keep the order in which their keys first arrived.  A key that is present
keeps its place when its value changes; a key that was erased and comes back goes to the end.
-/

namespace PartialEntity.Assoc

variable {α β : Type} [BEq α]

/-- Replaces the value of a key by what `f` makes of it, in place.  A key that is absent is put at
the end, with the value `f none`. -/
def alter (key : α) (f : Option β → β) : List (α × β) → List (α × β)
  | [] => [(key, f none)]
  | (k, v) :: rest =>
    if k == key then (k, f (some v)) :: rest else (k, v) :: alter key f rest

/-- Sets the value of a key; a present key keeps its place. -/
def insert (key : α) (value : β) (entries : List (α × β)) : List (α × β) :=
  alter key (fun _ => value) entries

/-- Removes a key; the others keep their order. -/
def erase (key : α) (entries : List (α × β)) : List (α × β) :=
  entries.filter (fun entry => !(entry.1 == key))

def find? (key : α) : List (α × β) → Option β
  | [] => none
  | (k, v) :: rest => if k == key then some v else find? key rest

def contains (key : α) (entries : List (α × β)) : Bool :=
  (find? key entries).isSome

end PartialEntity.Assoc
