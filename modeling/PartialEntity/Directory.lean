import PartialEntity.Assoc
import PartialEntity.Entity.Extend

/-!
# Directories

A store of fully loaded entities that answers requests with copies holding exactly the graph asked
for.  Once a directory was told to fail, every request fails.
-/

namespace PartialEntity

/-- A store of entities by id. -/
structure Directory (κ : Type) where
  /-- The entities under their ids. -/
  records : List (Nat × Entity κ)
  /-- The message with which every request fails, if one was set. -/
  failure : Option String

namespace Directory

variable {κ : Type}

/-- Adds an entity; it replaces one of the same id. -/
def insert (directory : Directory κ) (record : Entity κ) : Directory κ :=
  { directory with records := Assoc.insert record.id record directory.records }

/-- The directory of the listed entities.  Of several with one id the last counts. -/
def ofList (records : List (Entity κ)) : Directory κ :=
  records.foldl insert ⟨[], none⟩

def remove (directory : Directory κ) (id : Nat) : Directory κ :=
  { directory with records := Assoc.erase id directory.records }

def failWith (directory : Directory κ) (message : String) : Directory κ :=
  { directory with failure := some message }

variable [DecidableEq κ] [Catalog κ]

def answer (directory : Directory κ) : Resolver κ := fun id graph =>
  match directory.failure with
  | some message => Fault.raise (.adhoc message)
  | none =>
    match Assoc.find? id directory.records with
    | none => pure none
    | some record => some <$> Entity.cloneGraph graph record

end Directory

end PartialEntity
