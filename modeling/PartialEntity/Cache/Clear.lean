import PartialEntity.Cache.Basic

/-!
# Forgetting

Stored entities are dropped whole or field by field.  An entry that holds nothing any more is
dropped altogether.  Each operation tells whether, or how many times, an entry lost something.
-/

namespace PartialEntity.Cache

variable {κ : Type}

def clearAll (cache : Cache κ) : Cache κ :=
  { cache with entries := [] }

def clear (cache : Cache κ) (id : Nat) : Bool × Cache κ :=
  (cache.contains id, { cache with entries := Assoc.erase id cache.entries })

def clearEntity (cache : Cache κ) (entity : Entity κ) : Bool × Cache κ :=
  cache.clear entity.id

/-- Drops every entry that matches. -/
def clearMatching (cache : Cache κ) (matching : Entity κ → Bool) : Nat × Cache κ :=
  let kept := cache.entries.filter fun entry => !matching entry.2
  (cache.size - kept.length, { cache with entries := kept })

/-- Performs an operation for each id in turn and counts how often it changed something. -/
def countEach (change : Cache κ → Nat → Bool × Cache κ) (cache : Cache κ) (ids : List Nat) :
    Nat × Cache κ :=
  ids.foldl (fun (count, cache) id =>
    let (changed, cache) := change cache id
    (if changed then count + 1 else count, cache)) (0, cache)

def clearIds (cache : Cache κ) (ids : List Nat) : Nat × Cache κ :=
  countEach clear cache ids

def clearEntities (cache : Cache κ) (entities : List (Entity κ)) : Nat × Cache κ :=
  cache.clearIds (entities.map (·.id))

variable [Catalog κ]

/-- Drops fields from the entry of an id, and the entry once it holds nothing. -/
def clearFields (cache : Cache κ) (id : Nat) (fields : FieldSet) : Bool × Cache κ :=
  match Assoc.find? id cache.entries with
  | none => (false, cache)
  | some entry =>
    let entry' := entry.clearFields fields
    (entry.holdsAny fields,
      { cache with
        entries :=
          if entry'.held.isEmpty then Assoc.erase id cache.entries
          else Assoc.insert id entry' cache.entries })

def clearIdsFields (cache : Cache κ) (ids : List Nat) (fields : FieldSet) : Nat × Cache κ :=
  countEach (fun cache id => cache.clearFields id fields) cache ids

def clearEntitiesFields (cache : Cache κ) (entities : List (Entity κ)) (fields : FieldSet) :
    Nat × Cache κ :=
  cache.clearIdsFields (entities.map (·.id)) fields

/-- Drops fields from every entry that matches at the start. -/
def clearMatchingFields (cache : Cache κ) (matching : Entity κ → Bool) (fields : FieldSet) :
    Nat × Cache κ :=
  cache.clearIdsFields ((cache.entries.filter fun entry => matching entry.2).map (·.1)) fields

end PartialEntity.Cache
