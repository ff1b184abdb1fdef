import PartialEntity.Entity.Clone
import PartialEntity.Entity.Describe
import PartialEntity.Graph.Printer

/-!
# Caches of partially loaded entities

A cache stores, under each id, the cacheable fields of an entity that were seen so far.  Members
are stored as references.  Writing merges into what is stored or replaces it; an entity without
any cacheable field is not stored at all.
-/

namespace PartialEntity

/-- A cache of entities of one kind. -/
structure Cache (κ : Type) where
  kind : κ
  /-- The fields that are stored. -/
  cacheable : FieldSet
  /-- The fields that every read fetches, asked for or not. -/
  precached : FieldSet
  /-- The stored entities under their ids. -/
  entries : List (Nat × Entity κ)

namespace Cache

variable {κ : Type}

/-- What a cache reports about its work. -/
inductive Event (κ : Type) where
  /-- An id was not stored and `request` is fetched for it. -/
  | miss (id : Nat) (request : Graph κ)
  /-- A read of an id brought nothing new to store. -/
  | hit (id : Nat)
  /-- An id was stored for the first time, with these fields. -/
  | stored (id : Nat) (fields : FieldSet)
  /-- These fields of a stored id were overwritten. -/
  | refreshed (id : Nat) (fields : FieldSet)

/-! ## Queries -/

def size (cache : Cache κ) : Nat :=
  cache.entries.length

def isEmpty (cache : Cache κ) : Bool :=
  cache.entries.isEmpty

def contains (cache : Cache κ) (id : Nat) : Bool :=
  Assoc.contains id cache.entries

variable [Catalog κ]

/-- A copy of what is stored under an id. -/
def cached (cache : Cache κ) (id : Nat) : Option (Entity κ) :=
  (Assoc.find? id cache.entries).map Entity.cloneAll

def describe (cache : Cache κ) : String :=
  "EntityCache \x7b cacheable: " ++ cache.cacheable.describe cache.kind ++ ", precached: " ++
    cache.precached.describe cache.kind ++ ", len: " ++ toString cache.size ++ " \x7d"

/-- An empty cache.  It needs something to store, and may fetch along with every read only what
it stores. -/
def build (kind : κ) (cacheable precached : FieldSet) : Except Error (Cache κ) :=
  let stray := precached.diff cacheable
  if cacheable.isEmpty then
    Fault.raise (.invalidConfiguration "an entity cache needs at least one cacheable field")
  else if !stray.isEmpty then
    Fault.raise (.invalidConfiguration ("precached fields [" ++
      ", ".intercalate ((stray.names kind).map Text.quote) ++ "] are not cacheable"))
  else pure ⟨kind, cacheable, precached, []⟩

/-! ## Writing -/

variable [DecidableEq κ]

/-- What a cache would store of an entity: its cacheable fields, members as references.  There is
nothing to store of an entity without cacheable fields. -/
def project (cache : Cache κ) (entity : Entity κ) : Except Error (Option (Entity κ)) :=
  let fields := entity.held.inter cache.cacheable
  if fields.isEmpty then pure none
  else some <$> Entity.cloneGraph (.ofSet entity.kind fields) entity

/-- Stores an entity in place of what is stored under its id. -/
def put (cache : Cache κ) (entity : Entity κ) : Except Error (Cache κ) := do
  match ← cache.project entity with
  | none => pure cache
  | some projection =>
    pure { cache with entries := Assoc.insert entity.id projection cache.entries }

/-- Stores the cacheable fields of an entity over those stored under its id and keeps the others.
Reports what was written. -/
def refresh (cache : Cache κ) (entity : Entity κ) :
    Except Error (Cache κ × List (Event κ)) := do
  match ← cache.project entity with
  | none => pure (cache, [])
  | some projection =>
    match Assoc.find? entity.id cache.entries with
    | some entry =>
      pure ({ cache with
          entries := Assoc.insert entity.id (entry.pullAll projection) cache.entries },
        [.refreshed entity.id projection.held])
    | none =>
      pure ({ cache with entries := Assoc.insert entity.id projection cache.entries },
        [.stored entity.id projection.held])

end Cache

namespace Cache.Event

variable {κ : Type} [Catalog κ]

/-- The wording of an event in a cache of the given kind. -/
def message (kind : κ) : Event κ → String
  | miss id request =>
    "cache miss for " ++ Entity.label kind id ++ "; fetching \x7b" ++ request.render ++ "\x7d"
  | hit id => "cache hit for " ++ Entity.label kind id
  | stored id fields => "caching " ++ Entity.label kind id ++ " with " ++ fields.describe kind
  | refreshed id fields =>
    "refreshing " ++ Entity.label kind id ++ " with " ++ fields.describe kind

/-- Whether an event is of interest only to someone who follows every read. -/
def isFine : Event κ → Bool
  | hit _ => true
  | _ => false

/-- The line that an event leaves in a log. -/
def line (kind : κ) (event : Event κ) : String :=
  (if event.isFine then "TRACE " else "DEBUG ") ++ event.message kind

end Cache.Event

end PartialEntity
