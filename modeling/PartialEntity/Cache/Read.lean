import PartialEntity.Cache.Clear
import PartialEntity.Entity.Extend

/-!
# Reading through a cache

A read fetches exactly what the cache cannot serve and gives a value that holds exactly the graph
asked for.  It looks at the cache twice: `start` copies what is stored under the id, and `finish`
stores what the fetch has brought.  Nothing is locked in between, so other operations may change
the cache there; the two steps are kept apart to make that visible.
-/

namespace PartialEntity.Cache

variable {κ : Type}

/-- A read that has taken its copy. -/
structure Read (κ : Type) where
  id : Nat
  /-- What the value must hold in the end. -/
  graph : Graph κ
  /-- What has to be there in between: the graph and the precached fields. -/
  request : Graph κ
  /-- The copy of what was stored under the id. -/
  snapshot : Option (Entity κ)

/-- What a fetch brought to a read. -/
structure Supply (κ : Type) where
  /-- The value that holds the request, if there is one. -/
  value : Except Error (Option (Entity κ))
  /-- What the resolver was asked for, if it was. -/
  asked : Option (Graph κ)

/-- What a read comes to. -/
structure Outcome (κ : Type) where
  /-- The cache afterwards. -/
  cache : Cache κ
  /-- The value read, or none if no entity has the id. -/
  value : Except Error (Option (Entity κ))
  /-- What the resolver was asked for, if it was. -/
  asked : Option (Graph κ)
  /-- What there is to report. -/
  events : List (Event κ)

/-- How the answer of a resolver reaches a read. -/
inductive Arrival where
  /-- At once. -/
  | immediate
  /-- Later, so that the gap is computed once more when it is merged. -/
  | deferred
deriving DecidableEq, Repr

variable [Catalog κ]

/-- The graph that a read has to have at hand. -/
def request (cache : Cache κ) (graph : Graph κ) : Graph κ :=
  if cache.precached.isEmpty then graph
  else (cache.precached.toList.foldl Graph.add graph).normalize

/-- The first step of a read: the copy of what is stored. -/
def start (cache : Cache κ) (id : Nat) (graph : Graph κ) : Read κ :=
  ⟨id, graph, cache.request graph, cache.cached id⟩

variable [DecidableEq κ]

/-- Refuses a value that holds less than was asked for. -/
def ensureFetched (value : Entity κ) (request : Graph κ) : Except Error Unit := do
  let lacking ← Entity.missingGraph request value
  if lacking.isEmpty then pure ()
  else
    Fault.raise (.entityUnavailable (Entity.label value.kind value.id ++
      " was fetched without \x7b" ++ lacking.render ++ "\x7d"))

/-- Completes a read's copy from a resolver, or fetches the whole request without one. -/
def Read.supply (read : Read κ) (arrival : Arrival) (resolver : Resolver κ) :
    Supply κ :=
  match read.snapshot with
  | some copy =>
    let extended := match arrival with
      | .immediate => copy.extendFrom read.request resolver
      | .deferred => copy.extendDeferred read.request resolver
    ⟨extended.result.map fun _ => some extended.entity, extended.asked⟩
  | none =>
    let answer := do
      match ← resolver read.id read.request with
      | none => pure none
      | some value => do
        ensureFetched value read.request
        pure (some value)
    ⟨answer, some read.request⟩

/-- Stores what a read has gained.  A read that started from a copy stores nothing unless it holds
cacheable fields that the copy did not. -/
def commit (cache : Cache κ) (copied : Option FieldSet) (value : Entity κ) :
    Except Error (Cache κ × List (Event κ)) :=
  match copied with
  | some fields =>
    if (value.held.inter cache.cacheable).isSubset fields then pure (cache, [.hit value.id])
    else cache.refresh value
  | none => cache.refresh value

/-- The second step of a read: stores what it has gained and narrows the value to the graph. -/
def finish (cache : Cache κ) (read : Read κ) (supply : Supply κ) : Outcome κ :=
  let opening := match read.snapshot with
    | some _ => []
    | none => [.miss read.id read.request]
  match supply.value with
  | .error stop => ⟨cache, .error stop, supply.asked, opening⟩
  | .ok none => ⟨cache, .ok none, supply.asked, opening⟩
  | .ok (some value) =>
    match cache.commit (read.snapshot.map (·.held)) value with
    | .error stop => ⟨cache, .error stop, supply.asked, opening⟩
    | .ok (cache', events) =>
      let (narrowed, result) := Entity.intersect read.graph value
      ⟨cache', result.map fun _ => some narrowed, supply.asked, opening ++ events⟩

/-- Reads the entity of an id, both steps at once. -/
def get (cache : Cache κ) (arrival : Arrival) (id : Nat) (graph : Graph κ)
    (resolver : Resolver κ) : Outcome κ :=
  let read := cache.start id graph
  cache.finish read (read.supply arrival resolver)

/-- A cache and the resolver behind it as one resolver. -/
def resolver (cache : Cache κ) (inner : Resolver κ) : Resolver κ := fun id graph =>
  (cache.get .immediate id graph inner).value

/-- Extends an entity by reading through a cache.  Gives the attempt and what the read, if there
was one, came to. -/
def extendVia (cache : Cache κ) (entity : Entity κ) (graph : Graph κ) (inner : Resolver κ) :
    Entity.Extended κ × Option (Outcome κ) :=
  let extended := entity.extendFrom graph (cache.resolver inner)
  (extended, extended.asked.map fun missing => cache.get .immediate entity.id missing inner)

end PartialEntity.Cache
