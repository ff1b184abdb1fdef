import PartialEntity.Cache.Read

/-!
# Consulting a resolver

To tell whom a read calls, and in which order, consulting is an effect here: the resolver is called
in a monad, at the places where an attempt to extend or a read needs the answer.  With a log of
calls as the effect, the calls can be read off.
-/

namespace PartialEntity

variable {κ : Type}

/-- Looks entities of one kind up by id, with effects in `m`. -/
abbrev Consultant (m : Type → Type) (κ : Type) :=
  Nat → Graph κ → m (Except Error (Option (Entity κ)))

/-- The calls of a resolver, in order: the id and the graph of each. -/
abbrev Calls (κ : Type) := List (Nat × Graph κ)

/-- A resolver that keeps a log of its calls. -/
def Resolver.logged (resolver : Resolver κ) : Consultant (StateM (Calls κ)) κ := fun id graph => do
  modify fun calls => calls ++ [(id, graph)]
  pure (resolver id graph)

variable [DecidableEq κ] [Catalog κ]

namespace Entity

variable {m : Type → Type} [Monad m]

/-- Extends an entity by what is answered for its id; the resolver is called if something is
missing. -/
def extendFromIn (entity : Entity κ) (graph : Graph κ) (consult : Consultant m κ) :
    m (Extended κ) :=
  match missingGraph graph entity with
  | .error stop => pure ⟨entity, .error stop, none⟩
  | .ok missing =>
    if missing.isEmpty then pure ⟨entity, .ok false, none⟩
    else do
      let answer ← consult entity.id missing
      let (entity', result) := entity.absorb missing <|
        match answer with
        | .ok none => absent entity.kind entity.id
        | answer => answer
      pure ⟨entity', result, some missing⟩

/-- Extends an entity by an answer that arrives later; the second attempt is handed the answer and
calls nobody. -/
def extendDeferredIn (entity : Entity κ) (graph : Graph κ) (consult : Consultant m κ) :
    m (Extended κ) :=
  match missingGraph graph entity with
  | .error stop => pure ⟨entity, .error stop, none⟩
  | .ok missing =>
    if missing.isEmpty then pure ⟨entity, .ok false, none⟩
    else do
      match ← consult entity.id missing with
      | .error stop => pure ⟨entity, .error stop, some missing⟩
      | .ok none => pure ⟨entity, absent entity.kind entity.id, some missing⟩
      | .ok (some extension) =>
        pure { entity.extend graph (fun _ => .ok (some extension)) with asked := some missing }

end Entity

namespace Cache

variable {m : Type → Type} [Monad m]

/-- Completes a read's copy, or fetches the whole request without one; the resolver is called if
that takes an answer. -/
def Read.supplyIn (read : Read κ) (arrival : Arrival) (consult : Consultant m κ) :
    m (Supply κ) :=
  match read.snapshot with
  | some copy => do
    let extended ← match arrival with
      | .immediate => copy.extendFromIn read.request consult
      | .deferred => copy.extendDeferredIn read.request consult
    pure ⟨extended.result.map fun _ => some extended.entity, extended.asked⟩
  | none => do
    let fetched ← consult read.id read.request
    let answer := do
      match ← fetched with
      | none => pure none
      | some value => do
        ensureFetched value read.request
        pure (some value)
    pure ⟨answer, some read.request⟩

def getIn (cache : Cache κ) (arrival : Arrival) (id : Nat) (graph : Graph κ)
    (consult : Consultant m κ) : m (Outcome κ) := do
  let read := cache.start id graph
  let supply ← read.supplyIn arrival consult
  pure (cache.finish read supply)

/-- The id under which a read calls its resolver. -/
def Read.asker (read : Read κ) : Nat :=
  match read.snapshot with
  | some copy => copy.id
  | none => read.id

end Cache

end PartialEntity
