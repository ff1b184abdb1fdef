import PartialEntity.Cache.Consult
import PartialEntity.Proofs.Cache.Exact

/-!
# When answers arrive

An answer that is there at once is merged in one go.  One that arrives later is merged by a second
attempt, which finds the gap anew and is handed the answer.  Both come to the same: the entity, the
result with the text of its error, the cache and what is reported.

They also consult the resolver in the same way: whatever effect a consultant has, the two ways have
it alike.  With a log of calls as the effect, an attempt to extend calls under the id of the entity,
a read under that of its copy or, without one, under the id read; there is at most one call, for
what is recorded as asked for.
-/

namespace PartialEntity

variable {κ : Type}

theorem Resolver.run_logged_bind {α : Type} (resolver : Resolver κ) (id : Nat) (graph : Graph κ)
    (next : Except Error (Option (Entity κ)) → StateM (Calls κ) α) (calls : Calls κ) :
    (resolver.logged id graph >>= next).run calls =
      (next (resolver id graph)).run (calls ++ [(id, graph)]) :=
  rfl

variable [DecidableEq κ] [Catalog κ]

namespace Entity

variable {m : Type → Type} [Monad m]

/-- What there is to call a resolver for. -/
def gap? (entity : Entity κ) (graph : Graph κ) : Option (Graph κ) :=
  (entity.extend graph fun _ => .ok none).asked

/-- Calls a resolver for the gap, if there is one, and goes on as if its answer had been known. -/
def consulting (entity : Entity κ) (graph : Graph κ) (consult : Consultant m κ)
    (attempt : Resolver κ → Extended κ) : m (Extended κ) :=
  match entity.gap? graph with
  | none => pure (attempt fun _ _ => .ok none)
  | some missing => do
    let answer ← consult entity.id missing
    pure (attempt fun _ _ => answer)

theorem extendFromIn_eq (entity : Entity κ) (graph : Graph κ) (consult : Consultant m κ) :
    entity.extendFromIn graph consult =
      entity.consulting graph consult (entity.extendFrom graph) := by
  unfold extendFromIn consulting gap? extendFrom extend
  cases missingGraph graph entity with
  | error stop => rfl
  | ok missing =>
    dsimp only
    cases missing.isEmpty <;> rfl

theorem extendDeferredIn_eq (entity : Entity κ) (graph : Graph κ) (consult : Consultant m κ) :
    entity.extendDeferredIn graph consult =
      entity.consulting graph consult (entity.extendDeferred graph) := by
  unfold extendDeferredIn consulting gap? extendDeferred
  rw [extend]
  cases hmissing : missingGraph graph entity with
  | error stop => rfl
  | ok missing =>
    cases hempty : missing.isEmpty with
    | true => simp only [hempty, if_true]
    | false =>
      simp only [hempty, Bool.false_eq_true, if_false]
      refine bind_congr fun answer => ?_
      rcases answer with stop | _ | extension <;> rfl

/-- Whatever calling the resolver does, an attempt whose answer arrives later does the same. -/
theorem extendDeferredIn_eq_extendFromIn (entity : Entity κ) (graph : Graph κ)
    (consult : Consultant m κ) :
    entity.extendDeferredIn graph consult = entity.extendFromIn graph consult := by
  have hattempt : entity.extendDeferred graph = entity.extendFrom graph :=
    funext (extendDeferred_eq entity graph)
  rw [extendDeferredIn_eq, extendFromIn_eq, hattempt]

/-! ## Calls of an attempt -/

theorem asked_extend (entity : Entity κ) (graph : Graph κ)
    (resolve : Graph κ → Except Error (Option (Entity κ))) :
    (entity.extend graph resolve).asked = entity.gap? graph := by
  ext missing
  rw [gap?, asked_extend_eq_some_iff, asked_extend_eq_some_iff]

/-- An attempt to extend is one that knows just the answer to its call. -/
theorem extendFrom_of_gap? {entity : Entity κ} {graph : Graph κ} {known resolver : Resolver κ}
    (h : ∀ missing, entity.gap? graph = some missing →
      known entity.id missing = resolver entity.id missing) :
    entity.extendFrom graph known = entity.extendFrom graph resolver := by
  refine extend_congr fun missing hasked => ?_
  rw [asked_extend] at hasked
  simp only [h missing hasked]

theorem run_extendFromIn_logged (entity : Entity κ) (graph : Graph κ) (resolver : Resolver κ)
    (calls : Calls κ) :
    (entity.extendFromIn graph resolver.logged).run calls =
      (entity.extendFrom graph resolver,
        calls ++ (entity.extendFrom graph resolver).asked.toList.map fun asked =>
          (entity.id, asked)) := by
  have hasked : (entity.extendFrom graph resolver).asked = entity.gap? graph := asked_extend ..
  rw [extendFromIn_eq, consulting, hasked]
  cases hgap : entity.gap? graph with
  | none =>
    have hknown :
        entity.extendFrom graph (fun _ _ => .ok none) = entity.extendFrom graph resolver :=
      extendFrom_of_gap? fun missing hmissing => nomatch hgap.symm.trans hmissing
    rw [StateT.run_pure, hknown, Option.toList_none, List.map_nil, List.append_nil]
    rfl
  | some missing =>
    have hknown : entity.extendFrom graph (fun _ _ => resolver entity.id missing) =
        entity.extendFrom graph resolver := by
      refine extendFrom_of_gap? fun other hother => ?_
      rw [Option.some.inj (hgap.symm.trans hother)]
    rw [Resolver.run_logged_bind, StateT.run_pure, hknown]
    rfl

end Entity

namespace Cache

variable {m : Type → Type} [Monad m]

/-- Whatever calling the resolver does, a read whose answer arrives later does the same. -/
theorem getIn_deferred (cache : Cache κ) (id : Nat) (graph : Graph κ)
    (consult : Consultant m κ) :
    cache.getIn .deferred id graph consult = cache.getIn .immediate id graph consult := by
  unfold getIn Read.supplyIn
  simp only [Entity.extendDeferredIn_eq_extendFromIn]

theorem get_deferred (cache : Cache κ) (id : Nat) (graph : Graph κ) (resolver : Resolver κ) :
    cache.get .deferred id graph resolver = cache.get .immediate id graph resolver := by
  unfold get Read.supply
  simp only [Entity.extendDeferred_eq]

/-! ## Calls of a read -/

theorem Read.run_supplyIn_logged (read : Read κ) (resolver : Resolver κ) (calls : Calls κ) :
    (read.supplyIn .immediate resolver.logged).run calls =
      (read.supply .immediate resolver,
        calls ++ (read.supply .immediate resolver).asked.toList.map fun asked =>
          (read.asker, asked)) := by
  unfold Read.supplyIn Read.supply Read.asker
  cases read.snapshot with
  | none => rfl
  | some copy =>
    simp only [StateT.run_bind, Entity.run_extendFromIn_logged]
    rfl

theorem run_getIn_logged (cache : Cache κ) (id : Nat) (graph : Graph κ) (resolver : Resolver κ)
    (calls : Calls κ) :
    (cache.getIn .immediate id graph resolver.logged).run calls =
      (cache.get .immediate id graph resolver,
        calls ++ (cache.get .immediate id graph resolver).asked.toList.map fun asked =>
          ((cache.start id graph).asker, asked)) := by
  rw [getIn, StateT.run_bind, Read.run_supplyIn_logged, get, asked_finish]
  rfl

/-- It makes no difference when answers arrive.  Extending an entity comes to the same entity and
the same result or error, reading a cache to the same value, cache and events; and the resolver is
called in the same way, with the same effects, whichever these are.  A log of the calls shows the
one for what was asked for, if anything was.  Both ways list the members of a hashed container in
the order of insertion, which has no meaning. -/
theorem arrival_irrelevant (entity : Entity κ) (cache : Cache κ) (id : Nat) (graph : Graph κ)
    (resolver : Resolver κ) :
    (entity.extendDeferred graph resolver = entity.extendFrom graph resolver ∧
      cache.get .deferred id graph resolver = cache.get .immediate id graph resolver) ∧
    (∀ (m : Type → Type) [Monad m] (consult : Consultant m κ),
      entity.extendDeferredIn graph consult = entity.extendFromIn graph consult ∧
        cache.getIn .deferred id graph consult = cache.getIn .immediate id graph consult) ∧
    (∀ calls, (entity.extendFromIn graph resolver.logged).run calls =
      (entity.extendFrom graph resolver,
        calls ++ (entity.extendFrom graph resolver).asked.toList.map fun asked =>
          (entity.id, asked))) ∧
    ∀ calls, (cache.getIn .immediate id graph resolver.logged).run calls =
      (cache.get .immediate id graph resolver,
        calls ++ (cache.get .immediate id graph resolver).asked.toList.map fun asked =>
          ((cache.start id graph).asker, asked)) := by
  refine ⟨⟨entity.extendDeferred_eq graph resolver, cache.get_deferred id graph resolver⟩,
    fun m _ consult => ⟨entity.extendDeferredIn_eq_extendFromIn graph consult,
      cache.getIn_deferred id graph consult⟩, ?_, ?_⟩
  · exact entity.run_extendFromIn_logged graph resolver
  · exact cache.run_getIn_logged id graph resolver

end Cache

end PartialEntity
