import PartialEntity.Proofs.Cache.Storage
import PartialEntity.Proofs.Harbor.Records

/-!
# The entries of a cache

Whatever is done to a cache, and whatever resolvers answer, an entry stands under the id of its
entity, holds a cacheable field and no other ones, and has bare references as members.  Actions that
fail are part of this: they leave the cache as it was or store a value before they fail.
-/

namespace PartialEntity

structure Entity.Bare {κ : Type} [Catalog κ] (entity : Entity κ) : Prop where
  held_eq : entity.held = ∅
  eq_ofId : entity = Entity.ofId entity.kind entity.id

namespace Cache

variable {κ : Type}

/-- What can be done to a cache.  The two steps of a read can be taken apart, with anything in
between.  An entity that was modified is merged, and one that was deleted is cleared. -/
inductive Action (κ : Type) where
  | start (id : Nat) (graph : Graph κ)
  /-- Supplies and ends the read at a position among those that are pending. -/
  | finish (position : Nat) (arrival : Arrival) (resolver : Resolver κ)
  | get (arrival : Arrival) (id : Nat) (graph : Graph κ) (resolver : Resolver κ)
  | put (value : Entity κ)
  | merge (value : Entity κ)
  | clear (clearing : Clearing κ)

variable [Catalog κ]

/-- Whether an entity can stand under an id in a cache that stores the cacheable fields. -/
structure IsEntry (cacheable : FieldSet) (id : Nat) (entry : Entity κ) : Prop where
  id_eq : entry.id = id
  nonempty : ∃ field, entry.hasField field = true
  cacheable : ∀ field, entry.hasField field = true → cacheable.contains field = true
  bare : ∀ field, ∀ leaf ∈ (entry.slot field).leaves, leaf.Bare

theorem Storable.isEntry {settings : κ × FieldSet × FieldSet} {id : Nat} {entry : Entity κ}
    (h : Storable settings id entry) : IsEntry settings.2.1 id entry where
  id_eq := h.id_eq
  nonempty := h.nonempty
  cacheable := h.cacheable
  bare field leaf hleaf := by
    have hreference := (h.flat.value field).reference leaf hleaf
    exact ⟨hreference ▸ rfl, hreference.symm⟩

/-- Whether an action is over a kind: the graphs that are read, the values that are written and the
answers of resolvers are.  Nothing is said about which answers there are. -/
def Action.Typed (kind : κ) : Action κ → Prop
  | .start _ graph => graph.WellFormed ∧ graph.kind = kind
  | .finish _ _ resolver => TypedAnswers kind resolver
  | .get _ _ graph resolver => (graph.WellFormed ∧ graph.kind = kind) ∧ TypedAnswers kind resolver
  | .put value => Cache.Typed kind value
  | .merge value => Cache.Typed kind value
  | .clear _ => True

variable [DecidableEq κ]

def Action.apply (cache : Cache κ) (reads : List (Read κ)) : Action κ → Cache κ × List (Read κ)
  | .start id graph => (cache, cache.start id graph :: reads)
  | .finish position arrival resolver =>
    match reads[position]? with
    | some read =>
      ((cache.finish read (read.supply arrival resolver)).cache, reads.eraseIdx position)
    | none => (cache, reads)
  | .get arrival id graph resolver => ((cache.get arrival id graph resolver).cache, reads)
  | .put value =>
    match cache.put value with
    | .ok next => (next, reads)
    | .error _ => (cache, reads)
  | .merge value =>
    match cache.refresh value with
    | .ok (next, _) => (next, reads)
    | .error _ => (cache, reads)
  | .clear clearing => (clearing.apply cache, reads)

def perform (cache : Cache κ) (reads : List (Read κ)) : List (Action κ) → Cache κ × List (Read κ)
  | [] => (cache, reads)
  | action :: rest => perform (action.apply cache reads).1 (action.apply cache reads).2 rest

/-! ## Actions make runs -/

variable {empty cache : Cache κ} {reads : List (Read κ)}

theorem Run.apply (hrun : Run (Typed empty.kind) (TypedAnswers empty.kind) empty cache reads)
    {action : Action κ} (haction : action.Typed empty.kind) :
    Run (Typed empty.kind) (TypedAnswers empty.kind) empty (action.apply cache reads).1
      (action.apply cache reads).2 := by
  have hkind : cache.kind = empty.kind := hrun.kind_eq
  cases action with
  | start id graph => exact hrun.start id haction.1 (haction.2.trans hkind.symm)
  | finish position arrival resolver =>
    rw [Action.apply]
    cases hread : reads[position]? with
    | none => exact hrun
    | some read =>
      -- A run takes a pending read from between the others.
      obtain ⟨hposition, rfl⟩ := List.getElem?_eq_some_iff.1 hread
      have hsplit :
          reads = reads.take position ++ reads[position] :: reads.drop (position + 1) := by
        rw [List.getElem_cons_drop, List.take_append_drop]
      rw [List.eraseIdx_eq_take_drop_succ]
      exact .finish (hsplit ▸ hrun) arrival haction
  | get arrival id graph resolver =>
    obtain ⟨⟨hgraph, hgraphKind⟩, hresolver⟩ := haction
    have hstarted := hrun.start id hgraph (hgraphKind.trans hkind.symm)
    rw [← List.nil_append (_ :: reads)] at hstarted
    exact hstarted.finish arrival hresolver
  | put value =>
    rw [Action.apply]
    cases hput : cache.put value with
    | error stop => exact hrun
    | ok next => exact hrun.put haction hput
  | merge value =>
    rw [Action.apply]
    cases hmerge : cache.refresh value with
    | error stop => exact hrun
    | ok result => exact hrun.merge haction hmerge
  | clear clearing => exact hrun.clear clearing

theorem Run.perform (hrun : Run (Typed empty.kind) (TypedAnswers empty.kind) empty cache reads)
    {actions : List (Action κ)} (hactions : ∀ action ∈ actions, action.Typed empty.kind) :
    Run (Typed empty.kind) (TypedAnswers empty.kind) empty (cache.perform reads actions).1
      (cache.perform reads actions).2 := by
  induction actions generalizing cache reads with
  | nil => exact hrun
  | cons action rest ih =>
    exact ih (hrun.apply (hactions action (List.mem_cons_self ..)))
      fun other hother => hactions other (List.mem_cons_of_mem _ hother)

/-! ## Entries -/

/-- Whatever is done to a cache that was built, its entries stand under the ids of their entities,
hold a cacheable field and no other ones, and have bare references as members. -/
theorem entries_perform {kind : κ} {cacheable precached : FieldSet}
    (hbuild : build kind cacheable precached = .ok empty) {actions : List (Action κ)}
    (hactions : ∀ action ∈ actions, action.Typed kind) {id : Nat} {entry : Entity κ}
    (hentry : (id, entry) ∈ (empty.perform [] actions).1.entries) :
    IsEntry cacheable id entry := by
  have hempty := build_eq_ok hbuild
  obtain rfl : empty.kind = kind := congrArg Cache.kind hempty
  obtain rfl : empty.cacheable = cacheable := congrArg Cache.cacheable hempty
  have hrun := Run.perform .empty hactions
  exact ((hrun.storable (congrArg entries hempty)).1 id entry hentry).isEntry

open Harbor

theorem typed_of_isRecord {value : Entity Kind} (h : value.IsRecord) : Typed value.kind value :=
  ⟨rfl, h.lawful.sound.self.toFits.plainFields⟩

/-- Ann is put while a read of her address is pending, an id is answered with Bob, whose id is
another one, a read fails, and Ann's name is dropped. -/
def harborDay : List (Action Kind) :=
  let address := (Graph.none .person).add 2
  [.start 1 address, .put Samples.ann,
    .get .deferred 3 address fun _ _ => .ok (some Samples.bob),
    .get .immediate 9 address fun _ _ => Fault.raise (.entityUnavailable "at sea"),
    .clear (.fields 1 (.ofList [1])), .finish 0 .immediate fun _ _ => .ok (some Samples.bob)]

def harborEvening : Cache Kind :=
  (perform ⟨.person, .ofList [1, 3], ∅, []⟩ [] harborDay).1

theorem entries_harborEvening :
    harborEvening.entries.map (fun entry => (entry.1, entry.2.held.toList)) =
        [(1, [3]), (2, [1, 3])] ∧
      ∀ id entry, (id, entry) ∈ harborEvening.entries → IsEntry (.ofList [1, 3]) id entry := by
  have hbuild : build Kind.person (.ofList [1, 3]) ∅ = .ok ⟨.person, .ofList [1, 3], ∅, []⟩ := rfl
  have hbob : TypedAnswers Kind.person fun _ _ => .ok (some Samples.bob) := by
    rintro _ _ _ ⟨⟩
    exact typed_of_isRecord Samples.isRecord_bob
  have hnone : TypedAnswers Kind.person fun _ _ => Fault.raise (.entityUnavailable "at sea") :=
    fun _ _ _ hvalue => nomatch hvalue
  have haddress := (Graph.WellFormed.none Kind.person).add 2
  refine ⟨rfl, fun id entry hentry => entries_perform hbuild ?_ hentry⟩
  rw [harborDay]
  simp only [List.forall_mem_cons]
  exact ⟨⟨haddress, rfl⟩, typed_of_isRecord Samples.isRecord_ann, ⟨⟨haddress, rfl⟩, hbob⟩,
    ⟨⟨haddress, rfl⟩, hnone⟩, trivial, hbob, nofun⟩

end Cache

end PartialEntity
