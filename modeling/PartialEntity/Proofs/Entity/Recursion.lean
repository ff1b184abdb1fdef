import PartialEntity.Entity.Basic
import PartialEntity.Proofs.FieldSet
import PartialEntity.Proofs.Tree.Canonical

/-!
# Recursion and induction on entities

An entity is reached from the members of its slots: what holds of an entity whenever it holds of
all members under it holds of every entity.  A property that is asked of a node is asked of a
whole entity by `Entity.Throughout`.
-/

namespace PartialEntity

theorem Tree.sizeOf_lt_of_mem_leaves {α : Type} [SizeOf α] {tree : Tree α} {member : α}
    (h : member ∈ tree.leaves) : sizeOf member < sizeOf tree := by
  induction tree with
  | leaf other =>
    rw [List.mem_singleton.1 h]
    simp
  | scalar value => exact absurd h List.not_mem_nil
  | none => exact absurd h List.not_mem_nil
  | some inner ih =>
    have := ih h
    simp only [Tree.option.sizeOf_spec, Option.some.sizeOf_spec]
    omega
  | sequence items ih | set _ items ih =>
    obtain ⟨item, hitem, hmember⟩ := Tree.mem_leavesAll.1 h
    have := ih item hitem hmember
    have := List.sizeOf_lt_of_mem hitem
    simp only [Tree.sequence.sizeOf_spec, Tree.set.sizeOf_spec]
    omega
  | table _ entries ih =>
    obtain ⟨⟨key, value⟩, hentry, hmember⟩ := Tree.mem_leavesEntries.1 h
    have hsize := List.sizeOf_lt_of_mem hentry
    rw [Prod.mk.sizeOf_spec] at hsize
    rw [Tree.table.sizeOf_spec]
    rcases hmember with hmember | hmember
    · have := (ih _ hentry).1 hmember
      simp only at this
      omega
    · have := (ih _ hentry).2 hmember
      simp only at this
      omega

namespace Entity

variable {κ β : Type}

/-! ## Stored values -/

theorem slot_eq_getElem {entity : Entity κ} {field : Nat} (h : field < entity.slots.length) :
    entity.slot field = entity.slots[field] :=
  List.getD_eq_getElem _ _ h

theorem slot_eq_unit {entity : Entity κ} {field : Nat} (h : entity.slots.length ≤ field) :
    entity.slot field = .scalar .unit :=
  List.getD_eq_default _ _ h

theorem slot_mem_slots {entity : Entity κ} {field : Nat} {member : Entity κ}
    (h : member ∈ (entity.slot field).leaves) : entity.slot field ∈ entity.slots := by
  by_cases hfield : field < entity.slots.length
  · rw [slot_eq_getElem hfield]
    exact List.getElem_mem hfield
  · rw [slot_eq_unit (Nat.le_of_not_lt hfield)] at h
    exact absurd h List.not_mem_nil

/-- Entities of one kind and id are equal if they load the same fields and store the same under
each. -/
theorem ext_slot {left right : Entity κ} (hkind : left.kind = right.kind) (hid : left.id = right.id)
    (hheld : ∀ field, left.hasField field = right.hasField field)
    (hlength : left.slots.length = right.slots.length)
    (hslot : ∀ field, left.slot field = right.slot field) : left = right := by
  obtain ⟨kind, id, held, slots⟩ := left
  obtain ⟨kind', id', held', slots'⟩ := right
  have hsets : held = held' := FieldSet.ext_contains hheld
  have hslots : slots = slots' := by
    refine List.ext_getElem hlength fun field hleft hright => ?_
    have hfield := hslot field
    rw [slot_eq_getElem hleft, slot_eq_getElem hright] at hfield
    exact hfield
  cases hkind
  cases hid
  cases hsets
  cases hslots
  rfl

@[simp]
theorem hasField_mk (kind : κ) (id : Nat) (held : FieldSet) (slots : List (Tree (Entity κ)))
    (field : Nat) : (Entity.mk kind id held slots).hasField field = held.contains field := rfl

/-! ## Induction -/

/-- What holds of an entity if it holds of all members under it holds of every entity. -/
@[elab_as_elim]
theorem induction {P : Entity κ → Prop}
    (entity : ∀ entity : Entity κ,
      (∀ field, ∀ member ∈ (entity.slot field).leaves, P member) → P entity) :
    ∀ whole, P whole
  | ⟨kind, id, held, slots⟩ => entity ⟨kind, id, held, slots⟩ fun field member hmember =>
    have _hleaf := Tree.sizeOf_lt_of_mem_leaves hmember
    have _hslot := List.sizeOf_lt_of_mem (slot_mem_slots hmember)
    induction entity member
termination_by whole => sizeOf whole
decreasing_by simp at *; omega

/-- Whether an entity and all members under it, at every depth, have a property. -/
inductive Throughout (P : Entity κ → Prop) : Entity κ → Prop
  | intro {entity : Entity κ} (self : P entity)
      (members : ∀ field, ∀ member ∈ (entity.slot field).leaves, Throughout P member) :
      Throughout P entity

namespace Throughout

variable {P Q : Entity κ → Prop} {entity : Entity κ} {field : Nat}

theorem self (h : Throughout P entity) : P entity := by
  cases h
  assumption

theorem member (h : Throughout P entity) {member : Entity κ}
    (hmember : member ∈ (entity.slot field).leaves) : Throughout P member := by
  cases h with
  | intro _ members => exact members field member hmember

/-- What follows from a property follows from it throughout. -/
theorem mono (h : Throughout P entity) (himp : ∀ entity, P entity → Q entity) :
    Throughout Q entity := by
  induction h with
  | intro self _ ih => exact .intro (himp _ self) ih

end Throughout

/-! ## Folding -/

mutual

theorem foldTree_eq (f : κ → Nat → FieldSet → List (Tree β) → β) :
    ∀ tree : Tree (Entity κ), foldTree f tree = tree.map (fold f)
  | .leaf _ => rfl
  | .scalar _ => rfl
  | .option none => rfl
  | .option (some inner) => by rw [foldTree, foldTree_eq f inner]; rfl
  | .sequence items => by rw [foldTree, foldAll_eq f items]; rfl
  | .set _ items => by rw [foldTree, foldAll_eq f items]; rfl
  | .table _ entries => by rw [foldTree, foldEntries_eq f entries]; rfl

theorem foldAll_eq (f : κ → Nat → FieldSet → List (Tree β) → β) :
    ∀ items : List (Tree (Entity κ)), foldAll f items = Tree.mapAll (fold f) items
  | [] => rfl
  | item :: rest => by rw [foldAll, foldTree_eq f item, foldAll_eq f rest, Tree.mapAll]

theorem foldEntries_eq (f : κ → Nat → FieldSet → List (Tree β) → β) :
    ∀ entries : List (Tree (Entity κ) × Tree (Entity κ)),
      foldEntries f entries = Tree.mapEntries (fold f) entries
  | [] => rfl
  | (key, value) :: rest => by
    rw [foldEntries, foldTree_eq f key, foldTree_eq f value, foldEntries_eq f rest,
      Tree.mapEntries]

end

/-- The result for an entity is made of the results for its members. -/
theorem fold_eq (f : κ → Nat → FieldSet → List (Tree β) → β) (entity : Entity κ) :
    fold f entity = f entity.kind entity.id entity.held (entity.slots.map (Tree.map (fold f))) := by
  obtain ⟨kind, id, held, slots⟩ := entity
  rw [fold, foldAll_eq, Tree.mapAll_eq]

/-! ## Order -/

end Entity

open Std in
instance : TransOrd IdentityKey := by
  have hcompare : (Ord.compare : IdentityKey → IdentityKey → Ordering) =
      compareLex (compareOn IdentityKey.rank)
        (compareLex (compareOn IdentityKey.id) (compareOn IdentityKey.text)) := by
    funext left right
    cases left
    cases right
    simp only [compare, instOrdIdentityKey.ord, compareLex, compareOn, Ordering.then_eq]
  rw [TransOrd, hcompare]
  infer_instance

namespace Entity

variable {κ : Type} [Catalog κ]

open Std in
instance : TransOrd (Entity κ) :=
  inferInstanceAs (TransCmp (compareOn key))

/-- Whether a tree is in order depends on the identities of its members only. -/
theorem canonical_map_key (tree : Tree (Entity κ)) : (tree.map key).Canonical ↔ tree.Canonical :=
  Tree.canonical_map_iff (f := key) (fun _ _ => rfl) tree

/-- Replacing members by others with the same key does not affect the order of containers. -/
theorem canonical_map_of_key {f : Entity κ → Entity κ} {tree : Tree (Entity κ)}
    (hkey : ∀ member ∈ tree.leaves, (f member).key = member.key) :
    (tree.map f).Canonical ↔ tree.Canonical := by
  rw [← canonical_map_key, Tree.map_map, Tree.map_congr hkey, canonical_map_key]

end Entity

end PartialEntity
