import PartialEntity.Proofs.Entity.Cleanliness
import PartialEntity.Proofs.Entity.Pull

/-!
# Copies in full

A copy in full is made field by field: what is held is pulled into a fresh reference, each member is
copied in the same way, and every container is collected anew from the copies of its members.  Any
copy of a member could fail, and a container could lose members or put them in another place.

None of this happens.  The copy of a well-typed entity is always made, and a tidy entity comes out
as it is.
-/

namespace PartialEntity.Entity

variable {κ : Type} [Catalog κ] {kind : κ} {entity copy : Entity κ} {field : Nat}

/-! ## The copy as it is made -/

/-- Pulls the value of one field, given the attempts to copy its members.  The first that failed
decides.  A value without members comes through as it is. -/
def pullAttempted (copy : Entity κ) (id field : Nat) (attempts : Tree (Except Error (Entity κ))) :
    Except Error (Entity κ) :=
  match Catalog.content? copy.kind field with
  | some .identity => pure ({ copy with id := id }.mark field)
  | some (.nested _ _) => do
    let value ← attempts.traverse fun attempt => attempt
    pure (copy.assign field (value.rebuild .collected))
  | _ => do
    let value ← attempts.traverse fun attempt => attempt
    pure (copy.assign field value)

/-- The copy in full as it is made: the fields that are held are pulled into a fresh reference, one
after the other, and members are copied in the same way. -/
def cloneStepwise : Entity κ → Except Error (Entity κ) :=
  fold fun kind id held attempts =>
    held.toList.foldlM
      (fun copy field => copy.pullAttempted id field (attempts.getD field (.scalar .unit)))
      (ofId kind id)

theorem cloneStepwise_eq (entity : Entity κ) :
    entity.cloneStepwise = entity.held.toList.foldlM
      (fun copy field =>
        copy.pullAttempted entity.id field ((entity.slot field).map cloneStepwise))
      entity.reference := by
  have hslot : ∀ field,
      (entity.slots.map (Tree.map cloneStepwise)).getD field (.scalar .unit) =
        (entity.slot field).map cloneStepwise :=
    fun _ => List.getD_map entity.slots (.scalar .unit) (Tree.map cloneStepwise)
  rw [cloneStepwise, fold_eq]
  congr 1
  funext copy field
  exact congrArg (copy.pullAttempted entity.id field) (hslot field)

/-! ## What the fields add up to -/

/-- Whether an entity that is being copied has got as far as to have the kind and the id, and
nothing stored under the identity. -/
structure Begun (entity copy : Entity κ) : Prop where
  kind_eq : copy.kind = entity.kind
  id_eq : copy.id = entity.id
  identity : ∀ field, Catalog.content? entity.kind field = some .identity →
    copy.slot field = .scalar .unit

theorem begun_reference (entity : Entity κ) : Begun entity entity.reference where
  kind_eq := rfl
  id_eq := rfl
  identity _ hcontent := (slot_ofId ..).trans (emptySlot_identity hcontent)

theorem Begun.assign (h : Begun entity copy) {value : Tree (Entity κ)}
    (hvalue : Catalog.content? entity.kind field = some .identity → value = .scalar .unit) :
    Begun entity (copy.assign field value) where
  kind_eq := h.kind_eq
  id_eq := h.id_eq
  identity other hcontent := by
    rw [slot_assign]
    split
    · rename_i hsame
      exact hvalue (hsame.1 ▸ hcontent)
    · exact h.identity other hcontent

/-- A copy in full stores nothing under the identity. -/
theorem slot_cloneAll_identity (hfits : entity.Fits)
    (hcontent : Catalog.content? entity.kind field = some .identity) :
    entity.cloneAll.slot field = .scalar .unit := by
  rw [slot_cloneAll hfits.length_slots, hfits.identity field hcontent, emptySlot_identity hcontent]
  exact ite_self _

section Members

variable (hfits : entity.Fits)
  (hmembers : ∀ field, ∀ leaf ∈ (entity.slot field).leaves, leaf.cloneStepwise = .ok leaf.cloneAll)

include hfits hmembers

/-- Where the members can be copied, pulling a field that is held assigns what a copy in full stores
there. -/
theorem pullAttempted_eq_ok (h : Begun entity copy) (hheld : entity.hasField field = true) :
    copy.pullAttempted entity.id field ((entity.slot field).map cloneStepwise) =
      .ok (copy.assign field (entity.cloneAll.slot field)) := by
  have hcopies : ((entity.slot field).map cloneStepwise).traverse (fun attempt => attempt) =
      .ok ((entity.slot field).map cloneAll) :=
    (Tree.traverse_map _ cloneStepwise _).trans (Tree.traverse_eq_ok (hmembers field))
  rw [pullAttempted]
  split
  · rename_i hcontent
    rw [h.kind_eq] at hcontent
    rw [slot_cloneAll_identity hfits hcontent, assign_of_slot_eq (h.identity field hcontent),
      ← h.id_eq]
    rfl
  · rw [hcopies, slot_cloneAll hfits.length_slots, if_pos hheld]
    rfl
  · rename_i hidentity hnested
    have hnone := leaves_slot_of_not_nested hfits (h.kind_eq ▸ hnested)
    have hsame : (entity.slot field).map cloneAll = entity.slot field :=
      Tree.map_eq_self (hnone ▸ nofun)
    rw [hcopies, slot_cloneAll hfits.length_slots, if_pos hheld, hsame,
      Tree.rebuild_eq_self _ (hfits.canonical field)]
    rfl

/-- Pulling the listed fields one after the other never fails on the way of a full copy, and assigns
the copied values. -/
theorem foldlM_pullAttempted {fields : List Nat}
    (hheld : ∀ field ∈ fields, entity.hasField field = true) (h : Begun entity copy) :
    fields.foldlM (fun copy field =>
        copy.pullAttempted entity.id field ((entity.slot field).map cloneStepwise)) copy =
      .ok (assignAll entity.cloneAll.slot fields copy) := by
  induction fields generalizing copy with
  | nil => rfl
  | cons field rest ih =>
    rw [List.forall_mem_cons] at hheld
    rw [List.foldlM_cons, pullAttempted_eq_ok hfits hmembers h hheld.1, assignAll_cons]
    exact ih hheld.2 (h.assign (slot_cloneAll_identity hfits))

end Members

/-- Assigning what it holds to a fresh reference brings a clean entity back. -/
theorem assignAll_slot_reference (hfits : entity.Fits) (hclean : entity.Clean) :
    assignAll entity.slot entity.held.toList entity.reference = entity := by
  have hlength : entity.reference.slots.length = entity.slots.length :=
    (length_emptySlots entity.kind).trans hfits.length_slots.symm
  refine ext_slot kind_assignAll id_assignAll (fun field => ?_)
    (length_slots_assignAll.trans hlength) fun field => ?_
  · rw [hasField_assignAll_reference, Bool.eq_iff_iff, decide_eq_true_iff]
    exact FieldSet.mem_toList
  · rw [slot_assignAll_reference]
    split
    · rfl
    · rename_i hnone
      have hunheld : entity.hasField field = false := by
        rw [Bool.eq_false_iff]
        exact fun hheld => hnone ⟨FieldSet.mem_toList.2 hheld, hfits.lt_size field hheld⟩
      exact (hclean field hunheld).symm

@[simp]
theorem held_cloneAll (entity : Entity κ) : entity.cloneAll.held = entity.held := by
  rw [cloneAll_eq]

@[simp]
theorem reference_cloneAll (entity : Entity κ) : entity.cloneAll.reference = entity.reference := by
  rw [cloneAll_eq]
  rfl

/-- No step of a copy in full fails, and together they make the copy. -/
theorem cloneStepwise_eq_ok (h : entity.Throughout Fits) :
    entity.cloneStepwise = .ok entity.cloneAll := by
  induction h with
  | @intro entity hfits members ih =>
    have hwhole : entity.Throughout Fits := .intro hfits members
    have hcopy := assignAll_slot_reference (wellTyped_cloneAll ⟨rfl, hwhole⟩).fits.self
      (clean_cloneAll hwhole).self
    rw [held_cloneAll, reference_cloneAll] at hcopy
    rw [cloneStepwise_eq, foldlM_pullAttempted hfits ih
      (fun field hfield => FieldSet.mem_toList.1 hfield) (begun_reference entity), hcopy]

/-! ## Copies of tidy entities -/

/-- Containers collected from members that are their own copies are as they were. -/
theorem rebuild_map_cloneAll {value : Tree (Entity κ)} (hcanonical : value.Canonical)
    (hmembers : ∀ leaf ∈ value.leaves, leaf.cloneAll = leaf) :
    (value.map cloneAll).rebuild .collected = value := by
  rw [Tree.map_eq_self hmembers, Tree.rebuild_eq_self _ hcanonical]

/-- Neither the copies of the members nor the containers that are collected from them change
anything, and what is not loaded is fresh already. -/
theorem cloneAll_eq_self (hfits : entity.Throughout Fits) (hclean : entity.Throughout Clean) :
    entity.cloneAll = entity := by
  induction hfits with
  | @intro entity self members ih =>
    have hmembers : ∀ field, ∀ leaf ∈ (entity.slot field).leaves, leaf.cloneAll = leaf :=
      fun field leaf hleaf => ih field leaf hleaf (hclean.member hleaf)
    refine ext_slot (by rw [cloneAll_eq]) (by rw [cloneAll_eq]) (hasField_cloneAll entity)
      (by rw [cloneAll_eq, List.length_mapIdx]) fun field => ?_
    rw [slot_cloneAll self.length_slots]
    split
    · exact rebuild_map_cloneAll (self.canonical field) (hmembers field)
    · rename_i hunheld
      exact (hclean.self field (Bool.eq_false_iff.2 hunheld)).symm

/-- The values of a tidy entity come out of a full copy unchanged. -/
theorem Tidy.copied (h : Tidy kind entity) : entity.Copied where
  identity := h.fits.self.identity
  value field := by
    refine rebuild_map_cloneAll (h.fits.self.canonical field) fun leaf hleaf => ?_
    exact cloneAll_eq_self (h.fits.member hleaf) (h.clean.member hleaf)

/-- A fresh reference that pulls everything from a tidy entity becomes that entity. -/
theorem Tidy.pullAll_reference (h : Tidy kind entity) :
    entity.reference.pullAll entity = entity :=
  calc
    entity.reference.pullAll entity =
        assignAll entity.slot entity.held.toList entity.reference :=
      pullAll_eq_assignAll h.copied rfl rfl (begun_reference entity).identity
    _ = entity := assignAll_slot_reference h.fits.self h.clean.self

/-- A tidy entity is its own copy in full: no step of copying it fails, at any depth, and the copy
has its id, its fields and the same stored values, with all members in their places, or in their
container where that is a hashed one and has no places.  Pulling its fields one by one into a fresh
reference succeeds and comes to the same. -/
theorem copies_are_identical [DecidableEq κ] (h : Tidy kind entity) :
    entity.cloneStepwise = .ok entity ∧
      entity.held.toList.foldlM (fun copy field => copy.pull field entity none) entity.reference =
        .ok entity ∧
      entity.cloneAll = entity := by
  have hcopy := cloneAll_eq_self h.fits h.clean
  refine ⟨?_, ?_, hcopy⟩
  · calc
      entity.cloneStepwise = .ok entity.cloneAll := cloneStepwise_eq_ok h.fits
      _ = .ok entity := congrArg Except.ok hcopy
  · simp only [pull_none]
    calc
      _ = Except.ok (entity.reference.pullAll entity) := List.foldlM_pure
      _ = .ok entity := congrArg Except.ok h.pullAll_reference

end PartialEntity.Entity

namespace PartialEntity.Harbor

open Entity

/-- A good that its label tells apart from others, with a value where an item is declared. -/
def labelled (label : String) : Entity Kind :=
  ((ofId .item 1000).assign 1 (text label)).assign 4 (number 3)

def goods : List (Tree (Entity Kind)) :=
  [.leaf (labelled "anchor"), .leaf (labelled "rope")]

/-- A store with goods in a sorted set and in a grid, under a field that declares nothing and under
one that declares berths, and with a text where items are declared. -/
def storehouse : Entity Kind :=
  (((((ofId .depot 7).assign 4 (.set .sorted goods)).assign 11 (.sequence [.sequence goods])).assign
    15 (.sequence goods)).assign 16 (.sequence goods)).assign 17 (text "closed")

theorem tidy_labelled (label : String) : Tidy .item (labelled label) :=
  ((tidy_ofId _ _).assign_scalar (by decide) rfl _).assign_scalar (by decide) rfl _

theorem tidy_storehouse : Tidy .depot storehouse := by
  have hitems : ∀ item ∈ goods, item.Canonical := by
    intro item hitem
    rcases List.mem_pair.1 hitem with rfl | rfl <;> exact .leaf _
  have hdistinct : Tree.Distinct .sorted compare goods :=
    List.pairwise_pair.2 ⟨by decide, fun _ => by decide⟩
  have hleaves : ∀ leaf ∈ [labelled "anchor", labelled "rope"], Tidy .item leaf := by
    intro leaf hleaf
    rcases List.mem_pair.1 hleaf with rfl | rfl <;> exact tidy_labelled _
  have hgrid : (Tree.sequence [.sequence goods]).Canonical :=
    .sequence fun row hrow => List.mem_singleton.1 hrow ▸ .sequence hitems
  refine Tidy.assign_scalar ?_ (by decide) rfl _
  refine Tidy.assign_members ?_ (by decide) rfl (.sequence hitems) hleaves
  refine Tidy.assign_members ?_ (by decide) rfl (.sequence hitems) hleaves
  refine Tidy.assign_members ?_ (by decide) rfl hgrid hleaves
  exact (tidy_ofId _ _).assign_members (by decide) rfl (.set hitems hdistinct) hleaves

/-- The store comes out of a copy in full as it went in, mismatched fields included. -/
theorem copies_are_identical_storehouse :
    Tidy .depot storehouse ∧ Catalog.nested? Kind.depot 15 = none ∧
      Catalog.nested? Kind.depot 16 = some .berth ∧
      storehouse.cloneStepwise = .ok storehouse ∧ storehouse.cloneAll = storehouse :=
  have hcopy := copies_are_identical tidy_storehouse
  ⟨tidy_storehouse, rfl, rfl, hcopy.1, hcopy.2.2⟩

end PartialEntity.Harbor
