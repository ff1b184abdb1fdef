import PartialEntity.Proofs.Entity.Extend
import PartialEntity.Proofs.Entity.Intersect

/-!
# Copying every field

An entity whose values are their own full copies is copied into another one of the same id by
assigning its values.  Between two restrictions of one record this unites what they hold, as far as
members go with the field that was copied last.
-/

namespace PartialEntity.Entity

variable {κ : Type} [Catalog κ]

/-- Whether the values of an entity come out of a full copy unchanged. -/
structure Copied (entity : Entity κ) : Prop where
  identity : ∀ field, Catalog.content? entity.kind field = some .identity →
    entity.slot field = .scalar .unit
  value : ∀ field, ((entity.slot field).map cloneAll).rebuild .collected = entity.slot field

section Assign

variable {entity other : Entity κ}

/-- Where a full copy changes nothing, pulling a field is assigning its value. -/
theorem pullWhole_eq_assign (hother : other.Copied) (hkind : entity.kind = other.kind)
    (hid : entity.id = other.id) {field : Nat}
    (hidentity : Catalog.content? entity.kind field = some .identity →
      entity.slot field = .scalar .unit) :
    entity.pullWhole field other = entity.assign field (other.slot field) := by
  rw [pullWhole]
  split
  · rename_i hcontent
    have hslot : entity.slot field = other.slot field := by
      rw [hidentity hcontent, hother.identity field (hkind ▸ hcontent)]
    rw [assign_of_slot_eq hslot, ← hid]
    rfl
  · rw [hother.value]
  · rfl

/-- Copying every field assigns the values of the fields that the other entity holds. -/
theorem pullAll_eq_assignAll (hother : other.Copied) (hkind : entity.kind = other.kind)
    (hid : entity.id = other.id)
    (hidentity : ∀ field, Catalog.content? entity.kind field = some .identity →
      entity.slot field = .scalar .unit) :
    entity.pullAll other = assignAll other.slot other.held.toList entity := by
  rw [pullAll]
  generalize other.held.toList = fields
  induction fields generalizing entity with
  | nil => rfl
  | cons field rest ih =>
    rw [List.foldl_cons, assignAll_cons, pullWhole_eq_assign hother hkind hid (hidentity field)]
    apply @ih (entity.assign field (other.slot field)) hkind hid
    intro next hcontent
    rw [slot_assign]
    split
    · rename_i hsame
      rw [← hsame.1] at hcontent
      exact hother.identity field (hkind ▸ hcontent)
    · exact hidentity next hcontent

end Assign

/-! ## Copying between restrictions of a record -/

variable {record : Entity κ}

theorem copied_restrict (hrecord : record.Throughout Sound) (selection : Selection) :
    (record.restrict selection).Copied := by
  have hsound := hrecord.restrict selection
  have hclean := clean_restrict (hrecord.mono fun _ h => h.toFits) selection
  refine ⟨hsound.self.identity, fun field => ?_⟩
  have hmembers : ∀ member ∈ ((record.restrict selection).slot field).leaves,
      member.cloneAll = member := by
    intro member hmember
    rw [cloneAll_eq_restrict (hsound.member hmember)]
    exact restrict_top ((hsound.member hmember).mono fun _ h => h.toFits) (hclean.member hmember)
  rw [Tree.map_eq_self hmembers]
  exact Tree.rebuild_eq_self _ (hsound.self.canonical field)

/-- Pulling one part of a record into another gives a part of the record again: at and under the
fields that were pulled it is the one part, and elsewhere the other. -/
theorem pullAll_restrict (hrecord : record.Throughout Sound) (old new : Selection) :
    (record.restrict old).pullAll (record.restrict new) =
      record.restrict (old.patch (record.restrict new).held.toList new) := by
  have hfits := hrecord.self.toFits
  have hmem : ∀ field, field ∈ (record.restrict new).held.toList ↔
      record.hasField field = true ∧ new [field] = true := by
    intro field
    rw [FieldSet.mem_toList, ← Bool.and_eq_true, ← hasField_restrict]
    rfl
  rw [pullAll_eq_assignAll (copied_restrict hrecord new) _ _
    (hrecord.restrict old).self.identity]
  · apply ext_slot
    · rw [kind_assignAll, kind_restrict, kind_restrict]
    · rw [id_assignAll, id_restrict, id_restrict]
    · intro field
      rw [hasField_assignAll, hasField_restrict, hasField_restrict, Selection.patch]
      by_cases hfield : field ∈ (record.restrict new).held.toList
      · obtain ⟨hheld, hnew⟩ := (hmem field).1 hfield
        simp [hfield, hheld, hnew]
      · simp [hfield]
    · rw [length_slots_assignAll, length_slots_restrict, length_slots_restrict]
    · intro field
      rw [slot_assignAll, length_slots_restrict]
      by_cases hfield : field ∈ (record.restrict new).held.toList
      · have hlt : field < record.slots.length := by
          rw [hfits.length_slots]
          exact hfits.lt_size field ((hmem field).1 hfield).1
        rw [if_pos ⟨hfield, hlt⟩]
        exact slot_restrict_congr hfits fun rest => (Selection.patch_of_mem hfield rest).symm
      · rw [if_neg fun h => hfield h.1]
        exact slot_restrict_congr hfits fun rest => (Selection.patch_of_not_mem hfield rest).symm
  · rw [kind_restrict, kind_restrict]
  · rw [id_restrict, id_restrict]

/-- Copies with references as members are united. -/
theorem pullAll_restrict_ofFields (hrecord : record.Throughout Sound) (old new : FieldSet) :
    (record.restrict (.ofFields old)).pullAll (record.restrict (.ofFields new)) =
      record.restrict (.ofFields (old.union new)) := by
  rw [pullAll_restrict hrecord]
  apply restrict_congr
  intro path hpath
  match path, hpath with
  | [field], hpath =>
    have hheld : record.hasField field = true := hpath.1
    have hmem : field ∈ (record.restrict (.ofFields new)).held.toList ↔
        new.contains field = true := by
      rw [FieldSet.mem_toList]
      change (record.restrict (.ofFields new)).hasField field = true ↔ _
      rw [hasField_restrict, hheld]
      rfl
    by_cases hnew : new.contains field = true
    · simp [Selection.patch, hmem, hnew]
    · simp [Selection.patch, hmem, hnew]
  | _ :: _ :: _, _ =>
    rw [Selection.patch]
    split
    · rfl
    · rfl

end PartialEntity.Entity
