import PartialEntity.Proofs.Entity.Sound
import PartialEntity.Proofs.Graph.Selection

/-!
# Restriction of an entity to a selection

The part of an entity that a selection keeps: at every depth the selected fields with their
values, and fresh values elsewhere.  Copying, narrowing and extending are all described by it.
Restrictions compose by intersection, and two selections restrict an entity alike when they agree
on the paths that the entity reaches.
-/

namespace PartialEntity.Entity

variable {κ : Type} [Catalog κ]

/-- The part of an entity that a selection keeps. -/
def restrict (selection : Selection) (entity : Entity κ) : Entity κ :=
  fold (fun kind id held (slots : List (Tree (Selection → Entity κ))) selection =>
    ⟨kind, id, held.keep fun field => selection [field], slots.mapIdx fun field value =>
      if held.contains field && selection [field] then
        value.map fun member => member (selection.under field)
      else emptySlot kind field⟩) entity selection

/-- The part of an entity, field by field: what is loaded and selected stays, and its members are
parts too. -/
theorem restrict_eq (selection : Selection) (entity : Entity κ) :
    entity.restrict selection =
      ⟨entity.kind, entity.id, entity.held.keep fun field => selection [field],
        entity.slots.mapIdx fun field value =>
          if entity.hasField field && selection [field] then
            value.map (restrict (selection.under field))
          else emptySlot entity.kind field⟩ := by
  rw [restrict, fold_eq]
  congr 1
  refine List.ext_getElem (by simp) fun field _ _ => ?_
  simp only [List.getElem_mapIdx, List.getElem_map, Tree.map_map]
  rfl

/-! ## What a restriction stores -/

@[simp]
theorem kind_restrict (selection : Selection) (entity : Entity κ) :
    (entity.restrict selection).kind = entity.kind := by
  rw [restrict_eq]

@[simp]
theorem id_restrict (selection : Selection) (entity : Entity κ) :
    (entity.restrict selection).id = entity.id := by
  rw [restrict_eq]

@[simp]
theorem length_slots_restrict (selection : Selection) (entity : Entity κ) :
    (entity.restrict selection).slots.length = entity.slots.length := by
  rw [restrict_eq, List.length_mapIdx]

@[simp]
theorem hasField_restrict (selection : Selection) (entity : Entity κ) (field : Nat) :
    (entity.restrict selection).hasField field =
      (entity.hasField field && selection [field]) := by
  rw [restrict_eq, hasField_mk, FieldSet.contains_keep]
  rfl

theorem slot_restrict {selection : Selection} {entity : Entity κ} {field : Nat}
    (hheld : entity.hasField field = true) (hselected : selection [field] = true) :
    (entity.restrict selection).slot field =
      (entity.slot field).map (restrict (selection.under field)) := by
  by_cases hfield : field < entity.slots.length
  · rw [slot_eq_getElem (by rwa [length_slots_restrict]), slot_eq_getElem hfield]
    simp only [restrict_eq, List.getElem_mapIdx, hheld, hselected, Bool.and_self, if_true]
  · rw [slot_eq_unit (by rw [length_slots_restrict]; exact Nat.le_of_not_lt hfield),
      slot_eq_unit (Nat.le_of_not_lt hfield), Tree.map]

/-- What is not both loaded and selected is fresh in the part. -/
theorem slot_restrict_of_not {selection : Selection} {entity : Entity κ} (hfits : entity.Fits)
    {field : Nat} (h : (entity.hasField field && selection [field]) = false) :
    (entity.restrict selection).slot field = emptySlot entity.kind field := by
  by_cases hfield : field < entity.slots.length
  · rw [slot_eq_getElem (by rwa [length_slots_restrict])]
    simp only [restrict_eq, List.getElem_mapIdx]
    rw [h]
    rfl
  · have hsize : Catalog.size entity.kind ≤ field := by
      rw [← hfits.length_slots]
      exact Nat.le_of_not_lt hfield
    rw [slot_eq_unit (by rw [length_slots_restrict]; exact Nat.le_of_not_lt hfield),
      emptySlot_of_size_le hsize]

/-- A part is told apart from others as the whole is. -/
theorem key_restrict (selection : Selection) {entity : Entity κ} (h : entity.IdentifiedById) :
    (entity.restrict selection).key = entity.key := by
  have hrestrict : (entity.restrict selection).IdentifiedById := by
    rw [IdentifiedById, kind_restrict, id_restrict]
    exact h
  rw [hrestrict.key_eq, h.key_eq, id_restrict]

/-! ## Composition -/

/-- A part of a part is the part of what both selections keep. -/
theorem restrict_restrict (outer inner : Selection) (entity : Entity κ) :
    (entity.restrict inner).restrict outer = entity.restrict (outer ⊓ inner) := by
  induction entity using induction generalizing outer inner with
  | entity entity ih =>
    have hslots : ∀ field, ∀ hfield : field < entity.slots.length,
        ∀ member ∈ entity.slots[field].leaves, ∀ outer inner : Selection,
          (member.restrict inner).restrict outer = member.restrict (outer ⊓ inner) := by
      intro field hfield member hmember outer inner
      rw [← slot_eq_getElem hfield] at hmember
      exact ih field member hmember outer inner
    rw [restrict_eq outer, restrict_eq inner, restrict_eq (outer ⊓ inner)]
    congr 1
    · refine FieldSet.ext_contains fun field => ?_
      simp only [FieldSet.contains_keep, Selection.inf_apply, Bool.and_assoc, Bool.and_comm]
    · refine List.ext_getElem (by simp) fun field hleft hright => ?_
      rw [List.length_mapIdx] at hright
      simp only [List.getElem_mapIdx, hasField_mk, FieldSet.contains_keep, Selection.inf_apply]
      by_cases hheld : entity.held.contains field = true
      · by_cases hinner : inner [field] = true
        · by_cases houter : outer [field] = true
          · simp only [hasField, hheld, hinner, houter, Bool.and_self, if_true, Tree.map_map]
            exact Tree.map_congr fun member hmember => hslots field hright member hmember _ _
          · simp [houter]
        · simp [hinner]
      · simp [hasField, hheld]

/-- A restriction to a part of a selection is not affected by one to the selection before. -/
theorem restrict_restrict_of_subset {part selection : Selection} (entity : Entity κ)
    (h : ∀ path, part path = true → selection path = true) :
    (entity.restrict selection).restrict part = entity.restrict part := by
  rw [restrict_restrict]
  congr 1
  funext path
  rw [Selection.inf_apply]
  cases hpath : part path with
  | true => rw [h path hpath, Bool.and_self]
  | false => exact Bool.false_and _

/-- The members of a part are the parts of the members under selected fields. -/
theorem mem_leaves_restrict {selection : Selection} {entity : Entity κ} (hfits : entity.Fits)
    {field : Nat} {leaf : Entity κ} :
    leaf ∈ ((entity.restrict selection).slot field).leaves ↔
      entity.hasField field = true ∧ selection [field] = true ∧
        ∃ member ∈ (entity.slot field).leaves, member.restrict (selection.under field) = leaf := by
  by_cases hheld : entity.hasField field = true
  · by_cases hselected : selection [field] = true
    · rw [slot_restrict hheld hselected, Tree.leaves_map, List.mem_map]
      simp only [hheld, hselected, true_and]
    · rw [slot_restrict_of_not hfits (by simp [hselected]), leaves_emptySlot]
      simp [hselected]
  · rw [slot_restrict_of_not hfits (by simp [hheld]), leaves_emptySlot]
    simp [hheld]

/-- A part of an entity is as its kind says. -/
theorem Fits.restrict {entity : Entity κ} (h : entity.Fits)
    (hbyId : ∀ field, ∀ member ∈ (entity.slot field).leaves, member.IdentifiedById)
    (selection : Selection) : (entity.restrict selection).Fits where
  length_slots := by
    rw [length_slots_restrict, kind_restrict]
    exact h.length_slots
  lt_size field hfield := by
    rw [hasField_restrict, Bool.and_eq_true] at hfield
    rw [kind_restrict]
    exact h.lt_size field hfield.1
  identity field hcontent := by
    rw [kind_restrict] at hcontent
    by_cases hkept : (entity.hasField field && selection [field]) = true
    · rw [Bool.and_eq_true] at hkept
      rw [slot_restrict hkept.1 hkept.2, h.identity field hcontent, Tree.map]
    · rw [slot_restrict_of_not h (Bool.eq_false_iff.2 hkept), emptySlot_identity hcontent]
  plain field type hcontent := by
    rw [kind_restrict] at hcontent
    refine List.eq_nil_iff_forall_not_mem.2 fun leaf hleaf => ?_
    obtain ⟨-, -, member, hmember, -⟩ := (mem_leaves_restrict h).1 hleaf
    rw [h.plain field type hcontent] at hmember
    exact List.not_mem_nil hmember
  nested field member shape hcontent leaf hleaf := by
    rw [kind_restrict] at hcontent
    obtain ⟨-, -, origin, horigin, rfl⟩ := (mem_leaves_restrict h).1 hleaf
    rw [kind_restrict]
    exact h.nested field member shape hcontent origin horigin
  canonical field := by
    by_cases hkept : (entity.hasField field && selection [field]) = true
    · rw [Bool.and_eq_true] at hkept
      rw [slot_restrict hkept.1 hkept.2, canonical_map_of_key fun member hmember =>
        key_restrict _ (hbyId field member hmember)]
      exact h.canonical field
    · rw [slot_restrict_of_not h (Bool.eq_false_iff.2 hkept)]
      exact canonical_emptySlot ..

theorem Throughout.restrict {entity : Entity κ} (h : entity.Throughout Sound)
    (selection : Selection) : (entity.restrict selection).Throughout Sound := by
  induction h generalizing selection with
  | @intro entity self members ih =>
    refine .intro ⟨self.toFits.restrict (fun field member hmember => ?_) selection, ?_⟩
      fun field leaf hleaf => ?_
    · exact (members field member hmember).self.byId
    · rw [IdentifiedById, kind_restrict, id_restrict]
      exact self.byId
    · obtain ⟨-, -, member, hmember, rfl⟩ := (mem_leaves_restrict self.toFits).1 hleaf
      exact ih field member hmember _

/-- Of a selection of nothing, the reference is left. -/
theorem restrict_bot {entity : Entity κ} (h : entity.Fits) :
    entity.restrict ⊥ = entity.reference := by
  refine ext_slot (kind_restrict ..) (id_restrict ..) (fun field => ?_) ?_ fun field => ?_
  · rw [hasField_restrict, Selection.bot_apply, Bool.and_false]
    exact (hasField_ofId ..).symm
  · rw [length_slots_restrict, h.length_slots]
    exact (length_emptySlots _).symm
  · rw [slot_restrict_of_not h (by simp)]
    rfl

/-! ## Paths through an entity -/

/-- Whether a path leads through loaded fields only, to a field that some entity stores. -/
def Reaches (entity : Entity κ) : List Nat → Prop
  | [] => False
  | field :: rest => entity.hasField field = true ∧
    (rest = [] ∨ ∃ member ∈ (entity.slot field).leaves, member.Reaches rest)

/-- Whether a path leads to a field that some entity on the way does not hold. -/
def Lacks (entity : Entity κ) : List Nat → Prop
  | [] => False
  | field :: rest => entity.hasField field = false ∨
    ∃ member ∈ (entity.slot field).leaves, member.Lacks rest

/-- Two selections restrict an entity alike if they agree on the paths that it reaches. -/
theorem restrict_congr {left right : Selection} {entity : Entity κ}
    (h : ∀ path, entity.Reaches path → left path = right path) :
    entity.restrict left = entity.restrict right := by
  induction entity using induction generalizing left right with
  | entity entity ih =>
    have hfield : ∀ field, entity.hasField field = true → left [field] = right [field] :=
      fun field hheld => h [field] ⟨hheld, .inl rfl⟩
    rw [restrict_eq, restrict_eq]
    congr 1
    · refine FieldSet.ext_contains fun field => ?_
      rw [FieldSet.contains_keep, FieldSet.contains_keep]
      by_cases hheld : entity.held.contains field = true
      · rw [hfield field hheld]
      · rw [Bool.eq_false_iff.2 hheld, Bool.false_and, Bool.false_and]
    · refine List.ext_getElem (by simp) fun field hlength _ => ?_
      rw [List.length_mapIdx] at hlength
      simp only [List.getElem_mapIdx]
      by_cases hheld : entity.hasField field = true
      · rw [hfield field hheld]
        split
        · refine Tree.map_congr fun member hmember => ?_
          rw [← slot_eq_getElem hlength] at hmember
          refine ih field member hmember fun path hpath => ?_
          exact h (field :: path) ⟨hheld, .inr ⟨member, hmember, hpath⟩⟩
        · rfl
      · simp [hheld]

omit [Catalog κ] in
/-- What is lacking on the way is lacking further on. -/
theorem Lacks.append {entity : Entity κ} {path : List Nat} (h : entity.Lacks path)
    (rest : List Nat) : entity.Lacks (path ++ rest) := by
  induction path generalizing entity with
  | nil => exact h.elim
  | cons field path ih =>
    rcases h with h | ⟨member, hmember, h⟩
    · exact .inl h
    · exact .inr ⟨member, hmember, ih h⟩

/-- A path that an entity reaches is lacking from a restriction that does not keep it. -/
theorem Reaches.lacks_restrict {entity : Entity κ} {path : List Nat} (h : entity.Reaches path)
    {selection : Selection} (hselection : selection path = false) :
    (entity.restrict selection).Lacks path := by
  induction path generalizing entity selection with
  | nil => exact h.elim
  | cons field path ih =>
    obtain ⟨hheld, h⟩ := h
    by_cases hselected : selection [field] = true
    · rcases h with rfl | ⟨member, hmember, h⟩
      · rw [hselected] at hselection
        cases hselection
      · refine .inr ⟨member.restrict (selection.under field), ?_, ih h hselection⟩
        rw [slot_restrict hheld hselected, Tree.leaves_map]
        exact List.mem_map_of_mem hmember
    · refine .inl ?_
      rw [hasField_restrict, Bool.eq_false_iff.2 hselected, Bool.and_false]

/-- What a restriction lacks on a path that it keeps, the whole entity lacks. -/
theorem lacks_of_lacks_restrict {entity : Entity κ} (hfits : entity.Throughout Fits)
    {path : List Nat} {selection : Selection}
    (hselection : ∀ left right, left ++ right = path → left ≠ [] → selection left = true)
    (h : (entity.restrict selection).Lacks path) : entity.Lacks path := by
  induction path generalizing entity selection with
  | nil => exact h.elim
  | cons field path ih =>
    rcases h with h | ⟨leaf, hleaf, h⟩
    · rw [hasField_restrict, hselection [field] path rfl (by simp), Bool.and_true] at h
      exact .inl h
    · obtain ⟨-, -, member, hmember, rfl⟩ := (mem_leaves_restrict hfits.self).1 hleaf
      refine .inr ⟨member, hmember, ih (hfits.member hmember) (fun left right heq hne => ?_) h⟩
      exact hselection (field :: left) right (by rw [List.cons_append, heq]) (by simp)

end PartialEntity.Entity
