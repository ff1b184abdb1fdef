import PartialEntity.Proofs.Entity.Pull

/-!
# Flat entities

A flat entity has references as members, in containers that are in order.  A flat copy is flat, and
copying a flat entity in any way changes nothing.  What a cache stores stays flat whatever is done
to it, no matter where it came from.
-/

namespace PartialEntity

variable {κ : Type} [Catalog κ]

/-! ## Flat values -/

/-- Whether a value has references as members, in containers that are in order. -/
structure Tree.Flat (value : Tree (Entity κ)) : Prop where
  canonical : value.Canonical
  reference : ∀ leaf ∈ value.leaves, leaf.reference = leaf

namespace Entity

theorem hasField_cloneAll (entity : Entity κ) (field : Nat) :
    entity.cloneAll.hasField field = entity.hasField field := by
  rw [cloneAll_eq]
  rfl

theorem slot_cloneAll {entity : Entity κ}
    (hlength : entity.slots.length = Catalog.size entity.kind) (field : Nat) :
    entity.cloneAll.slot field =
      if entity.hasField field then ((entity.slot field).map cloneAll).rebuild .collected
      else emptySlot entity.kind field := by
  by_cases hlt : field < entity.slots.length
  · rw [slot_eq_getElem (by simpa [cloneAll_eq] using hlt), slot_eq_getElem hlt]
    simp only [cloneAll_eq, List.getElem_mapIdx]
  · have hsize : Catalog.size entity.kind ≤ field := by
      rw [← hlength]
      exact Nat.le_of_not_lt hlt
    rw [slot_eq_unit (Nat.le_of_not_lt hlt), emptySlot_of_size_le hsize, slot_eq_unit]
    · exact (ite_self _).symm
    · rw [cloneAll_eq, List.length_mapIdx]
      exact Nat.le_of_not_lt hlt

/-- A reference is its own copy in full. -/
theorem cloneAll_reference (entity : Entity κ) : entity.reference.cloneAll = entity.reference := by
  have hlength : entity.reference.slots.length = Catalog.size entity.reference.kind :=
    length_emptySlots entity.kind
  apply ext_slot
  · rw [cloneAll_eq]
  · rw [cloneAll_eq]
  · exact hasField_cloneAll entity.reference
  · rw [cloneAll_eq, List.length_mapIdx]
  · intro field
    have hheld : ¬entity.reference.hasField field = true :=
      Bool.eq_false_iff.1 (hasField_ofId entity.kind entity.id field)
    rw [slot_cloneAll hlength, if_neg hheld]
    exact (slot_ofId entity.kind entity.id field).symm

end Entity

namespace Tree.Flat

variable {value : Tree (Entity κ)}

theorem scalar (scalar : Scalar) : (Tree.scalar scalar : Tree (Entity κ)).Flat :=
  ⟨.scalar scalar, nofun⟩

theorem emptySlot (kind : κ) (field : Nat) : (Entity.emptySlot kind field).Flat :=
  ⟨Entity.canonical_emptySlot kind field,
    fun leaf hleaf => absurd hleaf (Entity.not_mem_leaves_emptySlot kind field leaf)⟩

/-- A full copy of a flat value is the value itself. -/
theorem copied (h : value.Flat) : (value.map Entity.cloneAll).rebuild .collected = value := by
  have hmap : value.map Entity.cloneAll = value := by
    apply Tree.map_eq_self
    intro leaf hleaf
    rw [← h.reference leaf hleaf]
    exact Entity.cloneAll_reference leaf
  rw [hmap]
  exact Tree.rebuild_eq_self _ h.canonical

variable [DecidableEq κ]

theorem mapM_cloneMember (value : Tree (Entity κ)) :
    value.mapM (Entity.cloneMember none) =
      .ok ((value.map Entity.reference).rebuild .collected) := by
  have htraverse : value.traverse (Entity.cloneMember none) = .ok (value.map Entity.reference) :=
    Tree.traverse_eq_ok fun leaf _ => by rw [Entity.cloneMember]; rfl
  rw [Tree.mapM, htraverse]
  rfl

omit [DecidableEq κ] in
/-- Reducing all members to references makes a value flat. -/
theorem rebuild_reference (value : Tree (Entity κ)) :
    ((value.map Entity.reference).rebuild .collected).Flat := by
  refine ⟨Tree.canonical_rebuild _ _, fun leaf hleaf => ?_⟩
  obtain ⟨origin, -, rfl⟩ := Tree.exists_of_mem_leaves_rebuild_map hleaf
  rfl

omit [DecidableEq κ] in
/-- Reducing members to references leaves a flat value as it is. -/
theorem rebuild_reference_eq_self (h : value.Flat) :
    (value.map Entity.reference).rebuild .collected = value := by
  rw [Tree.map_eq_self h.reference]
  exact Tree.rebuild_eq_self _ h.canonical

end Tree.Flat

namespace Entity

/-! ## Flat entities -/

/-- Whether the fields of an entity that store no members are as their kind says. -/
structure Plain (entity : Entity κ) : Prop where
  identity : ∀ field, Catalog.content? entity.kind field = some .identity →
    entity.slot field = .scalar .unit
  plain : ∀ field type, Catalog.content? entity.kind field = some (.plain type) →
    (entity.slot field).Flat

theorem Fits.plainFields {entity : Entity κ} (h : entity.Fits) : entity.Plain := by
  constructor
  · exact h.identity
  · intro field type hcontent
    refine ⟨h.canonical field, fun leaf hleaf => ?_⟩
    rw [h.plain field type hcontent] at hleaf
    exact absurd hleaf List.not_mem_nil

section Slot

variable [DecidableEq κ] {entity : Entity κ} {field : Nat} {value : Tree (Entity κ)}

/-- A flat copy of the value of a field is flat. -/
theorem flat_of_copySlot (hplain : entity.Plain) (hfield : field < Catalog.size entity.kind)
    (hok : copySlot none entity field = .ok value) : value.Flat := by
  obtain ⟨content, hcontent⟩ : ∃ content, Catalog.content? entity.kind field = some content := by
    rw [Catalog.content?, Catalog.field?, List.getElem?_eq_getElem hfield]
    exact ⟨_, rfl⟩
  rw [copySlot, hcontent] at hok
  cases content with
  | identity =>
    cases hok
    rw [hplain.identity field hcontent]
    exact .scalar .unit
  | plain type =>
    cases hok
    exact hplain.plain field type hcontent
  | nested member shape =>
    obtain ⟨_, -, hok⟩ := Result.bind_eq_ok_iff.1 hok
    rw [Tree.Flat.mapM_cloneMember] at hok
    cases hok
    exact Tree.Flat.rebuild_reference _

/-- A flat value is copied unchanged where nothing is attached. -/
theorem eq_slot_of_copySlot (hflat : (entity.slot field).Flat)
    (hok : copySlot none entity field = .ok value) : value = entity.slot field := by
  rw [copySlot] at hok
  split at hok
  · obtain ⟨_, -, hok⟩ := Result.bind_eq_ok_iff.1 hok
    rw [Tree.Flat.mapM_cloneMember, hflat.rebuild_reference_eq_self] at hok
    exact (Except.ok.inj hok).symm
  · exact (Except.ok.inj hok).symm

end Slot

section Slots

variable {entity : Entity κ}

theorem Clean.clearFields (h : entity.Clean)
    (hlength : entity.slots.length = Catalog.size entity.kind) (fields : FieldSet) :
    (entity.clearFields fields).Clean := by
  intro field hfield
  rw [hasField_clearFields] at hfield
  rw [slot_clearFields hlength]
  split
  · rfl
  · rename_i hkept
    apply h
    cases hloaded : entity.hasField field with
    | false => rfl
    | true =>
      rw [hloaded, Bool.true_and] at hfield hkept
      rw [Bool.eq_false_iff.2 hkept] at hfield
      cases hfield

end Slots

/-- Whether an entity is what a flat copy makes: references as members, fresh values where nothing
is loaded, and only fields loaded that declare the kinds of the members they store. -/
structure Flat (entity : Entity κ) : Prop where
  length_slots : entity.slots.length = Catalog.size entity.kind
  identity : ∀ field, Catalog.content? entity.kind field = some .identity →
    entity.slot field = .scalar .unit
  value : ∀ field, (entity.slot field).Flat
  copyable : ∀ field, entity.hasField field = true → Catalog.Copyable entity.kind field
  clean : entity.Clean

namespace Flat

variable {entity other : Entity κ}

theorem ofId (kind : κ) (id : Nat) : (ofId kind id).Flat where
  length_slots := length_emptySlots kind
  identity field hcontent := emptySlot_identity hcontent
  value field := Tree.Flat.emptySlot kind field
  copyable field hfield := by
    rw [hasField_ofId] at hfield
    cases hfield
  clean field _ := slot_ofId kind id field

/-- The values of a flat entity come out of a full copy unchanged. -/
theorem copied (h : entity.Flat) : entity.Copied :=
  ⟨h.identity, fun field => (h.value field).copied⟩

theorem cloneAll (h : entity.Flat) : entity.cloneAll = entity := by
  have hlength : entity.cloneAll.slots.length = entity.slots.length := by
    rw [cloneAll_eq, List.length_mapIdx]
  apply ext_slot
  · rw [cloneAll_eq]
  · rw [cloneAll_eq]
  · intro field
    rw [cloneAll_eq]
    rfl
  · exact hlength
  · intro field
    rw [slot_cloneAll h.length_slots]
    split
    · exact (h.value field).copied
    · rename_i hheld
      exact (h.clean field (Bool.eq_false_iff.2 hheld)).symm

/-- A flat entity stays flat when fields are unloaded. -/
theorem clearFields (h : entity.Flat) (fields : FieldSet) : (entity.clearFields fields).Flat := by
  have hheld := hasField_clearFields entity fields
  have hslot := slot_clearFields h.length_slots fields
  constructor
  · exact List.length_mapIdx.trans h.length_slots
  · intro field hcontent
    rw [hslot]
    split
    · exact emptySlot_identity hcontent
    · exact h.identity field hcontent
  · intro field
    rw [hslot]
    split
    · exact Tree.Flat.emptySlot ..
    · exact h.value field
  · intro field hfield
    rw [hheld, Bool.and_eq_true] at hfield
    exact h.copyable field hfield.1
  · exact h.clean.clearFields h.length_slots fields

section Pull

variable (h : entity.Flat) (hother : other.Flat) (hkind : entity.kind = other.kind)
  (hid : entity.id = other.id)

include h hother hkind hid

/-- Copying every field from a flat entity replaces the values of the fields that it holds. -/
theorem hasField_pullAll (field : Nat) :
    (entity.pullAll other).hasField field = (entity.hasField field || other.hasField field) := by
  rw [pullAll_eq_assignAll hother.copied hkind hid h.identity, hasField_assignAll]
  congr 1
  rw [Bool.eq_iff_iff, decide_eq_true_iff, FieldSet.mem_toList]
  rfl

/-- Pulling everything takes over what the other entity holds, and keeps the rest. -/
theorem slot_pullAll (field : Nat) :
    (entity.pullAll other).slot field =
      if other.hasField field then other.slot field else entity.slot field := by
  rw [pullAll_eq_assignAll hother.copied hkind hid h.identity, slot_assignAll]
  have hlength : entity.slots.length = other.slots.length := by
    rw [h.length_slots, hother.length_slots, hkind]
  have hmem : field ∈ other.held.toList ↔ other.hasField field = true := FieldSet.mem_toList
  by_cases hheld : other.hasField field = true
  · by_cases hlt : field < entity.slots.length
    · rw [if_pos ⟨hmem.2 hheld, hlt⟩, if_pos hheld]
    · rw [if_neg fun hin => hlt hin.2, if_pos hheld, slot_eq_unit (Nat.le_of_not_lt hlt),
        slot_eq_unit]
      rw [← hlength]
      exact Nat.le_of_not_lt hlt
  · rw [if_neg fun hin => hheld (hmem.1 hin.1), if_neg hheld]

theorem kind_pullAll : (entity.pullAll other).kind = entity.kind := by
  rw [pullAll_eq_assignAll hother.copied hkind hid h.identity, kind_assignAll]

theorem id_pullAll : (entity.pullAll other).id = entity.id := by
  rw [pullAll_eq_assignAll hother.copied hkind hid h.identity, id_assignAll]

/-- A flat entity stays flat when it takes over all that another flat one holds. -/
theorem pullAll : (entity.pullAll other).Flat := by
  have hslot := slot_pullAll h hother hkind hid
  have hheld := hasField_pullAll h hother hkind hid
  have hsame := kind_pullAll h hother hkind hid
  constructor
  · rw [pullAll_eq_assignAll hother.copied hkind hid h.identity, length_slots_assignAll,
      kind_assignAll]
    exact h.length_slots
  · intro field hcontent
    rw [hsame] at hcontent
    rw [hslot]
    split
    · exact hother.identity field (hkind ▸ hcontent)
    · exact h.identity field hcontent
  · intro field
    rw [hslot]
    split
    · exact hother.value field
    · exact h.value field
  · intro field hfield
    rw [hsame]
    rw [hheld, Bool.or_eq_true] at hfield
    rcases hfield with hfield | hfield
    · exact h.copyable field hfield
    · rw [hkind]
      exact hother.copyable field hfield
  · intro field hfield
    rw [hheld, Bool.or_eq_false_iff] at hfield
    rw [hslot, hfield.2, hsame]
    exact h.clean field hfield.1

end Pull

end Flat

/-! ## Flat copies -/

structure IsFlatCopy (fields : FieldSet) (entity copy : Entity κ) : Prop where
  id_eq : copy.id = entity.id
  kind_eq : copy.kind = entity.kind
  flat : copy.Flat
  hasField : ∀ field, copy.hasField field = fields.contains field
  slot : ∀ field, fields.contains field = true → field < Catalog.size entity.kind →
    (entity.slot field).Flat → copy.slot field = entity.slot field

/-- A copy through a graph without subgraphs is flat. -/
theorem isFlatCopy_of_cloneGraph [DecidableEq κ] {graph : Graph κ} {fields : FieldSet}
    (hattached : ∀ field subgraph, (field, subgraph) ∈ graph.entries → subgraph = none)
    (hfields : ∀ field, field ∈ graph.toList ↔ fields.contains field = true)
    {entity copy : Entity κ} (hplain : entity.Plain) (hok : cloneGraph graph entity = .ok copy) :
    IsFlatCopy fields entity copy := by
  obtain ⟨value, hcopies, rfl⟩ := exists_assignAll_of_cloneGraph
    (fun hleft hright => (hattached _ _ hleft).trans (hattached _ _ hright).symm) hok
  have hvalue : ∀ field, fields.contains field = true →
      copySlot none entity field = .ok (value field) := by
    intro field hfield
    obtain ⟨⟨_, subgraph⟩, hentry, rfl⟩ := List.mem_map.1 ((hfields field).2 hfield)
    obtain rfl := hattached _ subgraph hentry
    exact hcopies _ _ hentry
  have hheld : ∀ field, (assignAll value graph.toList entity.reference).hasField field =
      fields.contains field := by
    intro field
    rw [hasField_assignAll_reference, Bool.eq_iff_iff, decide_eq_true_iff]
    exact hfields field
  have hslot : ∀ field, (assignAll value graph.toList entity.reference).slot field =
      if fields.contains field = true ∧ field < Catalog.size entity.kind then value field
      else emptySlot entity.kind field := by
    intro field
    rw [slot_assignAll_reference]
    simp only [hfields]
  have hkind : (assignAll value graph.toList entity.reference).kind = entity.kind :=
    kind_assignAll
  refine ⟨id_assignAll, hkind, ⟨?_, ?_, ?_, ?_, ?_⟩, hheld, ?_⟩
  · rw [length_slots_assignAll, hkind]
    exact length_emptySlots entity.kind
  · intro field hcontent
    rw [hkind] at hcontent
    rw [hslot]
    split
    · rename_i hfield
      have hunit := hplain.identity field hcontent
      rw [eq_slot_of_copySlot (by rw [hunit]; exact .scalar .unit) (hvalue field hfield.1), hunit]
    · exact emptySlot_identity hcontent
  · intro field
    rw [hslot]
    split
    · rename_i hfield
      exact flat_of_copySlot hplain hfield.2 (hvalue field hfield.1)
    · exact Tree.Flat.emptySlot ..
  · intro field hfield
    rw [hheld] at hfield
    rw [hkind]
    exact copyable_of_copySlot (hvalue field hfield)
  · intro field hfield
    rw [hheld] at hfield
    rw [hslot, hkind, hfield, if_neg (by simp)]
  · intro field hfield hlt hflat
    rw [hslot, if_pos ⟨hfield, hlt⟩]
    exact eq_slot_of_copySlot hflat (hvalue field hfield)

section Copy

variable [DecidableEq κ] {entity : Entity κ}

/-- A field that declares the kind of its members is copied with references as members. -/
theorem copySlot_none (hfits : entity.Fits) {field : Nat}
    (hdeclared : Catalog.Copyable entity.kind field) :
    copySlot none entity field = .ok (((entity.slot field).map reference).rebuild .collected) := by
  rw [copySlot]
  split
  · rename_i member shape hcontent
    rw [Graph.checkNested_eq_ok_iff.2 (hdeclared member shape hcontent)]
    exact Tree.Flat.mapM_cloneMember _
  · rename_i hcontent
    have hflat : (entity.slot field).Flat := by
      refine ⟨hfits.canonical field, fun leaf hleaf => ?_⟩
      rw [leaves_slot_of_not_nested hfits hcontent] at hleaf
      exact absurd hleaf List.not_mem_nil
    exact congrArg Except.ok hflat.rebuild_reference_eq_self.symm

/-- Loaded fields that declare the kinds of their members can be copied flat. -/
theorem exists_flatCopy {graph : Graph κ} {fields : FieldSet}
    (hattached : ∀ field subgraph, (field, subgraph) ∈ graph.entries → subgraph = none)
    (hfields : ∀ field, field ∈ graph.toList ↔ fields.contains field = true)
    (hfits : entity.Fits) (hheld : ∀ field, fields.contains field = true →
      entity.hasField field = true ∧ Catalog.Copyable entity.kind field) :
    ∃ copy, cloneGraph graph entity = .ok copy ∧
      (∀ field, copy.hasField field = fields.contains field) ∧
        ∀ field, fields.contains field = true →
          copy.slot field = ((entity.slot field).map reference).rebuild .collected := by
  obtain ⟨kind, entries⟩ := graph
  have hmem : ∀ field, field ∈ entries.map (·.1) ↔ fields.contains field = true := hfields
  have hensure : entity.ensureFields (.ofList (entries.map (·.1))) = .ok () := by
    refine ensureFields_eq_ok_iff.2 fun field hfield => ?_
    rw [FieldSet.contains_ofList, decide_eq_true_iff, hmem] at hfield
    exact (hheld field hfield).1
  let value := fun field => ((entity.slot field).map reference).rebuild .collected
  have hcopies : ∀ field subgraph, (field, subgraph) ∈ entries →
      copySlot subgraph entity field = .ok (value field) := by
    intro field subgraph hentry
    rw [hattached field subgraph hentry]
    have hfield := (hmem field).1 (List.mem_map_of_mem hentry)
    exact copySlot_none hfits (hheld field hfield).2
  refine ⟨assignAll value (entries.map (·.1)) entity.reference, ?_, fun field => ?_,
    fun field hfield => ?_⟩
  · rw [cloneGraph_eq, hensure]
    exact cloneEntries_eq_ok hcopies
  · rw [hasField_assignAll_reference, Bool.eq_iff_iff, decide_eq_true_iff]
    exact hmem field
  · rw [slot_assignAll_reference, if_pos]
    exact ⟨(hmem field).2 hfield, hfits.lt_size field (hheld field hfield).1⟩

end Copy

end Entity

end PartialEntity
