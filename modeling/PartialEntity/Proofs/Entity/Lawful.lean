import PartialEntity.Proofs.Entity.Clone

/-!
# How lawful records are made

A fresh reference is lawful, and stays so when fields are assigned values that they can store.
-/

namespace PartialEntity

variable {κ : Type}

def Content.Allows : Content κ → Tree (Entity κ) → Prop
  | .identity, value => value = .scalar .unit
  | .plain _, value => value.leaves = []
  | .nested member _, value => ∀ leaf ∈ value.leaves, leaf.kind = member

theorem Content.allows_emptyContent (content : Content κ) :
    content.Allows (Entity.emptyContent content) := by
  cases content with
  | identity | plain => rfl
  | nested member shape =>
    intro leaf hleaf
    rw [Entity.leaves_emptyContent] at hleaf
    exact absurd hleaf List.not_mem_nil

namespace Entity

variable [Catalog κ] {entity : Entity κ} {field : Nat} {value : Tree (Entity κ)}

/-- An entity is as its kind says if its slots have the right number, and each stores what its
content allows. -/
theorem Fits.of_allows (hlength : entity.slots.length = Catalog.size entity.kind)
    (hheld : ∀ field, entity.hasField field = true → field < Catalog.size entity.kind)
    (hallows : ∀ field content, Catalog.content? entity.kind field = some content →
      content.Allows (entity.slot field))
    (hcanonical : ∀ field, (entity.slot field).Canonical) : entity.Fits where
  length_slots := hlength
  lt_size := hheld
  identity field hcontent := hallows field .identity hcontent
  plain field type hcontent := hallows field (.plain type) hcontent
  nested field member shape hcontent := hallows field (.nested member shape) hcontent
  canonical := hcanonical

theorem Fits.allows (h : entity.Fits) {content : Content κ}
    (hcontent : Catalog.content? entity.kind field = some content) :
    content.Allows (entity.slot field) := by
  cases content with
  | identity => exact h.identity field hcontent
  | plain type => exact h.plain field type hcontent
  | nested member shape => exact h.nested field member shape hcontent

theorem fits_ofId (kind : κ) (id : Nat) : (ofId kind id).Fits := by
  apply Fits.of_allows
  · exact length_emptySlots kind
  · intro field hfield
    rw [hasField_ofId] at hfield
    cases hfield
  · intro field content hcontent
    have hkind : Catalog.content? kind field = some content := hcontent
    rw [slot_ofId, emptySlot_eq, hkind]
    exact content.allows_emptyContent
  · intro field
    rw [slot_ofId]
    exact canonical_emptySlot kind field

/-- A fresh reference is lawful. -/
theorem lawful_ofId {kind : κ} {id : Nat} (hid : (ofId kind id).IdentifiedById) :
    (ofId kind id).Lawful := by
  have hmembers : ∀ field, ∀ member ∈ ((ofId kind id).slot field).leaves, False :=
    not_mem_leaves_emptySlot kind
  constructor
  · exact .intro ⟨fits_ofId kind id, hid⟩ fun field member hmember =>
      (hmembers field member hmember).elim
  · exact .intro (fun field left hleft => (hmembers field left hleft).elim)
      fun field member hmember => (hmembers field member hmember).elim

/-- Assigning a value that the content of a field allows keeps an entity as its kind says. -/
theorem Fits.assign (h : entity.Fits) {content : Content κ}
    (hcontent : Catalog.content? entity.kind field = some content)
    (hallows : content.Allows value) (hcanonical : value.Canonical) :
    (entity.assign field value).Fits := by
  have hslot := slot_assign entity field
  apply Fits.of_allows
  · exact (List.length_set ..).trans h.length_slots
  · intro other hother
    rw [hasField_assign, Bool.or_eq_true, decide_eq_true_iff] at hother
    rcases hother with hother | rfl
    · exact h.lt_size other hother
    · obtain ⟨info, hinfo, -⟩ := Option.map_eq_some_iff.1 hcontent
      exact (List.getElem?_eq_some_iff.1 hinfo).1
  · intro other content' hother
    rw [hslot]
    split
    · rename_i hsame
      have heq : some content = some content' :=
        hcontent.symm.trans (hsame.1 ▸ hother)
      exact Option.some.inj heq ▸ hallows
    · exact h.allows hother
  · intro other
    rw [hslot]
    split
    · exact hcanonical
    · exact h.canonical other

omit [Catalog κ] in
/-- Every member afterwards was assigned or was there before. -/
theorem mem_leaves_assign {member : Entity κ} {other : Nat}
    (h : member ∈ ((entity.assign field value).slot other).leaves) :
    member ∈ value.leaves ∨ member ∈ (entity.slot other).leaves := by
  rw [slot_assign] at h
  split at h
  · exact .inl h
  · exact .inr h

/-- A lawful record stays lawful when a field is assigned lawful members that the field can store,
with one member for one id. -/
theorem Lawful.assign (h : entity.Lawful) {content : Content κ}
    (hcontent : Catalog.content? entity.kind field = some content)
    (hallows : content.Allows value) (hcanonical : value.Canonical)
    (hmembers : ∀ leaf ∈ value.leaves, leaf.Lawful)
    (hconsistent : ∀ left ∈ value.leaves, ∀ right ∈ value.leaves, left.id = right.id →
      left = right) : (entity.assign field value).Lawful := by
  constructor
  · apply Throughout.intro
    · exact ⟨h.sound.self.toFits.assign hcontent hallows hcanonical, h.sound.self.byId⟩
    · intro other member hmember
      rcases mem_leaves_assign hmember with hmember | hmember
      · exact (hmembers member hmember).sound
      · exact h.sound.member hmember
  · apply Throughout.intro
    · intro other
      rw [slot_assign]
      split
      · exact hconsistent
      · exact h.consistent.self other
    · intro other member hmember
      rcases mem_leaves_assign hmember with hmember | hmember
      · exact (hmembers member hmember).consistent
      · exact h.consistent.member hmember

/-- A scalar can be assigned to any plain field. -/
theorem Lawful.assign_scalar (h : entity.Lawful) {type : ScalarType}
    (hcontent : Catalog.content? entity.kind field = some (.plain type)) (scalar : Scalar) :
    (entity.assign field (.scalar scalar)).Lawful :=
  h.assign hcontent rfl (.scalar scalar) nofun nofun

theorem clean_ofId (kind : κ) (id : Nat) : (ofId kind id).Throughout Clean := by
  apply Throughout.intro
  · intro field _
    exact slot_ofId kind id field
  · intro field member hmember
    exact absurd hmember (not_mem_leaves_emptySlot kind field member)

/-- A clean entity stays so when clean members are assigned. -/
theorem clean_assign (h : entity.Throughout Clean)
    (hmembers : ∀ leaf ∈ value.leaves, leaf.Throughout Clean) :
    (entity.assign field value).Throughout Clean := by
  apply Throughout.intro
  · intro other hother
    rw [hasField_assign, Bool.or_eq_false_iff, decide_eq_false_iff_not] at hother
    rw [slot_assign, if_neg fun hsame => hother.2 hsame.1]
    exact h.self other hother.1
  · intro other member hmember
    rcases mem_leaves_assign hmember with hmember | hmember
    · exact hmembers member hmember
    · exact h.member hmember

end Entity

end PartialEntity
