import PartialEntity.Proofs.Entity.Recursion

/-!
# Entities that are as their kind says

What every entity satisfies that was made through the interface of its kind: a slot for each
field, loaded fields that the kind has, and members of the kind that the content of a field names,
in containers that are in order.  Beside it stand the properties that a store of entities may have:
identity by id, references where nothing is loaded, and one value for one id within a field.
-/

namespace PartialEntity

variable {κ : Type} [Catalog κ]

namespace Entity

structure Fits (entity : Entity κ) : Prop where
  length_slots : entity.slots.length = Catalog.size entity.kind
  lt_size : ∀ field, entity.hasField field = true → field < Catalog.size entity.kind
  identity : ∀ field, Catalog.content? entity.kind field = some .identity →
    entity.slot field = .scalar .unit
  plain : ∀ field type, Catalog.content? entity.kind field = some (.plain type) →
    (entity.slot field).leaves = []
  nested : ∀ field member shape, Catalog.content? entity.kind field = some (.nested member shape) →
    ∀ leaf ∈ (entity.slot field).leaves, leaf.kind = member
  canonical : ∀ field, (entity.slot field).Canonical

/-- Whether the id alone tells an entity apart from others of its kind. -/
def IdentifiedById (entity : Entity κ) : Prop :=
  match Catalog.identity entity.kind with
  | .byId => True
  | .byTextFrom bound _ => entity.id < bound

/-- Whether every field that is not loaded stores what a fresh reference stores. -/
def Clean (entity : Entity κ) : Prop :=
  ∀ field, entity.hasField field = false → entity.slot field = emptySlot entity.kind field

/-- Whether members of one field that have equal ids are identical. -/
def Consistent (entity : Entity κ) : Prop :=
  ∀ field, ∀ left ∈ (entity.slot field).leaves, ∀ right ∈ (entity.slot field).leaves,
    left.id = right.id → left = right

/-- Whether an entity is as its kind says and is identified by its id. -/
structure Sound (entity : Entity κ) : Prop extends Fits entity where
  byId : entity.IdentifiedById

/-- Whether an entity can be the record that copies come from: it is sound and consistent at every
depth. -/
structure Lawful (entity : Entity κ) : Prop where
  sound : entity.Throughout Sound
  consistent : entity.Throughout Consistent

theorem IdentifiedById.key_eq {entity : Entity κ} (h : entity.IdentifiedById) :
    entity.key = ⟨0, entity.id, ""⟩ := by
  rw [IdentifiedById] at h
  rw [key]
  cases hrule : Catalog.identity entity.kind with
  | byId => rfl
  | byTextFrom bound field =>
    rw [hrule] at h
    exact if_pos h

/-- Where ids tell entities apart, two are the same exactly when their ids are equal. -/
theorem same_iff_id_eq {left right : Entity κ} (hleft : left.IdentifiedById)
    (hright : right.IdentifiedById) : left.same right = true ↔ left.id = right.id := by
  rw [same, hleft.key_eq, hright.key_eq, beq_iff_eq, IdentityKey.mk.injEq]
  simp

/-! ## Empty slots -/

omit [Catalog κ] in
theorem leaves_emptyValue (shape : Shape κ) : (emptyValue shape).leaves = [] := by
  induction shape with
  | boxed inner ih => exact ih
  | _ => rfl

omit [Catalog κ] in
theorem leaves_emptyContent (content : Content κ) : (emptyContent content).leaves = [] := by
  cases content with
  | identity | plain => rfl
  | nested member shape => exact leaves_emptyValue shape

theorem canonical_emptyValue (shape : Shape κ) : (emptyValue shape).Canonical := by
  induction shape with
  | boxed inner ih => exact ih
  | member | scalar => exact .scalar _
  | option => exact .none
  | vector | deque => exact .sequence fun _ hitem => absurd hitem List.not_mem_nil
  | set => exact .set (fun _ hitem => absurd hitem List.not_mem_nil) List.Pairwise.nil
  | table =>
    exact .table (fun _ hentry => absurd hentry List.not_mem_nil)
      (fun _ hentry => absurd hentry List.not_mem_nil) List.Pairwise.nil

theorem canonical_emptyContent (content : Content κ) : (emptyContent content).Canonical := by
  cases content with
  | identity | plain => exact .scalar _
  | nested member shape => exact canonical_emptyValue shape

theorem emptySlot_eq (kind : κ) (field : Nat) :
    emptySlot kind field =
      ((Catalog.content? kind field).map emptyContent).getD (.scalar .unit) := by
  rw [emptySlot, emptySlots, Catalog.content?, Catalog.field?, List.getD_eq_getElem?_getD,
    List.getElem?_map, Option.map_map]
  rfl

/-- A fresh field stores no member. -/
theorem leaves_emptySlot (kind : κ) (field : Nat) : (emptySlot kind field).leaves = [] := by
  rw [emptySlot_eq]
  cases Catalog.content? kind field with
  | none => rfl
  | some content => exact leaves_emptyContent content

theorem not_mem_leaves_emptySlot (kind : κ) (field : Nat) (member : Entity κ) :
    member ∉ (emptySlot kind field).leaves := by
  rw [leaves_emptySlot]
  exact List.not_mem_nil

/-- The containers of a fresh field are in order. -/
theorem canonical_emptySlot (kind : κ) (field : Nat) : (emptySlot kind field).Canonical := by
  rw [emptySlot_eq]
  cases Catalog.content? kind field with
  | none => exact .scalar _
  | some content => exact canonical_emptyContent content

theorem emptySlot_identity {kind : κ} {field : Nat}
    (h : Catalog.content? kind field = some .identity) :
    emptySlot kind field = .scalar .unit := by
  rw [emptySlot_eq, h]
  rfl

theorem emptySlot_of_size_le {kind : κ} {field : Nat} (h : Catalog.size kind ≤ field) :
    emptySlot kind field = .scalar .unit := by
  rw [emptySlot_eq, Catalog.content?, Catalog.field?, List.getElem?_eq_none h]
  rfl

theorem length_emptySlots (kind : κ) :
    (emptySlots kind : List (Tree (Entity κ))).length = Catalog.size kind :=
  List.length_map _

@[simp]
theorem slot_ofId (kind : κ) (id field : Nat) :
    (ofId kind id).slot field = emptySlot kind field := rfl

@[simp]
theorem hasField_ofId (kind : κ) (id field : Nat) : (ofId kind id).hasField field = false :=
  FieldSet.contains_empty field

end Entity

end PartialEntity
