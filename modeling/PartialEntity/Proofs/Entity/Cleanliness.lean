import PartialEntity.Proofs.Entity.Interruption
import PartialEntity.Proofs.Entity.Narrowing
import PartialEntity.Proofs.Tree.Laws

/-!
# No half-valid entities

A field that is not loaded stores what a fresh reference stores.  Every operation on entities keeps
this at every depth, for the receiver and for what the operation makes, whether it succeeds or stops
with an error on the way.  Only the receiver has to be so before: values that are copied from may
store anything under fields that they do not hold, and none of it is taken over.

The receiver keeps its id unless a value with another id is passed in.
-/

namespace PartialEntity.Entity

variable {κ : Type} [Catalog κ]

/-- Whether an entity is of a kind and as the kind says, and stores fresh values where nothing is
loaded, each at every depth. -/
structure Tidy (kind : κ) (entity : Entity κ) : Prop extends WellTyped kind entity where
  clean : entity.Throughout Clean

variable {kind : κ} {entity other copy : Entity κ} {field : Nat} {value : Tree (Entity κ)}

theorem tidy_ofId (kind : κ) (id : Nat) : Tidy kind (ofId kind id) :=
  ⟨wellTyped_ofId kind id, clean_ofId kind id⟩

theorem Tidy.member (h : Tidy kind entity) {member : Entity κ}
    (hmember : member ∈ (entity.slot field).leaves) : Tidy member.kind member :=
  ⟨⟨rfl, h.fits.member hmember⟩, h.clean.member hmember⟩

/-! ## Stored values -/

/-- A field may count as loaded whatever it stores, and the id may be any. -/
theorem clean_mark (h : entity.Throughout Clean) (field id : Nat) :
    ({ entity with id := id }.mark field).Throughout Clean := by
  refine .intro (fun other hother => ?_) fun _ _ hmember => h.member hmember
  rw [mark, hasField_mk, FieldSet.contains_insert, Bool.or_eq_false_iff] at hother
  exact h.self other hother.1

/-- Only the value of a loaded field may change. -/
theorem clean_store (h : entity.Throughout Clean)
    (hvalue : entity.hasField field = false → value = entity.slot field)
    (hmembers : ∀ leaf ∈ value.leaves, leaf.Throughout Clean) :
    (entity.store field value).Throughout Clean := by
  refine .intro (fun other hother => ?_) fun other leaf hleaf => ?_
  · have hunheld : entity.hasField other = false := hother
    rw [slot_store]
    split
    · rename_i hsame
      obtain rfl := hsame.1
      rw [hvalue hunheld]
      exact h.self field hunheld
    · exact h.self other hunheld
  · rw [slot_store] at hleaf
    split at hleaf
    · exact hmembers leaf hleaf
    · exact h.member hleaf

theorem Tidy.assign_scalar (h : Tidy kind entity) (hfield : field < Catalog.size kind)
    {type : ScalarType} (hcontent : Catalog.content? kind field = some (.plain type))
    (scalar : Scalar) : Tidy kind (entity.assign field (.scalar scalar)) :=
  ⟨wellTyped_assign h.toWellTyped hfield (suits_scalar hcontent scalar), clean_assign h.clean nofun⟩

/-- A tidy entity stays so when a field is assigned tidy members of the kind that it declares. -/
theorem Tidy.assign_members (h : Tidy kind entity) (hfield : field < Catalog.size kind)
    {member : κ} {shape : Shape κ}
    (hcontent : Catalog.content? kind field = some (.nested member shape))
    (hcanonical : value.Canonical) (hleaves : ∀ leaf ∈ value.leaves, Tidy member leaf) :
    Tidy kind (entity.assign field value) := by
  refine ⟨wellTyped_assign h.toWellTyped hfield (suits_of_nested hcontent hcanonical ?_), ?_⟩
  · exact fun leaf hleaf => (hleaves leaf hleaf).toWellTyped
  · exact clean_assign h.clean fun leaf hleaf => (hleaves leaf hleaf).clean

/-- Unloading fields leaves a tidy entity tidy. -/
theorem Tidy.clearFields (h : Tidy kind entity) (fields : FieldSet) :
    Tidy kind (entity.clearFields fields) := by
  have hlength := h.fits.self.length_slots
  refine ⟨wellTyped_clearFields h.toWellTyped fields,
    .intro (h.clean.self.clearFields hlength fields) fun field leaf hleaf => ?_⟩
  rw [slot_clearFields hlength] at hleaf
  split at hleaf
  · exact absurd hleaf (not_mem_leaves_emptySlot _ _ _)
  · exact h.clean.member hleaf

/-! ## Copies -/

/-- A copy in full is clean, whatever is stored under fields that are not loaded. -/
theorem clean_cloneAll (h : entity.Throughout Fits) : entity.cloneAll.Throughout Clean := by
  induction h with
  | @intro entity self _ ih =>
    have hslot := slot_cloneAll self.length_slots
    refine .intro (fun field hfield => ?_) fun field leaf hleaf => ?_
    · rw [hasField_cloneAll] at hfield
      rw [hslot, hfield, cloneAll_eq]
      rfl
    · rw [hslot] at hleaf
      split at hleaf
      · obtain ⟨origin, horigin, rfl⟩ := Tree.exists_of_mem_leaves_rebuild_map hleaf
        exact ih field origin horigin
      · exact absurd hleaf (not_mem_leaves_emptySlot _ _ _)

/-- A field that stores no members can be copied as it is. -/
theorem clean_assign_slot (h : entity.Throughout Clean) (hother : WellTyped kind other)
    (hnested : ∀ member shape, Catalog.content? kind field ≠ some (.nested member shape)) :
    (entity.assign field (other.slot field)).Throughout Clean := by
  refine clean_assign h fun leaf hleaf => ?_
  obtain ⟨member, shape, hcontent⟩ := exists_content_of_mem_leaves hother hleaf
  exact absurd hcontent (hnested member shape)

theorem Tidy.pullWhole (h : Tidy kind entity) (hother : WellTyped kind other)
    (hfield : field < Catalog.size kind) : Tidy kind (entity.pullWhole field other) := by
  refine ⟨wellTyped_pullWhole h.toWellTyped hother hfield, ?_⟩
  rw [Entity.pullWhole]
  split
  · exact clean_mark h.clean field other.id
  · refine clean_assign h.clean fun leaf hleaf => ?_
    obtain ⟨origin, horigin, rfl⟩ := Tree.exists_of_mem_leaves_rebuild_map hleaf
    exact clean_cloneAll (hother.fits.member horigin)
  · rename_i hidentity hnested
    exact clean_assign_slot h.clean hother (h.kind_eq ▸ hnested)

/-- The id stays, or is that of the entity pulled from. -/
theorem id_pullWhole (entity : Entity κ) (field : Nat) (other : Entity κ) :
    (entity.pullWhole field other).id = entity.id ∨
      (entity.pullWhole field other).id = other.id := by
  rw [pullWhole]
  split
  · exact .inr rfl
  · exact .inl rfl
  · exact .inl rfl

/-- Fields that are copied in full one after the other leave the entity tidy. -/
theorem Tidy.pullListed (h : Tidy kind entity) (hother : WellTyped kind other) {fields : List Nat}
    (hfields : ∀ field ∈ fields, field < Catalog.size kind) :
    Tidy kind (fields.foldl (fun copy field => copy.pullWhole field other) entity) :=
  List.foldlRecOn _ _ h fun _ hcopy field hfield => hcopy.pullWhole hother (hfields field hfield)

theorem id_pullListed (entity other : Entity κ) (fields : List Nat) :
    let pulled := fields.foldl (fun copy field => copy.pullWhole field other) entity
    pulled.id = entity.id ∨ pulled.id = other.id := by
  refine List.foldlRecOn (motive := fun copy : Entity κ => copy.id = entity.id ∨ copy.id = other.id)
    _ _ (.inl rfl) fun copy hcopy field _ => ?_
  rcases id_pullWhole copy field other with hid | hid
  · rwa [hid]
  · exact .inr hid

section Graph

variable [DecidableEq κ] {graph : Graph κ}

theorem clean_cloneGraph (h : entity.Throughout Fits) (hok : cloneGraph graph entity = .ok copy) :
    copy.Throughout Clean := by
  induction graph using Graph.induction generalizing entity copy with
  | node gkind entries ih =>
    rw [cloneGraph_eq] at hok
    obtain ⟨_, -, hentries⟩ := Result.bind_eq_ok_iff.1 hok
    refine cloneEntries_induction (P := Throughout Clean)
      (fun field subgraph hentry value hvalue next hnext => ?_) (clean_ofId _ _) hentries
    refine clean_assign hnext fun leaf hleaf => ?_
    obtain ⟨origin, horigin, hcopy⟩ := exists_of_mem_leaves_copySlot h.self hvalue hleaf
    cases subgraph with
    | none =>
      rw [cloneMember] at hcopy
      cases hcopy
      exact clean_ofId _ _
    | some inner => exact ih field inner hentry (h.member horigin) hcopy

/-- A copy through a graph is tidy, even that of an entity that stores something where nothing is
loaded. -/
theorem tidy_cloneGraph (h : WellTyped kind entity) (hok : cloneGraph graph entity = .ok copy) :
    Tidy kind copy :=
  ⟨wellTyped_cloneGraph h hok, clean_cloneGraph h.fits hok⟩

theorem id_cloneGraph (hok : cloneGraph graph entity = .ok copy) : copy.id = entity.id := by
  obtain ⟨gkind, entries⟩ := graph
  rw [cloneGraph_eq] at hok
  obtain ⟨_, -, hentries⟩ := Result.bind_eq_ok_iff.1 hok
  exact cloneEntries_induction (P := fun next => next.id = entity.id)
    (fun _ _ _ _ _ _ hnext => hnext) (rfl : entity.reference.id = entity.id) hentries

/-- Pulling a field from an entity of the kind keeps an entity tidy. -/
theorem Tidy.pull (h : Tidy kind entity) (hother : WellTyped kind other)
    (hfield : field < Catalog.size kind) {through : Option (Graph κ)}
    (hok : entity.pull field other through = .ok copy) : Tidy kind copy := by
  refine ⟨wellTyped_pull h.toWellTyped hother hfield hok, ?_⟩
  cases through with
  | none =>
    rw [pull_none] at hok
    cases hok
    exact (h.pullWhole hother hfield).clean
  | some graph =>
    rcases pull_cases hok with ⟨-, rfl⟩ | ⟨_, _, value, -, hvalue, rfl⟩ | ⟨-, hnested, rfl⟩
    · exact clean_mark h.clean field other.id
    · refine clean_assign h.clean fun leaf hleaf => ?_
      obtain ⟨origin, horigin, hcopy⟩ :=
        Tree.exists_of_mem_leaves_mapM (mapM_of_cloneTree hvalue) hleaf
      exact clean_cloneGraph (hother.fits.member horigin) hcopy
    · exact clean_assign_slot h.clean hother (h.kind_eq ▸ hnested)

theorem id_pull {through : Option (Graph κ)} (hok : entity.pull field other through = .ok copy) :
    copy.id = entity.id ∨ copy.id = other.id := by
  rcases pull_cases hok with ⟨-, rfl⟩ | ⟨_, _, value, -, -, rfl⟩ | ⟨-, -, rfl⟩
  · exact .inr rfl
  · exact .inl rfl
  · exact .inl rfl

/-! ## Changes -/

/-- Changes of the members under a field that leave each of them tidy leave the entity tidy,
wherever they stop. -/
theorem Tidy.forMembers {change : Entity κ → Entity κ × Except Error Unit} (h : Tidy kind entity)
    (hchange : ∀ leaf ∈ (entity.slot field).leaves, Tidy leaf.kind (change leaf).1) :
    Tidy kind (forMembers change field entity).1 := by
  refine ⟨wellTyped_forMembers h.toWellTyped fun leaf hleaf => (hchange leaf hleaf).toWellTyped, ?_⟩
  rw [Entity.forMembers]
  cases descend entity.kind field with
  | error stop => exact h.clean
  | ok member =>
    refine clean_store h.clean (fun hunheld => ?_) (Tree.forall_mem_leaves_forEach
      (fun leaf hleaf => h.clean.member hleaf) (fun leaf hleaf _ => (hchange leaf hleaf).clean) ())
    -- The value of a field that is not loaded has no members, so it is put back as it is.
    have hempty : (entity.slot field).leaves = [] := by
      rw [h.clean.self field hunheld, leaves_emptySlot]
    rw [Tree.forEach_of_leaves_eq_nil (h.fits.self.canonical field) hempty]
    rfl

/-- A tidy entity has tidy members, and stays tidy when tidy members replace them. -/
theorem hereditary_tidy : Hereditary (Tidy (κ := κ)) where
  member h hleaf := h.member hleaf
  forMembers h hchange := h.forMembers hchange

/-- Narrowing keeps an entity tidy, whether or not it succeeds. -/
theorem Tidy.intersect (h : Tidy kind entity) : Tidy kind (intersect graph entity).1 :=
  hereditary_tidy.intersect Tidy.clearFields h

/-- Merging an extension keeps an entity tidy, whether or not it succeeds. -/
theorem Tidy.extendWith (h : Tidy kind entity) (hother : WellTyped kind other) :
    Tidy kind (extendWith graph other entity).1 :=
  hereditary_tidy.extendWith Tidy.toWellTyped
    (fun h hother hfield hok => h.pull hother hfield hok) h hother

theorem id_intersect (graph : Graph κ) (entity : Entity κ) :
    (intersect graph entity).1.id = entity.id := by
  obtain ⟨gkind, entries⟩ := graph
  rw [intersect_eq]
  refine forFields_induction (P := fun next => next.id = entity.id) (fun field _ next hnext => ?_)
    rfl
  rcases narrowField_cases entries field next with ⟨heq, -⟩ | ⟨subgraph, -, -, -, heq⟩
  · rwa [heq]
  · rw [heq]
    exact (id_forMembers _ field next).trans hnext

end Graph

/-! ## Operations -/

inductive Operation (κ : Type) where
  /-- Copies one field from another entity, members through a graph or in full. -/
  | pull (field : Nat) (other : Entity κ) (graph : Option (Graph κ))
  /-- Copies everything that another entity holds. -/
  | pullAll (other : Entity κ)
  /-- Copies fields from another entity, which must hold them. -/
  | pullFields (other : Entity κ) (fields : FieldSet)
  /-- Unloads fields. -/
  | clearFields (fields : FieldSet)
  /-- Makes a copy in full. -/
  | cloneAll
  /-- Makes a copy of what a graph selects. -/
  | cloneGraph (graph : Graph κ)
  /-- Makes a copy with references as members. -/
  | cloneFlat
  /-- Replaces the entity by its copy with references as members. -/
  | flatten
  /-- Narrows the entity to a graph. -/
  | intersect (graph : Graph κ)
  /-- Asks for what is missing of a graph and merges the answer. -/
  | extend (graph : Graph κ) (resolve : Graph κ → Except Error (Option (Entity κ)))
  /-- Merges another entity. -/
  | extendWith (other : Entity κ) (graph : Graph κ)

/-- Whether an operation names only fields that the kind has. -/
def Operation.Admissible (kind : κ) : Operation κ → Prop
  | .pull field _ _ => field < Catalog.size kind
  | _ => True

structure Effect (κ : Type) where
  /-- The entity afterwards, also when the operation failed. -/
  receiver : Entity κ
  /-- The entity that was made beside it, if the operation makes one. -/
  result : Except Error (Option (Entity κ))

namespace Effect

omit [Catalog κ]

/-- An entity is replaced by what was made of it, or stays as it is if that failed. -/
def replaced (entity : Entity κ) : Except Error (Entity κ) → Effect κ
  | .ok changed => ⟨changed, .ok none⟩
  | .error stop => ⟨entity, .error stop⟩

def changed {α : Type} (entity : Entity κ) (result : Except Error α) : Effect κ :=
  ⟨entity, result.map fun _ => none⟩

/-- What holds of an entity and of all that can be made of it holds afterwards. -/
theorem receiver_replaced {P : Entity κ → Prop} {made : Except Error (Entity κ)} (h : P entity)
    (hmade : ∀ changed, made = .ok changed → P changed) : P (replaced entity made).receiver := by
  cases made with
  | ok changed => exact hmade changed rfl
  | error stop => exact h

theorem id_replaced {made : Except Error (Entity κ)}
    (hmade : ∀ changed, made = .ok changed → changed.id = entity.id ∨ changed.id = other.id) :
    (replaced entity made).receiver.id = entity.id ∨
      (replaced entity made).receiver.id = other.id :=
  receiver_replaced (P := fun next => next.id = entity.id ∨ next.id = other.id) (.inl rfl) hmade

/-- An operation that replaces an entity hands no other one out. -/
theorem result_replaced {entity value : Entity κ} {made : Except Error (Entity κ)} :
    (replaced entity made).result ≠ .ok (some value) := by
  cases made <;> nofun

theorem result_changed {α : Type} {entity value : Entity κ} {result : Except Error α} :
    (changed entity result).result ≠ .ok (some value) := by
  cases result <;> nofun

end Effect

variable [DecidableEq κ]

def perform (entity : Entity κ) : Operation κ → Effect κ
  | .pull field other graph => .replaced entity (entity.pull field other graph)
  | .pullAll other => ⟨entity.pullAll other, .ok none⟩
  | .pullFields other fields => .replaced entity (entity.pullFields other fields)
  | .clearFields fields => ⟨entity.clearFields fields, .ok none⟩
  | .cloneAll => ⟨entity, .ok (some entity.cloneAll)⟩
  | .cloneGraph graph => ⟨entity, (cloneGraph graph entity).map some⟩
  | .cloneFlat => ⟨entity, entity.cloneFlat.map some⟩
  | .flatten => .replaced entity entity.cloneFlat
  | .intersect graph => .changed (intersect graph entity).1 (intersect graph entity).2
  | .extend graph resolve =>
    .changed (entity.extend graph resolve).entity (entity.extend graph resolve).result
  | .extendWith other graph =>
    .changed (extendWith graph other entity).1 (extendWith graph other entity).2

/-- Whether an operation on an entity takes a value in: an argument, or the answer to what is asked
for. -/
def Takes (entity : Entity κ) : Operation κ → Entity κ → Prop
  | .pull _ other _, value | .pullAll other, value | .pullFields other _, value
  | .extendWith other _, value => value = other
  | .extend graph resolve, value => ∃ asked,
    (entity.extend graph resolve).asked = some asked ∧ resolve asked = .ok (some value)
  | _, _ => False

variable {operation : Operation κ}

omit [DecidableEq κ] in
/-- The listed fields are copied if the other entity holds them all. -/
theorem pullFields_eq_ok_iff {fields : FieldSet} :
    entity.pullFields other fields = .ok copy ↔
      (∀ field ∈ fields.toList, other.hasField field = true) ∧
        fields.toList.foldl (fun copy field => copy.pullWhole field other) entity = copy := by
  rw [pullFields, Result.bind_eq_ok_iff]
  constructor
  · rintro ⟨_, hensure, hcopy⟩
    refine ⟨fun field hfield => ?_, Except.ok.inj hcopy⟩
    exact ensureFields_eq_ok_iff.1 hensure field (FieldSet.mem_toList.1 hfield)
  · rintro ⟨hheld, rfl⟩
    refine ⟨(), ensureFields_eq_ok_iff.2 fun field hfield => ?_, rfl⟩
    exact hheld field (FieldSet.mem_toList.2 hfield)

/-- An operation leaves a tidy entity tidy, also when it fails. -/
theorem Tidy.perform (h : Tidy kind entity) (hadmissible : operation.Admissible kind)
    (htaken : ∀ value, entity.Takes operation value → WellTyped kind value) :
    Tidy kind (entity.perform operation).receiver := by
  cases operation with
  | pull field other graph =>
    exact Effect.receiver_replaced h fun _ hok => h.pull (htaken other rfl) hadmissible hok
  | pullAll other =>
    have hother := htaken other rfl
    exact h.pullListed hother fun field hfield => hother.lt_size (FieldSet.mem_toList.1 hfield)
  | pullFields other fields =>
    have hother := htaken other rfl
    refine Effect.receiver_replaced h fun changed hok => ?_
    obtain ⟨hheld, rfl⟩ := pullFields_eq_ok_iff.1 hok
    exact h.pullListed hother fun field hfield => hother.lt_size (hheld field hfield)
  | clearFields fields => exact h.clearFields fields
  | cloneAll | cloneGraph | cloneFlat => exact h
  | flatten => exact Effect.receiver_replaced h fun _ hok => tidy_cloneGraph h.toWellTyped hok
  | intersect graph => exact h.intersect
  | extend graph resolve =>
    change Tidy kind (entity.extend graph resolve).entity
    rcases extend_cases graph entity resolve with heq | ⟨asked, answer, hasked, hanswer, heq⟩
    · rwa [heq]
    · rw [heq]
      exact h.extendWith (htaken answer ⟨asked, hasked, hanswer⟩)
  | extendWith other graph => exact h.extendWith (htaken other rfl)

/-- A copy that an operation makes is tidy, whatever is stored under fields that are not loaded. -/
theorem tidy_of_result (h : WellTyped kind entity) {value : Entity κ}
    (hresult : (entity.perform operation).result = .ok (some value)) : Tidy kind value := by
  cases operation with
  | cloneAll =>
    cases hresult
    exact ⟨wellTyped_cloneAll h, clean_cloneAll h.fits⟩
  | cloneGraph | cloneFlat =>
    obtain ⟨copy, hcopy, heq⟩ := Result.map_eq_ok_iff.1 hresult
    cases heq
    exact tidy_cloneGraph h hcopy
  | pull | pullFields | flatten => exact absurd hresult Effect.result_replaced
  | pullAll | clearFields => cases hresult
  | intersect | extend | extendWith => exact absurd hresult Effect.result_changed

/-- After an operation the entity has its id or that of a value that was taken in. -/
theorem id_perform (entity : Entity κ) (operation : Operation κ) :
    (entity.perform operation).receiver.id = entity.id ∨
      ∃ value, entity.Takes operation value ∧
        (entity.perform operation).receiver.id = value.id := by
  cases operation with
  | pull field other graph =>
    exact (Effect.id_replaced fun _ => id_pull).imp_right fun hid => ⟨other, rfl, hid⟩
  | pullAll other => exact (id_pullListed entity other _).imp_right fun hid => ⟨other, rfl, hid⟩
  | pullFields other fields =>
    refine (Effect.id_replaced fun changed hok => ?_).imp_right fun hid => ⟨other, rfl, hid⟩
    obtain ⟨-, rfl⟩ := pullFields_eq_ok_iff.1 hok
    exact id_pullListed entity other _
  | clearFields | cloneAll | cloneGraph | cloneFlat => exact .inl rfl
  | flatten =>
    exact .inl (Effect.receiver_replaced (P := fun next => next.id = entity.id) rfl
      fun _ => id_cloneGraph)
  | intersect graph => exact .inl (id_intersect graph entity)
  | extend graph resolve =>
    rcases extend_cases graph entity resolve with heq | ⟨asked, answer, hasked, hanswer, heq⟩
    · exact .inl (congrArg (·.id) heq)
    · refine (grown_extendWith asked answer entity).id_eq_or.imp (congrArg (·.id) heq).trans ?_
      exact fun hid => ⟨answer, ⟨asked, hasked, hanswer⟩, (congrArg (·.id) heq).trans hid⟩
  | extendWith other graph =>
    exact (grown_extendWith graph other entity).id_eq_or.imp_right fun hid => ⟨other, rfl, hid⟩

/-! ## Sequences of operations -/

def performAll (entity : Entity κ) (operations : List (Operation κ)) : Entity κ :=
  operations.foldl (fun entity operation => (entity.perform operation).receiver) entity

/-- An entity that starts as a reference is never half valid. -/
theorem tidy_performAll_ofId (id : Nat) {operations : List (Operation κ)}
    (hadmissible : ∀ operation ∈ operations, operation.Admissible kind)
    (htaken : ∀ operation ∈ operations, ∀ entity value, Takes entity operation value →
      WellTyped kind value) : Tidy kind ((ofId kind id).performAll operations) :=
  List.foldlRecOn _ _ (tidy_ofId kind id) fun entity h operation hmem =>
    h.perform (hadmissible operation hmem) (htaken operation hmem entity)

/-- The id stays as long as all values that are taken in have it. -/
theorem id_performAll {operations : List (Operation κ)}
    (htaken : ∀ operation ∈ operations, ∀ next value, Takes next operation value →
      value.id = entity.id) : (entity.performAll operations).id = entity.id := by
  refine List.foldlRecOn (motive := fun next : Entity κ => next.id = entity.id) _ _ rfl
    fun next hnext operation hmem => ?_
  rcases id_perform next operation with hid | ⟨value, hvalue, hid⟩
  · exact hid.trans hnext
  · exact hid.trans (htaken operation hmem next value hvalue)

/-! ## No half-valid state -/

/-- No operation leaves anything half valid: whether it succeeds or stops at any point, the entity
and the copy that the operation makes are tidy, even if values that are passed in store something
under fields that they do not hold.  The entity keeps its id unless a value with another id is
passed in. -/
theorem perform_leaves_tidy (h : Tidy kind entity) (hadmissible : operation.Admissible kind)
    (htaken : ∀ value, entity.Takes operation value → WellTyped kind value) :
    Tidy kind (entity.perform operation).receiver ∧
      (∀ value, (entity.perform operation).result = .ok (some value) → Tidy kind value) ∧
        ((∀ value, entity.Takes operation value → value.id = entity.id) →
          (entity.perform operation).receiver.id = entity.id) := by
  refine ⟨h.perform hadmissible htaken, fun _ => tidy_of_result h.toWellTyped, fun hids => ?_⟩
  rcases id_perform entity operation with hid | ⟨value, hvalue, hid⟩
  · exact hid
  · exact hid.trans (hids value hvalue)

end PartialEntity.Entity

namespace PartialEntity.Harbor

open Entity

theorem tidy_ospreyNames : Tidy .boat ospreyNames := by
  have hperson : ∀ id name,
      ((ofId Kind.person id).assign 1 (text name)).Throughout Clean :=
    fun _ _ => clean_assign (clean_ofId _ _) nofun
  refine ⟨wellTyped_ospreyNames, clean_assign (clean_ofId _ _) fun leaf hleaf => ?_⟩
  rcases List.mem_pair.1 hleaf with rfl | rfl <;> exact hperson _ _

def askAddresses : Operation Kind :=
  .extend addressList fun _ => .ok (some ospreyAddresses)

/-- The merge stops at the second member of the crew, with a new name and a changed first member;
all of it is tidy. -/
theorem perform_leaves_tidy_ospreyNames :
    ospreyNames.hasField 1 = false ∧ (ospreyNames.perform askAddresses).result.isOk = false ∧
      (ospreyNames.perform askAddresses).receiver.hasField 1 = true ∧
      Tidy .boat (ospreyNames.perform askAddresses).receiver ∧
      (ospreyNames.perform askAddresses).receiver.id = 10 := by
  have htaken : ∀ value, ospreyNames.Takes askAddresses value → value = ospreyAddresses := by
    rintro _ ⟨asked, -, ⟨⟩⟩
    rfl
  have hadmissible : askAddresses.Admissible Kind.boat := trivial
  obtain ⟨htidy, -, hid⟩ := perform_leaves_tidy tidy_ospreyNames hadmissible
    fun value hvalue => htaken value hvalue ▸ wellTyped_ospreyAddresses
  exact ⟨rfl, rfl, rfl, htidy, hid fun value hvalue => congrArg (·.id) (htaken value hvalue)⟩

end PartialEntity.Harbor
