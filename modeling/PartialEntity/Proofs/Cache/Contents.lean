import PartialEntity.Proofs.Cache.Entries
import PartialEntity.Proofs.Cache.Typing

/-!
# A cache as a map

A cache is read as a map from ids to maps from fields to values, in which members are references.
What the queries of a cache answer can be told from this map alone.
-/

namespace PartialEntity

namespace Cache

open Entity

variable {κ : Type}

/-! ## Maps -/

/-- A value for each field of each id, where there is one. -/
abbrev Contents (κ : Type) := Nat → Nat → Option (Tree (Entity κ))

def Contents.ids (contents : Contents κ) : Set Nat :=
  {id | ∃ field, (contents id field).isSome = true}

variable [Catalog κ]

/-- The values of an entity in its cacheable fields, with references as members. -/
def flattened (cacheable : FieldSet) (value : Entity κ) (field : Nat) : Option (Tree (Entity κ)) :=
  if (value.held.inter cacheable).contains field then
    some (((value.slot field).map reference).rebuild .collected)
  else none

/-- The entity of an id that holds what there is in a map, and nothing else. -/
def Contents.portrait (contents : Contents κ) (kind : κ) (id : Nat) : Entity κ :=
  let fields := List.range (Catalog.size kind)
  ⟨kind, id, .ofList (fields.filter fun field => (contents id field).isSome),
    fields.map fun field => (contents id field).getD (emptySlot kind field)⟩

/-- Whether a cache answers queries from a map: the map has values for cacheable fields only, with
references as members, and for finitely many ids. -/
structure Shows (contents : Contents κ) (cache : Cache κ) : Prop where
  cacheable : ∀ id field, (contents id field).isSome = true →
    cache.cacheable.contains field = true
  flat : ∀ id field value, contents id field = some value → value.Flat
  cached : ∀ id ∈ contents.ids, cache.cached id = some (contents.portrait cache.kind id)
  absent : ∀ id ∉ contents.ids, cache.cached id = none
  contains : ∀ id, cache.contains id = true ↔ id ∈ contents.ids
  finite : contents.ids.Finite
  size : cache.size = contents.ids.ncard
  isEmpty : cache.isEmpty = true ↔ contents.ids = ∅

variable [DecidableEq κ] {empty cache next : Cache κ} {reads : List (Read κ)} {kind : κ}
  {id field : Nat} {entry value : Entity κ}

/-! ## Entries -/

omit [DecidableEq κ] [Catalog κ] in
theorem stored_of_find? (hfind : Assoc.find? id cache.entries = some entry) (field : Nat) :
    cache.stored id field = if entry.hasField field then some (entry.slot field) else none := by
  rw [stored, hfind]
  rfl

omit [DecidableEq κ] [Catalog κ] in
theorem stored_of_find?_eq_none (hfind : Assoc.find? id cache.entries = none) (field : Nat) :
    cache.stored id field = none := by
  rw [stored, hfind]
  rfl

omit [DecidableEq κ] [Catalog κ] in
theorem stored_isSome_of_find? (hfind : Assoc.find? id cache.entries = some entry) (field : Nat) :
    (cache.stored id field).isSome = entry.hasField field := by
  rw [stored_of_find? hfind]
  cases entry.hasField field <;> rfl

/-- Different entries stand under different ids. -/
theorem Run.nodup_keys {given : Entity κ → Prop} {answers : Resolver κ → Prop}
    (hempty : empty.entries = []) (hrun : Run given answers empty cache reads) :
    (cache.entries.map (·.1)).Nodup := by
  have hrefresh : ∀ {cache next : Cache κ} {value : Entity κ} {events : List (Event κ)},
      (cache.entries.map (·.1)).Nodup → cache.refresh value = .ok (next, events) →
        (next.entries.map (·.1)).Nodup := by
    intro cache next value events hnodup hrefresh
    rcases refresh_cases hrefresh with rfl | ⟨projection, entry, -, -, rfl⟩
    · exact hnodup
    · exact Assoc.nodup_keys_alter hnodup
  induction hrun with
  | empty =>
    rw [hempty]
    exact List.nodup_nil
  | start _ _ _ _ ih => exact ih
  | @finish cache before after read hrun arrival resolver hresolver ih =>
    rcases finish_cases cache read (read.supply arrival resolver) with
      ⟨heq, -⟩ | ⟨value, next, events, -, hcommit, heq, -⟩
    · rwa [heq]
    · rw [heq]
      rcases commit_cases hcommit with hmerge | ⟨rfl, -⟩
      · exact hrefresh ih hmerge
      · exact ih
  | put _ _ hput ih =>
    rcases put_cases hput with rfl | ⟨projection, -, rfl⟩
    · exact ih
    · exact Assoc.nodup_keys_alter ih
  | merge _ _ hmerge ih => exact hrefresh ih hmerge
  | clear _ clearing ih =>
    refine Clearing.induction (P := fun next => (next.entries.map (·.1)).Nodup)
      (fun _ _ hnodup hsublist => ?_) (fun _ _ _ _ hnodup _ _ => ?_) ih clearing
    · exact List.Nodup.sublist (hsublist.map _) hnodup
    · exact Assoc.nodup_keys_alter hnodup

section Entry

variable (hempty : empty.entries = []) (hkind : empty.kind = kind)
  (hrun : Run (WellTyped kind) (WellTypedAnswers kind) empty cache reads)

include hempty hkind hrun

theorem Run.of_find? (hfind : Assoc.find? id cache.entries = some entry) :
    Storable cache.settings id entry ∧ WellTyped kind entry :=
  ⟨(hrun.stores_storable hempty hkind).of_find? hfind,
    (hrun.wellTyped hempty hkind).1.of_find? hfind⟩

/-- An entry can be told from the map. -/
theorem Run.portrait_eq (hfind : Assoc.find? id cache.entries = some entry) :
    Contents.portrait cache.stored cache.kind id = entry := by
  obtain ⟨hstorable, htyped⟩ := hrun.of_find? hempty hkind hfind
  have hsame : cache.kind = entry.kind := hstorable.kind_eq.symm
  have hisSome := stored_isSome_of_find? hfind
  have hheld : ∀ field, (Contents.portrait cache.stored cache.kind id).hasField field =
      entry.hasField field := by
    intro field
    rw [Contents.portrait, hasField_mk, FieldSet.contains_ofList, Bool.eq_iff_iff,
      decide_eq_true_iff, List.mem_filter, hisSome, List.mem_range, hsame]
    exact and_iff_right_of_imp (htyped.fits.self.lt_size field)
  have hlength : (Contents.portrait cache.stored cache.kind id).slots.length =
      entry.slots.length := by
    rw [Contents.portrait, List.length_map, List.length_range, hsame, hstorable.flat.length_slots]
  refine ext_slot hsame hstorable.id_eq.symm hheld hlength fun field => ?_
  by_cases hlt : field < entry.slots.length
  · rw [slot_eq_getElem (hlength ▸ hlt)]
    simp only [Contents.portrait, List.getElem_map, List.getElem_range]
    rw [stored_of_find? hfind]
    cases hloaded : entry.hasField field with
    | true => rfl
    | false => exact (hsame ▸ hstorable.flat.clean field hloaded).symm
  · rw [slot_eq_unit (Nat.le_of_not_lt hlt), slot_eq_unit (hlength ▸ Nat.le_of_not_lt hlt)]

theorem Run.mem_ids_iff : id ∈ Contents.ids cache.stored ↔ id ∈ cache.entries.map (·.1) := by
  rw [← not_iff_not, ← Assoc.find?_eq_none_iff]
  constructor
  · intro habsent
    cases hfind : Assoc.find? id cache.entries with
    | none => rfl
    | some entry =>
      obtain ⟨field, hfield⟩ := (hrun.of_find? hempty hkind hfind).1.nonempty
      exact absurd ⟨field, (stored_isSome_of_find? hfind field).trans hfield⟩ habsent
  · rintro hfind ⟨field, hfield⟩
    rw [stored_of_find?_eq_none hfind] at hfield
    cases hfield

/-! ## Queries -/

/-- The queries of a cache are answered from the map. -/
theorem Run.shows : Shows cache.stored cache := by
  have hids : Contents.ids cache.stored = (cache.entries.map (·.1)).toFinset := by
    ext id
    rw [hrun.mem_ids_iff hempty hkind, List.coe_toFinset, Set.mem_ofPred_eq]
  have hfind : ∀ id, id ∈ Contents.ids cache.stored ↔
      ∃ entry, Assoc.find? id cache.entries = some entry := by
    intro id
    rw [hrun.mem_ids_iff hempty hkind, ← not_iff_not, ← Assoc.find?_eq_none_iff, not_exists,
      Option.eq_none_iff_forall_ne_some]
  have hstored : ∀ id field value, cache.stored id field = some value →
      ∃ entry, Storable cache.settings id entry ∧ entry.hasField field = true ∧
        entry.slot field = value := by
    intro id field value hvalue
    obtain ⟨entry, hentry⟩ := (hfind id).1 ⟨field, Option.isSome_iff_exists.2 ⟨value, hvalue⟩⟩
    have hstorable := (hrun.of_find? hempty hkind hentry).1
    rw [stored_of_find? hentry] at hvalue
    cases hheld : entry.hasField field with
    | false =>
      rw [hheld] at hvalue
      cases hvalue
    | true =>
      rw [hheld] at hvalue
      exact ⟨entry, hstorable, hheld, Option.some.inj hvalue⟩
  constructor
  · intro id field hvalue
    obtain ⟨value, hvalue⟩ := Option.isSome_iff_exists.1 hvalue
    obtain ⟨entry, hstorable, hheld, -⟩ := hstored id field value hvalue
    exact hstorable.cacheable field hheld
  · intro id field value hvalue
    obtain ⟨entry, hstorable, -, rfl⟩ := hstored id field value hvalue
    exact hstorable.flat.value field
  · intro id hid
    obtain ⟨entry, hentry⟩ := (hfind id).1 hid
    rw [cached, hentry, hrun.portrait_eq hempty hkind hentry, Option.map_some,
      (hrun.of_find? hempty hkind hentry).1.flat.cloneAll]
  · intro id hid
    cases hentry : Assoc.find? id cache.entries with
    | none => rw [cached, hentry, Option.map_none]
    | some entry => exact absurd ((hfind id).2 ⟨entry, hentry⟩) hid
  · intro id
    rw [hfind, Cache.contains, Assoc.contains, Option.isSome_iff_exists]
  · rw [hids]
    exact Finset.finite_toSet _
  · rw [hids, Set.ncard_coe_finset, List.toFinset_card_of_nodup (hrun.nodup_keys hempty),
      List.length_map]
    rfl
  · rw [hids, Finset.coe_eq_empty, List.toFinset_eq_empty_iff, List.map_eq_nil_iff]
    exact List.isEmpty_iff

end Entry

/-! ## Projections -/

/-- Storing a value writes its cacheable fields, if it holds any, with references as members. -/
theorem project_cases (cache : Cache κ) (hfits : value.Fits)
    (hcopyable : ∀ field, value.hasField field = true → cache.cacheable.contains field = true →
      Catalog.Copyable value.kind field) :
    ((value.held.inter cache.cacheable).isEmpty = true ∧ cache.project value = .ok none) ∨
      (value.held.inter cache.cacheable).isEmpty = false ∧
        ∃ projection, cache.project value = .ok (some projection) ∧
          ∀ field, flattened cache.cacheable value field =
            if projection.hasField field then some (projection.slot field) else none := by
  by_cases hempty : (value.held.inter cache.cacheable).isEmpty = true
  · exact .inl ⟨hempty, project_eq_none_iff.2 hempty⟩
  · right
    obtain ⟨copy, hcopy, hheld, hslot⟩ := exists_flatCopy
      (fun _ _ => Graph.WellFormed.attached_ofSet) (fun _ => Graph.mem_toList_ofSet) hfits
      fun field hfield => by
        rw [FieldSet.contains_inter, Bool.and_eq_true] at hfield
        exact ⟨hfield.1, hcopyable field hfield.1 hfield.2⟩
    have hsome := Bool.eq_false_iff.2 hempty
    refine ⟨hsome, copy, project_eq_some_iff.2 ⟨hsome, hcopy⟩, fun field => ?_⟩
    rw [flattened, hheld]
    by_cases hfield : (value.held.inter cache.cacheable).contains field = true
    · rw [if_pos hfield, if_pos hfield, hslot field hfield]
    · rw [if_neg hfield, if_neg hfield]

end Cache

end PartialEntity
