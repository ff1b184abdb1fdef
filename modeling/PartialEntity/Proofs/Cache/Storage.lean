import PartialEntity.Proofs.Cache.Projection
import PartialEntity.Proofs.Entity.Frame

/-!
# What a cache stores

Whatever is put into a cache and wherever its reads fetch from, it stores flat entities of cacheable
fields, each under its own id.  A value is looked up field by field; storing an entity changes what
is found for the cacheable fields that it holds, and nothing else.
-/

namespace PartialEntity.Cache

variable {κ : Type} [Catalog κ]

def stored (cache : Cache κ) (id field : Nat) : Option (Tree (Entity κ)) :=
  (Assoc.find? id cache.entries).bind fun entry =>
    if entry.hasField field then some (entry.slot field) else none

/-- Whether an entity is of a kind, with the fields that store no members as the kind says. -/
structure Typed (kind : κ) (value : Entity κ) : Prop where
  kind_eq : value.kind = kind
  plain : value.Plain

/-- Whether an entity is what a cache of the given settings can store under an id. -/
structure Storable (settings : κ × FieldSet × FieldSet) (id : Nat) (entry : Entity κ) :
    Prop where
  id_eq : entry.id = id
  kind_eq : entry.kind = settings.1
  flat : entry.Flat
  cacheable : ∀ field, entry.hasField field = true → settings.2.1.contains field = true
  nonempty : ∃ field, entry.hasField field = true

namespace Storable

variable {settings : κ × FieldSet × FieldSet} {id : Nat} {entry other : Entity κ}

theorem clearFields (h : Storable settings id entry) {fields : FieldSet}
    (hheld : (entry.clearFields fields).held.isEmpty = false) :
    Storable settings id (entry.clearFields fields) where
  id_eq := h.id_eq
  kind_eq := h.kind_eq
  flat := h.flat.clearFields fields
  cacheable field hfield := by
    apply h.cacheable
    have hheld : (entry.held.diff (entry.held.inter fields)).contains field = true := hfield
    rw [FieldSet.contains_diff, Bool.and_eq_true] at hheld
    exact hheld.1
  nonempty := FieldSet.isEmpty_eq_false_iff.1 hheld

theorem pullAll (h : Storable settings id entry) (hother : Storable settings id other) :
    Storable settings id (entry.pullAll other) := by
  have hkind : entry.kind = other.kind := h.kind_eq.trans hother.kind_eq.symm
  have hid : entry.id = other.id := h.id_eq.trans hother.id_eq.symm
  constructor
  · rw [h.flat.id_pullAll hother.flat hkind hid]
    exact h.id_eq
  · rw [h.flat.kind_pullAll hother.flat hkind hid]
    exact h.kind_eq
  · exact h.flat.pullAll hother.flat hkind hid
  · intro field hfield
    rw [h.flat.hasField_pullAll hother.flat hkind hid, Bool.or_eq_true] at hfield
    rcases hfield with hfield | hfield
    · exact h.cacheable field hfield
    · exact hother.cacheable field hfield
  · obtain ⟨field, hfield⟩ := h.nonempty
    refine ⟨field, ?_⟩
    rw [h.flat.hasField_pullAll hother.flat hkind hid, hfield, Bool.true_or]

end Storable

variable [DecidableEq κ] {cache next : Cache κ} {value projection : Entity κ}

/-! ## Projections -/

/-- What is stored of a value is a flat copy of its cacheable fields. -/
theorem isFlatCopy_of_project (hvalue : value.Plain)
    (hproject : cache.project value = .ok (some projection)) :
    Entity.IsFlatCopy (value.held.inter cache.cacheable) value projection := by
  obtain ⟨-, hcopy⟩ := project_eq_some_iff.1 hproject
  exact Entity.isFlatCopy_of_cloneGraph (fun _ _ => Graph.WellFormed.attached_ofSet)
    (fun _ => Graph.mem_toList_ofSet) hvalue hcopy

theorem storable_of_project (hkind : value.kind = cache.kind) (hvalue : value.Plain)
    (hproject : cache.project value = .ok (some projection)) :
    Storable cache.settings value.id projection := by
  have hcopy := isFlatCopy_of_project hvalue hproject
  refine ⟨hcopy.id_eq, hcopy.kind_eq.trans hkind, hcopy.flat, fun field hfield => ?_, ?_⟩
  · rw [hcopy.hasField, FieldSet.contains_inter, Bool.and_eq_true] at hfield
    exact hfield.2
  · obtain ⟨field, hfield⟩ := FieldSet.isEmpty_eq_false_iff.1 (project_eq_some_iff.1 hproject).1
    exact ⟨field, (hcopy.hasField field).trans hfield⟩

/-! ## Lookups -/

/-- Storing an entity changes what is found for the cacheable fields that it holds. -/
theorem stored_refresh (hcache : cache.Stores (Storable cache.settings))
    (hkind : value.kind = cache.kind) (hvalue : value.Plain)
    (hproject : cache.project value = .ok (some projection)) {events : List (Event κ)}
    (hrefresh : cache.refresh value = .ok (next, events)) (id field : Nat) :
    next.stored id field =
      if id = value.id ∧ projection.hasField field = true then some (projection.slot field)
      else cache.stored id field := by
  have hflat := (isFlatCopy_of_project hvalue hproject).flat
  have hstorable := storable_of_project hkind hvalue hproject
  rw [refresh, hproject] at hrefresh
  by_cases hid : id = value.id
  · subst hid
    simp only [true_and]
    cases hfind : Assoc.find? value.id cache.entries with
    | none =>
      simp only [bind, Except.bind, hfind] at hrefresh
      cases hrefresh
      rw [stored, stored, Assoc.find?_insert_self, hfind]
      rfl
    | some entry =>
      have hentry := hcache.of_find? hfind
      have hsame : entry.kind = projection.kind := hentry.kind_eq.trans hstorable.kind_eq.symm
      have hids : entry.id = projection.id := hentry.id_eq.trans hstorable.id_eq.symm
      simp only [bind, Except.bind, hfind] at hrefresh
      cases hrefresh
      rw [stored, stored, Assoc.find?_insert_self, hfind]
      simp only [Option.bind_some, hentry.flat.hasField_pullAll hflat hsame hids,
        hentry.flat.slot_pullAll hflat hsame hids]
      cases projection.hasField field with
      | false => simp
      | true => simp
  · rw [if_neg fun h => hid h.1]
    cases hfind : Assoc.find? value.id cache.entries with
    | none =>
      simp only [bind, Except.bind, hfind] at hrefresh
      cases hrefresh
      rw [stored, stored, Assoc.find?_insert_of_ne hid]
    | some entry =>
      simp only [bind, Except.bind, hfind] at hrefresh
      cases hrefresh
      rw [stored, stored, Assoc.find?_insert_of_ne hid]

/-! ## Supplies -/

/-- Whether the answer to what a read asked for holds a field. -/
def Supplied (resolver : Resolver κ) (read : Read κ) (asked : Option (Graph κ)) (field : Nat) :
    Prop :=
  ∃ missing answer, asked = some missing ∧ resolver read.id missing = .ok (some answer) ∧
    answer.hasField field = true

def TypedAnswers (kind : κ) (resolver : Resolver κ) : Prop :=
  ∀ id graph value, resolver id graph = .ok (some value) → Typed kind value

section Supply

variable {settings : κ × FieldSet × FieldSet} {resolver : Resolver κ} {read : Read κ}
  {copy : Entity κ}

/-- The value of a read that started from a copy differs from it in supplied fields only. -/
theorem changedAt_supply (hresolver : TypedAnswers settings.1 resolver)
    (hsnapshot : read.snapshot = some copy) (hcopy : Storable settings read.id copy)
    {arrival : Arrival} (hvalue : (read.supply arrival resolver).value = .ok (some value)) :
    Entity.ChangedAt (Supplied resolver read (read.supply arrival resolver).asked) copy value := by
  rw [supply_of_snapshot hsnapshot] at hvalue ⊢
  obtain ⟨done, hdone, heq⟩ := Result.map_eq_ok_iff.1 hvalue
  cases heq
  have hanswer : ∀ {asked extension}, resolver copy.id asked = .ok (some extension) →
      resolver read.id asked = .ok (some extension) := by
    intro asked extension hanswer
    rw [← hcopy.id_eq]
    exact hanswer
  rcases Entity.changedAt_extend (fun asked extension h => by
      have htyped := hresolver _ _ _ (hanswer (Entity.present_iff.1 h))
      exact ⟨htyped.plain, hcopy.kind_eq.trans htyped.kind_eq.symm⟩) hdone with
    ⟨-, hsame⟩ | ⟨missing, extension, hasked, hextension, hchanged⟩
  · rw [Entity.extendFrom, hsame]
    exact .refl _ copy
  · apply hchanged.mono
    intro field hfield
    exact ⟨missing, extension, hasked, hanswer (Entity.present_iff.1 hextension), hfield⟩

theorem typed_supply (hresolver : TypedAnswers settings.1 resolver)
    (hsnapshot : ∀ copy, read.snapshot = some copy → Storable settings read.id copy)
    {arrival : Arrival} (hvalue : (read.supply arrival resolver).value = .ok (some value)) :
    Typed settings.1 value := by
  cases hcopy : read.snapshot with
  | none =>
    exact hresolver _ _ _ ((value_supply_of_miss hcopy).1 hvalue).1
  | some copy =>
    have hstorable := hsnapshot copy hcopy
    have hchanged := changedAt_supply hresolver hcopy hstorable hvalue
    refine ⟨hchanged.kind.trans hstorable.kind_eq, hchanged.plain ⟨hstorable.flat.identity, ?_⟩⟩
    exact fun field _ _ => hstorable.flat.value field

end Supply

/-! ## Runs -/

theorem Stores.refresh_typed {settings : κ × FieldSet × FieldSet}
    (hcache : cache.Stores (Storable settings)) (hsettings : cache.settings = settings)
    (hvalue : Typed settings.1 value) {events : List (Event κ)}
    (hrefresh : cache.refresh value = .ok (next, events)) : next.Stores (Storable settings) := by
  subst hsettings
  exact hcache.refresh (fun _ hproject => storable_of_project hvalue.kind_eq hvalue.plain hproject)
    (fun _ _ hentry hproject =>
      hentry.pullAll (storable_of_project hvalue.kind_eq hvalue.plain hproject)) hrefresh

/-- Whatever typed values are put and answered, flat entities of cacheable fields, at least one of
them loaded, are stored under their ids, and a pending read has copied one. -/
theorem Run.storable {empty : Cache κ} (hempty : empty.entries = []) {reads : List (Read κ)}
    (hrun : Run (Typed empty.kind) (TypedAnswers empty.kind) empty cache reads) :
    cache.Stores (Storable empty.settings) ∧ ∀ read ∈ reads, ∀ copy, read.snapshot = some copy →
      Storable empty.settings read.id copy := by
  induction hrun with
  | empty =>
    constructor
    · intro id entry hmem
      rw [hempty] at hmem
      exact absurd hmem List.not_mem_nil
    · exact fun _ hread => absurd hread List.not_mem_nil
  | @start cache reads hrun id graph hgraph hkind ih =>
    refine ⟨ih.1, List.forall_mem_cons.2 ⟨?_, ih.2⟩⟩
    intro copy hcopy
    obtain ⟨entry, hfind, rfl⟩ := Option.map_eq_some_iff.1 hcopy
    have hentry := ih.1.of_find? hfind
    rw [hentry.flat.cloneAll]
    exact hentry
  | finish hrun arrival hresolver ih =>
    constructor
    · apply ih.1.finish
      intro value hvalue next events hrefresh
      have htyped : Typed empty.settings.1 value :=
        typed_supply hresolver (ih.2 _ (by simp)) hvalue
      exact ih.1.refresh_typed hrun.settings_eq htyped hrefresh
    · intro read hread
      apply ih.2
      rw [List.mem_append] at hread ⊢
      exact hread.imp_right (List.mem_cons_of_mem _)
  | @put cache next reads hrun value hvalue hput ih =>
    refine ⟨ih.1.put (fun _ hproject => ?_) hput, ih.2⟩
    rw [← hrun.settings_eq]
    have hkind : cache.kind = empty.kind := hrun.kind_eq
    exact storable_of_project (hvalue.kind_eq.trans hkind.symm) hvalue.plain hproject
  | merge hrun hvalue hmerge ih =>
    exact ⟨ih.1.refresh_typed hrun.settings_eq hvalue hmerge, ih.2⟩
  | clear hrun clearing ih =>
    exact ⟨ih.1.clearing (fun _ _ _ hentry hheld => hentry.clearFields hheld) clearing, ih.2⟩

end PartialEntity.Cache
