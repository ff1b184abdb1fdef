import PartialEntity.Harbor.Samples
import PartialEntity.Proofs.Cache.Storage
import PartialEntity.Proofs.Entity.Lawful

/-!
# What a read that started from a copy writes back

Between the two steps of a read the cache may change.  When a read has gained a cacheable field, it
stores its whole value, the fields that it copied in the first step included.  It leaves everything
but the supplied fields alone exactly if those fields are still stored as they were copied; a value
that was written to one of them in the meantime is lost, and a field that was dropped comes back.
-/

namespace PartialEntity.Cache

variable {κ : Type} [Catalog κ] [DecidableEq κ] {cache : Cache κ} {read : Read κ}
  {supply : Supply κ} {copy value : Entity κ}

/-- Whether a read that started from a copy stores the value that it was supplied with. -/
structure WritesBack (cache : Cache κ) (copy : Entity κ) (supply : Supply κ) (value : Entity κ) :
    Prop where
  value_eq : supply.value = .ok (some value)
  grown : ¬(value.held.inter cache.cacheable).isSubset copy.held = true
  refreshed : ∃ next events, cache.refresh value = .ok (next, events)

theorem cache_finish_of_writesBack (hsnapshot : read.snapshot = some copy)
    (h : WritesBack cache copy supply value) :
    ∃ events, cache.refresh value = .ok ((cache.finish read supply).cache, events) := by
  obtain ⟨next, events, hrefresh⟩ := h.refreshed
  have hcommit : cache.commit (read.snapshot.map (·.held)) value = .ok (next, events) := by
    rw [hsnapshot, Option.map_some, commit, if_neg h.grown]
    exact hrefresh
  refine ⟨events, ?_⟩
  rw [finish]
  simp only [h.value_eq, hcommit]
  exact hrefresh

theorem cache_finish_of_not_writesBack (hsnapshot : read.snapshot = some copy)
    (h : ∀ value, ¬WritesBack cache copy supply value) :
    (cache.finish read supply).cache = cache := by
  rw [finish]
  split
  · rfl
  · rfl
  · rename_i value hvalue
    rw [hsnapshot, Option.map_some, commit]
    by_cases hsubset : (value.held.inter cache.cacheable).isSubset copy.held = true
    · simp only [hsubset, if_true]
      rfl
    · cases hrefresh : cache.refresh value with
      | error stop => simp only [hsubset, Bool.false_eq_true, if_false]
      | ok result => exact absurd ⟨hvalue, hsubset, result.1, result.2, hrefresh⟩ (h value)

omit [DecidableEq κ] in
/-- What is written back for a field that was not supplied is what was copied. -/
theorem slot_projection {fields : Nat → Prop} {projection : Entity κ}
    (hcopy : copy.Flat) (hvalue : Entity.ChangedAt fields copy value)
    (hprojection : Entity.IsFlatCopy (value.held.inter cache.cacheable) value projection)
    {field : Nat} (hheld : projection.hasField field = true) (hfield : ¬fields field) :
    projection.slot field = copy.slot field := by
  have hslot := hvalue.slot field hfield
  by_cases hlt : field < Catalog.size value.kind
  · rw [← hslot]
    apply hprojection.slot field _ hlt
    · rw [hslot]
      exact hcopy.value field
    · rw [← hprojection.hasField]
      exact hheld
  · rw [hvalue.kind] at hlt
    rw [Entity.slot_eq_unit, Entity.slot_eq_unit]
    · rw [hcopy.length_slots]
      exact Nat.le_of_not_lt hlt
    · rw [hprojection.flat.length_slots, hprojection.kind_eq, hvalue.kind]
      exact Nat.le_of_not_lt hlt

/-- Something is stored of a value with a cacheable field that was not copied. -/
theorem project_ne_none (h : ¬(value.held.inter cache.cacheable).isSubset copy.held = true) :
    cache.project value ≠ .ok none := by
  intro hproject
  rw [project_eq_none_iff, FieldSet.isEmpty_iff] at hproject
  refine h (FieldSet.isSubset_iff.2 fun field hfield => ?_)
  rw [hproject] at hfield
  cases hfield

/-- What is found after a read has written its value back. -/
theorem stored_finish_of_writesBack {settings : κ × FieldSet × FieldSet}
    (hstores : cache.Stores (Storable settings)) (hsettings : cache.settings = settings)
    (hsnapshot : read.snapshot = some copy) (hwrites : WritesBack cache copy supply value)
    (htyped : Typed settings.1 value) :
    ∃ projection, Entity.IsFlatCopy (value.held.inter cache.cacheable) value projection ∧
      ∀ id field, (cache.finish read supply).cache.stored id field =
        if id = value.id ∧ projection.hasField field = true then some (projection.slot field)
        else cache.stored id field := by
  subst hsettings
  obtain ⟨events, hrefresh⟩ := cache_finish_of_writesBack hsnapshot hwrites
  obtain ⟨stored, hproject, -⟩ := Result.bind_eq_ok_iff.1 hrefresh
  cases stored with
  | none => exact absurd hproject (project_ne_none hwrites.grown)
  | some projection =>
    exact ⟨projection, isFlatCopy_of_project htyped.plain hproject,
      stored_refresh hstores htyped.kind_eq htyped.plain hproject hrefresh⟩

/-- A read that started from a copy changes nothing but supplied fields exactly if it writes nothing
back or finds the other fields that it copied still stored as they were. -/
theorem Run.stored_finish_iff {empty : Cache κ} (hempty : empty.entries = [])
    {reads : List (Read κ)}
    (hrun : Run (Typed empty.kind) (TypedAnswers empty.kind) empty cache reads)
    (hread : read ∈ reads) (hsnapshot : read.snapshot = some copy) {resolver : Resolver κ}
    (hresolver : TypedAnswers empty.kind resolver) (arrival : Arrival) :
    (∀ id field, ¬Supplied resolver read (read.supply arrival resolver).asked field →
        (cache.finish read (read.supply arrival resolver)).cache.stored id field =
          cache.stored id field) ↔
      ∀ value, WritesBack cache copy (read.supply arrival resolver) value → ∀ field,
        copy.hasField field = true →
          ¬Supplied resolver read (read.supply arrival resolver).asked field →
            cache.stored value.id field = some (copy.slot field) := by
  obtain ⟨hstores, hsnapshots⟩ := hrun.storable hempty
  have hcopy := hsnapshots read hread copy hsnapshot
  have hsettings := hrun.settings_eq
  have hcacheable := hrun.cacheable_eq
  constructor
  · intro hkept value hwrites field hheld hfield
    have hchanged := changedAt_supply hresolver hsnapshot hcopy hwrites.value_eq
    obtain ⟨projection, hprojection, hlookup⟩ := stored_finish_of_writesBack hstores hsettings
      hsnapshot hwrites (typed_supply hresolver (hsnapshots read hread) hwrites.value_eq)
    have hprojected : projection.hasField field = true := by
      have hvalue : value.hasField field = true := by rw [hchanged.hasField field hfield, hheld]
      rw [hprojection.hasField, FieldSet.contains_inter, hcacheable, Bool.and_eq_true]
      exact ⟨hvalue, hcopy.cacheable field hheld⟩
    rw [← hkept value.id field hfield, hlookup, if_pos ⟨rfl, hprojected⟩,
      slot_projection hcopy.flat hchanged hprojection hprojected hfield]
  · intro hunchanged id field hfield
    by_cases hwrites : ∃ value, WritesBack cache copy (read.supply arrival resolver) value
    · obtain ⟨value, hwrites⟩ := hwrites
      have hchanged := changedAt_supply hresolver hsnapshot hcopy hwrites.value_eq
      obtain ⟨projection, hprojection, hlookup⟩ := stored_finish_of_writesBack hstores hsettings
        hsnapshot hwrites (typed_supply hresolver (hsnapshots read hread) hwrites.value_eq)
      rw [hlookup]
      split
      · rename_i hprojected
        obtain ⟨rfl, hprojected⟩ := hprojected
        have hheld : copy.hasField field = true := by
          rw [← hchanged.hasField field hfield]
          rw [hprojection.hasField, FieldSet.contains_inter, Bool.and_eq_true] at hprojected
          exact hprojected.1
        rw [slot_projection hcopy.flat hchanged hprojection hprojected hfield]
        exact (hunchanged value hwrites field hheld hfield).symm
      · rfl
    · rw [cache_finish_of_not_writesBack hsnapshot fun value hvalue => hwrites ⟨value, hvalue⟩]

open Harbor

def named (name : String) : Entity Kind :=
  (Entity.ofId .person 1).assign 1 (text name)

def reached : Entity Kind :=
  (Entity.ofId .person 1).assign 2 (text "ann@example.com")

def reaching : Resolver Kind :=
  fun _ _ => .ok (some reached)

theorem typed_named (name : String) : Typed .person (named name) := by
  have hfits : (named name).Fits := by
    apply (Entity.fits_ofId Kind.person 1).assign rfl
    · exact rfl
    · exact .scalar _
  exact ⟨rfl, hfits.plainFields⟩

theorem typed_reached : Typed .person reached := by
  have hfits : reached.Fits := by
    apply (Entity.fits_ofId Kind.person 1).assign rfl
    · exact rfl
    · exact .scalar _
  exact ⟨rfl, hfits.plainFields⟩

def contacts (entries : List (Nat × Entity Kind)) : Cache Kind :=
  ⟨.person, .ofList [1, 2], ∅, entries⟩

/-- A read of the address that started when another name was stored. -/
def addressRead : Read Kind :=
  (contacts [(1, named "Ann")]).start 1 ((Graph.none .person).add 2)

/-- A person is renamed while the address is fetched, and gets the old name back. -/
theorem rename_lost :
    ∃ id field,
      ¬Supplied reaching addressRead (addressRead.supply .immediate reaching).asked field ∧
      ((contacts [(1, named "Anna")]).finish addressRead
        (addressRead.supply .immediate reaching)).cache.stored id field ≠
          (contacts [(1, named "Anna")]).stored id field := by
  have hresolver : TypedAnswers (contacts []).kind reaching := by
    intro id graph value hvalue
    cases hvalue
    exact typed_reached
  have hstored : (contacts []).put (named "Ann") = .ok (contacts [(1, named "Ann")]) := rfl
  have hrun : Run (Typed (contacts []).kind) (TypedAnswers (contacts []).kind) (contacts [])
      (contacts [(1, named "Anna")]) [addressRead] :=
    .put (.start (.put .empty (typed_named "Ann") hstored) 1 ((Graph.WellFormed.none _).add 2) rfl)
      (typed_named "Anna") rfl
  have hfield :
      ¬Supplied reaching addressRead (addressRead.supply .immediate reaching).asked 1 := by
    rintro ⟨missing, answer, -, hanswer, hheld⟩
    cases hanswer
    exact absurd hheld (by decide)
  have hwrites : WritesBack (contacts [(1, named "Anna")]) (named "Ann")
      (addressRead.supply .immediate reaching) ((named "Ann").assign 2 (text "ann@example.com")) :=
    ⟨rfl, by decide, _, _, rfl⟩
  by_contra hkept
  simp only [not_exists, not_and, ne_eq, not_not] at hkept
  have hname : some (text "Anna" : Tree (Entity Kind)) = some (text "Ann") :=
    (Run.stored_finish_iff rfl hrun (List.mem_singleton_self _) rfl hresolver .immediate).1
      hkept _ hwrites 1 rfl hfield
  simp [text] at hname

end PartialEntity.Cache
