import PartialEntity.Entity.Intersect
import PartialEntity.Proofs.Entity.Clone
import PartialEntity.Proofs.Entity.Missing

/-!
# Changing an entity field by field

A change that goes through the fields of an entity is followed by a family of states, one for the
fields done so far.  When all states are restrictions of one entity, the family is a patch: under
the fields done the new selection holds already, under the others still the old one.
-/

namespace PartialEntity

namespace Selection

/-- The selection that agrees with `new` at and under the listed fields and with `old`
elsewhere. -/
def patch (old : Selection) (fields : List Nat) (new : Selection) : Selection
  | [] => false
  | field :: rest => if field ∈ fields then new (field :: rest) else old (field :: rest)

theorem patch_of_mem {old new : Selection} {fields : List Nat} {field : Nat}
    (h : field ∈ fields) (rest : List Nat) :
    old.patch fields new (field :: rest) = new (field :: rest) :=
  if_pos h

theorem patch_of_not_mem {old new : Selection} {fields : List Nat} {field : Nat}
    (h : field ∉ fields) (rest : List Nat) :
    old.patch fields new (field :: rest) = old (field :: rest) :=
  if_neg h

end Selection

namespace Entity

variable {κ : Type}

/-! ## Field by field -/

section Fields

variable {change : Nat → Entity κ → Entity κ × Except Error Unit} {fields : List Nat}
  (state : List Nat → Entity κ)

/-- If every step leads from each state to the next, the whole change leads to the last one. -/
theorem forFields_eq_ok
    (hstep : ∀ done field rest, done ++ field :: rest = fields →
      change field (state done) = (state (done ++ [field]), .ok ())) :
    forFields change fields (state []) = (state fields, .ok ()) := by
  suffices hrest : ∀ rest done, done ++ rest = fields →
      forFields change rest (state done) = (state fields, .ok ()) from
    hrest fields [] (List.nil_append _)
  intro rest
  induction rest with
  | nil =>
    intro done heq
    rw [List.append_nil] at heq
    rw [heq]
    rfl
  | cons field rest ih =>
    intro done heq
    rw [forFields, hstep done field rest heq]
    exact ih (done ++ [field]) (by rw [List.append_assoc, List.singleton_append, heq])

/-- If every step that succeeds leads from each state to the next, so does the whole change. -/
theorem forFields_eq_of_ok
    (hstep : ∀ done field rest, done ++ field :: rest = fields →
      (change field (state done)).2 = .ok () →
        change field (state done) = (state (done ++ [field]), .ok ()))
    (hok : (forFields change fields (state [])).2 = .ok ()) :
    forFields change fields (state []) = (state fields, .ok ()) := by
  suffices hrest : ∀ rest done, done ++ rest = fields →
      (forFields change rest (state done)).2 = .ok () →
        forFields change rest (state done) = (state fields, .ok ()) from
    hrest fields [] (List.nil_append _) hok
  intro rest
  induction rest with
  | nil =>
    intro done heq _
    rw [List.append_nil] at heq
    rw [heq]
    rfl
  | cons field rest ih =>
    intro done heq hok
    have hchange : (change field (state done)).2 = .ok () := by
      rw [forFields] at hok
      split at hok
      · cases hok
      · rename_i heq
        rw [heq]
    rw [forFields, hstep done field rest heq hchange] at hok ⊢
    exact ih (done ++ [field]) (by rw [List.append_assoc, List.singleton_append, heq]) hok

end Fields

/-! ## Restrictions that differ in one field -/

/-- Storing a value under a loaded field is assigning it. -/
theorem store_eq_assign {entity : Entity κ} {field : Nat} (hheld : entity.hasField field = true)
    (value : Tree (Entity κ)) : entity.store field value = entity.assign field value := by
  have hinsert : entity.held = entity.held.insert field := by
    refine FieldSet.ext_contains fun other => ?_
    have hfield : entity.held.contains field = true := hheld
    rw [FieldSet.contains_insert]
    by_cases hother : field = other
    · rw [← hother, hfield, Bool.true_or]
    · simp [hother]
  exact congrArg (fun held => ({ entity.store field value with held } : Entity κ)) hinsert

variable [Catalog κ]

/-- What is stored under a field in a part depends on what is selected there only. -/
theorem slot_restrict_congr {left right : Selection} {entity : Entity κ} (hfits : entity.Fits)
    {field : Nat} (h : ∀ rest, left (field :: rest) = right (field :: rest)) :
    (entity.restrict left).slot field = (entity.restrict right).slot field := by
  have hunder : left.under field = right.under field := funext h
  by_cases hkept : (entity.hasField field && left [field]) = true
  · have hright : right [field] = left [field] := (h []).symm
    rw [Bool.and_eq_true] at hkept
    rw [slot_restrict hkept.1 hkept.2, slot_restrict hkept.1 (hright.trans hkept.2), hunder]
  · rw [Bool.not_eq_true] at hkept
    rw [slot_restrict_of_not hfits hkept, slot_restrict_of_not hfits (by rw [← h, hkept])]

/-- Assigning to a field what the new selection keeps there adds the field to those done. -/
theorem assign_restrict_patch {old new : Selection} {entity : Entity κ} (hfits : entity.Fits)
    {field : Nat} (hheld : entity.hasField field = true) (hnew : new [field] = true)
    (done : List Nat) :
    (entity.restrict (old.patch done new)).assign field
        ((entity.slot field).map (restrict (new.under field))) =
      entity.restrict (old.patch (done ++ [field]) new) := by
  have hlt : field < (entity.restrict (old.patch done new)).slots.length := by
    rw [length_slots_restrict, hfits.length_slots]
    exact hfits.lt_size field hheld
  have hother : ∀ other, field ≠ other → ∀ rest,
      old.patch done new (other :: rest) = old.patch (done ++ [field]) new (other :: rest) := by
    intro other hne rest
    have hmem : other ∈ done ++ [field] ↔ other ∈ done := by simp [Ne.symm hne]
    simp only [Selection.patch, hmem]
  have hfield : ∀ rest, old.patch (done ++ [field]) new (field :: rest) = new (field :: rest) :=
    fun rest => Selection.patch_of_mem (by simp) rest
  refine ext_slot ((kind_restrict ..).trans (kind_restrict ..).symm)
    ((id_restrict ..).trans (id_restrict ..).symm) (fun other => ?_) ?_ fun other => ?_
  · rw [hasField_assign, hasField_restrict, hasField_restrict]
    by_cases hsame : field = other
    · rw [← hsame, hheld, hfield, hnew]
      simp
    · rw [hother other hsame]
      simp [hsame]
  · rw [length_slots_restrict]
    exact (List.length_set ..).trans (length_slots_restrict ..)
  · rw [slot_assign]
    by_cases hsame : field = other
    · subst hsame
      rw [if_pos ⟨rfl, hlt⟩, slot_restrict hheld (by rw [hfield, hnew])]
      congr 2
      exact (funext hfield).symm
    · rw [if_neg fun h => hsame h.1]
      exact slot_restrict_congr hfits (hother other hsame)

/-- A field under which both selections agree can be counted as done. -/
theorem restrict_patch_append {old new : Selection} {entity : Entity κ} {field : Nat}
    (h : ∀ rest, entity.Reaches (field :: rest) → old (field :: rest) = new (field :: rest))
    (done : List Nat) :
    entity.restrict (old.patch done new) = entity.restrict (old.patch (done ++ [field]) new) := by
  refine restrict_congr fun path hpath => ?_
  cases path with
  | nil => rfl
  | cons other rest =>
    by_cases hsame : other = field
    · subst hsame
      rw [Selection.patch_of_mem (List.mem_append_right done (List.mem_singleton_self other))]
      by_cases hdone : other ∈ done
      · rw [Selection.patch_of_mem hdone]
      · rw [Selection.patch_of_not_mem hdone, h rest hpath]
    · have hmem : other ∈ done ++ [field] ↔ other ∈ done := by simp [hsame]
      simp only [Selection.patch, hmem]

theorem restrict_patch_nil {old new : Selection} (entity : Entity κ) :
    entity.restrict (old.patch [] new) = entity.restrict old := by
  refine restrict_congr fun path hpath => ?_
  cases path with
  | nil => exact hpath.elim
  | cons field rest => rfl

/-- Once all loaded fields are done, the new selection holds. -/
theorem restrict_patch_of_mem {old new : Selection} {entity : Entity κ} {fields : List Nat}
    (h : ∀ field rest, entity.Reaches (field :: rest) →
      field ∈ fields ∨ old (field :: rest) = new (field :: rest)) :
    entity.restrict (old.patch fields new) = entity.restrict new := by
  refine restrict_congr fun path hpath => ?_
  cases path with
  | nil => exact hpath.elim
  | cons field rest =>
    by_cases hfield : field ∈ fields
    · exact Selection.patch_of_mem hfield rest
    · rw [Selection.patch_of_not_mem hfield]
      exact (h field rest hpath).resolve_left hfield

/-! ## Member by member -/

variable [DecidableEq κ]

/-- If every member under a field is replaced by one of the same identity, the containers keep
their order. -/
theorem forMembers_eq_ok {change : Entity κ → Entity κ × Except Error Unit} {entity : Entity κ}
    {field : Nat} {member : κ} (hdescend : descend entity.kind field = .ok member)
    (hcanonical : (entity.slot field).Canonical) {f : Entity κ → Entity κ}
    (hkey : ∀ leaf ∈ (entity.slot field).leaves, (f leaf).key = leaf.key)
    (hchange : ∀ leaf ∈ (entity.slot field).leaves, change leaf = (f leaf, .ok ())) :
    forMembers change field entity = (entity.store field ((entity.slot field).map f), .ok ()) := by
  have hvisit : (entity.slot field).visit (fun _ leaf => change leaf) () =
      ((entity.slot field).map f, .ok ()) := Tree.visit_eq_ok hchange
  have hrebuild : ((entity.slot field).map f).rebuild .inserted = (entity.slot field).map f :=
    Tree.rebuild_eq_self _ ((canonical_map_of_key hkey).2 hcanonical)
  rw [forMembers, hdescend]
  simp only [Tree.forEach, hvisit, hrebuild]

/-- A change that leads from one restriction of every member of a record to another one. -/
theorem forMembers_restrict {change : Entity κ → Entity κ × Except Error Unit}
    {record entity : Entity κ} (hrecord : record.Throughout Sound) {field : Nat}
    {old new : Selection} (hslot : entity.slot field = (record.slot field).map (restrict old))
    {kind : κ} (hdescend : descend entity.kind field = .ok kind)
    (hchange : ∀ member ∈ (record.slot field).leaves,
      change (member.restrict old) = (member.restrict new, .ok ())) :
    forMembers change field entity =
      (entity.store field ((record.slot field).map (restrict new)), .ok ()) := by
  have hbyId : ∀ member ∈ (record.slot field).leaves, member.IdentifiedById :=
    fun member hmember => (hrecord.member hmember).self.byId
  have hcanonical : (entity.slot field).Canonical := by
    rw [hslot, canonical_map_of_key fun member hmember => key_restrict _ (hbyId member hmember)]
    exact hrecord.self.canonical field
  have hleaves : ∀ leaf ∈ (entity.slot field).leaves,
      ∃ member ∈ (record.slot field).leaves, member.restrict old = leaf := by
    intro leaf hleaf
    rwa [hslot, Tree.leaves_map, List.mem_map] at hleaf
  have hkey : ∀ leaf ∈ (entity.slot field).leaves, (change leaf).1.key = leaf.key := by
    intro leaf hleaf
    obtain ⟨member, hmember, rfl⟩ := hleaves leaf hleaf
    rw [hchange member hmember, key_restrict _ (hbyId member hmember),
      key_restrict _ (hbyId member hmember)]
  have hok : ∀ leaf ∈ (entity.slot field).leaves, change leaf = ((change leaf).1, .ok ()) := by
    intro leaf hleaf
    obtain ⟨member, hmember, rfl⟩ := hleaves leaf hleaf
    rw [hchange member hmember]
  have hmap : (entity.slot field).map (fun leaf => (change leaf).1) =
      (record.slot field).map (restrict new) := by
    rw [hslot, Tree.map_map]
    exact Tree.map_congr fun member hmember => congrArg Prod.fst (hchange member hmember)
  rw [forMembers_eq_ok hdescend hcanonical hkey hok, hmap]

/-- Changing the members under a field succeeds if the field can have members, and every change
does. -/
theorem forMembers_ok_iff {change : Entity κ → Entity κ × Except Error Unit} {entity : Entity κ}
    {field : Nat} :
    (forMembers change field entity).2 = .ok () ↔
      (∃ member, descend entity.kind field = .ok member) ∧
        ∀ leaf ∈ (entity.slot field).leaves, (change leaf).2 = .ok () := by
  rw [forMembers]
  cases hdescend : descend entity.kind field with
  | error stop => exact iff_of_false nofun fun ⟨⟨_, hmember⟩, _⟩ => nomatch hmember
  | ok member =>
    exact (Tree.visit_eq_ok_iff (entity.slot field)).trans (and_iff_right ⟨member, rfl⟩).symm

end Entity

end PartialEntity
