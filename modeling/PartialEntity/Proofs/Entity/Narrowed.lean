import PartialEntity.Proofs.Entity.Composition
import PartialEntity.Proofs.Entity.Readings
import PartialEntity.Proofs.Graph.Algebra

/-!
# The laws of narrowing

Narrowing a clean entity to a graph over regular fields always succeeds.  It keeps exactly what is
loaded and selected: scalars as they are, and containers with members in the same places, narrowed
in turn.  What goes is as in a fresh reference.  Narrowing to one graph and then to another
therefore gives the same entity in either order, and narrowing to a larger graph makes no
difference.
-/

namespace PartialEntity

namespace Entity

variable {κ : Type} [Catalog κ]

/-- Whether an entity is what a selection leaves of another one.  Under a field that stays, the
tree of ids is the same as before, and so are all scalars in it. -/
inductive Narrowed : Selection → Entity κ → Entity κ → Prop
  | intro {selection : Selection} {before after : Entity κ}
      (kind : after.kind = before.kind) (id : after.id = before.id)
      (fields : ∀ field, after.hasField field = (before.hasField field && selection [field]))
      (cleared : ∀ field, after.hasField field = false →
        after.slot field = emptySlot before.kind field)
      (scalars : ∀ field, after.hasField field = true → (before.slot field).leaves = [] →
        after.slot field = before.slot field)
      (form : ∀ field, after.hasField field = true →
        (after.slot field).map (·.id) = (before.slot field).map (·.id))
      (members : ∀ field, after.hasField field = true →
        ∀ pair ∈ (before.slot field).leaves.zip (after.slot field).leaves,
          Narrowed (selection.under field) pair.1 pair.2) :
      Narrowed selection before after

variable {entity : Entity κ} {selection : Selection}

/-- A restriction to a selection is what the selection leaves. -/
theorem narrowed_restrict (h : entity.Throughout Fits) (selection : Selection) :
    Narrowed selection entity (entity.restrict selection) := by
  induction h generalizing selection with
  | @intro entity self _ ih =>
    have hkept : ∀ field, (entity.restrict selection).hasField field = true →
        (entity.restrict selection).slot field =
          (entity.slot field).map (restrict (selection.under field)) := by
      intro field hfield
      rw [hasField_restrict, Bool.and_eq_true] at hfield
      exact slot_restrict hfield.1 hfield.2
    refine .intro (kind_restrict ..) (id_restrict ..) (hasField_restrict selection entity)
      (fun field hfield => ?_) (fun field hfield hleaves => ?_) (fun field hfield => ?_)
      fun field hfield pair hpair => ?_
    · rw [hasField_restrict] at hfield
      exact slot_restrict_of_not self hfield
    · rw [hkept field hfield]
      refine Tree.map_eq_self fun member hmember => ?_
      rw [hleaves] at hmember
      exact absurd hmember List.not_mem_nil
    · rw [hkept field hfield, Tree.map_map]
      exact Tree.map_congr fun member _ => id_restrict _ member
    · obtain ⟨member, result⟩ := pair
      rw [hkept field hfield, Tree.leaves_map] at hpair
      have hmembers : List.Forall₂ (Narrowed (selection.under field)) (entity.slot field).leaves
          ((entity.slot field).leaves.map (restrict (selection.under field))) :=
        List.forall₂_map_right_iff.2 (List.forall₂_same.2 fun member hmember =>
          ih field member hmember _)
      exact (List.forall₂_iff_zip.1 hmembers).2 hpair

variable [DecidableEq κ] {graph first second : Graph κ}

/-- Narrowing to one graph and then to another restricts an entity to what both select. -/
theorem intersect_intersect (hfirst : first.WellFormed) (hsecond : second.WellFormed)
    (hentity : entity.Throughout Sound) (hclean : entity.Throughout Clean)
    (hregular : ∀ path, path ∈ first.paths ∪ second.paths →
      Catalog.OnPath Catalog.Regular entity.kind path) :
    intersect second (intersect first entity).1 =
      (entity.restrict (second.selects ⊓ first.selects), .ok ()) := by
  have hfits : entity.Throughout Fits := hentity.mono fun _ h => h.toFits
  have hrest : ∀ path, second.selects path = true →
      Catalog.OnPath Catalog.Regular (entity.restrict first.selects).kind path := by
    intro path hpath
    rw [kind_restrict]
    exact hregular path (.inr hpath)
  rw [intersect_eq_restrict hfirst hentity hclean fun path hpath => hregular path (.inl hpath),
    intersect_eq_restrict hsecond (hentity.restrict _) (clean_restrict hfits _) hrest,
    restrict_restrict]

omit [DecidableEq κ] in
theorem selects_inf_of_isSubset (hsecond : second.WellFormed)
    (hsubset : first.isSubset second = true) :
    second.selects ⊓ first.selects = first.selects := by
  rw [Graph.isSubset_iff_paths hsecond] at hsubset
  funext path
  rw [Selection.inf_apply, Bool.and_eq_right_iff_imp]
  exact fun hpath => hsubset hpath

/-- Narrowing a clean entity, identified by its id at every depth, to graphs over regular fields:
it succeeds and leaves exactly what is loaded and selected; the order of two graphs makes no
difference; after or before a larger graph it is as if that one had not been there, so that
narrowing twice to one graph is narrowing once.  Of hashed containers these equations say which
members are left, not in which order. -/
theorem intersect_laws (hfirst : first.WellFormed) (hsecond : second.WellFormed)
    (hentity : entity.Throughout Sound) (hclean : entity.Throughout Clean)
    (hregular : ∀ path, path ∈ first.paths ∪ second.paths →
      Catalog.OnPath Catalog.Regular entity.kind path) :
    ((intersect first entity).2 = .ok () ∧
      Narrowed first.selects entity (intersect first entity).1) ∧
    ((intersect second (intersect first entity).1).2 = .ok () ∧
      intersect second (intersect first entity).1 =
        intersect first (intersect second entity).1) ∧
    (first.isSubset second = true →
      intersect second (intersect first entity).1 = intersect first entity ∧
        intersect first (intersect second entity).1 = intersect first entity) ∧
    intersect first (intersect first entity).1 = intersect first entity := by
  have honce : intersect first entity = (entity.restrict first.selects, .ok ()) :=
    intersect_eq_restrict hfirst hentity hclean fun path hpath => hregular path (.inl hpath)
  have htwice := intersect_intersect hfirst hsecond hentity hclean hregular
  have hswapped := intersect_intersect hsecond hfirst hentity hclean fun path hpath =>
    hregular path hpath.symm
  have hagain := intersect_intersect hfirst hfirst hentity hclean fun path hpath =>
    hregular path (.inl (or_self_iff.1 hpath))
  have hcommute : second.selects ⊓ first.selects = first.selects ⊓ second.selects := inf_comm ..
  refine ⟨⟨?_, ?_⟩, ⟨?_, ?_⟩, fun hsubset => ⟨?_, ?_⟩, ?_⟩
  · rw [honce]
  · rw [honce]
    exact narrowed_restrict (hentity.mono fun _ h => h.toFits) _
  · rw [htwice]
  · rw [htwice, hswapped, hcommute]
  · rw [htwice, honce, selects_inf_of_isSubset hsecond hsubset]
  · rw [hswapped, honce, ← hcommute, selects_inf_of_isSubset hsecond hsubset]
  · rw [hagain, honce, inf_idem]

end Entity

namespace Harbor

open Entity

theorem intersect_laws_annAshore :
    ((intersect crewList annAshore).2 = .ok () ∧
      Narrowed crewList.selects annAshore (intersect crewList annAshore).1) ∧
    intersect homePort (intersect crewList Samples.ann).1 =
      intersect crewList (intersect homePort Samples.ann).1 ∧
    intersect (crewList.union homePort) (intersect crewList Samples.ann).1 =
      intersect crewList Samples.ann := by
  have hregular : ∀ second : Graph Kind, ∀ path, path ∈ crewList.paths ∪ second.paths →
      Catalog.OnPath Catalog.Regular Kind.person path :=
    fun _ path _ => onPath_regular (by exact trivial) path
  have hashore := isRecord_annAshore
  have hann := Samples.isRecord_ann
  obtain ⟨hnarrowed, -⟩ := intersect_laws wellFormed_crewList wellFormed_homePort
    hashore.lawful.sound hashore.clean (hregular _)
  obtain ⟨-, ⟨-, hcommute⟩, -⟩ := intersect_laws wellFormed_crewList wellFormed_homePort
    hann.lawful.sound hann.clean (hregular _)
  obtain ⟨-, -, hlarger, -⟩ := intersect_laws wellFormed_crewList
    (wellFormed_crewList.union wellFormed_homePort rfl) hann.lawful.sound hann.clean (hregular _)
  exact ⟨hnarrowed, hcommute, (hlarger rfl).1⟩

end Harbor

end PartialEntity
