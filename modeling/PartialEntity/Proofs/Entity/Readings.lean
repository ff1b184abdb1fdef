import PartialEntity.Proofs.Entity.Coverage
import PartialEntity.Proofs.Entity.Intersect
import PartialEntity.Proofs.Harbor.Records

/-!
# Three readings of a graph

A graph over regular fields can be asked for, copied through and narrowed to, and the three agree:
a copy can be made exactly of what has the graph, it is what narrowing leaves, and it holds at every
depth the fields that the graph selects there and no others.  A copy that cannot be made fails
because fields are not loaded.
-/

namespace PartialEntity

namespace Entity

variable {κ : Type} [Catalog κ]

/-- Whether an entity holds, at every depth, exactly the fields that a selection keeps there. -/
inductive HoldsExactly : Selection → Entity κ → Prop
  | intro {selection : Selection} {entity : Entity κ}
      (fields : ∀ field, entity.hasField field = selection [field])
      (members : ∀ field, ∀ member ∈ (entity.slot field).leaves,
        HoldsExactly (selection.under field) member) :
      HoldsExactly selection entity

variable {entity : Entity κ}

/-- A restriction of an entity that lacks nothing of a selection holds exactly the selection. -/
theorem holdsExactly_restrict (hfits : entity.Throughout Fits) {selection : Selection}
    (hholds : ∀ path, selection path = true → ¬entity.Lacks path) :
    HoldsExactly selection (entity.restrict selection) := by
  induction hfits generalizing selection with
  | @intro entity self _ ih =>
    refine .intro (fun field => ?_) fun field leaf hleaf => ?_
    · rw [hasField_restrict]
      cases hselected : selection [field] with
      | false => rw [Bool.and_false]
      | true =>
        rw [Bool.and_true]
        exact Bool.of_not_eq_false fun hfalse => hholds [field] hselected (.inl hfalse)
    · obtain ⟨-, -, member, hmember, rfl⟩ := (mem_leaves_restrict self).1 hleaf
      exact ih field member hmember fun path hpath hlacks =>
        hholds (field :: path) hpath (.inr ⟨member, hmember, hlacks⟩)

variable [DecidableEq κ] {graph : Graph κ} {stop : Error}

/-! ## Why a copy fails -/

omit [DecidableEq κ] in
/-- The check for wanted fields fails in one way only. -/
theorem exists_of_ensureFields_eq_error {wanted : FieldSet}
    (hstop : entity.ensureFields wanted = .error stop) :
    ∃ kind fields, stop = .of (.fieldUnavailable kind fields) := by
  rw [ensureFields] at hstop
  by_cases hnone : (wanted.diff entity.held).isEmpty = true
  · simp only [hnone, if_true] at hstop
    cases hstop
  · simp only [hnone, Bool.false_eq_true, if_false] at hstop
    cases hstop
    exact ⟨_, _, rfl⟩

theorem exists_of_copySlot_eq_error {subgraph : Option (Graph κ)} {field : Nat}
    (hcopyable : Catalog.Copyable entity.kind field)
    (hstop : copySlot subgraph entity field = .error stop) :
    ∃ kind shape, Catalog.content? entity.kind field = some (.nested kind shape) ∧
      ∃ inner, subgraph = some inner ∧
        ∃ member ∈ (entity.slot field).leaves, cloneGraph inner member = .error stop := by
  rw [copySlot] at hstop
  split at hstop
  · rename_i kind shape hcontent
    rw [Graph.checkNested_eq_ok_iff.2 (hcopyable kind shape hcontent)] at hstop
    change (entity.slot field).mapM (cloneMember subgraph) = .error stop at hstop
    have htraverse := (Result.bind_eq_error_iff.1 hstop).resolve_right (by rintro ⟨_, _, ⟨⟩⟩)
    obtain ⟨member, hmember, herror⟩ := Tree.exists_error_of_traverse htraverse
    cases subgraph with
    | none => cases herror
    | some inner => exact ⟨kind, shape, hcontent, inner, rfl, member, hmember, herror⟩
  · cases hstop

/-- If a level cannot be copied, then it is for the sake of one of its entries. -/
theorem exists_of_cloneEntries_eq_error {entries : List (Nat × Option (Graph κ))}
    {copy : Entity κ} (hstop : cloneEntries entries entity copy = .error stop) :
    ∃ field subgraph, (field, subgraph) ∈ entries ∧
      copySlot subgraph entity field = .error stop := by
  induction entries generalizing copy with
  | nil => cases hstop
  | cons entry rest ih =>
    obtain ⟨field, subgraph⟩ := entry
    rw [cloneEntries_cons] at hstop
    rcases Result.bind_eq_error_iff.1 hstop with hslot | ⟨value, -, hrest⟩
    · exact ⟨field, subgraph, List.mem_cons_self .., hslot⟩
    · obtain ⟨other, attached, hentry, hslot⟩ := ih hrest
      exact ⟨other, attached, List.mem_cons_of_mem _ hentry, hslot⟩

/-- A copy through a graph over fields that declare what they store fails only for fields that are
not loaded. -/
theorem exists_of_cloneGraph_eq_error (hgraph : graph.WellFormed)
    (hkind : graph.kind = entity.kind) (hentity : entity.Throughout Fits)
    (hcopyable : ∀ path, graph.selects path = true →
      Catalog.OnPath Catalog.Copyable graph.kind path)
    (hstop : cloneGraph graph entity = .error stop) :
    ∃ kind fields, stop = .of (.fieldUnavailable kind fields) := by
  induction graph using Graph.induction generalizing entity with
  | node kind entries ih =>
    rw [cloneGraph_eq] at hstop
    rcases Result.bind_eq_error_iff.1 hstop with hensure | ⟨_, -, hentries⟩
    · exact exists_of_ensureFields_eq_error hensure
    · obtain ⟨field, subgraph, hentry, hslot⟩ := exists_of_cloneEntries_eq_error hentries
      have hfield : Catalog.Copyable entity.kind field := by
        rw [← hkind]
        exact (hcopyable [field] (Graph.selects_singleton_iff.2 (List.mem_map_of_mem hentry))).1
      obtain ⟨declared, shape, hcontent, inner, rfl, member, hmember, herror⟩ :=
        exists_of_copySlot_eq_error hfield hslot
      have hnested : Catalog.nested? entity.kind field = some declared :=
        hfield declared shape hcontent
      have hmkind : member.kind = declared :=
        hentity.self.nested field declared shape hcontent member hmember
      have hinner : inner.kind = declared := by
        have hattached := hgraph.declared hentry
        rw [hkind, hnested] at hattached
        exact (Option.some.inj hattached).symm
      refine ih field inner hentry (hgraph.attached hentry) (hinner.trans hmkind.symm)
        (hentity.member hmember) (fun path hpath => ?_) herror
      rw [hinner]
      exact (hcopyable _ (Graph.selects_of_attached hentry hpath)).2 declared
        (by rw [← hnested, ← hkind])

/-! ## The readings agree -/

/-- Where every selected field is regular, an entity has a graph exactly when it lacks nothing that
the graph selects. -/
theorem hasGraph_iff_not_lacks (hgraph : graph.WellFormed) (hkind : graph.kind = entity.kind)
    (hentity : entity.Throughout Fits)
    (hregular : ∀ path, graph.selects path = true →
      Catalog.OnPath Catalog.Regular graph.kind path) :
    entity.hasGraph graph = .ok true ↔
      ∀ path, graph.selects path = true → ¬entity.Lacks path := by
  rw [hasGraph_iff hgraph hkind hentity]
  obtain ⟨missing, hmissing⟩ := exists_missingGraph hgraph hkind hentity
    fun path hpath => (hregular path hpath).dropLast
  refine ⟨fun h path hpath => (h path hpath).not_lacks, fun h path hpath => ?_⟩
  exact carries_of_not_lacks hmissing hpath (h path hpath)

/-- What can be copied through a graph lacks nothing of it. -/
theorem not_lacks_of_cloneGraph (hentity : entity.Throughout Fits) {copy : Entity κ}
    (hok : cloneGraph graph entity = .ok copy) {path : List Nat}
    (hpath : graph.selects path = true) : ¬entity.Lacks path := by
  induction graph using Graph.induction generalizing entity copy path with
  | node kind entries ih =>
    cases path with
    | nil => exact not_false
    | cons field rest =>
      obtain ⟨subgraph, hentry, hattached⟩ := Graph.selects_cons_iff.1 hpath
      have hlevel := level_of_cloneGraph hok
        (Graph.selects_singleton_iff.2 (List.mem_map_of_mem hentry))
      rintro (hfield | ⟨member, hmember, hlacks⟩)
      · rw [hlevel.1] at hfield
        cases hfield
      · rw [cloneGraph_eq] at hok
        obtain ⟨_, -, hentries⟩ := Result.bind_eq_ok_iff.1 hok
        obtain ⟨value, hvalue⟩ := exists_ok_of_cloneEntries hentries field subgraph hentry
        obtain ⟨result, hresult⟩ := exists_ok_of_copySlot hentity.self hvalue member hmember
        cases subgraph with
        | none =>
          rw [Graph.attachedSelects_none_iff.1 hattached] at hlacks
          exact hlacks
        | some inner =>
          rcases Graph.attachedSelects_some_iff.1 hattached with rfl | hinner
          · exact hlacks
          · exact ih field inner hentry (hentity.member hmember) hresult hinner hlacks

/-- A clean entity can be copied through a graph over regular fields exactly when it has the graph.
Otherwise the copy fails for fields that are not loaded.  The copy is what narrowing leaves, and
holds the fields that the graph selects.  That the two are equal means the same members in the same
order, but of hashed containers only the same members. -/
theorem cloneGraph_readings (hgraph : graph.WellFormed) (hkind : graph.kind = entity.kind)
    (hentity : entity.Throughout Sound) (hclean : entity.Throughout Clean)
    (hregular : ∀ path, graph.selects path = true →
      Catalog.OnPath Catalog.Regular graph.kind path) :
    ((∃ copy, cloneGraph graph entity = .ok copy) ↔ entity.hasGraph graph = .ok true) ∧
      (entity.hasGraph graph ≠ .ok true → ∃ kind fields,
        cloneGraph graph entity = .error (.of (.fieldUnavailable kind fields))) ∧
      ∀ copy, cloneGraph graph entity = .ok copy →
        intersect graph entity = (copy, .ok ()) ∧ HoldsExactly graph.selects copy := by
  have hfits : entity.Throughout Fits := hentity.mono fun _ h => h.toFits
  have hcopyable : ∀ path, graph.selects path = true →
      Catalog.OnPath Catalog.Copyable graph.kind path :=
    fun path hpath => (hregular path hpath).mono fun _ _ h => h.copyable
  have hhas := hasGraph_iff_not_lacks hgraph hkind hfits hregular
  have hcopied :
      (∃ copy, cloneGraph graph entity = .ok copy) ↔ entity.hasGraph graph = .ok true := by
    rw [hhas]
    constructor
    · rintro ⟨copy, hcopy⟩ path hpath
      exact not_lacks_of_cloneGraph hfits hcopy hpath
    · exact fun hholds => ⟨_, cloneGraph_eq_ok hgraph hentity hholds (by rwa [← hkind])⟩
  refine ⟨hcopied, fun hnot => ?_, fun copy hcopy => ?_⟩
  · cases hclone : cloneGraph graph entity with
    | ok copy => exact absurd (hcopied.1 ⟨copy, hclone⟩) hnot
    | error stop =>
      obtain ⟨kind, fields, rfl⟩ :=
        exists_of_cloneGraph_eq_error hgraph hkind hfits hcopyable hclone
      exact ⟨kind, fields, rfl⟩
  · have hholds := hhas.1 (hcopied.1 ⟨copy, hcopy⟩)
    rw [cloneGraph_eq_restrict hgraph hentity hcopy]
    exact ⟨intersect_eq_restrict hgraph hentity hclean (by rwa [← hkind]),
      holdsExactly_restrict hfits hholds⟩

end Entity

namespace Harbor

open Entity

theorem cloneGraph_readings_crewList :
    (∃ copy, cloneGraph crewList Samples.ann = .ok copy ∧
      intersect crewList Samples.ann = (copy, .ok ()) ∧ HoldsExactly crewList.selects copy) ∧
    ∃ kind fields,
      cloneGraph crewList annAshore = .error (.of (.fieldUnavailable kind fields)) := by
  have hregular : ∀ path, crewList.selects path = true →
      Catalog.OnPath Catalog.Regular crewList.kind path :=
    fun path _ => onPath_regular (by exact trivial) path
  have hann := Samples.isRecord_ann
  obtain ⟨hcopied, -, hcopy⟩ :=
    cloneGraph_readings wellFormed_crewList rfl hann.lawful.sound hann.clean hregular
  obtain ⟨copy, hclone⟩ := hcopied.2 rfl
  have hashore := isRecord_annAshore
  refine ⟨⟨copy, hclone, hcopy copy hclone⟩, (cloneGraph_readings wellFormed_crewList rfl
    hashore.lawful.sound hashore.clean hregular).2.1 ?_⟩
  have hlacking : annAshore.hasGraph crewList = .ok false := rfl
  rw [hlacking]
  nofun

end Harbor

end PartialEntity
