import PartialEntity.Proofs.Entity.Missing
import PartialEntity.Proofs.Graph.Algebra
import PartialEntity.Proofs.Harbor.Records

/-!
# The gap between an entity and a graph

Every path through an entity reaches the members of all containers on the way.  The missing graph
has exactly those paths of the graph that are beginnings of a path on which some reached entity
does not hold the next field.  As a set of paths it therefore lies within the graph, is empty when
the entity has the graph, grows with the graph, and of a union it is the union.
-/

namespace PartialEntity

namespace Entity

variable {κ : Type}

/-- The entities that a path leads to, through all members under each of its fields. -/
def reached (entity : Entity κ) : List Nat → List (Entity κ)
  | [] => [entity]
  | field :: rest => (entity.slot field).leaves.flatMap fun member => member.reached rest

theorem mem_reached_cons {entity nested : Entity κ} {field : Nat} {rest : List Nat} :
    nested ∈ entity.reached (field :: rest) ↔
      ∃ member ∈ (entity.slot field).leaves, nested ∈ member.reached rest :=
  List.mem_flatMap

/-- A path is lacking where some entity that a beginning of it reaches does not hold the field that
the path goes on with. -/
theorem lacks_iff_reached {entity : Entity κ} {path : List Nat} :
    entity.Lacks path ↔ ∃ before field after, path = before ++ field :: after ∧
      ∃ nested ∈ entity.reached before, nested.hasField field = false := by
  induction path generalizing entity with
  | nil =>
    refine iff_of_false not_false ?_
    rintro ⟨before, field, after, hpath, -⟩
    cases before <;> cases hpath
  | cons first rest ih =>
    constructor
    · rintro (hfield | ⟨member, hmember, hlacks⟩)
      · exact ⟨[], first, rest, rfl, entity, List.mem_singleton_self _, hfield⟩
      · obtain ⟨before, field, after, rfl, nested, hnested, hfield⟩ := ih.1 hlacks
        exact ⟨first :: before, field, after, rfl, nested,
          mem_reached_cons.2 ⟨member, hmember, hnested⟩, hfield⟩
    · rintro ⟨before, field, after, hpath, nested, hnested, hfield⟩
      cases before with
      | nil =>
        cases hpath
        rw [List.mem_singleton.1 hnested] at hfield
        exact .inl hfield
      | cons next before =>
        cases hpath
        obtain ⟨member, hmember, hnested⟩ := mem_reached_cons.1 hnested
        exact .inr ⟨member, hmember, ih.2 ⟨before, field, after, rfl, nested, hnested, hfield⟩⟩

variable [Catalog κ] {graph other missing lacking : Graph κ} {entity : Entity κ}

/-! ## The missing graph as a set of paths -/

namespace IsMissing

theorem mem_paths (h : IsMissing graph entity missing) {path : List Nat} :
    path ∈ missing.paths ↔
      path ≠ [] ∧ ∃ rest, path ++ rest ∈ graph.paths ∧ entity.Lacks (path ++ rest) :=
  h.selects path

/-- The missing graph has the paths of the graph that begin a path on which a reached entity does
not hold the next field. -/
theorem mem_paths_iff_reached (h : IsMissing graph entity missing) {path : List Nat} :
    path ∈ missing.paths ↔ path ∈ graph.paths ∧ ∃ before field after,
      path <+: before ++ field :: after ∧ before ++ field :: after ∈ graph.paths ∧
        ∃ nested ∈ entity.reached before, nested.hasField field = false := by
  rw [h.mem_paths]
  constructor
  · rintro ⟨hne, rest, hselects, hlacks⟩
    refine ⟨Graph.selects_of_append hselects hne, ?_⟩
    obtain ⟨before, field, after, heq, hnested⟩ := lacks_iff_reached.1 hlacks
    rw [heq] at hselects
    exact ⟨before, field, after, ⟨rest, heq⟩, hselects, hnested⟩
  · rintro ⟨hpath, before, field, after, ⟨rest, heq⟩, hselects, hnested⟩
    rw [← heq] at hselects
    exact ⟨Graph.ne_nil_of_selects hpath, rest, hselects,
      lacks_iff_reached.2 ⟨before, field, after, heq, hnested⟩⟩

/-- Nothing is missing that was not asked for. -/
theorem paths_subset (h : IsMissing graph entity missing) : missing.paths ⊆ graph.paths :=
  fun _ hpath => (h.mem_paths_iff_reached.1 hpath).1

/-- Of a larger graph, more is missing. -/
theorem paths_mono (h : IsMissing graph entity missing) (hother : IsMissing other entity lacking)
    (hsubset : other.paths ⊆ graph.paths) : lacking.paths ⊆ missing.paths := by
  intro path hpath
  obtain ⟨hne, rest, hselects, hlacks⟩ := hother.mem_paths.1 hpath
  exact h.mem_paths.2 ⟨hne, rest, hsubset hselects, hlacks⟩

/-- Of a union, the union of what is missing of its parts is missing. -/
theorem paths_union {united : Graph κ} (h : IsMissing graph entity missing)
    (hother : IsMissing other entity lacking)
    (hunion : IsMissing (graph.union other) entity united) :
    united.paths = missing.paths ∪ lacking.paths := by
  ext path
  rw [hunion.mem_paths, Set.mem_union, h.mem_paths, hother.mem_paths, ← and_or_left, ← exists_or,
    Graph.paths_union]
  simp only [Set.mem_union, or_and_right]

end IsMissing

/-! ## Exactness -/

variable [DecidableEq κ]

/-- Where the missing graph can be determined, so can that of every part of the graph. -/
theorem exists_missingGraph_of_subset (hok : missingGraph graph entity = .ok missing)
    (hsubset : other.paths ⊆ graph.paths) : ∃ lacking, missingGraph other entity = .ok lacking :=
  exists_missingGraph_iff_passes.2 fun path hpath =>
    exists_missingGraph_iff_passes.1 ⟨missing, hok⟩ path (hsubset hpath)

/-- Where the missing graphs of two graphs can be determined, so can that of their union. -/
theorem exists_missingGraph_union (hok : missingGraph graph entity = .ok missing)
    (hother : missingGraph other entity = .ok lacking) :
    ∃ united, missingGraph (graph.union other) entity = .ok united := by
  refine exists_missingGraph_iff_passes.2 fun path hpath => ?_
  have hpart : path ∈ graph.paths ∪ other.paths := Graph.paths_union graph other ▸ hpath
  rcases hpart with hpart | hpart
  · exact exists_missingGraph_iff_passes.1 ⟨missing, hok⟩ path hpart
  · exact exists_missingGraph_iff_passes.1 ⟨lacking, hother⟩ path hpart

/-- Wherever it can be determined, the missing graph is exact: it has the paths of the graph that
begin a path `before ++ field :: after` of the graph such that some entity reached along `before`
does not hold `field`.  It is a subset of the graph and empty exactly when the entity has the graph.
The missing graph of a smaller graph can be determined then and is a subset, and that of a union is
the union of the missing graphs. -/
theorem missingGraph_exact (hgraph : graph.WellFormed) (hkind : graph.kind = entity.kind)
    (hentity : entity.Throughout Fits) (hok : missingGraph graph entity = .ok missing) :
    (∀ path, path ∈ missing.paths ↔ path ∈ graph.paths ∧ ∃ before field after,
      path <+: before ++ field :: after ∧ before ++ field :: after ∈ graph.paths ∧
        ∃ nested ∈ entity.reached before, nested.hasField field = false) ∧
    missing.isSubset graph = true ∧
    (missing.isEmpty = true ↔ entity.hasGraph graph = .ok true) ∧
    (∀ smaller : Graph κ, smaller.WellFormed → smaller.kind = entity.kind →
      smaller.isSubset graph = true → ∃ lacking, missingGraph smaller entity = .ok lacking ∧
        lacking.isSubset missing = true) ∧
    (∀ other lacking : Graph κ, other.WellFormed → other.kind = entity.kind →
      missingGraph other entity = .ok lacking →
        ∃ united, missingGraph (graph.union other) entity = .ok united ∧
          (united == missing.union lacking) = true) := by
  have hspec := missingGraph_spec hgraph hkind hentity hok
  refine ⟨fun path => hspec.mem_paths_iff_reached, ?subset, ?empty,
    fun smaller hsmaller hsame hsubset => ?smaller,
    fun other lacking hother hsame hlacking => ?union⟩
  case subset => exact (Graph.isSubset_iff_paths hgraph).2 hspec.paths_subset
  case empty =>
    rw [hasGraph, hok]
    exact ⟨fun h => congrArg Except.ok h, fun h => Except.ok.inj h⟩
  case smaller =>
    rw [Graph.isSubset_iff_paths hgraph] at hsubset
    obtain ⟨lacking, hlacking⟩ := exists_missingGraph_of_subset hok hsubset
    refine ⟨lacking, hlacking, (Graph.isSubset_iff_paths hspec.wellFormed).2 ?_⟩
    exact hspec.paths_mono (missingGraph_spec hsmaller hsame hentity hlacking) hsubset
  case union =>
    have hlspec := missingGraph_spec hother hsame hentity hlacking
    obtain ⟨united, hunited⟩ := exists_missingGraph_union hok hlacking
    have huspec := missingGraph_spec (hgraph.union hother (hsame.trans hkind.symm))
      ((Graph.kind_union ..).trans hkind) hentity hunited
    have hsum := hspec.wellFormed.union hlspec.wellFormed (hlspec.kind.trans hspec.kind.symm)
    refine ⟨united, hunited, (Graph.beq_iff_paths huspec.wellFormed hsum ?_).2 ?_⟩
    · rw [huspec.kind, Graph.kind_union, hspec.kind]
    · rw [Graph.paths_union, hspec.paths_union hlspec huspec]

end Entity

namespace Harbor

open Entity

def crewGap : Graph Kind :=
  ((Graph.none .person).add 2).insertEntry 3
    (some ((Graph.none .boat).insertEntry 4 (some ((Graph.none .person).add 1))))

theorem missingGraph_exact_annAshore : missingGraph crewList annAshore = .ok crewGap ∧
    crewGap.isSubset crewList = true ∧ [3, 4] ∈ crewGap.paths ∧ [3, 1] ∉ crewGap.paths ∧
      ∃ united, missingGraph (crewList.union (.all .person)) annAshore = .ok united ∧
        (united == crewGap.union (.ofList .person [0, 1, 2])) = true := by
  have hfits : annAshore.Throughout Fits :=
    isRecord_annAshore.lawful.sound.mono fun _ h => h.toFits
  obtain ⟨hpaths, hsubset, -, -, hunion⟩ := missingGraph_exact wellFormed_crewList rfl hfits
    (show missingGraph crewList annAshore = .ok crewGap from rfl)
  refine ⟨rfl, hsubset, ?_, Bool.false_ne_true, ?_⟩
  · exact (hpaths _).2 ⟨rfl, [3], 4, [1], ⟨[1], rfl⟩, rfl, _, List.mem_singleton_self _, rfl⟩
  · exact hunion (.all .person) _ (Graph.Made.all Kind.person).finished.wellFormed rfl rfl

end Harbor

end PartialEntity
