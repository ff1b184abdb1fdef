import PartialEntity.Harbor.Kinds
import PartialEntity.Proofs.Graph.Construction

/-!
# The algebra of graphs

Comparison and union of graphs over one kind, read through the set of paths that a graph selects:
subsets are subsets of paths, equal graphs are those with equal paths, and the union of two graphs
has the paths of both.  Up to equality, graphs are therefore ordered by inclusion, and the union is
the least graph above two.
-/

namespace PartialEntity.Graph

variable {κ : Type}

def paths (graph : Graph κ) : Set (List Nat) :=
  {path | graph.selects path = true}

/-- The graph that a builder gives which starts from a graph and unites another one with it. -/
def union (graph added : Graph κ) : Graph κ :=
  ((Builder.ofGraph graph).merge added).build

theorem mem_paths {graph : Graph κ} {path : List Nat} :
    path ∈ graph.paths ↔ graph.selects path = true := Iff.rfl

/-- The paths of a union are those of its two parts. -/
theorem paths_merge (graph added : Graph κ) :
    (graph.merge added).paths = graph.paths ∪ added.paths := by
  ext path
  rw [Set.mem_union, mem_paths, mem_paths, mem_paths, selects_merge, Selection.sup_apply,
    Bool.or_eq_true]

/-- Detaching empty subgraphs takes no path away. -/
theorem paths_normalize (graph : Graph κ) : graph.normalize.paths = graph.paths := by
  rw [paths, paths, selects_normalize]

theorem paths_union (graph added : Graph κ) :
    (graph.union added).paths = graph.paths ∪ added.paths :=
  (paths_normalize _).trans (paths_merge graph added)

theorem kind_union (graph added : Graph κ) : (graph.union added).kind = graph.kind := by
  rw [union, Builder.build, WellFormed.kind_normalize]
  cases added
  rfl

/-- Graphs that mention the same fields at every level, in whatever order, have the same paths. -/
theorem paths_eq_of_perm {graph other : Graph κ}
    (h : ∀ path, (graph.mentions path).Perm (other.mentions path)) : graph.paths = other.paths := by
  rw [paths, paths, selects_eq_of_mentions fun path field => (h path).mem_iff]

variable [Catalog κ] {graph other : Graph κ}

theorem WellFormed.union {added : Graph κ} (h : graph.WellFormed) (hadded : added.WellFormed)
    (hkind : added.kind = graph.kind) : (graph.union added).WellFormed :=
  (h.merge hadded hkind).normalize

/-- Below a field that is selected, exactly the paths of what is attached to it are selected. -/
theorem WellFormed.selects_of_contains (h : graph.WellFormed) {field : Nat}
    (hfield : graph.contains field = true) (rest : List Nat) :
    graph.selects (field :: rest) = attachedSelects (graph.attached? field) rest := by
  rw [contains_iff, selects_singleton_iff] at hfield
  obtain ⟨⟨_, subgraph⟩, hentry, rfl⟩ := List.mem_map.1 hfield
  rw [h.selects_cons hentry, attached?, h.find?_entries hentry, Option.join_some]

/-! ## Subsets -/

omit [Catalog κ] in
theorem entriesSubset_iff {entries : List (Nat × Option (Graph κ))} :
    entriesSubset entries other = true ↔ ∀ entry ∈ entries,
      other.contains entry.1 = true ∧ attachedSubset entry.2 (other.attached? entry.1) = true := by
  induction entries with
  | nil => exact iff_of_true rfl nofun
  | cons entry entries ih =>
    rw [entriesSubset, Bool.and_eq_true, Bool.and_eq_true, ih, List.forall_mem_cons]

omit [Catalog κ] in
/-- The test of what is attached decides inclusion of what is selected under the field, provided
that the test of graphs does so for the two subgraphs. -/
private theorem attachedSubset_iff {subgraph attached : Option (Graph κ)}
    (hsubset : ∀ inner outer, subgraph = some inner → attached = some outer →
      (inner.isSubset outer = true ↔ inner.paths ⊆ outer.paths)) :
    attachedSubset subgraph attached = true ↔
      ∀ rest, attachedSelects subgraph rest = true → attachedSelects attached rest = true := by
  cases subgraph with
  | none =>
    refine iff_of_true rfl fun rest hrest => ?_
    rw [attachedSelects_none_iff.1 hrest]
    rfl
  | some inner =>
    cases attached with
    | none =>
      rw [attachedSubset]
      simp only [attachedSelects_some_iff, attachedSelects_none_iff]
      constructor
      · rintro hempty rest (hnil | hpath)
        · exact hnil
        · rw [isEmpty_iff.1 hempty] at hpath
          cases hpath
      · intro h
        rw [isEmpty_iff]
        intro path
        rw [Bool.eq_false_iff]
        exact fun hpath => ne_nil_of_selects hpath (h path (.inr hpath))
    | some outer =>
      rw [attachedSubset, hsubset inner outer rfl rfl]
      simp only [attachedSelects_some_iff]
      constructor
      · exact fun h rest hrest => hrest.imp_right fun hpath => h hpath
      · exact fun h path hpath => (h path (.inr hpath)).resolve_left (ne_nil_of_selects hpath)

private theorem paths_subset_iff {kind : κ} {entries : List (Nat × Option (Graph κ))}
    (hother : other.WellFormed) :
    (node kind entries).paths ⊆ other.paths ↔ ∀ entry ∈ entries,
      other.contains entry.1 = true ∧ ∀ rest, attachedSelects entry.2 rest = true →
        attachedSelects (other.attached? entry.1) rest = true := by
  constructor
  · rintro h ⟨field, subgraph⟩ hentry
    have hpath : ∀ rest, attachedSelects subgraph rest = true →
        other.selects (field :: rest) = true :=
      fun rest hrest => h (selects_cons_iff.2 ⟨subgraph, hentry, hrest⟩)
    have hfield := contains_iff.2 (hpath [] rfl)
    refine ⟨hfield, fun rest hrest => ?_⟩
    rw [← hother.selects_of_contains hfield]
    exact hpath rest hrest
  · intro h path hpath
    cases path with
    | nil => exact absurd rfl (ne_nil_of_selects hpath)
    | cons field rest =>
      obtain ⟨subgraph, hentry, hrest⟩ := selects_cons_iff.1 hpath
      obtain ⟨hfield, hattached⟩ := h _ hentry
      exact (hother.selects_of_contains hfield rest).trans (hattached rest hrest)

/-- The test for a subgraph decides inclusion of paths. -/
theorem isSubset_iff_paths (hother : other.WellFormed) :
    graph.isSubset other = true ↔ graph.paths ⊆ other.paths := by
  induction graph using Graph.induction generalizing other with
  | node kind entries ih =>
    rw [isSubset, entriesSubset_iff, paths_subset_iff hother]
    refine forall₂_congr fun entry hentry => and_congr_right fun _ => ?_
    refine attachedSubset_iff fun inner outer hinner houter => ?_
    exact ih entry.1 inner (hinner ▸ hentry) (hother.attached?_wellFormed houter)

/-! ## Equality -/

section Equality

variable [DecidableEq κ]

omit [Catalog κ] in
theorem entriesEqual_iff {entries : List (Nat × Option (Graph κ))} :
    entriesEqual entries other = true ↔ ∀ entry ∈ entries,
      other.contains entry.1 = true ∧ attachedEqual entry.2 (other.attached? entry.1) = true := by
  induction entries with
  | nil => exact iff_of_true rfl nofun
  | cons entry entries ih =>
    rw [entriesEqual, Bool.and_eq_true, Bool.and_eq_true, ih, List.forall_mem_cons]

omit [Catalog κ] [DecidableEq κ] in
/-- An attached subgraph selects no more than none at all exactly when it is empty. -/
theorem attachedSelects_eq_none_iff {subgraph : Graph κ} :
    (∀ rest, attachedSelects (some subgraph) rest =
      attachedSelects (.none : Option (Graph κ)) rest) ↔
      subgraph.isEmpty = true := by
  rw [isEmpty_iff]
  constructor
  · intro h path
    rw [Bool.eq_false_iff]
    intro hpath
    have hnone := h path
    rw [attachedSelects_some_iff.2 (.inr hpath)] at hnone
    exact ne_nil_of_selects hpath (attachedSelects_none_iff.1 hnone.symm)
  · intro h rest
    simp only [attachedSelects, Option.any_some, Option.any_none, h rest]

omit [Catalog κ] in
private theorem attachedEqual_iff {subgraph attached : Option (Graph κ)}
    (hequal : ∀ left right, subgraph = some left → attached = some right →
      (left.equal right = true ↔ left.paths = right.paths)) :
    attachedEqual subgraph attached = true ↔
      ∀ rest, attachedSelects subgraph rest = attachedSelects attached rest := by
  cases subgraph with
  | none =>
    cases attached with
    | none => exact iff_of_true rfl fun _ => rfl
    | some right =>
      rw [attachedEqual, ← attachedSelects_eq_none_iff]
      exact forall_congr' fun rest => eq_comm
  | some left =>
    cases attached with
    | none => rw [attachedEqual, attachedSelects_eq_none_iff]
    | some right =>
      rw [attachedEqual, hequal left right rfl rfl]
      constructor
      · intro h rest
        have hrest : rest ∈ left.paths ↔ rest ∈ right.paths := by rw [h]
        rw [Bool.eq_iff_iff, attachedSelects_some_iff, attachedSelects_some_iff]
        exact or_congr_right hrest
      · intro h
        ext path
        have hpath := Bool.eq_iff_iff.1 (h path)
        rw [attachedSelects_some_iff, attachedSelects_some_iff] at hpath
        constructor
        · exact fun hleft => (hpath.1 (.inr hleft)).resolve_left (ne_nil_of_selects hleft)
        · exact fun hright => (hpath.2 (.inr hright)).resolve_left (ne_nil_of_selects hright)

omit [DecidableEq κ] in
/-- Graphs with the same paths select the same fields at the top level, up to their order. -/
private theorem toList_perm_of_paths (hgraph : graph.WellFormed) (hother : other.WellFormed)
    (h : graph.paths = other.paths) : graph.toList.Perm other.toList := by
  refine (List.perm_ext_iff_of_nodup hgraph.fields_nodup hother.fields_nodup).2 fun field => ?_
  change field ∈ graph.toList ↔ field ∈ other.toList
  rw [← selects_singleton_iff, ← selects_singleton_iff]
  exact Set.ext_iff.1 h [field]

omit [DecidableEq κ] in
/-- If all fields of a level are selected by another one that has as many, the two levels have the
same fields. -/
private theorem toList_perm_of_size {kind : κ} {entries : List (Nat × Option (Graph κ))}
    (hgraph : (node kind entries).WellFormed) (hsize : entries.length = other.size)
    (h : ∀ entry ∈ entries, other.contains entry.1 = true) :
    (entries.map (·.1)).Perm other.toList := by
  have hsubset : entries.map (·.1) ⊆ other.toList := by
    intro field hfield
    obtain ⟨entry, hentry, rfl⟩ := List.mem_map.1 hfield
    exact selects_singleton_iff.1 (contains_iff.1 (h entry hentry))
  refine (hgraph.fields_nodup.subperm hsubset).perm_of_length_le ?_
  rw [toList, List.length_map, List.length_map, Graph.entries, hsize]
  exact Nat.le_refl _

omit [DecidableEq κ] in
/-- Levels with the same fields, under each of which the same is selected, select the same. -/
private theorem paths_eq_of_entries {kind : κ} {entries : List (Nat × Option (Graph κ))}
    (hother : other.WellFormed) (hfields : (entries.map (·.1)).Perm other.toList)
    (h : ∀ entry ∈ entries, other.contains entry.1 = true ∧
      ∀ rest, attachedSelects entry.2 rest = attachedSelects (other.attached? entry.1) rest) :
    (node kind entries).paths = other.paths := by
  apply Set.Subset.antisymm
  · rw [paths_subset_iff hother]
    intro entry hentry
    obtain ⟨hcontains, hrests⟩ := h entry hentry
    exact ⟨hcontains, fun rest hrest => hrests rest ▸ hrest⟩
  · intro path hpath
    cases path with
    | nil => exact absurd rfl (ne_nil_of_selects hpath)
    | cons field rest =>
      have happend : other.selects ([field] ++ rest) = true := hpath
      have hfield : field ∈ other.toList :=
        selects_singleton_iff.1 (selects_of_append happend (by simp))
      obtain ⟨entry, hentry, rfl⟩ := List.mem_map.1 (hfields.mem_iff.2 hfield)
      obtain ⟨hcontains, hrests⟩ := h entry hentry
      refine selects_cons_iff.2 ⟨entry.2, hentry, ?_⟩
      rw [hrests rest, ← hother.selects_of_contains hcontains]
      exact hpath

/-- The test for equality decides whether two graphs have the same paths. -/
theorem equal_iff_paths (hgraph : graph.WellFormed) (hother : other.WellFormed)
    (hkind : graph.kind = other.kind) :
    graph.equal other = true ↔ graph.paths = other.paths := by
  induction graph using Graph.induction generalizing other with
  | node kind entries ih =>
    have hattached : ∀ entry ∈ entries,
        (attachedEqual entry.2 (other.attached? entry.1) = true ↔
          ∀ rest, attachedSelects entry.2 rest =
            attachedSelects (other.attached? entry.1) rest) := by
      rintro ⟨field, subgraph⟩ hentry
      refine attachedEqual_iff fun left right hleft hright => ?_
      subst hleft
      have hentry' := hother.attached?_eq_some_iff.1 hright
      refine ih field left hentry (hgraph.attached hentry) (hother.attached hentry') ?_
      have hdeclared := hgraph.declared hentry
      rw [hkind, hother.declared hentry'] at hdeclared
      exact (Option.some.inj hdeclared).symm
    rw [equal, Bool.and_eq_true, Bool.and_eq_true, beq_iff_eq, beq_iff_eq, entriesEqual_iff]
    constructor
    · rintro ⟨⟨-, hsize⟩, hentries⟩
      -- Fields are compared in one direction only; that there are as many gives the other one.
      have hfields := toList_perm_of_size hgraph hsize fun entry hentry =>
        (hentries entry hentry).1
      exact paths_eq_of_entries hother hfields fun entry hentry =>
        (hentries entry hentry).imp_right (hattached entry hentry).1
    · intro h
      have hselects : ∀ path, other.selects path = (node kind entries).selects path :=
        fun path => Bool.eq_iff_iff.2 (Set.ext_iff.1 h.symm path)
      have hlength := (toList_perm_of_paths hgraph hother h).length_eq
      rw [toList, toList, List.length_map, List.length_map] at hlength
      refine ⟨⟨hkind, hlength⟩, fun entry hentry => ?_⟩
      have hcontains : other.contains entry.1 = true := by
        rw [contains_iff, hselects, hgraph.selects_cons hentry]
        rfl
      refine ⟨hcontains, (hattached entry hentry).2 fun rest => ?_⟩
      rw [← hother.selects_of_contains hcontains, hselects, hgraph.selects_cons hentry]

theorem beq_iff_paths (hgraph : graph.WellFormed) (hother : other.WellFormed)
    (hkind : graph.kind = other.kind) : (graph == other) = true ↔ graph.paths = other.paths :=
  equal_iff_paths hgraph hother hkind

/-! ## The order of graphs -/

section Persons

open Harbor (Kind)

def nameFirst : Graph Kind :=
  (((Builder.empty .person).add 1).merge (node .person [(3, some (ofList .boat [1]))])).build

def boatFirst : Graph Kind :=
  ((Builder.mk (node .person [(3, some (ofList .boat [1]))])).add 1).build

theorem made_boatFirst : Made boatFirst := by
  have hstep : (Builder.empty Kind.person).addGraph 3 (ofList .boat [1]) =
      .ok ⟨node .person [(3, some (ofList .boat [1]))]⟩ := rfl
  exact .build (.add (.addGraph (.empty _) (.ofList (by decide)) hstep) (by decide))

theorem made_nameFirst : Made nameFirst := by
  have hstep : (Builder.empty Kind.person).addGraph 3 (ofList .boat [1]) =
      .ok ⟨node .person [(3, some (ofList .boat [1]))]⟩ := rfl
  have hboat := Made.build (.addGraph (.empty _) (.ofList (by decide)) hstep)
  exact .build (.merge (.add (.empty _) (by decide)) hboat rfl)

end Persons

/-- Graphs over one kind stand for their sets of selected paths: inclusion, equality and union of
graphs are inclusion, equality and union of paths.  Equality is thus an equivalence that sees
neither the order at a level nor empty subgraphs, and the union of two graphs is the least graph
that both are subsets of.  However a graph came about, it is well formed (`Made.finished`). -/
theorem algebra_of_paths {a b c : Graph κ} (ha : a.WellFormed) (hb : b.WellFormed)
    (hc : c.WellFormed) (hab : b.kind = a.kind) (hac : c.kind = a.kind) :
    (∀ path rest, path ≠ [] → path ++ rest ∈ a.paths → path ∈ a.paths) ∧
    (a.isSubset b = true ↔ a.paths ⊆ b.paths) ∧
    ((a == b) = true ↔ a.paths = b.paths) ∧
    ((a == a) = true ∧ ((a == b) = true → (b == a) = true) ∧
      ((a == b) = true → (b == c) = true → (a == c) = true)) ∧
    ((a == b) = true ↔ ∀ path, (a.mentions path).Perm (b.mentions path)) ∧
    ((a == a.normalize) = true) ∧
    ((a == b) = true ↔ a.isSubset b = true ∧ b.isSubset a = true) ∧
    (a.union b).paths = a.paths ∪ b.paths ∧
    ((a.union a == a) = true ∧ (a.union b == b.union a) = true ∧
      ((a.union b).union c == a.union (b.union c)) = true) ∧
    (a.isSubset (a.union b) = true ∧ b.isSubset (a.union b) = true ∧
      (a.isSubset c = true → b.isSubset c = true → (a.union b).isSubset c = true)) := by
  have hab' := ha.union hb hab
  have hba' := hb.union ha hab.symm
  have hbc' := hb.union hc (hac.trans hab.symm)
  have hbeq : (a == b) = true ↔ a.paths = b.paths := beq_iff_paths ha hb hab.symm
  refine ⟨fun path rest hne hpath => selects_of_append hpath hne, isSubset_iff_paths hb, hbeq,
    ⟨?_, ?_, ?_⟩, ?_, ?_, ?_, paths_union a b, ⟨?_, ?_, ?_⟩, ?_, ?_, ?_⟩
  · exact (beq_iff_paths ha ha rfl).2 rfl
  · rw [hbeq, beq_iff_paths hb ha hab]
    exact Eq.symm
  · rw [hbeq, beq_iff_paths hb hc (hab.trans hac.symm), beq_iff_paths ha hc hac.symm]
    exact Eq.trans
  · rw [hbeq]
    refine ⟨fun h path => ?_, paths_eq_of_perm⟩
    rw [List.perm_ext_iff_of_nodup (ha.nodup_mentions path) (hb.nodup_mentions path)]
    intro field
    rw [mem_mentions_iff, mem_mentions_iff]
    exact Set.ext_iff.1 h (path ++ [field])
  · rw [beq_iff_paths ha ha.normalize (WellFormed.kind_normalize a).symm, paths_normalize]
  · rw [hbeq, isSubset_iff_paths hb, isSubset_iff_paths ha]
    exact Set.Subset.antisymm_iff
  · rw [beq_iff_paths (ha.union ha rfl) ha (kind_union a a), paths_union, Set.union_self]
  · rw [beq_iff_paths hab' hba' ((kind_union a b).trans (hab.symm.trans (kind_union b a).symm)),
      paths_union, paths_union, Set.union_comm]
  · rw [beq_iff_paths (hab'.union hc (hac.trans (kind_union a b).symm))
      (ha.union hbc' ((kind_union b c).trans hab)) ?_, paths_union, paths_union, paths_union,
      paths_union, Set.union_assoc]
    rw [kind_union, kind_union, kind_union]
  · rw [isSubset_iff_paths hab', paths_union]
    exact Set.subset_union_left
  · rw [isSubset_iff_paths hab', paths_union]
    exact Set.subset_union_right
  · rw [isSubset_iff_paths hc, isSubset_iff_paths hc, isSubset_iff_paths hc, paths_union]
    exact Set.union_subset

open Harbor (Kind) in
theorem algebra_of_paths_person :
    nameFirst.paths = boatFirst.paths ∧ (nameFirst.union boatFirst == boatFirst) = true ∧
      (nameFirst.union (all .person)).paths = nameFirst.paths ∪ (all Kind.person).paths := by
  have hname := made_nameFirst.finished.wellFormed
  have hboat := made_boatFirst.finished.wellFormed
  have hall := (Made.all Kind.person).finished.wellFormed
  obtain ⟨-, -, hequal, -⟩ := algebra_of_paths hname hboat hall rfl rfl
  obtain ⟨-, -, -, -, -, -, -, hunion, -⟩ := algebra_of_paths hname hall hboat rfl rfl
  exact ⟨hequal.1 rfl, rfl, hunion⟩

end Equality

end PartialEntity.Graph
