import PartialEntity.Graph.Builder
import PartialEntity.Proofs.Graph.WellFormed

/-!
# Unions of graphs

The union of several graphs over one kind, as a builder makes it, selects what any of them selects.
Neither their order nor the way in which they are grouped makes a difference to that.
-/

namespace PartialEntity.Graph

variable {κ : Type}

def unionAll (kind : κ) (graphs : List (Graph κ)) : Graph κ :=
  (graphs.foldl Builder.merge (.empty kind)).build

variable {kind : κ} {graphs : List (Graph κ)}

/-- Merging graphs into a builder one after the other selects what any of them selects. -/
theorem selects_foldl_merge {builder : Builder κ} {path : List Nat} :
    (graphs.foldl Builder.merge builder).graph.selects path = true ↔
      builder.graph.selects path = true ∨ ∃ graph ∈ graphs, graph.selects path = true := by
  induction graphs generalizing builder with
  | nil => simp
  | cons graph rest ih =>
    rw [List.foldl_cons, ih, Builder.merge, selects_merge, Selection.sup_apply, Bool.or_eq_true,
      or_assoc]
    simp only [List.mem_cons, exists_eq_or_imp]

/-- A union selects what one of the graphs selects. -/
theorem selects_unionAll {path : List Nat} :
    (unionAll kind graphs).selects path = true ↔
      ∃ graph ∈ graphs, graph.selects path = true := by
  rw [unionAll, Builder.build, selects_normalize, selects_foldl_merge, Builder.empty, selects_none,
    Selection.bot_apply]
  simp only [Bool.false_eq_true, false_or]

theorem selects_unionAll_nil (kind : κ) : (unionAll kind []).selects = ⊥ :=
  funext fun path => isEmpty_iff.1 rfl path

theorem selects_unionAll_cons (graph : Graph κ) (rest : List (Graph κ)) :
    (unionAll kind (graph :: rest)).selects = graph.selects ⊔ (unionAll kind rest).selects := by
  funext path
  rw [Bool.eq_iff_iff, selects_unionAll, Selection.sup_apply, Bool.or_eq_true, selects_unionAll]
  simp only [List.mem_cons, exists_eq_or_imp]

/-- Graphs may be united in any order. -/
theorem selects_unionAll_perm {ordered : List (Graph κ)} (h : ordered.Perm graphs) :
    (unionAll kind ordered).selects = (unionAll kind graphs).selects := by
  funext path
  rw [Bool.eq_iff_iff]
  simp only [selects_unionAll, h.mem_iff]

/-- Graphs may be united in any order and in any groups. -/
theorem selects_unionAll_groups {groups : List (List (Graph κ))} (h : groups.flatten.Perm graphs) :
    (unionAll kind (groups.map (unionAll kind))).selects = (unionAll kind graphs).selects := by
  funext path
  rw [Bool.eq_iff_iff]
  simp only [selects_unionAll, List.mem_map, exists_exists_and_eq_and, ← h.mem_iff,
    List.mem_flatten]
  constructor
  · rintro ⟨group, hgroup, graph, hgraph, hpath⟩
    exact ⟨graph, ⟨group, hgroup, hgraph⟩, hpath⟩
  · rintro ⟨graph, ⟨group, hgroup, hgraph⟩, hpath⟩
    exact ⟨group, hgroup, graph, hgraph, hpath⟩

theorem kind_unionAll (kind : κ) (graphs : List (Graph κ)) :
    (unionAll kind graphs).kind = kind := by
  rw [unionAll, Builder.build, WellFormed.kind_normalize]
  suffices hfold : ∀ builder : Builder κ,
      (graphs.foldl Builder.merge builder).graph.kind = builder.graph.kind from hfold (.empty kind)
  induction graphs with
  | nil => exact fun _ => rfl
  | cons graph rest ih =>
    intro builder
    rw [List.foldl_cons, ih]
    cases graph
    rfl

variable [Catalog κ]

/-- The union of well-formed graphs over one kind is well formed. -/
theorem wellFormed_unionAll (h : ∀ graph ∈ graphs, graph.WellFormed ∧ graph.kind = kind) :
    (unionAll kind graphs).WellFormed := by
  suffices hfold : ∀ builder : Builder κ, builder.graph.WellFormed → builder.graph.kind = kind →
      (graphs.foldl Builder.merge builder).graph.WellFormed from
    (hfold (.empty kind) (.none kind) rfl).normalize
  induction graphs with
  | nil => exact fun _ hbuilder _ => hbuilder
  | cons graph rest ih =>
    rw [List.forall_mem_cons] at h
    intro builder hbuilder hkind
    refine ih h.2 (builder.merge graph) (hbuilder.merge h.1.1 (h.1.2.trans hkind.symm)) ?_
    rw [← hkind]
    cases graph
    rfl

end PartialEntity.Graph
