import PartialEntity.Graph.Builder
import PartialEntity.Proofs.Assoc
import PartialEntity.Proofs.FieldSet

/-!
# What a graph selects

A graph stands for the paths of fields that it selects: a field of the top level, then one nested
under it, and so on.  The operations on graphs are described by their selections.  A selection
need not come from a graph, so restrictions of an entity to any selection can be compared, whatever
graphs they came from and in whatever order.
-/

namespace PartialEntity

/-- Which paths of fields are selected. -/
abbrev Selection := List Nat → Bool

namespace Selection

def under (selection : Selection) (field : Nat) : Selection :=
  fun path => selection (field :: path)

def ofFields (fields : FieldSet) : Selection
  | [field] => fields.contains field
  | _ => false

@[simp]
theorem sup_apply (left right : Selection) (path : List Nat) :
    (left ⊔ right) path = (left path || right path) := rfl

@[simp]
theorem inf_apply (left right : Selection) (path : List Nat) :
    (left ⊓ right) path = (left path && right path) := rfl

@[simp]
theorem bot_apply (path : List Nat) : (⊥ : Selection) path = false := rfl

@[simp]
theorem under_apply (selection : Selection) (field : Nat) (path : List Nat) :
    selection.under field path = selection (field :: path) := rfl

@[simp]
theorem under_bot (field : Nat) : (⊥ : Selection).under field = ⊥ := rfl

@[simp]
theorem under_sup (left right : Selection) (field : Nat) :
    (left ⊔ right).under field = left.under field ⊔ right.under field := rfl

@[simp]
theorem under_inf (left right : Selection) (field : Nat) :
    (left ⊓ right).under field = left.under field ⊓ right.under field := rfl

@[simp]
theorem ofFields_singleton (fields : FieldSet) (field : Nat) :
    ofFields fields [field] = fields.contains field := rfl

/-- Whether a selection contains with a path all of its beginnings. -/
def Closed (selection : Selection) : Prop :=
  ∀ path rest, path ≠ [] → selection (path ++ rest) = true → selection path = true

theorem Closed.under {selection : Selection} (h : selection.Closed) (field : Nat) :
    (selection.under field).Closed :=
  fun path rest _ hselected => h (field :: path) rest (by simp) hselected

/-- The union of closed selections is closed. -/
theorem Closed.sup {left right : Selection} (hleft : left.Closed) (hright : right.Closed) :
    (left ⊔ right).Closed := by
  intro path rest hne hselected
  rw [sup_apply, Bool.or_eq_true] at hselected ⊢
  exact hselected.imp (hleft path rest hne) (hright path rest hne)

theorem closed_ofFields (fields : FieldSet) : (ofFields fields).Closed := by
  intro path rest hne hselected
  cases path with
  | nil => exact absurd rfl hne
  | cons field path =>
    cases path with
    | nil =>
      cases rest with
      | nil => exact hselected
      | cons next rest => cases hselected
    | cons next path => cases hselected

end Selection

namespace Graph

variable {κ : Type}

/-! ## Induction -/

/-- What holds of a graph if it holds of all graphs attached in it holds of every graph. -/
@[elab_as_elim]
theorem induction {P : Graph κ → Prop}
    (node : ∀ kind entries, (∀ field subgraph, (field, some subgraph) ∈ entries → P subgraph) →
      P (node kind entries)) :
    ∀ graph, P graph
  | .node kind entries => node kind entries fun field subgraph hentry =>
    have _hsize := List.sizeOf_lt_of_mem hentry
    induction node subgraph
termination_by graph => sizeOf graph
decreasing_by simp at _hsize ⊢; omega

/-! ## Selected paths -/

def selects (graph : Graph κ) : Selection
  | [] => false
  | field :: rest => graph.entries.any fun entry =>
    entry.1 == field && (rest.isEmpty || entry.2.any fun subgraph => subgraph.selects rest)

def attachedSelects (subgraph : Option (Graph κ)) : Selection :=
  fun rest => rest.isEmpty || subgraph.any fun subgraph => subgraph.selects rest

theorem selects_nil (graph : Graph κ) : graph.selects [] = false := by
  rw [selects]

/-- A path is selected through an entry for its first field. -/
theorem selects_cons_iff {graph : Graph κ} {field : Nat} {rest : List Nat} :
    graph.selects (field :: rest) = true ↔
      ∃ subgraph, (field, subgraph) ∈ graph.entries ∧ attachedSelects subgraph rest = true := by
  rw [selects, List.any_eq_true]
  constructor
  · rintro ⟨⟨other, subgraph⟩, hentry, hselects⟩
    rw [Bool.and_eq_true, beq_iff_eq] at hselects
    exact ⟨subgraph, hselects.1 ▸ hentry, hselects.2⟩
  · rintro ⟨subgraph, hentry, hselects⟩
    exact ⟨(field, subgraph), hentry, by rw [Bool.and_eq_true, beq_iff_eq]; exact ⟨rfl, hselects⟩⟩

@[simp]
theorem attachedSelects_nil (subgraph : Option (Graph κ)) : attachedSelects subgraph [] = true :=
  rfl

theorem attachedSelects_none_iff {rest : List Nat} :
    attachedSelects (.none : Option (Graph κ)) rest = true ↔ rest = [] := by
  simp [attachedSelects]

/-- A field with something attached to it is selected itself, and so are the paths of what is
attached. -/
theorem attachedSelects_some_iff {subgraph : Graph κ} {rest : List Nat} :
    attachedSelects (some subgraph) rest = true ↔ rest = [] ∨ subgraph.selects rest = true := by
  simp [attachedSelects]

theorem ne_nil_of_selects {graph : Graph κ} {path : List Nat} (h : graph.selects path = true) :
    path ≠ [] := by
  rintro rfl
  rw [selects_nil] at h
  cases h

theorem selects_of_attached {graph subgraph : Graph κ} {field : Nat}
    (hentry : (field, some subgraph) ∈ graph.entries) {path : List Nat}
    (hpath : subgraph.selects path = true) : graph.selects (field :: path) = true :=
  selects_cons_iff.2 ⟨some subgraph, hentry, attachedSelects_some_iff.2 (.inr hpath)⟩

/-- What is selected further under a field is selected by what is attached to the field. -/
theorem exists_attached_of_selects {graph : Graph κ} {field : Nat} {rest : List Nat}
    (hpath : graph.selects (field :: rest) = true) (hne : rest ≠ []) :
    ∃ inner, (field, some inner) ∈ graph.entries ∧ inner.selects rest = true := by
  obtain ⟨subgraph, hentry, hattached⟩ := selects_cons_iff.1 hpath
  cases subgraph with
  | none => exact absurd (attachedSelects_none_iff.1 hattached) hne
  | some inner => exact ⟨inner, hentry, (attachedSelects_some_iff.1 hattached).resolve_left hne⟩

/-- With a path, a graph selects all of its beginnings. -/
theorem selects_of_append {graph : Graph κ} {path rest : List Nat}
    (h : graph.selects (path ++ rest) = true) (hne : path ≠ []) : graph.selects path = true := by
  induction path generalizing graph with
  | nil => exact absurd rfl hne
  | cons field path ih =>
    rw [List.cons_append] at h
    cases path with
    | nil =>
      obtain ⟨subgraph, hentry, -⟩ := selects_cons_iff.1 h
      exact selects_cons_iff.2 ⟨subgraph, hentry, rfl⟩
    | cons next path =>
      obtain ⟨inner, hentry, hinner⟩ := exists_attached_of_selects h (List.cons_ne_nil _ _)
      exact selects_of_attached hentry (ih hinner (List.cons_ne_nil _ _))

theorem closed_selects (graph : Graph κ) : graph.selects.Closed :=
  fun _ _ hne hselected => selects_of_append hselected hne

theorem attachedSelects_of_append {subgraph : Option (Graph κ)} {path rest : List Nat}
    (h : attachedSelects subgraph (path ++ rest) = true) :
    attachedSelects subgraph path = true := by
  by_cases hnil : path = []
  · rw [hnil]
    rfl
  · cases subgraph with
    | none =>
      rw [attachedSelects_none_iff, List.append_eq_nil_iff] at h
      exact absurd h.1 hnil
    | some inner =>
      rcases attachedSelects_some_iff.1 h with happend | h
      · exact absurd (List.append_eq_nil_iff.1 happend).1 hnil
      · exact attachedSelects_some_iff.2 (.inr (selects_of_append h hnil))

theorem selects_singleton_iff {graph : Graph κ} {field : Nat} :
    graph.selects [field] = true ↔ field ∈ graph.toList := by
  rw [selects_cons_iff, toList, List.mem_map]
  constructor
  · rintro ⟨subgraph, hentry, -⟩
    exact ⟨_, hentry, rfl⟩
  · rintro ⟨⟨other, subgraph⟩, hentry, rfl⟩
    exact ⟨subgraph, hentry, rfl⟩

/-- The fields at the top level are the selected paths of length one. -/
theorem contains_iff {graph : Graph κ} {field : Nat} :
    graph.contains field = true ↔ graph.selects [field] = true := by
  rw [selects_singleton_iff, contains, Assoc.contains, Option.isSome_iff_ne_none, ne_eq,
    Assoc.find?_eq_none_iff, not_not]
  rfl

theorem contains_fields (graph : Graph κ) (field : Nat) :
    graph.fields.contains field = graph.selects [field] := by
  rw [Bool.eq_iff_iff, fields, FieldSet.contains_ofList, decide_eq_true_iff, selects_singleton_iff]

/-- A graph is empty exactly when it selects no path. -/
theorem isEmpty_iff {graph : Graph κ} :
    graph.isEmpty = true ↔ ∀ path, graph.selects path = false := by
  obtain ⟨kind, entries⟩ := graph
  cases entries with
  | nil =>
    refine iff_of_true rfl fun path => ?_
    cases path <;> rw [selects]
    rfl
  | cons entry rest =>
    refine iff_of_false (by simp [isEmpty, Graph.entries]) fun h => ?_
    have hfield : (node kind (entry :: rest)).selects [entry.1] = true :=
      selects_singleton_iff.2 (List.mem_cons_self ..)
    rw [h] at hfield
    cases hfield

theorem isEmpty_eq_false_of_selects {graph : Graph κ} {path : List Nat}
    (h : graph.selects path = true) : graph.isEmpty = false := by
  rw [Bool.eq_false_iff]
  intro hempty
  rw [isEmpty_iff.1 hempty] at h
  cases h

theorem exists_selects_of_not_isEmpty {graph : Graph κ} (h : ¬graph.isEmpty = true) :
    ∃ path, graph.selects path = true := by
  by_contra hnone
  exact h (isEmpty_iff.2 fun path => Bool.eq_false_iff.2 fun hpath => hnone ⟨path, hpath⟩)

@[simp]
theorem selects_none (kind : κ) : (none kind).selects = ⊥ :=
  funext fun path => isEmpty_iff.1 rfl path

/-! ## Operations -/

/-- Uniting what is attached on both sides unites what is selected under the field. -/
theorem attachedSelects_mergeAttached {old subgraph : Option (Graph κ)}
    (hmerge : ∀ added, subgraph = some added → ∀ present : Graph κ,
      (present.merge added).selects = present.selects ⊔ added.selects) :
    attachedSelects (mergeAttached old subgraph) =
      attachedSelects old ⊔ attachedSelects subgraph := by
  funext rest
  cases subgraph with
  | none =>
    cases old <;> cases rest <;> simp [mergeAttached, attachedSelects]
  | some added =>
    cases old with
    | none => simp [mergeAttached, attachedSelects]
    | some present =>
      simp only [mergeAttached, attachedSelects, Option.any_some, hmerge added rfl present,
        Selection.sup_apply]
      cases rest.isEmpty <;> simp

/-- Uniting what is under one field with a subgraph adds the paths of the subgraph there, and no
others. -/
private theorem selects_alter {kind : κ} {entries : List (Nat × Option (Graph κ))} {field : Nat}
    {subgraph : Option (Graph κ)}
    (hmerge : ∀ added, subgraph = some added → ∀ present : Graph κ,
      (present.merge added).selects = present.selects ⊔ added.selects)
    {other : Nat} {rest : List Nat} :
    (node kind (Assoc.alter field (fun old => mergeAttached old.join subgraph) entries)).selects
        (other :: rest) = true ↔
      (node kind entries).selects (other :: rest) = true ∨
        other = field ∧ attachedSelects subgraph rest = true := by
  simp only [selects_cons_iff, Graph.entries]
  induction entries with
  | nil =>
    have hnone : mergeAttached .none subgraph = subgraph := by cases subgraph <;> rfl
    simp only [Assoc.alter, Option.join_none, hnone, List.mem_singleton, Prod.mk.injEq,
      List.not_mem_nil, false_and, exists_false, false_or]
    constructor
    · rintro ⟨_, ⟨rfl, rfl⟩, hselects⟩
      exact ⟨rfl, hselects⟩
    · rintro ⟨rfl, hselects⟩
      exact ⟨subgraph, ⟨rfl, rfl⟩, hselects⟩
  | cons entry entries ih =>
    obtain ⟨key, old⟩ := entry
    by_cases hkey : key = field
    · subst hkey
      have hselects : attachedSelects (mergeAttached old subgraph) rest =
          (attachedSelects old rest || attachedSelects subgraph rest) := by
        rw [attachedSelects_mergeAttached hmerge, Selection.sup_apply]
      simp only [Assoc.alter, beq_self_eq_true, if_true, Option.join_some, List.mem_cons,
        Prod.mk.injEq, or_and_right, exists_or]
      constructor
      · rintro (⟨_, ⟨rfl, rfl⟩, h⟩ | h)
        · rw [hselects, Bool.or_eq_true] at h
          rcases h with h | h
          · exact .inl (.inl ⟨old, ⟨rfl, rfl⟩, h⟩)
          · exact .inr ⟨rfl, h⟩
        · exact .inl (.inr h)
      · rintro ((⟨_, ⟨rfl, rfl⟩, h⟩ | h) | ⟨rfl, h⟩)
        · exact .inl ⟨_, ⟨rfl, rfl⟩, by rw [hselects, h, Bool.true_or]⟩
        · exact .inr h
        · exact .inl ⟨_, ⟨rfl, rfl⟩, by rw [hselects, h, Bool.or_true]⟩
    · simp only [Assoc.alter, beq_iff_eq, hkey, if_false, List.mem_cons, or_and_right, exists_or,
        ih, or_assoc]

theorem selects_cons_entry {kind : κ} {field : Nat} {subgraph : Option (Graph κ)}
    {entries : List (Nat × Option (Graph κ))} {other : Nat} {rest : List Nat} :
    (node kind ((field, subgraph) :: entries)).selects (other :: rest) = true ↔
      other = field ∧ attachedSelects subgraph rest = true ∨
        (node kind entries).selects (other :: rest) = true := by
  simp only [selects_cons_iff, Graph.entries, List.mem_cons, Prod.mk.injEq, or_and_right,
    exists_or, and_assoc, exists_and_left, exists_eq_left]

/-- The union of two graphs selects what either of them selects. -/
theorem selects_merge (graph added : Graph κ) :
    (graph.merge added).selects = graph.selects ⊔ added.selects := by
  induction added using Graph.induction generalizing graph with
  | node kind added ih =>
    obtain ⟨kind', present⟩ := graph
    funext path
    cases path with
    | nil => simp only [selects_nil, Selection.sup_apply, Bool.or_false]
    | cons field rest =>
      rw [Bool.eq_iff_iff, Selection.sup_apply, Bool.or_eq_true, merge, Graph.kind, Graph.entries]
      induction added generalizing present with
      | nil => simp only [mergeEntries, selects_cons_iff, Graph.entries, List.not_mem_nil,
          false_and, exists_false, or_false]
      | cons entry added ihentries =>
        obtain ⟨key, subgraph⟩ := entry
        have hmerge : ∀ added, subgraph = some added → ∀ present : Graph κ,
            (present.merge added).selects = present.selects ⊔ added.selects := by
          rintro added rfl
          exact ih key added (List.mem_cons_self ..)
        rw [mergeEntries, ihentries fun field subgraph hentry =>
          ih field subgraph (List.mem_cons_of_mem _ hentry), selects_alter hmerge,
          selects_cons_entry, or_assoc]

/-- Selecting a field adds the field and the paths of what comes under it. -/
theorem selects_insertEntry_iff {graph : Graph κ} {field : Nat} {subgraph : Option (Graph κ)}
    {other : Nat} {rest : List Nat} :
    (graph.insertEntry field subgraph).selects (other :: rest) = true ↔
      graph.selects (other :: rest) = true ∨
        other = field ∧ attachedSelects subgraph rest = true :=
  selects_alter fun added _ present => selects_merge present added

theorem selects_add_iff {graph : Graph κ} {field : Nat} {path : List Nat} :
    (graph.add field).selects path = true ↔ graph.selects path = true ∨ path = [field] := by
  cases path with
  | nil => simp [selects_nil]
  | cons other rest =>
    rw [add, selects_insertEntry_iff, attachedSelects_none_iff, List.cons.injEq]

theorem selects_addAll_iff {graph : Graph κ} {fields : List Nat} {path : List Nat} :
    (fields.foldl add graph).selects path = true ↔
      graph.selects path = true ∨ ∃ field ∈ fields, path = [field] := by
  induction fields generalizing graph with
  | nil => simp
  | cons field fields ih =>
    rw [List.foldl_cons, ih, selects_add_iff, or_assoc]
    simp only [List.mem_cons, or_and_right, exists_or, exists_eq_left]

private theorem selects_normalizeAttached {subgraph : Option (Graph κ)}
    (hnormalize : ∀ inner, subgraph = some inner → inner.normalize.selects = inner.selects) :
    attachedSelects (normalizeAttached subgraph) = attachedSelects subgraph := by
  cases subgraph with
  | none => rfl
  | some inner =>
    funext rest
    rw [normalizeAttached]
    split
    · rename_i hempty
      have hinner := hnormalize inner rfl ▸ isEmpty_iff.1 hempty rest
      simp only [attachedSelects, Option.any_some, Option.any_none, hinner]
    · simp only [attachedSelects, Option.any_some, hnormalize inner rfl]

/-- Normalizing a graph does not change what it selects. -/
@[simp]
theorem selects_normalize (graph : Graph κ) : graph.normalize.selects = graph.selects := by
  induction graph using Graph.induction with
  | node kind entries ih =>
    funext path
    cases path with
    | nil => rw [selects_nil, selects_nil]
    | cons field rest =>
      rw [Bool.eq_iff_iff, normalize]
      induction entries with
      | nil => rfl
      | cons entry entries ihentries =>
        obtain ⟨key, subgraph⟩ := entry
        have hnormalize : ∀ inner, subgraph = some inner →
            inner.normalize.selects = inner.selects := by
          rintro inner rfl
          exact ih key inner (List.mem_cons_self ..)
        rw [normalizeEntries, selects_cons_entry, selects_cons_entry,
          selects_normalizeAttached hnormalize, ihentries fun field subgraph hentry =>
          ih field subgraph (List.mem_cons_of_mem _ hentry)]

/-- The graph of a set of fields selects these fields and nothing under them. -/
theorem selects_ofSet [DecidableEq κ] [Catalog κ] (kind : κ) (fields : FieldSet) :
    (ofSet kind fields).selects = Selection.ofFields fields := by
  funext path
  rw [Bool.eq_iff_iff, ofSet, ofList, selects_addAll_iff]
  simp only [selects_none, Selection.bot_apply, Bool.false_eq_true, false_or, FieldSet.mem_toList]
  constructor
  · rintro ⟨field, hfield, rfl⟩
    exact hfield
  · intro h
    cases path with
    | nil => cases h
    | cons field rest =>
      cases rest with
      | nil => exact ⟨field, h, rfl⟩
      | cons => cases h

theorem mem_toList_ofSet [DecidableEq κ] [Catalog κ] {kind : κ} {fields : FieldSet} {field : Nat} :
    field ∈ (ofSet kind fields).toList ↔ fields.contains field = true := by
  rw [← selects_singleton_iff, selects_ofSet]
  rfl

end Graph

end PartialEntity
