import PartialEntity.Proofs.Catalog
import PartialEntity.Proofs.Graph.Selection

/-!
# Well-formed graphs

The graphs that can be built select a field at most once per level and attach to a field only a
subgraph over the kind that the field declares.  All operations on graphs keep this.  In a
well-formed graph what is attached to a field decides what is selected under it.
-/

namespace PartialEntity.Graph

variable {κ : Type} [Catalog κ]

/-- Whether every level of a graph selects a field once and attaches to it a graph over the kind
that it declares. -/
inductive WellFormed : Graph κ → Prop
  | node {kind : κ} {entries : List (Nat × Option (Graph κ))}
      (hfields : (entries.map (·.1)).Nodup)
      (hdeclared : ∀ field subgraph, (field, some subgraph) ∈ entries →
        Catalog.nested? kind field = some subgraph.kind)
      (hattached : ∀ field subgraph, (field, some subgraph) ∈ entries → WellFormed subgraph) :
      WellFormed (node kind entries)

namespace WellFormed

variable {graph added : Graph κ} {field : Nat}

/-- No field is selected twice at a level. -/
theorem fields_nodup (h : graph.WellFormed) : (graph.entries.map (·.1)).Nodup := by
  cases h
  assumption

theorem declared (h : graph.WellFormed) {subgraph : Graph κ}
    (hentry : (field, some subgraph) ∈ graph.entries) :
    Catalog.nested? graph.kind field = some subgraph.kind := by
  cases h with
  | node _ hdeclared _ => exact hdeclared field subgraph hentry

theorem attached (h : graph.WellFormed) {subgraph : Graph κ}
    (hentry : (field, some subgraph) ∈ graph.entries) : subgraph.WellFormed := by
  cases h with
  | node _ _ hattached => exact hattached field subgraph hentry

theorem none (kind : κ) : (Graph.none kind).WellFormed :=
  .node List.nodup_nil (fun _ _ hentry => absurd hentry List.not_mem_nil)
    fun _ _ hentry => absurd hentry List.not_mem_nil

/-! ## Reading a level -/

theorem find?_entries (h : graph.WellFormed) {subgraph : Option (Graph κ)}
    (hentry : (field, subgraph) ∈ graph.entries) :
    Assoc.find? field graph.entries = some subgraph :=
  Assoc.find?_eq_some_of_mem h.fields_nodup hentry

/-- What is attached to a field is what stands in the entry of the field. -/
theorem attached?_eq_some_iff (h : graph.WellFormed) {subgraph : Graph κ} :
    graph.attached? field = some subgraph ↔ (field, some subgraph) ∈ graph.entries := by
  rw [attached?]
  constructor
  · intro hattached
    exact Assoc.mem_of_find? (Option.join_eq_some_iff.1 hattached)
  · intro hentry
    rw [h.find?_entries hentry, Option.join_some]

/-- A field stands at one place only, so there is one thing attached to it. -/
theorem entry_unique (h : graph.WellFormed) {left right : Option (Graph κ)}
    (hleft : (field, left) ∈ graph.entries) (hright : (field, right) ∈ graph.entries) :
    left = right :=
  Option.some.inj ((h.find?_entries hleft).symm.trans (h.find?_entries hright))

/-- Below the field of an entry, what is attached there is selected and nothing else. -/
theorem selects_cons (h : graph.WellFormed) {subgraph : Option (Graph κ)}
    (hentry : (field, subgraph) ∈ graph.entries) (rest : List Nat) :
    graph.selects (field :: rest) = attachedSelects subgraph rest := by
  rw [Bool.eq_iff_iff, selects_cons_iff]
  constructor
  · rintro ⟨other, hother, hselects⟩
    rwa [h.entry_unique hentry hother]
  · exact fun hselects => ⟨subgraph, hentry, hselects⟩

/-- Under a field to which a subgraph is attached, exactly what it selects is selected. -/
theorem under_eq (h : graph.WellFormed) {subgraph : Graph κ}
    (hentry : (field, some subgraph) ∈ graph.entries) {path : List Nat} (hne : path ≠ []) :
    graph.selects.under field path = subgraph.selects path := by
  rw [Selection.under_apply, h.selects_cons hentry, Bool.eq_iff_iff, attachedSelects_some_iff]
  simp [hne]

/-- Under a field to which nothing is attached, nothing is selected. -/
theorem under_eq_false (h : graph.WellFormed)
    (hattached : graph.attached? field = .none) {path : List Nat} (hne : path ≠ []) :
    graph.selects.under field path = false := by
  rw [Selection.under_apply, Bool.eq_false_iff]
  intro hselects
  obtain ⟨subgraph, hentry, -⟩ := exists_attached_of_selects hselects hne
  rw [h.attached?_eq_some_iff.2 hentry] at hattached
  cases hattached

/-! ## Operations -/

/-- Changing one entry keeps a graph well formed, if what comes under the field is. -/
theorem alter {kind : κ} {entries : List (Nat × Option (Graph κ))}
    (h : (Graph.node kind entries).WellFormed) {f : Option (Option (Graph κ)) → Option (Graph κ)}
    (hf : ∀ old, (∀ present, old.join = some present →
        Catalog.nested? kind field = some present.kind ∧ present.WellFormed) →
      ∀ new, f old = some new →
        Catalog.nested? kind field = some new.kind ∧ new.WellFormed) :
    (Graph.node kind (Assoc.alter field f entries)).WellFormed := by
  have hnew : ∀ new, f (Assoc.find? field entries) = some new →
      Catalog.nested? kind field = some new.kind ∧ new.WellFormed := by
    refine hf _ fun present hpresent => ?_
    have hentry := Assoc.mem_of_find? (Option.join_eq_some_iff.1 hpresent)
    exact ⟨h.declared hentry, h.attached hentry⟩
  have hentries : ∀ other subgraph, (other, some subgraph) ∈ Assoc.alter field f entries →
      Catalog.nested? kind other = some subgraph.kind ∧ subgraph.WellFormed := by
    intro other subgraph hentry
    rcases Assoc.mem_alter hentry with hentry | heq
    · exact ⟨h.declared hentry, h.attached hentry⟩
    · rw [Prod.mk.injEq] at heq
      obtain ⟨rfl, heq⟩ := heq
      exact hnew subgraph heq.symm
  exact .node (Assoc.nodup_keys_alter h.fields_nodup)
    (fun other subgraph hentry => (hentries other subgraph hentry).1)
    fun other subgraph hentry => (hentries other subgraph hentry).2

private theorem mergeAttached {declared : Option κ} {old subgraph : Option (Graph κ)}
    (hmerge : ∀ added, subgraph = some added → ∀ present : Graph κ, present.WellFormed →
      added.kind = present.kind → (present.merge added).WellFormed)
    (hold : ∀ present, old = some present → declared = some present.kind ∧ present.WellFormed)
    (hsubgraph : ∀ added, subgraph = some added → declared = some added.kind ∧ added.WellFormed)
    {new : Graph κ} (hnew : Graph.mergeAttached old subgraph = some new) :
    declared = some new.kind ∧ new.WellFormed := by
  cases subgraph with
  | none => exact hold new (by simpa only [Graph.mergeAttached] using hnew)
  | some added =>
    cases old with
    | none =>
      simp only [Graph.mergeAttached, Option.some.injEq] at hnew
      exact hnew ▸ hsubgraph added rfl
    | some present =>
      simp only [Graph.mergeAttached, Option.some.injEq] at hnew
      obtain ⟨hkind, hpresent⟩ := hold present rfl
      have hsame : added.kind = present.kind :=
        Option.some.inj ((hsubgraph added rfl).1.symm.trans hkind)
      subst hnew
      refine ⟨?_, hmerge added rfl present hpresent hsame⟩
      cases added
      exact hkind

/-- The union of well-formed graphs over one kind is well formed. -/
theorem merge (h : graph.WellFormed) (hadded : added.WellFormed) (hkind : added.kind = graph.kind) :
    (graph.merge added).WellFormed := by
  induction added using Graph.induction generalizing graph with
  | node kind added ih =>
    obtain ⟨kind', present⟩ := graph
    cases hkind
    rw [Graph.merge, Graph.kind, Graph.entries]
    have hdeclared : ∀ field subgraph, (field, some subgraph) ∈ added →
        Catalog.nested? kind field = some subgraph.kind := fun _ _ => hadded.declared
    have hattached : ∀ field subgraph, (field, some subgraph) ∈ added →
        subgraph.WellFormed := fun _ _ => hadded.attached
    clear hadded
    induction added generalizing present with
    | nil => exact h
    | cons entry added ihentries =>
      obtain ⟨field, subgraph⟩ := entry
      have hsubgraph : ∀ inner, subgraph = some inner →
          Catalog.nested? kind field = some inner.kind ∧ inner.WellFormed := by
        rintro inner rfl
        exact ⟨hdeclared field inner (List.mem_cons_self ..),
          hattached field inner (List.mem_cons_self ..)⟩
      rw [mergeEntries]
      refine ihentries (fun field subgraph hentry => ih field subgraph
          (List.mem_cons_of_mem _ hentry)) _ (h.alter fun old hold new hnew => ?_)
        (fun field subgraph hentry => hdeclared field subgraph (List.mem_cons_of_mem _ hentry))
        fun field subgraph hentry => hattached field subgraph (List.mem_cons_of_mem _ hentry)
      refine mergeAttached (fun inner heq present hpresent hkind => ?_) hold hsubgraph hnew
      subst heq
      exact ih field inner (List.mem_cons_self ..) hpresent (hsubgraph inner rfl).2 hkind

/-- Selecting a field keeps a graph well formed, if what comes under it is so, and over the kind
that the field declares. -/
theorem insertEntry (h : graph.WellFormed) {subgraph : Option (Graph κ)}
    (hsubgraph : ∀ added, subgraph = some added →
      Catalog.nested? graph.kind field = some added.kind ∧ added.WellFormed) :
    (graph.insertEntry field subgraph).WellFormed := by
  obtain ⟨kind, entries⟩ := graph
  refine h.alter fun old hold new hnew => mergeAttached
    (fun added heq present hpresent hkind => ?_) hold hsubgraph hnew
  exact hpresent.merge (hsubgraph added heq).2 hkind

theorem add (h : graph.WellFormed) (field : Nat) : (graph.add field).WellFormed :=
  h.insertEntry nofun

theorem addAll (h : graph.WellFormed) (fields : List Nat) :
    (fields.foldl Graph.add graph).WellFormed := by
  induction fields generalizing graph with
  | nil => exact h
  | cons field fields ih => exact ih (h.add field)

theorem erase (h : graph.WellFormed) (field : Nat) :
    (Graph.node graph.kind (Assoc.erase field graph.entries)).WellFormed :=
  .node (Assoc.nodup_keys_erase h.fields_nodup)
    (fun _ _ hentry => h.declared (List.mem_filter.1 hentry).1)
    fun _ _ hentry => h.attached (List.mem_filter.1 hentry).1

/-- Replacing what is under a field keeps a graph well formed under the same conditions. -/
theorem replace (h : graph.WellFormed) {subgraph : Option (Graph κ)}
    (hsubgraph : ∀ added, subgraph = some added →
      Catalog.nested? graph.kind field = some added.kind ∧ added.WellFormed) :
    (Graph.node graph.kind (Assoc.insert field subgraph graph.entries)).WellFormed := by
  obtain ⟨kind, entries⟩ := graph
  exact h.alter fun _ _ => hsubgraph

theorem ofSet [DecidableEq κ] (kind : κ) (fields : FieldSet) :
    (Graph.ofSet kind fields).WellFormed :=
  (none kind).addAll fields.toList

omit [Catalog κ] in
/-- Adding fields attaches nothing to them. -/
private theorem attached_addAll {fields : List Nat} {subgraph : Option (Graph κ)}
    (hgraph : ∀ other attached, (other, attached) ∈ graph.entries → attached = .none)
    (hentry : (field, subgraph) ∈ (fields.foldl Graph.add graph).entries) : subgraph = .none := by
  induction fields generalizing graph with
  | nil => exact hgraph field subgraph hentry
  | cons first rest ih =>
    apply ih _ hentry
    intro other attached hother
    rcases Assoc.mem_alter hother with hother | heq
    · exact hgraph other attached hother
    · obtain ⟨-, rfl⟩ := Prod.mk.inj heq
      rw [Graph.mergeAttached, Option.join_eq_none_iff]
      cases hfind : Assoc.find? first graph.entries with
      | none => exact .inl rfl
      | some present =>
        rw [hgraph first present (Assoc.mem_of_find? hfind)]
        exact .inr rfl

omit [Catalog κ] in
/-- Nothing is attached to listed fields. -/
theorem attached_ofList [DecidableEq κ] {kind : κ} {fields : List Nat}
    {subgraph : Option (Graph κ)}
    (hentry : (field, subgraph) ∈ (Graph.ofList kind fields).entries) : subgraph = .none :=
  attached_addAll (fun _ _ hother => absurd hother List.not_mem_nil) hentry

omit [Catalog κ] in
/-- Nothing is attached to the fields of a set. -/
theorem attached_ofSet [DecidableEq κ] {kind : κ} {fields : FieldSet} {subgraph : Option (Graph κ)}
    (hentry : (field, subgraph) ∈ (Graph.ofSet kind fields).entries) : subgraph = .none :=
  attached_ofList hentry

omit [Catalog κ] in
private theorem normalizeEntries_eq (entries : List (Nat × Option (Graph κ))) :
    normalizeEntries entries = entries.map fun entry => (entry.1, normalizeAttached entry.2) := by
  induction entries with
  | nil => rfl
  | cons entry rest ih =>
    obtain ⟨field, subgraph⟩ := entry
    rw [normalizeEntries, ih, List.map_cons]

omit [Catalog κ] in
/-- What is attached in a normal form comes from something that selects a field. -/
theorem exists_of_mem_normalizeEntries {entries : List (Nat × Option (Graph κ))}
    {normal : Graph κ} (hentry : (field, some normal) ∈ normalizeEntries entries) :
    ∃ subgraph, (field, some subgraph) ∈ entries ∧ normal.isEmpty = false ∧
      normal = subgraph.normalize := by
  rw [normalizeEntries_eq, List.mem_map] at hentry
  obtain ⟨⟨other, subgraph⟩, hmem, heq⟩ := hentry
  rw [Prod.mk.injEq] at heq
  obtain ⟨rfl, heq⟩ := heq
  cases subgraph with
  | none => cases heq
  | some subgraph =>
    rw [normalizeAttached] at heq
    split at heq
    · cases heq
    · rename_i hempty
      obtain rfl := Option.some.inj heq
      exact ⟨subgraph, hmem, Bool.eq_false_iff.2 hempty, rfl⟩

omit [Catalog κ] in
theorem kind_normalize (graph : Graph κ) : graph.normalize.kind = graph.kind := by
  cases graph
  rfl

/-- Normalizing keeps a graph well formed. -/
theorem normalize (h : graph.WellFormed) : graph.normalize.WellFormed := by
  induction graph using Graph.induction with
  | node kind entries ih =>
    rw [Graph.normalize]
    refine .node ?_ (fun field normal hentry => ?_) fun field normal hentry => ?_
    · rw [normalizeEntries_eq, List.map_map]
      exact h.fields_nodup
    · obtain ⟨subgraph, hmem, -, rfl⟩ := exists_of_mem_normalizeEntries hentry
      rw [kind_normalize]
      exact h.declared hmem
    · obtain ⟨subgraph, hmem, -, rfl⟩ := exists_of_mem_normalizeEntries hentry
      exact ih field subgraph hmem (h.attached hmem)

end WellFormed

/-! ## Fields on selected paths -/

/-- What holds of the fields of a level and on the paths under it holds on all selected paths. -/
theorem onPath_node {P : κ → Nat → Prop} {kind : κ} {entries : List (Nat × Option (Graph κ))}
    (hfields : ∀ entry ∈ entries, P kind entry.1)
    (hattached : ∀ entry ∈ entries, ∀ subgraph, entry.2 = some subgraph → ∀ member,
      Catalog.nested? kind entry.1 = some member → ∀ path, subgraph.selects path = true →
        Catalog.OnPath P member path) (path : List Nat)
    (hpath : (Graph.node kind entries).selects path = true) : Catalog.OnPath P kind path := by
  cases path with
  | nil => trivial
  | cons field rest =>
    obtain ⟨subgraph, hentry, hselects⟩ := selects_cons_iff.1 hpath
    refine ⟨hfields _ hentry, fun member hmember => ?_⟩
    cases subgraph with
    | none =>
      rw [attachedSelects_none_iff.1 hselects]
      trivial
    | some subgraph =>
      rcases attachedSelects_some_iff.1 hselects with rfl | hselects
      · trivial
      · exact hattached _ hentry subgraph rfl member hmember rest hselects

end PartialEntity.Graph
