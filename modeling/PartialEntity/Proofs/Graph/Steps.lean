import PartialEntity.Proofs.Graph.Algebra

/-!
# Sequences of builder steps

Each step of a builder has two readings, one on the set of selected paths and one on the order of
the top level.  On paths, adding inserts, uniting is a union, removing drops a field with all that
is under it, and setting a field replaces only what is under it.  For the order a step is a list of
changes: fields are inserted or removed, or all are taken away.  A field stands where it was first
inserted since it was last taken away.

Both readings hold of what a builder gives after any sequence of steps, although in between it may
hold subgraphs that select nothing, and although uniting descends where setting replaces.  A step
whose subgraph is over another kind than the one its field declares fails and changes nothing.
-/

namespace PartialEntity.Graph.Builder

variable {κ : Type}

inductive Step (κ : Type) where
  /-- A new builder in place of the one in use. -/
  | empty
  /-- A builder that starts from a finished graph in place of the one in use. -/
  | ofGraph (graph : Graph κ)
  | add (field : Nat)
  | addAll (fields : List Nat)
  | addGraph (field : Nat) (subgraph : Graph κ)
  | merge (graph : Graph κ)
  /-- Uniting with the graph that the builder gives at that moment. -/
  | mergeBuilt
  | remove (field : Nat)
  | set (field : Nat) (subgraph : Option (Graph κ))

section Perform

variable [DecidableEq κ] [Catalog κ]

def perform (builder : Builder κ) : Step κ → Except Error (Builder κ)
  | .empty => pure (.empty builder.graph.kind)
  | .ofGraph graph => pure (.ofGraph graph)
  | .add field => pure (builder.add field)
  | .addAll fields => pure (builder.addAll fields)
  | .addGraph field subgraph => builder.addGraph field subgraph
  | .merge graph => pure (builder.merge graph)
  | .mergeBuilt => pure (builder.merge builder.build)
  | .remove field => pure (builder.remove field)
  | .set field subgraph => builder.set field subgraph

/-- The builder in use after a step: the one before it if the step fails. -/
def next (builder : Builder κ) (step : Step κ) : Builder κ :=
  match builder.perform step with
  | .ok result => result
  | .error _ => builder

def after (kind : κ) (steps : List (Step κ)) : Builder κ :=
  steps.foldl next (.empty kind)

end Perform

/-! ## The readings of a step -/

/-- The path to a field and, through it, those that a subgraph selects. -/
def pathsTo (field : Nat) : Option (Graph κ) → Set (List Nat)
  | .none => {[field]}
  | some subgraph => insert [field] (List.cons field '' subgraph.paths)

inductive Change where
  | insert (field : Nat)
  | remove (field : Nat)
  | clear

def Change.drops (field : Nat) : Change → Bool
  | insert _ => false
  | remove other => field == other
  | clear => true

/-- The fields that are inserted, in order, each as often as it is inserted without being taken away
later. -/
def Change.lasting : List Change → List Nat
  | [] => []
  | insert field :: later =>
    if later.any (drops field) then lasting later else field :: lasting later
  | remove _ :: later => lasting later
  | clear :: later => lasting later

namespace Step

def onPaths (paths : Set (List Nat)) : Step κ → Set (List Nat)
  | empty => ∅
  | ofGraph graph => graph.paths
  | add field => insert [field] paths
  | addAll fields => paths ∪ {path | ∃ field ∈ fields, path = [field]}
  | addGraph field subgraph => paths ∪ pathsTo field (some subgraph)
  | merge graph => paths ∪ graph.paths
  | mergeBuilt => paths ∪ paths
  | remove field => {path ∈ paths | path.head? ≠ some field}
  | set field subgraph =>
    {path ∈ paths | path.head? = some field → path = [field]} ∪ pathsTo field subgraph

/-- What a step does to the top level.  Uniting a builder with its own graph inserts no field that
is not there. -/
def onFields : Step κ → List Change
  | empty => [.clear]
  | ofGraph graph => .clear :: graph.toList.map .insert
  | add field => [.insert field]
  | addAll fields => fields.map .insert
  | addGraph field _ => [.insert field]
  | merge graph => graph.toList.map .insert
  | mergeBuilt => []
  | remove field => [.remove field]
  | set field _ => [.insert field]

def attaches? : Step κ → Option (Nat × Graph κ)
  | addGraph field subgraph => some (field, subgraph)
  | set field subgraph => subgraph.map fun graph => (field, graph)
  | _ => .none

section Fits

variable [DecidableEq κ] [Catalog κ]

/-- Whether the subgraph that a step attaches is over the kind that the field declares. -/
def fits (kind : κ) (step : Step κ) : Bool :=
  step.attaches?.all fun attached => Catalog.nested? kind attached.1 == some attached.2.kind

def paths (kind : κ) (before : Set (List Nat)) (step : Step κ) : Set (List Nat) :=
  if step.fits kind then step.onPaths before else before

def changes (kind : κ) (step : Step κ) : List Change :=
  if step.fits kind then step.onFields else []

end Fits

/-- Whether the graphs that a step takes are well formed, and over the builder's kind where the
builder takes no others. -/
def Sensible [Catalog κ] (kind : κ) : Step κ → Prop
  | ofGraph graph => graph.WellFormed ∧ graph.kind = kind
  | merge graph => graph.WellFormed ∧ graph.kind = kind
  | addGraph _ subgraph => subgraph.WellFormed
  | set _ subgraph => ∀ graph, subgraph = some graph → graph.WellFormed
  | _ => True

end Step

/-! ## Lasting insertions -/

namespace Change

/-- Of what was inserted first, that lasts which is not dropped later. -/
theorem lasting_append (first later : List Change) :
    lasting (first ++ later) =
      (lasting first).filter (fun field => !later.any (drops field)) ++ lasting later := by
  induction first with
  | nil => rfl
  | cons change first ih =>
    cases change with
    | insert field =>
      rw [List.cons_append, lasting, lasting, List.any_append, ih]
      by_cases hfirst : first.any (drops field) = true
      · simp [hfirst]
      · by_cases hlater : later.any (drops field) = true <;> simp [hfirst, hlater]
    | remove field => exact ih
    | clear => exact ih

theorem any_drops_insert (field : Nat) (fields : List Nat) :
    (fields.map insert).any (drops field) = false := by
  simp [drops]

@[simp]
theorem lasting_insert (fields : List Nat) : lasting (fields.map insert) = fields := by
  induction fields with
  | nil => rfl
  | cons field fields ih =>
    rw [List.map_cons, lasting, any_drops_insert, if_neg Bool.false_ne_true, ih]

def apply (fields : List Nat) (changes : List Change) : List Nat :=
  (fields.filter (fun field => !changes.any (drops field)) ++ lasting changes).eraseDups

/-- What lasts of two runs of changes can be computed one run after the other. -/
theorem eraseDups_lasting_append (first later : List Change) :
    (lasting (first ++ later)).eraseDups = apply (lasting first).eraseDups later := by
  rw [apply, lasting_append, ← FirstMention.eraseDups_filter,
    FirstMention.eraseDups_eraseDups_append]

theorem apply_insert (fields more : List Nat) :
    apply fields (more.map insert) = (fields ++ more).eraseDups := by
  simp only [apply, any_drops_insert, Bool.not_false, List.filter_true, lasting_insert]

/-- A level that is cleared holds what is inserted then. -/
theorem apply_clear_insert (fields : List Nat) {more : List Nat} (hmore : more.Nodup) :
    apply fields (clear :: more.map insert) = more := by
  have hnone : fields.filter (fun field => !(clear :: more.map insert).any (drops field)) = [] := by
    simp [drops]
  rw [apply, hnone, lasting, lasting_insert, List.nil_append, FirstMention.eraseDups_eq_self hmore]

theorem apply_remove {fields : List Nat} (hfields : fields.Nodup) (field : Nat) :
    apply fields [remove field] = fields.filter fun other => !(other == field) := by
  have hkept : (fields.filter fun other => !(other == field)).Nodup := hfields.filter _
  rw [apply, lasting, lasting, List.append_nil, ← FirstMention.eraseDups_eq_self hkept]
  simp [drops]

theorem apply_nil {fields : List Nat} (hfields : fields.Nodup) : apply fields [] = fields := by
  have h := apply_insert fields []
  rwa [List.map_nil, List.append_nil, FirstMention.eraseDups_eq_self hfields] at h

end Change

/-! ## Paths -/

theorem mem_pathsTo {field : Nat} {subgraph : Option (Graph κ)} {path : List Nat} :
    path ∈ pathsTo field subgraph ↔
      ∃ rest, path = field :: rest ∧ attachedSelects subgraph rest = true := by
  cases subgraph with
  | none =>
    simp only [pathsTo, Set.mem_singleton_iff, attachedSelects_none_iff, exists_eq_right]
  | some subgraph =>
    simp only [pathsTo, Set.mem_insert_iff, Set.mem_image, attachedSelects_some_iff]
    constructor
    · rintro (rfl | ⟨rest, hrest, rfl⟩)
      · exact ⟨[], rfl, .inl rfl⟩
      · exact ⟨rest, rfl, .inr hrest⟩
    · rintro ⟨rest, rfl, rfl | hrest⟩
      · exact .inl rfl
      · exact .inr ⟨rest, hrest, rfl⟩

theorem cons_mem_pathsTo {field other : Nat} {subgraph : Option (Graph κ)} {rest : List Nat} :
    other :: rest ∈ pathsTo field subgraph ↔
      other = field ∧ attachedSelects subgraph rest = true := by
  simp only [mem_pathsTo, List.cons.injEq, and_assoc, exists_and_left, exists_eq_left']

/-- Selecting a field adds the paths to it and through it. -/
theorem paths_insertEntry (graph : Graph κ) (field : Nat) (subgraph : Option (Graph κ)) :
    (graph.insertEntry field subgraph).paths = graph.paths ∪ pathsTo field subgraph := by
  ext path
  cases path with
  | nil => simp [mem_paths, selects_nil, mem_pathsTo]
  | cons other rest =>
    rw [Set.mem_union, cons_mem_pathsTo]
    exact selects_insertEntry_iff

theorem paths_addAll (graph : Graph κ) (fields : List Nat) :
    (fields.foldl Graph.add graph).paths =
      graph.paths ∪ {path | ∃ field ∈ fields, path = [field]} :=
  Set.ext fun _ => selects_addAll_iff

theorem paths_none (kind : κ) : (Graph.none kind).paths = ∅ := by
  rw [Graph.paths, selects_none]
  simp

section WellFormed

variable [Catalog κ] {graph : Graph κ}

/-- What a well-formed graph selects at and under a field is read off what it has for the field. -/
theorem selects_iff_find? (h : graph.WellFormed) {field : Nat} {rest : List Nat} :
    graph.selects (field :: rest) = true ↔ ∃ subgraph,
      Assoc.find? field graph.entries = some subgraph ∧ attachedSelects subgraph rest = true := by
  rw [selects_cons_iff]
  constructor
  · rintro ⟨subgraph, hentry, hrest⟩
    exact ⟨subgraph, h.find?_entries hentry, hrest⟩
  · rintro ⟨subgraph, hfind, hrest⟩
    exact ⟨subgraph, Assoc.mem_of_find? hfind, hrest⟩

/-- Taking a field away takes all paths through it away. -/
theorem paths_erase (h : graph.WellFormed) (field : Nat) :
    (node graph.kind (Assoc.erase field graph.entries)).paths =
      {path ∈ graph.paths | path.head? ≠ some field} := by
  ext path
  cases path with
  | nil => simp [mem_paths, selects_nil]
  | cons other rest =>
    rw [Set.mem_sep_iff, mem_paths, mem_paths, selects_iff_find? (h.erase field),
      selects_iff_find? h, Graph.entries]
    by_cases hother : other = field
    · simp [hother]
    · simp [hother, Assoc.find?_erase_of_ne hother]

/-- Replacing what is under a field takes the old paths through it away, and puts the new ones in
their place. -/
theorem paths_replace (h : graph.WellFormed) {field : Nat} {subgraph : Option (Graph κ)}
    (hsubgraph : ∀ added, subgraph = some added →
      Catalog.nested? graph.kind field = some added.kind ∧ added.WellFormed) :
    (node graph.kind (Assoc.insert field subgraph graph.entries)).paths =
      {path ∈ graph.paths | path.head? = some field → path = [field]} ∪
        pathsTo field subgraph := by
  ext path
  cases path with
  | nil => simp [mem_paths, selects_nil, mem_pathsTo]
  | cons other rest =>
    rw [Set.mem_union, Set.mem_sep_iff, mem_paths, mem_paths,
      selects_iff_find? (h.replace hsubgraph), selects_iff_find? h, cons_mem_pathsTo, Graph.entries]
    by_cases hother : other = field
    · subst hother
      -- The path to the field itself was perhaps selected before, and is selected afterwards.
      rw [Assoc.find?_insert_self]
      simp only [Option.some.injEq, exists_eq_left', List.head?_cons, List.cons.injEq, true_and,
        forall_const]
      constructor
      · exact .inr
      · rintro (⟨-, rfl⟩ | hrest)
        · rfl
        · exact hrest
    · simp [hother, Assoc.find?_insert_of_ne hother]

/-! ## Order -/

/-- A changed entry keeps its place; a new one comes last. -/
theorem toList_alter {kind : κ} {entries : List (Nat × Option (Graph κ))}
    (h : (node kind entries).WellFormed) (field : Nat)
    (f : Option (Option (Graph κ)) → Option (Graph κ)) :
    (node kind (Assoc.alter field f entries)).toList =
      ((node kind entries).toList ++ [field]).eraseDups := by
  have hkeys : (node kind (Assoc.alter field f entries)).toList =
      if field ∈ (node kind entries).toList then (node kind entries).toList
      else (node kind entries).toList ++ [field] :=
    Assoc.keys_alter ..
  exact hkeys.trans (FirstMention.eraseDups_append_singleton h.fields_nodup field).symm

theorem toList_insertEntry (h : graph.WellFormed) (field : Nat) (subgraph : Option (Graph κ)) :
    (graph.insertEntry field subgraph).toList = (graph.toList ++ [field]).eraseDups := by
  obtain ⟨kind, entries⟩ := graph
  exact toList_alter h field _

theorem toList_replace (h : graph.WellFormed) (field : Nat) (subgraph : Option (Graph κ)) :
    (node graph.kind (Assoc.insert field subgraph graph.entries)).toList =
      (graph.toList ++ [field]).eraseDups := by
  obtain ⟨kind, entries⟩ := graph
  exact toList_alter h field _

theorem toList_addAll (h : graph.WellFormed) (fields : List Nat) :
    (fields.foldl Graph.add graph).toList = (graph.toList ++ fields).eraseDups := by
  induction fields generalizing graph with
  | nil =>
    rw [List.append_nil]
    exact (FirstMention.eraseDups_eq_self h.fields_nodup).symm
  | cons field fields ih =>
    rw [List.foldl_cons, ih (h.add field), Graph.add, toList_insertEntry h,
      FirstMention.eraseDups_eraseDups_append, List.append_assoc, List.singleton_append]

omit [Catalog κ] in
theorem toList_erase (graph : Graph κ) (field : Nat) :
    (node graph.kind (Assoc.erase field graph.entries)).toList =
      graph.toList.filter fun other => !(other == field) := by
  rw [toList, toList, List.filter_map]
  rfl

/-- A union lists the fields of its first part, then what is new in the second one. -/
theorem toList_merge (h : graph.WellFormed) {added : Graph κ} (hadded : added.WellFormed)
    (hkind : added.kind = graph.kind) :
    (graph.merge added).toList = (graph.toList ++ added.toList).eraseDups := by
  simpa only [mentions_nil] using mentions_merge h hadded hkind []

omit [Catalog κ] in
theorem toList_normalize (graph : Graph κ) : graph.normalize.toList = graph.toList := by
  simpa only [mentions_nil] using mentions_normalize graph []

end WellFormed

/-! ## One step -/

section OneStep

variable [DecidableEq κ] [Catalog κ] {builder result : Builder κ} {step : Step κ}

structure Follows (before after : Graph κ) (step : Step κ) : Prop where
  wellFormed : after.WellFormed
  kind_eq : after.kind = before.kind
  paths_eq : after.paths = step.onPaths before.paths
  toList_eq : after.toList = Change.apply before.toList step.onFields

omit [DecidableEq κ] in
theorem Follows.addAll {graph : Graph κ} (h : graph.WellFormed) (fields : List Nat) :
    Follows graph (fields.foldl Graph.add graph) (.addAll fields) where
  wellFormed := h.addAll fields
  kind_eq := by
    induction fields generalizing graph with
    | nil => rfl
    | cons field fields ih => exact ih (h.add field)
  paths_eq := paths_addAll graph fields
  toList_eq := (toList_addAll h fields).trans (Change.apply_insert _ fields).symm

omit [DecidableEq κ] in
/-- Uniting a builder with a graph has the effect that the step is said to have. -/
theorem Follows.merge {graph added : Graph κ} (h : graph.WellFormed) (hadded : added.WellFormed)
    (hkind : added.kind = graph.kind) : Follows graph (graph.merge added) (.merge added) where
  wellFormed := h.merge hadded hkind
  kind_eq := by cases added; rfl
  paths_eq := paths_merge graph added
  toList_eq := (toList_merge h hadded hkind).trans (Change.apply_insert _ added.toList).symm

/-- The step lemma: both readings of every step that succeeds. -/
theorem follows_of_perform (h : builder.graph.WellFormed)
    (hstep : step.Sensible builder.graph.kind) (hresult : builder.perform step = .ok result) :
    Follows builder.graph result.graph step := by
  cases step with
  | empty =>
    cases hresult
    exact ⟨.none _, rfl, paths_none _, (Change.apply_clear_insert _ List.nodup_nil).symm⟩
  | ofGraph graph =>
    cases hresult
    exact ⟨hstep.1, hstep.2, rfl, (Change.apply_clear_insert _ hstep.1.fields_nodup).symm⟩
  | add field =>
    cases hresult
    refine ⟨h.add field, rfl, ?_, (toList_insertEntry h field _).trans
      (Change.apply_insert _ [field]).symm⟩
    exact (paths_insertEntry _ field _).trans Set.union_singleton
  | addAll fields =>
    cases hresult
    rw [graph_addAll]
    exact .addAll h fields
  | addGraph field subgraph =>
    obtain ⟨hnested, rfl⟩ := addGraph_eq_ok_iff.1 hresult
    refine ⟨h.insertEntry ?_, rfl, paths_insertEntry _ field _,
      (toList_insertEntry h field _).trans (Change.apply_insert _ [field]).symm⟩
    rintro _ ⟨⟩
    exact ⟨hnested, hstep⟩
  | merge graph =>
    cases hresult
    exact .merge h hstep.1 hstep.2
  | mergeBuilt =>
    cases hresult
    have hmerge := Follows.merge h h.normalize (WellFormed.kind_normalize _)
    refine ⟨hmerge.wellFormed, hmerge.kind_eq, ?_, ?_⟩
    · exact hmerge.paths_eq.trans (by rw [Step.onPaths, Step.onPaths, paths_normalize])
    · -- The fields are all there, so none is inserted anew.
      have hfields : builder.graph.toList.Nodup := h.fields_nodup
      refine (toList_merge h h.normalize (WellFormed.kind_normalize _)).trans ?_
      have hnone : builder.graph.toList.removeAll builder.graph.toList = [] :=
        List.filter_eq_nil_iff.2 fun field hfield => by simp [hfield]
      rw [toList_normalize, List.eraseDups_append, hnone, List.eraseDups_nil, List.append_nil,
        FirstMention.eraseDups_eq_self hfields, Step.onFields, Change.apply_nil hfields]
  | remove field =>
    cases hresult
    exact ⟨h.erase field, rfl, paths_erase h field,
      (toList_erase _ field).trans (Change.apply_remove h.fields_nodup field).symm⟩
  | set field subgraph =>
    obtain ⟨hnested, rfl⟩ := set_eq_ok_iff.1 hresult
    have hsubgraph := fun added heq => And.intro (hnested added heq) (hstep added heq)
    exact ⟨h.replace hsubgraph, rfl, paths_replace h hsubgraph,
      (toList_replace h field subgraph).trans (Change.apply_insert _ [field]).symm⟩

/-- A check either passes or fails because kinds differ. -/
private theorem checked_cases (kind actual : κ) (field : Nat) (result : Builder κ) :
    (Catalog.nested? kind field == some actual) = true ∧
        (checkNested kind field actual >>= fun _ => pure result) = .ok result ∨
      (Catalog.nested? kind field == some actual) = false ∧ ∃ error,
        (checkNested kind field actual >>= fun _ => pure result) = .error error ∧
          error.is .typeMismatch = true := by
  rw [beq_iff_eq, beq_eq_false_iff_ne]
  cases hcheck : checkNested kind field actual with
  | ok => exact .inl ⟨checkNested_eq_ok_iff.1 hcheck, rfl⟩
  | error error =>
    refine .inr ⟨fun hnested => ?_, error, rfl, typeMismatch_of_checkNested hcheck⟩
    rw [checkNested_eq_ok_iff.2 hnested] at hcheck
    cases hcheck

/-- A step either fits and succeeds, or fails because kinds differ. -/
theorem perform_cases (builder : Builder κ) (step : Step κ) :
    step.fits builder.graph.kind = true ∧ (∃ result, builder.perform step = .ok result) ∨
      step.fits builder.graph.kind = false ∧
        ∃ error, builder.perform step = .error error ∧ error.is .typeMismatch = true := by
  cases step with
  | addGraph field subgraph =>
    exact (checked_cases _ _ field _).imp_left fun h => ⟨h.1, _, h.2⟩
  | set field subgraph =>
    cases subgraph with
    | none => exact .inl ⟨rfl, _, rfl⟩
    | some subgraph => exact (checked_cases _ _ field _).imp_left fun h => ⟨h.1, _, h.2⟩
  | _ => exact .inl ⟨rfl, _, rfl⟩

/-- A step that fails leaves the builder as it is. -/
theorem next_of_not_fits (h : step.fits builder.graph.kind = false) :
    builder.next step = builder := by
  rcases perform_cases builder step with ⟨hfits, -⟩ | ⟨-, error, herror, -⟩
  · rw [h] at hfits
    cases hfits
  · rw [next, herror]

/-- A step does not fit if it attaches a subgraph of another kind than the field declares. -/
theorem Step.fits_eq_false_iff {kind : κ} :
    step.fits kind = false ↔ ∃ field subgraph, step.attaches? = some (field, subgraph) ∧
      Catalog.nested? kind field ≠ some subgraph.kind := by
  rw [fits]
  cases hattaches : step.attaches? with
  | none => exact iff_of_false nofun nofun
  | some attached =>
    rw [Option.all_some, beq_eq_false_iff_ne]
    constructor
    · exact fun hne => ⟨attached.1, attached.2, rfl, hne⟩
    · rintro ⟨field, subgraph, ⟨⟩, hne⟩
      exact hne

end OneStep

/-! ## Any number of steps -/

section Run

variable [DecidableEq κ] [Catalog κ] {kind : κ} {steps : List (Step κ)}

structure Reads (kind : κ) (steps : List (Step κ)) (graph : Graph κ) : Prop where
  wellFormed : graph.WellFormed
  kind_eq : graph.kind = kind
  paths_eq : graph.paths = steps.foldl (Step.paths kind) ∅
  toList_eq : graph.toList = (Change.lasting (steps.flatMap (Step.changes kind))).eraseDups

/-- What a builder holds can still be read off the steps after one more, whether or not it
succeeds. -/
theorem Reads.next {builder : Builder κ} (h : Reads kind steps builder.graph) {step : Step κ}
    (hstep : step.Sensible kind) : Reads kind (steps ++ [step]) (builder.next step).graph := by
  have hkind := h.kind_eq
  subst hkind
  rcases perform_cases builder step with ⟨hfits, result, hresult⟩ | ⟨hfits, -⟩
  · have hfollows := follows_of_perform h.wellFormed hstep hresult
    rw [next, hresult]
    refine ⟨hfollows.wellFormed, hfollows.kind_eq, ?_, ?_⟩
    · rw [List.foldl_append, List.foldl_cons, List.foldl_nil, Step.paths, if_pos hfits,
        ← h.paths_eq]
      exact hfollows.paths_eq
    · rw [List.flatMap_append, List.flatMap_singleton, Change.eraseDups_lasting_append,
        ← h.toList_eq, Step.changes, if_pos hfits]
      exact hfollows.toList_eq
  · rw [next_of_not_fits hfits]
    refine ⟨h.wellFormed, rfl, ?_, ?_⟩
    · rw [List.foldl_append, List.foldl_cons, List.foldl_nil, Step.paths, hfits,
        if_neg Bool.false_ne_true, ← h.paths_eq]
    · rw [List.flatMap_append, List.flatMap_singleton, Step.changes, hfits,
        if_neg Bool.false_ne_true, List.append_nil, ← h.toList_eq]

/-- What a new builder holds after any steps can be read off them. -/
theorem reads_after (hsteps : ∀ step ∈ steps, step.Sensible kind) :
    Reads kind steps (after kind steps).graph := by
  induction steps using List.reverseRecOn with
  | nil => exact ⟨.none kind, rfl, paths_none kind, rfl⟩
  | append_singleton steps step ih =>
    rw [after, List.foldl_append, List.foldl_cons, List.foldl_nil]
    exact (ih fun other hother => hsteps other (List.mem_append_left _ hother)).next
      (hsteps step (by simp))

/-- After any steps, a builder gives the graph whose paths and whose order are read off the steps.
A further step fails if and only if it attaches a subgraph over a kind that the field does not
declare; the error says so, and the builder stays as it is. -/
theorem build_after (hsteps : ∀ step ∈ steps, step.Sensible kind) :
    (after kind steps).build.paths = steps.foldl (Step.paths kind) ∅ ∧
    (after kind steps).build.toList =
      (Change.lasting (steps.flatMap (Step.changes kind))).eraseDups ∧
    ∀ step : Step κ,
      ((∃ error, (after kind steps).perform step = .error error ∧
          error.is .typeMismatch = true) ↔
        ∃ field subgraph, step.attaches? = some (field, subgraph) ∧
          Catalog.nested? kind field ≠ some subgraph.kind) ∧
      ∀ error, (after kind steps).perform step = .error error →
        error.is .typeMismatch = true ∧ after kind (steps ++ [step]) = after kind steps := by
  obtain ⟨-, hkind, hpaths, hfields⟩ := reads_after hsteps
  refine ⟨(paths_normalize _).trans hpaths, (toList_normalize _).trans hfields, fun step => ?_⟩
  have hlast : after kind (steps ++ [step]) = (after kind steps).next step := by
    rw [after, List.foldl_append, List.foldl_cons, List.foldl_nil, ← after]
  have hcases := perform_cases (after kind steps) step
  rw [hkind] at hcases
  rw [← Step.fits_eq_false_iff, hlast]
  rcases hcases with ⟨hfits, result, hresult⟩ | ⟨hfits, error, herror, his⟩
  · rw [hresult, hfits]
    exact ⟨iff_of_false nofun nofun, nofun⟩
  · refine ⟨iff_of_true ⟨error, herror, his⟩ hfits, fun other hother => ?_⟩
    rw [herror] at hother
    cases hother
    exact ⟨his, next_of_not_fits (hkind.symm ▸ hfits)⟩

open Harbor (Kind)

/-- Steps in which the name is removed and comes back behind the boat, whose fields are replaced in
place; a marina does not fit under the boat, and an empty subgraph lingers until the end. -/
def refit : List (Step Kind) :=
  [.ofGraph nameFirst, .set 3 (some (ofList .boat [2])), .remove 1, .addGraph 3 (all .marina),
    .addGraph 3 (Graph.none .boat), .mergeBuilt, .add 1, .merge boatFirst]

theorem build_after_refit :
    (∀ step ∈ refit, step.Sensible Kind.person) ∧
    (after .person refit).build.paths = refit.foldl (Step.paths .person) ∅ ∧
    (after .person refit).build.toList = [3, 1] ∧
    ∃ error, (after .person refit).perform (.addGraph 3 (all .marina)) = .error error ∧
      error.is .typeMismatch = true := by
  have hname := made_nameFirst.finished
  have hboat := made_boatFirst.finished
  have hsteps : ∀ step ∈ refit, step.Sensible Kind.person := by
    simp only [refit, List.forall_mem_cons, Step.Sensible]
    refine ⟨⟨hname.wellFormed, rfl⟩, ?_, trivial, (Made.all _).finished.wellFormed, .none _,
      trivial, trivial, ⟨hboat.wellFormed, rfl⟩, nofun⟩
    rintro _ ⟨⟩
    exact (Made.ofList (by decide)).finished.wellFormed
  obtain ⟨hpaths, hfields, hfails⟩ := build_after hsteps
  exact ⟨hsteps, hpaths, hfields.trans (by decide),
    (hfails (.addGraph 3 (all .marina))).1.2 ⟨3, all .marina, rfl, by decide⟩⟩

end Run

end PartialEntity.Graph.Builder
