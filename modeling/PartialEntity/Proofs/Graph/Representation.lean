import PartialEntity.Proofs.Entity.Answer
import PartialEntity.Proofs.Entity.Gap
import PartialEntity.Proofs.Graph.Steps

/-!
# The representation of graphs

Nothing in the representation of a graph keeps a level from repeating a field, from listing an
ordinal that its kind does not have, or from attaching an empty subgraph or one over the wrong kind.
Graphs that are obtained by any combination of factories, texts, documents, builder steps, subgraphs
and missing graphs have no such level, however deep.

Each of these ways gives a finished graph if it is given finished graphs, and a finished graph has
finished graphs attached.  At every level the text is therefore made of names of fields only, no
field is lost when the ordinals are read as fields, and a subgraph that is there selects something.
-/

namespace PartialEntity.Graph

variable {κ : Type}

/-! ## Levels -/

/-- What holds of a graph and of all that is attached in it, at every depth. -/
inductive Throughout (P : Graph κ → Prop) : Graph κ → Prop
  | node {kind : κ} {entries : List (Nat × Option (Graph κ))} (hlevel : P (node kind entries))
      (hattached : ∀ field subgraph, (field, some subgraph) ∈ entries → Throughout P subgraph) :
      Throughout P (node kind entries)

namespace Throughout

variable {P Q : Graph κ → Prop} {graph : Graph κ}

theorem level (h : graph.Throughout P) : P graph := by
  cases h
  assumption

theorem attached (h : graph.Throughout P) {field : Nat} {subgraph : Graph κ}
    (hentry : (field, some subgraph) ∈ graph.entries) : subgraph.Throughout P := by
  cases h with
  | node _ hattached => exact hattached field subgraph hentry

/-- What follows from a property that attached graphs inherit holds throughout. -/
theorem of_inherited (himp : ∀ graph, P graph → Q graph)
    (hinherited : ∀ graph field subgraph, P graph → (field, some subgraph) ∈ graph.entries →
      P subgraph)
    (h : P graph) : graph.Throughout Q := by
  induction graph using Graph.induction with
  | node kind entries ih =>
    exact .node (himp _ h) fun field subgraph hentry =>
      ih field subgraph hentry (hinherited _ field subgraph h hentry)

end Throughout

variable [Catalog κ]

/-- What a level has to be like for the graph to mean something: each field stands there once and
exists, and what is attached to a field selects something of the kind that the field declares. -/
structure Represented (graph : Graph κ) : Prop where
  nodup : graph.toList.Nodup
  has : ∀ field ∈ graph.toList, Catalog.Has graph.kind field
  attached : ∀ field subgraph, (field, some subgraph) ∈ graph.entries →
    subgraph.isEmpty = false ∧ Catalog.nested? graph.kind field = some subgraph.kind

theorem Finished.represented {graph : Graph κ} (h : graph.Finished) : graph.Represented where
  nodup := h.wellFormed.fields_nodup
  has := by
    intro field hfield
    obtain ⟨entry, hentry, rfl⟩ := List.mem_map.1 hfield
    exact h.has hentry
  attached := fun _ _ hentry => ⟨h.normal.nonempty hentry, h.wellFormed.declared hentry⟩

/-! ## The fields of a level -/

def ofOrdinal? (kind : κ) (ordinal : Nat) : Option Nat :=
  if Catalog.Has kind ordinal then some ordinal else .none

/-- The fields of the top level, in order, as they are handed out; ordinals that the kind does not
have are passed over. -/
def tags (graph : Graph κ) : List Nat :=
  graph.toList.filterMap (ofOrdinal? graph.kind)

/-- No ordinal of a represented graph is passed over. -/
theorem Represented.tags_eq {graph : Graph κ} (h : graph.Represented) :
    graph.tags = graph.toList := by
  have hsome : ∀ field ∈ graph.toList, ofOrdinal? graph.kind field = some field :=
    fun field hfield => if_pos (h.has field hfield)
  calc graph.tags
    _ = graph.toList.filterMap some := List.filterMap_congr hsome
    _ = graph.toList := List.filterMap_some

theorem Represented.length_tags {graph : Graph κ} (h : graph.Represented) :
    graph.tags.length = graph.size := by
  rw [h.tags_eq, toList, List.length_map, size]

/-- Whatever is attached in a represented graph selects something. -/
theorem Represented.hasSubgraph_iff {graph : Graph κ} (h : graph.Represented) {field : Nat} :
    graph.hasSubgraph field = true ↔ ∃ subgraph, graph.attached? field = some subgraph := by
  rw [hasSubgraph, Option.any_eq_true]
  constructor
  · rintro ⟨subgraph, hattached, -⟩
    exact ⟨subgraph, hattached⟩
  · rintro ⟨subgraph, hattached⟩
    have hentry := Assoc.mem_of_find? (Option.join_eq_some_iff.1 hattached)
    refine ⟨subgraph, hattached, ?_⟩
    rw [(h.attached field subgraph hentry).1, Bool.not_false]

/-! ## Texts -/

/-- The name of a field, with a text of one's choice for ordinals that the kind does not have. -/
def nameOr (placeholder : String) (kind : κ) (ordinal : Nat) : String :=
  ((Catalog.field? kind ordinal).map (·.name)).getD placeholder

/-- The placeholder is never used for a field that exists. -/
theorem nameOr_eq_fieldName {kind : κ} {field : Nat} (h : Catalog.Has kind field)
    (placeholder : String) : nameOr placeholder kind field = Catalog.fieldName kind field := by
  rw [nameOr, Catalog.fieldName, Catalog.field?, List.getElem?_eq_getElem h]
  rfl

mutual

/-- The text of a graph, with a text of one's choice in the place of names that do not exist. -/
def renderOr (placeholder : String) : Graph κ → String
  | node kind entries => ",".intercalate (renderEntriesOr placeholder kind entries)

def renderEntriesOr (placeholder : String) (kind : κ) :
    List (Nat × Option (Graph κ)) → List String
  | [] => []
  | (field, subgraph) :: rest =>
    (nameOr placeholder kind field ++ renderAttachedOr placeholder subgraph) ::
      renderEntriesOr placeholder kind rest

def renderAttachedOr (placeholder : String) : Option (Graph κ) → String
  | .none => ""
  | some subgraph =>
    if subgraph.isEmpty then "" else "\x7b" ++ renderOr placeholder subgraph ++ "\x7d"

end

private theorem renderEntriesOr_eq {placeholder : String} {kind : κ}
    {entries : List (Nat × Option (Graph κ))}
    (hname : ∀ entry ∈ entries, nameOr placeholder kind entry.1 = Catalog.fieldName kind entry.1)
    (hattached : ∀ field subgraph, (field, some subgraph) ∈ entries →
      subgraph.renderOr placeholder = subgraph.render) :
    renderEntriesOr placeholder kind entries = renderEntries kind entries := by
  induction entries with
  | nil => rfl
  | cons entry entries ih =>
    obtain ⟨field, subgraph⟩ := entry
    have hrest := ih (fun other hother => hname other (List.mem_cons_of_mem _ hother))
      fun other inner hentry => hattached other inner (List.mem_cons_of_mem _ hentry)
    have hbraces : renderAttachedOr placeholder subgraph = renderAttached subgraph := by
      cases subgraph with
      | none => rfl
      | some inner =>
        rw [renderAttachedOr, renderAttached, hattached field inner (List.mem_cons_self ..)]
    rw [renderEntriesOr, renderEntries, hname _ (List.mem_cons_self ..), hbraces, hrest]

/-- The text of a graph is the one with a question mark for names that do not exist. -/
theorem renderOr_questionMark (graph : Graph κ) : graph.renderOr "?" = graph.render := by
  induction graph using Graph.induction with
  | node kind entries ih =>
    rw [renderOr, render, renderEntriesOr_eq (fun _ _ => rfl) ih]

/-- Where all levels are sound, nothing stands for a missing name: any other placeholder gives the
same text. -/
theorem Throughout.renderOr_eq {graph : Graph κ} (h : graph.Throughout Represented)
    (placeholder : String) : graph.renderOr placeholder = graph.render := by
  induction graph using Graph.induction with
  | node kind entries ih =>
    rw [renderOr, render, renderEntriesOr_eq (fun entry hentry => ?_)
      fun field subgraph hentry => ih field subgraph hentry (h.attached hentry)]
    exact nameOr_eq_fieldName (h.level.has _ (List.mem_map_of_mem hentry)) placeholder

/-! ## Ways to obtain a graph -/

namespace Builder

def Step.graph? : Step κ → Option (Graph κ)
  | ofGraph graph => some graph
  | addGraph _ subgraph => some subgraph
  | merge graph => some graph
  | set _ subgraph => subgraph
  | _ => .none

/-- Whether a step can be asked of a builder over a kind: its fields are fields of the kind, and so
are those of a graph that takes the builder's place or is united with it. -/
def Step.Admissible (kind : κ) : Step κ → Prop
  | ofGraph graph => graph.kind = kind
  | add field => Catalog.Has kind field
  | addAll fields => ∀ field ∈ fields, Catalog.Has kind field
  | merge graph => graph.kind = kind
  | set field _ => Catalog.Has kind field
  | _ => True

variable [DecidableEq κ] {builder result : Builder κ} {step : Step κ}

/-- The step lemma: a step keeps the builder over its kind and what it holds proper. -/
theorem proper_of_perform (h : builder.graph.Proper) (hstep : step.Admissible builder.graph.kind)
    (hgraph : ∀ graph, step.graph? = some graph → graph.Proper)
    (hresult : builder.perform step = .ok result) :
    result.graph.Proper ∧ result.graph.kind = builder.graph.kind := by
  cases step with
  | empty =>
    cases hresult
    exact ⟨.none _, rfl⟩
  | ofGraph graph =>
    cases hresult
    exact ⟨hgraph graph rfl, hstep⟩
  | add field =>
    cases hresult
    exact ⟨h.add hstep, rfl⟩
  | addAll fields =>
    cases hresult
    rw [graph_addAll]
    exact ⟨h.addAll hstep, (Follows.addAll h.wellFormed fields).kind_eq⟩
  | addGraph field subgraph =>
    obtain ⟨hnested, rfl⟩ := addGraph_eq_ok_iff.1 hresult
    refine ⟨h.insertEntry (Catalog.has_of_nested? hnested) ?_, rfl⟩
    rintro _ ⟨⟩
    exact ⟨hnested, hgraph subgraph rfl⟩
  | merge graph =>
    cases hresult
    have hadded := hgraph graph rfl
    exact ⟨h.merge hadded hstep, (Follows.merge h.wellFormed hadded.wellFormed hstep).kind_eq⟩
  | mergeBuilt =>
    cases hresult
    have hkind := WellFormed.kind_normalize builder.graph
    exact ⟨h.merge h.normalize hkind,
      (Follows.merge h.wellFormed h.normalize.wellFormed hkind).kind_eq⟩
  | remove field =>
    cases hresult
    exact ⟨h.erase field, rfl⟩
  | set field subgraph =>
    obtain ⟨hnested, rfl⟩ := set_eq_ok_iff.1 hresult
    exact ⟨h.replace hstep fun added heq => ⟨hnested added heq, hgraph added heq⟩, rfl⟩

/-- A step of a builder keeps the graph proper and its kind, whether or not the step succeeds. -/
theorem proper_next (h : builder.graph.Proper) (hstep : step.Admissible builder.graph.kind)
    (hgraph : ∀ graph, step.graph? = some graph → graph.Proper) :
    (builder.next step).graph.Proper ∧
      (builder.next step).graph.kind = builder.graph.kind := by
  rw [next]
  cases hresult : builder.perform step with
  | ok result => exact proper_of_perform h hstep hgraph hresult
  | error _ => exact ⟨h, rfl⟩

/-- The run lemma: what a builder over a kind holds is proper after any steps. -/
theorem proper_after {kind : κ} {steps : List (Step κ)}
    (hsteps : ∀ step ∈ steps, step.Admissible kind)
    (hgraphs : ∀ step ∈ steps, ∀ graph, step.graph? = some graph → graph.Proper) :
    (after kind steps).graph.Proper ∧ (after kind steps).graph.kind = kind := by
  induction steps using List.reverseRecOn with
  | nil => exact ⟨.none kind, rfl⟩
  | append_singleton steps step ih =>
    simp only [List.forall_mem_append, List.forall_mem_singleton] at hsteps hgraphs
    obtain ⟨hproper, hkind⟩ := ih hsteps.1 hgraphs.1
    have hlast := proper_next hproper (hkind.symm ▸ hsteps.2) hgraphs.2
    rw [after, List.foldl_append, List.foldl_cons, List.foldl_nil, ← after]
    exact ⟨hlast.1, hlast.2.trans hkind⟩

end Builder

variable [DecidableEq κ]

/-- The graphs that can be obtained in any combination of ways: from the factories, by reading a
text or a document, from inside another one, as what an entity lacks of another one, and out of a
builder after any steps, some of which may have failed. -/
inductive Obtained : Graph κ → Prop
  | none (kind : κ) : Obtained (none kind)
  | all (kind : κ) : Obtained (all kind)
  | complementOf (kind : κ) (fields : List Nat) : Obtained (complementOf kind fields)
  | ofList {kind : κ} {fields : List Nat} (hfields : ∀ field ∈ fields, Catalog.Has kind field) :
      Obtained (ofList kind fields)
  | ofSet {kind : κ} {fields : FieldSet}
      (hfields : ∀ field, fields.contains field = true → Catalog.Has kind field) :
      Obtained (ofSet kind fields)
  | parse {kind : κ} {text : String} {graph : Graph κ} (hparse : parse kind text = .ok graph) :
      Obtained graph
  | document {kind : κ} {value : Document} {graph : Graph κ}
      (hdocument : ofDocument kind value = .ok graph) : Obtained graph
  | subgraph {graph inner : Graph κ} {field : Nat} {kind : κ} (hgraph : Obtained graph)
      (hsubgraph : graph.subgraph field kind = .ok inner) : Obtained inner
  | missing {graph missing : Graph κ} {entity : Entity κ} (hgraph : Obtained graph)
      (hkind : graph.kind = entity.kind) (hentity : entity.Throughout Entity.Fits)
      (hmissing : Entity.missingGraph graph entity = .ok missing) : Obtained missing
  | build {kind : κ} {steps : List (Builder.Step κ)}
      (hsteps : ∀ step ∈ steps, step.Admissible kind)
      (hgraphs : ∀ step ∈ steps, ∀ graph, step.graph? = some graph → Obtained graph) :
      Obtained (Builder.after kind steps).build

/-- What an entity lacks of a finished graph is a finished graph. -/
theorem Finished.missing {graph missing : Graph κ} (h : graph.Finished) {entity : Entity κ}
    (hkind : graph.kind = entity.kind) (hentity : entity.Throughout Entity.Fits)
    (hmissing : Entity.missingGraph graph entity = .ok missing) : missing.Finished := by
  have hspec := Entity.missingGraph_spec h.wellFormed hkind hentity hmissing
  have hdeclared : missing.Declared := by
    rw [Declared, hspec.kind, ← hkind]
    exact hspec.forall_path (fun _ _ hpath => hpath.of_append) h.declared
  refine ⟨⟨hspec.wellFormed, hdeclared⟩, ?_⟩
  obtain ⟨kind, entries⟩ := graph
  rw [Entity.missingGraph_eq] at hmissing
  obtain ⟨gap, -, rfl⟩ := Result.map_eq_ok_iff.1 hmissing
  exact normal_normalize gap

/-- However a graph was obtained, it is proper and in normal form. -/
theorem Obtained.finished {graph : Graph κ} (h : graph.Obtained) : graph.Finished := by
  induction h with
  | none kind => exact .none kind
  | all kind => exact (Made.all kind).finished
  | complementOf kind fields => exact (Made.complementOf kind fields).finished
  | ofList hfields => exact .ofList hfields
  | ofSet hfields => exact .ofSet hfields
  | parse hparse => exact .of_parse hparse
  | document hdocument => exact (Made.document hdocument).finished
  | subgraph _ hsubgraph ih =>
    obtain ⟨-, rfl⟩ := subgraph_eq_ok_iff.1 hsubgraph
    cases hattached : Graph.attached? _ _ with
    | none => exact .none _
    | some inner => exact ih.attached (ih.wellFormed.attached?_eq_some_iff.1 hattached)
  | missing _ hkind hentity hmissing ih => exact ih.missing hkind hentity hmissing
  | build hsteps _ ih =>
    have hproper := fun step hstep graph hgraph => (ih step hstep graph hgraph).toProper
    exact .normalize (Builder.proper_after hsteps hproper).1

/-- At every depth of an obtained graph, each field stands once and exists, and what is attached to
a field selects something of the kind that the field declares.  Hence no level shows a placeholder
in its text, each hands out as many fields as it counts, and a field has a subgraph exactly if one
is attached to it. -/
theorem Obtained.throughout_represented {graph : Graph κ} (h : graph.Obtained) :
    graph.Throughout fun level =>
      level.Represented ∧
      (∀ placeholder, level.renderOr placeholder = level.render) ∧
      level.tags.length = level.size ∧
      ∀ field, level.hasSubgraph field = true ↔
        ∃ subgraph, level.attached? field = some subgraph := by
  have hinherited : ∀ (graph : Graph κ) field subgraph, graph.Finished →
      (field, some subgraph) ∈ graph.entries → subgraph.Finished :=
    fun _ _ _ hfinished hentry => hfinished.attached hentry
  refine .of_inherited (fun level hfinished => ?_) hinherited h.finished
  have hlevels : level.Throughout Represented :=
    .of_inherited (fun _ hlevel => hlevel.represented) hinherited hfinished
  exact ⟨hlevels.level, hlevels.renderOr_eq, hlevels.level.length_tags,
    fun _ => hlevels.level.hasSubgraph_iff⟩

section Crew

open Harbor (Kind crewList crewGap annAshore isRecord_annAshore)

def boatCrew : Graph Kind :=
  (Builder.after .boat [.add 1, .addGraph 4 (ofList .person [1])]).build

theorem obtained_boatCrew : boatCrew.Obtained := by
  refine .build ?_ ?_ <;> simp only [List.forall_mem_cons, Builder.Step.graph?]
  · exact ⟨(by decide : Catalog.Has Kind.boat 1), trivial, nofun⟩
  · refine ⟨nofun, ?_, nofun⟩
    rintro _ ⟨⟩
    exact .ofList (by decide)

theorem obtained_crewList : crewList.Obtained := by
  have hbuilt : crewList = (Builder.after .person [.add 2, .addGraph 3 boatCrew]).build := rfl
  rw [hbuilt]
  refine .build ?_ ?_ <;> simp only [List.forall_mem_cons, Builder.Step.graph?]
  · exact ⟨(by decide : Catalog.Has Kind.person 2), trivial, nofun⟩
  · refine ⟨nofun, ?_, nofun⟩
    rintro _ ⟨⟩
    exact obtained_boatCrew

theorem obtained_crewGap : crewGap.Obtained := by
  have hmissing : Entity.missingGraph crewList annAshore = .ok crewGap := rfl
  exact .missing obtained_crewList rfl
    (isRecord_annAshore.lawful.sound.mono fun _ h => h.toFits) hmissing

/-- Steps on what Ann lacks of the crew list.  A marina does not fit under the boat, and the empty
subgraph under it leaves no trace. -/
def crewSteps : List (Builder.Step Kind) :=
  [.ofGraph crewGap, .addGraph 3 (all .marina), .addGraph 3 (ofList .boat [2]), .set 1 .none,
    .addGraph 3 (Graph.none .boat)]

/-- What the steps leave is written without placeholders, and only the boat has something
attached. -/
theorem throughout_represented_crewSteps :
    let built := (Builder.after .person crewSteps).build
    built.Obtained ∧ built.Represented ∧
      (∀ placeholder, built.renderOr placeholder = "email,boat{crew{name},type},name") ∧
      built.tags = [2, 3, 1] ∧ built.tags.length = built.size ∧
      (∃ subgraph, built.attached? 3 = some subgraph) ∧
      ¬∃ subgraph, built.attached? 1 = some subgraph := by
  have hbuilt : (Builder.after .person crewSteps).build.Obtained := by
    refine .build ?_ ?_ <;> simp only [crewSteps, List.forall_mem_cons, Builder.Step.graph?]
    · exact ⟨rfl, trivial, trivial, (by decide : Catalog.Has Kind.person 1), trivial, nofun⟩
    · refine ⟨?_, ?_, ?_, nofun, ?_, nofun⟩ <;> rintro _ ⟨⟩
      · exact obtained_crewGap
      · exact .all _
      · exact .ofList (by decide)
      · exact .none _
  obtain ⟨hrepresented, hrender, hlength, hsubgraph⟩ := hbuilt.throughout_represented.level
  exact ⟨hbuilt, hrepresented, fun placeholder => (hrender placeholder).trans (by decide), rfl,
    hlength, (hsubgraph 3).1 rfl, fun h => Bool.false_ne_true ((hsubgraph 1).2 h)⟩

end Crew

end PartialEntity.Graph
