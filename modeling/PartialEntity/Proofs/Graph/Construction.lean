import PartialEntity.Graph.Document
import PartialEntity.Proofs.Graph.Grammar

/-!
# How graphs come about

Graphs come from factories, from texts and documents, from inside other graphs and out of builders,
and builders take graphs in again.  Whatever way a graph came about, it is well formed, selects only
fields that exist, and has nothing empty attached to a field; a builder may still hold something
empty.
-/

namespace PartialEntity

namespace Catalog

variable {κ : Type} [Catalog κ]

def Has (kind : κ) (field : Nat) : Prop :=
  field < size kind

instance (kind : κ) (field : Nat) : Decidable (Has kind field) :=
  inferInstanceAs (Decidable (field < size kind))

theorem has_of_nested? {kind inner : κ} {field : Nat} (h : nested? kind field = some inner) :
    Has kind field := by
  obtain ⟨info, hinfo, -⟩ := Option.bind_eq_some_iff.1 h
  exact (List.getElem?_eq_some_iff.1 hinfo).1

theorem has_of_position? {kind : κ} {name : String} {field : Nat}
    (h : position? kind name = some field) : Has kind field :=
  (List.findIdx?_eq_some_iff_getElem.1 h).1

theorem fieldName_of_position? {kind : κ} {name : String} {field : Nat}
    (h : position? kind name = some field) : fieldName kind field = name := by
  obtain ⟨hfield, hname, -⟩ := List.findIdx?_eq_some_iff_getElem.1 h
  rw [fieldName, field?, List.getElem?_eq_getElem hfield]
  simpa using hname

end Catalog

namespace FieldSet

variable {κ : Type} [Catalog κ] {kind : κ} {fields : List Nat} {field : Nat}

theorem has_of_contains_all (h : (all kind).contains field = true) : Catalog.Has kind field := by
  rw [all, contains_ofList, decide_eq_true_iff, List.mem_range] at h
  exact h

/-- Erasing fields brings none in. -/
theorem contains_of_foldl_erase {set : FieldSet}
    (h : (fields.foldl erase set).contains field = true) : set.contains field = true := by
  induction fields generalizing set with
  | nil => exact h
  | cons first rest ih =>
    have hrest := ih h
    rw [erase, contains_diff, Bool.and_eq_true] at hrest
    exact hrest.1

theorem has_of_contains_complementOf (h : (complementOf kind fields).contains field = true) :
    Catalog.Has kind field :=
  has_of_contains_all (contains_of_foldl_erase h)

end FieldSet

namespace Graph

variable {κ : Type} [Catalog κ]

/-! ## Fields that exist -/

def Declared (graph : Graph κ) : Prop :=
  ∀ path, graph.selects path = true → Catalog.OnPath Catalog.Has graph.kind path

/-- What holds of a graph and of what a builder holds, after any steps: the levels are well formed
and have only fields that exist. -/
structure Proper (graph : Graph κ) : Prop where
  wellFormed : graph.WellFormed
  declared : graph.Declared

/-- What holds moreover of every graph: nothing empty is attached to a field. -/
structure Finished (graph : Graph κ) : Prop extends graph.Proper where
  normal : graph.Normal

variable {graph next added : Graph κ} {field : Nat}

/-- What selects less than a graph whose fields exist has only fields that exist. -/
theorem Declared.of_selects (h : graph.Declared) (hkind : next.kind = graph.kind)
    (hselects : ∀ path, next.selects path = true → graph.selects path = true) :
    next.Declared := by
  intro path hpath
  rw [hkind]
  exact h path (hselects path hpath)

/-- Only fields that exist are selected after a step that changes one field. -/
theorem Declared.of_selects_or (h : graph.Declared) (hkind : next.kind = graph.kind)
    (hfield : Catalog.Has graph.kind field) {subgraph : Option (Graph κ)}
    (hsubgraph : ∀ added, subgraph = some added →
      Catalog.nested? graph.kind field = some added.kind ∧ added.Proper)
    (hselects : ∀ other rest, next.selects (other :: rest) = true →
      graph.selects (other :: rest) = true ∨
        other = field ∧ attachedSelects subgraph rest = true) : next.Declared := by
  intro path hpath
  rw [hkind]
  cases path with
  | nil => trivial
  | cons other rest =>
    rcases hselects other rest hpath with hold | ⟨rfl, hrest⟩
    · exact h _ hold
    refine ⟨hfield, fun member hmember => ?_⟩
    cases subgraph with
    | none =>
      rw [attachedSelects_none_iff.1 hrest]
      trivial
    | some added =>
      obtain ⟨hnested, hadded⟩ := hsubgraph added rfl
      obtain rfl : added.kind = member := Option.some.inj (hnested.symm.trans hmember)
      rcases attachedSelects_some_iff.1 hrest with rfl | hrest
      · trivial
      · exact hadded.declared rest hrest

namespace Proper

theorem none (kind : κ) : (Graph.none kind).Proper :=
  ⟨.none kind, fun path hpath => absurd hpath (by simp)⟩

theorem attached (h : graph.Proper) {subgraph : Graph κ}
    (hentry : (field, some subgraph) ∈ graph.entries) : subgraph.Proper :=
  ⟨h.wellFormed.attached hentry, fun _ hpath =>
    (h.declared _ (selects_of_attached hentry hpath)).2 _ (h.wellFormed.declared hentry)⟩

/-- Whatever stands at the top level is a field of the kind. -/
theorem has (h : graph.Proper) {entry : Nat × Option (Graph κ)} (hentry : entry ∈ graph.entries) :
    Catalog.Has graph.kind entry.1 :=
  (h.declared _ (selects_singleton_iff.2 (List.mem_map_of_mem hentry))).1

/-! ## One lemma for each kind of step -/

/-- Selecting a field that exists keeps a graph proper, provided that what comes under it is proper
and over the kind that the field declares. -/
theorem insertEntry (h : graph.Proper) (hfield : Catalog.Has graph.kind field)
    {subgraph : Option (Graph κ)}
    (hsubgraph : ∀ added, subgraph = some added →
      Catalog.nested? graph.kind field = some added.kind ∧ added.Proper) :
    (graph.insertEntry field subgraph).Proper where
  wellFormed := h.wellFormed.insertEntry fun added heq =>
    (hsubgraph added heq).imp_right Proper.wellFormed
  declared := h.declared.of_selects_or rfl hfield hsubgraph fun _ _ => selects_insertEntry_iff.1

theorem add (h : graph.Proper) (hfield : Catalog.Has graph.kind field) : (graph.add field).Proper :=
  h.insertEntry hfield nofun

theorem addAll (h : graph.Proper) {fields : List Nat}
    (hfields : ∀ field ∈ fields, Catalog.Has graph.kind field) :
    (fields.foldl Graph.add graph).Proper := by
  induction fields generalizing graph with
  | nil => exact h
  | cons field fields ih =>
    exact ih (h.add (hfields field (List.mem_cons_self ..))) fun other hother =>
      hfields other (List.mem_cons_of_mem _ hother)

/-- Replacing what is under a field keeps a graph proper under the same conditions. -/
theorem replace (h : graph.Proper) (hfield : Catalog.Has graph.kind field)
    {subgraph : Option (Graph κ)}
    (hsubgraph : ∀ added, subgraph = some added →
      Catalog.nested? graph.kind field = some added.kind ∧ added.Proper) :
    (node graph.kind (Assoc.insert field subgraph graph.entries)).Proper where
  wellFormed := h.wellFormed.replace fun added heq =>
    (hsubgraph added heq).imp_right Proper.wellFormed
  declared := by
    refine h.declared.of_selects_or rfl hfield hsubgraph fun other rest hpath => ?_
    obtain ⟨attached, hentry, hrest⟩ := selects_cons_iff.1 hpath
    rcases Assoc.mem_alter hentry with hentry | heq
    · exact .inl (selects_cons_iff.2 ⟨attached, hentry, hrest⟩)
    · obtain ⟨rfl, rfl⟩ := Prod.mk.inj heq
      exact .inr ⟨rfl, hrest⟩

/-- Taking a field away keeps a graph proper. -/
theorem erase (h : graph.Proper) (field : Nat) :
    (node graph.kind (Assoc.erase field graph.entries)).Proper where
  wellFormed := h.wellFormed.erase field
  declared := by
    refine h.declared.of_selects rfl fun path hpath => ?_
    cases path with
    | nil => rw [selects_nil] at hpath; cases hpath
    | cons other rest =>
      obtain ⟨attached, hentry, hrest⟩ := selects_cons_iff.1 hpath
      exact selects_cons_iff.2 ⟨attached, (List.mem_filter.1 hentry).1, hrest⟩

/-- The union of proper graphs over one kind is proper. -/
theorem merge (h : graph.Proper) (hadded : added.Proper) (hkind : added.kind = graph.kind) :
    (graph.merge added).Proper where
  wellFormed := h.wellFormed.merge hadded.wellFormed hkind
  declared := by
    intro path hpath
    have hsame : (graph.merge added).kind = graph.kind := by cases added; rfl
    rw [selects_merge, Selection.sup_apply, Bool.or_eq_true] at hpath
    rw [hsame]
    exact hpath.elim (h.declared path) fun hpath => hkind ▸ hadded.declared path hpath

theorem normalize (h : graph.Proper) : graph.normalize.Proper where
  wellFormed := h.wellFormed.normalize
  declared := h.declared.of_selects (WellFormed.kind_normalize graph) fun path hpath => by
    rwa [selects_normalize] at hpath

end Proper

/-! ## Texts -/

theorem Declared.cons_entry {kind : κ} {entry : Nat × Option (Graph κ)}
    {entries : List (Nat × Option (Graph κ))} (h : (node kind entries).Declared)
    (hentry : ∀ rest, attachedSelects entry.2 rest = true →
      Catalog.OnPath Catalog.Has kind (entry.1 :: rest)) :
    (node kind (entry :: entries)).Declared := by
  intro path hpath
  cases path with
  | nil => trivial
  | cons field rest =>
    rcases selects_cons_entry.1 hpath with ⟨rfl, hrest⟩ | hpath
    · exact hentry rest hrest
    · exact h _ hpath

mutual

/-- Whatever is written over a kind names only fields that exist. -/
theorem Written.declared {kind : κ} {text : List Char} {entries : List (Nat × Option (Graph κ))}
    (h : Written kind text entries) : (node kind entries).Declared := by
  cases h with
  | single hitem => exact (Proper.none kind).declared.cons_entry hitem.declared
  | comma hitem hmore => exact hmore.declared.cons_entry hitem.declared

theorem WrittenItem.declared {kind : κ} {text : List Char} {entry : Nat × Option (Graph κ)}
    (hitem : WrittenItem kind text entry) (rest : List Nat)
    (hrest : attachedSelects entry.2 rest = true) :
    Catalog.OnPath Catalog.Has kind (entry.1 :: rest) := by
  cases hitem with
  | bare _ hfield =>
    rw [attachedSelects_none_iff.1 hrest]
    exact ⟨Catalog.has_of_position? hfield, fun _ _ => trivial⟩
  | braced _ hfield hnested hinside =>
    refine ⟨Catalog.has_of_position? hfield, fun member hmember => ?_⟩
    obtain rfl := Option.some.inj (hnested.symm.trans hmember)
    rcases attachedSelects_some_iff.1 hrest with rfl | hrest
    · trivial
    · exact hinside.declared rest hrest

end

/-! ## Finished graphs -/

namespace Finished

theorem none (kind : κ) : (Graph.none kind).Finished :=
  ⟨.none kind, .of_attached fun _ _ hentry => absurd hentry List.not_mem_nil⟩

theorem normalize (h : graph.Proper) : graph.normalize.Finished :=
  ⟨h.normalize, normal_normalize graph⟩

theorem attached (h : graph.Finished) {subgraph : Graph κ}
    (hentry : (field, some subgraph) ∈ graph.entries) : subgraph.Finished :=
  ⟨h.toProper.attached hentry, h.normal.attached hentry⟩

/-- Whatever is read off a text is finished. -/
theorem of_parse {kind : κ} {text : String} (h : parse kind text = .ok graph) :
    graph.Finished := by
  cases hblank : Text.isBlank text.toList with
  | true =>
    rw [parse_of_isBlank kind hblank] at h
    cases h
    exact none kind
  | false =>
    obtain ⟨entries, hwritten, -⟩ := (parse_eq_ok_iff hblank).1 h
    obtain ⟨other, hparse, hkind, hwell, hnormal, hlevels⟩ := hwritten.levels_of_parse
    obtain rfl : other = graph := Except.ok.inj (hparse.symm.trans h)
    refine ⟨⟨hwell, hwritten.declared.of_selects hkind fun path hpath => ?_⟩, hnormal⟩
    rwa [← selects_eq_of_mentions fun path field => by rw [hlevels, List.mem_eraseDups]]

variable [DecidableEq κ] {kind : κ}

theorem ofList {fields : List Nat} (hfields : ∀ field ∈ fields, Catalog.Has kind field) :
    (Graph.ofList kind fields).Finished :=
  ⟨(Proper.none kind).addAll hfields,
    .of_attached fun _ _ hentry => WellFormed.attached_ofList hentry⟩

theorem ofSet {fields : FieldSet}
    (hfields : ∀ field, fields.contains field = true → Catalog.Has kind field) :
    (Graph.ofSet kind fields).Finished :=
  ofList fun field hfield => hfields field (FieldSet.mem_toList.1 hfield)

end Finished

section Steps

variable [DecidableEq κ]

/-! ## What steps give -/

/-- A step behind the check of a nested kind succeeds exactly when the field declares that kind. -/
theorem checkNested_bind_eq_ok_iff {α : Type} {kind actual : κ} {value result : α} :
    (checkNested kind field actual >>= fun _ => pure value) = .ok result ↔
      Catalog.nested? kind field = some actual ∧ result = value := by
  rw [Result.bind_eq_ok_iff]
  constructor
  · rintro ⟨⟨⟩, hcheck, hresult⟩
    exact ⟨checkNested_eq_ok_iff.1 hcheck, (Except.ok.inj hresult).symm⟩
  · rintro ⟨hnested, rfl⟩
    exact ⟨(), checkNested_eq_ok_iff.2 hnested, rfl⟩

/-- The subgraph of a field is handed out exactly for the kind that the field declares. -/
theorem subgraph_eq_ok_iff {kind : κ} :
    graph.subgraph field kind = .ok next ↔ Catalog.nested? graph.kind field = some kind ∧
      next = (graph.attached? field).getD (.none kind) :=
  checkNested_bind_eq_ok_iff

omit [DecidableEq κ] in
theorem ofDocument_eq_ok_iff {kind : κ} {value : Document} :
    ofDocument kind value = .ok graph ↔ ∃ text, value = .text text ∧
      parse kind text = .ok graph := by
  cases value with
  | text text =>
    rw [ofDocument]
    cases hparse : parse kind text with
    | error stop =>
      refine iff_of_false nofun ?_
      rintro ⟨_, ⟨⟩, h⟩
      rw [hparse] at h
      cases h
    | ok read =>
      constructor
      · intro h
        cases h
        exact ⟨text, rfl, hparse⟩
      · rintro ⟨_, ⟨⟩, h⟩
        rw [hparse] at h
        cases h
        rfl
  | _ => exact iff_of_false nofun fun ⟨_, h, _⟩ => nomatch h

namespace Builder

variable {builder result : Builder κ}

/-- Adding a field with a subgraph succeeds exactly when the field declares the kind of the
subgraph. -/
theorem addGraph_eq_ok_iff :
    builder.addGraph field added = .ok result ↔
      Catalog.nested? builder.graph.kind field = some added.kind ∧
        result = ⟨builder.graph.insertEntry field (some added)⟩ :=
  checkNested_bind_eq_ok_iff

/-- Setting what is under a field succeeds exactly when it is nothing or over the kind that the
field declares. -/
theorem set_eq_ok_iff {subgraph : Option (Graph κ)} :
    builder.set field subgraph = .ok result ↔
      (∀ added, subgraph = some added →
        Catalog.nested? builder.graph.kind field = some added.kind) ∧
      result = ⟨node builder.graph.kind (Assoc.insert field subgraph builder.graph.entries)⟩ := by
  cases subgraph with
  | none =>
    constructor
    · intro h
      exact ⟨nofun, (Except.ok.inj h).symm⟩
    · rintro ⟨-, rfl⟩
      rfl
  | some added =>
    refine checkNested_bind_eq_ok_iff.trans (and_congr_left fun _ => ?_)
    constructor
    · rintro hnested _ ⟨⟩
      exact hnested
    · exact fun h => h added rfl

omit [DecidableEq κ] [Catalog κ] in
theorem graph_addAll (builder : Builder κ) (fields : List Nat) :
    (builder.addAll fields).graph = fields.foldl Graph.add builder.graph := by
  induction fields generalizing builder with
  | nil => rfl
  | cons field fields ih => exact ih (builder.add field)

end Builder

/-! ## Ways to make a graph -/

mutual

/-- The graphs that come from factories, texts, documents, other graphs and builders. -/
inductive Made : Graph κ → Prop
  | none (kind : κ) : Made (none kind)
  | all (kind : κ) : Made (all kind)
  | complementOf (kind : κ) (fields : List Nat) : Made (complementOf kind fields)
  | ofList {kind : κ} {fields : List Nat} (hfields : ∀ field ∈ fields, Catalog.Has kind field) :
      Made (ofList kind fields)
  | ofSet {kind : κ} {fields : FieldSet}
      (hfields : ∀ field, fields.contains field = true → Catalog.Has kind field) :
      Made (ofSet kind fields)
  | parse {kind : κ} {text : String} {graph : Graph κ} (hparse : parse kind text = .ok graph) :
      Made graph
  | document {kind : κ} {value : Document} {graph : Graph κ}
      (hdocument : ofDocument kind value = .ok graph) : Made graph
  | subgraph {graph inner : Graph κ} {field : Nat} {kind : κ} (hgraph : Made graph)
      (hsubgraph : graph.subgraph field kind = .ok inner) : Made inner
  | build {builder : Builder κ} (hbuilder : Assembled builder) : Made builder.build

/-- The builders that come out of any sequence of steps. -/
inductive Assembled : Builder κ → Prop
  | empty (kind : κ) : Assembled (.empty kind)
  | ofGraph {graph : Graph κ} (hgraph : Made graph) : Assembled (.ofGraph graph)
  | add {builder : Builder κ} (hbuilder : Assembled builder) {field : Nat}
      (hfield : Catalog.Has builder.graph.kind field) : Assembled (builder.add field)
  | addAll {builder : Builder κ} (hbuilder : Assembled builder) {fields : List Nat}
      (hfields : ∀ field ∈ fields, Catalog.Has builder.graph.kind field) :
      Assembled (builder.addAll fields)
  | addGraph {builder next : Builder κ} (hbuilder : Assembled builder) {field : Nat}
      {graph : Graph κ} (hgraph : Made graph) (hstep : builder.addGraph field graph = .ok next) :
      Assembled next
  | merge {builder : Builder κ} (hbuilder : Assembled builder) {graph : Graph κ}
      (hgraph : Made graph) (hkind : graph.kind = builder.graph.kind) :
      Assembled (builder.merge graph)
  | remove {builder : Builder κ} (hbuilder : Assembled builder) (field : Nat) :
      Assembled (builder.remove field)
  | set {builder next : Builder κ} (hbuilder : Assembled builder) {field : Nat}
      (hfield : Catalog.Has builder.graph.kind field) {subgraph : Option (Graph κ)}
      (hsubgraph : ∀ graph, subgraph = some graph → Made graph)
      (hstep : builder.set field subgraph = .ok next) : Assembled next

end

mutual

/-- However a graph came about, it is proper and in normal form. -/
theorem Made.finished {graph : Graph κ} : Made graph → graph.Finished
  | .none kind => .none kind
  | .all kind => .ofSet fun _ hfield => FieldSet.has_of_contains_all hfield
  | .complementOf kind fields =>
    .ofSet fun _ hfield => FieldSet.has_of_contains_complementOf hfield
  | .ofList hfields => .ofList hfields
  | .ofSet hfields => .ofSet hfields
  | .parse hparse => .of_parse hparse
  | .document hdocument => by
    obtain ⟨text, -, hparse⟩ := ofDocument_eq_ok_iff.1 hdocument
    exact .of_parse hparse
  | .subgraph hgraph hsubgraph => by
    have hfinished := hgraph.finished
    -- What is attached to a field of a finished graph is finished, and so is the empty graph.
    obtain ⟨-, rfl⟩ := subgraph_eq_ok_iff.1 hsubgraph
    cases hattached : Graph.attached? _ _ with
    | none => exact .none _
    | some subgraph =>
      exact hfinished.attached (hfinished.wellFormed.attached?_eq_some_iff.1 hattached)
  | .build hbuilder => .normalize hbuilder.proper

/-- Whatever steps were taken, what a builder holds is proper. -/
theorem Assembled.proper {builder : Builder κ} : Assembled builder → builder.graph.Proper
  | .empty kind => .none kind
  | .ofGraph hgraph => hgraph.finished.toProper
  | .add hbuilder hfield => hbuilder.proper.add hfield
  | .addAll hbuilder hfields => Builder.graph_addAll .. ▸ hbuilder.proper.addAll hfields
  | .addGraph hbuilder hgraph hstep => by
    obtain ⟨hnested, rfl⟩ := Builder.addGraph_eq_ok_iff.1 hstep
    refine hbuilder.proper.insertEntry (Catalog.has_of_nested? hnested) ?_
    rintro _ ⟨⟩
    exact ⟨hnested, hgraph.finished.toProper⟩
  | .merge hbuilder hgraph hkind => hbuilder.proper.merge hgraph.finished.toProper hkind
  | .remove hbuilder field => hbuilder.proper.erase field
  | .set hbuilder hfield hsubgraph hstep => by
    obtain ⟨hnested, rfl⟩ := Builder.set_eq_ok_iff.1 hstep
    exact hbuilder.proper.replace hfield fun added heq =>
      ⟨hnested added heq, (hsubgraph added heq).finished.toProper⟩

end

end Steps

end Graph
end PartialEntity
