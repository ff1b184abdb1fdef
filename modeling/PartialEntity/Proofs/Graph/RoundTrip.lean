import PartialEntity.Harbor.Kinds
import PartialEntity.Proofs.Derive.Names
import PartialEntity.Proofs.Graph.Construction

/-!
# Writing graphs and reading them again

The text of a graph is written in the grammar if the fields of every level have different names that
can stand in a text; derived kinds have such fields.  Reading the text gives the graph back, with the
order of every level.  Conversely the text of what was read is the text that was read, as long as no
name is repeated at a level.  A document carries the text, so the same holds of documents.
-/

namespace PartialEntity

namespace Catalog

variable {κ : Type} [Catalog κ] {kind : κ} {field : Nat}

/-- Whether a kind is nested to some depth under another one, or is that kind itself. -/
def Reaches (outer inner : κ) : Prop :=
  Relation.ReflTransGen (fun kind nested => ∃ field, nested? kind field = some nested) outer inner

/-- Whether the fields of a kind are called as those that are generated for some declaration,
whatever the names are that follow from the variants. -/
def Derived (kind : κ) : Prop :=
  ∃ (camel : String → String) (declaration : Derive.Declaration) (generated : Derive.Instance),
    declaration.instanceBy? camel = .ok generated ∧
      generated.schema.map (·.1) = (fields kind).map (·.name)

theorem fieldName_eq_get (hfield : Has kind field) :
    fieldName kind field = ((fields kind).get ⟨field, hfield⟩).name := by
  rw [fieldName, field?, List.getElem?_eq_getElem hfield]
  rfl

/-- The fields of a derived kind are called by names that can stand in a text. -/
theorem Derived.isName (h : Derived kind) (hfield : Has kind field) :
    Graph.isName (fieldName kind field).toList = true := by
  obtain ⟨camel, declaration, generated, hinstance, hnames⟩ := h
  apply (Derive.names_of_instance hinstance).2
  rw [hnames, fieldName_eq_get hfield]
  exact List.mem_map_of_mem (List.get_mem ..)

/-- Each field of a derived kind is found by its name. -/
theorem Derived.position? (h : Derived kind) (hfield : Has kind field) :
    Catalog.position? kind (fieldName kind field) = some field := by
  obtain ⟨camel, declaration, generated, hinstance, hnames⟩ := h
  have hdistinct := (Derive.names_of_instance hinstance).1
  rw [hnames] at hdistinct
  rw [fieldName_eq_get hfield]
  refine (Derive.findIdx?_eq_some_iff hdistinct).2 ?_
  rw [List.getElem?_eq_getElem hfield]
  rfl

end Catalog

namespace Graph

variable {κ : Type} [Catalog κ]

/-! ## Texts of graphs are written in the grammar -/

def renderItem (kind : κ) (entry : Nat × Option (Graph κ)) : String :=
  Catalog.fieldName kind entry.1 ++ renderAttached entry.2

theorem renderEntries_eq (kind : κ) (entries : List (Nat × Option (Graph κ))) :
    renderEntries kind entries = entries.map (renderItem kind) := by
  induction entries with
  | nil => rfl
  | cons entry entries ih =>
    rw [renderEntries, ih]
    rfl

theorem toList_render_singleton (kind : κ) (entry : Nat × Option (Graph κ)) :
    (node kind [entry]).render.toList = (renderItem kind entry).toList := by
  rw [render, renderEntries_eq]
  simp

theorem toList_render_cons_cons (kind : κ) (entry next : Nat × Option (Graph κ))
    (entries : List (Nat × Option (Graph κ))) :
    (node kind (entry :: next :: entries)).render.toList =
      (renderItem kind entry).toList ++ ',' :: (node kind (next :: entries)).render.toList := by
  simp [render, renderEntries_eq]

theorem toList_renderItem_braced (kind : κ) (field : Nat) {subgraph : Graph κ}
    (hsubgraph : subgraph.isEmpty = false) :
    (renderItem kind (field, some subgraph)).toList =
      (Catalog.fieldName kind field).toList ++ '\x7b' :: subgraph.render.toList ++ ['\x7d'] := by
  simp [renderItem, renderAttached, hsubgraph]

/-- The texts of items with commas between them are the text of a graph, if each is that of an
item. -/
theorem written_render_of_items {kind : κ} {entries : List (Nat × Option (Graph κ))}
    (hne : entries ≠ [])
    (hitems : ∀ entry ∈ entries, WrittenItem kind (renderItem kind entry).toList entry) :
    Written kind (node kind entries).render.toList entries := by
  induction entries with
  | nil => exact absurd rfl hne
  | cons entry entries ih =>
    have hitem := hitems entry (List.mem_cons_self ..)
    cases entries with
    | nil =>
      rw [toList_render_singleton]
      exact .single hitem
    | cons next entries =>
      rw [toList_render_cons_cons]
      exact .comma hitem (ih (List.cons_ne_nil _ _) fun entry hentry =>
        hitems entry (List.mem_cons_of_mem _ hentry))

/-- A finished graph that is not empty is rendered as the grammar wants it. -/
theorem written_render {graph : Graph κ} (h : graph.Finished)
    (hderived : ∀ member, Catalog.Reaches graph.kind member → Catalog.Derived member)
    (hnonempty : graph.isEmpty = false) :
    Written graph.kind graph.render.toList graph.entries := by
  induction graph using Graph.induction with
  | node kind entries ih =>
    have hkind : Catalog.Derived kind := hderived kind .refl
    refine written_render_of_items (by rintro rfl; cases hnonempty) ?_
    rw [Graph.kind]
    rintro ⟨field, subgraph⟩ hentry
    have hfield : Catalog.Has kind field := h.has hentry
    have hname := hkind.isName hfield
    have hposition : Catalog.position? kind
        (String.ofList (Catalog.fieldName kind field).toList) = some field := by
      rw [String.ofList_toList]
      exact hkind.position? hfield
    cases subgraph with
    | none =>
      have htext : renderItem kind (field, .none) = Catalog.fieldName kind field :=
        String.append_empty
      rw [htext]
      exact .bare hname hposition
    | some subgraph =>
      have hnested : Catalog.nested? kind field = some subgraph.kind := h.wellFormed.declared hentry
      have hsubgraph := h.normal.nonempty hentry
      -- Braces are written only around something, which a graph in normal form has there.
      have hinside := ih field subgraph hentry (h.attached hentry)
        (fun member hmember => hderived member (.head ⟨field, hnested⟩ hmember)) hsubgraph
      rw [toList_renderItem_braced kind field hsubgraph]
      obtain ⟨inner, inside⟩ := subgraph
      exact .braced hname hposition hnested hinside

/-! ## Texts without repetitions -/

inductive Distinct : Graph κ → Prop
  | node {kind : κ} {entries : List (Nat × Option (Graph κ))}
      (hfields : (entries.map (·.1)).Nodup)
      (hattached : ∀ field subgraph, (field, some subgraph) ∈ entries → Distinct subgraph) :
      Distinct (node kind entries)

namespace Distinct

variable {graph : Graph κ}

omit [Catalog κ] in
theorem fields_nodup (h : graph.Distinct) : (graph.entries.map (·.1)).Nodup := by
  cases h
  assumption

omit [Catalog κ] in
theorem attached (h : graph.Distinct) {field : Nat} {subgraph : Graph κ}
    (hentry : (field, some subgraph) ∈ graph.entries) : subgraph.Distinct := by
  cases h with
  | node _ hattached => exact hattached field subgraph hentry

end Distinct

theorem Written.ne_nil {kind : κ} {text : List Char} {entries : List (Nat × Option (Graph κ))}
    (h : Written kind text entries) : entries ≠ [] := by
  cases h <;> exact List.cons_ne_nil _ _

mutual

/-- The text of what is written is how it is written. -/
theorem Written.toList_render {kind : κ} {text : List Char}
    {entries : List (Nat × Option (Graph κ))} (h : Written kind text entries) :
    (node kind entries).render.toList = text := by
  cases h with
  | single hitem => rw [toList_render_singleton, hitem.toList_renderItem]
  | @comma _ _ _ entry entries hitem hrest =>
    obtain ⟨next, entries, rfl⟩ := List.exists_cons_of_ne_nil hrest.ne_nil
    rw [toList_render_cons_cons, hitem.toList_renderItem, hrest.toList_render]

/-- An item is rendered as it was written. -/
theorem WrittenItem.toList_renderItem {kind : κ} {text : List Char}
    {entry : Nat × Option (Graph κ)} (h : WrittenItem kind text entry) :
    (renderItem kind entry).toList = text := by
  cases h with
  | bare hname hfield =>
    simp [renderItem, renderAttached, Catalog.fieldName_of_position? hfield]
  | @braced _ inner _ _ field entries hname hfield hnested hinside =>
    have hnonempty : (node inner entries).isEmpty = false := by
      simpa [isEmpty, Graph.entries] using hinside.ne_nil
    rw [toList_renderItem_braced kind field hnonempty, Catalog.fieldName_of_position? hfield,
      String.toList_ofList, hinside.toList_render]

end

/-- What is attached to a written item was written inside of its braces, over the kind that the
field declares. -/
theorem WrittenItem.attached {kind : κ} {text : List Char} {field : Nat} {subgraph : Graph κ}
    (h : WrittenItem kind text (field, some subgraph)) :
    Catalog.nested? kind field = some subgraph.kind ∧
      ∃ inside, Written subgraph.kind inside subgraph.entries := by
  cases h with
  | braced _ _ hnested hinside => exact ⟨hnested, _, hinside⟩

/-- What stands in braces is written over the kind that the field declares. -/
theorem Written.attached {field : Nat} {subgraph : Graph κ} :
    ∀ {kind : κ} {text : List Char} {entries : List (Nat × Option (Graph κ))},
      Written kind text entries → (field, some subgraph) ∈ entries →
      Catalog.nested? kind field = some subgraph.kind ∧
        ∃ inside, Written subgraph.kind inside subgraph.entries
  | _, _, _, .single hitem, hentry => (List.mem_singleton.1 hentry ▸ hitem).attached
  | _, _, _, .comma hitem hrest, hentry => by
    rcases List.mem_cons.1 hentry with rfl | hentry
    · exact hitem.attached
    · exact hrest.attached hentry

/-- What is written without repetitions is in normal form. -/
theorem Written.normal {graph : Graph κ} {text : List Char}
    (h : Written graph.kind text graph.entries) (hdistinct : graph.Distinct) :
    graph.WellFormed ∧ graph.Normal := by
  induction graph using Graph.induction generalizing text with
  | node kind entries ih =>
    have hattached : ∀ field subgraph, (field, some subgraph) ∈ entries →
        subgraph.isEmpty = false ∧ subgraph.WellFormed ∧ subgraph.Normal := by
      intro field subgraph hentry
      obtain ⟨-, inside, hinside⟩ := h.attached hentry
      refine ⟨?_, ih field subgraph hentry hinside (hdistinct.attached hentry)⟩
      simpa [isEmpty] using hinside.ne_nil
    exact ⟨.node hdistinct.fields_nodup (fun _ _ hentry => (h.attached hentry).1)
        fun field subgraph hentry => (hattached field subgraph hentry).2.1,
      .node (fun field subgraph hentry => (hattached field subgraph hentry).1)
        fun field subgraph hentry => (hattached field subgraph hentry).2.2⟩

/-! ## Reading again -/

/-- A text of a graph in normal form is read as that graph. -/
theorem parse_of_written {graph : Graph κ} {text : String}
    (h : Written graph.kind text.toList graph.entries) (hwell : graph.WellFormed)
    (hnormal : graph.Normal) : parse graph.kind text = .ok graph := by
  obtain ⟨kind, entries⟩ := graph
  obtain ⟨read, hparse, hkind, hread, hnormalRead, hlevels⟩ := h.levels_of_parse
  have hsame : read = node kind entries := by
    refine eq_of_mentions hread hwell hnormalRead hnormal hkind fun path => ?_
    exact (hlevels path).trans (FirstMention.eraseDups_eq_self (hwell.nodup_mentions path))
  rw [hparse, hsame]

/-- What is rendered is read back as it was. -/
theorem parse_render {graph : Graph κ} (h : graph.Finished)
    (hderived : ∀ member, Catalog.Reaches graph.kind member → Catalog.Derived member) :
    parse graph.kind graph.render = .ok graph := by
  cases hempty : graph.isEmpty with
  | true =>
    obtain ⟨kind, entries⟩ := graph
    obtain rfl : entries = [] := List.isEmpty_iff.1 hempty
    exact parse_of_isBlank kind rfl
  | false =>
    exact parse_of_written (written_render h hderived hempty) h.wellFormed h.normal

/-! ## Items -/

open Harbor (Kind)

def itemDeclaration : Derive.Declaration where
  sort := .enumeration
  identifier := "ItemField"
  generics := ""
  attributes := []
  variants :=
    let nested := ⟨"field", .list [⟨"nested", .type "ItemField"⟩]⟩
    [⟨"Id", [], ""⟩, ⟨"Label", [], ""⟩, ⟨"Weight", [], ""⟩, ⟨"Inner", [nested], ""⟩,
      ⟨"Bad", [nested], ""⟩]

theorem derived_of_reaches_item {member : Kind} (h : Catalog.Reaches Kind.item member) :
    Catalog.Derived member := by
  have hitem : member = Kind.item := by
    induction h with
    | refl => rfl
    | tail _ hnested hinner =>
      obtain ⟨field, hfield⟩ := hnested
      rw [hinner] at hfield
      match field with
      | 0 | 1 | 2 => cases hfield
      | 3 | 4 => cases hfield; rfl
      | _ + 5 => cases hfield
  rw [hitem]
  exact ⟨Text.lowerCamel, itemDeclaration, _, rfl, rfl⟩

def trimmedItem : Graph Kind :=
  (((Builder.mk (node .item [(3, some (ofList .item [2, 1]))])).addAll [1, 4]).remove 1).build

theorem made_trimmedItem : Made trimmedItem := by
  have hstep : (Builder.empty Kind.item).addGraph 3 (ofList .item [2, 1]) =
      .ok ⟨node .item [(3, some (ofList .item [2, 1]))]⟩ := rfl
  have hadded := Assembled.addGraph (.empty Kind.item) (.ofList (by decide)) hstep
  exact .build (.remove (.addAll hadded (by decide)) 1)

/-! ## Forth and back -/

/-- The text of a derived kind's graph, however the graph came about, is read as that graph, which
keeps the order of every level.  The text of what was read from a text that is not blank is that
text if no name is repeated at a level.  The same holds of documents. -/
theorem round_trip [DecidableEq κ] (kind : κ)
    (hderived : ∀ member, Catalog.Reaches kind member → Catalog.Derived member) :
    (∀ graph : Graph κ, Made graph → graph.kind = kind →
      parse kind graph.render = .ok graph ∧ ofDocument kind graph.toDocument = .ok graph) ∧
    ∀ text graph, Text.isBlank text.toList = false → parse kind text = .ok graph →
      (∃ entries, Written kind text.toList entries ∧ (node kind entries).Distinct) →
      graph.render = text ∧ graph.toDocument = .text text ∧
        ofDocument kind (.text text) = .ok graph := by
  constructor
  · rintro graph hmade rfl
    have hparse := parse_render hmade.finished hderived
    exact ⟨hparse, ofDocument_eq_ok_iff.2 ⟨_, rfl, hparse⟩⟩
  · rintro text graph hblank hparse ⟨entries, hwritten, hdistinct⟩
    have hlevel : Written (node kind entries).kind text.toList (node kind entries).entries :=
      hwritten
    obtain ⟨hwell, hnormal⟩ := hlevel.normal hdistinct
    have hread := parse_of_written hlevel hwell hnormal
    obtain rfl : node kind entries = graph := Except.ok.inj (hread.symm.trans hparse)
    have hrender : (node kind entries).render = text :=
      String.toList_inj.1 hwritten.toList_render
    refine ⟨hrender, ?_, ofDocument_eq_ok_iff.2 ⟨_, rfl, hparse⟩⟩
    rw [toDocument, hrender]

theorem round_trip_item :
    (parse .item "inner\x7bweight,label\x7d,bad" = .ok trimmedItem ∧
      ofDocument .item (.text "inner\x7bweight,label\x7d,bad") = .ok trimmedItem) ∧
    ∀ graph, parse Kind.item "label,inner\x7bid\x7d" = .ok graph →
      graph.render = "label,inner\x7bid\x7d" := by
  obtain ⟨hforth, hback⟩ := round_trip Kind.item fun _ => derived_of_reaches_item
  refine ⟨hforth trimmedItem made_trimmedItem rfl, fun graph hparse => ?_⟩
  have hwritten : Written Kind.item
      ("label".toList ++ ',' :: ("inner".toList ++ '\x7b' :: "id".toList ++ ['\x7d']))
      [(1, .none), (3, some (node .item [(0, .none)]))] :=
    .comma (.bare rfl rfl) (.single (.braced rfl rfl rfl (.single (.bare rfl rfl))))
  have hdistinct : (node Kind.item [(1, .none), (3, some (node .item [(0, .none)]))]).Distinct := by
    refine .node (by decide) fun field subgraph hentry => ?_
    obtain ⟨-, rfl⟩ : field = 3 ∧ subgraph = node .item [(0, .none)] := by simpa using hentry
    exact .node (by decide) fun _ _ hentry => by simp at hentry
  exact (hback _ graph rfl hparse ⟨_, hwritten, hdistinct⟩).1

end Graph

end PartialEntity
