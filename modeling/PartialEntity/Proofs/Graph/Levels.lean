import PartialEntity.Proofs.Graph.WellFormed

/-!
# The levels of a graph

A graph has a level at its top and one under every path that it selects; the fields of a level stand
in the order in which they first came in.  `Graph.mentions` reads them off.  It also makes sense of
entries that repeat a field, as they do before they are united: the levels of equal fields then
follow each other, and uniting keeps of every field the first mention.  A graph in normal form is
determined by its levels.
-/

namespace PartialEntity

/-! ## First mentions -/

namespace FirstMention

variable {fields more : List Nat}

/-- Repetitions can be removed before or after some fields are dropped. -/
theorem eraseDups_filter (p : Nat → Bool) (fields : List Nat) :
    (fields.filter p).eraseDups = fields.eraseDups.filter p := by
  match fields with
  | [] => rfl
  | field :: rest =>
    have hshorter : (rest.filter fun other => !other == field).length ≤ rest.length :=
      List.length_filter_le ..
    have ih := eraseDups_filter p (rest.filter fun other => !other == field)
    rw [List.filter_comm] at ih
    rw [List.eraseDups_cons, List.filter_cons, List.filter_cons, ← ih]
    split
    · rw [List.eraseDups_cons]
    · rename_i hfield
      congr 1
      symm
      apply List.filter_eq_self.2
      intro other hother
      have hne : other ≠ field := by
        rintro rfl
        exact hfield (List.mem_filter.1 hother).2
      simpa using hne
termination_by fields.length

theorem nodup_eraseDups (fields : List Nat) : fields.eraseDups.Nodup := by
  match fields with
  | [] => exact List.nodup_nil
  | field :: rest =>
    have hshorter : (rest.filter fun other => !other == field).length ≤ rest.length :=
      List.length_filter_le ..
    rw [List.eraseDups_cons, List.nodup_cons]
    exact ⟨by simp, nodup_eraseDups _⟩
termination_by fields.length

theorem eraseDups_eq_self (h : fields.Nodup) : fields.eraseDups = fields := by
  induction fields with
  | nil => rfl
  | cons field rest ih =>
    rw [List.nodup_cons] at h
    rw [List.eraseDups_cons, eraseDups_filter, ih h.2]
    congr 1
    apply List.filter_eq_self.2
    intro other hother
    have hne : other ≠ field := by
      rintro rfl
      exact h.1 hother
    simpa using hne

/-- A field that is mentioned already changes nothing, and another one goes to the end. -/
theorem eraseDups_append_singleton (h : fields.Nodup) (field : Nat) :
    (fields ++ [field]).eraseDups = if field ∈ fields then fields else fields ++ [field] := by
  rw [List.eraseDups_append, eraseDups_eq_self h, List.removeAll]
  by_cases hmem : field ∈ fields
  · simp [hmem]
  · simp [hmem, List.eraseDups_cons]

/-- Repetitions that are removed early make no difference later. -/
@[simp]
theorem eraseDups_append_eraseDups (fields more : List Nat) :
    (fields ++ more.eraseDups).eraseDups = (fields ++ more).eraseDups := by
  rw [List.eraseDups_append, List.eraseDups_append, List.removeAll, List.removeAll,
    eraseDups_filter, eraseDups_filter, eraseDups_eq_self (nodup_eraseDups more)]

@[simp]
theorem eraseDups_eraseDups_append (fields more : List Nat) :
    (fields.eraseDups ++ more).eraseDups = (fields ++ more).eraseDups := by
  have hsame : more.removeAll fields.eraseDups = more.removeAll fields := by
    rw [List.removeAll, List.removeAll]
    congr 1
    funext field
    rw [Bool.not_inj_iff, Bool.eq_iff_iff, List.elem_iff, List.elem_iff, List.mem_eraseDups]
  rw [List.eraseDups_append, List.eraseDups_append, hsame,
    eraseDups_eq_self (nodup_eraseDups fields)]

end FirstMention

namespace Graph

variable {κ : Type}

/-! ## Levels -/

def mentions (graph : Graph κ) : List Nat → List Nat
  | [] => graph.toList
  | field :: path => graph.entries.flatMap fun entry =>
    if entry.1 = field then entry.2.elim [] fun subgraph => subgraph.mentions path else []

def attachedMentions (subgraph : Option (Graph κ)) (path : List Nat) : List Nat :=
  subgraph.elim [] fun subgraph => subgraph.mentions path

/-- A field stands at a level exactly when the path through the level to it is selected. -/
theorem mem_mentions_iff {graph : Graph κ} {path : List Nat} {field : Nat} :
    field ∈ graph.mentions path ↔ graph.selects (path ++ [field]) = true := by
  induction path generalizing graph with
  | nil => exact selects_singleton_iff.symm
  | cons first path ih =>
    rw [mentions, List.mem_flatMap, List.cons_append, selects_cons_iff]
    constructor
    · rintro ⟨⟨other, subgraph⟩, hentry, hfield⟩
      split at hfield
      · rename_i hother
        cases subgraph with
        | none => exact absurd hfield List.not_mem_nil
        | some subgraph =>
          exact ⟨some subgraph, hother ▸ hentry, attachedSelects_some_iff.2 (.inr (ih.1 hfield))⟩
      · exact absurd hfield List.not_mem_nil
    · rintro ⟨subgraph, hentry, hselects⟩
      refine ⟨(first, subgraph), hentry, ?_⟩
      rw [if_pos rfl]
      cases subgraph with
      | none => simp [attachedSelects] at hselects
      | some subgraph =>
        exact ih.2 ((attachedSelects_some_iff.1 hselects).resolve_left (by simp))

/-- Graphs with the same fields at every level select the same. -/
theorem selects_eq_of_mentions {graph other : Graph κ}
    (h : ∀ path field, field ∈ graph.mentions path ↔ field ∈ other.mentions path) :
    graph.selects = other.selects := by
  funext path
  rcases List.eq_nil_or_concat path with rfl | ⟨path, field, rfl⟩
  · rw [selects_nil, selects_nil]
  · rw [List.concat_eq_append, Bool.eq_iff_iff, ← mem_mentions_iff, ← mem_mentions_iff]
    exact h path field

theorem mentions_nil (graph : Graph κ) : graph.mentions [] = graph.toList := by
  rw [mentions]

/-- What the first entry mentions at a level comes before what the others mention there. -/
theorem mentions_cons_entry (kind : κ) (field : Nat) (subgraph : Option (Graph κ))
    (entries : List (Nat × Option (Graph κ))) (path : List Nat) :
    (node kind ((field, subgraph) :: entries)).mentions path =
      (node kind [(field, subgraph)]).mentions path ++ (node kind entries).mentions path := by
  cases path with
  | nil => simp [mentions, toList, Graph.entries]
  | cons first path => simp [mentions, Graph.entries]

theorem mentions_none (kind : κ) (path : List Nat) : (none kind).mentions path = [] := by
  cases path <;> rw [mentions] <;> rfl

theorem mentions_singleton_cons (kind : κ) (field : Nat) (subgraph : Option (Graph κ))
    (other : Nat) (path : List Nat) :
    (node kind [(field, subgraph)]).mentions (other :: path) =
      if other = field then attachedMentions subgraph path else [] := by
  rw [mentions]
  simp only [Graph.entries, List.flatMap_singleton, attachedMentions, eq_comm]

theorem isEmpty_iff_mentions {graph : Graph κ} :
    graph.isEmpty = true ↔ graph.mentions [] = [] := by
  obtain ⟨kind, entries⟩ := graph
  cases entries <;> simp [isEmpty, mentions, toList, Graph.entries]

section WellFormed

variable [Catalog κ] {graph added : Graph κ}

/-- Below a field, a well-formed graph mentions what is attached to that field and nothing else. -/
theorem WellFormed.mentions_cons (h : graph.WellFormed) (field : Nat) (path : List Nat) :
    graph.mentions (field :: path) = attachedMentions (graph.attached? field) path := by
  obtain ⟨kind, entries⟩ := graph
  have hfields := h.fields_nodup
  rw [mentions, attached?]
  clear h
  simp only [Graph.entries] at hfields ⊢
  induction entries with
  | nil => rfl
  | cons entry entries ih =>
    obtain ⟨other, subgraph⟩ := entry
    rw [List.map_cons, List.nodup_cons] at hfields
    rw [List.flatMap_cons, ih hfields.2, Assoc.find?]
    by_cases hother : other = field
    · subst hother
      rw [Assoc.find?_eq_none_iff.2 hfields.1, if_pos rfl, if_pos (beq_self_eq_true other),
        Option.join_some]
      exact List.append_nil _
    · rw [if_neg hother, if_neg (by simpa using hother), List.nil_append]

theorem WellFormed.attached?_wellFormed (h : graph.WellFormed) {field : Nat} {subgraph : Graph κ}
    (hattached : graph.attached? field = some subgraph) : subgraph.WellFormed :=
  h.attached (h.attached?_eq_some_iff.1 hattached)

/-- Every field stands once at each level of a well-formed graph. -/
theorem WellFormed.nodup_mentions (h : graph.WellFormed) (path : List Nat) :
    (graph.mentions path).Nodup := by
  induction path generalizing graph with
  | nil =>
    rw [mentions_nil]
    exact h.fields_nodup
  | cons field path ih =>
    rw [h.mentions_cons]
    cases hattached : graph.attached? field with
    | none => exact List.nodup_nil
    | some subgraph => exact ih (h.attached?_wellFormed hattached)

/-! ## Operations -/

section Insert

variable {field : Nat} {subgraph : Option (Graph κ)}

private theorem mentions_mergeAttached {old : Option (Graph κ)} {path : List Nat}
    (hold : ∀ present, old = some present → present.WellFormed)
    (hsubgraph : ∀ added, subgraph = some added → added.WellFormed)
    (hmerge : ∀ present added, old = some present → subgraph = some added →
      (present.merge added).mentions path =
        (present.mentions path ++ added.mentions path).eraseDups) :
    attachedMentions (mergeAttached old subgraph) path =
      (attachedMentions old path ++ attachedMentions subgraph path).eraseDups := by
  cases subgraph with
  | none =>
    cases old with
    | none => rfl
    | some present =>
      rw [mergeAttached]
      simp only [attachedMentions, Option.elim_some, Option.elim_none, List.append_nil]
      exact (FirstMention.eraseDups_eq_self ((hold present rfl).nodup_mentions path)).symm
  | some added =>
    cases old with
    | none =>
      rw [mergeAttached]
      simp only [attachedMentions, Option.elim_some, Option.elim_none, List.nil_append]
      exact (FirstMention.eraseDups_eq_self ((hsubgraph added rfl).nodup_mentions path)).symm
    | some present =>
      rw [mergeAttached]
      exact hmerge present added rfl rfl

omit [Catalog κ] in
/-- Selecting a field changes what is attached to this field only. -/
theorem attached?_insertEntry (other : Nat) :
    (graph.insertEntry field subgraph).attached? other =
      if other = field then mergeAttached (graph.attached? field) subgraph
      else graph.attached? other := by
  rw [attached?, insertEntry, Graph.entries]
  split
  · rename_i hother
    rw [hother, Assoc.find?_alter_self, Option.join_some]
    rfl
  · rename_i hother
    rw [Assoc.find?_alter_of_ne hother]
    rfl

private theorem mentions_insertEntry_of_merge (h : graph.WellFormed)
    (hsubgraph : ∀ added, subgraph = some added →
      Catalog.nested? graph.kind field = some added.kind ∧ added.WellFormed)
    {path : List Nat}
    (hmerge : ∀ present added, graph.attached? field = some present → subgraph = some added →
      ∀ rest, (present.merge added).mentions rest =
        (present.mentions rest ++ added.mentions rest).eraseDups) :
    (graph.insertEntry field subgraph).mentions path =
      (graph.mentions path ++ (node graph.kind [(field, subgraph)]).mentions path).eraseDups := by
  cases path with
  | nil =>
    have hkeys : (graph.insertEntry field subgraph).toList =
        if field ∈ graph.toList then graph.toList else graph.toList ++ [field] :=
      Assoc.keys_alter ..
    rw [mentions_nil, mentions_nil, mentions_nil, hkeys]
    exact (FirstMention.eraseDups_append_singleton h.fields_nodup field).symm
  | cons other path =>
    rw [(h.insertEntry hsubgraph).mentions_cons, attached?_insertEntry, h.mentions_cons,
      mentions_singleton_cons]
    by_cases hother : other = field
    · subst hother
      rw [if_pos rfl, if_pos rfl]
      exact mentions_mergeAttached (fun _ hpresent => h.attached?_wellFormed hpresent)
        (fun added heq => (hsubgraph added heq).2)
        fun present added hpresent heq => hmerge present added hpresent heq path
    · rw [if_neg hother, if_neg hother, List.append_nil, ← h.mentions_cons]
      exact (FirstMention.eraseDups_eq_self (h.nodup_mentions _)).symm

end Insert

/-- Uniting two graphs puts the fields that are new at a level behind those that stand there. -/
theorem mentions_merge (h : graph.WellFormed) (hadded : added.WellFormed)
    (hkind : added.kind = graph.kind) (path : List Nat) :
    (graph.merge added).mentions path = (graph.mentions path ++ added.mentions path).eraseDups := by
  induction added using Graph.induction generalizing graph path with
  | node kind added ih =>
    obtain rfl : kind = graph.kind := hkind
    -- Every entry is united with what the entries before it made, hence for all graphs of the kind.
    induction added generalizing graph with
    | nil =>
      rw [← none, mentions_none, List.append_nil,
        FirstMention.eraseDups_eq_self (h.nodup_mentions path)]
      cases graph
      rfl
    | cons entry added ihentries =>
      obtain ⟨field, subgraph⟩ := entry
      have hsubgraph : ∀ inner, subgraph = some inner →
          Catalog.nested? graph.kind field = some inner.kind ∧ inner.WellFormed := by
        rintro inner rfl
        exact ⟨hadded.declared (List.mem_cons_self ..), hadded.attached (List.mem_cons_self ..)⟩
      have hrest : (node graph.kind added).WellFormed :=
        .node (List.nodup_cons.1 hadded.fields_nodup).2
          (fun _ _ hentry => hadded.declared (List.mem_cons_of_mem _ hentry))
          fun _ _ hentry => hadded.attached (List.mem_cons_of_mem _ hentry)
      have hmerge : ∀ present inner, graph.attached? field = some present →
          subgraph = some inner → ∀ rest, (present.merge inner).mentions rest =
            (present.mentions rest ++ inner.mentions rest).eraseDups := by
        rintro present inner hpresent rfl rest
        have hentry := h.attached?_eq_some_iff.1 hpresent
        refine ih field inner (List.mem_cons_self ..) (h.attached hentry) (hsubgraph inner rfl).2
          ?_ rest
        exact Option.some.inj ((hsubgraph inner rfl).1.symm.trans (h.declared hentry))
      calc ((graph.insertEntry field subgraph).merge (node graph.kind added)).mentions path
        _ = ((graph.insertEntry field subgraph).mentions path ++
              (node graph.kind added).mentions path).eraseDups :=
          ihentries (fun field subgraph hentry => ih field subgraph (List.mem_cons_of_mem _ hentry))
            (h.insertEntry hsubgraph) hrest
        _ = _ := by
          rw [mentions_insertEntry_of_merge h hsubgraph hmerge,
            FirstMention.eraseDups_eraseDups_append, List.append_assoc, ← mentions_cons_entry]

/-- Selecting a field puts what is new behind what was there, at every level. -/
theorem mentions_insertEntry (h : graph.WellFormed) {field : Nat} {subgraph : Option (Graph κ)}
    (hsubgraph : ∀ added, subgraph = some added →
      Catalog.nested? graph.kind field = some added.kind ∧ added.WellFormed) (path : List Nat) :
    (graph.insertEntry field subgraph).mentions path =
      (graph.mentions path ++ (node graph.kind [(field, subgraph)]).mentions path).eraseDups :=
  mentions_insertEntry_of_merge h hsubgraph fun present added hpresent heq rest => by
    have hentry := h.attached?_eq_some_iff.1 hpresent
    refine mentions_merge (h.attached hentry) (hsubgraph added heq).2 ?_ rest
    exact Option.some.inj ((hsubgraph added heq).1.symm.trans (h.declared hentry))

end WellFormed

/-! ## Normal form -/

/-- Whether nothing empty is attached to any field, at every level. -/
inductive Normal : Graph κ → Prop
  | node {kind : κ} {entries : List (Nat × Option (Graph κ))}
      (hnonempty : ∀ field subgraph, (field, some subgraph) ∈ entries → subgraph.isEmpty = false)
      (hattached : ∀ field subgraph, (field, some subgraph) ∈ entries → Normal subgraph) :
      Normal (node kind entries)

namespace Normal

variable {graph other : Graph κ}

theorem nonempty (h : graph.Normal) {field : Nat} {subgraph : Graph κ}
    (hentry : (field, some subgraph) ∈ graph.entries) : subgraph.isEmpty = false := by
  cases h with
  | node hnonempty _ => exact hnonempty field subgraph hentry

theorem attached (h : graph.Normal) {field : Nat} {subgraph : Graph κ}
    (hentry : (field, some subgraph) ∈ graph.entries) : subgraph.Normal := by
  cases h with
  | node _ hattached => exact hattached field subgraph hentry

/-- A graph to whose fields nothing is attached is in normal form. -/
theorem of_attached (h : ∀ field subgraph, (field, subgraph) ∈ graph.entries → subgraph = .none) :
    graph.Normal := by
  obtain ⟨kind, entries⟩ := graph
  exact .node (fun field _ hentry => nomatch h field _ hentry)
    fun field _ hentry => nomatch h field _ hentry

end Normal

/-- A normalized graph is normal. -/
theorem normal_normalize (graph : Graph κ) : graph.normalize.Normal := by
  induction graph using Graph.induction with
  | node kind entries ih =>
    have hattached : ∀ field normal, (field, some normal) ∈ normalizeEntries entries →
        normal.isEmpty = false ∧ normal.Normal := by
      intro field normal hentry
      obtain ⟨subgraph, hmem, hempty, rfl⟩ := WellFormed.exists_of_mem_normalizeEntries hentry
      exact ⟨hempty, ih field subgraph hmem⟩
    rw [normalize]
    exact .node (fun field normal hentry => (hattached field normal hentry).1)
      fun field normal hentry => (hattached field normal hentry).2

private theorem mentions_normalizeAttached {subgraph : Option (Graph κ)} {path : List Nat}
    (hnormalize : ∀ inner, subgraph = some inner → ∀ path,
      inner.normalize.mentions path = inner.mentions path) :
    attachedMentions (normalizeAttached subgraph) path = attachedMentions subgraph path := by
  cases subgraph with
  | none => rfl
  | some inner =>
    rw [normalizeAttached]
    split
    · rename_i hempty
      have hnone : inner.mentions path = [] := by
        rw [List.eq_nil_iff_forall_not_mem]
        intro field hfield
        rw [mem_mentions_iff, ← selects_normalize, isEmpty_iff.1 hempty] at hfield
        cases hfield
      exact hnone.symm
    · exact hnormalize inner rfl path

/-- Detaching empty subgraphs leaves every level as it is. -/
@[simp]
theorem mentions_normalize (graph : Graph κ) (path : List Nat) :
    graph.normalize.mentions path = graph.mentions path := by
  induction graph using Graph.induction generalizing path with
  | node kind entries ih =>
    rw [normalize]
    induction entries with
    | nil => rfl
    | cons entry entries ihentries =>
      obtain ⟨field, subgraph⟩ := entry
      have hnormalize : ∀ inner, subgraph = some inner → ∀ path,
          inner.normalize.mentions path = inner.mentions path := by
        rintro inner rfl
        exact ih field inner (List.mem_cons_self ..)
      rw [normalizeEntries, mentions_cons_entry, mentions_cons_entry kind field subgraph,
        ihentries fun field subgraph hentry =>
          ih field subgraph (List.mem_cons_of_mem _ hentry)]
      congr 1
      cases path with
      | nil => rfl
      | cons other path =>
        rw [mentions_singleton_cons, mentions_singleton_cons,
          mentions_normalizeAttached hnormalize]

section Extensionality

variable [Catalog κ] {graph other : Graph κ}

/-- Where something is attached in a normal graph, something is attached in every graph that
mentions the same. -/
private theorem attached?_isSome_of_mentions (hgraph : graph.WellFormed) (hnormal : graph.Normal)
    (hother : other.WellFormed) (h : ∀ path, graph.mentions path = other.mentions path)
    {field : Nat} {subgraph : Graph κ} (hattached : graph.attached? field = some subgraph) :
    ∃ inner, other.attached? field = some inner := by
  have hentry := hgraph.attached?_eq_some_iff.1 hattached
  have hnonempty := hnormal.nonempty hentry
  have hlevel := h [field]
  rw [hgraph.mentions_cons, hother.mentions_cons, hattached] at hlevel
  cases hinner : other.attached? field with
  | some inner => exact ⟨inner, rfl⟩
  | none =>
    rw [hinner] at hlevel
    rw [isEmpty_iff_mentions.2 hlevel] at hnonempty
    cases hnonempty

/-- A graph in normal form is determined by its levels. -/
theorem eq_of_mentions (hgraph : graph.WellFormed) (hother : other.WellFormed)
    (hnormal : graph.Normal) (hnormal' : other.Normal) (hkind : graph.kind = other.kind)
    (h : ∀ path, graph.mentions path = other.mentions path) : graph = other := by
  induction graph using Graph.induction generalizing other with
  | node kind entries ih =>
    have hattached : ∀ field, (node kind entries).attached? field = other.attached? field := by
      intro field
      cases hleft : (node kind entries).attached? field with
      | none =>
        cases hright : other.attached? field with
        | none => rfl
        | some inner =>
          obtain ⟨_, hsome⟩ := attached?_isSome_of_mentions hother hnormal' hgraph
            (fun path => (h path).symm) hright
          rw [hleft] at hsome
          cases hsome
      | some subgraph =>
        obtain ⟨inner, hright⟩ := attached?_isSome_of_mentions hgraph hnormal hother h hleft
        have hentry := hgraph.attached?_eq_some_iff.1 hleft
        have hentry' := hother.attached?_eq_some_iff.1 hright
        rw [hright, Option.some.injEq]
        refine ih field subgraph hentry (hgraph.attached hentry) (hother.attached hentry')
          (hnormal.attached hentry) (hnormal'.attached hentry') ?_ fun path => ?_
        · have hdeclared := hgraph.declared hentry
          rw [hkind, hother.declared hentry'] at hdeclared
          exact (Option.some.inj hdeclared).symm
        · have hlevel := h (field :: path)
          rw [hgraph.mentions_cons, hother.mentions_cons, hleft, hright] at hlevel
          exact hlevel
    obtain ⟨kind', entries'⟩ := other
    cases hkind
    congr 1
    have hkeys : entries.map (·.1) = entries'.map (·.1) := by
      have hlevel := h []
      rwa [mentions_nil, mentions_nil] at hlevel
    refine Assoc.eq_of_find? hkeys hgraph.fields_nodup fun field old new hold hnew => ?_
    have hsame := hattached field
    rwa [attached?, attached?, Graph.entries, Graph.entries, hold, hnew, Option.join_some,
      Option.join_some] at hsame

end Extensionality

end Graph

end PartialEntity
