import PartialEntity.Entity.Missing
import PartialEntity.Proofs.Catalog
import PartialEntity.Proofs.Entity.Restrict
import PartialEntity.Proofs.Graph.WellFormed

/-!
# What the missing graph selects

The missing graph selects the paths that the graph selects and on which the entity, or some member
on the way, lacks a field; with such a path it selects all of its beginnings.
-/

namespace PartialEntity.Entity

variable {κ : Type} [DecidableEq κ] [Catalog κ]

/-- Members are found under a field that declares the kind of what it stores, and is not opaque. -/
theorem descend_eq_ok_iff {kind member : κ} {field : Nat} :
    descend kind field = .ok member ↔
      Catalog.nested? kind field = some member ∧
        ∃ shape, Catalog.content? kind field = some (.nested member shape) ∧
          shape.isOpaque = false := by
  rw [descend]
  split
  · rename_i other shape hcontent
    simp only [hcontent, Option.some.injEq, Content.nested.injEq]
    cases hvisible : shape.isOpaque with
    | true =>
      refine iff_of_false nofun ?_
      rintro ⟨-, _, ⟨-, rfl⟩, hfalse⟩
      rw [hvisible] at hfalse
      cases hfalse
    | false =>
      constructor
      · intro hok
        obtain ⟨_, hdeclared, hok⟩ := Result.bind_eq_ok_iff.1 hok
        cases hok
        exact ⟨Graph.checkNested_eq_ok_iff.1 hdeclared, shape, ⟨rfl, rfl⟩, hvisible⟩
      · rintro ⟨hnested, _, ⟨rfl, rfl⟩, -⟩
        rw [Graph.checkNested_eq_ok_iff.2 hnested]
        rfl
  · rename_i hcontent
    refine iff_of_false nofun ?_
    rintro ⟨-, shape, hnested, -⟩
    exact hcontent member shape hnested

/-! ## Uniting the gaps of members -/

section Gaps

variable {gap : Entity κ → Except Error (Graph κ)} {kind : κ} {leaves : List (Entity κ)}
  {start result : Graph κ}

omit [DecidableEq κ] [Catalog κ]

def uniteGaps (gap : Entity κ → Except Error (Graph κ)) (start : Graph κ)
    (leaves : List (Entity κ)) : Except Error (Graph κ) :=
  leaves.foldlM (fun (lacking : Graph κ) leaf => do pure (lacking.merge (← gap leaf))) start

theorem uniteGaps_cons (leaf : Entity κ) :
    uniteGaps gap start (leaf :: leaves) =
      gap leaf >>= fun graph => uniteGaps gap (start.merge graph) leaves := by
  rw [uniteGaps, List.foldlM_cons, bind_assoc]
  rfl

theorem exists_uniteGaps (h : ∀ leaf ∈ leaves, ∃ graph, gap leaf = .ok graph) :
    ∃ result, uniteGaps gap start leaves = .ok result := by
  induction leaves generalizing start with
  | nil => exact ⟨start, rfl⟩
  | cons leaf rest ih =>
    rw [List.forall_mem_cons] at h
    obtain ⟨graph, hgraph⟩ := h.1
    rw [uniteGaps_cons, hgraph]
    exact ih h.2

theorem exists_gap_of_uniteGaps (hok : uniteGaps gap start leaves = .ok result) :
    ∀ leaf ∈ leaves, ∃ graph, gap leaf = .ok graph := by
  induction leaves generalizing start with
  | nil => exact fun _ hleaf => absurd hleaf List.not_mem_nil
  | cons leaf rest ih =>
    rw [uniteGaps_cons] at hok
    obtain ⟨graph, hgraph, hrest⟩ := Result.bind_eq_ok_iff.1 hok
    exact List.forall_mem_cons.2 ⟨⟨graph, hgraph⟩, ih hrest⟩

/-- What members lack together is what any of them lacks. -/
theorem selects_uniteGaps (hok : uniteGaps gap start leaves = .ok result) {path : List Nat} :
    result.selects path = true ↔
      start.selects path = true ∨
        ∃ leaf ∈ leaves, ∃ graph, gap leaf = .ok graph ∧ graph.selects path = true := by
  induction leaves generalizing start with
  | nil =>
    cases hok
    simp
  | cons leaf rest ih =>
    rw [uniteGaps_cons] at hok
    obtain ⟨graph, hgraph, hrest⟩ := Result.bind_eq_ok_iff.1 hok
    rw [ih hrest, Graph.selects_merge, Selection.sup_apply, Bool.or_eq_true, or_assoc]
    simp only [List.mem_cons, or_and_right, exists_or, exists_eq_left, hgraph, Except.ok.injEq]
    simp only [exists_eq_left']

/-- Gaps over one kind unite to a well-formed gap over that kind. -/
theorem wellFormed_uniteGaps [Catalog κ]
    (hgap : ∀ leaf ∈ leaves, ∀ graph, gap leaf = .ok graph → graph.kind = kind ∧ graph.WellFormed)
    (hkind : start.kind = kind) (hstart : start.WellFormed)
    (hok : uniteGaps gap start leaves = .ok result) : result.kind = kind ∧ result.WellFormed := by
  induction leaves generalizing start with
  | nil =>
    cases hok
    exact ⟨hkind, hstart⟩
  | cons leaf rest ih =>
    rw [List.forall_mem_cons] at hgap
    rw [uniteGaps_cons] at hok
    obtain ⟨graph, hgraph, hrest⟩ := Result.bind_eq_ok_iff.1 hok
    obtain ⟨hsame, hwell⟩ := hgap.1 graph hgraph
    refine ih hgap.2 ?_ (hstart.merge hwell (hsame.trans hkind.symm)) hrest
    cases graph
    exact hkind

end Gaps

/-! ## One entry -/

def missingField (subgraph : Option (Graph κ)) (entity : Entity κ) (field : Nat) (gap : Graph κ) :
    Except Error (Graph κ) :=
  if entity.hasField field then missingUnder subgraph entity field gap
  else pure (gap.insertEntry field subgraph)

theorem missingEntries_cons (field : Nat) (subgraph : Option (Graph κ))
    (rest : List (Nat × Option (Graph κ))) (entity : Entity κ) (gap : Graph κ) :
    missingEntries ((field, subgraph) :: rest) entity gap =
      missingField subgraph entity field gap >>= missingEntries rest entity := by
  rw [missingEntries, missingField]
  split <;> rfl

/-- What an entity lacks is collected entry by entry, then normalized. -/
theorem missingGraph_eq (kind : κ) (entries : List (Nat × Option (Graph κ))) (entity : Entity κ) :
    missingGraph (.node kind entries) entity =
      missingEntries entries entity (.none entity.kind) >>= fun gap => pure gap.normalize := by
  rw [missingGraph]

theorem missingUnder_some (subgraph : Graph κ) (entity : Entity κ) (field : Nat) (gap : Graph κ) :
    missingUnder (some subgraph) entity field gap =
      if subgraph.isEmpty then pure gap
      else descend entity.kind field >>= fun member =>
        uniteGaps (missingGraph subgraph) (.none member) (entity.slot field).leaves >>=
          fun lacking => pure (if lacking.isEmpty then gap
            else gap.insertEntry field (some lacking.normalize)) := by
  rw [missingUnder]
  rfl

/-- What an entity lacks of a graph: a well-formed graph over its kind that selects what the graph
selects on the way to a lacking field. -/
structure IsMissing (graph : Graph κ) (entity : Entity κ) (missing : Graph κ) : Prop where
  kind : missing.kind = entity.kind
  wellFormed : missing.WellFormed
  selects : ∀ path, missing.selects path = true ↔
    path ≠ [] ∧ ∃ rest, graph.selects (path ++ rest) = true ∧ entity.Lacks (path ++ rest)

omit [DecidableEq κ] [Catalog κ] in
/-- What is lacking through a loaded field is lacking in a member under it. -/
theorem Lacks.of_hasField {entity : Entity κ} {field : Nat} (hheld : entity.hasField field = true)
    {path : List Nat} (h : entity.Lacks (field :: path)) :
    ∃ member ∈ (entity.slot field).leaves, member.Lacks path := by
  rcases h with hfalse | hmember
  · rw [hheld] at hfalse
    cases hfalse
  · exact hmember

/-- The united gap of the members under a field selects what some member lacks. -/
private theorem uniteGaps_spec {subgraph : Graph κ} {entity : Entity κ} (hfits : entity.Fits)
    {field : Nat} {member : κ} (hdescend : descend entity.kind field = .ok member)
    (hdeclared : Catalog.nested? entity.kind field = some subgraph.kind)
    (hmembers : ∀ leaf ∈ (entity.slot field).leaves, subgraph.kind = leaf.kind → ∀ missing,
      missingGraph subgraph leaf = .ok missing → IsMissing subgraph leaf missing)
    {lacking : Graph κ}
    (hok : uniteGaps (missingGraph subgraph) (.none member) (entity.slot field).leaves =
      .ok lacking) :
    lacking.kind = member ∧ lacking.WellFormed ∧ ∀ path, lacking.selects path = true ↔
      path ≠ [] ∧ ∃ more, subgraph.selects (path ++ more) = true ∧
        ∃ leaf ∈ (entity.slot field).leaves, leaf.Lacks (path ++ more) := by
  obtain ⟨hnested, shape, hcontent, -⟩ := descend_eq_ok_iff.1 hdescend
  have hsame : subgraph.kind = member := Option.some.inj (hdeclared.symm.trans hnested)
  have hleaves : ∀ leaf ∈ (entity.slot field).leaves, leaf.kind = member :=
    hfits.nested field member shape hcontent
  have hmissing : ∀ leaf ∈ (entity.slot field).leaves, ∀ missing,
      missingGraph subgraph leaf = .ok missing → IsMissing subgraph leaf missing :=
    fun leaf hleaf => hmembers leaf hleaf (hsame.trans (hleaves leaf hleaf).symm)
  have hgraphs : ∀ leaf ∈ (entity.slot field).leaves, ∀ missing,
      missingGraph subgraph leaf = .ok missing → missing.kind = member ∧ missing.WellFormed := by
    intro leaf hleaf missing hok
    have hspec := hmissing leaf hleaf missing hok
    exact ⟨hspec.kind.trans (hleaves leaf hleaf), hspec.wellFormed⟩
  obtain ⟨hkind, hwell⟩ := wellFormed_uniteGaps hgraphs rfl (.none member) hok
  refine ⟨hkind, hwell, fun path => ?_⟩
  rw [selects_uniteGaps hok, Graph.selects_none, Selection.bot_apply]
  constructor
  · rintro (hfalse | ⟨leaf, hleaf, missing, hgap, hpath⟩)
    · cases hfalse
    · obtain ⟨hne, more, hselects, hlacks⟩ :=
        ((hmissing leaf hleaf missing hgap).selects path).1 hpath
      exact ⟨hne, more, hselects, leaf, hleaf, hlacks⟩
  · rintro ⟨hne, more, hselects, leaf, hleaf, hlacks⟩
    obtain ⟨missing, hgap⟩ := exists_gap_of_uniteGaps hok leaf hleaf
    exact .inr ⟨leaf, hleaf, missing, hgap,
      ((hmissing leaf hleaf missing hgap).selects path).2 ⟨hne, more, hselects, hlacks⟩⟩

private def Contributes (subgraph : Option (Graph κ)) (entity : Entity κ) (field : Nat)
    (path : List Nat) : Prop :=
  ∃ more, Graph.attachedSelects subgraph (path ++ more) = true ∧
    entity.Lacks (field :: (path ++ more))

omit [DecidableEq κ] [Catalog κ] in
/-- Where the field is loaded, an entry contributes what some member lacks. -/
private theorem contributes_iff {subgraph : Graph κ} {entity : Entity κ} {field : Nat}
    (hheld : entity.hasField field = true) {path : List Nat} :
    Contributes (some subgraph) entity field path ↔
      ∃ more, subgraph.selects (path ++ more) = true ∧
        ∃ leaf ∈ (entity.slot field).leaves, leaf.Lacks (path ++ more) := by
  constructor
  · rintro ⟨more, hselects, hpath⟩
    obtain ⟨leaf, hleaf, hlacks⟩ := hpath.of_hasField hheld
    rcases Graph.attachedSelects_some_iff.1 hselects with hnil | hselects
    · rw [hnil] at hlacks
      exact hlacks.elim
    · exact ⟨more, hselects, leaf, hleaf, hlacks⟩
  · rintro ⟨more, hselects, hlacks⟩
    exact ⟨more, Graph.attachedSelects_some_iff.2 (.inr hselects), .inr hlacks⟩

/-- Under a loaded field, exactly what some member lacks is added to the gap. -/
private theorem missingUnder_spec {subgraph : Graph κ} {entity : Entity κ} (hfits : entity.Fits)
    {field : Nat} (hheld : entity.hasField field = true)
    (hdeclared : Catalog.nested? entity.kind field = some subgraph.kind)
    (hmembers : ∀ leaf ∈ (entity.slot field).leaves, subgraph.kind = leaf.kind → ∀ missing,
      missingGraph subgraph leaf = .ok missing → IsMissing subgraph leaf missing)
    {gap result : Graph κ} (hkind : gap.kind = entity.kind) (hgap : gap.WellFormed)
    (hok : missingUnder (some subgraph) entity field gap = .ok result) :
    result.kind = entity.kind ∧ result.WellFormed ∧ ∀ other rest,
      (result.selects (other :: rest) = true ↔ gap.selects (other :: rest) = true ∨
        other = field ∧ Contributes (some subgraph) entity field rest) := by
  have hunchanged : (∀ path, ¬Contributes (some subgraph) entity field path) →
      gap.kind = entity.kind ∧ gap.WellFormed ∧ ∀ other rest,
        (gap.selects (other :: rest) = true ↔ gap.selects (other :: rest) = true ∨
          other = field ∧ Contributes (some subgraph) entity field rest) :=
    fun hnothing => ⟨hkind, hgap, fun _ rest => (or_iff_left fun h => hnothing rest h.2).symm⟩
  simp only [contributes_iff hheld] at hunchanged ⊢
  rw [missingUnder_some] at hok
  split at hok
  · rename_i hempty
    cases hok
    refine hunchanged fun path ⟨more, hselects, _⟩ => ?_
    rw [Graph.isEmpty_iff.1 hempty] at hselects
    cases hselects
  · obtain ⟨member, hdescend, hok⟩ := Result.bind_eq_ok_iff.1 hok
    obtain ⟨lacking, hunite, hok⟩ := Result.bind_eq_ok_iff.1 hok
    obtain ⟨hnested, -⟩ := descend_eq_ok_iff.1 hdescend
    obtain ⟨hlkind, hlwell, hlselects⟩ := uniteGaps_spec hfits hdescend hdeclared hmembers hunite
    split at hok
    · rename_i hempty
      cases hok
      refine hunchanged fun path ⟨more, hselects, hlacks⟩ => ?_
      have hpath := (hlselects (path ++ more)).2 ⟨Graph.ne_nil_of_selects hselects, [],
        by rwa [List.append_nil], by rwa [List.append_nil]⟩
      rw [Graph.isEmpty_iff.1 hempty] at hpath
      cases hpath
    · rename_i hnonempty
      cases hok
      refine ⟨hkind, hgap.insertEntry ?_, fun other rest => ?_⟩
      · rintro added hadded
        cases hadded
        rw [hkind, Graph.WellFormed.kind_normalize, hlkind]
        exact ⟨hnested, hlwell.normalize⟩
      · rw [Graph.selects_insertEntry_iff, Graph.attachedSelects_some_iff, Graph.selects_normalize,
          hlselects]
        refine or_congr_right (and_congr_right fun _ => ?_)
        -- Some member lacks something, and so the field itself is selected.
        obtain ⟨path, hpath⟩ := Graph.exists_selects_of_not_isEmpty hnonempty
        obtain ⟨-, more, hmore⟩ := (hlselects path).1 hpath
        by_cases hrest : rest = []
        · subst hrest
          exact iff_of_true (.inl rfl) ⟨path ++ more, hmore⟩
        · simp [hrest]

private theorem missingField_spec {subgraph : Option (Graph κ)} {entity : Entity κ}
    (hfits : entity.Fits) {field : Nat}
    (hmembers : ∀ inner, subgraph = some inner → ∀ leaf ∈ (entity.slot field).leaves,
      inner.kind = leaf.kind → ∀ missing, missingGraph inner leaf = .ok missing →
        IsMissing inner leaf missing)
    (hdeclared : ∀ inner, subgraph = some inner →
      Catalog.nested? entity.kind field = some inner.kind ∧ inner.WellFormed)
    {gap result : Graph κ} (hkind : gap.kind = entity.kind) (hgap : gap.WellFormed)
    (hok : missingField subgraph entity field gap = .ok result) :
    result.kind = entity.kind ∧ result.WellFormed ∧ ∀ other rest,
      (result.selects (other :: rest) = true ↔ gap.selects (other :: rest) = true ∨
        other = field ∧ Contributes subgraph entity field rest) := by
  rw [missingField] at hok
  by_cases hheld : entity.hasField field = true
  · rw [if_pos hheld] at hok
    cases subgraph with
    | none =>
      cases hok
      refine ⟨hkind, hgap, fun other rest => (or_iff_left ?_).symm⟩
      rintro ⟨-, more, hselects, hpath⟩
      rw [Graph.attachedSelects_none_iff.1 hselects] at hpath
      obtain ⟨member, -, hmember⟩ := hpath.of_hasField hheld
      exact hmember
    | some inner =>
      exact missingUnder_spec hfits hheld (hdeclared inner rfl).1 (hmembers inner rfl) hkind
        hgap hok
  · rw [if_neg hheld] at hok
    cases hok
    refine ⟨hkind, hgap.insertEntry fun added hadded => by rw [hkind]; exact hdeclared added hadded,
      fun other rest => ?_⟩
    rw [Graph.selects_insertEntry_iff]
    refine or_congr_right (and_congr_right fun _ => ?_)
    constructor
    · intro hselects
      exact ⟨[], by rwa [List.append_nil], .inl (Bool.eq_false_iff.2 hheld)⟩
    · rintro ⟨more, hselects, -⟩
      exact Graph.attachedSelects_of_append hselects

/-! ## A whole graph -/

/-- What is added for the entries of a level is exactly what the entity lacks of them. -/
private theorem missingEntries_spec (kind : κ) {entries : List (Nat × Option (Graph κ))}
    {entity : Entity κ} (hfits : entity.Fits)
    (hmembers : ∀ field subgraph, (field, some subgraph) ∈ entries →
      ∀ leaf ∈ (entity.slot field).leaves, subgraph.kind = leaf.kind → ∀ missing,
        missingGraph subgraph leaf = .ok missing → IsMissing subgraph leaf missing)
    (hdeclared : ∀ field subgraph, (field, some subgraph) ∈ entries →
      Catalog.nested? entity.kind field = some subgraph.kind ∧ subgraph.WellFormed)
    {start gap : Graph κ} (hkind : start.kind = entity.kind) (hstart : start.WellFormed)
    (hok : missingEntries entries entity start = .ok gap) :
    gap.kind = entity.kind ∧ gap.WellFormed ∧ ∀ field rest,
      (gap.selects (field :: rest) = true ↔ start.selects (field :: rest) = true ∨
        ∃ more, (Graph.node kind entries).selects (field :: (rest ++ more)) = true ∧
          entity.Lacks (field :: (rest ++ more))) := by
  induction entries generalizing start with
  | nil =>
    cases hok
    refine ⟨hkind, hstart, fun field rest => (or_iff_left ?_).symm⟩
    rintro ⟨more, hselects, -⟩
    rw [Graph.isEmpty_iff.1 rfl] at hselects
    cases hselects
  | cons entry entries ih =>
    obtain ⟨field, subgraph⟩ := entry
    rw [missingEntries_cons] at hok
    obtain ⟨next, hfield, hrest⟩ := Result.bind_eq_ok_iff.1 hok
    obtain ⟨hnkind, hnwell, hnselects⟩ := missingField_spec hfits
      (fun inner heq => hmembers field inner (by rw [← heq]; exact List.mem_cons_self ..))
      (fun inner heq => hdeclared field inner (by rw [← heq]; exact List.mem_cons_self ..))
      hkind hstart hfield
    obtain ⟨hgkind, hgwell, hgselects⟩ := ih
      (fun field subgraph hentry => hmembers field subgraph (List.mem_cons_of_mem _ hentry))
      (fun field subgraph hentry => hdeclared field subgraph (List.mem_cons_of_mem _ hentry))
      hnkind hnwell hrest
    refine ⟨hgkind, hgwell, fun other rest => ?_⟩
    rw [hgselects, hnselects, or_assoc]
    refine or_congr_right ?_
    simp only [Graph.selects_cons_entry, Contributes, or_and_right, exists_or]
    refine or_congr_left ?_
    constructor
    · rintro ⟨rfl, more, hattached, hlacks⟩
      exact ⟨more, ⟨rfl, hattached⟩, hlacks⟩
    · rintro ⟨more, ⟨rfl, hattached⟩, hlacks⟩
      exact ⟨rfl, more, hattached, hlacks⟩

/-- The missing graph, if it can be determined, is what the entity lacks. -/
theorem missingGraph_spec {graph : Graph κ} (hgraph : graph.WellFormed) {entity : Entity κ}
    (hkind : graph.kind = entity.kind) (hentity : entity.Throughout Fits) {missing : Graph κ}
    (hok : missingGraph graph entity = .ok missing) : IsMissing graph entity missing := by
  induction graph using Graph.induction generalizing entity missing with
  | node kind entries ih =>
    rw [missingGraph_eq] at hok
    obtain ⟨gap, hentries, hok⟩ := Result.bind_eq_ok_iff.1 hok
    cases hok
    have hmembers : ∀ field subgraph, (field, some subgraph) ∈ entries →
        ∀ leaf ∈ (entity.slot field).leaves, subgraph.kind = leaf.kind → ∀ missing,
          missingGraph subgraph leaf = .ok missing → IsMissing subgraph leaf missing :=
      fun field subgraph hentry leaf hleaf hsame missing hmissing =>
        ih field subgraph hentry (hgraph.attached hentry) hsame (hentity.member hleaf) hmissing
    have hdeclared : ∀ field subgraph, (field, some subgraph) ∈ entries →
        Catalog.nested? entity.kind field = some subgraph.kind ∧ subgraph.WellFormed := by
      intro field subgraph hentry
      rw [← hkind]
      exact ⟨hgraph.declared hentry, hgraph.attached hentry⟩
    obtain ⟨hgkind, hgwell, hgselects⟩ :=
      missingEntries_spec kind hentity.self hmembers hdeclared rfl (.none entity.kind) hentries
    refine ⟨(Graph.WellFormed.kind_normalize gap).trans hgkind, hgwell.normalize, fun path => ?_⟩
    rw [Graph.selects_normalize]
    cases path with
    | nil => exact iff_of_false (by rw [Graph.selects_nil]; nofun) fun h => h.1 rfl
    | cons field rest =>
      rw [hgselects, Graph.selects_none, Selection.bot_apply]
      simp only [Bool.false_eq_true, false_or, ne_eq, reduceCtorEq, not_false_eq_true, true_and,
        List.cons_append]

/-! ## When the missing graph can be determined -/

/-- Whether a path can be followed as far as its fields are loaded: a loaded field that it goes on
from has members under it, and each of them can be followed further. -/
def Passes (entity : Entity κ) : List Nat → Prop
  | [] => True
  | field :: rest => entity.hasField field = true → rest ≠ [] →
      (∃ member, descend entity.kind field = .ok member) ∧
        ∀ leaf ∈ (entity.slot field).leaves, leaf.Passes rest

/-- Whether what an entity lacks of one entry of a level can be determined. -/
private def Determined (subgraph : Option (Graph κ)) (entity : Entity κ) (field : Nat) : Prop :=
  entity.hasField field = true → ∀ inner, subgraph = some inner → ¬inner.isEmpty = true →
    (∃ member, descend entity.kind field = .ok member) ∧
      ∀ leaf ∈ (entity.slot field).leaves, ∃ missing, missingGraph inner leaf = .ok missing

/-- Whether an entry can be decided does not depend on the gap so far. -/
private theorem exists_missingField_iff {subgraph : Option (Graph κ)} {entity : Entity κ}
    {field : Nat} {gap : Graph κ} :
    (∃ result, missingField subgraph entity field gap = .ok result) ↔
      Determined subgraph entity field := by
  rw [missingField]
  by_cases hheld : entity.hasField field = true
  · rw [if_pos hheld]
    cases subgraph with
    | none => exact iff_of_true ⟨gap, rfl⟩ fun _ _ heq => nomatch heq
    | some inner =>
      rw [missingUnder_some]
      by_cases hempty : inner.isEmpty = true
      · rw [if_pos hempty]
        refine iff_of_true ⟨gap, rfl⟩ fun _ _ heq hnonempty => ?_
        exact absurd (Option.some.inj heq ▸ hempty) hnonempty
      · rw [if_neg hempty]
        constructor
        · rintro ⟨result, hok⟩ - _ ⟨⟩ -
          obtain ⟨member, hdescend, hok⟩ := Result.bind_eq_ok_iff.1 hok
          obtain ⟨lacking, hunite, -⟩ := Result.bind_eq_ok_iff.1 hok
          exact ⟨⟨member, hdescend⟩, exists_gap_of_uniteGaps hunite⟩
        · intro hdetermined
          obtain ⟨⟨member, hdescend⟩, hleaves⟩ := hdetermined hheld inner rfl hempty
          obtain ⟨lacking, hunite⟩ : ∃ lacking, uniteGaps (missingGraph inner) (.none member)
              (entity.slot field).leaves = .ok lacking := exists_uniteGaps hleaves
          exact ⟨_, Result.bind_eq_ok_iff.2
            ⟨member, hdescend, Result.bind_eq_ok_iff.2 ⟨lacking, hunite, rfl⟩⟩⟩
  · rw [if_neg hheld]
    exact iff_of_true ⟨_, rfl⟩ fun hheld' => absurd hheld' hheld

private theorem exists_missingEntries_iff {entries : List (Nat × Option (Graph κ))}
    {entity : Entity κ} {start : Graph κ} :
    (∃ gap, missingEntries entries entity start = .ok gap) ↔
      ∀ entry ∈ entries, Determined entry.2 entity entry.1 := by
  induction entries generalizing start with
  | nil => exact iff_of_true ⟨start, rfl⟩ nofun
  | cons entry rest ih =>
    obtain ⟨field, subgraph⟩ := entry
    rw [missingEntries_cons, List.forall_mem_cons]
    constructor
    · rintro ⟨gap, hok⟩
      obtain ⟨next, hfield, hrest⟩ := Result.bind_eq_ok_iff.1 hok
      exact ⟨exists_missingField_iff.1 ⟨next, hfield⟩, ih.1 ⟨gap, hrest⟩⟩
    · rintro ⟨hfield, hrest⟩
      obtain ⟨next, hnext⟩ := exists_missingField_iff.2 hfield
      obtain ⟨gap, hgap⟩ := ih.2 hrest
      exact ⟨gap, Result.bind_eq_ok_iff.2 ⟨next, hnext, hgap⟩⟩

/-- The missing graph can be determined exactly when every selected path can be followed as far as
its fields are loaded. -/
theorem exists_missingGraph_iff_passes {graph : Graph κ} {entity : Entity κ} :
    (∃ missing, missingGraph graph entity = .ok missing) ↔
      ∀ path, graph.selects path = true → entity.Passes path := by
  induction graph using Graph.induction generalizing entity with
  | node kind entries ih =>
    have hlevel : (∃ missing, missingGraph (.node kind entries) entity = .ok missing) ↔
        ∃ gap, missingEntries entries entity (.none entity.kind) = .ok gap := by
      simp only [missingGraph_eq, Result.bind_eq_ok_iff]
      constructor
      · rintro ⟨_, gap, hgap, -⟩
        exact ⟨gap, hgap⟩
      · rintro ⟨gap, hgap⟩
        exact ⟨_, gap, hgap, rfl⟩
    rw [hlevel, exists_missingEntries_iff]
    constructor
    · intro hdetermined path hpath
      cases path with
      | nil => trivial
      | cons field rest =>
        intro hheld hrest
        obtain ⟨inner, hentry, hinner⟩ := Graph.exists_attached_of_selects hpath hrest
        have hnonempty : ¬inner.isEmpty = true :=
          Bool.eq_false_iff.1 (Graph.isEmpty_eq_false_of_selects hinner)
        obtain ⟨hdescend, hleaves⟩ := hdetermined _ hentry hheld inner rfl hnonempty
        exact ⟨hdescend, fun leaf hleaf =>
          (ih field inner hentry).1 (hleaves leaf hleaf) rest hinner⟩
    · rintro hpasses ⟨field, subgraph⟩ hentry hheld inner rfl hnonempty
      have hbelow : ∀ path, inner.selects path = true →
          (∃ member, descend entity.kind field = .ok member) ∧
            ∀ leaf ∈ (entity.slot field).leaves, leaf.Passes path := fun path hpath =>
        hpasses _ (Graph.selects_of_attached hentry hpath) hheld (Graph.ne_nil_of_selects hpath)
      obtain ⟨path, hpath⟩ := Graph.exists_selects_of_not_isEmpty hnonempty
      exact ⟨(hbelow path hpath).1, fun leaf hleaf =>
        (ih field inner hentry).2 fun path hpath => (hbelow path hpath).2 leaf hleaf⟩

/-- A path can be followed where it leads through regular fields. -/
private theorem passes_of_onPath {graph : Graph κ} (hgraph : graph.WellFormed) {entity : Entity κ}
    (hkind : graph.kind = entity.kind) (hentity : entity.Throughout Fits) {path : List Nat}
    (hpath : graph.selects path = true)
    (hregular : Catalog.OnPath Catalog.Regular graph.kind path.dropLast) : entity.Passes path := by
  induction path generalizing graph entity with
  | nil => trivial
  | cons field rest ih =>
    intro _ hrest
    obtain ⟨inner, hentry, hinner⟩ := Graph.exists_attached_of_selects hpath hrest
    have hdeclared := hgraph.declared hentry
    rw [List.dropLast_cons_of_ne_nil hrest] at hregular
    obtain ⟨shape, hcontent, hvisible⟩ := hregular.1.content hdeclared
    rw [hkind] at hdeclared hcontent
    refine ⟨⟨inner.kind, descend_eq_ok_iff.2 ⟨hdeclared, shape, hcontent, hvisible⟩⟩,
      fun leaf hleaf => ?_⟩
    have hsame : inner.kind = leaf.kind :=
      (hentity.self.nested field inner.kind shape hcontent leaf hleaf).symm
    exact ih (hgraph.attached hentry) hsame (hentity.member hleaf) hinner
      (hregular.2 inner.kind (hgraph.declared hentry))

/-- The missing graph can be determined whenever every field that the graph passes through on the
way to others is regular. -/
theorem exists_missingGraph {graph : Graph κ} (hgraph : graph.WellFormed) {entity : Entity κ}
    (hkind : graph.kind = entity.kind) (hentity : entity.Throughout Fits)
    (hregular : ∀ path, graph.selects path = true →
      Catalog.OnPath Catalog.Regular graph.kind path.dropLast) :
    ∃ missing, missingGraph graph entity = .ok missing :=
  exists_missingGraph_iff_passes.2 fun path hpath =>
    passes_of_onPath hgraph hkind hentity hpath (hregular path hpath)

/-- An entity that has a graph lacks nothing that the graph selects. -/
theorem not_lacks_of_hasGraph {graph : Graph κ} (hgraph : graph.WellFormed) {entity : Entity κ}
    (hkind : graph.kind = entity.kind) (hentity : entity.Throughout Fits)
    (hhas : entity.hasGraph graph = .ok true) {path : List Nat}
    (hpath : graph.selects path = true) : ¬entity.Lacks path := by
  obtain ⟨missing, hmissing, hempty⟩ := Result.bind_eq_ok_iff.1 hhas
  have hspec := missingGraph_spec hgraph hkind hentity hmissing
  intro hlacks
  have hne : path ≠ [] := by
    rintro rfl
    exact hlacks
  have hselects := (hspec.selects path).2 ⟨hne, [], by rwa [List.append_nil],
    by rwa [List.append_nil]⟩
  rw [Graph.isEmpty_iff.1 (Except.ok.inj hempty)] at hselects
  cases hselects

end PartialEntity.Entity
