import PartialEntity.Proofs.Entity.Extend

/-!
# What an entity carries

An entity carries a path when the path leads through loaded fields, and through all members under
them, to its end.  An entity has a graph exactly when it carries every path that the graph selects.
This does not ask where the entity comes from: it may store anything that its kind allows, and
members may be told apart by texts that a copy does not keep.
-/

namespace PartialEntity.Entity

variable {κ : Type} [DecidableEq κ] [Catalog κ]

/-- Whether a path can be followed to its end, through every member on the way. -/
def Carries (entity : Entity κ) : List Nat → Prop
  | [] => True
  | field :: rest => entity.hasField field = true ∧ (rest ≠ [] →
      (∃ kind, descend entity.kind field = .ok kind) ∧
        ∀ member ∈ (entity.slot field).leaves, member.Carries rest)

variable {graph missing : Graph κ} {entity : Entity κ} {path : List Nat}

/-- An entity that carries a path lacks nothing on it. -/
theorem Carries.not_lacks (h : entity.Carries path) : ¬entity.Lacks path := by
  induction path generalizing entity with
  | nil => exact not_false
  | cons field rest ih =>
    rintro (hfield | ⟨member, hmember, hlacks⟩)
    · rw [h.1] at hfield
      cases hfield
    · have hrest : rest ≠ [] := by
        rintro rfl
        exact hlacks
      exact ih ((h.2 hrest).2 member hmember) hlacks

/-! ## Having a graph -/

/-- An entity carries a path that can be followed and on which it lacks nothing. -/
theorem Passes.carries (h : entity.Passes path) (hlacks : ¬entity.Lacks path) :
    entity.Carries path := by
  induction path generalizing entity with
  | nil => trivial
  | cons field rest ih =>
    have hheld : entity.hasField field = true :=
      Bool.of_not_eq_false fun hfalse => hlacks (.inl hfalse)
    refine ⟨hheld, fun hrest => ?_⟩
    obtain ⟨hdescend, hleaves⟩ := h hheld hrest
    exact ⟨hdescend, fun leaf hleaf =>
      ih (hleaves leaf hleaf) fun hmember => hlacks (.inr ⟨leaf, hleaf, hmember⟩)⟩

/-- Where the missing graph can be determined, the entity carries what it does not lack. -/
theorem carries_of_not_lacks (hok : missingGraph graph entity = .ok missing)
    (hpath : graph.selects path = true) (hlacks : ¬entity.Lacks path) : entity.Carries path :=
  (exists_missingGraph_iff_passes.1 ⟨missing, hok⟩ path hpath).carries hlacks

/-- What an entity does not carry of a graph is missing. -/
theorem selects_or_carries (hgraph : graph.WellFormed) (hkind : graph.kind = entity.kind)
    (hentity : entity.Throughout Fits) (hok : missingGraph graph entity = .ok missing)
    (hpath : graph.selects path = true) : missing.selects path = true ∨ entity.Carries path := by
  by_cases hlacks : entity.Lacks path
  · refine .inl (((missingGraph_spec hgraph hkind hentity hok).selects path).2
      ⟨Graph.ne_nil_of_selects hpath, [], ?_, ?_⟩)
    · rwa [List.append_nil]
    · rwa [List.append_nil]
  · exact .inr (carries_of_not_lacks hok hpath hlacks)

omit [DecidableEq κ] [Catalog κ] in
/-- Members without gaps have no gap together. -/
private theorem uniteGaps_eq_none {gap : Entity κ → Except Error (Graph κ)} {kind : κ}
    {leaves : List (Entity κ)} (h : ∀ leaf ∈ leaves, gap leaf = .ok (.none leaf.kind)) :
    uniteGaps gap (.none kind) leaves = .ok (.none kind) := by
  induction leaves with
  | nil => rfl
  | cons leaf rest ih =>
    rw [List.forall_mem_cons] at h
    rw [uniteGaps_cons, h.1]
    exact ih h.2

private theorem missingField_eq_self {field : Nat} {subgraph : Option (Graph κ)} {gap : Graph κ}
    (hheld : entity.hasField field = true)
    (hattached : ∀ inner, subgraph = some inner → ∀ path, inner.selects path = true →
      (∃ kind, descend entity.kind field = .ok kind) ∧
        ∀ leaf ∈ (entity.slot field).leaves,
          missingGraph inner leaf = .ok (.none leaf.kind)) :
    missingField subgraph entity field gap = .ok gap := by
  rw [missingField, if_pos hheld]
  cases subgraph with
  | none => rfl
  | some inner =>
    rw [missingUnder_some]
    by_cases hempty : inner.isEmpty = true
    · rw [if_pos hempty]
      rfl
    · obtain ⟨path, hpath⟩ := Graph.exists_selects_of_not_isEmpty hempty
      obtain ⟨⟨kind, hdescend⟩, hleaves⟩ := hattached inner rfl path hpath
      rw [if_neg hempty, hdescend]
      change (uniteGaps (missingGraph inner) (.none kind) _ >>= _) = _
      rw [uniteGaps_eq_none hleaves]
      rfl

/-- Entries of which nothing is lacking add nothing to the gap. -/
private theorem missingEntries_eq_self {entries : List (Nat × Option (Graph κ))} {gap : Graph κ}
    (h : ∀ field subgraph, (field, subgraph) ∈ entries →
      missingField subgraph entity field gap = .ok gap) :
    missingEntries entries entity gap = .ok gap := by
  induction entries with
  | nil => rfl
  | cons entry rest ih =>
    obtain ⟨field, subgraph⟩ := entry
    rw [missingEntries_cons, h field subgraph (List.mem_cons_self ..)]
    exact ih fun other attached hentry => h other attached (List.mem_cons_of_mem _ hentry)

/-- Nothing is missing from an entity that carries everything that a graph selects. -/
theorem missingGraph_eq_none (h : ∀ path, graph.selects path = true → entity.Carries path) :
    missingGraph graph entity = .ok (.none entity.kind) := by
  induction graph using Graph.induction generalizing entity with
  | node kind entries ih =>
    have hentries : missingEntries entries entity (.none entity.kind) =
        .ok (.none entity.kind) := by
      refine missingEntries_eq_self fun field subgraph hentry => ?_
      have hheld : entity.Carries [field] :=
        h _ (Graph.selects_singleton_iff.2 (List.mem_map_of_mem hentry))
      refine missingField_eq_self hheld.1 fun inner heq path hpath => ?_
      subst heq
      have hbelow : ∀ path, inner.selects path = true → entity.Carries (field :: path) :=
        fun path hpath => h _ (Graph.selects_of_attached hentry hpath)
      refine ⟨((hbelow path hpath).2 (Graph.ne_nil_of_selects hpath)).1, fun leaf hleaf => ?_⟩
      exact ih field inner hentry fun path hpath =>
        ((hbelow path hpath).2 (Graph.ne_nil_of_selects hpath)).2 leaf hleaf
    rw [missingGraph_eq, hentries]
    rfl

/-- An entity holds a graph all of whose paths can be followed through every member. -/
theorem hasGraph_of_carries (h : ∀ path, graph.selects path = true → entity.Carries path) :
    entity.hasGraph graph = .ok true := by
  rw [hasGraph, missingGraph_eq_none h]
  rfl

/-- An entity has a graph exactly when it carries everything that the graph selects. -/
theorem hasGraph_iff (hgraph : graph.WellFormed) (hkind : graph.kind = entity.kind)
    (hentity : entity.Throughout Fits) :
    entity.hasGraph graph = .ok true ↔ ∀ path, graph.selects path = true → entity.Carries path := by
  refine ⟨fun hhas path hpath => ?_, hasGraph_of_carries⟩
  obtain ⟨missing, hmissing, hempty⟩ := Result.bind_eq_ok_iff.1 hhas
  have hnothing := Graph.isEmpty_iff.1 (Except.ok.inj hempty) path
  rcases selects_or_carries hgraph hkind hentity hmissing hpath with hselects | hcarries
  · rw [hnothing] at hselects
    cases hselects
  · exact hcarries

/-! ## Copies -/

/-- A copy carries what the graph selects and the entity carries. -/
theorem carries_cloneGraph (hgraph : graph.WellFormed) (hentity : entity.Throughout Fits)
    {copy : Entity κ} (hok : cloneGraph graph entity = .ok copy)
    (hpath : graph.selects path = true) (hcarries : entity.Carries path) : copy.Carries path := by
  induction graph using Graph.induction generalizing entity copy path with
  | node kind entries ih =>
    cases path with
    | nil => trivial
    | cons field rest =>
      obtain ⟨value, hvalue, rfl⟩ := exists_assignAll_of_cloneGraph hgraph.entry_unique hok
      obtain ⟨subgraph, hentry, -⟩ := Graph.selects_cons_iff.1 hpath
      have hfield : field ∈ (Graph.node kind entries).toList := List.mem_map_of_mem hentry
      refine ⟨?_, fun hrest => ?_⟩
      · rw [hasField_assignAll_reference, decide_eq_true hfield]
      · obtain ⟨⟨member, hdescend⟩, hleaves⟩ := hcarries.2 hrest
        rw [kind_assignAll, slot_assignAll_reference,
          if_pos ⟨hfield, hentity.self.lt_size field hcarries.1⟩]
        refine ⟨⟨member, hdescend⟩, fun result hresult => ?_⟩
        obtain ⟨-, shape, hcontent, -⟩ := descend_eq_ok_iff.1 hdescend
        obtain ⟨inner, hattached, hinner⟩ := Graph.exists_attached_of_selects hpath hrest
        have hcopied := hvalue field (some inner) hattached
        rw [copySlot, hcontent] at hcopied
        obtain ⟨_, -, hcopied⟩ := Result.bind_eq_ok_iff.1 hcopied
        obtain ⟨leaf, hleaf, hclone⟩ := Tree.exists_of_mem_leaves_mapM hcopied hresult
        exact ih field inner hattached (hgraph.attached hattached) (hentity.member hleaf) hclone
          hinner (hleaves leaf hleaf)

/-- A field that is pulled through a graph carries what the graph selects there and the other
entity carries. -/
theorem carries_pull (hgraph : graph.WellFormed) {other pulled : Entity κ}
    (hkind : entity.kind = other.kind) (hlength : entity.slots.length = other.slots.length)
    (hother : other.Throughout Fits) {field : Nat} {rest : List Nat}
    (hok : entity.pull field other (some graph) = .ok pulled)
    (hpath : graph.selects (field :: rest) = true) (hcarries : other.Carries (field :: rest)) :
    pulled.Carries (field :: rest) := by
  have hlt : field < entity.slots.length := by
    rw [hlength, hother.self.length_slots]
    exact hother.self.lt_size field hcarries.1
  have hheld : pulled.hasField field = true := by
    rw [hasField_of_pull hok, decide_eq_true rfl, Bool.or_true]
  refine ⟨hheld, fun hrest => ?_⟩
  obtain ⟨⟨inner, hdescend⟩, hleaves⟩ := hcarries.2 hrest
  obtain ⟨-, shape, hnested, -⟩ := descend_eq_ok_iff.1 hdescend
  rw [← hkind] at hdescend hnested
  -- A field that the path goes on under stores members, so they have been copied.
  rcases pull_cases hok with ⟨hcontent, -⟩ | ⟨member, _, value, -, hvalue, rfl⟩ | ⟨-, hcontent, -⟩
  · rw [hcontent] at hnested
    cases hnested
  · refine ⟨⟨inner, hdescend⟩, fun result hresult => ?_⟩
    rw [slot_assign, if_pos ⟨rfl, hlt⟩] at hresult
    obtain ⟨leaf, hleaf, hclone⟩ :=
      Tree.exists_of_mem_leaves_mapM (mapM_of_cloneTree hvalue) hresult
    exact carries_cloneGraph (wellFormed_under hgraph member) (hother.member hleaf) hclone
      (by rwa [selects_under hgraph hrest]) (hleaves leaf hleaf)
  · exact absurd hnested (hcontent inner shape)

end PartialEntity.Entity
