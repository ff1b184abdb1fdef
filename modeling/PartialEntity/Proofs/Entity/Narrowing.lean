import PartialEntity.Proofs.Entity.Typing

/-!
# Narrowing leaves exactly what was asked for

Over regular fields narrowing does not fail, and where nothing selected is lacking it leaves exactly
the selected fields loaded, at every depth.  Unlike a restriction this does not ask what fields that
are not loaded store, nor how members are told apart: members that become equal without the fields
that go are merged, and what remains is still narrowed.
-/

namespace PartialEntity.Entity

variable {κ : Type}

/-- Whether exactly the fields of a selection are loaded, and under them, at every depth, exactly
those selected there.  What a field stores that is not loaded does not count. -/
inductive LoadedExactly : Selection → Entity κ → Prop
  | intro {selection : Selection} {entity : Entity κ}
      (fields : ∀ field, entity.hasField field = selection [field])
      (members : ∀ field, entity.hasField field = true →
        ∀ member ∈ (entity.slot field).leaves, LoadedExactly (selection.under field) member) :
      LoadedExactly selection entity

/-- What is loaded is compared with what is selected below the entity itself. -/
theorem LoadedExactly.congr {left right : Selection} {entity : Entity κ}
    (h : LoadedExactly left entity) (hsame : ∀ path, path ≠ [] → left path = right path) :
    LoadedExactly right entity := by
  induction h generalizing right with
  | intro fields _ ih =>
    refine .intro (fun field => ?_) fun field hheld member hmember => ?_
    · rw [fields, hsame [field] (List.cons_ne_nil field [])]
    · exact ih field hheld member hmember fun path _ => hsame _ (List.cons_ne_nil field path)

variable [Catalog κ]

/-- Nothing is loaded in an entity of which everything was unloaded. -/
theorem loadedExactly_clearFields_held (entity : Entity κ) {selection : Selection}
    (hselection : ∀ path, path ≠ [] → selection path = false) :
    LoadedExactly selection (entity.clearFields entity.held) := by
  have hheld : ∀ field, (entity.clearFields entity.held).hasField field = false := by
    intro field
    rw [hasField_clearFields]
    exact Bool.and_not_self _
  refine .intro (fun field => ?_) fun field hfield => ?_
  · rw [hheld, hselection [field] (List.cons_ne_nil field [])]
  · rw [hheld] at hfield
    cases hfield

variable [DecidableEq κ] {kind : κ} {graph : Graph κ} {entries : List (Nat × Option (Graph κ))}
  {entity : Entity κ} {field : Nat}

/-! ## One field -/

/-- Narrowing a field that is selected and declares a kind narrows the members to what is attached
to the field.  Any other field is left alone. -/
theorem narrowField_cases (entries : List (Nat × Option (Graph κ))) (field : Nat)
    (entity : Entity κ) :
    (narrowField entries field entity = (entity, .ok ()) ∧
        (field ∈ entries.map (·.1) → Catalog.nested? entity.kind field = none)) ∨
      ∃ subgraph member, (field, subgraph) ∈ entries ∧
        Catalog.nested? entity.kind field = some member ∧
        narrowField entries field entity = forMembers (narrowMember subgraph) field entity := by
  rw [narrowField, intersectMember_eq]
  cases hfind : Assoc.find? field entries with
  | none => exact .inl ⟨rfl, fun hmem => absurd hmem (Assoc.find?_eq_none_iff.1 hfind)⟩
  | some subgraph =>
    cases hnested : Catalog.nested? entity.kind field with
    | none => exact .inl ⟨rfl, fun _ => rfl⟩
    | some member => exact .inr ⟨subgraph, member, Assoc.mem_of_find? hfind, rfl, rfl⟩

theorem hasField_narrowField (entries : List (Nat × Option (Graph κ))) (field : Nat)
    (entity : Entity κ) (other : Nat) :
    (narrowField entries field entity).1.hasField other = entity.hasField other := by
  rcases narrowField_cases entries field entity with ⟨heq, -⟩ | ⟨subgraph, -, -, -, heq⟩
  · rw [heq]
  · rw [heq, hasField_forMembers]

/-- Narrowing the members under a field changes nothing but this field. -/
theorem changedAt_narrowField (entries : List (Nat × Option (Graph κ))) (field : Nat)
    (entity : Entity κ) : ChangedAt (· = field) entity (narrowField entries field entity).1 := by
  rcases narrowField_cases entries field entity with ⟨heq, -⟩ | ⟨subgraph, -, -, -, heq⟩
  · rw [heq]
    exact .refl _ entity
  · rw [heq]
    exact changedAt_forMembers (by rfl) _ entity

/-! ## Success -/

section Hereditary

variable {P : κ → Entity κ → Prop} (hP : Hereditary P)
  (hclear : ∀ {kind : κ} {entity : Entity κ}, P kind entity → ∀ fields,
    P kind (entity.clearFields fields))

include hP hclear

private theorem Hereditary.narrowField_of (h : P kind entity)
    (hinner : ∀ inner, (field, some inner) ∈ entries → ∀ leaf ∈ (entity.slot field).leaves,
      P leaf.kind (intersect inner leaf).1) :
    P kind (narrowField entries field entity).1 := by
  rcases narrowField_cases entries field entity with ⟨heq, -⟩ | ⟨subgraph, -, hentry, -, heq⟩
  · rwa [heq]
  · rw [heq]
    refine hP.forMembers h fun leaf hleaf => ?_
    cases subgraph with
    | none => exact hclear (hP.member h hleaf) _
    | some inner => exact hinner inner hentry leaf hleaf

/-- What unloading fields keeps is kept by narrowing, also after an error. -/
theorem Hereditary.intersect (h : P kind entity) : P kind (intersect graph entity).1 := by
  induction graph using Graph.induction generalizing kind entity with
  | node gkind entries ih =>
    rw [intersect_eq]
    refine forFields_induction (P := P kind) (fun field _ next hnext => ?_) (hclear h _)
    exact hP.narrowField_of hclear hnext fun inner hentry leaf hleaf =>
      ih field inner hentry (hP.member hnext hleaf)

/-- A hereditary property that survives unloading survives narrowing the members under a field. -/
theorem Hereditary.narrowField (h : P kind entity) :
    P kind (narrowField entries field entity).1 :=
  hP.narrowField_of hclear h fun _ _ _ hleaf => hP.intersect hclear (hP.member h hleaf)

end Hereditary

theorem wellTyped_narrowField (h : WellTyped kind entity) :
    WellTyped kind (narrowField entries field entity).1 :=
  hereditary_wellTyped.narrowField wellTyped_clearFields h

omit [Catalog κ] [DecidableEq κ] in
/-- A change whose steps keep an invariant and succeed under it succeeds. -/
theorem forFields_ok {P : Entity κ → Prop}
    {change : Nat → Entity κ → Entity κ × Except Error Unit} {fields : List Nat}
    (hstep : ∀ field ∈ fields, ∀ next, P next →
      P (change field next).1 ∧ (change field next).2 = .ok ()) (hstart : P entity) :
    (forFields change fields entity).2 = .ok () := by
  induction fields generalizing entity with
  | nil => rfl
  | cons field rest ih =>
    rw [List.forall_mem_cons] at hstep
    obtain ⟨hnext, hok⟩ := hstep.1 entity hstart
    rw [forFields]
    split
    · rename_i entity' stop heq
      rw [heq] at hok
      cases hok
    · rename_i entity' done heq
      rw [heq] at hnext
      exact ih hstep.2 hnext

/-- Narrowing to a graph over regular fields succeeds, whatever is loaded. -/
theorem intersect_ok (h : WellTyped kind entity)
    (hregular : ∀ path, graph.selects path = true → Catalog.OnPath Catalog.Regular kind path) :
    (intersect graph entity).2 = .ok () := by
  induction graph using Graph.induction generalizing kind entity with
  | node gkind entries ih =>
    rw [intersect_eq]
    refine forFields_ok (P := WellTyped kind)
      (fun field _ next hnext => ⟨wellTyped_narrowField hnext, ?_⟩) (wellTyped_clearFields h _)
    rcases narrowField_cases entries field next with
      ⟨heq, -⟩ | ⟨subgraph, member, hentry, hnested, heq⟩
    · rw [heq]
    · have hselected : (Graph.node gkind entries).selects [field] = true :=
        Graph.selects_singleton_iff.2 (List.mem_map_of_mem hentry)
      rw [hnext.kind_eq] at hnested
      obtain ⟨shape, hcontent, hvisible⟩ := (hregular _ hselected).1.content hnested
      have hdescend : descend next.kind field = .ok member := by
        rw [hnext.kind_eq]
        exact descend_eq_ok_iff.2 ⟨hnested, shape, hcontent, hvisible⟩
      rw [heq]
      refine forMembers_ok_iff.2 ⟨⟨member, hdescend⟩, fun leaf hleaf => ?_⟩
      cases subgraph with
      | none => rfl
      | some inner =>
        exact ih field inner hentry (wellTyped_leaf hnext hcontent hleaf) fun path hpath =>
          (hregular _ (Graph.selects_of_attached hentry hpath)).2 member hnested

/-! ## What is left -/

/-- Narrowing the members of a field leaves exactly what is selected under the field. -/
private theorem loadedExactly_narrowMember (hgraph : graph.WellFormed)
    {subgraph : Option (Graph κ)} (hentry : (field, subgraph) ∈ graph.entries) {leaf : Entity κ}
    (hinner : ∀ inner, subgraph = some inner →
      LoadedExactly inner.selects (intersect inner leaf).1) :
    LoadedExactly (graph.selects.under field) (narrowMember subgraph leaf).1 := by
  have hunder : ∀ path, graph.selects.under field path = Graph.attachedSelects subgraph path :=
    hgraph.selects_cons hentry
  cases subgraph with
  | none =>
    apply loadedExactly_clearFields_held
    intro path hne
    rw [hunder, Bool.eq_false_iff]
    exact fun hselects => hne (Graph.attachedSelects_none_iff.1 hselects)
  | some inner =>
    refine (hinner inner rfl).congr fun path hne => ?_
    rw [hunder, Bool.eq_iff_iff, Graph.attachedSelects_some_iff, or_iff_right hne]

/-- Narrowing a selected field leaves exactly what is selected under it. -/
private theorem loadedExactly_narrowField (hgraph : graph.WellFormed) (h : WellTyped kind entity)
    (hselected : graph.selects [field] = true) (hregular : Catalog.Regular kind field)
    (hinner : ∀ inner, (field, some inner) ∈ graph.entries →
      ∀ member, Catalog.nested? kind field = some member →
        ∀ leaf ∈ (entity.slot field).leaves, LoadedExactly inner.selects (intersect inner leaf).1)
    (hok : (narrowField graph.entries field entity).2 = .ok ()) :
    ∀ leaf ∈ ((narrowField graph.entries field entity).1.slot field).leaves,
      LoadedExactly (graph.selects.under field) leaf := by
  intro leaf hleaf
  rcases narrowField_cases graph.entries field entity with
    ⟨heq, hnested⟩ | ⟨subgraph, member, hentry, hnested, heq⟩
  · -- A regular field that declares no kind has no members.
    rw [heq] at hleaf
    obtain ⟨member, shape, hcontent⟩ := exists_content_of_mem_leaves h hleaf
    have hdeclared := hregular.copyable member shape hcontent
    rw [← h.kind_eq, hnested (Graph.selects_singleton_iff.1 hselected)] at hdeclared
    cases hdeclared
  · rw [heq] at hleaf hok
    obtain ⟨origin, horigin, hresult⟩ := exists_of_mem_leaves_forMembers hok hleaf
    obtain rfl : (narrowMember subgraph origin).1 = leaf := congrArg Prod.fst hresult
    refine loadedExactly_narrowMember hgraph hentry fun inner heq => ?_
    subst heq
    exact hinner inner hentry member (h.kind_eq ▸ hnested) origin horigin

/-- Wherever narrowing stops, the fields that stay are those that the graph selects. -/
theorem hasField_intersect (graph : Graph κ) (entity : Entity κ) (field : Nat) :
    (intersect graph entity).1.hasField field =
      (entity.hasField field && graph.selects [field]) := by
  obtain ⟨gkind, entries⟩ := graph
  rw [intersect_eq]
  refine forFields_induction (P := fun next => next.hasField field =
    (entity.hasField field && (Graph.node gkind entries).selects [field]))
    (fun other _ next hnext => ?_) ?_
  · rw [hasField_narrowField, hnext]
  · rw [hasField_clearFields, contains_diff_fields]
    cases entity.hasField field <;> simp

/-- Narrowing an entity that carries all that a graph over regular fields selects leaves exactly
that. -/
theorem loadedExactly_intersect (hgraph : graph.WellFormed) (h : WellTyped kind entity)
    (hregular : ∀ path, graph.selects path = true → Catalog.OnPath Catalog.Regular kind path)
    (hcarries : ∀ path, graph.selects path = true → entity.Carries path) :
    LoadedExactly graph.selects (intersect graph entity).1 := by
  induction graph using Graph.induction generalizing kind entity with
  | node gkind entries ih =>
    have hheld : ∀ field, (intersect (.node gkind entries) entity).1.hasField field =
        (Graph.node gkind entries).selects [field] := by
      intro field
      rw [hasField_intersect]
      cases hselected : (Graph.node gkind entries).selects [field] with
      | false => exact Bool.and_false _
      | true => rw [(hcarries [field] hselected).1, Bool.and_self]
    refine .intro hheld fun field hfield leaf hleaf => ?_
    rw [hheld] at hfield
    have hloaded : entity.hasField field = true := (hcarries [field] hfield).1
    have hok := intersect_ok h hregular
    rw [intersect_eq] at hok hleaf
    have hstep : ∀ field next, WellTyped kind next →
        WellTyped kind (narrowField entries field next).1 ∧
          ChangedAt (· = field) next (narrowField entries field next).1 :=
      fun field next hnext => ⟨wellTyped_narrowField hnext, changedAt_narrowField ..⟩
    obtain ⟨before, hbefore, hagree, hdone, hafter⟩ := exists_changedAt_forFields hstep
      (FieldSet.nodup_toList _) (wellTyped_clearFields h _) hok (FieldSet.mem_toList.2 hloaded)
    have hslot : before.slot field = entity.slot field := by
      have hkept :
          (entity.held.diff (Graph.node gkind entries).fields).contains field = false := by
        rw [contains_diff_fields, hfield, Bool.not_true, Bool.and_false]
      rw [hagree.slot field (by simp), slot_clearFields h.fits.self.length_slots, hkept,
        Bool.and_false]
      rfl
    rw [hafter.slot field (by simp)] at hleaf
    refine loadedExactly_narrowField hgraph hbefore hfield (hregular _ hfield).1
      (fun inner hentry member hnested origin horigin => ?_) hdone leaf hleaf
    rw [hslot] at horigin
    obtain ⟨shape, hcontent, -⟩ := (hregular _ hfield).1.content hnested
    refine ih field inner hentry (hgraph.attached hentry) (wellTyped_leaf h hcontent horigin)
      (fun path hpath => ?_) fun path hpath => ?_
    · exact (hregular _ (Graph.selects_of_attached hentry hpath)).2 member hnested
    · have hwhole := hcarries _ (Graph.selects_of_attached hentry hpath)
      exact (hwhole.2 (Graph.ne_nil_of_selects hpath)).2 origin horigin

end PartialEntity.Entity
