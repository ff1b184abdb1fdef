import PartialEntity.Entity.Extend
import PartialEntity.Proofs.Entity.Change

/-!
# Extending unites restrictions

When an entity and its extension are restrictions of one record, extending gives the restriction to
what either holds.  The record must have one value for one id under each field, because the members
of the extension are found by their ids.
-/

namespace PartialEntity.Entity

variable {κ : Type} [DecidableEq κ] [Catalog κ]

/-! ## One field -/

def extendLeaf (owner : κ) (field : Nat) (subgraph : Graph κ) (candidates : List (Entity κ))
    (member : Entity κ) : Entity κ × Except Error Unit :=
  match candidates.find? fun candidate => candidate.same member with
  | some candidate => extendWith subgraph candidate member
  | none =>
    (member, Fault.raise (.entityUnavailable
      (Catalog.kindName member.kind ++ " " ++ member.describe ++
        " is missing from the extension of `" ++ Catalog.fieldName owner field ++ "`")))

def extendField (graph : Graph κ) (extension : Entity κ) (field : Nat) (entity : Entity κ) :
    Entity κ × Except Error Unit :=
  if entity.hasField field then
    match extendMember graph.kind field graph.entries with
    | some change => forMembers (change (extension.slot field).leaves) field entity
    | none => (entity, pure ())
  else
    match entity.pull field extension (if graph.contains field then some graph else none) with
    | .error stop => (entity, .error stop)
    | .ok entity' => (entity', pure ())

/-- Merging an extension is merging its fields, one after the other. -/
theorem extendWith_eq (graph : Graph κ) (extension entity : Entity κ) :
    extendWith graph extension entity =
      forFields (extendField graph extension) extension.held.toList entity := by
  cases graph
  rw [extendWith]
  rfl

theorem extendMember_eq (owner : κ) (field : Nat) (entries : List (Nat × Option (Graph κ))) :
    extendMember owner field entries =
      match Assoc.find? field entries with
      | some (some subgraph) =>
        if subgraph.isEmpty then none else some (extendLeaf owner field subgraph)
      | _ => none := by
  induction entries with
  | nil => rfl
  | cons entry rest ih =>
    obtain ⟨other, subgraph⟩ := entry
    cases subgraph with
    | none => by_cases hother : other = field <;> simp [extendMember, Assoc.find?, hother, ih]
    | some subgraph =>
      by_cases hother : other = field
      · simp only [extendMember, Assoc.find?, hother, if_true, beq_self_eq_true]
        rfl
      · simp [extendMember, Assoc.find?, hother, ih]

section Cases

variable {graph : Graph κ} {entity : Entity κ} {field : Nat}

/-- A member is extended by a candidate that is the same, or it stays as it is. -/
theorem extendLeaf_cases (owner : κ) (field : Nat) (subgraph : Graph κ)
    (candidates : List (Entity κ)) (member : Entity κ) :
    (∃ candidate ∈ candidates, candidate.same member = true ∧
        extendLeaf owner field subgraph candidates member =
          extendWith subgraph candidate member) ∨
      ∃ stop, extendLeaf owner field subgraph candidates member = (member, .error stop) := by
  rw [extendLeaf]
  cases hfind : candidates.find? fun candidate => candidate.same member with
  | none => exact .inr ⟨_, rfl⟩
  | some candidate =>
    refine .inl ⟨candidate, List.mem_of_find?_eq_some hfind, ?_, rfl⟩
    have hsame := List.find?_some hfind
    exact hsame

/-- Merging a field that is loaded already does nothing, or it extends the members through a
subgraph that is attached to the field. -/
theorem extendField_held (graph : Graph κ) (extension : Entity κ)
    (hheld : entity.hasField field = true) :
    (extendField graph extension field entity = (entity, .ok ()) ∧
        ∀ inner, Assoc.find? field graph.entries = some (some inner) → inner.isEmpty = true) ∨
      ∃ inner, (field, some inner) ∈ graph.entries ∧ inner.isEmpty = false ∧
        extendField graph extension field entity =
          forMembers (extendLeaf graph.kind field inner (extension.slot field).leaves) field
            entity := by
  rw [extendField, if_pos hheld, extendMember_eq]
  cases hfind : Assoc.find? field graph.entries with
  | none => exact .inl ⟨rfl, by simp⟩
  | some attached =>
    cases attached with
    | none => exact .inl ⟨rfl, by simp⟩
    | some inner =>
      by_cases hempty : inner.isEmpty = true
      · simp only [hempty, if_true]
        exact .inl ⟨rfl, by simp [hempty]⟩
      · simp only [hempty, Bool.false_eq_true, if_false]
        exact .inr ⟨inner, Assoc.mem_of_find? hfind, Bool.eq_false_iff.2 hempty, rfl⟩

/-- Merging a field that is not loaded pulls it from the extension, or fails and does nothing. -/
theorem extendField_unheld (graph : Graph κ) (extension : Entity κ)
    (hheld : ¬entity.hasField field = true) :
    (∃ stop, extendField graph extension field entity = (entity, .error stop)) ∨
      ∃ pulled, entity.pull field extension (if graph.contains field then some graph else none) =
          .ok pulled ∧ extendField graph extension field entity = (pulled, .ok ()) := by
  rw [extendField, if_neg hheld]
  cases hpull : entity.pull field extension (if graph.contains field then some graph else none) with
  | error stop => exact .inl ⟨stop, rfl⟩
  | ok pulled => exact .inr ⟨pulled, rfl, rfl⟩

/-- Where merging a loaded field does nothing, the graph selects nothing under it. -/
theorem extendField_of_hasField (hgraph : graph.WellFormed) (extension : Entity κ)
    (hheld : entity.hasField field = true) :
    (extendField graph extension field entity = (entity, .ok ()) ∧
      ∀ path, path ≠ [] → graph.selects (field :: path) = false) ∨
    ∃ inner, (field, some inner) ∈ graph.entries ∧ inner.isEmpty = false ∧
      extendField graph extension field entity =
        forMembers (extendLeaf graph.kind field inner (extension.slot field).leaves) field
          entity := by
  refine (extendField_held graph extension hheld).imp_left ?_
  rintro ⟨heq, hempty⟩
  refine ⟨heq, fun path hne => ?_⟩
  cases hattached : graph.attached? field with
  | none => exact hgraph.under_eq_false hattached hne
  | some inner =>
    have hentry := hgraph.attached?_eq_some_iff.1 hattached
    have hnothing := Graph.isEmpty_iff.1 (hempty inner (hgraph.find?_entries hentry))
    exact (hgraph.under_eq hentry hne).trans (hnothing path)

end Cases

/-! ## Pulling a field of a record -/

omit [DecidableEq κ] [Catalog κ] in
theorem assign_of_slot_eq {entity : Entity κ} {field : Nat} {value : Tree (Entity κ)}
    (h : entity.slot field = value) : entity.assign field value = entity.mark field := by
  have hslots : entity.slots.set field value = entity.slots := by
    by_cases hfield : field < entity.slots.length
    · rw [← h, slot_eq_getElem hfield, List.set_getElem_self]
    · exact List.set_eq_of_length_le (Nat.le_of_not_lt hfield)
  exact congrArg (fun slots => (Entity.mark { entity with slots } field)) hslots

def under (graph : Graph κ) (field : Nat) (member : κ) : Graph κ :=
  (graph.attached? field).getD (.none member)

section Under

variable {graph : Graph κ} {field : Nat}

omit [DecidableEq κ] in
theorem wellFormed_under (hgraph : graph.WellFormed) (member : κ) :
    (under graph field member).WellFormed := by
  rw [under]
  cases hattached : graph.attached? field with
  | none => exact .none member
  | some subgraph => exact hgraph.attached (hgraph.attached?_eq_some_iff.1 hattached)

omit [DecidableEq κ] in
/-- Below the members of a field a graph selects what it selects through the field. -/
theorem selects_under (hgraph : graph.WellFormed) {member : κ} {path : List Nat} (hne : path ≠ []) :
    (under graph field member).selects path = graph.selects (field :: path) := by
  rw [under]
  cases hattached : graph.attached? field with
  | none =>
    rw [Option.getD_none, Graph.selects_none]
    exact (hgraph.under_eq_false hattached hne).symm
  | some subgraph =>
    exact (hgraph.under_eq (hgraph.attached?_eq_some_iff.1 hattached) hne).symm

omit [DecidableEq κ] in
theorem restrict_selects_under (hgraph : graph.WellFormed) (member : κ) (leaf : Entity κ) :
    leaf.restrict (under graph field member).selects =
      leaf.restrict (graph.selects.under field) := by
  refine restrict_congr fun path hpath => ?_
  cases path with
  | nil => exact hpath.elim
  | cons next rest => exact selects_under hgraph (List.cons_ne_nil next rest)

/-- Copying members through a graph is the check of their kind, then the copy of each of them. -/
theorem cloneTree_some (tree : Tree (Entity κ)) (member : κ) :
    cloneTree tree member field (some graph) =
      Graph.checkNested graph.kind field member >>= fun _ =>
        tree.mapM (cloneGraph (under graph field member)) := by
  rw [cloneTree, Graph.subgraph, bind_assoc]
  rfl

theorem mapM_of_cloneTree {tree value : Tree (Entity κ)} {member : κ}
    (hok : cloneTree tree member field (some graph) = .ok value) :
    tree.mapM (cloneGraph (under graph field member)) = .ok value := by
  rw [cloneTree_some] at hok
  obtain ⟨_, -, hmap⟩ := Result.bind_eq_ok_iff.1 hok
  exact hmap

end Under

section Pull

variable {graph : Graph κ} {record : Entity κ} {field : Nat}

/-- Members that were copied through a graph are copied unchanged through it. -/
theorem mapM_cloneGraph_eq (hgraph : graph.WellFormed) (hrecord : record.Throughout Sound)
    {member : κ}
    (hleaves : ∀ leaf ∈ ((record.restrict graph.selects).slot field).leaves, ∃ copy,
      cloneGraph (under graph field member) leaf = .ok copy) :
    ((record.restrict graph.selects).slot field).mapM (cloneGraph (under graph field member)) =
      .ok ((record.restrict graph.selects).slot field) := by
  have hsound := hrecord.restrict graph.selects
  have hcopies : ∀ leaf ∈ ((record.restrict graph.selects).slot field).leaves,
      cloneGraph (under graph field member) leaf = .ok leaf := by
    intro leaf hleaf
    obtain ⟨copy, hcopy⟩ := hleaves leaf hleaf
    have hself : leaf.restrict (graph.selects.under field) = leaf := by
      obtain ⟨-, -, origin, -, rfl⟩ := (mem_leaves_restrict hrecord.self.toFits).1 hleaf
      rw [restrict_restrict, inf_idem]
    rw [hcopy, cloneGraph_eq_restrict (wellFormed_under hgraph member) (hsound.member hleaf) hcopy,
      restrict_selects_under hgraph, hself]
  rw [Tree.mapM, Tree.traverse_eq_ok hcopies, Tree.map_id]
  exact congrArg Except.ok (Tree.rebuild_eq_self _ (hsound.self.canonical field))

variable {entity : Entity κ}

/-- A field that is pulled from a copy of the record is assigned what the copy stores there. -/
theorem pull_eq_of_ok (hgraph : graph.WellFormed) (hrecord : record.Throughout Sound)
    (hentity : entity.Fits) (hkind : entity.kind = record.kind) (hid : entity.id = record.id)
    {result : Entity κ}
    (hok : entity.pull field (record.restrict graph.selects) (some graph) = .ok result) :
    result = entity.assign field ((record.restrict graph.selects).slot field) := by
  have hcopy := (hrecord.restrict graph.selects).self
  rcases pull_cases hok with ⟨hcontent, rfl⟩ | ⟨member, shape, value, hcontent, hvalue, rfl⟩ |
    ⟨-, -, rfl⟩
  · have hslot : entity.slot field = (record.restrict graph.selects).slot field := by
      rw [hentity.identity field hcontent, hcopy.identity field]
      rwa [kind_restrict, ← hkind]
    rw [assign_of_slot_eq hslot, id_restrict, ← hid]
    rfl
  · have hmap := mapM_of_cloneTree hvalue
    obtain ⟨_, htraverse, -⟩ := Result.bind_eq_ok_iff.1 hmap
    rw [mapM_cloneGraph_eq hgraph hrecord (Tree.exists_ok_of_traverse htraverse)] at hmap
    rw [Except.ok.inj hmap]
  · rfl

/-- What the record holds can be pulled from its copy, unless it is refused. -/
theorem exists_pull (hgraph : graph.WellFormed) (hgkind : graph.kind = record.kind)
    (hrecord : record.Throughout Sound) (hkind : entity.kind = record.kind)
    (hholds : ∀ path, graph.selects (field :: path) = true → ¬record.Lacks (field :: path))
    (hselected : graph.selects [field] = true)
    (hcopyable : ∀ path, graph.selects (field :: path) = true →
      Catalog.OnPath Catalog.Copyable record.kind (field :: path)) :
    ∃ result, entity.pull field (record.restrict graph.selects) (some graph) = .ok result := by
  have hfits := hrecord.mono fun _ h => h.toFits
  rw [pull]
  split
  · exact ⟨_, rfl⟩
  · rename_i member shape hcontent
    rw [hkind] at hcontent
    have hnested := (hcopyable [] hselected).1 member shape hcontent
    have hcheck : Graph.checkNested graph.kind field member = .ok () := by
      rw [hgkind]
      exact Graph.checkNested_eq_ok_iff.2 hnested
    have hleaves : ∀ leaf ∈ ((record.restrict graph.selects).slot field).leaves, ∃ copy,
        cloneGraph (under graph field member) leaf = .ok copy := by
      intro leaf hleaf
      obtain ⟨-, -, origin, horigin, rfl⟩ := (mem_leaves_restrict hrecord.self.toFits).1 hleaf
      have hpaths : ∀ path, (under graph field member).selects path = true →
          path ≠ [] ∧ graph.selects (field :: path) = true := by
        intro path hpath
        have hne := Graph.ne_nil_of_selects hpath
        rw [selects_under hgraph hne] at hpath
        exact ⟨hne, hpath⟩
      refine ⟨_, cloneGraph_eq_ok (wellFormed_under hgraph member)
        ((hrecord.member horigin).restrict _) (fun path hpath hlacks => ?_) fun path hpath => ?_⟩
      · obtain ⟨hne, hpath⟩ := hpaths path hpath
        refine hholds path hpath (.inr ⟨origin, horigin, ?_⟩)
        refine lacks_of_lacks_restrict (hfits.member horigin) (fun left right heq _ => ?_) hlacks
        subst heq
        exact Graph.closed_selects graph (field :: left) right (by simp) hpath
      · obtain ⟨-, hpath⟩ := hpaths path hpath
        rw [kind_restrict]
        refine (hcopyable path hpath).2 origin.kind ?_
        rw [hrecord.self.nested field member shape hcontent origin horigin, hnested]
    have htree : cloneTree ((record.restrict graph.selects).slot field) member field (some graph) =
        .ok ((record.restrict graph.selects).slot field) := by
      rw [cloneTree_some, hcheck]
      exact mapM_cloneGraph_eq hgraph hrecord hleaves
    rw [htree]
    exact ⟨_, rfl⟩
  · exact ⟨_, rfl⟩

end Pull

/-! ## Finding the same member -/

omit [DecidableEq κ] in
/-- Among restrictions of the members under a field, the one of the same member is found. -/
theorem find?_same {record : Entity κ} (hrecord : record.Throughout Sound)
    (hconsistent : record.Consistent) {field : Nat} {member : Entity κ}
    (hmember : member ∈ (record.slot field).leaves) (left right : Selection) :
    ((record.slot field).map (restrict left)).leaves.find?
        (fun candidate => candidate.same (member.restrict right)) =
      some (member.restrict left) := by
  have hsame : ∀ other ∈ (record.slot field).leaves,
      (other.restrict left).same (member.restrict right) = true ↔ other.id = member.id := by
    intro other hother
    have hleft := ((hrecord.member hother).restrict left).self.byId
    have hright := ((hrecord.member hmember).restrict right).self.byId
    rw [same_iff_id_eq hleft hright, id_restrict, id_restrict]
  rw [Tree.leaves_map, List.find?_map]
  cases hfind : (record.slot field).leaves.find?
      ((fun candidate => candidate.same (member.restrict right)) ∘ restrict left) with
  | none =>
    rw [List.find?_eq_none] at hfind
    exact absurd ((hsame member hmember).2 rfl) (hfind member hmember)
  | some other =>
    have hother := List.mem_of_find?_eq_some hfind
    have htest := List.find?_some hfind
    have hid : other.id = member.id := (hsame other hother).1 htest
    rw [Option.map_some, hconsistent field other hother member hmember hid]

/-! ## Extending -/

/-- A member is extended by the restriction of itself that the extension holds. -/
theorem extendLeaf_restrict {graph : Graph κ} (hgraph : graph.WellFormed) {record : Entity κ}
    (hrecord : record.Throughout Sound) (hconsistent : record.Consistent) {field : Nat}
    (hheld : record.hasField field = true) (hselected : graph.selects [field] = true)
    {subgraph : Graph κ} (hentry : (field, some subgraph) ∈ graph.entries) {member : Entity κ}
    (hmember : member ∈ (record.slot field).leaves) (owner : κ) (held : Selection) :
    extendLeaf owner field subgraph ((record.restrict graph.selects).slot field).leaves
        (member.restrict held) =
      extendWith subgraph (member.restrict subgraph.selects) (member.restrict held) := by
  rw [extendLeaf, slot_restrict hheld hselected,
    find?_same hrecord hconsistent hmember (graph.selects.under field) held]
  simp only
  rw [restrict_under hgraph hentry, restrict_attachedSelects]

section Step

variable {graph : Graph κ} {record : Entity κ} {field : Nat} {held : Selection} {done : List Nat}

omit [DecidableEq κ] in
/-- A member has what it held and what is attached to the field. -/
theorem restrict_under_sup (hgraph : graph.WellFormed) {inner : Graph κ}
    (hentry : (field, some inner) ∈ graph.entries) (member : Entity κ) :
    member.restrict ((held ⊔ graph.selects).under field) =
      member.restrict (held.under field ⊔ inner.selects) := by
  refine restrict_congr fun path hpath => ?_
  cases path with
  | nil => exact hpath.elim
  | cons next rest =>
    rw [Selection.under_sup, Selection.sup_apply, Selection.sup_apply,
      hgraph.under_eq hentry (List.cons_ne_nil next rest)]

/-- Merging a field that the entity holds already, if it succeeds, extends its members. -/
private theorem extendField_restrict_of_held (hgraph : graph.WellFormed)
    (hrecord : record.Throughout Sound) (hconsistent : record.Consistent)
    (hheld : record.hasField field = true) (hselected : graph.selects [field] = true)
    (hfield : held [field] = true)
    (hmembers : ∀ inner, (field, some inner) ∈ graph.entries →
      ∀ member ∈ (record.slot field).leaves,
        (extendWith inner (member.restrict inner.selects)
          (member.restrict (held.under field))).2 = .ok () →
        extendWith inner (member.restrict inner.selects) (member.restrict (held.under field)) =
          (member.restrict (held.under field ⊔ inner.selects), .ok ()))
    (hdone : field ∉ done)
    (hok : (extendField graph (record.restrict graph.selects) field
      (record.restrict (held.patch done (held ⊔ graph.selects)))).2 = .ok ()) :
    extendField graph (record.restrict graph.selects) field
        (record.restrict (held.patch done (held ⊔ graph.selects))) =
      (record.restrict (held.patch (done ++ [field]) (held ⊔ graph.selects)), .ok ()) := by
  have hpatch : ∀ rest, held.patch done (held ⊔ graph.selects) (field :: rest) =
      held (field :: rest) := fun rest => Selection.patch_of_not_mem hdone rest
  have hhas : (record.restrict (held.patch done (held ⊔ graph.selects))).hasField field =
      true := by
    rw [hasField_restrict, hheld, hpatch, hfield]
    rfl
  rcases extendField_of_hasField hgraph (record.restrict graph.selects) hhas with
    ⟨heq, hnothing⟩ | ⟨inner, hentry, -, heq⟩
  · rw [heq, restrict_patch_append fun rest _ => ?_]
    rw [Selection.sup_apply]
    by_cases hrest : rest = []
    · rw [hrest, hfield, Bool.true_or]
    · rw [hnothing rest hrest, Bool.or_false]
  · rw [heq] at hok ⊢
    have hslot : (record.restrict (held.patch done (held ⊔ graph.selects))).slot field =
        (record.slot field).map (restrict (held.under field)) := by
      rw [slot_restrict_congr hrecord.self.toFits hpatch, slot_restrict hheld hfield]
    obtain ⟨⟨kind, hdescend⟩, hleaves⟩ := forMembers_ok_iff.1 hok
    have hchange : ∀ member ∈ (record.slot field).leaves,
        extendLeaf graph.kind field inner ((record.restrict graph.selects).slot field).leaves
            (member.restrict (held.under field)) =
          (member.restrict ((held ⊔ graph.selects).under field), .ok ()) := by
      intro member hmember
      have hleaf : member.restrict (held.under field) ∈
          ((record.restrict (held.patch done (held ⊔ graph.selects))).slot field).leaves := by
        rw [hslot, Tree.leaves_map]
        exact List.mem_map_of_mem hmember
      have hleafok := hleaves _ hleaf
      rw [extendLeaf_restrict hgraph hrecord hconsistent hheld hselected hentry hmember]
        at hleafok ⊢
      rw [hmembers inner hentry member hmember hleafok, restrict_under_sup hgraph hentry]
    have hnew : (held ⊔ graph.selects) [field] = true := by
      rw [Selection.sup_apply, hselected, Bool.or_true]
    rw [forMembers_restrict hrecord hslot hdescend hchange, store_eq_assign hhas,
      assign_restrict_patch hrecord.self.toFits hheld hnew]

/-- Merging a field that only the extension holds, if it succeeds, copies it. -/
private theorem extendField_restrict_of_not_held (hgraph : graph.WellFormed)
    (hrecord : record.Throughout Sound) (hheld : record.hasField field = true)
    (hselected : graph.selects [field] = true) (hclosed : held.Closed)
    (hfield : held [field] = false) (hdone : field ∉ done)
    (hok : (extendField graph (record.restrict graph.selects) field
      (record.restrict (held.patch done (held ⊔ graph.selects)))).2 = .ok ()) :
    extendField graph (record.restrict graph.selects) field
        (record.restrict (held.patch done (held ⊔ graph.selects))) =
      (record.restrict (held.patch (done ++ [field]) (held ⊔ graph.selects)), .ok ()) := by
  have hhas : ¬(record.restrict (held.patch done (held ⊔ graph.selects))).hasField field =
      true := by
    rw [hasField_restrict, Selection.patch_of_not_mem hdone, hfield, Bool.and_false]
    nofun
  have hnothing : ∀ rest, held (field :: rest) = false := by
    intro rest
    rw [Bool.eq_false_iff]
    intro hrest
    rw [hclosed [field] rest (by simp) hrest] at hfield
    cases hfield
  have hvalue : (record.slot field).map (restrict (graph.selects.under field)) =
      (record.slot field).map (restrict ((held ⊔ graph.selects).under field)) := by
    refine Tree.map_congr fun member _ => restrict_congr fun path _ => ?_
    rw [Selection.under_apply, Selection.under_apply, Selection.sup_apply, hnothing, Bool.false_or]
  have hnew : (held ⊔ graph.selects) [field] = true := by
    rw [Selection.sup_apply, hselected, Bool.or_true]
  rcases extendField_unheld graph (record.restrict graph.selects) hhas with
    ⟨stop, heq⟩ | ⟨pulled, hpull, heq⟩
  · rw [heq] at hok
    cases hok
  · rw [if_pos (Graph.contains_iff.2 hselected)] at hpull
    rw [heq, pull_eq_of_ok hgraph hrecord (hrecord.restrict _).self.toFits (kind_restrict ..)
      (id_restrict ..) hpull, slot_restrict hheld hselected, hvalue,
      assign_restrict_patch hrecord.self.toFits hheld hnew]

end Step

/-- Merging one field succeeds if the members can be extended and the field can be copied. -/
private theorem extendField_ok {graph : Graph κ} (hgraph : graph.WellFormed) {record : Entity κ}
    (hgkind : graph.kind = record.kind) (hrecord : record.Throughout Sound)
    (hconsistent : record.Consistent) {field : Nat} (hheld : record.hasField field = true)
    (hselected : graph.selects [field] = true) {held : Selection}
    (hholds : ∀ path, graph.selects path = true → ¬record.Lacks path)
    (hcopyable : ∀ path, graph.selects path = true →
      Catalog.OnPath Catalog.Copyable record.kind path)
    (hregular : ∀ path, graph.selects path = true →
      Catalog.OnPath Catalog.Regular record.kind path.dropLast)
    (hmembers : ∀ inner, (field, some inner) ∈ graph.entries →
      ∀ member ∈ (record.slot field).leaves, inner.kind = member.kind →
        (extendWith inner (member.restrict inner.selects)
          (member.restrict (held.under field))).2 = .ok ())
    {done : List Nat} (hdone : field ∉ done) :
    (extendField graph (record.restrict graph.selects) field
      (record.restrict (held.patch done (held ⊔ graph.selects)))).2 = .ok () := by
  have hpatch : ∀ rest, held.patch done (held ⊔ graph.selects) (field :: rest) =
      held (field :: rest) := fun rest => Selection.patch_of_not_mem hdone rest
  have hhas : (record.restrict (held.patch done (held ⊔ graph.selects))).hasField field =
      held [field] := by
    rw [hasField_restrict, hheld, hpatch, Bool.true_and]
  by_cases hfield : held [field] = true
  · rcases extendField_held graph (record.restrict graph.selects) (hhas.trans hfield) with
      ⟨heq, -⟩ | ⟨inner, hentry, hnonempty, heq⟩
    · rw [heq]
    · have hdeclared := hgraph.declared hentry
      rw [hgkind] at hdeclared
      obtain ⟨path, hpath⟩ := Graph.exists_selects_of_not_isEmpty (Bool.eq_false_iff.1 hnonempty)
      have hfieldRegular := hregular _ (Graph.selects_of_attached hentry hpath)
      rw [List.dropLast_cons_of_ne_nil (Graph.ne_nil_of_selects hpath)] at hfieldRegular
      obtain ⟨shape, hcontent, hvisible⟩ := hfieldRegular.1.content hdeclared
      rw [heq, forMembers_ok_iff, kind_restrict]
      refine ⟨⟨inner.kind, descend_eq_ok_iff.2 ⟨hdeclared, shape, hcontent, hvisible⟩⟩,
        fun leaf hleaf => ?_⟩
      rw [slot_restrict_congr hrecord.self.toFits hpatch] at hleaf
      obtain ⟨-, -, member, hmember, rfl⟩ := (mem_leaves_restrict hrecord.self.toFits).1 hleaf
      rw [extendLeaf_restrict hgraph hrecord hconsistent hheld hselected hentry hmember]
      exact hmembers inner hentry member hmember
        (hrecord.self.nested field inner.kind shape hcontent member hmember).symm
  · obtain ⟨result, hpull⟩ := exists_pull hgraph hgkind hrecord
      (kind_restrict (held.patch done (held ⊔ graph.selects)) record)
      (fun path hpath => hholds _ hpath) hselected fun path hpath => hcopyable _ hpath
    rw [extendField, hhas, if_neg hfield, if_pos (Graph.contains_iff.2 hselected), hpull]
    rfl

/-! ## Extending an entity -/

omit [DecidableEq κ] in
/-- What a field-by-field merge goes through: loaded fields that the graph selects, each once. -/
private theorem mem_of_append_eq {record : Entity κ} {selection : Selection} {field : Nat}
    {done rest : List Nat} (heq : done ++ field :: rest = (record.restrict selection).held.toList) :
    record.hasField field = true ∧ selection [field] = true ∧ field ∉ done := by
  have hmem : field ∈ (record.restrict selection).held.toList := by
    rw [← heq]
    exact List.mem_append_right _ (List.mem_cons_self ..)
  have hheld : (record.restrict selection).hasField field = true := FieldSet.mem_toList.1 hmem
  rw [hasField_restrict, Bool.and_eq_true] at hheld
  have hnodup := FieldSet.nodup_toList (record.restrict selection).held
  rw [← heq] at hnodup
  exact ⟨hheld.1, hheld.2, fun hdone =>
    List.disjoint_of_nodup_append hnodup hdone (List.mem_cons_self ..)⟩

/-- Merging one field, if it succeeds, leads from one state to the next. -/
private theorem extendField_eq_of_ok {graph : Graph κ} (hgraph : graph.WellFormed)
    {record : Entity κ} (hrecord : record.Throughout Sound) (hconsistent : record.Consistent)
    {held : Selection} (hclosed : held.Closed)
    (hmembers : ∀ field inner, (field, some inner) ∈ graph.entries →
      ∀ member ∈ (record.slot field).leaves,
        (extendWith inner (member.restrict inner.selects)
          (member.restrict (held.under field))).2 = .ok () →
        extendWith inner (member.restrict inner.selects) (member.restrict (held.under field)) =
          (member.restrict (held.under field ⊔ inner.selects), .ok ()))
    {done : List Nat} {field : Nat} {rest : List Nat}
    (heq : done ++ field :: rest = (record.restrict graph.selects).held.toList)
    (hok : (extendField graph (record.restrict graph.selects) field
      (record.restrict (held.patch done (held ⊔ graph.selects)))).2 = .ok ()) :
    extendField graph (record.restrict graph.selects) field
        (record.restrict (held.patch done (held ⊔ graph.selects))) =
      (record.restrict (held.patch (done ++ [field]) (held ⊔ graph.selects)), .ok ()) := by
  obtain ⟨hheld, hselected, hdone⟩ := mem_of_append_eq heq
  cases hfield : held [field] with
  | false =>
    exact extendField_restrict_of_not_held hgraph hrecord hheld hselected hclosed hfield hdone hok
  | true =>
    exact extendField_restrict_of_held hgraph hrecord hconsistent hheld hselected hfield
      (hmembers field) hdone hok

omit [DecidableEq κ] in
/-- Once all selected fields are done, both selections are kept. -/
private theorem restrict_patch_held (graph : Graph κ) (record : Entity κ) (held : Selection) :
    record.restrict (held.patch (record.restrict graph.selects).held.toList
      (held ⊔ graph.selects)) = record.restrict (held ⊔ graph.selects) := by
  refine restrict_patch_of_mem fun field rest hpath => ?_
  by_cases hselected : graph.selects [field] = true
  · have hfield : (record.restrict graph.selects).hasField field = true := by
      rw [hasField_restrict, hpath.1, hselected]
      rfl
    exact .inl (FieldSet.mem_toList.2 hfield)
  · have hnone : graph.selects (field :: rest) = false := by
      rw [Bool.eq_false_iff]
      exact fun hrest => hselected (graph.closed_selects [field] rest (by simp) hrest)
    exact .inr (by rw [Selection.sup_apply, hnone, Bool.or_false])

/-- Extending a restriction of a record by another one, if it succeeds, unites them. -/
theorem extendWith_eq_of_ok {graph : Graph κ} (hgraph : graph.WellFormed) {record : Entity κ}
    (hrecord : record.Throughout Sound) (hconsistent : record.Throughout Consistent)
    {held : Selection} (hclosed : held.Closed)
    (hok : (extendWith graph (record.restrict graph.selects) (record.restrict held)).2 = .ok ()) :
    extendWith graph (record.restrict graph.selects) (record.restrict held) =
      (record.restrict (held ⊔ graph.selects), .ok ()) := by
  induction graph using Graph.induction generalizing record held with
  | node kind entries ih =>
    let graph := Graph.node kind entries
    have hstart : record.restrict (held.patch [] (held ⊔ graph.selects)) = record.restrict held :=
      restrict_patch_nil record
    rw [extendWith_eq, ← hstart] at hok ⊢
    rw [forFields_eq_of_ok (fun done => record.restrict (held.patch done (held ⊔ graph.selects)))
      (fun done field rest heq hstep => extendField_eq_of_ok hgraph hrecord hconsistent.self hclosed
        (fun field inner hentry member hmember hmerge =>
          ih field inner hentry (hgraph.attached hentry) (hrecord.member hmember)
            (hconsistent.member hmember) (hclosed.under field) hmerge) heq hstep) hok,
      restrict_patch_held graph record held]

/-- Extending by a copy of what a record holds succeeds. -/
theorem extendWith_eq_ok {graph : Graph κ} (hgraph : graph.WellFormed) {record : Entity κ}
    (hgkind : graph.kind = record.kind) (hrecord : record.Throughout Sound)
    (hconsistent : record.Throughout Consistent) {held : Selection} (hclosed : held.Closed)
    (hholds : ∀ path, graph.selects path = true → ¬record.Lacks path)
    (hcopyable : ∀ path, graph.selects path = true →
      Catalog.OnPath Catalog.Copyable record.kind path)
    (hregular : ∀ path, graph.selects path = true →
      Catalog.OnPath Catalog.Regular record.kind path.dropLast) :
    extendWith graph (record.restrict graph.selects) (record.restrict held) =
      (record.restrict (held ⊔ graph.selects), .ok ()) := by
  induction graph using Graph.induction generalizing record held with
  | node kind entries ih =>
    let graph := Graph.node kind entries
    have hstart : record.restrict (held.patch [] (held ⊔ graph.selects)) = record.restrict held :=
      restrict_patch_nil record
    have hmembers : ∀ field inner, (field, some inner) ∈ entries →
        ∀ member ∈ (record.slot field).leaves, inner.kind = member.kind →
          extendWith inner (member.restrict inner.selects) (member.restrict (held.under field)) =
            (member.restrict (held.under field ⊔ inner.selects), .ok ()) := by
      intro field inner hentry member hmember hsame
      have hdeclared : Catalog.nested? record.kind field = some member.kind := by
        rw [← hgkind, ← hsame]
        exact hgraph.declared hentry
      refine ih field inner hentry (hgraph.attached hentry) hsame (hrecord.member hmember)
        (hconsistent.member hmember) (hclosed.under field) (fun path hpath hlacks => ?_)
        (fun path hpath => ?_) fun path hpath => ?_
      · exact hholds _ (Graph.selects_of_attached hentry hpath) (.inr ⟨member, hmember, hlacks⟩)
      · exact (hcopyable _ (Graph.selects_of_attached hentry hpath)).2 member.kind hdeclared
      · have hwhole := hregular _ (Graph.selects_of_attached hentry hpath)
        rw [List.dropLast_cons_of_ne_nil (Graph.ne_nil_of_selects hpath)] at hwhole
        exact hwhole.2 member.kind hdeclared
    rw [extendWith_eq, ← hstart]
    rw [forFields_eq_ok (fun done => record.restrict (held.patch done (held ⊔ graph.selects)))
      fun done field rest heq => ?_, restrict_patch_held graph record held]
    obtain ⟨hheld, hselected, hdone⟩ := mem_of_append_eq heq
    refine extendField_eq_of_ok hgraph hrecord hconsistent.self hclosed
      (fun field inner hentry member hmember hmerge => ?_) heq
      (extendField_ok hgraph hgkind hrecord hconsistent.self hheld hselected hholds hcopyable
        hregular (fun inner hentry member hmember hsame => ?_) hdone)
    · exact extendWith_eq_of_ok (hgraph.attached hentry) (hrecord.member hmember)
        (hconsistent.member hmember) (hclosed.under field) hmerge
    · rw [hmembers field inner hentry member hmember hsame]

end PartialEntity.Entity
