import PartialEntity.Entity.Clone
import PartialEntity.Proofs.Catalog
import PartialEntity.Proofs.Entity.Restrict
import PartialEntity.Proofs.Graph.WellFormed

/-!
# Copies are restrictions

A copy through a graph is the restriction of the entity to what the graph selects.  It is made
whenever nothing selected is lacking and every field on a selected path that stores members declares
their kind.
-/

namespace PartialEntity.Entity

variable {κ : Type}

/-! ## Assigning several fields -/

section Assign

variable {entity : Entity κ} {fields : List Nat} {value : Nat → Tree (Entity κ)} {field : Nat}

theorem slot_assign (entity : Entity κ) (field other : Nat) (value : Tree (Entity κ)) :
    (entity.assign field value).slot other =
      if field = other ∧ field < entity.slots.length then value else entity.slot other := by
  simp only [assign, store, mark, slot, List.getD_eq_getElem?_getD, List.getElem?_set]
  by_cases hfield : field = other
  · subst hfield
    by_cases hlt : field < entity.slots.length
    · simp [hlt]
    · simp [hlt]
  · simp [hfield]

theorem hasField_assign (entity : Entity κ) (field other : Nat) (value : Tree (Entity κ)) :
    (entity.assign field value).hasField other =
      (entity.hasField other || decide (field = other)) :=
  FieldSet.contains_insert ..

def assignAll (value : Nat → Tree (Entity κ)) (fields : List Nat) (entity : Entity κ) : Entity κ :=
  fields.foldl (fun copy field => copy.assign field (value field)) entity

theorem assignAll_cons (first : Nat) (rest : List Nat) :
    assignAll value (first :: rest) entity =
      assignAll value rest (entity.assign first (value first)) := rfl

@[simp]
theorem kind_assignAll : (assignAll value fields entity).kind = entity.kind := by
  induction fields generalizing entity with
  | nil => rfl
  | cons first rest ih => exact ih

@[simp]
theorem id_assignAll : (assignAll value fields entity).id = entity.id := by
  induction fields generalizing entity with
  | nil => rfl
  | cons first rest ih => exact ih

@[simp]
theorem length_slots_assignAll :
    (assignAll value fields entity).slots.length = entity.slots.length := by
  induction fields generalizing entity with
  | nil => rfl
  | cons first rest ih => exact ih.trans (List.length_set ..)

/-- The fields that are loaded afterwards are those that were, and the listed ones. -/
theorem hasField_assignAll :
    (assignAll value fields entity).hasField field =
      (entity.hasField field || decide (field ∈ fields)) := by
  induction fields generalizing entity with
  | nil => simp [assignAll]
  | cons first rest ih =>
    rw [assignAll_cons, ih, hasField_assign]
    by_cases hfirst : first = field
    · simp [hfirst]
    · simp [hfirst, Ne.symm hfirst]

/-- Every listed field stores its value, and the others store what they did. -/
theorem slot_assignAll :
    (assignAll value fields entity).slot field =
      if field ∈ fields ∧ field < entity.slots.length then value field else entity.slot field := by
  induction fields generalizing entity with
  | nil => simp [assignAll]
  | cons first rest ih =>
    have hlength : (entity.assign first (value first)).slots.length = entity.slots.length :=
      List.length_set ..
    rw [assignAll_cons, ih, slot_assign, hlength]
    by_cases hrest : field ∈ rest
    · by_cases hlt : field < entity.slots.length
      · simp [hrest, hlt]
      · have hne : ¬(first = field ∧ first < entity.slots.length) := by
          rintro ⟨rfl, hfirst⟩
          exact hlt hfirst
        simp [hlt, hne]
    · by_cases hfirst : first = field
      · subst hfirst
        simp [hrest]
      · simp [hrest, hfirst, Ne.symm hfirst]

end Assign

variable [Catalog κ]

section Reference

variable {entity : Entity κ} {fields : List Nat} {value : Nat → Tree (Entity κ)} {field : Nat}

theorem hasField_assignAll_reference :
    (assignAll value fields entity.reference).hasField field = decide (field ∈ fields) := by
  rw [hasField_assignAll, reference, hasField_ofId, Bool.false_or]

theorem slot_assignAll_reference :
    (assignAll value fields entity.reference).slot field =
      if field ∈ fields ∧ field < Catalog.size entity.kind then value field
      else emptySlot entity.kind field := by
  have hlength : entity.reference.slots.length = Catalog.size entity.kind := length_emptySlots _
  rw [slot_assignAll, hlength, reference, slot_ofId]

end Reference

/-- Assigning the values that a selection keeps to a fresh reference makes the restriction. -/
theorem assignAll_reference {entity : Entity κ} (hfits : entity.Fits) {selection : Selection}
    {fields : List Nat} (hfields : ∀ field, field ∈ fields ↔ selection [field] = true)
    (hheld : ∀ field ∈ fields, entity.hasField field = true) :
    assignAll (fun field => (entity.slot field).map (restrict (selection.under field))) fields
      entity.reference = entity.restrict selection := by
  have hlength : entity.reference.slots.length = entity.slots.length := by
    rw [hfits.length_slots]
    exact length_emptySlots _
  refine ext_slot (by simp [reference, ofId]) (by simp [reference, ofId]) (fun field => ?_)
    (by rw [length_slots_assignAll, hlength, length_slots_restrict]) fun field => ?_
  · rw [hasField_assignAll_reference, hasField_restrict, Bool.eq_iff_iff, decide_eq_true_iff,
      Bool.and_eq_true]
    exact ⟨fun h => ⟨hheld field h, (hfields field).1 h⟩, fun h => (hfields field).2 h.2⟩
  · rw [slot_assignAll_reference]
    by_cases hfield : field ∈ fields
    · have hlt := hfits.lt_size field (hheld field hfield)
      rw [if_pos ⟨hfield, hlt⟩, slot_restrict (hheld field hfield) ((hfields field).1 hfield)]
    · have hselected : selection [field] = false := by
        rw [Bool.eq_false_iff]
        exact fun h => hfield ((hfields field).2 h)
      rw [if_neg fun h => hfield h.1, slot_restrict_of_not hfits (by simp [hselected])]

/-! ## Copies in full -/

/-- The copy in full, field by field: what is loaded is copied, and the rest is fresh. -/
theorem cloneAll_eq (entity : Entity κ) :
    entity.cloneAll = ⟨entity.kind, entity.id, entity.held,
      entity.slots.mapIdx fun field value =>
        if entity.hasField field then (value.map cloneAll).rebuild .collected
        else emptySlot entity.kind field⟩ := by
  rw [cloneAll, fold_eq]
  congr 1
  refine List.ext_getElem (by simp) fun field _ _ => ?_
  simp only [List.getElem_mapIdx, List.getElem_map]
  rfl

/-- A copy in full restricts an entity to all that it holds. -/
theorem cloneAll_eq_restrict {entity : Entity κ} (h : entity.Throughout Sound) :
    entity.cloneAll = entity.restrict ⊤ := by
  induction h with
  | @intro entity self members ih =>
    rw [cloneAll_eq, restrict_eq]
    congr 1
    · refine FieldSet.ext_contains fun field => ?_
      rw [FieldSet.contains_keep]
      exact (Bool.and_true _).symm
    · refine List.ext_getElem (by simp) fun field hlength _ => ?_
      rw [List.length_mapIdx] at hlength
      have hmap : entity.slots[field].map cloneAll =
          entity.slots[field].map (restrict ((⊤ : Selection).under field)) := by
        refine Tree.map_congr fun member hmember => ih field member ?_
        rwa [slot_eq_getElem hlength]
      have hrebuild : (entity.slots[field].map (restrict ((⊤ : Selection).under field))).rebuild
          .collected = entity.slots[field].map (restrict ((⊤ : Selection).under field)) := by
        refine Tree.rebuild_eq_self _ ((canonical_map_of_key fun member hmember => ?_).2 ?_)
        · rw [← slot_eq_getElem hlength] at hmember
          exact key_restrict _ (members field member hmember).self.byId
        · rw [← slot_eq_getElem hlength]
          exact self.canonical field
      simp only [List.getElem_mapIdx, hmap, hrebuild]
      by_cases hheld : entity.hasField field = true
      · simp [hheld]
      · simp [hheld]

/-! ## Checking fields -/

/-- The check for wanted fields passes exactly if all of them are loaded. -/
theorem ensureFields_eq_ok_iff {entity : Entity κ} {wanted : FieldSet} :
    entity.ensureFields wanted = .ok () ↔
      ∀ field, wanted.contains field = true → entity.hasField field = true := by
  have hsubset : (wanted.diff entity.held).isEmpty = true ↔
      ∀ field, wanted.contains field = true → entity.hasField field = true :=
    FieldSet.isSubset_iff
  refine Iff.trans ?_ hsubset
  rw [ensureFields]
  cases (wanted.diff entity.held).isEmpty with
  | false => exact iff_of_false nofun nofun
  | true => exact iff_of_true rfl rfl

/-! ## Copying one level -/

variable [DecidableEq κ]

def copySlot (subgraph : Option (Graph κ)) (entity : Entity κ) (field : Nat) :
    Except Error (Tree (Entity κ)) :=
  match Catalog.content? entity.kind field with
  | some (.nested member _) => do
    Graph.checkNested entity.kind field member
    (entity.slot field).mapM (cloneMember subgraph)
  | _ => pure (entity.slot field)

theorem cloneEntries_cons (field : Nat) (subgraph : Option (Graph κ))
    (rest : List (Nat × Option (Graph κ))) (entity copy : Entity κ) :
    cloneEntries ((field, subgraph) :: rest) entity copy =
      copySlot subgraph entity field >>= fun value =>
        cloneEntries rest entity (copy.assign field value) := by
  rw [cloneEntries, copySlot]
  cases Catalog.content? entity.kind field with
  | none => rfl
  | some content =>
    cases content with
    | identity | plain => rfl
    | nested member shape => exact (bind_assoc ..).symm

/-- If the value under each entry can be copied, then so can the level. -/
theorem cloneEntries_eq_ok {entries : List (Nat × Option (Graph κ))} {entity copy : Entity κ}
    {value : Nat → Tree (Entity κ)}
    (h : ∀ field subgraph, (field, subgraph) ∈ entries →
      copySlot subgraph entity field = .ok (value field)) :
    cloneEntries entries entity copy = .ok (assignAll value (entries.map (·.1)) copy) := by
  induction entries generalizing copy with
  | nil => rfl
  | cons entry rest ih =>
    obtain ⟨field, subgraph⟩ := entry
    rw [cloneEntries_cons, h field subgraph (List.mem_cons_self ..), List.map_cons, assignAll_cons]
    exact ih fun other attached hentry => h other attached (List.mem_cons_of_mem _ hentry)

/-- If a level was copied, then so was the value under each entry. -/
theorem exists_ok_of_cloneEntries {entries : List (Nat × Option (Graph κ))}
    {entity copy result : Entity κ} (hok : cloneEntries entries entity copy = .ok result) :
    ∀ field subgraph, (field, subgraph) ∈ entries →
      ∃ value, copySlot subgraph entity field = .ok value := by
  induction entries generalizing copy with
  | nil => exact fun _ _ hentry => absurd hentry List.not_mem_nil
  | cons entry rest ih =>
    obtain ⟨field, subgraph⟩ := entry
    rw [cloneEntries_cons] at hok
    obtain ⟨value, hvalue, hrest⟩ := Result.bind_eq_ok_iff.1 hok
    intro other attached hentry
    rcases List.mem_cons.1 hentry with heq | hentry
    · cases heq
      exact ⟨value, hvalue⟩
    · exact ih hrest other attached hentry

/-! ## Pulling one field -/

/-- A pull takes over the identity, or assigns copies of the members, or assigns what is stored
where there are no members. -/
theorem pull_cases {entity other pulled : Entity κ} {field : Nat} {through : Option (Graph κ)}
    (hok : entity.pull field other through = .ok pulled) :
    (Catalog.content? entity.kind field = some .identity ∧
        pulled = ({ entity with id := other.id } : Entity κ).mark field) ∨
      (∃ member shape value, Catalog.content? entity.kind field = some (.nested member shape) ∧
        cloneTree (other.slot field) member field through = .ok value ∧
        pulled = entity.assign field value) ∨
      Catalog.content? entity.kind field ≠ some .identity ∧
        (∀ member shape, Catalog.content? entity.kind field ≠ some (.nested member shape)) ∧
        pulled = entity.assign field (other.slot field) := by
  rw [pull] at hok
  split at hok
  · rename_i hcontent
    exact .inl ⟨hcontent, (Except.ok.inj hok).symm⟩
  · rename_i member shape hcontent
    obtain ⟨value, hvalue, hassign⟩ := Result.bind_eq_ok_iff.1 hok
    exact .inr (.inl ⟨member, shape, value, hcontent, hvalue, (Except.ok.inj hassign).symm⟩)
  · rename_i hidentity hnested
    exact .inr (.inr ⟨hidentity, hnested, (Except.ok.inj hok).symm⟩)

/-- Pulling a field loads it, and no other. -/
theorem hasField_of_pull {entity extension pulled : Entity κ} {field : Nat}
    {through : Option (Graph κ)} (hok : entity.pull field extension through = .ok pulled)
    (other : Nat) : pulled.hasField other = (entity.hasField other || decide (field = other)) := by
  rcases pull_cases hok with ⟨-, rfl⟩ | ⟨_, _, value, -, -, rfl⟩ | ⟨-, -, rfl⟩
  · exact FieldSet.contains_insert entity.held field other
  · exact hasField_assign entity field other value
  · exact hasField_assign entity field other _

/-! ## Copying members -/

omit [DecidableEq κ] in
theorem restrict_under {graph : Graph κ} (hgraph : graph.WellFormed) {field : Nat}
    {subgraph : Option (Graph κ)} (hentry : (field, subgraph) ∈ graph.entries)
    (member : Entity κ) :
    member.restrict (graph.selects.under field) =
      member.restrict (Graph.attachedSelects subgraph) :=
  restrict_congr fun path _ => hgraph.selects_cons hentry path

omit [DecidableEq κ] in
theorem restrict_attachedSelects (subgraph : Graph κ) (member : Entity κ) :
    member.restrict (Graph.attachedSelects (some subgraph)) = member.restrict subgraph.selects := by
  refine restrict_congr fun path hpath => ?_
  cases path with
  | nil => exact hpath.elim
  | cons field rest => simp [Graph.attachedSelects]

omit [DecidableEq κ] in
/-- Of a member with nothing attached, the reference is left. -/
theorem restrict_attachedSelects_none {member : Entity κ} (h : member.Fits) :
    member.restrict (Graph.attachedSelects (.none : Option (Graph κ))) = member.reference := by
  rw [← restrict_bot h]
  refine restrict_congr fun path hpath => ?_
  cases path with
  | nil => exact hpath.elim
  | cons field rest => rfl

theorem cloneMember_none {member : Entity κ} (h : member.Fits) :
    cloneMember none member =
      .ok (member.restrict (Graph.attachedSelects (.none : Option (Graph κ)))) := by
  rw [restrict_attachedSelects_none h]
  rfl

omit [DecidableEq κ] in
theorem leaves_slot_of_not_nested {entity : Entity κ} (hfits : entity.Fits) {field : Nat}
    (h : ∀ member shape, Catalog.content? entity.kind field ≠ some (.nested member shape)) :
    (entity.slot field).leaves = [] := by
  cases hcontent : Catalog.content? entity.kind field with
  | none =>
    have hsize : entity.slots.length ≤ field := by
      rw [hfits.length_slots]
      simpa [Catalog.content?, Catalog.field?, Catalog.size] using hcontent
    rw [slot_eq_unit hsize]
    rfl
  | some content =>
    cases content with
    | identity =>
      rw [hfits.identity field hcontent]
      rfl
    | plain type => exact hfits.plain field type hcontent
    | nested member shape => exact absurd hcontent (h member shape)

/-- The value of a field is copied member by member, in containers of the same order. -/
theorem copySlot_eq_ok {subgraph : Option (Graph κ)} {entity : Entity κ}
    (hentity : entity.Throughout Sound) {field : Nat}
    (hdeclared : Catalog.Copyable entity.kind field) {selection : Selection}
    (hmembers : ∀ member ∈ (entity.slot field).leaves,
      cloneMember subgraph member = .ok (member.restrict selection)) :
    copySlot subgraph entity field = .ok ((entity.slot field).map (restrict selection)) := by
  have hfits := hentity.self.toFits
  have hrebuild : ((entity.slot field).map (restrict selection)).rebuild .collected =
      (entity.slot field).map (restrict selection) := by
    refine Tree.rebuild_eq_self _ ((canonical_map_of_key fun member hmember => ?_).2
      (hfits.canonical field))
    exact key_restrict _ (hentity.member hmember).self.byId
  rw [copySlot]
  split
  · rename_i member shape hcontent
    rw [Graph.checkNested_eq_ok_iff.2 (hdeclared member shape hcontent), Tree.mapM,
      Tree.traverse_eq_ok hmembers]
    exact congrArg Except.ok hrebuild
  · rename_i hcontent
    rw [Tree.map_eq_self]
    · rfl
    · rw [leaves_slot_of_not_nested hfits hcontent]
      exact fun _ hmember => absurd hmember List.not_mem_nil

/-- Members are copied only under a field that declares their kind. -/
theorem copyable_of_copySlot {subgraph : Option (Graph κ)} {entity : Entity κ} {field : Nat}
    {value : Tree (Entity κ)} (hok : copySlot subgraph entity field = .ok value) :
    Catalog.Copyable entity.kind field := by
  intro other shape hother
  rw [copySlot, hother] at hok
  obtain ⟨_, hdeclared, -⟩ := Result.bind_eq_ok_iff.1 hok
  exact Graph.checkNested_eq_ok_iff.1 hdeclared

/-- If a value was copied, then so was every member in it. -/
theorem exists_ok_of_copySlot {subgraph : Option (Graph κ)} {entity : Entity κ}
    (hfits : entity.Fits) {field : Nat} {value : Tree (Entity κ)}
    (hok : copySlot subgraph entity field = .ok value) : ∀ member ∈ (entity.slot field).leaves,
      ∃ copy, cloneMember subgraph member = .ok copy := by
  rw [copySlot] at hok
  split at hok
  · obtain ⟨_, -, hok⟩ := Result.bind_eq_ok_iff.1 hok
    obtain ⟨_, htraverse, -⟩ := Result.bind_eq_ok_iff.1 hok
    exact Tree.exists_ok_of_traverse htraverse
  · rename_i hcontent
    rw [leaves_slot_of_not_nested hfits hcontent]
    exact fun _ hmember => absurd hmember List.not_mem_nil

/-! ## Copying an entity -/

/-- A copy through a graph is the check of the top level, then the copies of its entries. -/
theorem cloneGraph_eq (kind : κ) (entries : List (Nat × Option (Graph κ))) (entity : Entity κ) :
    cloneGraph (.node kind entries) entity =
      entity.ensureFields (.ofList (entries.map (·.1))) >>= fun _ =>
        cloneEntries entries entity entity.reference := by
  rw [cloneGraph]

/-- A copy through a graph assigns copies of the values of the selected fields to a reference. -/
theorem exists_assignAll_of_cloneGraph {graph : Graph κ}
    (hunique : ∀ {field left right}, (field, left) ∈ graph.entries →
      (field, right) ∈ graph.entries → left = right)
    {entity copy : Entity κ} (hok : cloneGraph graph entity = .ok copy) :
    ∃ value : Nat → Tree (Entity κ),
      (∀ field subgraph, (field, subgraph) ∈ graph.entries →
        copySlot subgraph entity field = .ok (value field)) ∧
      copy = assignAll value graph.toList entity.reference := by
  obtain ⟨kind, entries⟩ := graph
  rw [cloneGraph_eq] at hok
  obtain ⟨_, -, hentries⟩ := Result.bind_eq_ok_iff.1 hok
  have hslots := exists_ok_of_cloneEntries hentries
  have hvalue : ∀ field, ∃ value, ∀ subgraph, (field, subgraph) ∈ entries →
      copySlot subgraph entity field = .ok value := by
    intro field
    by_cases hfield : ∃ subgraph, (field, subgraph) ∈ entries
    · obtain ⟨subgraph, hentry⟩ := hfield
      obtain ⟨value, hvalue⟩ := hslots field subgraph hentry
      refine ⟨value, fun other hother => ?_⟩
      rw [hunique hother hentry]
      exact hvalue
    · exact ⟨.scalar .unit, fun subgraph hentry => absurd ⟨subgraph, hentry⟩ hfield⟩
  choose value hvalue using hvalue
  rw [cloneEntries_eq_ok hvalue] at hentries
  exact ⟨value, hvalue, (Except.ok.inj hentries).symm⟩

private theorem cloneGraph_node {kind : κ} {entries : List (Nat × Option (Graph κ))}
    (hgraph : (Graph.node kind entries).WellFormed) {entity : Entity κ}
    (hentity : entity.Throughout Sound)
    (hheld : ∀ field ∈ entries.map (·.1), entity.hasField field = true)
    (hdeclared : ∀ field ∈ entries.map (·.1), Catalog.Copyable entity.kind field)
    (hmembers : ∀ field subgraph, (field, some subgraph) ∈ entries →
      ∀ member ∈ (entity.slot field).leaves,
        cloneGraph subgraph member = .ok (member.restrict subgraph.selects)) :
    cloneGraph (.node kind entries) entity =
      .ok (entity.restrict (Graph.node kind entries).selects) := by
  have hvalues : ∀ field subgraph, (field, subgraph) ∈ entries →
      copySlot subgraph entity field = .ok ((entity.slot field).map
        (restrict ((Graph.node kind entries).selects.under field))) := by
    intro field subgraph hentry
    have hfield : field ∈ entries.map (·.1) := List.mem_map_of_mem hentry
    refine copySlot_eq_ok hentity (hdeclared field hfield) fun member hmember => ?_
    rw [restrict_under hgraph hentry]
    cases subgraph with
    | none => exact cloneMember_none (hentity.member hmember).self.toFits
    | some subgraph =>
      rw [restrict_attachedSelects]
      exact hmembers field subgraph hentry member hmember
  have hensure : entity.ensureFields (.ofList (entries.map (·.1))) = .ok () := by
    refine ensureFields_eq_ok_iff.2 fun field hfield => ?_
    rw [FieldSet.contains_ofList, decide_eq_true_iff] at hfield
    exact hheld field hfield
  have hfields : ∀ field, field ∈ entries.map (·.1) ↔
      (Graph.node kind entries).selects [field] = true := by
    intro field
    rw [Graph.selects_singleton_iff]
    rfl
  have hlevel := assignAll_reference hentity.self.toFits hfields hheld
  rw [cloneGraph_eq, hensure]
  exact (cloneEntries_eq_ok hvalues).trans (congrArg Except.ok hlevel)

/-- A copy through a graph, if it can be made, is the restriction to what the graph selects. -/
theorem cloneGraph_eq_restrict {graph : Graph κ} (hgraph : graph.WellFormed) {entity : Entity κ}
    (hentity : entity.Throughout Sound) {copy : Entity κ}
    (hok : cloneGraph graph entity = .ok copy) : copy = entity.restrict graph.selects := by
  induction graph using Graph.induction generalizing entity copy with
  | node kind entries ih =>
    have hclone := hok
    rw [cloneGraph_eq] at hok
    obtain ⟨_, hensure, hentries⟩ := Result.bind_eq_ok_iff.1 hok
    have hslots : ∀ field subgraph, (field, subgraph) ∈ entries →
        Catalog.Copyable entity.kind field ∧ ∀ member ∈ (entity.slot field).leaves,
          ∃ copy, cloneMember subgraph member = .ok copy := by
      intro field subgraph hentry
      obtain ⟨value, hvalue⟩ := exists_ok_of_cloneEntries hentries field subgraph hentry
      exact ⟨copyable_of_copySlot hvalue, exists_ok_of_copySlot hentity.self.toFits hvalue⟩
    rw [cloneGraph_node hgraph hentity] at hclone
    · exact (Except.ok.inj hclone).symm
    · refine fun field hfield => ensureFields_eq_ok_iff.1 hensure field ?_
      rw [FieldSet.contains_ofList, decide_eq_true_iff]
      exact hfield
    · intro field hfield
      obtain ⟨⟨_, subgraph⟩, hentry, rfl⟩ := List.mem_map.1 hfield
      exact (hslots _ subgraph hentry).1
    · intro field subgraph hentry member hmember
      obtain ⟨result, hresult⟩ := (hslots field _ hentry).2 member hmember
      rw [cloneMember] at hresult
      rw [hresult, ih field subgraph hentry (hgraph.attached hentry) (hentity.member hmember)
        hresult]

/-- A copy through a graph can only be made of an entity that holds the top level, in fields whose
declarations agree with what they store. -/
theorem level_of_cloneGraph {graph : Graph κ} {entity copy : Entity κ}
    (hok : cloneGraph graph entity = .ok copy) {field : Nat}
    (hselected : graph.selects [field] = true) :
    entity.hasField field = true ∧ Catalog.Copyable entity.kind field := by
  obtain ⟨kind, entries⟩ := graph
  rw [cloneGraph_eq] at hok
  obtain ⟨_, hensure, hentries⟩ := Result.bind_eq_ok_iff.1 hok
  obtain ⟨subgraph, hentry, -⟩ := Graph.selects_cons_iff.1 hselected
  obtain ⟨value, hvalue⟩ := exists_ok_of_cloneEntries hentries field subgraph hentry
  refine ⟨ensureFields_eq_ok_iff.1 hensure field ?_, copyable_of_copySlot hvalue⟩
  rw [FieldSet.contains_ofList, decide_eq_true_iff]
  exact List.mem_map_of_mem hentry

/-- What an entity holds can be copied, unless a field on the way stores members of a kind that it
does not declare. -/
theorem cloneGraph_eq_ok {graph : Graph κ} (hgraph : graph.WellFormed) {entity : Entity κ}
    (hentity : entity.Throughout Sound)
    (hholds : ∀ path, graph.selects path = true → ¬entity.Lacks path)
    (hcopyable : ∀ path, graph.selects path = true →
      Catalog.OnPath Catalog.Copyable entity.kind path) :
    cloneGraph graph entity = .ok (entity.restrict graph.selects) := by
  induction graph using Graph.induction generalizing entity with
  | node kind entries ih =>
    have hdeclared : ∀ field ∈ entries.map (·.1), Catalog.Copyable entity.kind field :=
      fun field hfield => (hcopyable [field] (Graph.selects_singleton_iff.2 hfield)).1
    refine cloneGraph_node hgraph hentity (fun field hfield => ?_) hdeclared ?_
    · have hlacks := hholds [field] (Graph.selects_singleton_iff.2 hfield)
      exact Bool.of_not_eq_false fun hfalse => hlacks (.inl hfalse)
    · intro field subgraph hentry member hmember
      have hselects : ∀ path, subgraph.selects path = true →
          (Graph.node kind entries).selects (field :: path) = true :=
        fun path hpath => Graph.selects_of_attached hentry hpath
      have hkind : Catalog.nested? entity.kind field = some member.kind := by
        by_cases hnested : ∃ kind shape,
            Catalog.content? entity.kind field = some (.nested kind shape)
        · obtain ⟨kind', shape, hcontent⟩ := hnested
          rw [hentity.self.nested field kind' shape hcontent member hmember]
          exact hdeclared field (List.mem_map_of_mem hentry) kind' shape hcontent
        · rw [leaves_slot_of_not_nested hentity.self.toFits fun kind' shape hcontent =>
            hnested ⟨kind', shape, hcontent⟩] at hmember
          exact absurd hmember List.not_mem_nil
      refine ih field subgraph hentry (hgraph.attached hentry) (hentity.member hmember)
        (fun path hpath hlacks => ?_) fun path hpath => ?_
      · exact hholds _ (hselects path hpath) (.inr ⟨member, hmember, hlacks⟩)
      · exact (hcopyable _ (hselects path hpath)).2 member.kind hkind

end PartialEntity.Entity
