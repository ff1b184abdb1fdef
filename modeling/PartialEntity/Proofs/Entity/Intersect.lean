import PartialEntity.Proofs.Entity.Change

/-!
# Narrowing is restriction

Narrowing a clean entity to a graph over regular fields restricts it to what the graph selects.
-/

namespace PartialEntity

def Selection.without (fields : FieldSet) : Selection
  | [] => false
  | field :: _ => !fields.contains field

namespace Entity

variable {κ : Type} [Catalog κ]

/-! ## Clean entities -/

/-- A part of an entity is clean, whatever the entity stores where nothing is loaded. -/
theorem clean_restrict {entity : Entity κ} (h : entity.Throughout Fits) (selection : Selection) :
    (entity.restrict selection).Throughout Clean := by
  induction h generalizing selection with
  | intro self _ ih =>
    refine .intro (fun field hfield => ?_) fun field leaf hleaf => ?_
    · rw [hasField_restrict] at hfield
      rw [slot_restrict_of_not self hfield, kind_restrict]
    · obtain ⟨-, -, member, hmember, rfl⟩ := (mem_leaves_restrict self).1 hleaf
      exact ih field member hmember _

/-- A clean entity is all of itself. -/
theorem restrict_top {entity : Entity κ} (hfits : entity.Throughout Fits)
    (hclean : entity.Throughout Clean) : entity.restrict ⊤ = entity := by
  induction hfits with
  | @intro entity self _ ih =>
    refine ext_slot (kind_restrict ..) (id_restrict ..) (fun field => ?_)
      (length_slots_restrict ..) fun field => ?_
    · rw [hasField_restrict]
      exact Bool.and_true _
    · by_cases hheld : entity.hasField field = true
      · rw [slot_restrict hheld rfl]
        exact Tree.map_eq_self fun member hmember =>
          ih field member hmember (hclean.member hmember)
      · rw [slot_restrict_of_not self (by simp [hheld]),
          hclean.self field (Bool.eq_false_iff.2 hheld)]

theorem hasField_clearFields (entity : Entity κ) (fields : FieldSet) (field : Nat) :
    (entity.clearFields fields).hasField field =
      (entity.hasField field && !fields.contains field) := by
  have hdiff : (entity.clearFields fields).hasField field =
      (entity.hasField field && !(entity.held.inter fields).contains field) :=
    FieldSet.contains_diff ..
  rw [hdiff, FieldSet.contains_inter]
  change (entity.hasField field && !(entity.hasField field && fields.contains field)) = _
  cases entity.hasField field <;> rfl

/-- An unloaded field stores what is fresh, and the others store what they did. -/
theorem slot_clearFields {entity : Entity κ}
    (hlength : entity.slots.length = Catalog.size entity.kind) (fields : FieldSet) (field : Nat) :
    (entity.clearFields fields).slot field =
      if entity.hasField field && fields.contains field then emptySlot entity.kind field
      else entity.slot field := by
  by_cases hlt : field < entity.slots.length
  · rw [slot_eq_getElem (by simpa [clearFields] using hlt), slot_eq_getElem hlt]
    simp only [clearFields, List.getElem_mapIdx, FieldSet.contains_inter]
    rfl
  · have hsize : Catalog.size entity.kind ≤ field := by
      rw [← hlength]
      exact Nat.le_of_not_lt hlt
    rw [slot_eq_unit, slot_eq_unit (Nat.le_of_not_lt hlt), emptySlot_of_size_le hsize, ite_self]
    exact (List.length_mapIdx (l := entity.slots)).trans_le (Nat.le_of_not_lt hlt)

/-- A field under which everything is selected keeps its value. -/
theorem slot_restrict_of_all {entity : Entity κ} (hfits : entity.Throughout Fits)
    (hclean : entity.Throughout Clean) {field : Nat} (hheld : entity.hasField field = true)
    {selection : Selection} (hall : ∀ rest, selection (field :: rest) = true) :
    (entity.restrict selection).slot field = entity.slot field := by
  have hunder : selection.under field = ⊤ := funext hall
  rw [slot_restrict hheld (hall []), hunder]
  exact Tree.map_eq_self fun member hmember =>
    restrict_top (hfits.member hmember) (hclean.member hmember)

/-- Unloading fields keeps the others with all that is under them. -/
theorem clearFields_eq_restrict (fields : FieldSet) {entity : Entity κ}
    (hfits : entity.Throughout Fits) (hclean : entity.Throughout Clean) :
    entity.clearFields fields = entity.restrict (.without fields) := by
  refine ext_slot (kind_restrict (.without fields) entity).symm
    (id_restrict (.without fields) entity).symm (fun field => ?_) ?_ fun field => ?_
  · rw [hasField_restrict, hasField_clearFields]
    rfl
  · rw [length_slots_restrict]
    exact List.length_mapIdx
  · rw [slot_clearFields hfits.self.length_slots]
    by_cases hheld : entity.hasField field = true
    · by_cases hlisted : fields.contains field = true
      · rw [slot_restrict_of_not hfits.self (by simp [Selection.without, hlisted])]
        simp only [hheld, hlisted, Bool.and_self, if_true]
      · rw [slot_restrict_of_all hfits hclean hheld fun rest => by
          simp [Selection.without, hlisted]]
        simp only [hheld, hlisted, Bool.and_false, Bool.false_eq_true, if_false]
    · rw [slot_restrict_of_not hfits.self (by simp [hheld]),
        hclean.self field (Bool.eq_false_iff.2 hheld), ite_self]

theorem clearFields_held {entity : Entity κ} (hfits : entity.Throughout Fits)
    (hclean : entity.Throughout Clean) : entity.clearFields entity.held = entity.reference := by
  rw [clearFields_eq_restrict _ hfits hclean, ← restrict_bot hfits.self]
  refine restrict_congr fun path hpath => ?_
  cases path with
  | nil => rfl
  | cons field rest =>
    have hheld : entity.held.contains field = true := hpath.1
    simp [Selection.without, hheld]

/-! ## Narrowing -/

variable [DecidableEq κ]

def narrowMember : Option (Graph κ) → Entity κ → Entity κ × Except Error Unit
  | none => fun member => (member.clearFields member.held, pure ())
  | some subgraph => intersect subgraph

theorem intersectMember_eq (field : Nat) (entries : List (Nat × Option (Graph κ))) :
    intersectMember field entries = (Assoc.find? field entries).map narrowMember := by
  induction entries with
  | nil => rfl
  | cons entry rest ih =>
    obtain ⟨other, subgraph⟩ := entry
    cases subgraph <;> by_cases hother : other = field <;>
      simp [intersectMember, Assoc.find?, hother, ih, narrowMember]

def narrowField (entries : List (Nat × Option (Graph κ))) (field : Nat) (entity : Entity κ) :
    Entity κ × Except Error Unit :=
  match intersectMember field entries with
  | some change =>
    if (Catalog.nested? entity.kind field).isSome then forMembers change field entity
    else (entity, pure ())
  | none => (entity, pure ())

omit [Catalog κ] [DecidableEq κ] in
/-- The fields that narrowing unloads are those that are loaded and not selected. -/
theorem contains_diff_fields (graph : Graph κ) (entity : Entity κ) (field : Nat) :
    (entity.held.diff graph.fields).contains field =
      (entity.hasField field && !graph.selects [field]) := by
  rw [FieldSet.contains_diff, Graph.contains_fields]
  rfl

/-- Narrowing unloads what is not selected, then narrows the members field by field. -/
theorem intersect_eq (kind : κ) (entries : List (Nat × Option (Graph κ))) (entity : Entity κ) :
    intersect (.node kind entries) entity =
      forFields (narrowField entries) entity.held.toList
        (entity.clearFields (entity.held.diff (Graph.node kind entries).fields)) := by
  rw [intersect]
  rfl

private theorem narrowMember_eq {graph : Graph κ} (hgraph : graph.WellFormed) {field : Nat}
    {subgraph : Option (Graph κ)} (hentry : (field, subgraph) ∈ graph.entries)
    {leaf : Entity κ} (hleaf : leaf.Throughout Sound) (hclean : leaf.Throughout Clean)
    (hsubgraph : ∀ inner, subgraph = some inner →
      intersect inner leaf = (leaf.restrict inner.selects, .ok ())) :
    narrowMember subgraph leaf = (leaf.restrict (graph.selects.under field), .ok ()) := by
  rw [restrict_under hgraph hentry]
  cases subgraph with
  | none =>
    have hfits : leaf.Throughout Fits := hleaf.mono fun _ h => h.toFits
    rw [restrict_attachedSelects_none hleaf.self.toFits, ← clearFields_held hfits hclean]
    rfl
  | some inner =>
    rw [restrict_attachedSelects]
    exact hsubgraph inner rfl

/-- Narrowing the members under a field whose value is whole restricts them to what the graph
selects there. -/
private theorem forMembers_narrowMember {graph : Graph κ} (hgraph : graph.WellFormed)
    {entity : Entity κ} (hentity : entity.Throughout Sound) (hclean : entity.Throughout Clean)
    {field : Nat} (hheld : entity.hasField field = true) {subgraph : Option (Graph κ)}
    (hentry : (field, subgraph) ∈ graph.entries) {member : κ}
    (hdescend : descend entity.kind field = .ok member)
    (hmembers : ∀ inner, subgraph = some inner → ∀ leaf ∈ (entity.slot field).leaves,
      intersect inner leaf = (leaf.restrict inner.selects, .ok ()))
    {selection : Selection} (hall : ∀ rest, selection (field :: rest) = true) :
    forMembers (narrowMember subgraph) field (entity.restrict selection) =
      ((entity.restrict selection).assign field
        ((entity.slot field).map (restrict (graph.selects.under field))), .ok ()) := by
  have hslot : (entity.restrict selection).slot field = entity.slot field :=
    slot_restrict_of_all (hentity.mono fun _ h => h.toFits) hclean hheld hall
  have hhas : (entity.restrict selection).hasField field = true := by
    rw [hasField_restrict, hheld, hall]
    rfl
  have hcanonical := hentity.self.canonical field
  have hkey : ∀ leaf ∈ (entity.slot field).leaves,
      (leaf.restrict (graph.selects.under field)).key = leaf.key :=
    fun leaf hleaf => key_restrict _ (hentity.member hleaf).self.byId
  have hchange : ∀ leaf ∈ (entity.slot field).leaves, narrowMember subgraph leaf =
      (leaf.restrict (graph.selects.under field), .ok ()) := fun leaf hleaf =>
    narrowMember_eq hgraph hentry (hentity.member hleaf) (hclean.member hleaf)
      fun inner heq => hmembers inner heq leaf hleaf
  rw [← kind_restrict selection entity] at hdescend
  rw [← hslot] at hcanonical hkey hchange
  rw [forMembers_eq_ok hdescend hcanonical hkey hchange, store_eq_assign hhas, hslot]

/-- Narrowing the members under a field leads from one state to the next.  Under the field, the
selection `start` keeps everything or nothing. -/
private theorem narrowField_eq {kind : κ} {entries : List (Nat × Option (Graph κ))}
    (hgraph : (Graph.node kind entries).WellFormed) {entity : Entity κ}
    (hentity : entity.Throughout Sound) (hclean : entity.Throughout Clean) {field : Nat}
    (hheld : entity.hasField field = true)
    (hregular : (Graph.node kind entries).selects [field] = true →
      Catalog.Regular entity.kind field)
    (hmembers : ∀ inner, (field, some inner) ∈ entries → ∀ leaf ∈ (entity.slot field).leaves,
      Catalog.nested? entity.kind field = some leaf.kind →
        intersect inner leaf = (leaf.restrict inner.selects, .ok ()))
    {start : Selection} (hstart : ∀ rest,
      start (field :: rest) = (Graph.node kind entries).selects [field])
    {done : List Nat} (hdone : field ∉ done) :
    narrowField entries field
        (entity.restrict (start.patch done (Graph.node kind entries).selects)) =
      (entity.restrict (start.patch (done ++ [field]) (Graph.node kind entries).selects),
        .ok ()) := by
  have hunchanged : (∀ rest, entity.Reaches (field :: rest) →
      start (field :: rest) = (Graph.node kind entries).selects (field :: rest)) →
      (entity.restrict (start.patch done (Graph.node kind entries).selects), pure ()) =
        (entity.restrict (start.patch (done ++ [field]) (Graph.node kind entries).selects),
          (.ok () : Except Error Unit)) := by
    intro hsame
    rw [restrict_patch_append hsame]
    rfl
  rw [narrowField, intersectMember_eq, kind_restrict]
  cases hfind : Assoc.find? field entries with
  | none =>
    refine hunchanged fun rest _ => ?_
    have hnone : ∀ path, (Graph.node kind entries).selects (field :: path) = false := by
      intro path
      rw [Bool.eq_false_iff]
      intro hselects
      obtain ⟨subgraph, hentry, -⟩ := Graph.selects_cons_iff.1 hselects
      exact Assoc.find?_eq_none_iff.1 hfind (List.mem_map_of_mem hentry)
    rw [hstart, hnone, hnone]
  | some subgraph =>
    have hentry : (field, subgraph) ∈ entries := Assoc.mem_of_find? hfind
    have hselected : (Graph.node kind entries).selects [field] = true :=
      Graph.selects_cons_iff.2 ⟨subgraph, hentry, rfl⟩
    cases hnested : Catalog.nested? entity.kind field with
    | none =>
      have hleaves : (entity.slot field).leaves = [] := by
        refine leaves_slot_of_not_nested hentity.self.toFits fun member shape hcontent => ?_
        rw [(hregular hselected).copyable member shape hcontent] at hnested
        cases hnested
      refine hunchanged fun rest hpath => ?_
      rcases hpath.2 with rfl | ⟨member, hmember, -⟩
      · exact hstart []
      · rw [hleaves] at hmember
        exact absurd hmember List.not_mem_nil
    | some member =>
      obtain ⟨shape, hcontent, hvisible⟩ := (hregular hselected).content hnested
      have hall : ∀ rest, start.patch done (Graph.node kind entries).selects (field :: rest) =
          true := by
        intro rest
        rw [Selection.patch_of_not_mem hdone, hstart, hselected]
      have hnarrowed : ∀ inner, subgraph = some inner → ∀ leaf ∈ (entity.slot field).leaves,
          intersect inner leaf = (leaf.restrict inner.selects, .ok ()) := by
        rintro inner rfl leaf hleaf
        refine hmembers inner hentry leaf hleaf ?_
        rw [hnested, hentity.self.nested field member shape hcontent leaf hleaf]
      simp only [Option.map_some, Option.isSome_some, if_true]
      rw [forMembers_narrowMember hgraph hentity hclean hheld hentry
        (descend_eq_ok_iff.2 ⟨hnested, shape, hcontent, hvisible⟩) hnarrowed hall,
        assign_restrict_patch hentity.self.toFits hheld hselected]

/-- Narrowing restricts an entity to what the graph selects. -/
theorem intersect_eq_restrict {graph : Graph κ} (hgraph : graph.WellFormed) {entity : Entity κ}
    (hentity : entity.Throughout Sound) (hclean : entity.Throughout Clean)
    (hregular : ∀ path, graph.selects path = true →
      Catalog.OnPath Catalog.Regular entity.kind path) :
    intersect graph entity = (entity.restrict graph.selects, .ok ()) := by
  induction graph using Graph.induction generalizing entity with
  | node kind entries ih =>
    let graph := Graph.node kind entries
    let start := Selection.without (entity.held.diff graph.fields)
    have hstart : ∀ field, entity.hasField field = true → ∀ rest,
        start (field :: rest) = graph.selects [field] := by
      intro field hheld rest
      simp only [start, Selection.without, contains_diff_fields, hheld, Bool.true_and,
        Bool.not_not]
    have hclear : entity.clearFields (entity.held.diff graph.fields) =
        entity.restrict (start.patch [] graph.selects) := by
      rw [restrict_patch_nil]
      exact clearFields_eq_restrict _ (hentity.mono fun _ h => h.toFits) hclean
    have hfields : forFields (narrowField entries) entity.held.toList
        (entity.restrict (start.patch [] graph.selects)) =
          (entity.restrict (start.patch entity.held.toList graph.selects), .ok ()) := by
      refine forFields_eq_ok (fun done => entity.restrict (start.patch done graph.selects))
        fun done field rest heq => ?_
      have hheld : entity.hasField field = true := by
        refine FieldSet.mem_toList.1 ?_
        rw [← heq]
        simp
      have hdone : field ∉ done := by
        have hnodup := FieldSet.nodup_toList entity.held
        rw [← heq] at hnodup
        exact fun hmem => (List.disjoint_of_nodup_append hnodup) hmem (List.mem_cons_self ..)
      refine narrowField_eq hgraph hentity hclean hheld (fun hselected => (hregular _ hselected).1)
        (fun inner hentry leaf hleaf hkind => ?_) (hstart field hheld) hdone
      exact ih field inner hentry (hgraph.attached hentry) (hentity.member hleaf)
        (hclean.member hleaf) fun path hpath =>
          (hregular _ (Graph.selects_of_attached hentry hpath)).2 leaf.kind hkind
    rw [intersect_eq]
    change forFields _ _ (entity.clearFields (entity.held.diff graph.fields)) = _
    rw [hclear, hfields, restrict_patch_of_mem]
    exact fun field rest hpath => .inl (FieldSet.mem_toList.2 hpath.1)

end Entity

end PartialEntity
