import PartialEntity.Proofs.Entity.Completion
import PartialEntity.Proofs.Entity.Lawful
import PartialEntity.Proofs.Tree.Visits

/-!
# Entities stay as their kind says

Every operation on entities of a kind, each of them with everything under it as its kind says,
gives an entity of that kind with everything under it as its kind says.  This asks neither how
members are told apart nor what is loaded, and it holds of the changes that stand after an error.
-/

namespace PartialEntity

variable {κ : Type} [Catalog κ]

theorem Catalog.lt_size {kind : κ} {field : Nat} {content : Content κ}
    (h : Catalog.content? kind field = some content) : field < Catalog.size kind := by
  obtain ⟨info, hinfo, -⟩ := Option.map_eq_some_iff.1 h
  exact (List.getElem?_eq_some_iff.1 hinfo).1

namespace Entity

/-- Whether an entity is of a kind, and it and everything under it is as its kind says. -/
structure WellTyped (kind : κ) (entity : Entity κ) : Prop where
  kind_eq : entity.kind = kind
  fits : entity.Throughout Fits

structure Suits (kind : κ) (field : Nat) (value : Tree (Entity κ)) : Prop where
  allows : ∀ content, Catalog.content? kind field = some content → content.Allows value
  canonical : value.Canonical
  fits : ∀ leaf ∈ value.leaves, leaf.Throughout Fits

variable {kind : κ} {entity extension copy : Entity κ} {field : Nat} {value : Tree (Entity κ)}

theorem WellTyped.lt_size (h : WellTyped kind entity) (hfield : entity.hasField field = true) :
    field < Catalog.size kind :=
  h.kind_eq ▸ h.fits.self.lt_size field hfield

/-! ## Stored values -/

theorem suits_slot (h : WellTyped kind entity) (field : Nat) :
    Suits kind field (entity.slot field) where
  allows _ hcontent := h.fits.self.allows (h.kind_eq ▸ hcontent)
  canonical := h.fits.self.canonical field
  fits _ hleaf := h.fits.member hleaf

/-- Members of the declared kind suit a field that stores members. -/
theorem suits_of_nested {member : κ} {shape : Shape κ}
    (hcontent : Catalog.content? kind field = some (.nested member shape))
    (hcanonical : value.Canonical) (hleaves : ∀ leaf ∈ value.leaves, WellTyped member leaf) :
    Suits kind field value where
  allows content h := by
    obtain rfl : Content.nested member shape = content := Option.some.inj (hcontent.symm.trans h)
    exact fun leaf hleaf => (hleaves leaf hleaf).kind_eq
  canonical := hcanonical
  fits leaf hleaf := (hleaves leaf hleaf).fits

/-- Any scalar suits a plain field. -/
theorem suits_scalar {type : ScalarType}
    (hcontent : Catalog.content? kind field = some (.plain type)) (scalar : Scalar) :
    Suits kind field (.scalar scalar) where
  allows content h := by
    obtain rfl : Content.plain type = content := Option.some.inj (hcontent.symm.trans h)
    rfl
  canonical := .scalar scalar
  fits := nofun

/-- The members of a field are of the kind that it declares. -/
theorem wellTyped_leaf (h : WellTyped kind entity) {member : κ} {shape : Shape κ}
    (hcontent : Catalog.content? kind field = some (.nested member shape)) {leaf : Entity κ}
    (hleaf : leaf ∈ (entity.slot field).leaves) : WellTyped member leaf :=
  ⟨(suits_slot h field).allows _ hcontent leaf hleaf, h.fits.member hleaf⟩

/-- A field under which there are members stores members of a kind. -/
theorem exists_content_of_mem_leaves (h : WellTyped kind entity) {leaf : Entity κ}
    (hleaf : leaf ∈ (entity.slot field).leaves) :
    ∃ member shape, Catalog.content? kind field = some (.nested member shape) := by
  by_contra hnone
  have hempty : (entity.slot field).leaves = [] := by
    refine leaves_slot_of_not_nested h.fits.self fun member shape hcontent => hnone ?_
    exact ⟨member, shape, h.kind_eq ▸ hcontent⟩
  rw [hempty] at hleaf
  exact List.not_mem_nil hleaf

/-- Under one field, entities of one kind have members of one kind. -/
theorem kind_eq_of_mem_leaves (h : WellTyped kind entity) (hextension : WellTyped kind extension)
    {leaf : Entity κ} (hleaf : leaf ∈ (entity.slot field).leaves) {candidate : Entity κ}
    (hcandidate : candidate ∈ (extension.slot field).leaves) : leaf.kind = candidate.kind := by
  obtain ⟨member, shape, hcontent⟩ := exists_content_of_mem_leaves h hleaf
  calc
    leaf.kind = member := (wellTyped_leaf h hcontent hleaf).kind_eq
    _ = candidate.kind := (wellTyped_leaf hextension hcontent hcandidate).kind_eq.symm

theorem wellTyped_of_sound (hkind : entity.kind = kind) (h : entity.Throughout Sound) :
    WellTyped kind entity :=
  ⟨hkind, h.mono fun _ hsound => hsound.toFits⟩

theorem wellTyped_of_isRecord (h : entity.IsRecord) : WellTyped entity.kind entity :=
  wellTyped_of_sound rfl h.lawful.sound

theorem wellTyped_ofId (kind : κ) (id : Nat) : WellTyped kind (ofId kind id) := by
  refine ⟨rfl, .intro (fits_ofId kind id) fun field member hmember => ?_⟩
  exact absurd hmember (not_mem_leaves_emptySlot kind field member)

/-- An entity is as its kind says if every field stores what it can store. -/
theorem wellTyped_of_suits (hkind : entity.kind = kind)
    (hlength : entity.slots.length = Catalog.size kind)
    (hheld : ∀ field, entity.hasField field = true → field < Catalog.size kind)
    (hsuits : ∀ field, Suits kind field (entity.slot field)) : WellTyped kind entity := by
  subst hkind
  refine ⟨rfl, .intro (Fits.of_allows hlength hheld ?_ ?_) ?_⟩
  · exact fun field content hcontent => (hsuits field).allows content hcontent
  · exact fun field => (hsuits field).canonical
  · exact fun field member hmember => (hsuits field).fits member hmember

theorem wellTyped_store (h : WellTyped kind entity) (hvalue : Suits kind field value) :
    WellTyped kind (entity.store field value) := by
  have hself := h.fits.self
  rw [← h.kind_eq] at hvalue ⊢
  apply wellTyped_of_suits
  · rfl
  · exact (List.length_set ..).trans hself.length_slots
  · exact hself.lt_size
  · intro other
    rw [slot_store]
    split
    · rename_i hsame
      exact hsame.1 ▸ hvalue
    · exact suits_slot ⟨rfl, h.fits⟩ other

/-- A field of the kind may count as loaded, and the id may be any. -/
theorem wellTyped_mark (h : WellTyped kind entity) (hfield : field < Catalog.size kind) (id : Nat) :
    WellTyped kind ({ entity with id := id }.mark field) := by
  obtain ⟨rfl, hfits⟩ := h
  refine ⟨rfl, .intro ?_ fun _ _ hmember => hfits.member hmember⟩
  refine Fits.of_allows hfits.self.length_slots (fun other hother => ?_)
    (fun _ _ hcontent => hfits.self.allows hcontent) hfits.self.canonical
  rw [mark, hasField_mk, FieldSet.contains_insert, Bool.or_eq_true, decide_eq_true_iff] at hother
  rcases hother with hother | rfl
  · exact hfits.self.lt_size other hother
  · exact hfield

theorem wellTyped_assign (h : WellTyped kind entity) (hfield : field < Catalog.size kind)
    (hvalue : Suits kind field value) : WellTyped kind (entity.assign field value) :=
  wellTyped_mark (wellTyped_store h hvalue) hfield entity.id

theorem wellTyped_clearFields (h : WellTyped kind entity) (fields : FieldSet) :
    WellTyped kind (entity.clearFields fields) := by
  have hself := h.fits.self
  obtain ⟨rfl, hfits⟩ := h
  apply wellTyped_of_suits
  · rfl
  · exact List.length_mapIdx.trans hself.length_slots
  · intro field hfield
    rw [hasField_clearFields, Bool.and_eq_true] at hfield
    exact hself.lt_size field hfield.1
  · intro field
    rw [slot_clearFields hself.length_slots]
    split
    · exact suits_slot (wellTyped_ofId entity.kind entity.id) field
    · exact suits_slot ⟨rfl, hfits⟩ field

/-! ## Copies -/

theorem wellTyped_cloneAll (h : WellTyped kind entity) : WellTyped kind entity.cloneAll := by
  obtain ⟨rfl, hfits⟩ := h
  induction hfits with
  | @intro entity self members ih =>
    have hentity : WellTyped entity.kind entity := ⟨rfl, .intro self members⟩
    have hcopied : ∀ field,
        Suits entity.kind field (((entity.slot field).map cloneAll).rebuild .collected) := by
      intro field
      by_cases hnested : ∃ member shape,
          Catalog.content? entity.kind field = some (.nested member shape)
      · obtain ⟨member, shape, hcontent⟩ := hnested
        refine suits_of_nested hcontent (Tree.canonical_rebuild _ _) fun leaf hleaf => ?_
        obtain ⟨origin, horigin, rfl⟩ := Tree.exists_of_mem_leaves_rebuild_map hleaf
        have hkind := (wellTyped_leaf hentity hcontent horigin).kind_eq
        exact hkind ▸ ih field origin horigin
      · have hleaves : (entity.slot field).leaves = [] :=
          leaves_slot_of_not_nested self fun member shape hcontent =>
            hnested ⟨member, shape, hcontent⟩
        have hsame : (entity.slot field).map cloneAll = entity.slot field := by
          apply Tree.map_eq_self
          rw [hleaves]
          exact fun _ hleaf => absurd hleaf List.not_mem_nil
        rw [hsame, Tree.rebuild_eq_self _ (self.canonical field)]
        exact suits_slot hentity field
    apply wellTyped_of_suits
    · rw [cloneAll_eq]
    · rw [cloneAll_eq, List.length_mapIdx, self.length_slots]
    · rw [cloneAll_eq]
      exact self.lt_size
    · intro field
      rw [slot_cloneAll self.length_slots]
      split
      · exact hcopied field
      · exact suits_slot (wellTyped_ofId entity.kind entity.id) field

theorem wellTyped_pullWhole (h : WellTyped kind entity) (hextension : WellTyped kind extension)
    (hfield : field < Catalog.size kind) : WellTyped kind (entity.pullWhole field extension) := by
  rw [pullWhole]
  split
  · exact wellTyped_mark h hfield extension.id
  · rename_i member shape hcontent
    rw [h.kind_eq] at hcontent
    refine wellTyped_assign h hfield (suits_of_nested hcontent (Tree.canonical_rebuild _ _)
      fun leaf hleaf => ?_)
    obtain ⟨origin, horigin, rfl⟩ := Tree.exists_of_mem_leaves_rebuild_map hleaf
    exact wellTyped_cloneAll (wellTyped_leaf hextension hcontent horigin)
  · exact wellTyped_assign h hfield (suits_slot hextension field)

theorem wellTyped_pullAll (h : WellTyped kind entity) (hextension : WellTyped kind extension) :
    WellTyped kind (entity.pullAll extension) := by
  refine List.foldlRecOn _ _ h fun copy hcopy field hfield => ?_
  exact wellTyped_pullWhole hcopy hextension (hextension.lt_size (FieldSet.mem_toList.1 hfield))

section Graph

variable [DecidableEq κ] {graph : Graph κ}

/-- The members of the copied value of a field are copies of members. -/
theorem exists_of_mem_leaves_copySlot {subgraph : Option (Graph κ)} (hfits : entity.Fits)
    (hok : copySlot subgraph entity field = .ok value) (hcopy : copy ∈ value.leaves) :
    ∃ member ∈ (entity.slot field).leaves, cloneMember subgraph member = .ok copy := by
  rw [copySlot] at hok
  split at hok
  · obtain ⟨_, -, hmap⟩ := Result.bind_eq_ok_iff.1 hok
    exact Tree.exists_of_mem_leaves_mapM hmap hcopy
  · rename_i hnested
    cases hok
    rw [leaves_slot_of_not_nested hfits hnested] at hcopy
    exact absurd hcopy List.not_mem_nil

/-- Copied members suit a field if the members of the origin are copied so. -/
private theorem suits_of_copySlot {subgraph : Option (Graph κ)} (h : WellTyped kind entity)
    (hmembers : ∀ leaf ∈ (entity.slot field).leaves, ∀ copy,
      cloneMember subgraph leaf = .ok copy → WellTyped leaf.kind copy)
    (hok : copySlot subgraph entity field = .ok value) : Suits kind field value := by
  have hcopies : ∀ leaf ∈ value.leaves, ∃ origin ∈ (entity.slot field).leaves,
      cloneMember subgraph origin = .ok leaf :=
    fun _ hleaf => exists_of_mem_leaves_copySlot h.fits.self hok hleaf
  rw [copySlot] at hok
  split at hok
  · rename_i member shape hcontent
    rw [h.kind_eq] at hcontent
    obtain ⟨_, -, hmap⟩ := Result.bind_eq_ok_iff.1 hok
    refine suits_of_nested hcontent (Tree.canonical_of_mapM hmap) fun leaf hleaf => ?_
    obtain ⟨origin, horigin, hcopy⟩ := hcopies leaf hleaf
    have hkind := (wellTyped_leaf h hcontent horigin).kind_eq
    exact hkind ▸ hmembers origin horigin leaf hcopy
  · cases hok
    exact suits_slot h field

/-- What the assignment of each copied field keeps is kept by copying them all. -/
theorem cloneEntries_induction {P : Entity κ → Prop} {entries : List (Nat × Option (Graph κ))}
    {start result : Entity κ}
    (hstep : ∀ field subgraph, (field, subgraph) ∈ entries → ∀ value,
      copySlot subgraph entity field = .ok value → ∀ next, P next → P (next.assign field value))
    (hstart : P start) (hok : cloneEntries entries entity start = .ok result) : P result := by
  induction entries generalizing start with
  | nil =>
    cases hok
    exact hstart
  | cons entry rest ih =>
    obtain ⟨field, subgraph⟩ := entry
    rw [cloneEntries_cons] at hok
    obtain ⟨value, hvalue, hrest⟩ := Result.bind_eq_ok_iff.1 hok
    exact ih (fun other attached hentry => hstep other attached (List.mem_cons_of_mem _ hentry))
      (hstep field subgraph (List.mem_cons_self ..) value hvalue start hstart) hrest

theorem wellTyped_cloneGraph (h : WellTyped kind entity)
    (hok : cloneGraph graph entity = .ok copy) : WellTyped kind copy := by
  induction graph using Graph.induction generalizing kind entity copy with
  | node gkind entries ih =>
    rw [cloneGraph_eq] at hok
    obtain ⟨_, hensure, hentries⟩ := Result.bind_eq_ok_iff.1 hok
    have hreference : WellTyped kind entity.reference := h.kind_eq ▸ wellTyped_ofId _ _
    refine cloneEntries_induction (P := WellTyped kind)
      (fun field subgraph hentry value hvalue next hnext => ?_) hreference hentries
    have hheld : entity.hasField field = true := by
      apply ensureFields_eq_ok_iff.1 hensure
      rw [FieldSet.contains_ofList, decide_eq_true (List.mem_map_of_mem hentry)]
    have hsuits : Suits kind field value := by
      refine suits_of_copySlot h (fun leaf hleaf copy hcopy => ?_) hvalue
      cases subgraph with
      | none =>
        rw [cloneMember] at hcopy
        cases hcopy
        exact wellTyped_ofId _ _
      | some inner =>
        exact ih field inner hentry ⟨rfl, h.fits.member hleaf⟩ hcopy
    exact wellTyped_assign hnext (h.lt_size hheld) hsuits

theorem wellTyped_pull (h : WellTyped kind entity) (hextension : WellTyped kind extension)
    (hfield : field < Catalog.size kind) {through : Option (Graph κ)}
    (hok : entity.pull field extension through = .ok copy) : WellTyped kind copy := by
  cases through with
  | none =>
    rw [pull_none] at hok
    cases hok
    exact wellTyped_pullWhole h hextension hfield
  | some graph =>
    rcases pull_cases hok with ⟨-, rfl⟩ | ⟨member, shape, value, hcontent, hvalue, rfl⟩ |
      ⟨-, -, rfl⟩
    · exact wellTyped_mark h hfield extension.id
    · have hmap := mapM_of_cloneTree hvalue
      rw [h.kind_eq] at hcontent
      refine wellTyped_assign h hfield
        (suits_of_nested hcontent (Tree.canonical_of_mapM hmap) fun leaf hleaf => ?_)
      obtain ⟨origin, horigin, hcopy⟩ := Tree.exists_of_mem_leaves_mapM hmap hleaf
      exact wellTyped_cloneGraph (wellTyped_leaf hextension hcontent horigin) hcopy
    · exact wellTyped_assign h hfield (suits_slot hextension field)

/-! ## Changes -/

omit [Catalog κ] [DecidableEq κ] in
/-- What every step keeps is kept, wherever the change stops. -/
theorem forFields_induction {P : Entity κ → Prop}
    {change : Nat → Entity κ → Entity κ × Except Error Unit} {fields : List Nat}
    (hstep : ∀ field ∈ fields, ∀ next, P next → P (change field next).1) (hstart : P entity) :
    P (forFields change fields entity).1 := by
  induction fields generalizing entity with
  | nil => exact hstart
  | cons field rest ih =>
    rw [List.forall_mem_cons] at hstep
    have hnext := hstep.1 entity hstart
    rw [forFields]
    split
    · rename_i entity' stop heq
      rwa [heq] at hnext
    · rename_i entity' done heq
      rw [heq] at hnext
      exact ih hstep.2 hnext

theorem wellTyped_forMembers {change : Entity κ → Entity κ × Except Error Unit}
    (h : WellTyped kind entity)
    (hchange : ∀ leaf ∈ (entity.slot field).leaves, WellTyped leaf.kind (change leaf).1) :
    WellTyped kind (forMembers change field entity).1 := by
  rw [forMembers]
  cases hdescend : descend entity.kind field with
  | error stop => exact h
  | ok member =>
    obtain ⟨-, shape, hcontent, -⟩ := descend_eq_ok_iff.1 hdescend
    rw [h.kind_eq] at hcontent
    have hleaf : ∀ leaf ∈ (entity.slot field).leaves, WellTyped member leaf :=
      fun leaf hleaf => wellTyped_leaf h hcontent hleaf
    refine wellTyped_store h (suits_of_nested hcontent (Tree.canonical_rebuild _ _)
      (Tree.forall_mem_leaves_forEach hleaf (fun leaf hmember _ => ?_) ()))
    exact (hleaf leaf hmember).kind_eq ▸ hchange leaf hmember

/-- Whether the members of an entity that has a property have it too, and the entity keeps it when
its members are changed so that they have it. -/
structure Hereditary (P : κ → Entity κ → Prop) : Prop where
  member : ∀ {kind : κ} {entity leaf : Entity κ} {field : Nat}, P kind entity →
    leaf ∈ (entity.slot field).leaves → P leaf.kind leaf
  forMembers : ∀ {kind : κ} {entity : Entity κ} {field : Nat}
    {change : Entity κ → Entity κ × Except Error Unit}, P kind entity →
      (∀ leaf ∈ (entity.slot field).leaves, P leaf.kind (change leaf).1) →
        P kind (forMembers change field entity).1

theorem hereditary_wellTyped : Hereditary (WellTyped (κ := κ)) where
  member h hleaf := ⟨rfl, h.fits.member hleaf⟩
  forMembers h hchange := wellTyped_forMembers h hchange

/-- What copying a field keeps is kept by extending an entity, also after an error. -/
theorem Hereditary.extendWith {P : κ → Entity κ → Prop} (hP : Hereditary P)
    (htyped : ∀ {kind : κ} {entity : Entity κ}, P kind entity → WellTyped kind entity)
    (hpull : ∀ {kind : κ} {entity extension copy : Entity κ} {field : Nat}
      {through : Option (Graph κ)}, P kind entity → WellTyped kind extension →
        field < Catalog.size kind → entity.pull field extension through = .ok copy → P kind copy)
    (h : P kind entity) (hextension : WellTyped kind extension) :
    P kind (extendWith graph extension entity).1 := by
  induction graph using Graph.induction generalizing kind extension entity with
  | node gkind entries ih =>
    rw [extendWith_eq]
    refine forFields_induction (P := P kind) (fun field hfield next hnext => ?_) h
    by_cases hheld : next.hasField field = true
    · rcases extendField_held (.node gkind entries) extension hheld with
        ⟨heq, -⟩ | ⟨inner, hentry, -, heq⟩
      · rwa [heq]
      · rw [heq]
        refine hP.forMembers hnext fun leaf hleaf => ?_
        have hmember := hP.member hnext hleaf
        rcases extendLeaf_cases gkind field inner (extension.slot field).leaves leaf with
          ⟨candidate, hcandidate, -, heq⟩ | ⟨stop, heq⟩
        · have hsame := kind_eq_of_mem_leaves (htyped hnext) hextension hleaf hcandidate
          exact heq ▸ ih field inner hentry hmember
            ⟨hsame.symm, hextension.fits.member hcandidate⟩
        · exact heq ▸ hmember
    · rcases extendField_unheld (.node gkind entries) extension hheld with
        ⟨stop, heq⟩ | ⟨pulled, hpulled, heq⟩
      · rwa [heq]
      · rw [heq]
        exact hpull hnext hextension (hextension.lt_size (FieldSet.mem_toList.1 hfield)) hpulled

/-- An entity that is extended stays as its kind says, also after an error. -/
theorem wellTyped_extendWith (h : WellTyped kind entity) (hextension : WellTyped kind extension) :
    WellTyped kind (extendWith graph extension entity).1 :=
  hereditary_wellTyped.extendWith (fun h => h)
    (fun h hextension hfield hok => wellTyped_pull h hextension hfield hok) h hextension

/-- Extending leaves an entity alone or merges the answer to what it asks for into it. -/
theorem extend_cases (graph : Graph κ) (entity : Entity κ)
    (resolve : Graph κ → Except Error (Option (Entity κ))) :
    (entity.extend graph resolve).entity = entity ∨
      ∃ asked extension, (entity.extend graph resolve).asked = some asked ∧
        resolve asked = .ok (some extension) ∧
          (entity.extend graph resolve).entity = (extendWith asked extension entity).1 := by
  rw [extend]
  cases missingGraph graph entity with
  | error stop => exact .inl rfl
  | ok missing =>
    simp only
    split
    · exact .inl rfl
    · cases hanswer : resolve missing with
      | error stop => exact .inl rfl
      | ok answer =>
        cases answer with
        | none => exact .inl rfl
        | some extension =>
          simp only [absorb]
          split
          · exact .inl rfl
          · split
            · exact .inr ⟨missing, extension, rfl, hanswer, rfl⟩
            · exact .inl rfl

theorem wellTyped_extend {resolve : Graph κ → Except Error (Option (Entity κ))}
    (h : WellTyped kind entity)
    (hresolve : ∀ asked extension, resolve asked = .ok (some extension) →
      WellTyped kind extension) : WellTyped kind (entity.extend graph resolve).entity := by
  rcases extend_cases graph entity resolve with heq | ⟨asked, extension, -, hanswer, heq⟩
  · rwa [heq]
  · rw [heq]
    exact wellTyped_extendWith h (hresolve asked extension hanswer)

end Graph

end Entity

end PartialEntity
