import PartialEntity.Proofs.Entity.Typing

/-!
# Merging keeps what is held

Extending an entity, whether it succeeds or stops anywhere on the way, leaves every loaded field
loaded, with the same scalars and with the same members in the same places.  A member may itself
have been extended, by the member of the extension that has its id.  What is new was loaded in the
extension and is copied from there.
-/

namespace PartialEntity

namespace Entity

variable {κ : Type} [Catalog κ]

section Definitions

/-- Whether an entity has kept its kind and what it held while an extension was merged into it.
Its id changes only together with the identity field, which brings the id of the extension. -/
structure Grown (extension before after : Entity κ) : Prop where
  kind : after.kind = before.kind
  held : ∀ field, before.hasField field = true → after.hasField field = true
  id : (∀ field, Catalog.content? before.kind field = some .identity →
    before.hasField field = false → after.hasField field = false) → after.id = before.id
  identity : ∀ field, Catalog.content? before.kind field = some .identity →
    before.hasField field = false → after.hasField field = true → after.id = extension.id

variable [DecidableEq κ]

/-- The copy of a field of an extension that an entity takes over: members are copied through the
graph if it selects the field, and in full otherwise. -/
def copied (graph : Graph κ) (extension : Entity κ) (field : Nat) :
    Except Error (Tree (Entity κ)) :=
  match Catalog.content? extension.kind field with
  | some (.nested member _) =>
    cloneTree (extension.slot field) member field
      (if graph.contains field then some graph else none)
  | _ => pure (extension.slot field)

mutual

/-- Whether an entity came out of another one by merging an extension into it, in full or in
part.  Under a loaded field, the tree of ids is the same as before, and so are all scalars in it. -/
inductive Merged : Graph κ → Entity κ → Entity κ → Entity κ → Prop
  | intro {graph : Graph κ} {extension before after : Entity κ}
      (grown : Grown extension before after)
      (scalars : ∀ field, before.hasField field = true → (before.slot field).leaves = [] →
        after.slot field = before.slot field)
      (form : ∀ field, before.hasField field = true →
        (after.slot field).map (·.id) = (before.slot field).map (·.id))
      (members : ∀ field, before.hasField field = true →
        ∀ pair ∈ (before.slot field).leaves.zip (after.slot field).leaves,
          MemberMerged graph extension field pair.1 pair.2)
      (gained : ∀ field, before.hasField field = false → after.hasField field = true →
        extension.hasField field = true ∧
          copied graph extension field = .ok (after.slot field)) :
      Merged graph extension before after

/-- Whether a member under a loaded field stayed as it was or came out of it by merging the member
of the extension that has its id, through the subgraph attached to the field. -/
inductive MemberMerged : Graph κ → Entity κ → Nat → Entity κ → Entity κ → Prop
  | unchanged {graph : Graph κ} {extension member : Entity κ} {field : Nat} :
      MemberMerged graph extension field member member
  | merged {graph subgraph : Graph κ} {extension candidate before after : Entity κ} {field : Nat}
      (hentry : (field, some subgraph) ∈ graph.entries)
      (hcandidate : candidate ∈ (extension.slot field).leaves) (hid : candidate.id = before.id)
      (hmerged : Merged subgraph candidate before after) :
      MemberMerged graph extension field before after

end

end Definitions

variable {entity extension : Entity κ} {field : Nat}

/-! ## The id -/

namespace Grown

variable {before after further : Entity κ}

theorem refl (extension entity : Entity κ) : Grown extension entity entity where
  kind := rfl
  held _ h := h
  id _ := rfl
  identity _ _ hbefore hafter := absurd (hbefore.symm.trans hafter) Bool.false_ne_true

theorem id_eq_or (h : Grown extension before after) :
    after.id = before.id ∨ after.id = extension.id := by
  by_cases hgained : ∃ field, Catalog.content? before.kind field = some .identity ∧
      before.hasField field = false ∧ after.hasField field = true
  · obtain ⟨field, hcontent, hbefore, hafter⟩ := hgained
    exact .inr (h.identity field hcontent hbefore hafter)
  · refine .inl (h.id fun field hcontent hbefore => ?_)
    rw [← Bool.not_eq_true]
    exact fun hafter => hgained ⟨field, hcontent, hbefore, hafter⟩

theorem trans (h : Grown extension before after) (hfurther : Grown extension after further) :
    Grown extension before further where
  kind := hfurther.kind.trans h.kind
  held field hfield := hfurther.held field (h.held field hfield)
  id hnothing := by
    have hbefore : ∀ field, after.hasField field = false → before.hasField field = false := by
      intro field hafter
      rw [← Bool.not_eq_true] at hafter ⊢
      exact fun hheld => hafter (h.held field hheld)
    have hafter : ∀ field, further.hasField field = false → after.hasField field = false := by
      intro field hend
      rw [← Bool.not_eq_true] at hend ⊢
      exact fun hheld => hend (hfurther.held field hheld)
    have hlast : further.id = after.id := by
      refine hfurther.id fun field hcontent hunheld => ?_
      exact hnothing field (h.kind ▸ hcontent) (hbefore field hunheld)
    have hfirst : after.id = before.id := by
      refine h.id fun field hcontent hunheld => ?_
      exact hafter field (hnothing field hcontent hunheld)
    exact hlast.trans hfirst
  identity field hcontent hbefore hend := by
    cases hafter : after.hasField field with
    | false => exact hfurther.identity field (h.kind.symm ▸ hcontent) hafter hend
    | true =>
      rcases hfurther.id_eq_or with hid | hid
      · exact hid.trans (h.identity field hcontent hbefore hafter)
      · exact hid

/-- An entity that is extended by one of the same id keeps its id. -/
theorem id_eq (h : Grown extension before after) (hid : extension.id = before.id) :
    after.id = before.id := by
  rcases h.id_eq_or with heq | heq
  · exact heq
  · exact heq.trans hid

end Grown

section Extend

variable [DecidableEq κ] {graph : Graph κ}

/-- Whatever is done to the members under a field, the entity keeps its kind, its id and its loaded
fields. -/
theorem grown_forMembers (extension : Entity κ)
    (change : Entity κ → Entity κ × Except Error Unit) (field : Nat) (entity : Entity κ) :
    Grown extension entity (forMembers change field entity).1 := by
  have hheld := hasField_forMembers change field entity
  constructor
  · exact kind_forMembers change field entity
  · intro other hother
    rwa [hheld]
  · exact fun _ => id_forMembers change field entity
  · intro other _ hbefore hafter
    rw [hheld, hbefore] at hafter
    cases hafter

theorem grown_pull {through : Option (Graph κ)} {pulled : Entity κ}
    (hheld : ¬entity.hasField field = true)
    (hok : entity.pull field extension through = .ok pulled) : Grown extension entity pulled := by
  have hpulled := hasField_of_pull hok
  have hassign : ∀ value, Catalog.content? entity.kind field ≠ some .identity →
      Grown extension entity (entity.assign field value) := by
    intro value hidentity
    constructor
    · rfl
    · intro other hother
      rw [hasField_assign, hother, Bool.true_or]
    · exact fun _ => rfl
    · intro other hcontent hbefore hafter
      rw [hasField_assign, hbefore, Bool.false_or, decide_eq_true_iff] at hafter
      exact absurd (hafter ▸ hcontent) hidentity
  rcases pull_cases hok with ⟨hcontent, rfl⟩ | ⟨_, _, value, hcontent, -, rfl⟩ |
    ⟨hidentity, -, rfl⟩
  · constructor
    · rfl
    · intro other hother
      rw [hpulled, hother, Bool.true_or]
    · intro hnothing
      have hmarked := hnothing field hcontent (Bool.eq_false_iff.2 hheld)
      rw [hpulled, decide_eq_true rfl, Bool.or_true] at hmarked
      cases hmarked
    · exact fun _ _ _ _ => rfl
  · exact hassign value (by simp [hcontent])
  · exact hassign _ hidentity

/-- Merging one field unloads nothing, whether or not it succeeds. -/
theorem grown_extendField (graph : Graph κ) (extension : Entity κ) (field : Nat)
    (entity : Entity κ) :
    Grown extension entity (extendField graph extension field entity).1 := by
  by_cases hheld : entity.hasField field = true
  · rcases extendField_held graph extension hheld with ⟨heq, -⟩ | ⟨inner, -, -, heq⟩
    · rw [heq]
      exact .refl extension entity
    · rw [heq]
      exact grown_forMembers extension _ field entity
  · rcases extendField_unheld graph extension hheld with ⟨stop, heq⟩ | ⟨pulled, hpull, heq⟩
    · rw [heq]
      exact .refl extension entity
    · rw [heq]
      exact grown_pull hheld hpull

/-- Merging an extension unloads nothing, whether or not it succeeds. -/
theorem grown_extendWith (graph : Graph κ) (extension entity : Entity κ) :
    Grown extension entity (extendWith graph extension entity).1 := by
  rw [extendWith_eq]
  refine forFields_induction (P := Grown extension entity) (fun field _ next hnext => ?_)
    (.refl extension entity)
  exact hnext.trans (grown_extendField graph extension field next)

/-- The id stays when answers carry it. -/
theorem id_extend {resolve : Graph κ → Except Error (Option (Entity κ))}
    (hresolve : ∀ asked extension, resolve asked = .ok (some extension) →
      extension.id = entity.id) : (entity.extend graph resolve).entity.id = entity.id := by
  rcases extend_cases graph entity resolve with heq | ⟨asked, extension, -, hanswer, heq⟩
  · rw [heq]
  · rw [heq]
    exact (grown_extendWith asked extension entity).id_eq (hresolve asked extension hanswer)

end Extend

/-! ## Members -/

theorem IdentifiedById.congr {left right : Entity κ} (h : left.IdentifiedById)
    (hkind : right.kind = left.kind) (hid : right.id = left.id) : right.IdentifiedById := by
  rw [IdentifiedById] at h ⊢
  rwa [hkind, hid]

variable [DecidableEq κ]

/-- Changes that keep the ids of members leave the members of a field in their places, each
unchanged or with its change, wherever they stop. -/
theorem slot_forMembers (hcanonical : (entity.slot field).Canonical)
    (hbyId : ∀ leaf ∈ (entity.slot field).leaves, leaf.IdentifiedById)
    {change : Entity κ → Entity κ × Except Error Unit}
    (hkind : ∀ leaf ∈ (entity.slot field).leaves, (change leaf).1.kind = leaf.kind)
    (hid : ∀ leaf ∈ (entity.slot field).leaves, (change leaf).1.id = leaf.id)
    {R : Entity κ → Entity κ → Prop} (hself : ∀ leaf ∈ (entity.slot field).leaves, R leaf leaf)
    (hchange : ∀ leaf ∈ (entity.slot field).leaves, R leaf (change leaf).1) :
    ((forMembers change field entity).1.slot field).map (·.id) = (entity.slot field).map (·.id) ∧
      List.Forall₂ R (entity.slot field).leaves
        ((forMembers change field entity).1.slot field).leaves := by
  have hsame : ∀ tree : Tree (Entity κ), tree = entity.slot field →
      tree.map (·.id) = (entity.slot field).map (·.id) ∧
        List.Forall₂ R (entity.slot field).leaves tree.leaves := by
    rintro _ rfl
    exact ⟨rfl, List.forall₂_same.2 hself⟩
  rw [forMembers]
  cases descend entity.kind field with
  | error stop => exact hsame _ rfl
  | ok member =>
    simp only [slot_store]
    split
    · let visited := ((entity.slot field).visit (fun _ leaf => change leaf) ()).1
      have hkey : visited.map key = (entity.slot field).map key := by
        refine Tree.map_visit (fun leaf hleaf _ => ?_) ()
        have hleaf' := (hbyId leaf hleaf).congr (hkind leaf hleaf) (hid leaf hleaf)
        rw [hleaf'.key_eq, (hbyId leaf hleaf).key_eq, hid leaf hleaf]
      -- The order of containers depends on the keys, so nothing is merged or moved.
      have hvisited : visited.Canonical := by
        rw [← canonical_map_key, hkey, canonical_map_key]
        exact hcanonical
      have hrebuild : ((entity.slot field).forEach (fun _ leaf => change leaf) ()).1 = visited :=
        Tree.rebuild_eq_self _ hvisited
      rw [hrebuild]
      exact ⟨Tree.map_visit (fun leaf hleaf _ => hid leaf hleaf) (),
        Tree.forall₂_leaves_visit hself (fun leaf hleaf _ => hchange leaf hleaf) ()⟩
    · exact hsame _ rfl

/-- What a field that is not loaded takes over is the copy from the extension. -/
theorem copied_of_pull {graph : Graph κ} (hentity : entity.Plain) (hextension : extension.Plain)
    (hkind : entity.kind = extension.kind) (hlength : field < entity.slots.length)
    {pulled : Entity κ}
    (hok : entity.pull field extension (if graph.contains field then some graph else none) =
      .ok pulled) : copied graph extension field = .ok (pulled.slot field) := by
  have hassign : ∀ value, (entity.assign field value).slot field = value := by
    intro value
    rw [slot_assign, if_pos ⟨rfl, hlength⟩]
  rw [pull] at hok
  rw [copied, ← hkind]
  cases hcontent : Catalog.content? entity.kind field with
  | none =>
    rw [hcontent] at hok
    cases hok
    rw [hassign]
    rfl
  | some content =>
    rw [hcontent] at hok
    cases content with
    | identity =>
      cases hok
      have hunit : entity.slot field = extension.slot field := by
        rw [hentity.identity field hcontent, hextension.identity field (hkind ▸ hcontent)]
      exact congrArg Except.ok hunit.symm
    | plain type =>
      cases hok
      rw [hassign]
      rfl
    | nested member shape =>
      obtain ⟨value, hvalue, hpulled⟩ := Result.bind_eq_ok_iff.1 hok
      cases hpulled
      rw [hassign]
      exact hvalue

/-! ## Merging -/

section Merge

variable {graph : Graph κ}

/-- Merging a field that is loaded leaves its members in their places. -/
private theorem slot_extendField (hheld : entity.hasField field = true)
    (hcanonical : (entity.slot field).Canonical)
    (hmember : ∀ leaf ∈ (entity.slot field).leaves, leaf.IdentifiedById)
    (hcandidate : ∀ candidate ∈ (extension.slot field).leaves, candidate.IdentifiedById)
    (hmerged : ∀ inner, (field, some inner) ∈ graph.entries →
      ∀ candidate ∈ (extension.slot field).leaves, ∀ leaf ∈ (entity.slot field).leaves,
        Merged inner candidate leaf (extendWith inner candidate leaf).1) :
    (((extendField graph extension field entity).1.slot field).map (·.id) =
        (entity.slot field).map (·.id)) ∧
      List.Forall₂ (MemberMerged graph extension field) (entity.slot field).leaves
        ((extendField graph extension field entity).1.slot field).leaves := by
  rcases extendField_held graph extension hheld with ⟨heq, -⟩ | ⟨inner, hentry, -, heq⟩
  · rw [heq]
    exact ⟨rfl, List.forall₂_same.2 fun _ _ => .unchanged⟩
  · have hleaf : ∀ leaf ∈ (entity.slot field).leaves,
        let after := (extendLeaf graph.kind field inner (extension.slot field).leaves leaf).1
        after.kind = leaf.kind ∧ after.id = leaf.id ∧
          MemberMerged graph extension field leaf after := by
      intro leaf hleaf
      rcases extendLeaf_cases graph.kind field inner (extension.slot field).leaves leaf with
        ⟨candidate, hmem, hsame, heq⟩ | ⟨stop, heq⟩
      · have hid : candidate.id = leaf.id :=
          (same_iff_id_eq (hcandidate candidate hmem) (hmember leaf hleaf)).1 hsame
        have hgrown := grown_extendWith inner candidate leaf
        rw [heq]
        exact ⟨hgrown.kind, hgrown.id_eq hid,
          .merged hentry hmem hid (hmerged inner hentry candidate hmem leaf hleaf)⟩
      · rw [heq]
        exact ⟨rfl, rfl, .unchanged⟩
    rw [heq]
    exact slot_forMembers hcanonical hmember (fun leaf hmem => (hleaf leaf hmem).1)
      (fun leaf hmem => (hleaf leaf hmem).2.1) (fun _ _ => .unchanged)
      fun leaf hmem => (hleaf leaf hmem).2.2

/-- Where the members of a loaded field are merged as they should be, the field stays in place. -/
private theorem slot_extendWith (hkind : entity.kind = extension.kind)
    (hentity : entity.Throughout Sound) (hextension : extension.Throughout Sound)
    (hheld : entity.hasField field = true)
    (hmerged : ∀ inner, (field, some inner) ∈ graph.entries →
      ∀ candidate ∈ (extension.slot field).leaves, ∀ leaf ∈ (entity.slot field).leaves,
        Merged inner candidate leaf (extendWith inner candidate leaf).1) :
    (((extendWith graph extension entity).1.slot field).map (·.id) =
        (entity.slot field).map (·.id)) ∧
      List.Forall₂ (MemberMerged graph extension field) (entity.slot field).leaves
        ((extendWith graph extension entity).1.slot field).leaves := by
  rcases extendWith_cases graph hentity.self.toFits hextension.self.toFits hkind field with
    ⟨-, before, -, hbefore, hafter, -⟩ | ⟨hsame, -⟩
  · rw [hafter.slot field (by simp)]
    rw [← hbefore.hasField field (by simp)] at hheld
    have hslot := hbefore.slot field (by simp)
    have hmerge := slot_extendField hheld (hslot ▸ hentity.self.canonical field)
      (hslot ▸ fun leaf hleaf => (hentity.member hleaf).self.byId)
      (fun candidate hcandidate => (hextension.member hcandidate).self.byId)
      (hslot ▸ hmerged)
    rwa [hslot] at hmerge
  · rw [hsame.slot field (by simp)]
    exact ⟨rfl, List.forall₂_same.2 fun _ _ => .unchanged⟩

/-- A field that was loaded by merging is one of the extension, and is copied from there. -/
private theorem copied_extendWith (hkind : entity.kind = extension.kind) (hentity : entity.Fits)
    (hextension : extension.Fits) (hunheld : entity.hasField field = false)
    (hgained : (extendWith graph extension entity).1.hasField field = true) :
    extension.hasField field = true ∧
      copied graph extension field = .ok ((extendWith graph extension entity).1.slot field) := by
  rcases extendWith_cases graph hentity hextension hkind field with
    ⟨hextended, before, ⟨hbkind, hblength, hbplain⟩, hbefore, hafter, -⟩ | ⟨hsame, -⟩
  · rw [← hbefore.hasField field (by simp)] at hunheld
    rw [hafter.hasField field (by simp)] at hgained
    rw [hafter.slot field (by simp)]
    rcases extendField_unheld graph extension (Bool.eq_false_iff.1 hunheld) with
      ⟨stop, heq⟩ | ⟨pulled, hpull, heq⟩
    · rw [heq, hunheld] at hgained
      cases hgained
    · rw [heq]
      refine ⟨hextended, copied_of_pull hbplain hextension.plainFields hbkind ?_ hpull⟩
      rw [hblength, hextension.length_slots]
      exact hextension.lt_size field hextended
  · rw [hsame.hasField field (by simp), hunheld] at hgained
    cases hgained

/-- Merging never overwrites or loses what is held, whether it succeeds or stops with an error: the
entity and every member under it keep their fields, scalars, containers and members, and gain only
fields of the extension.  Members keep their places as well, except that a hashed container has no
places to keep. -/
theorem merged_extendWith (graph : Graph κ) (hkind : entity.kind = extension.kind)
    (hentity : entity.Throughout Sound) (hextension : extension.Throughout Sound) :
    Merged graph extension entity (extendWith graph extension entity).1 := by
  induction graph using Graph.induction generalizing entity extension with
  | node gkind entries ih =>
    let graph := Graph.node gkind entries
    let after := (extendWith graph extension entity).1
    have hheld : ∀ field, entity.hasField field = true →
        (after.slot field).map (·.id) = (entity.slot field).map (·.id) ∧
          List.Forall₂ (MemberMerged graph extension field) (entity.slot field).leaves
            (after.slot field).leaves := by
      intro field hfield
      refine slot_extendWith hkind hentity hextension hfield ?_
      intro inner hentry candidate hcandidate leaf hleaf
      have hsame := kind_eq_of_mem_leaves (wellTyped_of_sound hkind hentity)
        (wellTyped_of_sound rfl hextension) hleaf hcandidate
      exact ih field inner hentry hsame (hentity.member hleaf) (hextension.member hcandidate)
    constructor
    · exact grown_extendWith graph extension entity
    · intro field hfield hleaves
      exact Tree.eq_of_map_eq (fun _ => entity) (hheld field hfield).1 hleaves
    · exact fun field hfield => (hheld field hfield).1
    · intro field hfield pair hpair
      exact (List.forall₂_iff_zip.1 (hheld field hfield).2).2 hpair
    · intro field hunheld hgained
      exact copied_extendWith hkind hentity.self.toFits hextension.self.toFits hunheld hgained

end Merge

end Entity

namespace Harbor

open Entity

def annAfloat : Entity Kind :=
  ((ofId .person 1).assign 2 (text "ann@example.com")).assign 3
    (.option (some (.leaf ((ofId .boat 11).assign 1 (text "Gull")))))

theorem isRecord_annAfloat : annAfloat.IsRecord := by
  have hboat : ((ofId .boat 11).assign 1 (text "Gull") : Entity Kind).IsRecord :=
    IsRecord.assign ⟨lawful_ofId (by exact trivial), clean_ofId _ _⟩ (.scalar rfl _)
  have haddress : ((ofId .person 1).assign 2 (text "ann@example.com") : Entity Kind).IsRecord :=
    IsRecord.assign ⟨lawful_ofId (by exact trivial), clean_ofId _ _⟩ (.scalar rfl _)
  exact haddress.assign (.single rfl hboat rfl (.some (.leaf _)))

/-- The address is merged, then the merge stops at the boat, which stays. -/
theorem merged_extendWith_annAfloat :
    (extendWith crewList annAfloat annAshore).2.isOk = false ∧
      (extendWith crewList annAfloat annAshore).1.hasField 2 = true ∧
        Merged crewList annAfloat annAshore (extendWith crewList annAfloat annAshore).1 :=
  ⟨rfl, rfl, merged_extendWith crewList rfl isRecord_annAshore.lawful.sound
    isRecord_annAfloat.lawful.sound⟩

end Harbor

end PartialEntity
