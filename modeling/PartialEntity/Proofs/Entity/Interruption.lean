import PartialEntity.Proofs.Entity.Merge

/-!
# Merges that stop

An attempt to extend an entity leaves it as it was, unless the answer holds all that was asked for
and merging it stops with an error.  The merge goes through the fields of the extension in
declaration order and through the members under a field one after the other, and what is done
stands: the fields before the one where it stops are merged, and so are the members before the one
where it stops.
-/

namespace PartialEntity

namespace Entity

variable {κ : Type}

/-- The same entity, with only the fields before a given one counted as loaded. -/
def upTo (entity : Entity κ) (field : Nat) : Entity κ :=
  { entity with held := entity.held.keep (· < field) }

variable [DecidableEq κ] [Catalog κ]

mutual

/-- What is left of an entity when merging an extension stops at a field.  The fields before it are
merged.  The field itself is refused as a whole, which a loaded field is only if it cannot have
members, or the merge stops at one of its members. -/
inductive Stopped : Graph κ → Entity κ → Nat → Entity κ → Entity κ → Prop
  | refused {graph : Graph κ} {extension before after : Entity κ} {field : Nat}
      (extended : extension.hasField field = true)
      (earlier : extendWith graph (extension.upTo field) before = (after, .ok ()))
      (refusal : before.hasField field = true → ∃ stop, descend before.kind field = .error stop) :
      Stopped graph extension field before after
  | member {graph inner : Graph κ} {extension before reached : Entity κ} {field : Nat}
      {done rest : List (Entity κ)} {leaf leaf' : Entity κ} {visited : Tree (Entity κ)}
      (extended : extension.hasField field = true)
      (earlier : extendWith graph (extension.upTo field) before = (reached, .ok ()))
      (held : before.hasField field = true) (attached : (field, some inner) ∈ graph.entries)
      (members : (before.slot field).leaves = done ++ leaf :: rest)
      (merged : ∀ member ∈ done,
        (extendLeaf graph.kind field inner (extension.slot field).leaves member).2 = .ok ())
      (stopped : MemberStopped inner (extension.slot field).leaves leaf leaf')
      (form : visited.map (fun _ => ()) = (before.slot field).map fun _ => ())
      (leaves : visited.leaves = done.map (fun member =>
        (extendLeaf graph.kind field inner (extension.slot field).leaves member).1) ++
          leaf' :: rest) :
      Stopped graph extension field before (reached.store field (visited.rebuild .inserted))

/-- What is left of a member when extending it by the first of the candidates that is the same
fails: there is none, or merging it stops. -/
inductive MemberStopped : Graph κ → List (Entity κ) → Entity κ → Entity κ → Prop
  | absent {graph : Graph κ} {candidates : List (Entity κ)} {member : Entity κ}
      (h : ∀ candidate ∈ candidates, candidate.same member = false) :
      MemberStopped graph candidates member member
  | merging {graph : Graph κ} {candidates : List (Entity κ)} {candidate member after : Entity κ}
      {field : Nat} (hfind : candidates.find? (·.same member) = some candidate)
      (h : Stopped graph candidate field member after) :
      MemberStopped graph candidates member after

end

variable {kind : κ} {graph : Graph κ} {entity extension : Entity κ} {field : Nat}

/-! ## Where a merge stops -/

omit [DecidableEq κ] [Catalog κ] in
/-- A change that stops has gone through the fields before the one where it stops. -/
theorem exists_of_forFields_eq_error
    {change : Nat → Entity κ → Entity κ × Except Error Unit} {fields : List Nat}
    {after : Entity κ} {stop : Error} (h : forFields change fields entity = (after, .error stop)) :
    ∃ done field rest reached, fields = done ++ field :: rest ∧
      forFields change done entity = (reached, .ok ()) ∧
        change field reached = (after, .error stop) := by
  induction fields generalizing entity with
  | nil => cases h
  | cons first rest ih =>
    rw [forFields] at h
    rcases hchange : change first entity with ⟨next, stop' | done⟩
    · rw [hchange] at h
      cases h
      exact ⟨[], first, rest, entity, rfl, rfl, hchange⟩
    · rw [hchange] at h
      obtain ⟨earlier, field, later, reached, rfl, hearlier, hstop⟩ := ih h
      refine ⟨first :: earlier, field, later, reached, rfl, ?_, hstop⟩
      rw [forFields, hchange]
      exact hearlier

theorem extendField_upTo (graph : Graph κ) (extension : Entity κ) (field : Nat) :
    extendField graph (extension.upTo field) = extendField graph extension := rfl

/-- Merging the fields before a given one is merging an extension that ends there. -/
theorem extendWith_upTo {done rest : List Nat} (h : extension.held.toList = done ++ field :: rest) :
    extendWith graph (extension.upTo field) entity =
      forFields (extendField graph extension) done entity := by
  have hdone : (extension.upTo field).held.toList = done := FieldSet.toList_keep_lt h
  rw [extendWith_eq, hdone, extendField_upTo]

omit [DecidableEq κ] in
theorem wellTyped_upTo (h : WellTyped kind extension) (field : Nat) :
    WellTyped kind (extension.upTo field) := by
  obtain ⟨hkind, hfits⟩ := h
  refine ⟨hkind, .intro ?_ fun _ _ hmember => hfits.member hmember⟩
  refine Fits.of_allows hfits.self.length_slots (fun other hother => ?_)
    (fun _ _ hcontent => hfits.self.allows hcontent) hfits.self.canonical
  rw [hasField, upTo, FieldSet.contains_keep, Bool.and_eq_true] at hother
  exact hfits.self.lt_size other hother.1

/-- Merging the fields before a given one changes only such fields of the extension. -/
theorem changedAt_upTo (hentity : WellTyped kind entity) (hextension : WellTyped kind extension)
    (graph : Graph κ) (field : Nat) :
    ChangedAt (fun other => extension.hasField other = true ∧ other < field) entity
      (extendWith graph (extension.upTo field) entity).1 := by
  have hupTo := wellTyped_upTo hextension field
  refine (changedAt_extendWith graph hupTo.fits.self.plainFields
    (hentity.kind_eq.trans hupTo.kind_eq.symm)).mono fun other hother => ?_
  rw [hasField, upTo, FieldSet.contains_keep, Bool.and_eq_true, decide_eq_true_iff] at hother
  exact hother

/-- A member that cannot be extended is one that no candidate is the same as, or one at which a
merge stops. -/
private theorem memberStopped_extendLeaf {owner : κ} {inner : Graph κ}
    {candidates : List (Entity κ)} {member : Entity κ} {stop : Error}
    (hmerge : ∀ candidate ∈ candidates, (extendWith inner candidate member).2 = .error stop →
      ∃ field, Stopped inner candidate field member (extendWith inner candidate member).1)
    (h : (extendLeaf owner field inner candidates member).2 = .error stop) :
    MemberStopped inner candidates member (extendLeaf owner field inner candidates member).1 := by
  rw [extendLeaf] at h ⊢
  cases hfind : candidates.find? fun candidate => candidate.same member with
  | none =>
    refine .absent fun candidate hcandidate => ?_
    rw [← Bool.not_eq_true]
    exact List.find?_eq_none.1 hfind candidate hcandidate
  | some candidate =>
    rw [hfind] at h
    obtain ⟨field, hstopped⟩ := hmerge candidate (List.mem_of_find?_eq_some hfind) h
    exact .merging hfind hstopped

/-- Members that are changed up to an error are changed up to the one where it arises. -/
private theorem forMembers_eq_error {change : Entity κ → Entity κ × Except Error Unit}
    {member : κ} (hdescend : descend entity.kind field = .ok member) {stop : Error}
    (h : (forMembers change field entity).2 = .error stop) :
    ∃ (done : List (Entity κ)) (leaf : Entity κ) (rest : List (Entity κ))
        (visited : Tree (Entity κ)), (entity.slot field).leaves = done ++ leaf :: rest ∧
      (∀ earlier ∈ done, (change earlier).2 = .ok ()) ∧ (change leaf).2 = .error stop ∧
      visited.map (fun _ => ()) = (entity.slot field).map (fun _ => ()) ∧
      visited.leaves = done.map (fun earlier => (change earlier).1) ++ (change leaf).1 :: rest ∧
      (forMembers change field entity).1 = entity.store field (visited.rebuild .inserted) := by
  rw [forMembers, hdescend] at h ⊢
  let visit := (entity.slot field).visit (fun _ leaf => change leaf) ()
  have hstop : visit.2 = .error stop := h
  have hrow := Tree.visitRow_leaves (f := fun _ leaf => change leaf) (entity.slot field) ()
  obtain ⟨done, leaf, rest, hmembers, hdone, hleaf, hleaves⟩ :=
    Tree.visitRow_eq_error (hrow.trans (Prod.ext rfl hstop))
  exact ⟨done, leaf, rest, visit.1, hmembers, hdone, hleaf, Tree.map_visit (fun _ _ _ => rfl) (),
    hleaves, rfl⟩

/-- A field that cannot be merged is one where a merge stops, if merges of members stop. -/
private theorem stopped_of_extendField {reached after : Entity κ} {stop : Error}
    (hextended : extension.hasField field = true)
    (hearlier : extendWith graph (extension.upTo field) entity = (reached, .ok ()))
    (hchanged : ChangedAt (fun other => extension.hasField other = true ∧ other < field) entity
      reached)
    (hmerge : ∀ inner, (field, some inner) ∈ graph.entries → ∀ leaf ∈ (entity.slot field).leaves,
      ∀ candidate ∈ (extension.slot field).leaves,
        (extendWith inner candidate leaf).2 = .error stop →
          ∃ nested, Stopped inner candidate nested leaf (extendWith inner candidate leaf).1)
    (h : extendField graph extension field reached = (after, .error stop)) :
    Stopped graph extension field entity after := by
  -- The fields before this one were merged into it, so this one is still as it was.
  have hheld := hchanged.hasField field fun hbelow => Nat.lt_irrefl field hbelow.2
  have hslot := hchanged.slot field fun hbelow => Nat.lt_irrefl field hbelow.2
  by_cases hloaded : entity.hasField field = true
  · rcases extendField_held graph extension (hheld.trans hloaded) with
      ⟨heq, -⟩ | ⟨inner, hentry, -, heq⟩
    · rw [heq] at h
      cases h
    · rw [heq] at h
      cases hdescend : descend reached.kind field with
      | error refusal =>
        rw [forMembers, hdescend] at h
        cases h
        exact .refused hextended hearlier fun _ => ⟨_, hchanged.kind ▸ hdescend⟩
      | ok member =>
        obtain ⟨earlier, leaf, later, visited, hmembers, hmerged, hleaf, hform, hleaves, hstore⟩ :=
          forMembers_eq_error hdescend (congrArg Prod.snd h)
        obtain rfl := (congrArg Prod.fst h).symm.trans hstore
        rw [hslot] at hmembers hform
        have hmember : leaf ∈ (entity.slot field).leaves := by
          rw [hmembers]
          simp
        exact .member hextended hearlier hloaded hentry hmembers hmerged
          (memberStopped_extendLeaf (hmerge inner hentry leaf hmember) hleaf) hform hleaves
  · rcases extendField_unheld graph extension (hheld ▸ hloaded) with
      ⟨_, heq⟩ | ⟨pulled, -, heq⟩
    · rw [heq] at h
      cases h
      exact .refused hextended hearlier fun hheld => absurd hheld hloaded
    · rw [heq] at h
      cases h

/-- A merge that fails stops at a field of the extension. -/
theorem stopped_extendWith (hentity : WellTyped kind entity) (hextension : WellTyped kind extension)
    {stop : Error} (h : (extendWith graph extension entity).2 = .error stop) :
    ∃ field, Stopped graph extension field entity (extendWith graph extension entity).1 := by
  induction graph using Graph.induction generalizing kind entity extension with
  | node gkind entries ih =>
    let graph := Graph.node gkind entries
    obtain ⟨done, field, rest, reached, hfields, hdone, hfield⟩ := exists_of_forFields_eq_error
      ((extendWith_eq graph extension entity).symm.trans (Prod.ext rfl h))
    have hextended : extension.hasField field = true := by
      refine FieldSet.mem_toList.1 ?_
      rw [hfields]
      simp
    have hearlier : extendWith graph (extension.upTo field) entity = (reached, .ok ()) :=
      (extendWith_upTo hfields).trans hdone
    have hchanged := changedAt_upTo hentity hextension graph field
    rw [hearlier] at hchanged
    refine ⟨field, stopped_of_extendField hextended hearlier hchanged ?_ hfield⟩
    intro inner hentry leaf hleaf candidate hcandidate hstop
    have hsame : leaf.kind = candidate.kind :=
      kind_eq_of_mem_leaves hentity hextension hleaf hcandidate
    exact ih field inner hentry ⟨hsame, hentity.fits.member hleaf⟩
      ⟨rfl, hextension.fits.member hcandidate⟩ hstop

/-- Where a merge stops at a field, it has changed that field and earlier ones of the extension, and
nothing else. -/
theorem Stopped.changedAt {after : Entity κ} (h : Stopped graph extension field entity after)
    (hentity : WellTyped kind entity) (hextension : WellTyped kind extension) :
    ChangedAt (fun other => extension.hasField other = true ∧ other ≤ field) entity after := by
  have hupTo : ChangedAt (fun other => extension.hasField other = true ∧ other ≤ field) entity
      (extendWith graph (extension.upTo field) entity).1 :=
    (changedAt_upTo hentity hextension graph field).mono
      fun _ hother => ⟨hother.1, Nat.le_of_lt hother.2⟩
  cases h with
  | refused extended earlier refusal => rwa [earlier] at hupTo
  | member extended earlier held attached members merged stopped form leaves =>
    rename_i inner reached done rest leaf leaf' visited
    rw [earlier] at hupTo
    have hmember : leaf ∈ (entity.slot field).leaves := by
      rw [members]
      simp
    obtain ⟨member, shape, hcontent⟩ := exists_content_of_mem_leaves hentity hmember
    have hreached : reached.kind = kind := hupTo.kind.trans hentity.kind_eq
    exact hupTo.trans (.store ⟨extended, Nat.le_refl field⟩ (hreached.symm ▸ hcontent) _)

/-! ## Attempts that fail -/

/-- Whether an attempt to extend an entity has failed with an error while merging: the answer to
the question for what is missing held all of that, and the merge stopped at a field. -/
def Interrupted (graph : Graph κ) (answer : Graph κ → Except Error (Option (Entity κ)))
    (stop : Error) (entity after : Entity κ) : Prop :=
  ∃ missing extension field, missingGraph graph entity = .ok missing ∧
    answer missing = .ok (some extension) ∧ extension.hasGraph missing = .ok true ∧
    extendWith missing extension entity = (after, .error stop) ∧
    Stopped missing extension field entity after ∧
    ChangedAt (fun other => extension.hasField other = true ∧ other ≤ field) entity after

variable {resolve : Graph κ → Except Error (Option (Entity κ))}

/-- An answer whose merge fails leaves the entity alone, or holds what was missing and stops. -/
theorem absorb_of_error {missing : Graph κ} {answer : Except Error (Option (Entity κ))}
    {stop : Error} (h : (entity.absorb missing answer).2 = .error stop) :
    (entity.absorb missing answer).1 = entity ∨ ∃ extension, answer = .ok (some extension) ∧
      extension.hasGraph missing = .ok true ∧
        extendWith missing extension entity = ((entity.absorb missing answer).1, .error stop) := by
  cases answer with
  | error refusal => exact .inl rfl
  | ok answer =>
    cases answer with
    | none => exact .inl rfl
    | some extension =>
      cases hlacking : missingGraph missing extension with
      | error refusal =>
        rw [absorb, hlacking]
        exact .inl rfl
      | ok lacking =>
        rw [absorb, hlacking] at h ⊢
        by_cases hcomplete : lacking.isEmpty = true
        · simp only [hcomplete, if_true] at h ⊢
          refine .inr ⟨extension, rfl, ?_, Prod.ext rfl ?_⟩
          · rw [hasGraph, hlacking]
            exact congrArg Except.ok hcomplete
          · cases hresult : (extendWith missing extension entity).2 with
            | error refusal =>
              rw [hresult] at h
              cases h
              rfl
            | ok done =>
              rw [hresult] at h
              cases h
        · refine .inl ?_
          simp only [hcomplete, Bool.false_eq_true, if_false]

/-- An attempt to extend that fails leaves the entity alone, or is a merge that was interrupted. -/
theorem extend_of_error (hentity : WellTyped kind entity)
    (hresolve : ∀ asked extension, resolve asked = .ok (some extension) →
      WellTyped kind extension)
    {stop : Error} (h : (entity.extend graph resolve).result = .error stop) :
    (entity.extend graph resolve).entity = entity ∨
      Interrupted graph resolve stop entity (entity.extend graph resolve).entity := by
  rw [extend] at h ⊢
  cases hmissing : missingGraph graph entity with
  | error refusal => exact .inl rfl
  | ok missing =>
    rw [hmissing] at h
    by_cases hempty : missing.isEmpty = true
    · simp only [hempty, if_true] at h
      cases h
    · simp only [hempty, Bool.false_eq_true, if_false] at h ⊢
      refine (absorb_of_error h).imp_right ?_
      rintro ⟨extension, hanswer, hcomplete, hmerge⟩
      have hextension := hresolve missing extension hanswer
      obtain ⟨field, hstopped⟩ :=
        stopped_extendWith hentity hextension (congrArg Prod.snd hmerge)
      rw [hmerge] at hstopped
      exact ⟨missing, extension, field, hmissing, hanswer, hcomplete, hmerge, hstopped,
        hstopped.changedAt hentity hextension⟩

/-- However an entity is extended, by an answer that is there, by a resolver or by an answer that
arrives later: if the attempt fails, the entity is as it was, unless the answer held everything that
was missing and merging it stopped.  Then what was done before the merge stopped stands, and nothing
else has changed. -/
theorem failed_extend (graph : Graph κ) (resolver : Resolver κ) (hentity : WellTyped kind entity)
    (hresolve : ∀ asked extension, resolve asked = .ok (some extension) →
      WellTyped kind extension)
    (hresolver : ∀ asked extension, resolver entity.id asked = .ok (some extension) →
      WellTyped kind extension) (stop : Error) :
    ((entity.extend graph resolve).result = .error stop →
      (entity.extend graph resolve).entity = entity ∨
        Interrupted graph resolve stop entity (entity.extend graph resolve).entity) ∧
    ((entity.extendFrom graph resolver).result = .error stop →
      (entity.extendFrom graph resolver).entity = entity ∨
        Interrupted graph (resolver entity.id) stop entity
          (entity.extendFrom graph resolver).entity) ∧
    ((entity.extendDeferred graph resolver).result = .error stop →
      (entity.extendDeferred graph resolver).entity = entity ∨
        Interrupted graph (resolver entity.id) stop entity
          (entity.extendDeferred graph resolver).entity) := by
  have hfrom : (entity.extendFrom graph resolver).result = .error stop →
      (entity.extendFrom graph resolver).entity = entity ∨
        Interrupted graph (resolver entity.id) stop entity
          (entity.extendFrom graph resolver).entity := by
    intro h
    refine (extend_of_error hentity (fun asked extension hanswer =>
      hresolver asked extension (present_iff.1 hanswer)) h).imp_right ?_
    rintro ⟨missing, extension, field, hmissing, hanswer, hrest⟩
    exact ⟨missing, extension, field, hmissing, present_iff.1 hanswer, hrest⟩
  refine ⟨extend_of_error hentity hresolve, hfrom, ?_⟩
  rw [extendDeferred_eq]
  exact hfrom

end Entity

namespace Harbor

open Entity

/-- The Osprey with two people of its crew, known by name. -/
def ospreyNames : Entity Kind :=
  (ofId .boat 10).assign 4 (.sequence [
    .leaf ((ofId .person 2).assign 1 (text "Bob")),
    .leaf ((ofId .person 99).assign 1 (text "Stowaway"))])

/-- The name of the Osprey and the addresses of its crew, one of whom is another. -/
def ospreyAddresses : Entity Kind :=
  ((ofId .boat 10).assign 1 (text "Osprey")).assign 4 (.sequence [
    .leaf ((ofId .person 2).assign 2 (text "bob@example.com")),
    .leaf ((ofId .person 3).assign 2 (text "eve@example.com"))])

def addressList : Graph Kind :=
  ((Graph.none .boat).add 1).insertEntry 4 (some ((Graph.none .person).add 2))

theorem suits_crew {first second : Entity Kind} (hfirst : WellTyped .person first)
    (hsecond : WellTyped .person second) :
    Suits Kind.boat 4 (.sequence [.leaf first, .leaf second]) := by
  refine suits_of_nested rfl (.sequence fun item hitem => ?_) fun leaf hleaf => ?_
  · rcases List.mem_pair.1 hitem with rfl | rfl <;> exact .leaf _
  · rcases List.mem_pair.1 hleaf with rfl | rfl
    · exact hfirst
    · exact hsecond

theorem wellTyped_ospreyNames : WellTyped .boat ospreyNames := by
  have hperson : ∀ id name, WellTyped Kind.person ((ofId .person id).assign 1 (text name)) :=
    fun _ _ => wellTyped_assign (wellTyped_ofId _ _) (by decide) (suits_scalar rfl _)
  exact wellTyped_assign (wellTyped_ofId _ _) (by decide) (suits_crew (hperson _ _) (hperson _ _))

theorem wellTyped_ospreyAddresses : WellTyped .boat ospreyAddresses := by
  have hperson : ∀ id address, WellTyped Kind.person ((ofId .person id).assign 2 (text address)) :=
    fun _ _ => wellTyped_assign (wellTyped_ofId _ _) (by decide) (suits_scalar rfl _)
  have hboat : WellTyped Kind.boat ((ofId .boat 10).assign 1 (text "Osprey")) :=
    wellTyped_assign (wellTyped_ofId _ _) (by decide) (suits_scalar rfl _)
  exact wellTyped_assign hboat (by decide) (suits_crew (hperson _ _) (hperson _ _))

/-- The second member of the crew is missing from the answer; by then the name and the address of
the first are merged, and they stay. -/
theorem extend_ospreyNames_changes :
    ∃ stop, (ospreyNames.extend addressList fun _ => .ok (some ospreyAddresses)).result =
        .error stop ∧
      ospreyNames.hasField 1 = false ∧
      (ospreyNames.extend addressList fun _ => .ok (some ospreyAddresses)).entity.hasField 1 =
        true ∧
      (ospreyNames.extend addressList fun _ => .ok (some ospreyAddresses)).entity ≠ ospreyNames :=
  ⟨_, rfl, rfl, rfl, fun h => Bool.noConfusion (congrArg (·.hasField 1) h)⟩

theorem failed_extend_ospreyNames :
    ∃ stop, (ospreyNames.extend addressList fun _ => .ok (some ospreyAddresses)).result =
        .error stop ∧
      Interrupted addressList (fun _ => .ok (some ospreyAddresses)) stop ospreyNames
        (ospreyNames.extend addressList fun _ => .ok (some ospreyAddresses)).entity := by
  have hanswer : ∀ answer extension : Entity Kind, answer = ospreyAddresses →
      (.ok (some answer) : Except Error (Option (Entity Kind))) = .ok (some extension) →
        WellTyped .boat extension := by
    rintro _ _ rfl ⟨⟩
    exact wellTyped_ospreyAddresses
  have hfailed := failed_extend addressList (fun _ _ => .ok (some ospreyAddresses))
    wellTyped_ospreyNames (fun _ extension => hanswer _ extension rfl)
    fun _ extension => hanswer _ extension rfl
  refine ⟨_, rfl, ((hfailed _).1 rfl).resolve_left fun h => ?_⟩
  exact Bool.noConfusion (congrArg (·.hasField 1) h)

end Harbor

end PartialEntity
