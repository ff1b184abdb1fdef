import PartialEntity.Proofs.Entity.Coverage
import PartialEntity.Proofs.Entity.Frame
import PartialEntity.Proofs.Harbor.Records

/-!
# Extending closes the gap

After an entity was extended successfully it carries everything that the graph selects, whatever
the answer held besides.  Each member is extended by some member of the extension, and all of those
carry what was missing from any; what a member carried before it keeps.
-/

namespace PartialEntity

namespace Entity

variable {κ : Type} [DecidableEq κ] [Catalog κ]
variable {graph missing : Graph κ} {entity : Entity κ} {path : List Nat}

/-! ## Field by field -/

/-- Whether a path is carried depends on its first field only. -/
theorem Carries.of_changedAt {fields : Nat → Prop} {changed : Entity κ} {field : Nat}
    {rest : List Nat} (h : ChangedAt fields entity changed) (hfield : ¬fields field) :
    changed.Carries (field :: rest) ↔ entity.Carries (field :: rest) := by
  rw [Carries, Carries, h.kind, h.hasField field hfield, h.slot field hfield]

section Steps

variable {change : Nat → Entity κ → Entity κ × Except Error Unit} {invariant : Entity κ → Prop}
  {fields : List Nat} {start : Entity κ}

omit [DecidableEq κ] in
/-- A change field by field meets each field once, in a state that agrees with the first and the
last one about the field, or it stops before the field and leaves it alone. -/
theorem forFields_cases
    (hchange : ∀ field next, invariant next → invariant (change field next).1 ∧
      ChangedAt (· = field) next (change field next).1)
    (hfields : fields.Nodup) (hstart : invariant start) (field : Nat) :
    (field ∈ fields ∧ ∃ before, invariant before ∧ ChangedAt (· ≠ field) start before ∧
        ChangedAt (· ≠ field) (change field before).1 (forFields change fields start).1 ∧
          ((forFields change fields start).2 = .ok () → (change field before).2 = .ok ())) ∨
      ChangedAt (· ≠ field) start (forFields change fields start).1 ∧
        ((forFields change fields start).2 = .ok () → field ∉ fields) := by
  induction fields generalizing start with
  | nil => exact .inr ⟨.refl _ start, fun _ => List.not_mem_nil⟩
  | cons first rest ih =>
    obtain ⟨hfirst, hrest⟩ := List.nodup_cons.1 hfields
    obtain ⟨hinvariant, hchanged⟩ := hchange first start hstart
    have hother : field ≠ first → ChangedAt (· ≠ field) start (change first start).1 := by
      intro hne
      refine hchanged.mono ?_
      rintro _ rfl
      exact hne.symm
    rw [forFields]
    split
    · rename_i next stop heq
      rw [heq] at hother
      have hstopped : (Except.error stop : Except Error Unit) ≠ .ok () := by simp
      by_cases hsame : field = first
      · subst hsame
        refine .inl ⟨List.mem_cons_self .., start, hstart, .refl _ start, ?_,
          fun hok => absurd hok hstopped⟩
        rw [heq]
        exact .refl _ next
      · exact .inr ⟨hother hsame, fun hok => absurd hok hstopped⟩
    · rename_i next done heq
      rw [heq] at hinvariant hother
      by_cases hsame : field = first
      · subst hsame
        refine .inl ⟨List.mem_cons_self .., start, hstart, .refl _ start, ?_,
          fun _ => congrArg Prod.snd heq⟩
        rw [heq]
        refine changedAt_forFields (fun other hmem before hbefore => ?_) hinvariant
        obtain ⟨hkept, hstep⟩ := hchange other before hbefore
        refine ⟨hkept, hstep.mono ?_⟩
        rintro _ rfl rfl
        exact hfirst hmem
      · rcases ih hrest hinvariant with
          ⟨hmem, before, hbefore, hagree, hafter⟩ | ⟨hagree, hlast⟩
        · exact .inl ⟨List.mem_cons_of_mem _ hmem, before, hbefore,
            (hother hsame).trans hagree, hafter⟩
        · exact .inr ⟨(hother hsame).trans hagree, fun hok =>
            List.not_mem_cons_of_ne_of_not_mem hsame (hlast hok)⟩

omit [DecidableEq κ] in
/-- A change field by field that succeeds meets each field. -/
theorem exists_changedAt_forFields
    (hchange : ∀ field next, invariant next → invariant (change field next).1 ∧
      ChangedAt (· = field) next (change field next).1)
    (hfields : fields.Nodup) (hstart : invariant start)
    (hok : (forFields change fields start).2 = .ok ()) {field : Nat} (hfield : field ∈ fields) :
    ∃ before, invariant before ∧ ChangedAt (· ≠ field) start before ∧
      (change field before).2 = .ok () ∧
      ChangedAt (· ≠ field) (change field before).1 (forFields change fields start).1 := by
  rcases forFields_cases hchange hfields hstart field with
    ⟨-, before, hbefore, hagree, hafter, hdone⟩ | ⟨-, hlast⟩
  · exact ⟨before, hbefore, hagree, hdone hok, hafter⟩
  · exact absurd hfield (hlast hok)

end Steps

omit [DecidableEq κ] [Catalog κ] in
theorem slot_store (entity : Entity κ) (field other : Nat) (value : Tree (Entity κ)) :
    (entity.store field value).slot other =
      if field = other ∧ field < entity.slots.length then value else entity.slot other :=
  slot_assign entity field other value

theorem kind_forMembers (change : Entity κ → Entity κ × Except Error Unit) (field : Nat)
    (entity : Entity κ) : (forMembers change field entity).1.kind = entity.kind := by
  rw [forMembers]
  split <;> rfl

theorem id_forMembers (change : Entity κ → Entity κ × Except Error Unit) (field : Nat)
    (entity : Entity κ) : (forMembers change field entity).1.id = entity.id := by
  rw [forMembers]
  split <;> rfl

theorem hasField_forMembers (change : Entity κ → Entity κ × Except Error Unit) (field : Nat)
    (entity : Entity κ) (other : Nat) :
    (forMembers change field entity).1.hasField other = entity.hasField other := by
  rw [forMembers]
  split <;> rfl

/-- A change of every member under a field leaves results of the change under it. -/
theorem exists_of_mem_leaves_forMembers {change : Entity κ → Entity κ × Except Error Unit}
    {field : Nat} (hok : (forMembers change field entity).2 = .ok ()) {result : Entity κ}
    (hresult : result ∈ ((forMembers change field entity).1.slot field).leaves) :
    ∃ member ∈ (entity.slot field).leaves, change member = (result, .ok ()) := by
  obtain ⟨⟨kind, hdescend⟩, hmembers⟩ := forMembers_ok_iff.1 hok
  have hchange : ∀ member ∈ (entity.slot field).leaves,
      change member = ((change member).1, .ok ()) :=
    fun member hmember => Prod.ext rfl (hmembers member hmember)
  have hvisit : (entity.slot field).visit (fun _ leaf => change leaf) () =
      ((entity.slot field).map fun member => (change member).1, .ok ()) := Tree.visit_eq_ok hchange
  rw [forMembers, hdescend] at hresult
  simp only [Tree.forEach, hvisit, slot_store] at hresult
  have hrebuilt : result ∈ (((entity.slot field).map fun member =>
      (change member).1).rebuild .inserted).leaves := by
    split at hresult
    · exact hresult
    · rename_i hlt
      rw [slot_eq_unit (Nat.le_of_not_lt fun h => hlt ⟨trivial, h⟩)] at hresult
      exact absurd hresult List.not_mem_nil
  obtain ⟨member, hmember, rfl⟩ := Tree.exists_of_mem_leaves_rebuild_map hrebuilt
  exact ⟨member, hmember, hchange member hmember⟩

/-! ## Extending -/

section Extend

variable {extension : Entity κ} {field : Nat} {rest : List Nat}

/-- Merging one field makes the entity carry what the graph selects there, if the members are
extended so, and keeps what it carries. -/
private theorem carries_extendField (hgraph : graph.WellFormed)
    (hkind : entity.kind = extension.kind)
    (hlength : entity.slots.length = extension.slots.length)
    (hextension : extension.Throughout Fits)
    (hcovers : ∀ path, graph.selects path = true → extension.Carries path)
    (hmembers : ∀ inner, (field, some inner) ∈ graph.entries → ∀ candidate ∈
      (extension.slot field).leaves, ∀ member ∈ (entity.slot field).leaves,
        (∃ kind, descend entity.kind field = .ok kind) →
        (extendWith inner candidate member).2 = .ok () → ∀ path,
          inner.selects path = true ∨ member.Carries path →
            (extendWith inner candidate member).1.Carries path)
    (hok : (extendField graph extension field entity).2 = .ok ())
    (hpath : graph.selects (field :: rest) = true ∨ entity.Carries (field :: rest)) :
    (extendField graph extension field entity).1.Carries (field :: rest) := by
  by_cases hheld : entity.hasField field = true
  · rcases extendField_of_hasField hgraph extension hheld with
      ⟨heq, hnothing⟩ | ⟨inner, hentry, -, heq⟩
    · rw [heq]
      rcases hpath with hselects | hcarries
      · refine ⟨hheld, fun hrest => ?_⟩
        rw [hnothing rest hrest] at hselects
        cases hselects
      · exact hcarries
    · rw [heq] at hok ⊢
      obtain ⟨hdescend, -⟩ := forMembers_ok_iff.1 hok
      refine ⟨?_, fun hrest => ⟨?_, fun result hresult => ?_⟩⟩
      · rw [hasField_forMembers, hheld]
      · rwa [kind_forMembers]
      · obtain ⟨member, hmember, hmerge⟩ := exists_of_mem_leaves_forMembers hok hresult
        obtain ⟨candidate, hcandidate, hleaf⟩ : ∃ candidate ∈ (extension.slot field).leaves,
            extendWith inner candidate member = (result, .ok ()) := by
          rcases extendLeaf_cases graph.kind field inner (extension.slot field).leaves member with
            ⟨candidate, hcandidate, -, heq⟩ | ⟨stop, heq⟩
          · exact ⟨candidate, hcandidate, heq.symm.trans hmerge⟩
          · rw [hmerge] at heq
            cases heq
        have hcarries := hmembers inner hentry candidate hcandidate member hmember hdescend
          (congrArg Prod.snd hleaf) rest
        rw [hleaf] at hcarries
        apply hcarries
        refine hpath.imp (fun hselects => ?_) fun hcarries => (hcarries.2 hrest).2 member hmember
        rwa [← hgraph.under_eq hentry hrest]
  · have hselects := hpath.resolve_right fun hcarries => hheld hcarries.1
    have hselected : graph.contains field = true :=
      Graph.contains_iff.2 (graph.closed_selects [field] rest (by simp) hselects)
    rw [extendField, if_neg hheld, if_pos hselected] at hok ⊢
    cases hpull : entity.pull field extension (some graph) with
    | error stop =>
      rw [hpull] at hok
      cases hok
    | ok pulled =>
      exact carries_pull hgraph hkind hlength hextension hpull hselects (hcovers _ hselects)

theorem length_slots_extendField (graph : Graph κ) (extension entity : Entity κ) (field : Nat) :
    (extendField graph extension field entity).1.slots.length = entity.slots.length := by
  rw [extendField]
  split
  · split
    · rw [forMembers]
      split
      · rfl
      · exact List.length_set ..
    · rfl
  · split
    · rfl
    · rename_i pulled hpull
      rcases pull_cases hpull with ⟨-, rfl⟩ | ⟨_, _, value, -, -, rfl⟩ | ⟨-, -, rfl⟩
      · rfl
      · exact List.length_set ..
      · exact List.length_set ..

/-- Merging meets each field of the extension once, in a state that agrees with the first and the
last one about the field, or it stops before the field and leaves it alone. -/
theorem extendWith_cases (graph : Graph κ) (hentity : entity.Fits) (hextension : extension.Fits)
    (hkind : entity.kind = extension.kind) (field : Nat) :
    (extension.hasField field = true ∧ ∃ before : Entity κ,
      (before.kind = extension.kind ∧ before.slots.length = extension.slots.length ∧
        before.Plain) ∧
      ChangedAt (· ≠ field) entity before ∧
      ChangedAt (· ≠ field) (extendField graph extension field before).1
        (extendWith graph extension entity).1 ∧
      ((extendWith graph extension entity).2 = .ok () →
        (extendField graph extension field before).2 = .ok ())) ∨
    ChangedAt (· ≠ field) entity (extendWith graph extension entity).1 ∧
      ((extendWith graph extension entity).2 = .ok () → extension.hasField field = false) := by
  let invariant : Entity κ → Prop := fun next =>
    next.kind = extension.kind ∧ next.slots.length = extension.slots.length ∧ next.Plain
  have hstep : ∀ field next, invariant next →
      invariant (extendField graph extension field next).1 ∧
        ChangedAt (· = field) next (extendField graph extension field next).1 := by
    rintro field next ⟨hnext, hlength, hplain⟩
    have hchanged := changedAt_extendField graph hextension.plainFields hnext field
    refine ⟨⟨hchanged.kind.trans hnext, ?_, hchanged.plain hplain⟩, hchanged⟩
    rw [length_slots_extendField, hlength]
  have hstart : invariant entity := by
    refine ⟨hkind, ?_, hentity.plainFields⟩
    rw [hentity.length_slots, hextension.length_slots, hkind]
  have hlisted : field ∈ extension.held.toList ↔ extension.hasField field = true :=
    FieldSet.mem_toList
  have hcases := forFields_cases hstep (FieldSet.nodup_toList extension.held) hstart field
  rw [extendWith_eq, ← hlisted, ← Bool.not_eq_true, ← hlisted]
  exact hcases

/-- An entity that was extended by one that carries a graph carries the graph, and everything that
it carried before. -/
theorem carries_extendWith (hgraph : graph.WellFormed) (hgkind : graph.kind = entity.kind)
    (hkind : entity.kind = extension.kind) (hentity : entity.Throughout Fits)
    (hextension : extension.Throughout Fits)
    (hcovers : ∀ path, graph.selects path = true → extension.Carries path)
    (hok : (extendWith graph extension entity).2 = .ok ())
    (hpath : graph.selects path = true ∨ entity.Carries path) :
    (extendWith graph extension entity).1.Carries path := by
  induction graph using Graph.induction generalizing extension entity path with
  | node kind entries ih =>
    cases path with
    | nil => trivial
    | cons field rest =>
      rcases extendWith_cases (.node kind entries) hentity.self hextension.self hkind field with
        ⟨-, before, ⟨hbkind, hlength, -⟩, hbefore, hafter, hdone⟩ | ⟨hsame, hlast⟩
      · rw [Carries.of_changedAt hafter (by simp)]
        refine carries_extendField hgraph hbkind hlength hextension hcovers ?_ (hdone hok)
          (hpath.imp_right (Carries.of_changedAt hbefore (by simp)).2)
        rintro inner hentry candidate hcandidate member hmember ⟨declared, hdescend⟩ hmerge path
          hpath
        rw [hbefore.slot field (by simp)] at hmember
        rw [hbkind] at hdescend
        obtain ⟨hnested, shape, hcontent, -⟩ := descend_eq_ok_iff.1 hdescend
        have hcandidate' : candidate.kind = declared :=
          hextension.self.nested field declared shape hcontent candidate hcandidate
        have hmember' : member.kind = declared :=
          hentity.self.nested field declared shape (hkind ▸ hcontent) member hmember
        have hinner : inner.kind = declared := by
          have hdeclared := hgraph.declared hentry
          rw [hgkind, hkind, hnested] at hdeclared
          exact (Option.some.inj hdeclared).symm
        refine ih field inner hentry (hgraph.attached hentry) (hinner.trans hmember'.symm)
          (hmember'.trans hcandidate'.symm) (hentity.member hmember)
          (hextension.member hcandidate) (fun path hpath => ?_) hmerge hpath
        have hwhole := hcovers _ (Graph.selects_of_attached hentry hpath)
        exact (hwhole.2 (Graph.ne_nil_of_selects hpath)).2 candidate hcandidate
      · rw [Carries.of_changedAt hsame (by simp)]
        refine hpath.resolve_left fun hselects => ?_
        have hheld := (hcovers _ hselects).1
        rw [hlast hok] at hheld
        cases hheld

end Extend

/-- Only an answer that has all that was asked for is merged. -/
theorem hasGraph_of_absorb {extension : Entity κ} {merged : Bool}
    (hok : (entity.absorb missing (.ok (some extension))).2 = .ok merged) :
    extension.hasGraph missing = .ok true := by
  rw [absorb] at hok
  rw [hasGraph]
  cases hlacking : missingGraph missing extension with
  | error stop =>
    rw [hlacking] at hok
    cases hok
  | ok lacking =>
    rw [hlacking] at hok
    by_cases hcomplete : lacking.isEmpty = true
    · exact congrArg Except.ok hcomplete
    · simp only [hcomplete, Bool.false_eq_true, if_false] at hok
      cases hok

/-- After an entity was extended successfully it carries all that the graph selects. -/
theorem carries_extend {resolve : Graph κ → Except Error (Option (Entity κ))}
    (hgraph : graph.WellFormed) (hkind : graph.kind = entity.kind)
    (hentity : entity.Throughout Fits)
    (hanswer : ∀ missing answer, resolve missing = .ok (some answer) →
      answer.kind = entity.kind ∧ answer.Throughout Fits)
    {merged : Bool} (hok : (entity.extend graph resolve).result = .ok merged) :
    (entity.extend graph resolve).entity.kind = entity.kind ∧
      ∀ path, graph.selects path = true → (entity.extend graph resolve).entity.Carries path := by
  rw [extend] at hok ⊢
  cases hmissing : missingGraph graph entity with
  | error stop =>
    rw [hmissing] at hok
    cases hok
  | ok missing =>
    have hcovered : ∀ path, graph.selects path = true →
        missing.selects path = true ∨ entity.Carries path :=
      fun path hpath => selects_or_carries hgraph hkind hentity hmissing hpath
    have hspec := missingGraph_spec hgraph hkind hentity hmissing
    rw [hmissing] at hok
    by_cases hempty : missing.isEmpty = true
    · simp only [hempty, if_true]
      refine ⟨trivial, fun path hpath => (hcovered path hpath).resolve_left ?_⟩
      rw [Graph.isEmpty_iff.1 hempty]
      exact Bool.false_ne_true
    · simp only [hempty, Bool.false_eq_true, if_false] at hok ⊢
      obtain ⟨answer, hresolve, hcomplete, habsorb⟩ := absorb_of_ok hok
      obtain ⟨hakind, hafits⟩ := hanswer missing answer hresolve
      rw [hresolve] at hok
      have hmkind : missing.kind = answer.kind := hspec.kind.trans hakind.symm
      have hcovers := (hasGraph_iff hspec.wellFormed hmkind hafits).1 (hasGraph_of_absorb hok)
      rw [habsorb]
      refine ⟨(changedAt_extendWith missing hafits.self.plainFields hakind.symm).kind,
        fun path hpath => ?_⟩
      exact carries_extendWith hspec.wellFormed hspec.kind hakind.symm hentity hafits hcovers
        hcomplete (hcovered path hpath)

/-- Extending closes the gap, whatever the answer holds besides what was missing: after a success
nothing of the graph is missing. -/
theorem missingGraph_extend {resolve : Graph κ → Except Error (Option (Entity κ))}
    (hgraph : graph.WellFormed) (hkind : graph.kind = entity.kind)
    (hentity : entity.Throughout Fits)
    (hanswer : ∀ missing answer, resolve missing = .ok (some answer) →
      answer.kind = entity.kind ∧ answer.Throughout Fits)
    {merged : Bool} (hok : (entity.extend graph resolve).result = .ok merged) :
    (entity.extend graph resolve).entity.hasGraph graph = .ok true ∧
      missingGraph graph (entity.extend graph resolve).entity = .ok (.none entity.kind) := by
  obtain ⟨hsame, hcarries⟩ := carries_extend hgraph hkind hentity hanswer hok
  rw [← hsame]
  exact ⟨hasGraph_of_carries hcarries, missingGraph_eq_none hcarries⟩

end Entity

namespace Harbor

open Entity

theorem missingGraph_extend_annAshore :
    (annAshore.extend crewList fun _ => .ok (some Samples.ann)).result = .ok true ∧
      (annAshore.extend crewList fun _ => .ok (some Samples.ann)).entity.hasGraph crewList =
        .ok true := by
  have hfits : ∀ {record : Entity Kind}, record.IsRecord → record.Throughout Fits :=
    fun h => h.lawful.sound.mono fun _ h => h.toFits
  have hanswer : ∀ (_ : Graph Kind) (answer : Entity Kind), (Except.ok (some Samples.ann) :
      Except Error _) = .ok (some answer) →
        answer.kind = annAshore.kind ∧ answer.Throughout Fits := by
    rintro _ _ ⟨⟩
    exact ⟨rfl, hfits Samples.isRecord_ann⟩
  have hmerged : (annAshore.extend crewList fun _ => .ok (some Samples.ann)).result = .ok true :=
    rfl
  exact ⟨hmerged,
    (missingGraph_extend wellFormed_crewList rfl (hfits isRecord_annAshore) hanswer hmerged).1⟩

end Harbor

end PartialEntity
