import PartialEntity.Proofs.Entity.Extend

/-!
# Answers from a record

A restriction of a record that is extended by answers copied from the record stays a restriction
of it, and holds afterwards what it was extended by.  It does not matter when the answer arrives.
-/

namespace PartialEntity.Entity

variable {κ : Type} [DecidableEq κ] [Catalog κ]

/-- An answer that arrives later is merged as one that is there at once. -/
theorem extendDeferred_eq (entity : Entity κ) (graph : Graph κ) (resolver : Resolver κ) :
    entity.extendDeferred graph resolver = entity.extendFrom graph resolver := by
  rw [extendDeferred, extendFrom, extend]
  cases hmissing : missingGraph graph entity with
  | error stop => rfl
  | ok missing =>
    by_cases hempty : missing.isEmpty = true
    · simp only [hempty, if_true]
    · simp only [hempty, Bool.false_eq_true, if_false]
      cases hanswer : resolver entity.id missing with
      | error stop => simp only [absorb]
      | ok answer =>
        cases answer with
        | none =>
          simp only [absent, absorb]
          rfl
        | some extension => simp only [extend, hmissing, hempty, Bool.false_eq_true, if_false]

omit [DecidableEq κ] in
/-- An entity that is not absent is what the resolver has answered. -/
theorem present_iff {answer : Except Error (Option (Entity κ))} {kind : κ} {id : Nat}
    {extension : Entity κ} :
    (match answer with
      | .ok none => absent kind id
      | answer => answer) = .ok (some extension) ↔ answer = .ok (some extension) := by
  cases answer with
  | error stop => exact Iff.rfl
  | ok found =>
    cases found with
    | none =>
      constructor
      · intro h
        cases h
      · intro h
        cases h
    | some value => exact Iff.rfl

/-- An answer that is merged holds what was missing. -/
theorem absorb_of_ok {entity : Entity κ} {missing : Graph κ}
    {answer : Except Error (Option (Entity κ))} {done : Bool}
    (hok : (entity.absorb missing answer).2 = .ok done) :
    ∃ extension, answer = .ok (some extension) ∧
      (extendWith missing extension entity).2 = .ok () ∧
      (entity.absorb missing answer).1 = (extendWith missing extension entity).1 := by
  cases answer with
  | error stop => cases hok
  | ok answer =>
    cases answer with
    | none => cases hok
    | some extension =>
      rw [absorb] at hok
      cases hlacking : missingGraph missing extension with
      | error stop =>
        rw [hlacking] at hok
        cases hok
      | ok lacking =>
        rw [hlacking] at hok
        by_cases hcomplete : lacking.isEmpty = true
        · simp only [hcomplete, if_true] at hok
          obtain ⟨_, hmerge, -⟩ := Result.map_eq_ok_iff.1 hok
          refine ⟨extension, rfl, hmerge, ?_⟩
          rw [absorb]
          simp only [hlacking, hcomplete, if_true]
        · simp only [hcomplete, Bool.false_eq_true, if_false] at hok
          cases hok

/-- An answer that holds all that was missing, and that can be merged, is absorbed. -/
theorem absorb_ok {entity extension : Entity κ} {missing lacking : Graph κ}
    (hlacking : missingGraph missing extension = .ok lacking) (hcomplete : lacking.isEmpty = true)
    (hmerge : (extendWith missing extension entity).2 = .ok ()) :
    (entity.absorb missing (.ok (some extension))).2 = .ok true := by
  rw [absorb]
  simp only [hlacking, hcomplete, if_true, hmerge]
  rfl

variable {record : Entity κ} {graph : Graph κ} {held : Selection} {missing : Graph κ}

omit [DecidableEq κ] in
/-- A restriction together with what it is missing of a graph holds the graph and every part of
it. -/
theorem restrict_covered (hmissing : IsMissing graph (record.restrict held) missing)
    {part : Selection} (hpart : ∀ path, part path = true → graph.selects path = true) :
    (record.restrict (held ⊔ missing.selects)).restrict part = record.restrict part := by
  rw [restrict_restrict]
  apply restrict_congr
  intro path hpath
  rw [Selection.inf_apply, Selection.sup_apply]
  by_cases hselected : part path = true
  · by_cases hheld : held path = true
    · simp [hselected, hheld]
    · have hlacks := hpath.lacks_restrict (Bool.eq_false_iff.2 hheld)
      have hgraph := hpart path hselected
      have hmissed : missing.selects path = true :=
        (hmissing.selects path).2 ⟨Graph.ne_nil_of_selects hgraph, [], by rwa [List.append_nil],
          by rwa [List.append_nil]⟩
      rw [hmissed, Bool.or_true, Bool.and_true]
  · rw [Bool.eq_false_iff.2 hselected, Bool.false_and]

/-- Extending by answers copied from the record, if it succeeds, adds what was missing. -/
theorem extend_of_ok (hrecord : record.Lawful) (hgraph : graph.WellFormed)
    (hkind : graph.kind = record.kind) (hclosed : held.Closed)
    {resolve : Graph κ → Except Error (Option (Entity κ))}
    (hresolve : ∀ asked extension, resolve asked = .ok (some extension) →
      cloneGraph asked record = .ok extension)
    {done : Bool} (hok : ((record.restrict held).extend graph resolve).result = .ok done) :
    ∃ missing, IsMissing graph (record.restrict held) missing ∧
      ((record.restrict held).extend graph resolve).entity =
        record.restrict (held ⊔ missing.selects) := by
  have hfits := (hrecord.sound.restrict held).mono fun _ h => h.toFits
  rw [extend] at hok ⊢
  cases hmissing : missingGraph graph (record.restrict held) with
  | error stop =>
    rw [hmissing] at hok
    cases hok
  | ok missing =>
    have hspec := missingGraph_spec hgraph (hkind.trans (kind_restrict ..).symm) hfits hmissing
    refine ⟨missing, hspec, ?_⟩
    rw [hmissing] at hok
    by_cases hempty : missing.isEmpty = true
    · have hnothing : missing.selects = ⊥ := funext (Graph.isEmpty_iff.1 hempty)
      simp only [hempty, if_true, hnothing, sup_bot_eq]
    · simp only [hempty, Bool.false_eq_true, if_false] at hok ⊢
      obtain ⟨extension, hanswer, hmerge, habsorb⟩ := absorb_of_ok hok
      rw [habsorb]
      rw [cloneGraph_eq_restrict hspec.wellFormed hrecord.sound
        (hresolve missing extension hanswer)] at hmerge ⊢
      rw [extendWith_eq_of_ok hspec.wellFormed hrecord.sound hrecord.consistent hclosed hmerge]

omit [DecidableEq κ] in
/-- What holds on every path of a graph holds on every path of what is missing of it. -/
theorem IsMissing.forall_path {entity : Entity κ} (h : IsMissing graph entity missing)
    {P : List Nat → Prop} (happend : ∀ path rest, P (path ++ rest) → P path)
    (hgraph : ∀ path, graph.selects path = true → P path) :
    ∀ path, missing.selects path = true → P path := by
  intro path hpath
  obtain ⟨-, rest, hselects, -⟩ := (h.selects path).1 hpath
  exact happend path rest (hgraph _ hselects)

/-- Nothing of the graph is missing from a copy of a record that holds the graph. -/
theorem exists_missingGraph_copy (hrecord : record.Throughout Sound)
    (hgraph : graph.WellFormed) (hkind : graph.kind = record.kind)
    (hholds : ∀ path, graph.selects path = true → ¬record.Lacks path)
    (hregular : ∀ path, graph.selects path = true →
      Catalog.OnPath Catalog.Regular record.kind path.dropLast) :
    ∃ lacking, missingGraph graph (record.restrict graph.selects) = .ok lacking ∧
      lacking.isEmpty = true := by
  have hfits := (hrecord.restrict graph.selects).mono fun _ h => h.toFits
  have hsame : graph.kind = (record.restrict graph.selects).kind :=
    hkind.trans (kind_restrict ..).symm
  obtain ⟨lacking, hlacking⟩ := exists_missingGraph hgraph hsame hfits (by rwa [hkind])
  refine ⟨lacking, hlacking, ?_⟩
  rw [Graph.isEmpty_iff]
  intro path
  rw [Bool.eq_false_iff]
  intro hpath
  obtain ⟨-, rest, hselects, hlacks⟩ :=
    ((missingGraph_spec hgraph hsame hfits hlacking).selects path).1 hpath
  apply hholds _ hselects
  apply lacks_of_lacks_restrict (hrecord.mono fun _ h => h.toFits) _ hlacks
  intro left right heq hne
  rw [← heq] at hselects
  exact graph.closed_selects left right hne hselects

/-- Extending by answers copied from a record that holds the graph succeeds. -/
theorem exists_extend_ok (hrecord : record.Lawful) (hgraph : graph.WellFormed)
    (hkind : graph.kind = record.kind) (hclosed : held.Closed)
    (hholds : ∀ path, graph.selects path = true → ¬record.Lacks path)
    (hcopyable : ∀ path, graph.selects path = true →
      Catalog.OnPath Catalog.Copyable record.kind path)
    (hregular : ∀ path, graph.selects path = true →
      Catalog.OnPath Catalog.Regular record.kind path.dropLast)
    {resolve : Graph κ → Except Error (Option (Entity κ))}
    (hresolve : ∀ asked copy, cloneGraph asked record = .ok copy →
      resolve asked = .ok (some copy)) :
    ∃ done, ((record.restrict held).extend graph resolve).result = .ok done := by
  have hfits : ∀ selection, (record.restrict selection).Throughout Fits := fun selection =>
    (hrecord.sound.restrict selection).mono fun _ h => h.toFits
  have hsame : graph.kind = (record.restrict held).kind := hkind.trans (kind_restrict ..).symm
  obtain ⟨missing, hmissing⟩ := exists_missingGraph hgraph hsame (hfits held)
    (by rw [hkind]; exact hregular)
  have hspec := missingGraph_spec hgraph hsame (hfits held) hmissing
  have hmkind : missing.kind = record.kind := hspec.kind.trans (kind_restrict ..)
  have hmholds := hspec.forall_path (P := fun path => ¬record.Lacks path)
    (fun path rest hpath hlacks => hpath (hlacks.append rest)) hholds
  have hmcopyable := hspec.forall_path (P := Catalog.OnPath Catalog.Copyable record.kind)
    (fun path rest hpath => hpath.of_append) hcopyable
  have hmregular := hspec.forall_path
    (P := fun path => Catalog.OnPath Catalog.Regular record.kind path.dropLast)
    (fun path rest hpath => hpath.dropLast_of_append) hregular
  rw [extend]
  simp only [hmissing]
  by_cases hempty : missing.isEmpty = true
  · simp only [hempty, if_true]
    exact ⟨false, rfl⟩
  · simp only [hempty, Bool.false_eq_true, if_false]
    rw [hresolve missing _ (cloneGraph_eq_ok hspec.wellFormed hrecord.sound hmholds hmcopyable)]
    obtain ⟨lacking, hlacking, hcomplete⟩ :=
      exists_missingGraph_copy hrecord.sound hspec.wellFormed hmkind hmholds hmregular
    refine ⟨true, absorb_ok hlacking hcomplete ?_⟩
    rw [extendWith_eq_ok hspec.wellFormed hmkind hrecord.sound hrecord.consistent hclosed hmholds
      hmcopyable hmregular]

end PartialEntity.Entity
