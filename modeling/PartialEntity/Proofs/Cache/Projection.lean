import PartialEntity.Proofs.Cache.Run
import PartialEntity.Proofs.Entity.Answer
import PartialEntity.Proofs.Entity.Pull

/-!
# Requests and projections

What a read has to have at hand, and what a cache stores of an entity.
-/

namespace PartialEntity.Cache

variable {κ : Type}

/-! ## Requests -/

section Request

variable (cache : Cache κ) (graph : Graph κ)

theorem request_congr {left right : Cache κ} (h : left.settings = right.settings)
    (graph : Graph κ) : left.request graph = right.request graph := by
  have hprecached : left.precached = right.precached := congrArg (fun values => values.2.2) h
  rw [request, request, hprecached]

theorem kind_request : (cache.request graph).kind = graph.kind := by
  rw [request]
  split
  · rfl
  · rw [Graph.WellFormed.kind_normalize]
    generalize cache.precached.toList = fields
    induction fields generalizing graph with
    | nil => rfl
    | cons field rest ih => exact ih (graph.add field)

variable {graph}

theorem wellFormed_request [Catalog κ] (h : graph.WellFormed) :
    (cache.request graph).WellFormed := by
  rw [request]
  split
  · exact h
  · exact (h.addAll _).normalize

/-- A read has to have the graph and the precached fields at hand. -/
theorem selects_request_iff {path : List Nat} :
    (cache.request graph).selects path = true ↔
      graph.selects path = true ∨ ∃ field, cache.precached.contains field = true ∧
        path = [field] := by
  rw [request]
  split
  · rename_i hempty
    rw [or_iff_left]
    rintro ⟨field, hfield, -⟩
    rw [FieldSet.isEmpty_iff.1 hempty] at hfield
    cases hfield
  · rw [Graph.selects_normalize, Graph.selects_addAll_iff]
    simp only [FieldSet.mem_toList]

theorem contains_request_iff {field : Nat} :
    (cache.request graph).contains field = true ↔
      graph.contains field = true ∨ cache.precached.contains field = true := by
  rw [Graph.contains_iff, selects_request_iff, Graph.contains_iff]
  simp

/-- What holds of the paths of the graph and of the precached fields holds of all that has to be at
hand. -/
theorem forall_selects_request {P : List Nat → Prop}
    (hgraph : ∀ path, graph.selects path = true → P path)
    (hprecached : ∀ field, cache.precached.contains field = true → P [field]) :
    ∀ path, (cache.request graph).selects path = true → P path := by
  intro path hpath
  rcases (selects_request_iff cache).1 hpath with hpath | ⟨field, hfield, rfl⟩
  · exact hgraph path hpath
  · exact hprecached field hfield

end Request

/-! ## Supplies -/

/-- A read that started from a copy extends it, whenever the answer arrives. -/
theorem supply_of_snapshot [Catalog κ] [DecidableEq κ] {read : Read κ} {copy : Entity κ}
    (hsnapshot : read.snapshot = some copy) (arrival : Arrival) (resolver : Resolver κ) :
    read.supply arrival resolver =
      let extended := copy.extendFrom read.request resolver
      ⟨extended.result.map fun _ => some extended.entity, extended.asked⟩ := by
  rw [Read.supply, hsnapshot]
  cases arrival with
  | immediate => rfl
  | deferred => simp only [Entity.extendDeferred_eq]

theorem ensureFetched_eq_ok_iff [Catalog κ] [DecidableEq κ] {value : Entity κ}
    {request : Graph κ} :
    ensureFetched value request = .ok () ↔ value.hasGraph request = .ok true := by
  rw [ensureFetched, Entity.hasGraph]
  cases Entity.missingGraph request value with
  | error stop => exact iff_of_false nofun nofun
  | ok lacking =>
    change (if lacking.isEmpty then _ else _) = _ ↔ Except.ok lacking.isEmpty = _
    cases lacking.isEmpty with
    | true => exact iff_of_true rfl rfl
    | false => exact iff_of_false nofun nofun

/-- A read that started from nothing gives what is answered, if it has all that was requested. -/
theorem value_supply_of_miss [Catalog κ] [DecidableEq κ] {read : Read κ}
    (hsnapshot : read.snapshot = none) {arrival : Arrival} {resolver : Resolver κ}
    {value : Entity κ} :
    (read.supply arrival resolver).value = .ok (some value) ↔
      resolver read.id read.request = .ok (some value) ∧
        value.hasGraph read.request = .ok true := by
  rw [Read.supply, hsnapshot, ← ensureFetched_eq_ok_iff]
  simp only [Result.bind_eq_ok_iff]
  constructor
  · rintro ⟨answer, hanswer, h⟩
    cases answer with
    | none => cases h
    | some fetched =>
      obtain ⟨_, hensure, h⟩ := Result.bind_eq_ok_iff.1 h
      cases h
      exact ⟨hanswer, hensure⟩
  · rintro ⟨hanswer, hensure⟩
    exact ⟨some value, hanswer, Result.bind_eq_ok_iff.2 ⟨(), hensure, rfl⟩⟩

/-! ## Projections -/

section Project

variable [Catalog κ] [DecidableEq κ] {cache : Cache κ} {value projection : Entity κ}

theorem project_eq_none_iff :
    cache.project value = .ok none ↔ (value.held.inter cache.cacheable).isEmpty = true := by
  rw [project]
  split
  · rename_i hempty
    exact iff_of_true rfl hempty
  · rename_i hempty
    refine iff_of_false (fun hproject => ?_) hempty
    obtain ⟨_, -, hnone⟩ := Result.map_eq_ok_iff.1 hproject
    cases hnone

/-- What is stored of an entity is a copy of its cacheable fields. -/
theorem project_eq_some_iff :
    cache.project value = .ok (some projection) ↔
      (value.held.inter cache.cacheable).isEmpty = false ∧
        Entity.cloneGraph (.ofSet value.kind (value.held.inter cache.cacheable)) value =
          .ok projection := by
  rw [project]
  split
  · rename_i hempty
    refine iff_of_false nofun fun h => ?_
    rw [hempty] at h
    cases h.1
  · rename_i hempty
    rw [Result.map_some_eq_ok_iff]
    exact (and_iff_right (Bool.eq_false_iff.2 hempty)).symm

/-- What is stored of an entity are its cacheable fields, with references as members. -/
theorem project_eq_restrict (hvalue : value.Throughout Entity.Sound)
    (hproject : cache.project value = .ok (some projection)) :
    projection = value.restrict (.ofFields (value.held.inter cache.cacheable)) ∧
      ∀ field, projection.hasField field = true → Catalog.Copyable value.kind field := by
  obtain ⟨-, hcopy⟩ := project_eq_some_iff.1 hproject
  have hrestrict := Entity.cloneGraph_eq_restrict (.ofSet ..) hvalue hcopy
  rw [Graph.selects_ofSet] at hrestrict
  refine ⟨hrestrict, fun field hfield => ?_⟩
  rw [hrestrict, Entity.hasField_restrict, Bool.and_eq_true] at hfield
  apply (Entity.level_of_cloneGraph hcopy _).2
  rw [Graph.selects_ofSet]
  exact hfield.2

/-- Storing an entity succeeds if its fields declare the kinds of the members that they store. -/
theorem exists_project (cache : Cache κ) (hvalue : value.Throughout Entity.Sound)
    (hcopyable : ∀ field, value.hasField field = true → Catalog.Copyable value.kind field) :
    ∃ projection, cache.project value = .ok projection := by
  rw [project]
  split
  · exact ⟨none, rfl⟩
  · have hheld : ∀ path,
        (Graph.ofSet value.kind (value.held.inter cache.cacheable)).selects path = true →
          ∃ field, path = [field] ∧ value.hasField field = true := by
      intro path hpath
      rw [Graph.selects_ofSet] at hpath
      match path, hpath with
      | [field], hpath =>
        rw [Selection.ofFields_singleton, FieldSet.contains_inter, Bool.and_eq_true] at hpath
        exact ⟨field, rfl, hpath.1⟩
    rw [Entity.cloneGraph_eq_ok (.ofSet ..) hvalue]
    · exact ⟨_, rfl⟩
    · intro path hpath hlacks
      obtain ⟨field, rfl, hfield⟩ := hheld path hpath
      obtain ⟨member, -, hmember⟩ := Entity.Lacks.of_hasField hfield hlacks
      exact hmember
    · intro path hpath
      obtain ⟨field, rfl, hfield⟩ := hheld path hpath
      exact ⟨hcopyable field hfield, fun _ _ => trivial⟩

theorem exists_refresh {stored : Option (Entity κ)}
    (hproject : cache.project value = .ok stored) :
    ∃ next events, cache.refresh value = .ok (next, events) := by
  rw [refresh, hproject]
  cases stored with
  | none => exact ⟨_, _, rfl⟩
  | some projection =>
    cases hfind : Assoc.find? value.id cache.entries with
    | none => exact ⟨_, _, rfl⟩
    | some entry => exact ⟨_, _, rfl⟩

theorem exists_commit {stored : Option (Entity κ)} (hproject : cache.project value = .ok stored)
    (copied : Option FieldSet) :
    ∃ next events, cache.commit copied value = .ok (next, events) := by
  cases copied with
  | none => exact exists_refresh hproject
  | some fields =>
    rw [commit]
    split
    · exact ⟨_, _, rfl⟩
    · exact exists_refresh hproject

/-- A read whose value can be stored and narrowed gives the narrowed value. -/
theorem value_finish {read : Read κ} {supply : Supply κ} {narrowed : Entity κ}
    (hsupply : supply.value = .ok (some value))
    (hcommit : ∃ next events, cache.commit (read.snapshot.map (·.held)) value = .ok (next, events))
    (hnarrow : Entity.intersect read.graph value = (narrowed, .ok ())) :
    (cache.finish read supply).value = .ok (some narrowed) := by
  obtain ⟨next, events, hcommit⟩ := hcommit
  rw [finish]
  simp only [hsupply, hcommit, hnarrow]
  rfl

end Project

end PartialEntity.Cache
