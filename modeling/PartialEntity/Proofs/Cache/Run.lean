import PartialEntity.Cache.Read
import PartialEntity.Proofs.FieldSet
import PartialEntity.Proofs.Graph.WellFormed
import PartialEntity.Proofs.Result

/-!
# Runs of a cache

A run starts from an empty cache and goes through reads, writes and clearings in any order.  The two
steps of a read stand apart: between them the read is pending, and other operations, the steps of
other reads among them, may come in between.  What every stored entity satisfies is followed
through a run by `Cache.Stores`.
-/

namespace PartialEntity.Cache

variable {κ : Type}

/-! ## Operations -/

inductive Clearing (κ : Type) where
  | all
  | one (id : Nat)
  | entity (entity : Entity κ)
  | matching (matching : Entity κ → Bool)
  | ids (ids : List Nat)
  | entities (entities : List (Entity κ))
  | fields (id : Nat) (fields : FieldSet)
  | idsFields (ids : List Nat) (fields : FieldSet)
  | entitiesFields (entities : List (Entity κ)) (fields : FieldSet)
  | matchingFields (matching : Entity κ → Bool) (fields : FieldSet)

variable [Catalog κ]

def Clearing.apply (cache : Cache κ) : Clearing κ → Cache κ
  | .all => cache.clearAll
  | .one id => (cache.clear id).2
  | .entity value => (cache.clearEntity value).2
  | .matching p => (cache.clearMatching p).2
  | .ids keys => (cache.clearIds keys).2
  | .entities values => (cache.clearEntities values).2
  | .fields id tags => (cache.clearFields id tags).2
  | .idsFields keys tags => (cache.clearIdsFields keys tags).2
  | .entitiesFields values tags => (cache.clearEntitiesFields values tags).2
  | .matchingFields p tags => (cache.clearMatchingFields p tags).2

variable [DecidableEq κ]

/-- The caches that can come out of `empty`, each with the reads that are pending there.  Values
that are put or merged are `given`; reads are answered by resolvers that satisfy `answers`. -/
inductive Run (given : Entity κ → Prop) (answers : Resolver κ → Prop) (empty : Cache κ) :
    Cache κ → List (Read κ) → Prop
  | empty : Run given answers empty empty []
  | start {cache : Cache κ} {reads : List (Read κ)} (hrun : Run given answers empty cache reads)
      (id : Nat) {graph : Graph κ} (hgraph : graph.WellFormed) (hkind : graph.kind = cache.kind) :
      Run given answers empty cache (cache.start id graph :: reads)
  | finish {cache : Cache κ} {before after : List (Read κ)} {read : Read κ}
      (hrun : Run given answers empty cache (before ++ read :: after)) (arrival : Arrival)
      {resolver : Resolver κ} (hresolver : answers resolver) :
      Run given answers empty (cache.finish read (read.supply arrival resolver)).cache
        (before ++ after)
  | put {cache next : Cache κ} {reads : List (Read κ)} (hrun : Run given answers empty cache reads)
      {value : Entity κ} (hvalue : given value) (hput : cache.put value = .ok next) :
      Run given answers empty next reads
  | merge {cache next : Cache κ} {reads : List (Read κ)}
      (hrun : Run given answers empty cache reads) {value : Entity κ} (hvalue : given value)
      {events : List (Event κ)} (hmerge : cache.refresh value = .ok (next, events)) :
      Run given answers empty next reads
  | clear {cache : Cache κ} {reads : List (Read κ)} (hrun : Run given answers empty cache reads)
      (clearing : Clearing κ) : Run given answers empty (clearing.apply cache) reads

/-! ## Writes -/

section Write

variable {cache next : Cache κ} {value : Entity κ} {events : List (Event κ)}

/-- A value without cacheable fields is not stored, and another one takes the place of its id. -/
theorem put_cases (hput : cache.put value = .ok next) :
    next = cache ∨ ∃ projection, cache.project value = .ok (some projection) ∧
      next = { cache with entries := Assoc.insert value.id projection cache.entries } := by
  obtain ⟨projection, hproject, hput⟩ := Result.bind_eq_ok_iff.1 hput
  cases projection with
  | none =>
    cases hput
    exact .inl rfl
  | some projection =>
    cases hput
    exact .inr ⟨projection, hproject, rfl⟩

/-- A value without cacheable fields is not merged.  Another one is pulled into the entity that is
stored under its id, or is stored there if there is none. -/
theorem refresh_cases (hrefresh : cache.refresh value = .ok (next, events)) :
    next = cache ∨ ∃ projection entry, cache.project value = .ok (some projection) ∧
      (entry = projection ∨ ∃ stored, Assoc.find? value.id cache.entries = some stored ∧
        entry = stored.pullAll projection) ∧
      next = { cache with entries := Assoc.insert value.id entry cache.entries } := by
  obtain ⟨projection, hproject, hrefresh⟩ := Result.bind_eq_ok_iff.1 hrefresh
  cases projection with
  | none =>
    cases hrefresh
    exact .inl rfl
  | some projection =>
    simp only at hrefresh
    split at hrefresh
    · rename_i stored hfind
      cases hrefresh
      exact .inr ⟨projection, _, hproject, .inr ⟨stored, hfind, rfl⟩, rfl⟩
    · cases hrefresh
      exact .inr ⟨projection, projection, hproject, .inl rfl, rfl⟩

end Write

/-! ## Settings -/

def settings (cache : Cache κ) : κ × FieldSet × FieldSet :=
  (cache.kind, cache.cacheable, cache.precached)

section Settings

variable {cache next : Cache κ} {value : Entity κ} {events : List (Event κ)}

omit [DecidableEq κ] in
theorem build_eq_ok {kind : κ} {cacheable precached : FieldSet}
    (hbuild : build kind cacheable precached = .ok cache) :
    cache = ⟨kind, cacheable, precached, []⟩ := by
  rw [build] at hbuild
  split at hbuild
  · cases hbuild
  · split at hbuild
    · cases hbuild
    · cases hbuild
      rfl

theorem settings_put (h : cache.put value = .ok next) : next.settings = cache.settings := by
  rcases put_cases h with rfl | ⟨projection, -, rfl⟩ <;> rfl

theorem settings_refresh (h : cache.refresh value = .ok (next, events)) :
    next.settings = cache.settings := by
  rcases refresh_cases h with rfl | ⟨projection, entry, -, -, rfl⟩ <;> rfl

theorem settings_commit {copied : Option FieldSet}
    (h : cache.commit copied value = .ok (next, events)) : next.settings = cache.settings := by
  cases copied with
  | none => exact settings_refresh h
  | some fields =>
    rw [commit] at h
    split at h
    · cases h
      rfl
    · exact settings_refresh h

theorem settings_finish (cache : Cache κ) (read : Read κ) (supply : Supply κ) :
    (cache.finish read supply).cache.settings = cache.settings := by
  rw [finish]
  split
  · rfl
  · rfl
  · split
    · rfl
    · rename_i hcommit
      exact settings_commit hcommit

end Settings

section Clearing

variable {P : Cache κ → Prop}
  (hdrop : ∀ cache entries, P cache → List.Sublist entries cache.entries →
    P { cache with entries })
  (hunload : ∀ cache id entry fields, P cache → Assoc.find? id cache.entries = some entry →
    (entry.clearFields fields).held.isEmpty = false →
      P { cache with entries := Assoc.insert id (entry.clearFields fields) cache.entries })

omit [Catalog κ] [DecidableEq κ] in
/-- What every single change keeps, a change for several ids keeps. -/
theorem countEach_induction {change : Cache κ → Nat → Bool × Cache κ}
    (hchange : ∀ cache id, P cache → P (change cache id).2) {cache : Cache κ} (h : P cache)
    (ids : List Nat) : P (countEach change cache ids).2 := by
  have hstate : P ((0, cache) : Nat × Cache κ).2 := h
  unfold countEach
  generalize ((0, cache) : Nat × Cache κ) = state at hstate ⊢
  induction ids generalizing state with
  | nil => exact hstate
  | cons id rest ih => exact ih _ (hchange state.2 id hstate)

include hdrop hunload

omit [DecidableEq κ] in
theorem clearFields_induction {cache : Cache κ} (h : P cache) (id : Nat) (fields : FieldSet) :
    P (cache.clearFields id fields).2 := by
  rw [clearFields]
  split
  · exact h
  · rename_i entry hfind
    simp only
    split
    · exact hdrop cache _ h List.filter_sublist
    · rename_i hheld
      exact hunload cache id entry fields h hfind (Bool.eq_false_iff.2 hheld)

omit [DecidableEq κ] in
/-- A clearing drops entries and unloads fields of others, and keeps what both of these keep. -/
theorem Clearing.induction {cache : Cache κ} (h : P cache) (clearing : Clearing κ) :
    P (clearing.apply cache) := by
  have hfields : ∀ ids fields, P (cache.clearIdsFields ids fields).2 :=
    fun ids fields => countEach_induction (P := P)
      (fun next id hnext => clearFields_induction hdrop hunload hnext id fields) h ids
  have hids : ∀ ids, P (cache.clearIds ids).2 :=
    fun ids => countEach_induction (P := P)
      (fun next _ hnext => hdrop next _ hnext List.filter_sublist) h ids
  cases clearing with
  | all => exact hdrop cache [] h (List.nil_sublist _)
  | one | entity | matching => exact hdrop cache _ h List.filter_sublist
  | ids ids => exact hids ids
  | entities entities => exact hids _
  | fields id fields => exact clearFields_induction hdrop hunload h id fields
  | idsFields ids fields => exact hfields ids fields
  | entitiesFields entities fields => exact hfields _ fields
  | matchingFields matching fields => exact hfields _ fields

end Clearing

omit [DecidableEq κ] in
theorem settings_clearing (cache : Cache κ) (clearing : Clearing κ) :
    (clearing.apply cache).settings = cache.settings :=
  Clearing.induction (P := fun next => next.settings = cache.settings)
    (fun _ _ h _ => h) (fun _ _ _ _ h _ _ => h) rfl clearing

/-- Nothing that is done with a cache changes its settings. -/
theorem Run.settings_eq {given : Entity κ → Prop} {answers : Resolver κ → Prop}
    {empty cache : Cache κ} {reads : List (Read κ)} (hrun : Run given answers empty cache reads) :
    cache.settings = empty.settings := by
  induction hrun with
  | empty => rfl
  | start _ _ _ _ ih => exact ih
  | finish _ _ _ ih => exact (settings_finish ..).trans ih
  | put _ _ hput ih => exact (settings_put hput).trans ih
  | merge _ _ hmerge ih => exact (settings_refresh hmerge).trans ih
  | clear _ clearing ih => exact (settings_clearing _ clearing).trans ih

section Settings

variable {given : Entity κ → Prop} {answers : Resolver κ → Prop} {empty cache : Cache κ}
  {reads : List (Read κ)}

theorem Run.kind_eq (hrun : Run given answers empty cache reads) : cache.kind = empty.kind :=
  congrArg Prod.fst hrun.settings_eq

theorem Run.cacheable_eq (hrun : Run given answers empty cache reads) :
    cache.cacheable = empty.cacheable :=
  congrArg (·.2.1) hrun.settings_eq

theorem Run.precached_eq (hrun : Run given answers empty cache reads) :
    cache.precached = empty.precached :=
  congrArg (·.2.2) hrun.settings_eq

end Settings

/-! ## Stored entities -/

/-- Whether every stored entity has a property under its id. -/
def Stores (P : Nat → Entity κ → Prop) (cache : Cache κ) : Prop :=
  ∀ id entry, (id, entry) ∈ cache.entries → P id entry

section Stores

variable {P : Nat → Entity κ → Prop} {cache next : Cache κ}

omit [DecidableEq κ] [Catalog κ]

theorem Stores.of_find? (h : cache.Stores P) {id : Nat} {entry : Entity κ}
    (hfind : Assoc.find? id cache.entries = some entry) : P id entry :=
  h id entry (Assoc.mem_of_find? hfind)

theorem Stores.insert (h : cache.Stores P) {id : Nat} {entry : Entity κ} (hentry : P id entry) :
    Stores P { cache with entries := Assoc.insert id entry cache.entries } := by
  intro other stored hmem
  rcases Assoc.mem_alter hmem with hmem | heq
  · exact h other stored hmem
  · cases heq
    exact hentry

theorem Stores.sublist (h : cache.Stores P) {entries : List (Nat × Entity κ)}
    (hsublist : entries.Sublist cache.entries) : Stores P { cache with entries } :=
  fun id entry hmem => h id entry (hsublist.subset hmem)

/-- A clearing keeps what unloading fields keeps, as long as some field stays loaded. -/
theorem Stores.clearing [Catalog κ]
    (hclear : ∀ id entry fields, P id entry → (entry.clearFields fields).held.isEmpty = false →
      P id (entry.clearFields fields))
    (h : cache.Stores P) (clearing : Clearing κ) : Stores P (clearing.apply cache) := by
  refine Clearing.induction (P := Stores P)
    (fun cache entries hstores hsublist => Stores.sublist hstores hsublist)
    (fun cache id entry fields hstores hfind hheld => ?_) h clearing
  exact Stores.insert hstores (hclear id entry fields (hstores.of_find? hfind) hheld)

end Stores

section Write

variable {P : Nat → Entity κ → Prop} {cache next : Cache κ} {value : Entity κ}

theorem Stores.put (h : cache.Stores P)
    (hproject : ∀ projection, cache.project value = .ok (some projection) → P value.id projection)
    (hput : cache.put value = .ok next) : next.Stores P := by
  rcases put_cases hput with rfl | ⟨projection, hprojection, rfl⟩
  · exact h
  · exact h.insert (hproject projection hprojection)

/-- What is true of all entries stays true when a value is merged, if it holds of what is merged in
and of the result. -/
theorem Stores.refresh (h : cache.Stores P)
    (hproject : ∀ projection, cache.project value = .ok (some projection) → P value.id projection)
    (hmerge : ∀ entry projection, P value.id entry →
      cache.project value = .ok (some projection) → P value.id (entry.pullAll projection))
    {events : List (Event κ)} (hrefresh : cache.refresh value = .ok (next, events)) :
    next.Stores P := by
  rcases refresh_cases hrefresh with rfl | ⟨projection, entry, hprojection, hentry, rfl⟩
  · exact h
  · rcases hentry with rfl | ⟨stored, hfind, rfl⟩
    · exact h.insert (hproject entry hprojection)
    · exact h.insert (hmerge stored projection (h.of_find? hfind) hprojection)

/-- A read that commits what it was supplied with gives it narrowed; a read that commits nothing
gives no value and leaves the cache as it was. -/
theorem finish_cases (cache : Cache κ) (read : Read κ) (supply : Supply κ) :
    ((cache.finish read supply).cache = cache ∧
        ∀ value, (cache.finish read supply).value ≠ .ok (some value)) ∨
      ∃ value next events, supply.value = .ok (some value) ∧
        cache.commit (read.snapshot.map (·.held)) value = .ok (next, events) ∧
          (cache.finish read supply).cache = next ∧
            (cache.finish read supply).value = (Entity.intersect read.graph value).2.map fun _ =>
              some (Entity.intersect read.graph value).1 := by
  rw [finish]
  split
  · exact .inl ⟨rfl, nofun⟩
  · exact .inl ⟨rfl, nofun⟩
  · rename_i value hsupply
    split
    · exact .inl ⟨rfl, nofun⟩
    · rename_i next events hcommit
      exact .inr ⟨value, next, events, hsupply, hcommit, rfl, rfl⟩

/-- What is committed is merged, unless the copy that the read has taken held all of it. -/
theorem commit_cases {copied : Option FieldSet} {events : List (Event κ)}
    (hcommit : cache.commit copied value = .ok (next, events)) :
    cache.refresh value = .ok (next, events) ∨
      next = cache ∧ ∃ fields, copied = some fields ∧
        ∀ field, value.hasField field = true → cache.cacheable.contains field = true →
          fields.contains field = true := by
  cases copied with
  | none => exact .inl hcommit
  | some fields =>
    rw [commit] at hcommit
    split at hcommit
    · rename_i hsubset
      cases hcommit
      refine .inr ⟨rfl, fields, rfl, fun field hheld hfield => ?_⟩
      apply FieldSet.isSubset_iff.1 hsubset
      rw [FieldSet.contains_inter, hfield, Bool.and_true]
      exact hheld
    · exact .inl hcommit

/-- A read changes the cache as a merge of the value that was supplied to it, or not at all. -/
theorem Stores.finish (h : cache.Stores P) {read : Read κ} {supply : Supply κ}
    (hrefresh : ∀ value, supply.value = .ok (some value) → ∀ next events,
      cache.refresh value = .ok (next, events) → next.Stores P) :
    (cache.finish read supply).cache.Stores P := by
  rcases finish_cases cache read supply with
    ⟨heq, -⟩ | ⟨value, next, events, hvalue, hcommit, heq, -⟩
  · rwa [heq]
  · rw [heq]
    rcases commit_cases hcommit with hmerge | ⟨rfl, -⟩
    · exact hrefresh value hvalue next events hmerge
    · exact h

end Write

end PartialEntity.Cache
