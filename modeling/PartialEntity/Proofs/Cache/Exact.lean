import PartialEntity.Proofs.Cache.Typing

/-!
# Cached reads are exact and fail cleanly

Over regular fields a read asks its resolver for what the cache cannot serve, once and for nothing
else.  If it gives a value, the value has exactly the fields of the graph loaded, at every depth,
however little or much was answered.  If it gives none, because the resolver or a check on its
answer has failed or because there is no entity, the cache stays as it was.
-/

namespace PartialEntity

namespace Entity

variable {κ : Type} [DecidableEq κ] [Catalog κ] {entity : Entity κ} {graph missing : Graph κ}

/-- An attempt to extend asks for what is missing, if anything is. -/
theorem asked_extend_eq_some_iff {resolve : Graph κ → Except Error (Option (Entity κ))} :
    (entity.extend graph resolve).asked = some missing ↔
      missingGraph graph entity = .ok missing ∧ missing.isEmpty = false := by
  rw [extend]
  cases missingGraph graph entity with
  | error stop => simp
  | ok gap =>
    by_cases hempty : gap.isEmpty = true
    · simp only [hempty, if_true, Except.ok.injEq]
      constructor
      · intro hasked
        cases hasked
      · rintro ⟨rfl, hgap⟩
        rw [hempty] at hgap
        cases hgap
    · simp only [hempty, Bool.false_eq_true, if_false, Option.some.injEq, Except.ok.injEq]
      refine ⟨?_, And.left⟩
      rintro rfl
      exact ⟨rfl, Bool.eq_false_iff.2 hempty⟩

/-- An attempt to extend depends on the answer to what it asks for only. -/
theorem extend_congr {left right : Graph κ → Except Error (Option (Entity κ))}
    (h : ∀ asked, (entity.extend graph left).asked = some asked → right asked = left asked) :
    entity.extend graph right = entity.extend graph left := by
  rw [extend] at h
  rw [extend, extend]
  cases hmissing : missingGraph graph entity with
  | error stop => rfl
  | ok missing =>
    rw [hmissing] at h
    by_cases hempty : missing.isEmpty = true
    · simp only [hempty, if_true]
    · simp only [hempty, Bool.false_eq_true, if_false] at h ⊢
      rw [h missing rfl]

end Entity

namespace Cache

open Entity

variable {κ : Type} [Catalog κ] [DecidableEq κ] {cache : Cache κ} {kind : κ} {id : Nat}
  {graph : Graph κ} {resolver : Resolver κ} {arrival : Arrival} {value : Entity κ}

/-! ## What is asked for -/

theorem asked_finish (cache : Cache κ) (read : Read κ) (supply : Supply κ) :
    (cache.finish read supply).asked = supply.asked := by
  rw [finish]
  split
  · rfl
  · rfl
  · split <;> rfl

/-- A read of an id that is not stored asks for the whole request. -/
theorem asked_get_of_miss (hcached : cache.cached id = none) :
    (cache.get arrival id graph resolver).asked = some (cache.request graph) := by
  rw [get, asked_finish, Read.supply]
  simp only [start, hcached]

/-- A read of an id that is stored asks for what the copy is missing of the request, if anything
is. -/
theorem asked_get_of_hit {copy : Entity κ} (hcached : cache.cached id = some copy)
    {missing : Graph κ} :
    (cache.get arrival id graph resolver).asked = some missing ↔
      missingGraph (cache.request graph) copy = .ok missing ∧ missing.isEmpty = false := by
  have hsnapshot : (cache.start id graph).snapshot = some copy := hcached
  rw [get, asked_finish, supply_of_snapshot hsnapshot]
  exact asked_extend_eq_some_iff

/-- A read asks for the whole request on a miss, and for what the copy is missing on a hit. -/
theorem asked_get_of_eq_some {asked : Graph κ}
    (hasked : (cache.get arrival id graph resolver).asked = some asked) :
    match cache.cached id with
    | none => asked = cache.request graph
    | some copy => missingGraph (cache.request graph) copy = .ok asked := by
  cases hcached : cache.cached id with
  | none =>
    rw [asked_get_of_miss hcached] at hasked
    exact (Option.some.inj hasked).symm
  | some copy => exact ((asked_get_of_hit hcached).1 hasked).1

/-- Nothing is asked for exactly when what is stored has the whole request. -/
theorem asked_get_eq_none_iff
    (hmissing : ∀ copy, cache.cached id = some copy →
      ∃ missing, missingGraph (cache.request graph) copy = .ok missing) :
    (cache.get arrival id graph resolver).asked = none ↔
      ∃ copy, cache.cached id = some copy ∧ copy.hasGraph (cache.request graph) = .ok true := by
  cases hcached : cache.cached id with
  | none =>
    rw [asked_get_of_miss hcached]
    exact iff_of_false nofun fun ⟨copy, hcopy, _⟩ => nomatch hcopy
  | some copy =>
    obtain ⟨missing, hgap⟩ := hmissing copy hcached
    have hhas : copy.hasGraph (cache.request graph) = .ok missing.isEmpty := by
      rw [hasGraph, hgap]
      rfl
    rw [Option.eq_none_iff_forall_ne_some]
    simp only [ne_eq, asked_get_of_hit hcached, hgap, Except.ok.injEq, Option.some.injEq,
      exists_eq_left', hhas, not_and, forall_eq', Bool.not_eq_false]

/-- A read depends on the answer to what it asks for only. -/
theorem get_congr (hid : ∀ copy, cache.cached id = some copy → copy.id = id)
    {other : Resolver κ} (h : ∀ asked, (cache.get arrival id graph resolver).asked = some asked →
      other id asked = resolver id asked) :
    cache.get arrival id graph other = cache.get arrival id graph resolver := by
  suffices hsupply : (cache.start id graph).supply arrival other =
      (cache.start id graph).supply arrival resolver by
    rw [get, get, hsupply]
  cases hcached : cache.cached id with
  | none =>
    have hsame := h _ (asked_get_of_miss hcached)
    simp only [Read.supply, start, hcached, hsame]
  | some copy =>
    have hsnapshot : (cache.start id graph).snapshot = some copy := hcached
    have hsame := hid copy hcached
    rw [get, asked_finish, supply_of_snapshot hsnapshot] at h
    rw [supply_of_snapshot hsnapshot, supply_of_snapshot hsnapshot]
    have hextend : copy.extendFrom (cache.start id graph).request other =
        copy.extendFrom (cache.start id graph).request resolver := by
      refine extend_congr fun asked hasked => ?_
      rw [hsame, h asked hasked]
    rw [hextend]

/-! ## What comes of it -/

/-- A read that gives no value although any could be narrowed has stored nothing. -/
theorem cache_finish_of_not_value {read : Read κ} {supply : Supply κ}
    (hnarrow : ∀ value, supply.value = .ok (some value) → (intersect read.graph value).2 = .ok ())
    (hvalue : ∀ value, (cache.finish read supply).value ≠ .ok (some value)) :
    (cache.finish read supply).cache = cache := by
  rcases finish_cases cache read supply with ⟨heq, -⟩ | ⟨value, _, _, hsupply, -, -, heq⟩
  · exact heq
  · rw [hnarrow value hsupply] at heq
    exact absurd heq (hvalue _)

/-- The value of a read is what it was supplied with, narrowed. -/
theorem exists_of_value_finish {read : Read κ} {supply : Supply κ} {narrowed : Entity κ}
    (hvalue : (cache.finish read supply).value = .ok (some narrowed)) :
    ∃ value, supply.value = .ok (some value) ∧ (intersect read.graph value).1 = narrowed := by
  rcases finish_cases cache read supply with ⟨-, hnone⟩ | ⟨value, _, _, hsupply, -, -, heq⟩
  · exact absurd hvalue (hnone narrowed)
  · rw [hvalue] at heq
    obtain ⟨_, -, hnarrowed⟩ := Result.map_eq_ok_iff.1 heq.symm
    exact ⟨value, hsupply, Option.some.inj hnarrowed⟩

/-! ## Reads -/

/-- Over regular fields, a read asks for what the cache cannot serve, once and for nothing else; if
it gives no value the cache stays as it was, and if it gives one, exactly the graph is loaded. -/
theorem get_exact {cacheable precached : FieldSet} {empty : Cache κ}
    (hbuild : build kind cacheable precached = .ok empty) {reads : List (Read κ)}
    (hrun : Run (WellTyped kind) (WellTypedAnswers kind) empty cache reads)
    (hgraph : graph.WellFormed) (hkind : graph.kind = kind)
    (hregular : ∀ path, graph.selects path = true → Catalog.OnPath Catalog.Regular kind path)
    (hresolver : WellTypedAnswers kind resolver) (arrival : Arrival) (id : Nat) :
    (∀ path, (cache.request graph).selects path = true ↔
        graph.selects path = true ∨ ∃ field, precached.contains field = true ∧ path = [field]) ∧
      ((cache.get arrival id graph resolver).asked = none ↔
        ∃ copy, cache.cached id = some copy ∧ copy.hasGraph (cache.request graph) = .ok true) ∧
      (∀ asked, (cache.get arrival id graph resolver).asked = some asked →
        match cache.cached id with
        | none => asked = cache.request graph
        | some copy => missingGraph (cache.request graph) copy = .ok asked) ∧
      (∀ other : Resolver κ, (∀ asked, (cache.get arrival id graph resolver).asked = some asked →
          other id asked = resolver id asked) →
        cache.get arrival id graph other = cache.get arrival id graph resolver) ∧
      ((∀ value, (cache.get arrival id graph resolver).value ≠ .ok (some value)) →
        (cache.get arrival id graph resolver).cache = cache) ∧
      ∀ value, (cache.get arrival id graph resolver).value = .ok (some value) ∨
          cache.resolver resolver id graph = .ok (some value) →
        LoadedExactly graph.selects value := by
  have hempty := build_eq_ok hbuild
  obtain rfl : empty.kind = kind := congrArg Cache.kind hempty
  have hentries : empty.entries = [] := congrArg entries hempty
  have hprecached : cache.precached = precached :=
    hrun.precached_eq.trans (congrArg Cache.precached hempty)
  obtain ⟨⟨hrequest, hrequestKind⟩, hcopy⟩ := hrun.started hentries rfl id hgraph hkind
  have hmissing : ∀ copy, cache.cached id = some copy →
      ∃ missing, missingGraph (cache.request graph) copy = .ok missing := by
    intro copy hcached
    have htyped := (hcopy copy hcached).1
    refine exists_missingGraph hrequest (hrequestKind.trans htyped.kind_eq.symm) htyped.fits ?_
    rw [hrequestKind]
    exact forall_selects_request cache (fun path hpath => (hregular path hpath).dropLast)
      fun _ _ => trivial
  have hsupply : ∀ arrival value, ((cache.start id graph).supply arrival resolver).value =
      .ok (some value) → WellTyped empty.kind value ∧
        ∀ path, (cache.request graph).selects path = true → value.Carries path :=
    fun arrival value hvalue => wellTyped_supply hrequest hrequestKind
      (fun copy hcached => (hcopy copy hcached).1) hresolver hvalue
  refine ⟨hprecached ▸ fun _ => selects_request_iff cache, asked_get_eq_none_iff hmissing,
    fun asked hasked => asked_get_of_eq_some hasked, fun other h =>
      get_congr (fun copy hcached => (hcopy copy hcached).2) h, ?_, ?_⟩
  · exact cache_finish_of_not_value fun value hvalue =>
      intersect_ok (hsupply arrival value hvalue).1 hregular
  · have hgiven : ∀ arrival value, (cache.get arrival id graph resolver).value = .ok (some value) →
        LoadedExactly graph.selects value := by
      intro arrival value hvalue
      obtain ⟨fetched, hfetched, rfl⟩ := exists_of_value_finish hvalue
      obtain ⟨htyped, hcarries⟩ := hsupply arrival fetched hfetched
      exact loadedExactly_intersect hgraph htyped hregular fun path hpath =>
        hcarries path ((selects_request_iff cache).2 (.inl hpath))
    intro value hvalue
    rcases hvalue with hvalue | hvalue
    · exact hgiven arrival value hvalue
    · exact hgiven .immediate value hvalue

open Harbor

def mooring (entries : List (Nat × Entity Kind)) : Cache Kind :=
  ⟨.person, .ofList [1, 3], .ofList [1], entries⟩

def annMoored : Entity Kind :=
  ((ofId .person 1).assign 1 (text "Ann")).assign 3 (.option (some (.leaf (ofId .boat 10))))

/-- Ann's name and boat are stored, and all there is to know of her is answered. -/
theorem get_exact_annMoored :
    ((mooring [(1, annMoored)]).get .deferred 1 crewList fun _ _ =>
        .ok (some Samples.ann)).asked.map Graph.toList = some [2, 3] ∧
      ∃ value, ((mooring [(1, annMoored)]).get .deferred 1 crewList fun _ _ =>
          .ok (some Samples.ann)).value = .ok (some value) ∧
        LoadedExactly crewList.selects value := by
  have hbuild : build Kind.person (.ofList [1, 3]) (.ofList [1]) = .ok (mooring []) := rfl
  have hput : (mooring []).put Samples.ann = .ok (mooring [(1, annMoored)]) := rfl
  have hann : WellTyped Kind.person Samples.ann := wellTyped_of_isRecord Samples.isRecord_ann
  have hresolver : WellTypedAnswers Kind.person fun _ _ => .ok (some Samples.ann) := by
    rintro _ _ _ ⟨⟩
    exact hann
  have hashore : Kind.person.Ashore := trivial
  have hexact := get_exact hbuild (.put .empty hann hput) wellFormed_crewList rfl
    (fun path _ => onPath_regular hashore path) hresolver .deferred 1
  exact ⟨rfl, _, rfl, hexact.2.2.2.2.2 _ (.inl rfl)⟩

end Cache

end PartialEntity
