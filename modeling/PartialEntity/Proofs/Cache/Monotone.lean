import PartialEntity.Proofs.Cache.Entries
import PartialEntity.Proofs.Cache.Exact
import PartialEntity.Proofs.Cache.WriteBack
import PartialEntity.Proofs.Entity.Merge

/-!
# What is stored is not fetched again

Reads and merges only add to what a cache stores.  Once a cacheable field of an id was read or
merged, it is stored, and no later read asks for it again; a read can at most ask for fields of its
members, through a subgraph that it attaches to the field.  So the scalars that can be stored are
fetched by one successful read at most.
-/

namespace PartialEntity

namespace Cache

open Entity

variable {κ : Type} [Catalog κ]

/-- Whether every answer of a resolver is of a kind and carries the id asked for. -/
def Faithful (kind : κ) (resolver : Resolver κ) : Prop :=
  ∀ id graph value, resolver id graph = .ok (some value) → WellTyped kind value ∧ value.id = id

/-- Whether an action is a read or a merge over a kind.  Entities that were modified are merged. -/
def Action.Adds (kind : κ) : Action κ → Prop
  | .get _ _ graph resolver => (graph.WellFormed ∧ graph.kind = kind) ∧ Faithful kind resolver
  | .merge value => WellTyped kind value
  | .start .. | .finish .. | .put _ | .clear _ => False

variable [DecidableEq κ]

/-- Whether an action brings a field of an id into a cache: it is a read that gives a value and asks
for the field or fetches it along with every read, or a merge of a value that holds it. -/
def Action.Brings (cache : Cache κ) (id field : Nat) : Action κ → Prop
  | .get arrival other graph resolver => other = id ∧
      (graph.contains field = true ∨ cache.precached.contains field = true) ∧
        ∃ value, (cache.get arrival other graph resolver).value = .ok (some value)
  | .merge value => value.id = id ∧ value.hasField field = true ∧
      ∃ result, cache.refresh value = .ok result
  | .start .. | .finish .. | .put _ | .clear _ => False

def Action.fetches (cache : Cache κ) (id field : Nat) : Action κ → Bool
  | .get arrival other graph resolver =>
    let outcome := cache.get arrival other graph resolver
    other == id && outcome.asked.any (·.contains field) &&
      match outcome.value with
      | .ok (some _) => true
      | _ => false
  | _ => false

def countFetches (id field : Nat) (cache : Cache κ) (reads : List (Read κ)) :
    List (Action κ) → Nat
  | [] => 0
  | action :: rest =>
    (if action.fetches cache id field then 1 else 0) +
      countFetches id field (action.apply cache reads).1 (action.apply cache reads).2 rest

variable {empty cache next : Cache κ} {reads : List (Read κ)} {kind : κ} {id field : Nat}
  {value : Entity κ} {graph : Graph κ} {resolver : Resolver κ} {arrival : Arrival}

/-! ## What is stored -/

omit [DecidableEq κ] in
/-- A field is stored when the copy that a read takes holds it. -/
theorem stored_isSome_iff (cache : Cache κ) (id field : Nat) :
    (cache.stored id field).isSome = true ↔
      ∃ copy, cache.cached id = some copy ∧ copy.hasField field = true := by
  rw [stored, cached]
  cases hfind : Assoc.find? id cache.entries with
  | none => simp
  | some entry =>
    have hheld : entry.cloneAll.hasField field = entry.hasField field := by
      rw [cloneAll_eq]
      rfl
    simp only [Option.bind_some, Option.map_some, Option.some.injEq, exists_eq_left', hheld]
    cases entry.hasField field with
    | false => simp
    | true => simp

/-- Merging keeps what is stored and stores the cacheable fields of the value. -/
theorem stored_refresh_isSome (hcache : cache.Stores (Storable cache.settings))
    (hvalue : WellTyped cache.kind value) {events : List (Event κ)}
    (hrefresh : cache.refresh value = .ok (next, events)) :
    (∀ id field, (cache.stored id field).isSome = true → (next.stored id field).isSome = true) ∧
      ∀ field, value.hasField field = true → cache.cacheable.contains field = true →
        (next.stored value.id field).isSome = true := by
  obtain ⟨projected, hproject, hwrite⟩ := Result.bind_eq_ok_iff.1 hrefresh
  cases projected with
  | none =>
    cases hwrite
    refine ⟨fun _ _ h => h, fun field hheld hfield => ?_⟩
    have hboth : (value.held.inter cache.cacheable).contains field = true := by
      rw [FieldSet.contains_inter, hfield, Bool.and_true]
      exact hheld
    rw [FieldSet.isEmpty_iff.1 (project_eq_none_iff.1 hproject)] at hboth
    cases hboth
  | some projection =>
    have hplain := hvalue.fits.self.plainFields
    have hstored := stored_refresh hcache hvalue.kind_eq hplain hproject hrefresh
    have hcopy := isFlatCopy_of_project hplain hproject
    constructor
    · intro id field hold
      rw [hstored]
      split
      · rfl
      · exact hold
    · intro field hheld hfield
      have hboth : projection.hasField field = true := by
        rw [hcopy.hasField, FieldSet.contains_inter, hfield, Bool.and_true]
        exact hheld
      rw [hstored, if_pos ⟨rfl, hboth⟩]
      rfl

section Step

variable (hempty : empty.entries = []) (hkind : empty.kind = kind)
  (hrun : Run (WellTyped kind) (WellTypedAnswers kind) empty cache reads)

include hempty hkind hrun

/-- What a read is supplied with that asks a faithful resolver: an entity of its id that carries
what is requested. -/
theorem exact_supply (hgraph : graph.WellFormed) (hgraphKind : graph.kind = kind)
    (hresolver : Faithful kind resolver)
    (hvalue : ((cache.start id graph).supply arrival resolver).value = .ok (some value)) :
    (WellTyped kind value ∧ value.id = id) ∧
      ∀ path, (cache.request graph).selects path = true → value.Carries path := by
  obtain ⟨⟨hrequest, hrequestKind⟩, hcopies⟩ :=
    hrun.started hempty hkind id hgraph hgraphKind
  obtain ⟨htyped, hcarries⟩ := wellTyped_supply hrequest hrequestKind
    (fun copy hcopy => (hcopies copy hcopy).1)
    (fun id graph answer hanswer => (hresolver id graph answer hanswer).1) hvalue
  refine ⟨⟨htyped, ?_⟩, hcarries⟩
  cases hcopy : (cache.start id graph).snapshot with
  | none =>
    exact (hresolver _ _ _ ((value_supply_of_miss hcopy).1 hvalue).1).2
  | some copy =>
    have hid : copy.id = id := (hcopies copy hcopy).2
    rw [supply_of_snapshot hcopy] at hvalue
    obtain ⟨done, -, heq⟩ := Result.map_eq_ok_iff.1 hvalue
    cases heq
    refine (id_extend fun asked extension hanswer => ?_).trans hid
    exact (hresolver _ _ _ (present_iff.1 hanswer)).2

/-- A read keeps what is stored, and if it gives a value it stores the cacheable fields among those
of its graph and the precached ones. -/
theorem stored_get_isSome (hgraph : graph.WellFormed) (hgraphKind : graph.kind = kind)
    (hresolver : Faithful kind resolver) :
    (∀ other field, (cache.stored other field).isSome = true →
        ((cache.get arrival id graph resolver).cache.stored other field).isSome = true) ∧
      ((∃ value, (cache.get arrival id graph resolver).value = .ok (some value)) →
        ∀ field, graph.contains field = true ∨ cache.precached.contains field = true →
          cache.cacheable.contains field = true →
            ((cache.get arrival id graph resolver).cache.stored id field).isSome = true) := by
  have hsame : cache.kind = kind := hrun.kind_eq.trans hkind
  have hstores := hrun.stores_storable hempty hkind
  rw [get]
  rcases finish_cases cache (cache.start id graph)
    ((cache.start id graph).supply arrival resolver) with
    ⟨heq, hnone⟩ | ⟨value, next, events, hsupply, hcommit, heq, -⟩
  · rw [heq]
    refine ⟨fun _ _ h => h, ?_⟩
    rintro ⟨value, hvalue⟩
    exact absurd hvalue (hnone value)
  · obtain ⟨⟨htyped, hid⟩, hcarries⟩ :=
      exact_supply hempty hkind hrun hgraph hgraphKind hresolver hsupply
    have hheld : ∀ field, graph.contains field = true ∨ cache.precached.contains field = true →
        value.hasField field = true :=
      fun field hfield =>
        (hcarries [field] (Graph.contains_iff.1 ((contains_request_iff cache).2 hfield))).1
    rw [heq]
    rcases commit_cases hcommit with hrefresh | ⟨rfl, fields, hcopied, hsubset⟩
    · rw [← hsame] at htyped
      obtain ⟨hkept, hadded⟩ := stored_refresh_isSome hstores htyped hrefresh
      rw [hid] at hadded
      exact ⟨hkept, fun _ field hfield hcacheable => hadded field (hheld field hfield) hcacheable⟩
    · refine ⟨fun _ _ h => h, fun _ field hfield hcacheable => ?_⟩
      obtain ⟨copy, hcopy, rfl⟩ := Option.map_eq_some_iff.1 hcopied
      exact (stored_isSome_iff next id field).2
        ⟨copy, hcopy, hsubset field (hheld field hfield) hcacheable⟩

/-- A read or merge leads on, keeps what is stored and stores what it brings. -/
theorem stored_add {action : Action κ} (haction : action.Adds kind) :
    Run (WellTyped kind) (WellTypedAnswers kind) empty (action.apply cache reads).1
        (action.apply cache reads).2 ∧
      (∀ id field, (cache.stored id field).isSome = true →
        ((action.apply cache reads).1.stored id field).isSome = true) ∧
      ∀ id field, action.Brings cache id field → cache.cacheable.contains field = true →
        ((action.apply cache reads).1.stored id field).isSome = true := by
  have hsame : cache.kind = kind := hrun.kind_eq.trans hkind
  cases action with
  | get arrival id graph resolver =>
    obtain ⟨⟨hgraph, hgraphKind⟩, hresolver⟩ := haction
    obtain ⟨hkept, hadded⟩ := stored_get_isSome hempty hkind hrun hgraph hgraphKind hresolver
    have hstarted := hrun.start id hgraph (hgraphKind.trans hsame.symm)
    rw [← List.nil_append (_ :: reads)] at hstarted
    refine ⟨hstarted.finish arrival fun id graph answer hanswer =>
      (hresolver id graph answer hanswer).1, hkept, ?_⟩
    rintro _ field ⟨rfl, hfield, hvalue⟩ hcacheable
    exact hadded hvalue field hfield hcacheable
  | merge value =>
    rw [Action.apply]
    cases hmerge : cache.refresh value with
    | error stop =>
      refine ⟨hrun, fun _ _ h => h, ?_⟩
      rintro _ field ⟨rfl, -, result, hresult⟩
      rw [hmerge] at hresult
      cases hresult
    | ok result =>
      obtain ⟨next, events⟩ := result
      obtain ⟨hkept, hadded⟩ := stored_refresh_isSome (hrun.stores_storable hempty hkind)
        (hsame.symm ▸ haction) hmerge
      refine ⟨hrun.merge haction hmerge, hkept, ?_⟩
      rintro _ field ⟨rfl, hheld, -⟩ hcacheable
      exact hadded field hheld hcacheable
  | start | finish | put | clear => exact haction.elim

theorem stored_perform {actions : List (Action κ)}
    (hactions : ∀ action ∈ actions, action.Adds kind) :
    Run (WellTyped kind) (WellTypedAnswers kind) empty (cache.perform reads actions).1
        (cache.perform reads actions).2 ∧
      ∀ id field, (cache.stored id field).isSome = true →
        ((cache.perform reads actions).1.stored id field).isSome = true := by
  induction actions generalizing cache reads with
  | nil => exact ⟨hrun, fun _ _ h => h⟩
  | cons action rest ih =>
    rw [List.forall_mem_cons] at hactions
    obtain ⟨hnext, hkept, -⟩ := stored_add hempty hkind hrun hactions.1
    obtain ⟨hlast, hkeeps⟩ := ih hnext hactions.2
    exact ⟨hlast, fun id field h => hkeeps id field (hkept id field h)⟩

/-- If a field that is stored is asked for, then for the sake of its members, through a subgraph. -/
theorem exists_of_asked_stored (hgraph : graph.WellFormed) (hgraphKind : graph.kind = kind)
    (hstored : (cache.stored id field).isSome = true) {asked : Graph κ}
    (hasked : (cache.get arrival id graph resolver).asked = some asked)
    (hfield : asked.contains field = true) :
    graph.hasSubgraph field = true ∧
      ∃ member shape, Catalog.content? kind field = some (.nested member shape) := by
  obtain ⟨⟨hrequest, hrequestKind⟩, hcopies⟩ :=
    hrun.started hempty hkind id hgraph hgraphKind
  obtain ⟨copy, hcached, hheld⟩ := (stored_isSome_iff cache id field).1 hstored
  have htyped : WellTyped kind copy := (hcopies copy hcached).1
  have hspec := missingGraph_spec hrequest (hrequestKind.trans htyped.kind_eq.symm) htyped.fits
    ((asked_get_of_hit hcached).1 hasked).1
  obtain ⟨-, rest, hselects, hlacks⟩ := (hspec.selects [field]).1 (Graph.contains_iff.1 hfield)
  obtain ⟨member, hmember, hbelow⟩ := Lacks.of_hasField hheld hlacks
  refine ⟨?_, exists_content_of_mem_leaves htyped hmember⟩
  have hrest : rest ≠ [] := by
    rintro rfl
    exact hbelow
  have hpath : graph.selects (field :: rest) = true := by
    rcases (selects_request_iff cache).1 hselects with hpath | ⟨other, -, heq⟩
    · exact hpath
    · exact absurd (List.cons.inj heq).2 hrest
  obtain ⟨inner, hentry, hinner⟩ := Graph.exists_attached_of_selects hpath hrest
  rw [Graph.hasSubgraph, hgraph.attached?_eq_some_iff.2 hentry, Option.any_some,
    Graph.isEmpty_eq_false_of_selects hinner]
  rfl

/-- A field that a read asks its resolver for is one of its graph or a precached one. -/
theorem contains_of_asked (hgraph : graph.WellFormed) (hgraphKind : graph.kind = kind)
    {asked : Graph κ} (hasked : (cache.get arrival id graph resolver).asked = some asked)
    (hfield : asked.contains field = true) :
    graph.contains field = true ∨ cache.precached.contains field = true := by
  rw [← contains_request_iff cache]
  obtain ⟨⟨hrequest, hrequestKind⟩, hcopies⟩ :=
    hrun.started hempty hkind id hgraph hgraphKind
  have hgap := asked_get_of_eq_some hasked
  cases hcached : cache.cached id with
  | none =>
    rw [hcached] at hgap
    rwa [← hgap]
  | some copy =>
    rw [hcached] at hgap
    have htyped := (hcopies copy hcached).1
    have hspec := missingGraph_spec hrequest (hrequestKind.trans htyped.kind_eq.symm) htyped.fits
      hgap
    obtain ⟨-, rest, hselects, -⟩ := (hspec.selects [field]).1 (Graph.contains_iff.1 hfield)
    exact Graph.contains_iff.2 (Graph.closed_selects _ [field] rest (by simp) hselects)

/-! ## Fetches -/

omit hempty hkind hrun in
theorem fetches_get_iff {other : Nat} :
    (Action.get arrival other graph resolver).fetches cache id field = true ↔
      other = id ∧ (∃ asked, (cache.get arrival other graph resolver).asked = some asked ∧
        asked.contains field = true) ∧
          ∃ value, (cache.get arrival other graph resolver).value = .ok (some value) := by
  have hasked : (cache.get arrival other graph resolver).asked.any (·.contains field) = true ↔
      ∃ asked, (cache.get arrival other graph resolver).asked = some asked ∧
        asked.contains field = true := by
    cases (cache.get arrival other graph resolver).asked <;> simp
  rw [Action.fetches, Bool.and_eq_true, Bool.and_eq_true, beq_iff_eq, hasked, and_assoc]
  match (cache.get arrival other graph resolver).value with
  | .error stop => simp
  | .ok none => simp
  | .ok (some value) => simp

/-- A read that fetches a field brings it into the cache. -/
theorem brings_of_fetches {action : Action κ} (haction : action.Adds kind)
    (hfetches : action.fetches cache id field = true) : action.Brings cache id field := by
  cases action with
  | get arrival other graph resolver =>
    obtain ⟨rfl, ⟨asked, hasked, hfield⟩, hvalue⟩ := fetches_get_iff.1 hfetches
    exact ⟨rfl, contains_of_asked hempty hkind hrun haction.1.1 haction.1.2 hasked hfield,
      hvalue⟩
  | merge | start | finish | put | clear => cases hfetches

variable (hscalar : ∀ member shape, Catalog.content? kind field ≠ some (.nested member shape))

include hscalar

/-- A scalar that is stored is not fetched any more. -/
theorem countFetches_eq_zero (hstored : (cache.stored id field).isSome = true)
    {actions : List (Action κ)} (hactions : ∀ action ∈ actions, action.Adds kind) :
    countFetches id field cache reads actions = 0 := by
  induction actions generalizing cache reads with
  | nil => rfl
  | cons action rest ih =>
    rw [List.forall_mem_cons] at hactions
    obtain ⟨hnext, hkept, -⟩ := stored_add hempty hkind hrun hactions.1
    have hfetches : action.fetches cache id field = false := by
      cases action with
      | get arrival other graph resolver =>
        rw [Bool.eq_false_iff]
        intro hfetches
        obtain ⟨rfl, ⟨asked, hasked, hfield⟩, -⟩ := fetches_get_iff.1 hfetches
        obtain ⟨-, member, shape, hcontent⟩ := exists_of_asked_stored hempty hkind hrun
          hactions.1.1.1 hactions.1.1.2 hstored hasked hfield
        exact hscalar member shape hcontent
      | merge | start | finish | put | clear => rfl
    rw [countFetches, hfetches, ih hnext (hkept id field hstored) hactions.2]
    rfl

theorem countFetches_le_one (hfield : cache.cacheable.contains field = true)
    {actions : List (Action κ)} (hactions : ∀ action ∈ actions, action.Adds kind) :
    countFetches id field cache reads actions ≤ 1 := by
  induction actions generalizing cache reads with
  | nil => exact Nat.zero_le 1
  | cons action rest ih =>
    rw [List.forall_mem_cons] at hactions
    obtain ⟨hnext, -, hadded⟩ := stored_add hempty hkind hrun hactions.1
    rw [countFetches]
    by_cases hfetches : action.fetches cache id field = true
    · have hbrings := brings_of_fetches hempty hkind hrun hactions.1 hfetches
      have hrest := countFetches_eq_zero hempty hkind hnext hscalar
        (hadded id field hbrings hfield) hactions.2
      rw [if_pos hfetches, hrest]
    · have hcacheable : (action.apply cache reads).1.cacheable = cache.cacheable :=
        hnext.cacheable_eq.trans hrun.cacheable_eq.symm
      rw [if_neg hfetches, Nat.zero_add]
      exact ih hnext (hcacheable ▸ hfield) hactions.2

end Step

/-! ## Runs of reads and merges -/

/-- In a run of reads and merges, a cacheable field that was brought in is not asked for again
unless a subgraph is attached to it, and a cacheable scalar is fetched at most once. -/
theorem brought_not_asked {cacheable precached : FieldSet}
    (hbuild : build kind cacheable precached = .ok empty)
    (hrun : Run (WellTyped kind) (WellTypedAnswers kind) empty cache reads) (id : Nat)
    (hfield : cacheable.contains field = true) :
    (∀ (first : Action κ) (between : List (Action κ)), first.Adds kind →
        (∀ action ∈ between, action.Adds kind) → first.Brings cache id field →
          ∀ arrival graph resolver asked, graph.WellFormed → graph.kind = kind →
            ((cache.perform reads (first :: between)).1.get arrival id graph resolver).asked =
              some asked →
              graph.hasSubgraph field = false → asked.contains field = false) ∧
      ((∀ member shape, Catalog.content? kind field ≠ some (.nested member shape)) →
        ∀ actions : List (Action κ), (∀ action ∈ actions, action.Adds kind) →
          countFetches id field cache reads actions ≤ 1) := by
  have hempty := build_eq_ok hbuild
  have hkind : empty.kind = kind := congrArg Cache.kind hempty
  have hentries : empty.entries = [] := congrArg entries hempty
  have hcacheable : cache.cacheable = cacheable :=
    hrun.cacheable_eq.trans (congrArg Cache.cacheable hempty)
  rw [← hcacheable] at hfield
  refine ⟨?_, fun hscalar actions hactions =>
    countFetches_le_one hentries hkind hrun hscalar hfield hactions⟩
  intro first between hfirst hbetween hbrings arrival graph resolver asked hgraph hgraphKind hasked
    hflat
  obtain ⟨hnext, -, hadded⟩ := stored_add hentries hkind hrun hfirst
  obtain ⟨hlast, hkept⟩ := stored_perform hentries hkind hnext hbetween
  have hstored := hkept id field (hadded id field hbrings hfield)
  rw [Bool.eq_false_iff]
  intro hagain
  have hattached := (exists_of_asked_stored hentries hkind hlast hgraph hgraphKind hstored hasked
    hagain).1
  rw [hflat] at hattached
  cases hattached

def knowing (value : Entity κ) : Resolver κ := fun id _ =>
  if value.id = id then .ok (some value) else .ok none

omit [DecidableEq κ] in
theorem faithful_knowing (h : WellTyped kind value) : Faithful kind (knowing value) := by
  intro id graph answer hanswer
  rw [knowing] at hanswer
  split at hanswer
  · rename_i hid
    cases hanswer
    exact ⟨h, hid⟩
  · cases hanswer

open Harbor

def firstReads : List (Action Kind) :=
  [.get .immediate 1 ((Graph.none .person).add 1) (knowing (named "Ann")),
    .get .deferred 1 ((Graph.none .person).add 2) fun _ _ =>
      Fault.raise (.entityUnavailable "at sea")]

def nameAndAddress : Graph Kind :=
  ((Graph.none .person).add 1).add 2

/-- A read of both after these asks for the address only, and the name is fetched once. -/
theorem brought_not_asked_contacts :
    (∃ asked, (((contacts []).perform [] firstReads).1.get .immediate 1 nameAndAddress
          (knowing reached)).asked = some asked ∧ asked.contains 1 = false) ∧
      countFetches 1 1 (contacts []) []
        (firstReads ++ [.get .immediate 1 nameAndAddress (knowing reached)]) ≤ 1 := by
  have hbuild : build Kind.person (.ofList [1, 2]) ∅ = .ok (contacts []) := rfl
  have hperson : ∀ field value, field < 4 →
      Catalog.content? Kind.person field = some (.plain .text) →
        WellTyped Kind.person ((ofId .person 1).assign field (text value)) :=
    fun field value hlt hcontent =>
      wellTyped_assign (wellTyped_ofId Kind.person 1) hlt (suits_scalar hcontent _)
  have hnamed : WellTyped Kind.person (named "Ann") := hperson 1 "Ann" (by decide) rfl
  have hreached : WellTyped Kind.person reached := hperson 2 _ (by decide) rfl
  have hname := (Graph.WellFormed.none Kind.person).add 1
  have haddress := (Graph.WellFormed.none Kind.person).add 2
  have hfails : Faithful Kind.person fun _ _ => Fault.raise (.entityUnavailable "at sea") :=
    fun _ _ _ hvalue => nomatch hvalue
  have hfirst : ∀ action ∈ firstReads, action.Adds Kind.person := by
    rw [firstReads]
    simp only [List.forall_mem_cons]
    exact ⟨⟨⟨hname, rfl⟩, faithful_knowing hnamed⟩, ⟨⟨haddress, rfl⟩, hfails⟩, nofun⟩
  have hcacheable : (FieldSet.ofList [1, 2]).contains 1 = true := by decide
  obtain ⟨hbrought, hcount⟩ := brought_not_asked hbuild .empty 1 hcacheable
  constructor
  · refine ⟨_, rfl, ?_⟩
    rw [firstReads, List.forall_mem_cons] at hfirst
    exact hbrought _ _ hfirst.1 hfirst.2 ⟨rfl, .inl rfl, _, rfl⟩ .immediate nameAndAddress
      (knowing reached) _ (hname.add 2) rfl rfl rfl
  · refine hcount nofun _ fun action haction => ?_
    rw [List.mem_append, List.mem_singleton] at haction
    rcases haction with haction | rfl
    · exact hfirst action haction
    · exact ⟨⟨hname.add 2, rfl⟩, faithful_knowing hreached⟩

end Cache

end PartialEntity
