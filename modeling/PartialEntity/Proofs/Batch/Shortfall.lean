import PartialEntity.Proofs.Batch.Delivery
import PartialEntity.Proofs.Entity.Narrowing
import PartialEntity.Proofs.Entity.Readings

/-!
# Answers that fall short

What a fetch brings back need not hold all that it was asked for.  A request is delivered what the
answer holds of its graph.  That is exactly the graph when the answer has it; when something is
lacking, what is left is delivered all the same, and nobody is told that the rest did not come.
-/

namespace PartialEntity

variable {κ : Type} [DecidableEq κ] [Catalog κ]

namespace Entity

variable {kind : κ} {graph : Graph κ} {entity : Entity κ} {selection : Selection} {path : List Nat}

/-! ## Copies in full -/

omit [DecidableEq κ] in
theorem exists_of_mem_leaves_cloneAll (hfits : entity.Fits) {field : Nat}
    (hheld : entity.hasField field = true) {leaf : Entity κ}
    (hleaf : leaf ∈ (entity.cloneAll.slot field).leaves) :
    ∃ member ∈ (entity.slot field).leaves, member.cloneAll = leaf := by
  rw [slot_cloneAll hfits.length_slots, if_pos hheld] at hleaf
  exact Tree.exists_of_mem_leaves_rebuild_map hleaf

/-- A copy in full carries what is carried by the original. -/
theorem Carries.cloneAll (h : entity.Carries path) (hentity : entity.Throughout Fits) :
    entity.cloneAll.Carries path := by
  induction path generalizing entity with
  | nil => trivial
  | cons field rest ih =>
    refine ⟨(hasField_cloneAll entity field).trans h.1, fun hrest => ?_⟩
    obtain ⟨hdescend, hmembers⟩ := h.2 hrest
    refine ⟨by rwa [cloneAll_eq], fun leaf hleaf => ?_⟩
    obtain ⟨member, hmember, rfl⟩ := exists_of_mem_leaves_cloneAll hentity.self h.1 hleaf
    exact ih (hmembers member hmember) (hentity.member hmember)

/-! ## What narrowing leaves of a copy -/

/-- Narrowing the copy of an entity that has a graph over regular fields leaves exactly what the
graph selects. -/
theorem loadedExactly_intersect_cloneAll (hgraph : graph.WellFormed) (hkind : graph.kind = kind)
    (h : WellTyped kind entity)
    (hregular : ∀ path, graph.selects path = true → Catalog.OnPath Catalog.Regular kind path)
    (hhas : entity.hasGraph graph = .ok true) :
    LoadedExactly graph.selects (intersect graph entity.cloneAll).1 := by
  have hcarries := (hasGraph_iff hgraph (hkind.trans h.kind_eq.symm) h.fits).1 hhas
  exact loadedExactly_intersect hgraph (wellTyped_cloneAll h) hregular
    fun path hpath => (hcarries path hpath).cloneAll h.fits

/-- Narrowing the copy of a sound entity restricts the entity, whatever it lacks. -/
theorem intersect_cloneAll (hgraph : graph.WellFormed) (hentity : entity.Throughout Sound)
    (hregular : ∀ path, graph.selects path = true →
      Catalog.OnPath Catalog.Regular entity.kind path) :
    intersect graph entity.cloneAll = (entity.restrict graph.selects, .ok ()) := by
  have hfits : entity.Throughout Fits := hentity.mono fun _ h => h.toFits
  rw [cloneAll_eq_restrict hentity, intersect_eq_restrict hgraph (hentity.restrict ⊤)
    (clean_restrict hfits ⊤) (by rwa [kind_restrict]), restrict_restrict, inf_top_eq]

omit [DecidableEq κ] in
/-- If a restriction holds all that it was restricted to, nothing of that was lacking. -/
theorem LoadedExactly.not_lacks (hfits : entity.Throughout Fits) (hclosed : selection.Closed)
    (h : LoadedExactly selection (entity.restrict selection)) (hpath : selection path = true) :
    ¬entity.Lacks path := by
  induction path generalizing entity selection with
  | nil => exact not_false
  | cons field rest ih =>
    obtain ⟨hfields, hmembers⟩ := h
    have hselected : selection [field] = true := hclosed [field] rest (by simp) hpath
    have hheld : entity.hasField field = true := by
      have hsame := hfields field
      rwa [hasField_restrict, hselected, Bool.and_true] at hsame
    intro hlacks
    obtain ⟨member, hmember, hlacking⟩ := hlacks.of_hasField hheld
    have hleaf : member.restrict (selection.under field) ∈
        ((entity.restrict selection).slot field).leaves :=
      (mem_leaves_restrict hfits.self).2 ⟨hheld, hselected, member, hmember, rfl⟩
    exact ih (hfits.member hmember) (hclosed.under field)
      (hmembers field (by rw [hasField_restrict, hheld, hselected, Bool.and_self]) _ hleaf)
      hpath hlacking

end Entity

/-! ## Requests -/

open Batch

variable {kind : κ}

/-- A waiter is told what narrowing leaves of a copy of the answer, and never that the answer lacks
something. -/
theorem Batch.Waiter.outcome_some {waiter : Waiter κ} {value : Entity κ}
    (hvalue : Entity.WellTyped kind value)
    (hregular : ∀ path, waiter.graph.selects path = true →
      Catalog.OnPath Catalog.Regular kind path) :
    waiter.outcome (.ok (some value)) =
      .success (some (Entity.intersect waiter.graph value.cloneAll).1) := by
  have hok := Entity.intersect_ok (Entity.wellTyped_cloneAll hvalue) hregular
  rw [Waiter.outcome]
  generalize Entity.intersect waiter.graph value.cloneAll = narrowed at hok ⊢
  obtain ⟨told, done⟩ := narrowed
  subst hok
  rfl

namespace Batcher

variable {first batcher later : Batcher κ} {log : List (Submission κ)} {id : Nat}

/-- Whatever entity a fetch is answered with, a request of a closed window that was not cancelled
since then is delivered a success.  It is told exactly what its graph selects if the answer has the
graph, and otherwise what the answer holds of it: for an answer whose members are told apart by
their ids that is the restriction of the answer, and a shortfall of the answer is one of what the
request is told. -/
theorem Window.delivered_entity (h : Window kind first log batcher) (hrest : batcher.agenda = [])
    (hlater : Reaches (batcher.start .run) later) (hend : later.agenda = []) {target : Nat}
    {fetch : Fetch κ} (hfetch : later.fetch? target = some fetch)
    (hmem : (id, fetch.job) ∈ batcher.queue) {submission : Submission κ}
    (hsurvives : submission ∈ later.survivors log id) (hgraph : submission.graph.WellFormed)
    (hkind : submission.graph.kind = kind)
    (hregular : ∀ path, submission.graph.selects path = true →
      Catalog.OnPath Catalog.Regular kind path)
    {value : Entity κ} (hvalue : Entity.WellTyped kind value) :
    ∃ told, (later.perform (.complete target (.ok (some value)))).Delivered submission.key
        (.success (some told)) ∧
      (value.hasGraph submission.graph = .ok true →
        told.LoadedExactly submission.graph.selects) ∧
      (value.Throughout Entity.Sound → told = value.restrict submission.graph.selects ∧
        (value.hasGraph submission.graph ≠ .ok true →
          ¬told.LoadedExactly submission.graph.selects)) := by
  obtain ⟨job, hjob, waiter, hwaits, rfl⟩ :=
    h.exists_waiter hrest hlater hend hfetch hmem hsurvives
  have hreachable : Reachable kind later :=
    (h.reachable.trans (reaches_start _ _)).trans hlater
  have htold := delivered_complete hreachable hfetch hjob hwaits (.ok (some value))
  rw [Waiter.outcome_some hvalue hregular] at htold
  refine ⟨_, htold, Entity.loadedExactly_intersect_cloneAll hgraph hkind hvalue hregular,
    fun hsound => ?_⟩
  have hnarrowed : (Entity.intersect waiter.graph value.cloneAll).1 =
      value.restrict waiter.graph.selects :=
    congrArg Prod.fst (Entity.intersect_cloneAll hgraph hsound (by rwa [hvalue.kind_eq]))
  refine ⟨hnarrowed, fun hlacking hexact => hlacking ?_⟩
  have hexact : Entity.LoadedExactly waiter.graph.selects
      (value.restrict waiter.graph.selects) := hnarrowed ▸ hexact
  have hsame : waiter.graph.kind = value.kind := hkind.trans hvalue.kind_eq.symm
  refine (Entity.hasGraph_iff_not_lacks hgraph hsame hvalue.fits (by rwa [hkind])).2 ?_
  exact fun path hpath => hexact.not_lacks hvalue.fits waiter.graph.closed_selects hpath

/-! ## An example -/

/-- The fetch of the regatta is answered with a person whose boat has a name and nothing more. The
request for the home port is told a success, without a home port. -/
theorem regatta_delivered_annAshore : ∃ told,
    (regattaUnderway.perform (.complete 0 (.ok (some Harbor.annAshore)))).Delivered 3
      (.success (some told)) ∧
    told = Harbor.annAshore.restrict Harbor.homePort.selects ∧
    Harbor.annAshore.hasGraph Harbor.homePort = .ok false ∧
    ¬told.LoadedExactly Harbor.homePort.selects := by
  have hlater : Reaches (regatta.start .run) regattaUnderway :=
    (reaches_steps _ _).trans (reaches_perform _ _)
  have hfetch : regattaUnderway.fetch? 0 =
      some ⟨1, 1, Graph.unionAll .person [Harbor.crewList, Harbor.homePort], false⟩ := rfl
  have hsurvives : (⟨3, 1, Harbor.homePort⟩ : Submission Harbor.Kind) ∈
      regattaUnderway.survivors regattaLog 1 := List.mem_singleton_self _
  have hsound := Harbor.isRecord_annAshore.lawful.sound
  have hlacking : Harbor.annAshore.hasGraph Harbor.homePort = .ok false := rfl
  obtain ⟨told, htold, -, hnarrowed⟩ := Window.delivered_entity regatta_window rfl hlater rfl hfetch
    (List.mem_cons_self ..) hsurvives
    Harbor.wellFormed_homePort rfl (fun path _ => Harbor.onPath_regular (by exact trivial) path)
    (Entity.wellTyped_of_sound rfl hsound)
  obtain ⟨hrestrict, hshort⟩ := hnarrowed hsound
  exact ⟨told, htold, hrestrict, hlacking, hshort (by rw [hlacking]; nofun)⟩

end Batcher

end PartialEntity
