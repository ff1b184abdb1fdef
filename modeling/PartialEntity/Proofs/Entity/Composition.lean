import PartialEntity.Proofs.Entity.Answer
import PartialEntity.Proofs.Entity.Readings
import PartialEntity.Proofs.Graph.Union

/-!
# Partial loads compose

An entity that was copied from a record and is extended from it again and again is, after every
step, the copy of the record through the union of all graphs asked for.  So the order of the steps
does not matter, and neither does how the graphs are grouped into steps.
-/

namespace PartialEntity

namespace Entity

variable {κ : Type} [DecidableEq κ] [Catalog κ]

/-- Extends an entity by one graph after the other, up to the first step that fails. -/
def extendAll (resolver : Resolver κ) (graphs : List (Graph κ)) (entity : Entity κ) :
    Except Error (Entity κ) :=
  graphs.foldlM (fun entity graph =>
    let extended := entity.extendFrom graph resolver
    extended.result.map fun _ => extended.entity) entity

/-- The first graph is asked for before the others, which are not asked for if it fails. -/
theorem extendAll_cons (resolver : Resolver κ) (graph : Graph κ) (rest : List (Graph κ))
    (entity : Entity κ) :
    extendAll resolver (graph :: rest) entity =
      ((entity.extendFrom graph resolver).result.map fun _ =>
        (entity.extendFrom graph resolver).entity) >>= extendAll resolver rest :=
  List.foldlM_cons

/-- Whether a record can answer a graph: it is over the kind of the record, all selected fields are
regular, and the record has it. -/
structure Answers (record : Entity κ) (graph : Graph κ) : Prop where
  wellFormed : graph.WellFormed
  kind : graph.kind = record.kind
  regular : ∀ path, graph.selects path = true → Catalog.OnPath Catalog.Regular record.kind path
  has : record.hasGraph graph = .ok true

/-- Whether a resolver answers requests for a record with copies of it. -/
def Resolves (resolver : Resolver κ) (record : Entity κ) : Prop :=
  ∀ asked, resolver record.id asked = (cloneGraph asked record).map some

variable {record : Entity κ} {graph : Graph κ}

namespace Answers

theorem not_lacks (h : record.Answers graph) (hrecord : record.Throughout Sound) (path : List Nat)
    (hpath : graph.selects path = true) : ¬record.Lacks path :=
  (hasGraph_iff_not_lacks h.wellFormed h.kind (hrecord.mono fun _ h => h.toFits)
    (by rw [h.kind]; exact h.regular)).1 h.has path hpath

theorem copyable (h : record.Answers graph) (path : List Nat)
    (hpath : graph.selects path = true) : Catalog.OnPath Catalog.Copyable record.kind path :=
  (h.regular path hpath).mono fun _ _ h => h.copyable

/-- Of a record that can answer a graph, the copy through it is the part that it selects. -/
theorem cloneGraph_eq (h : record.Answers graph) (hrecord : record.Throughout Sound) :
    cloneGraph graph record = .ok (record.restrict graph.selects) :=
  cloneGraph_eq_ok h.wellFormed hrecord (h.not_lacks hrecord) h.copyable

/-- A record answers the union of what it answers. -/
theorem unionAll {graphs : List (Graph κ)} (h : ∀ graph ∈ graphs, record.Answers graph)
    (hrecord : record.Throughout Sound) :
    record.Answers (Graph.unionAll record.kind graphs) := by
  have hfits : record.Throughout Fits := hrecord.mono fun _ h => h.toFits
  have hwell := Graph.wellFormed_unionAll fun graph hgraph =>
    ⟨(h graph hgraph).wellFormed, (h graph hgraph).kind⟩
  have hkind := Graph.kind_unionAll record.kind graphs
  have hregular : ∀ path, (Graph.unionAll record.kind graphs).selects path = true →
      Catalog.OnPath Catalog.Regular record.kind path := by
    intro path hpath
    obtain ⟨graph, hgraph, hselects⟩ := Graph.selects_unionAll.1 hpath
    exact (h graph hgraph).regular path hselects
  refine ⟨hwell, hkind, hregular, ?_⟩
  refine (hasGraph_iff_not_lacks hwell hkind hfits (by rwa [hkind])).2 fun path hpath => ?_
  obtain ⟨graph, hgraph, hselects⟩ := Graph.selects_unionAll.1 hpath
  exact (h graph hgraph).not_lacks hrecord path hselects

end Answers

/-! ## One step -/

omit [DecidableEq κ] in
/-- What is missing of a graph from a restriction completes it to the whole graph. -/
theorem restrict_sup_missing {missing : Graph κ} {held : Selection}
    (hmissing : IsMissing graph (record.restrict held) missing) :
    record.restrict (held ⊔ missing.selects) = record.restrict (held ⊔ graph.selects) := by
  refine restrict_congr fun path hpath => ?_
  rw [Selection.sup_apply, Selection.sup_apply]
  cases hheld : held path with
  | true => rfl
  | false =>
    have hlacks := hpath.lacks_restrict hheld
    rw [Bool.false_or, Bool.false_or, Bool.eq_iff_iff, hmissing.selects]
    constructor
    · rintro ⟨hne, rest, hselects, -⟩
      exact graph.closed_selects path rest hne hselects
    · intro hselects
      exact ⟨Graph.ne_nil_of_selects hselects, [], by rwa [List.append_nil],
        by rwa [List.append_nil]⟩

/-- Extending a part of a record from the record succeeds and adds what the graph selects. -/
theorem extendFrom_restrict (hrecord : record.Lawful) (hgraph : record.Answers graph)
    {resolver : Resolver κ} (hresolver : Resolves resolver record) {held : Selection}
    (hclosed : held.Closed) :
    ∃ merged, ((record.restrict held).extendFrom graph resolver).result = .ok merged ∧
      ((record.restrict held).extendFrom graph resolver).entity =
        record.restrict (held ⊔ graph.selects) := by
  have hanswer : ∀ asked copy,
      resolver (record.restrict held).id asked = .ok (some copy) ↔
        cloneGraph asked record = .ok copy := by
    intro asked copy
    rw [id_restrict, hresolver asked]
    exact Result.map_some_eq_ok_iff
  obtain ⟨merged, hmerged⟩ := exists_extend_ok hrecord hgraph.wellFormed hgraph.kind hclosed
    (hgraph.not_lacks hrecord.sound) hgraph.copyable
    (fun path hpath => (hgraph.regular path hpath).dropLast)
    fun asked copy hcopy => present_iff.2 ((hanswer asked copy).2 hcopy)
  obtain ⟨missing, hmissing, hentity⟩ :=
    extend_of_ok hrecord hgraph.wellFormed hgraph.kind hclosed
      (fun asked extension h => (hanswer asked extension).1 (present_iff.1 h)) hmerged
  exact ⟨merged, hmerged, hentity.trans (restrict_sup_missing hmissing)⟩

/-! ## All steps -/

/-- Extending a part of a record by several graphs adds what their union selects. -/
theorem extendAll_restrict (hrecord : record.Lawful) {graphs : List (Graph κ)}
    (hgraphs : ∀ graph ∈ graphs, record.Answers graph)
    {resolver : Resolver κ} (hresolver : Resolves resolver record) {held : Selection}
    (hclosed : held.Closed) :
    extendAll resolver graphs (record.restrict held) =
      .ok (record.restrict (held ⊔ (Graph.unionAll record.kind graphs).selects)) := by
  induction graphs generalizing held with
  | nil =>
    rw [Graph.selects_unionAll_nil, sup_bot_eq]
    rfl
  | cons graph rest ih =>
    rw [List.forall_mem_cons] at hgraphs
    obtain ⟨merged, hmerged, hentity⟩ :=
      extendFrom_restrict hrecord hgraphs.1 hresolver hclosed
    rw [extendAll_cons, hmerged, hentity, Graph.selects_unionAll_cons, ← sup_assoc]
    exact ih hgraphs.2 (hclosed.sup graph.closed_selects)

/-- Loading a record part by part gives the copy through the union of the parts, whatever the order
of the parts and however they are grouped. -/
theorem extendAll_composes (hrecord : record.Lawful) {first : Graph κ} {graphs : List (Graph κ)}
    (hfirst : record.Answers first) (hgraphs : ∀ graph ∈ graphs, record.Answers graph)
    {resolver : Resolver κ} (hresolver : Resolves resolver record) :
    ∃ start whole, cloneGraph first record = .ok start ∧
      cloneGraph (Graph.unionAll record.kind (first :: graphs)) record = .ok whole ∧
      (∀ ordered : List (Graph κ), ordered.Perm graphs →
        extendAll resolver ordered start = .ok whole) ∧
      ∀ groups : List (List (Graph κ)), groups.flatten.Perm graphs →
        extendAll resolver (groups.map (Graph.unionAll record.kind)) start = .ok whole := by
  have hwhole : record.Answers (Graph.unionAll record.kind (first :: graphs)) :=
    .unionAll (List.forall_mem_cons.2 ⟨hfirst, hgraphs⟩) hrecord.sound
  have hsteps : ∀ steps : List (Graph κ), (∀ graph ∈ steps, record.Answers graph) →
      (Graph.unionAll record.kind steps).selects = (Graph.unionAll record.kind graphs).selects →
        extendAll resolver steps (record.restrict first.selects) =
          .ok (record.restrict (Graph.unionAll record.kind (first :: graphs)).selects) := by
    intro steps hanswers hselects
    rw [extendAll_restrict hrecord hanswers hresolver first.closed_selects, hselects,
      Graph.selects_unionAll_cons]
  refine ⟨_, _, hfirst.cloneGraph_eq hrecord.sound, hwhole.cloneGraph_eq hrecord.sound,
    fun ordered hordered => ?_, fun groups hgroups => ?_⟩
  · exact hsteps ordered (fun graph hgraph => hgraphs graph (hordered.mem_iff.1 hgraph))
      (Graph.selects_unionAll_perm hordered)
  · refine hsteps _ (fun part hpart => ?_) (Graph.selects_unionAll_groups hgroups)
    obtain ⟨group, hgroup, rfl⟩ := List.mem_map.1 hpart
    refine .unionAll (fun graph hgraph => ?_) hrecord.sound
    exact hgraphs graph (hgroups.mem_iff.1 (List.mem_flatten_of_mem hgroup hgraph))

end Entity

namespace Harbor

open Entity

def homePort : Graph Kind :=
  (Graph.none .person).insertEntry 3
    (some ((Graph.none .boat).insertEntry 3 (some ((Graph.none .marina).add 1))))

theorem wellFormed_homePort : homePort.WellFormed := by
  apply (Graph.WellFormed.none Kind.person).insertEntry
  rintro _ ⟨⟩
  refine ⟨rfl, (Graph.WellFormed.none Kind.boat).insertEntry ?_⟩
  rintro _ ⟨⟩
  exact ⟨rfl, (Graph.WellFormed.none Kind.marina).add 1⟩

theorem extendAll_crewList_homePort :
    ∃ start whole, cloneGraph ((Graph.none .person).add 1) Samples.ann = .ok start ∧
      cloneGraph (Graph.unionAll .person [(Graph.none .person).add 1, crewList, homePort])
        Samples.ann = .ok whole ∧
      extendAll (fun _ asked => (cloneGraph asked Samples.ann).map some) [homePort, crewList]
        start = .ok whole := by
  have hregular : ∀ graph : Graph Kind, ∀ path, graph.selects path = true →
      Catalog.OnPath Catalog.Regular Samples.ann.kind path :=
    fun _ path _ => onPath_regular (by exact trivial) path
  have hname : Samples.ann.Answers ((Graph.none .person).add 1) :=
    ⟨(Graph.WellFormed.none Kind.person).add 1, rfl, hregular _, rfl⟩
  have hgraphs : ∀ graph ∈ [crewList, homePort], Samples.ann.Answers graph := by
    rw [List.forall_mem_cons, List.forall_mem_singleton]
    exact ⟨⟨wellFormed_crewList, rfl, hregular _, rfl⟩, ⟨wellFormed_homePort, rfl, hregular _, rfl⟩⟩
  have hresolver : Resolves (fun _ asked => (cloneGraph asked Samples.ann).map some) Samples.ann :=
    fun _ => rfl
  obtain ⟨start, whole, hstart, hwhole, hordered, -⟩ :=
    extendAll_composes Samples.isRecord_ann.lawful hname hgraphs hresolver
  exact ⟨start, whole, hstart, hwhole, hordered _ (List.Perm.swap ..)⟩

end Harbor

end PartialEntity
