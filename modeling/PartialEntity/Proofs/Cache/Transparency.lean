import PartialEntity.Directory
import PartialEntity.Harbor.Samples
import PartialEntity.Proofs.Cache.Projection
import PartialEntity.Proofs.Entity.Lawful

/-!
# Reads through a cache agree with the store behind it

A cache that is filled from a fixed store of records holds only parts of the records, whatever was
read, written and dropped, and however the reads were interleaved.  A read of a record that holds
what was asked for therefore gives the copy that the store itself would give.

Fields that are fetched along with every read and are visited as nested trees have to declare the
kind of the members of those trees: no copy can be made through a field that does not.
-/

namespace PartialEntity

variable {κ : Type} [Catalog κ]

namespace Directory

/-- Whether a directory can stand behind a cache of a kind: it does not fail, keeps records of the
kind under their ids, and its records are lawful. -/
structure Lawful (directory : Directory κ) (kind : κ) : Prop where
  failure : directory.failure = none
  kind : ∀ id record, Assoc.find? id directory.records = some record → record.kind = kind
  id : ∀ id record, Assoc.find? id directory.records = some record → record.id = id
  record : ∀ id record, Assoc.find? id directory.records = some record → record.Lawful

theorem lawful_ofList_singleton {record : Entity κ} (h : record.Lawful) :
    (ofList [record]).Lawful record.kind := by
  have hfind : ∀ id found, Assoc.find? id (ofList [record]).records = some found →
      id = record.id ∧ found = record := by
    intro id found hfound
    exact Prod.mk.inj (List.mem_singleton.1 (Assoc.mem_of_find? hfound))
  constructor
  · rfl
  · intro id found hfound
    rw [(hfind id found hfound).2]
  · intro id found hfound
    rw [(hfind id found hfound).2, (hfind id found hfound).1]
  · intro id found hfound
    rw [(hfind id found hfound).2]
    exact h

/-- Whether an entity was copied from a record, in full or through a graph. -/
def Gives [DecidableEq κ] (directory : Directory κ) (value : Entity κ) : Prop :=
  ∃ id record, Assoc.find? id directory.records = some record ∧
    (value = record.cloneAll ∨
      ∃ graph, graph.WellFormed ∧ Entity.cloneGraph graph record = .ok value)

def HasPart (directory : Directory κ) (id : Nat) (value : Entity κ) : Prop :=
  ∃ record, Assoc.find? id directory.records = some record ∧
    ∃ selection, value = record.restrict selection

/-- Whether an entity is what a cache may store for an id: fields of the record, with references as
members, and those that are nested trees declare the kind of their members. -/
def HasFlatPart (directory : Directory κ) (id : Nat) (value : Entity κ) : Prop :=
  ∃ record, Assoc.find? id directory.records = some record ∧
    (∃ fields, value = record.restrict (.ofFields fields)) ∧
      ∀ field, value.hasField field = true → Catalog.Copyable value.kind field

section Parts

variable {directory : Directory κ} {kind : κ} {id : Nat} {value : Entity κ}

theorem HasPart.id_eq (h : directory.HasPart id value) (hlawful : directory.Lawful kind) :
    value.id = id := by
  obtain ⟨record, hfind, selection, rfl⟩ := h
  rw [Entity.id_restrict]
  exact hlawful.id id record hfind

theorem Gives.hasPart [DecidableEq κ] (h : directory.Gives value)
    (hlawful : directory.Lawful kind) : directory.HasPart value.id value := by
  obtain ⟨id, record, hfind, hvalue⟩ := h
  have hsound := (hlawful.record id record hfind).sound
  have hpart : directory.HasPart id value := by
    refine ⟨record, hfind, ?_⟩
    rcases hvalue with hvalue | ⟨graph, hgraph, hclone⟩
    · exact ⟨⊤, hvalue.trans (Entity.cloneAll_eq_restrict hsound)⟩
    · exact ⟨graph.selects, Entity.cloneGraph_eq_restrict hgraph hsound hclone⟩
  rw [hpart.id_eq hlawful]
  exact hpart

theorem HasFlatPart.cloneAll (h : directory.HasFlatPart id value)
    (hlawful : directory.Lawful kind) : value.cloneAll = value := by
  obtain ⟨record, hfind, ⟨fields, rfl⟩, -⟩ := h
  rw [Entity.cloneAll_eq_restrict ((hlawful.record id record hfind).sound.restrict _),
    Entity.restrict_restrict, top_inf_eq]

theorem HasFlatPart.clearFields (h : directory.HasFlatPart id value)
    (hlawful : directory.Lawful kind) (fields : FieldSet) :
    directory.HasFlatPart id (value.clearFields fields) := by
  obtain ⟨record, hfind, ⟨stored, rfl⟩, hcopyable⟩ := h
  have hsound := (hlawful.record id record hfind).sound
  have hfits := hsound.mono fun _ h => h.toFits
  have hselection : Selection.without fields ⊓ Selection.ofFields stored =
      Selection.ofFields (stored.diff fields) := by
    funext path
    match path with
    | [] => rfl
    | [field] =>
      simp only [Selection.inf_apply, Selection.without, Selection.ofFields_singleton,
        FieldSet.contains_diff, Bool.and_comm]
    | _ :: _ :: _ => exact Bool.and_false _
  have hclear : (record.restrict (.ofFields stored)).clearFields fields =
      record.restrict (.ofFields (stored.diff fields)) := by
    rw [Entity.clearFields_eq_restrict fields ((hsound.restrict _).mono fun _ h => h.toFits)
      (Entity.clean_restrict hfits _), Entity.restrict_restrict, hselection]
  rw [hclear]
  refine ⟨record, hfind, ⟨_, rfl⟩, fun field hfield => ?_⟩
  rw [Entity.kind_restrict]
  rw [Entity.kind_restrict] at hcopyable
  apply hcopyable
  rw [Entity.hasField_restrict, Selection.ofFields_singleton, Bool.and_eq_true] at hfield ⊢
  rw [FieldSet.contains_diff, Bool.and_eq_true] at hfield
  exact ⟨hfield.1, hfield.2.1⟩

/-- A field that a union of flat parts holds is held by one of them. -/
theorem HasFlatPart.pullAll {other : Entity κ} (h : directory.HasFlatPart id value)
    (hother : directory.HasFlatPart id other) (hlawful : directory.Lawful kind) :
    directory.HasFlatPart id (value.pullAll other) := by
  obtain ⟨record, hfind, ⟨left, rfl⟩, hleft⟩ := h
  obtain ⟨record', hfind', ⟨right, rfl⟩, hright⟩ := hother
  obtain rfl : record = record' := Option.some.inj (hfind.symm.trans hfind')
  rw [Entity.pullAll_restrict_ofFields (hlawful.record id record hfind).sound]
  refine ⟨record, hfind, ⟨_, rfl⟩, fun field hfield => ?_⟩
  rw [Entity.kind_restrict] at hleft hright ⊢
  rw [Entity.hasField_restrict, Selection.ofFields_singleton, FieldSet.contains_union,
    Bool.and_eq_true, Bool.or_eq_true] at hfield
  obtain ⟨hheld, hfield⟩ := hfield
  rcases hfield with hfield | hfield
  · apply hleft
    rw [Entity.hasField_restrict, Selection.ofFields_singleton, hheld, hfield]
    rfl
  · apply hright
    rw [Entity.hasField_restrict, Selection.ofFields_singleton, hheld, hfield]
    rfl

end Parts

end Directory

namespace Cache

variable [DecidableEq κ] {directory : Directory κ} {kind : κ} {cache : Cache κ}

/-- What is stored of a part of a record is a flat part of it. -/
theorem hasFlatPart_of_project (hlawful : directory.Lawful kind) {id : Nat} {value : Entity κ}
    (hvalue : directory.HasPart id value) {projection : Entity κ}
    (hproject : cache.project value = .ok (some projection)) :
    directory.HasFlatPart id projection := by
  obtain ⟨record, hfind, selection, rfl⟩ := hvalue
  have hsound := (hlawful.record id record hfind).sound
  obtain ⟨hprojection, hcopyable⟩ := project_eq_restrict (hsound.restrict selection) hproject
  refine ⟨record, hfind, ⟨(record.restrict selection).held.inter cache.cacheable, ?_⟩, ?_⟩
  · rw [hprojection, Entity.restrict_restrict]
    apply Entity.restrict_congr
    intro path hpath
    match path, hpath with
    | [field], hpath =>
      have hheld : (record.restrict selection).held.contains field = selection [field] := by
        change (record.restrict selection).hasField field = _
        rw [Entity.hasField_restrict, hpath.1, Bool.true_and]
      simp only [Selection.inf_apply, Selection.ofFields_singleton, FieldSet.contains_inter, hheld]
      cases selection [field]
      · rfl
      · exact Bool.and_true _
    | _ :: _ :: _, _ => rfl
  · intro field hfield
    rw [hprojection, Entity.kind_restrict]
    exact hcopyable field hfield

/-- Merging parts of records keeps what is stored. -/
theorem Stores.refresh_part (hlawful : directory.Lawful kind)
    (h : cache.Stores directory.HasFlatPart) {value : Entity κ}
    (hvalue : directory.HasPart value.id value) {next : Cache κ} {events : List (Event κ)}
    (hrefresh : cache.refresh value = .ok (next, events)) : next.Stores directory.HasFlatPart :=
  h.refresh (fun _ hproject => hasFlatPart_of_project hlawful hvalue hproject)
    (fun _ _ hentry hproject =>
      hentry.pullAll (hasFlatPart_of_project hlawful hvalue hproject) hlawful) hrefresh

/-! ## Answers -/

omit [Catalog κ] in
theorem answer_eq_ok_iff [Catalog κ] (hlawful : directory.Lawful kind) {id : Nat}
    {graph : Graph κ} {value : Entity κ} :
    directory.answer id graph = .ok (some value) ↔
      ∃ record, Assoc.find? id directory.records = some record ∧
        Entity.cloneGraph graph record = .ok value := by
  rw [Directory.answer]
  simp only [hlawful.failure]
  cases hfind : Assoc.find? id directory.records with
  | none => exact iff_of_false nofun fun ⟨_, hrecord, _⟩ => nomatch hrecord
  | some record =>
    simp only [Option.some.injEq, exists_eq_left', Result.map_some_eq_ok_iff]

/-- A read that started from a part of a record extends it by copies of the record. -/
theorem value_supply_of_snapshot (hlawful : directory.Lawful kind) {read : Read κ}
    {record : Entity κ} (hfind : Assoc.find? read.id directory.records = some record)
    {selection : Selection}
    (hsnapshot : read.snapshot = some (record.restrict selection)) (arrival : Arrival) :
    (read.supply arrival directory.answer).value =
      let extended := (record.restrict selection).extend read.request fun asked =>
        some <$> Entity.cloneGraph asked record
      extended.result.map fun _ => some extended.entity := by
  have hanswer : ∀ asked,
      directory.answer read.id asked = some <$> Entity.cloneGraph asked record := by
    intro asked
    rw [Directory.answer]
    simp only [hlawful.failure, hfind]
  have hfrom : (record.restrict selection).extendFrom read.request directory.answer =
      (record.restrict selection).extend read.request fun asked =>
        some <$> Entity.cloneGraph asked record := by
    rw [Entity.extendFrom, Entity.id_restrict, hlawful.id read.id record hfind]
    congr 1
    funext asked
    rw [hanswer]
    cases Entity.cloneGraph asked record with
    | error stop => rfl
    | ok copy => rfl
  rw [supply_of_snapshot hsnapshot, hfrom]

/-- A read that started from nothing takes a copy of the record if it holds what was asked for. -/
theorem supply_of_miss (hlawful : directory.Lawful kind) {read : Read κ}
    (hsnapshot : read.snapshot = none) (arrival : Arrival) {value : Entity κ} :
    (read.supply arrival directory.answer).value = .ok (some value) ↔
      ∃ record, Assoc.find? read.id directory.records = some record ∧
        Entity.cloneGraph read.request record = .ok value ∧
          value.hasGraph read.request = .ok true := by
  rw [value_supply_of_miss hsnapshot, answer_eq_ok_iff hlawful]
  constructor
  · rintro ⟨⟨record, hfind, hclone⟩, hcomplete⟩
    exact ⟨record, hfind, hclone, hcomplete⟩
  · rintro ⟨record, hfind, hclone, hcomplete⟩
    exact ⟨⟨record, hfind, hclone⟩, hcomplete⟩

/-! ## Runs over a directory -/

/-- Whether a read is one that a run over a directory can have pending. -/
structure Pending (directory : Directory κ) (empty : Cache κ) (read : Read κ) : Prop where
  wellFormed : read.graph.WellFormed
  kind : read.graph.kind = empty.kind
  request : read.request = empty.request read.graph
  snapshot : ∀ copy, read.snapshot = some copy → directory.HasFlatPart read.id copy

section Pending

variable {empty : Cache κ} {read : Read κ}

omit [DecidableEq κ] in
theorem Pending.wellFormed_request (h : Pending directory empty read) :
    read.request.WellFormed := by
  rw [h.request]
  exact empty.wellFormed_request h.wellFormed

omit [DecidableEq κ] in
theorem Pending.kind_request (h : Pending directory empty read) :
    read.request.kind = empty.kind := by
  rw [h.request, Cache.kind_request]
  exact h.kind

/-- Whatever a read is supplied with is a part of the record. -/
theorem Pending.hasPart_supply (h : Pending directory empty read)
    (hlawful : directory.Lawful empty.kind) {arrival : Arrival} {value : Entity κ}
    (hvalue : (read.supply arrival directory.answer).value = .ok (some value)) :
    directory.HasPart read.id value := by
  cases hsnapshot : read.snapshot with
  | none =>
    obtain ⟨record, hfind, hclone, -⟩ := (supply_of_miss hlawful hsnapshot arrival).1 hvalue
    exact ⟨record, hfind, read.request.selects, Entity.cloneGraph_eq_restrict h.wellFormed_request
      (hlawful.record _ record hfind).sound hclone⟩
  | some copy =>
    obtain ⟨record, hfind, ⟨fields, rfl⟩, -⟩ := h.snapshot copy hsnapshot
    rw [value_supply_of_snapshot hlawful hfind hsnapshot] at hvalue
    obtain ⟨done, hdone, hentity⟩ := Result.map_eq_ok_iff.1 hvalue
    cases hentity
    obtain ⟨missing, -, hextended⟩ := Entity.extend_of_ok (hlawful.record _ record hfind)
      h.wellFormed_request (h.kind_request.trans (hlawful.kind _ record hfind).symm)
      (Selection.closed_ofFields fields)
      (fun _ _ => Result.map_some_eq_ok_iff.1) hdone
    exact ⟨record, hfind, _, hextended⟩

/-- A read of a record that holds what has to be at hand is supplied with a part that agrees with
the record there. -/
theorem Pending.exists_supply (h : Pending directory empty read)
    (hlawful : directory.Lawful empty.kind) {record : Entity κ}
    (hfind : Assoc.find? read.id directory.records = some record)
    (hholds : ∀ path, read.request.selects path = true → ¬record.Lacks path)
    (hcopyable : ∀ path, read.request.selects path = true →
      Catalog.OnPath Catalog.Copyable record.kind path)
    (hregular : ∀ path, read.request.selects path = true →
      Catalog.OnPath Catalog.Regular record.kind path.dropLast) (arrival : Arrival) :
    ∃ selection, (read.supply arrival directory.answer).value =
        .ok (some (record.restrict selection)) ∧
      (∀ part : Selection, (∀ path, part path = true → read.request.selects path = true) →
        (record.restrict selection).restrict part = record.restrict part) ∧
      ∀ field, (record.restrict selection).hasField field = true →
        Catalog.Copyable record.kind field := by
  have hrecord := hlawful.record _ record hfind
  have hkind := h.kind_request.trans (hlawful.kind _ record hfind).symm
  cases hsnapshot : read.snapshot with
  | none =>
    refine ⟨read.request.selects, ?_, fun part hpart => ?_, fun field hfield => ?_⟩
    · obtain ⟨lacking, hlacking, hcomplete⟩ := Entity.exists_missingGraph_copy hrecord.sound
        h.wellFormed_request hkind hholds hregular
      rw [supply_of_miss hlawful hsnapshot]
      refine ⟨record, hfind, ?_, ?_⟩
      · exact Entity.cloneGraph_eq_ok h.wellFormed_request hrecord.sound hholds hcopyable
      · rw [Entity.hasGraph, hlacking]
        exact congrArg Except.ok hcomplete
    · exact Entity.restrict_restrict_of_subset record hpart
    · rw [Entity.hasField_restrict, Bool.and_eq_true] at hfield
      exact (hcopyable [field] hfield.2).1
  | some copy =>
    obtain ⟨record', hfind', ⟨fields, rfl⟩, hflat⟩ := h.snapshot copy hsnapshot
    obtain rfl : record = record' := Option.some.inj (hfind.symm.trans hfind')
    have hclosed := Selection.closed_ofFields fields
    obtain ⟨done, hdone⟩ := Entity.exists_extend_ok hrecord h.wellFormed_request hkind hclosed
      hholds hcopyable hregular
      fun _ _ => Result.map_some_eq_ok_iff.2
    obtain ⟨missing, hmissing, hextended⟩ := Entity.extend_of_ok hrecord h.wellFormed_request
      hkind hclosed (fun _ _ => Result.map_some_eq_ok_iff.1) hdone
    refine ⟨.ofFields fields ⊔ missing.selects, ?_, fun part hpart => ?_, fun field hfield => ?_⟩
    · rw [value_supply_of_snapshot hlawful hfind hsnapshot]
      simp only [hdone, hextended]
      rfl
    · exact Entity.restrict_covered hmissing hpart
    · rw [Entity.hasField_restrict, Selection.sup_apply, Bool.and_eq_true, Bool.or_eq_true]
        at hfield
      obtain ⟨hheld, hstored | hmissed⟩ := hfield
      · rw [Entity.kind_restrict] at hflat
        apply hflat
        rw [Entity.hasField_restrict, hheld, hstored]
        rfl
      · obtain ⟨-, rest, hselects, -⟩ := (hmissing.selects [field]).1 hmissed
        exact (hcopyable _ hselects).1

end Pending

/-- Throughout a run over a directory, parts of records are stored and reads have copied parts. -/
theorem Run.hasFlatPart {empty : Cache κ} (hlawful : directory.Lawful empty.kind)
    (hempty : empty.entries = []) {reads : List (Read κ)}
    (hrun : Run directory.Gives (· = directory.answer) empty cache reads) :
    cache.Stores directory.HasFlatPart ∧ ∀ read ∈ reads, Pending directory empty read := by
  have hclear : ∀ id entry fields, directory.HasFlatPart id entry →
      directory.HasFlatPart id (entry.clearFields fields) :=
    fun _ _ fields hentry => hentry.clearFields hlawful fields
  induction hrun with
  | empty =>
    constructor
    · intro id entry hmem
      rw [hempty] at hmem
      exact absurd hmem List.not_mem_nil
    · exact fun _ hread => absurd hread List.not_mem_nil
  | @start cache reads hrun id graph hgraph hkind ih =>
    refine ⟨ih.1, List.forall_mem_cons.2 ⟨?_, ih.2⟩⟩
    constructor
    · exact hgraph
    · exact hkind.trans hrun.kind_eq
    · exact request_congr hrun.settings_eq graph
    · intro copy hcopy
      obtain ⟨entry, hfind, rfl⟩ := Option.map_eq_some_iff.1 hcopy
      have hentry := ih.1.of_find? hfind
      rw [hentry.cloneAll hlawful]
      exact hentry
  | finish hrun arrival hresolver ih =>
    subst hresolver
    constructor
    · apply ih.1.finish
      intro value hvalue next events hrefresh
      have hpart := (ih.2 _ (by simp)).hasPart_supply hlawful hvalue
      rw [← hpart.id_eq hlawful] at hpart
      exact ih.1.refresh_part hlawful hpart hrefresh
    · intro read hread
      apply ih.2
      rw [List.mem_append] at hread ⊢
      exact hread.imp_right (List.mem_cons_of_mem _)
  | put hrun hvalue hput ih =>
    exact ⟨ih.1.put (fun _ hproject =>
      hasFlatPart_of_project hlawful (hvalue.hasPart hlawful) hproject) hput, ih.2⟩
  | merge hrun hvalue hmerge ih =>
    exact ⟨ih.1.refresh_part hlawful (hvalue.hasPart hlawful) hmerge, ih.2⟩
  | clear hrun clearing ih =>
    refine ⟨ih.1.clearing (fun id entry fields hentry _ => ?_) clearing, ih.2⟩
    exact hclear id entry fields hentry

/-- However reads, writes and clearings were interleaved, a read of a record that holds the graph
asked for and the precached fields gives the copy that the directory would give.  Precached fields
that are visited as nested trees declare the kind of the members of those trees. -/
theorem Run.read_transparent {cacheable precached : FieldSet} {empty : Cache κ}
    (hbuild : build kind cacheable precached = .ok empty)
    (hprecached : ∀ field, precached.contains field = true → Catalog.Copyable kind field)
    (hlawful : directory.Lawful kind) {reads : List (Read κ)}
    (hrun : Run directory.Gives (· = directory.answer) empty cache reads) {read : Read κ}
    (hread : read ∈ reads) {record : Entity κ}
    (hfind : Assoc.find? read.id directory.records = some record)
    (hregular : ∀ path, read.graph.selects path = true →
      Catalog.OnPath Catalog.Regular kind path)
    (hgraph : record.hasGraph read.graph = .ok true)
    (hheld : ∀ field, precached.contains field = true → record.hasField field = true)
    (arrival : Arrival) :
    ∃ copy, Entity.cloneGraph read.graph record = .ok copy ∧
      (cache.finish read (read.supply arrival directory.answer)).value = .ok (some copy) := by
  have hempty := build_eq_ok hbuild
  have hkind : record.kind = kind := hlawful.kind _ record hfind
  have hrecord := hlawful.record _ record hfind
  have hfits := hrecord.sound.mono fun _ h => h.toFits
  subst hempty
  subst hkind
  have hpending := (hrun.hasFlatPart hlawful rfl).2 read hread
  have hholds : ∀ path, read.graph.selects path = true → ¬record.Lacks path := fun path hpath =>
    Entity.not_lacks_of_hasGraph hpending.wellFormed hpending.kind hfits hgraph hpath
  have hcopyable : ∀ path, read.graph.selects path = true →
      Catalog.OnPath Catalog.Copyable record.kind path :=
    fun path hpath => (hregular path hpath).mono fun _ _ h => h.copyable
  have hrequest := hpending.request
  obtain ⟨selection, hsupply, hcovered, hfields⟩ := hpending.exists_supply hlawful hfind
    (by
      rw [hrequest]
      refine forall_selects_request _ hholds fun field hfield hlacks => ?_
      obtain ⟨member, -, hmember⟩ := Entity.Lacks.of_hasField (hheld field hfield) hlacks
      exact hmember)
    (by
      rw [hrequest]
      exact forall_selects_request _ hcopyable fun field hfield =>
        ⟨hprecached field hfield, fun _ _ => trivial⟩)
    (by
      rw [hrequest]
      exact forall_selects_request _ (fun path hpath => (hregular path hpath).dropLast)
        fun _ _ => trivial) arrival
  have hsound := hrecord.sound.restrict selection
  refine ⟨record.restrict read.graph.selects,
    Entity.cloneGraph_eq_ok hpending.wellFormed hrecord.sound hholds hcopyable, ?_⟩
  obtain ⟨stored, hstored⟩ := exists_project cache hsound fun field hfield => by
    rw [Entity.kind_restrict]
    exact hfields field hfield
  have hnarrow := Entity.intersect_eq_restrict hpending.wellFormed hsound
    (Entity.clean_restrict hfits selection) fun path hpath => by
      rw [Entity.kind_restrict]
      exact hregular path hpath
  rw [hcovered _ fun path hpath => by
    rw [hrequest, selects_request_iff]
    exact .inl hpath] at hnarrow
  exact Cache.value_finish hsupply (exists_commit hstored _) hnarrow

open Harbor

def skipper : Entity Kind :=
  ((Entity.ofId .person 4).assign 1 (text "Cleo")).assign 3
    (.option (some (.leaf ((Entity.ofId .boat 12).assign 1 (text "Heron")))))

theorem lawful_skipper : skipper.Lawful := by
  have hboat : ((Entity.ofId .boat 12).assign 1 (text "Heron") : Entity Kind).Lawful := by
    apply Entity.Lawful.assign_scalar (Entity.lawful_ofId _) rfl
    trivial
  have hname : ((Entity.ofId .person 4).assign 1 (text "Cleo") : Entity Kind).Lawful := by
    apply Entity.Lawful.assign_scalar (Entity.lawful_ofId _) rfl
    trivial
  apply hname.assign rfl
  · exact List.forall_mem_singleton.2 rfl
  · exact .some (.leaf _)
  · exact List.forall_mem_singleton.2 hboat
  · intro left hleft right hright _
    rw [List.mem_singleton.1 hleft, List.mem_singleton.1 hright]

def nameCache : Cache Kind :=
  ⟨.person, .ofList [1], .ofList [1], []⟩

def boatName : Graph Kind :=
  (Graph.none .person).insertEntry 3 (some ((Graph.none .boat).add 1))

theorem regular_boatName (path : List Nat) (hpath : boatName.selects path = true) :
    Catalog.OnPath Catalog.Regular Kind.person path := by
  apply Graph.onPath_node _ _ path hpath
  · intro entry hentry
    rw [List.mem_singleton.1 hentry]
    exact ⟨rfl, rfl⟩
  · intro entry hentry subgraph hsubgraph member hmember
    rw [List.mem_singleton.1 hentry] at hsubgraph hmember
    cases hsubgraph
    cases hmember
    apply Graph.onPath_node
    · intro entry hentry
      rw [List.mem_singleton.1 hentry]
      exact (rfl : Catalog.nested? Kind.boat 1 = none)
    · intro entry hentry subgraph hsubgraph
      rw [List.mem_singleton.1 hentry] at hsubgraph
      cases hsubgraph

def stocked : Cache Kind :=
  { nameCache with entries := [(4, (Entity.ofId .person 4).assign 1 (text "Cleo"))] }

def boatRead : Read Kind := stocked.start 4 boatName

theorem wellFormed_boatName : boatName.WellFormed := by
  apply (Graph.WellFormed.none Kind.person).insertEntry
  intro added hadded
  cases hadded
  exact ⟨rfl, (Graph.WellFormed.none Kind.boat).add 1⟩

theorem finish_boatRead_cleared :
    ∃ copy, Entity.cloneGraph boatName skipper = .ok copy ∧
      (stocked.clearAll.finish boatRead
        (boatRead.supply .deferred (Directory.ofList [skipper]).answer)).value =
          .ok (some copy) := by
  have hbuild : build Kind.person (.ofList [1]) (.ofList [1]) = .ok nameCache := rfl
  have hput : nameCache.put skipper.cloneAll = .ok stocked := rfl
  have hgives : (Directory.ofList [skipper]).Gives skipper.cloneAll := ⟨4, skipper, rfl, .inl rfl⟩
  have hrun : Run (Directory.ofList [skipper]).Gives (· = (Directory.ofList [skipper]).answer)
      nameCache stocked.clearAll [boatRead] :=
    .clear (.start (.put .empty hgives hput) 4 wellFormed_boatName rfl) .all
  have hname : ∀ field, (FieldSet.ofList [1]).contains field = true → field = 1 := by
    intro field hfield
    rw [FieldSet.contains_ofList, decide_eq_true_iff] at hfield
    exact List.mem_singleton.1 hfield
  apply Run.read_transparent hbuild _ (Directory.lawful_ofList_singleton lawful_skipper) hrun
    (List.mem_singleton_self _) rfl regular_boatName rfl
  · intro field hfield
    rw [hname field hfield]
    rfl
  · intro field hfield
    rw [hname field hfield]
    nofun

/-- A store with items under a field that does not declare what it stores. -/
def rogueDepot : Entity Kind :=
  ((Entity.ofId .depot 1).assign 1 (text "dry")).assign 15 (.sequence [.leaf (Entity.ofId .item 7)])

theorem lawful_rogueDepot : rogueDepot.Lawful := by
  have hitem : (Entity.ofId Kind.item 7).Lawful := by
    apply Entity.lawful_ofId
    exact (by decide : 7 < 1000)
  have hnote : ((Entity.ofId Kind.depot 1).assign 1 (text "dry")).Lawful := by
    apply Entity.Lawful.assign_scalar (Entity.lawful_ofId _) rfl
    trivial
  apply hnote.assign rfl
  · exact List.forall_mem_singleton.2 rfl
  · apply Tree.Canonical.sequence
    intro tree htree
    rw [List.mem_singleton.1 htree]
    exact .leaf _
  · exact List.forall_mem_singleton.2 hitem
  · intro left hleft right hright _
    rw [List.mem_singleton.1 hleft, List.mem_singleton.1 hright]

def depotCache : Cache Kind :=
  ⟨.depot, .ofList [1, 15], .ofList [15], []⟩

def noteRead : Read Kind :=
  depotCache.start 1 ((Graph.none .depot).add 1)

theorem clean_rogueDepot : rogueDepot.Throughout Entity.Clean := by
  apply Entity.clean_assign
  · exact Entity.clean_assign (Entity.clean_ofId ..) nofun
  · exact List.forall_mem_singleton.2 (Entity.clean_ofId ..)

/-- A read that only asks for a regular field fails when the cache fetches along with it a field
that does not declare the kind of the members it stores. -/
theorem finish_noteRead_fails :
    build .depot (.ofList [1, 15]) (.ofList [15]) = .ok depotCache ∧
      (Directory.ofList [rogueDepot]).Lawful .depot ∧ rogueDepot.Throughout Entity.Clean ∧
      Run (Directory.ofList [rogueDepot]).Gives (· = (Directory.ofList [rogueDepot]).answer)
        depotCache depotCache [noteRead] ∧
      Assoc.find? noteRead.id (Directory.ofList [rogueDepot]).records = some rogueDepot ∧
      (∀ path, noteRead.graph.selects path = true →
        Catalog.OnPath Catalog.Regular Kind.depot path) ∧
      rogueDepot.hasGraph noteRead.graph = .ok true ∧
      (∀ field, depotCache.precached.contains field = true → rogueDepot.hasField field = true) ∧
      ¬∃ copy, Entity.cloneGraph noteRead.graph rogueDepot = .ok copy ∧
        (depotCache.finish noteRead (noteRead.supply .immediate
          (Directory.ofList [rogueDepot]).answer)).value = .ok (some copy) := by
  refine ⟨rfl, Directory.lawful_ofList_singleton lawful_rogueDepot, clean_rogueDepot,
    .start .empty 1 ((Graph.WellFormed.none Kind.depot).add 1) rfl, rfl, ?_, rfl, ?_, ?_⟩
  · apply Graph.onPath_node
    · intro entry hentry
      rw [List.mem_singleton.1 hentry]
      exact (rfl : Catalog.nested? Kind.depot 1 = none)
    · intro entry hentry subgraph hsubgraph
      rw [List.mem_singleton.1 hentry] at hsubgraph
      cases hsubgraph
  · intro field hfield
    rw [depotCache, FieldSet.contains_ofList, decide_eq_true_iff] at hfield
    rw [List.mem_singleton.1 hfield]
    rfl
  · rintro ⟨copy, -, hvalue⟩
    cases hvalue

end Cache

end PartialEntity
