import Mathlib
import PartialEntity.Proofs.Batch.Agenda
import PartialEntity.Proofs.Batch.Run
import PartialEntity.Proofs.Batch.Window
import PartialEntity.Proofs.Entity.Composition

/-!
# One fetch for every id

When a window is closed, one fetch is started for every id that somebody still waits for, and it
asks for the union of what they have asked for.  Requests that are queued from then on belong to
the next window.
-/

namespace PartialEntity

open Batch

variable {κ : Type}

namespace Batcher

variable {batcher : Batcher κ}

/-! ## Pending jobs -/

/-- Whether a fetch would start for an entry of the window. -/
def wants (batcher : Batcher κ) (entry : Nat × Nat) : Bool :=
  (batcher.job? entry.2).any Job.isPending

def wantedIds (batcher : Batcher κ) : List Nat :=
  (batcher.queue.filter batcher.wants).map (·.1)

theorem length_wantedIds (batcher : Batcher κ) :
    batcher.wantedIds.length = batcher.pendingJobs :=
  List.length_map _

/-- No id is fetched twice. -/
theorem nodup_wantedIds (h : batcher.Sound) : batcher.wantedIds.Nodup :=
  (List.filter_sublist.map _).nodup h.ids_nodup

/-- A fetch would start for the ids that somebody waits for. -/
theorem mem_wantedIds (h : batcher.Sound) {id : Nat} :
    id ∈ batcher.wantedIds ↔ batcher.waiting id ≠ [] := by
  constructor
  · intro hmem
    obtain ⟨⟨other, number⟩, hentry, rfl⟩ := List.mem_map.1 hmem
    obtain ⟨hqueue, hwants⟩ := List.mem_filter.1 hentry
    obtain ⟨job, hjob, hpending⟩ := (Option.any_eq_true _ _).1 hwants
    have hfind := Assoc.find?_eq_some_of_mem h.ids_nodup hqueue
    have hsome : job.waiters ≠ [] := by
      rintro hnone
      simp [Job.isPending, hnone] at hpending
    simpa [waiting, hfind, hjob] using hsome
  · intro hwaiting
    cases hfind : Assoc.find? id batcher.queue with
    | none => simp [waiting, hfind] at hwaiting
    | some number =>
      cases hjob : batcher.job? number with
      | none => simp [waiting, hfind, hjob] at hwaiting
      | some job =>
        have hqueue := Assoc.mem_of_find? hfind
        have hsome : job.waiters ≠ [] := by simpa [waiting, hfind, hjob] using hwaiting
        -- A job that takes no more requests has none.
        have hopen : job.isOpen = true := by
          by_contra hclosed
          exact hsome (h.closed _ hqueue job hjob (by simpa using hclosed))
        apply List.mem_map.2
        refine ⟨(id, number), List.mem_filter.2 ⟨hqueue, ?_⟩, rfl⟩
        simp [wants, hjob, Job.isPending, hopen, hsome]

/-- What is pledged for the window is pledged for the ids that somebody waits for. -/
theorem map_id_pledged (batcher : Batcher κ) :
    batcher.pledged.map (·.2.1) = batcher.wantedIds := by
  unfold pledged wantedIds
  induction batcher.queue with
  | nil => rfl
  | cons entry rest ih =>
    rw [List.flatMap_cons, List.map_append, ih, List.filter_cons, wants]
    cases hjob : batcher.job? entry.2 with
    | none => simp [Instruction.pledges, hjob]
    | some job =>
      cases hpending : job.isPending with
      | true => simp [Instruction.pledges, hjob, hpending]
      | false => simp [Instruction.pledges, hjob, hpending]

/-- What is pledged is the union of what is asked for in a job of the window. -/
theorem of_mem_pledged (h : batcher.Sound) {subject : Nat × Nat × Graph κ}
    (hmem : subject ∈ batcher.pledged) :
    (subject.2.1, subject.1) ∈ batcher.queue ∧ subject.2.2 =
      Graph.unionAll batcher.kind
        (((batcher.waiting subject.2.1).map (Waiter.submission subject.2.1)).map (·.graph)) := by
  obtain ⟨⟨id, number⟩, hqueue, hpledges⟩ := List.mem_flatMap.1 hmem
  have hfind := Assoc.find?_eq_some_of_mem h.ids_nodup hqueue
  cases hjob : batcher.job? number with
  | none => simp [Instruction.pledges, hjob] at hpledges
  | some job =>
    simp only [Instruction.pledges, hjob] at hpledges
    split at hpledges
    · obtain rfl := List.mem_singleton.1 hpledges
      refine ⟨hqueue, ?_⟩
      simp [waiting, hfind, hjob, Job.union_eq, Waiter.submission, Function.comp_def]
    · cases hpledges

/-! ## Survivors -/

section

variable [DecidableEq κ] [Catalog κ] {kind : κ} {first : Batcher κ} {log : List (Submission κ)}

/-- The ids with a request that was not cancelled. -/
def survivingIds (batcher : Batcher κ) (log : List (Submission κ)) : List Nat :=
  ((log.filter fun submission =>
    !(batcher.standing? submission.key == some .cancelled)).map (·.id)).dedup

omit [DecidableEq κ] [Catalog κ] in
/-- An id survives if one of its requests does. -/
theorem mem_survivingIds {id : Nat} :
    id ∈ batcher.survivingIds log ↔ batcher.survivors log id ≠ [] := by
  simp only [survivingIds, List.mem_dedup, List.mem_map, List.mem_filter, survivors, ne_eq,
    List.filter_eq_nil_iff, not_forall]
  constructor
  · rintro ⟨submission, ⟨hmem, hlive⟩, rfl⟩
    exact ⟨submission, hmem, by simpa using hlive⟩
  · rintro ⟨submission, hmem, hlive⟩
    exact ⟨submission, ⟨hmem, by simp_all⟩, by simp_all⟩

omit [DecidableEq κ] [Catalog κ] in
/-- When nothing is left to do, exactly the ids with a surviving request are going to be fetched. -/
theorem mem_wantedIds_iff_survivors (hsound : batcher.Sound) (h : batcher.Accounted log)
    (hrest : batcher.agenda = []) {id : Nat} :
    id ∈ batcher.wantedIds ↔ batcher.survivors log id ≠ [] := by
  rw [mem_wantedIds hsound, ← h.waiting_eq_survivors hrest, ne_eq, ne_eq, List.map_eq_nil_iff]

omit [DecidableEq κ] [Catalog κ] in
/-- Between two operations as many jobs are pending as there are ids with a request that was not
cancelled. -/
theorem Accounted.pendingJobs_eq (h : batcher.Accounted log) (hsound : batcher.Sound)
    (hrest : batcher.agenda = []) : batcher.pendingJobs = (batcher.survivingIds log).length := by
  have hperm : batcher.wantedIds.Perm (batcher.survivingIds log) := by
    apply (List.perm_ext_iff_of_nodup (nodup_wantedIds hsound) (List.nodup_dedup _)).2
    intro id
    exact (mem_wantedIds_iff_survivors hsound h hrest).trans mem_survivingIds.symm
  rw [← length_wantedIds, hperm.length_eq]

/-! ## The log of a window -/

omit [DecidableEq κ] [Catalog κ] in
/-- A request that is about to be queued was not queued before. -/
theorem not_wasQueued_of_arrivals {submission : Submission κ} (h : batcher.AtStage submission.key)
    (hmem : submission ∈ batcher.arrivals) : ¬ batcher.WasQueued submission.key := by
  rintro ⟨standing, job, hrequest⟩
  unfold arrivals at hmem
  split at hmem
  · cases hmem
  · rename_i instruction rest hagenda
    cases instruction with
    | enqueue key id graph handler =>
      obtain rfl := List.mem_singleton.1 hmem
      rw [AtStage, duties, hagenda, dutiesIn_cons] at h
      simp only [Instruction.duties_enqueue, if_true, List.singleton_append] at h
      obtain ⟨_, ⟨_, _, huntied⟩, _⟩ := h.enqueue
      rw [hrequest] at huntied
      cases huntied
    | _ => cases hmem

omit [DecidableEq κ] [Catalog κ] in
theorem mem_keys_arrivals {instruction : Instruction κ} {key : Nat} :
    key ∈ instruction.arrivals.map (·.key) ↔
      ∃ id graph handler, instruction = .enqueue key id graph handler := by
  cases instruction <;> simp [Instruction.arrivals, eq_comm]

/-- Whoever was queued was queued before, or is one of those who were queued on the way. -/
theorem Queued.wasQueued_iff (h : Queued first log batcher) (hreachable : Reachable kind first)
    (key : Nat) : batcher.WasQueued key ↔ first.WasQueued key ∨ key ∈ log.map (·.key) := by
  induction h with
  | refl => simp
  | @start log batcher hbefore operation _ _ ih =>
    rw [← ih]
    constructor
    · rintro ⟨standing, job, hrequest⟩
      obtain ⟨earlier, hearlier⟩ := (turn_start operation batcher key).tied id hrequest
      exact ⟨earlier, job, hearlier⟩
    · exact (RequestsPrecede.start operation batcher).wasQueued
  | @step log batcher hbefore ih =>
    have hnow : Reachable kind batcher := hreachable.trans hbefore.reaches
    have hsound := hnow.sound
    have hstage := hnow.atStage
    rw [List.map_append, List.mem_append, ← or_assoc, ← ih]
    cases hagenda : batcher.agenda with
    | nil =>
      rw [step_eq_self hagenda, arrivals, hagenda, List.map_nil, or_iff_left List.not_mem_nil]
    | cons instruction rest =>
      obtain ⟨before, rfl, hstep⟩ := step_eq_execute hagenda
      rw [hstep, arrivals, hagenda, mem_keys_arrivals]
      exact wasQueued_execute hsound hstage key

/-- Nobody is queued twice. -/
theorem Queued.not_wasQueued (h : Queued first log batcher) (hreachable : Reachable kind first) :
    ∀ submission ∈ log, ¬ first.WasQueued submission.key := by
  induction h with
  | refl => exact fun _ hmem => absurd hmem List.not_mem_nil
  | start _ _ _ ih => exact ih
  | @step log batcher hbefore ih =>
    intro submission hmem
    rcases List.mem_append.1 hmem with hold | hnew
    · exact ih submission hold
    · have hnow : Reachable kind batcher := hreachable.trans hbefore.reaches
      intro hqueued
      exact not_wasQueued_of_arrivals (hnow.atStage submission.key) hnew
        ((hreachable.requestsPrecede hbefore.reaches).wasQueued hqueued)

/-- Between two operations the log lists all requests that were made and not queued before. -/
theorem Queued.mem_keys (h : Queued first log batcher) (hreachable : Reachable kind first)
    (hrest : batcher.agenda = []) (key : Nat) :
    key ∈ log.map (·.key) ↔ key < batcher.requests.length ∧ ¬ first.WasQueued key := by
  have hall := h.wasQueued_iff hreachable key
  constructor
  · intro hmem
    refine ⟨(hall.2 (.inr hmem)).lt_length, ?_⟩
    obtain ⟨submission, hsubmission, rfl⟩ := List.mem_map.1 hmem
    exact h.not_wasQueued hreachable submission hsubmission
  · rintro ⟨hlt, hnew⟩
    have hnow : Reachable kind batcher := hreachable.trans h.reaches
    exact (hall.1 ((hnow.atStage key).wasQueued hrest hlt)).resolve_left hnew

omit [DecidableEq κ] [Catalog κ] in
/-- Whatever is to be queued is queued by the time the agenda is empty. -/
theorem mem_arrivalsWithin {key id : Nat} {graph : Graph κ} (handler : Handler κ) {fuel : Nat}
    (hmem : .enqueue key id graph handler ∈ batcher.agenda)
    (hend : (batcher.steps fuel).agenda = []) :
    ⟨key, id, graph⟩ ∈ batcher.arrivalsWithin fuel := by
  obtain ⟨before, after, rfl, hturn⟩ := exists_turn hmem hend
  obtain ⟨rest, hagenda⟩ := List.head?_eq_some_iff.1 hturn
  rw [arrivalsWithin_add, arrivalsWithin]
  apply List.mem_append_right
  apply List.mem_append_left
  rw [arrivals, hagenda]
  exact List.mem_singleton_self _

/-- What is requested is in the log. -/
theorem mem_log_of_submit (hopen : batcher.isOpen = true) (id : Nat) (graph : Graph κ)
    (handler : Handler κ) :
    ⟨batcher.requests.length, id, graph⟩ ∈
      (batcher.start (.submit id graph handler)).arrivalsWithin
        (batcher.start (.submit id graph handler)).weight := by
  refine mem_arrivalsWithin handler ?_ (agenda_drain _)
  simp [Batcher.start, Batcher.request, hopen, push]

/-! ## Running a window -/

/-- What it comes to when a window is closed while nobody cancels. -/
structure Coalesced (kind : κ) (first : Batcher κ) (log : List (Submission κ)) (batcher : Batcher κ)
    (started : List (Nat × Fetch κ)) : Prop where
  /-- The window is about all requests that were made since it was opened. -/
  made : ∀ key, key ∈ log.map (·.key) ↔ key < batcher.requests.length ∧ ¬ first.WasQueued key
  /-- These fetches are started, and no other. -/
  fetches : batcher.run.2.fetches = batcher.fetches ++ started
  /-- The ids that are fetched are those with a request that was not cancelled. -/
  mem_ids : ∀ id, id ∈ started.map (·.2.id) ↔ batcher.survivors log id ≠ []
  /-- No id is fetched twice. -/
  nodup_ids : (started.map (·.2.id)).Nodup
  /-- What is fetched for an id is the union of what was asked for it and not cancelled. -/
  graph : ∀ entry ∈ started, (entry.2.id, entry.2.job) ∈ batcher.queue ∧
    entry.2.aborted = false ∧
    entry.2.graph = Graph.unionAll kind ((batcher.survivors log entry.2.id).map (·.graph))
  /-- The number of fetches is what was announced. -/
  count : batcher.run.1 = started.length ∧ batcher.run.1 = batcher.pendingJobs
  /-- From then on only requests count that were made since then. -/
  afterwards : ∀ queued later, Queued (batcher.start .run) queued later → later.agenda = [] →
    (∀ key, key ∈ queued.map (·.key) ↔
      batcher.requests.length ≤ key ∧ key < later.requests.length) ∧
    later.pendingJobs = (later.survivingIds queued).length
  /-- No other request ever has a part in the fetch of the window, whatever comes later. -/
  sealed : ∀ later, Reaches (batcher.start .run) later → ∀ entry ∈ later.fetches,
    ∀ id, (id, entry.2.job) ∈ batcher.queue → entry.2.id = id ∧
      ∃ members ⊆ batcher.survivors log id,
        entry.2.graph = Graph.unionAll kind (members.map (·.graph)) ∧
        ∀ job, later.job? entry.2.job = some job →
          job.waiters.map (Waiter.submission id) ⊆ members

omit [DecidableEq κ] [Catalog κ] in
theorem mem_numbered {next : Nat} {subjects : List (Nat × Nat × Graph κ)}
    {entry : Nat × Fetch κ} (h : entry ∈ numbered next subjects) :
    ∃ subject ∈ subjects, entry.2 = .ofSubject subject := by
  obtain ⟨index, hindex, heq⟩ := List.mem_mapIdx.1 h
  exact ⟨_, List.getElem_mem hindex, (congrArg Prod.snd heq).symm⟩

omit [DecidableEq κ] [Catalog κ] in
theorem map_id_numbered (next : Nat) (subjects : List (Nat × Nat × Graph κ)) :
    (numbered next subjects).map (·.2.id) = subjects.map (·.2.1) := by
  apply List.ext_getElem
  · simp [numbered]
  · simp [numbered, Fetch.ofSubject]

/-- Closing a window starts one fetch for every id with a request that was not cancelled, for the
union of all that was asked for it. -/
theorem Window.coalesced (h : Window kind first log batcher) (hrest : batcher.agenda = [])
    (hquiet : (batcher.start .run).undisturbed (batcher.start .run).weight = true) :
    ∃ started, Coalesced kind first log batcher started := by
  have hbatcher := h.reachable
  have hsound := hbatcher.sound
  have haccounted := h.accounted
  obtain ⟨hfetches, hnext⟩ := fetches_run hbatcher hrest hquiet
  have hids : (numbered batcher.nextFetch batcher.pledged).map (·.2.id) = batcher.wantedIds :=
    (map_id_numbered _ _).trans batcher.map_id_pledged
  have hlength : (numbered batcher.nextFetch batcher.pledged).length = batcher.pledged.length :=
    List.length_mapIdx
  have hcount : batcher.pledged.length = batcher.pendingJobs := by
    rw [← length_wantedIds, ← batcher.map_id_pledged, List.length_map]
  have hrun : batcher.run.1 = batcher.pledged.length := by
    change (batcher.perform .run).nextFetch - batcher.nextFetch = _
    omega
  have hstarted : Reachable kind (batcher.start .run) := hbatcher.trans (reaches_start _ _)
  have hold : ∀ key, (batcher.start .run).WasQueued key ↔ key < batcher.requests.length := by
    intro key
    refine ⟨fun hqueued => hqueued.lt_length, fun hlt => ?_⟩
    exact (hbatcher.atStage key).wasQueued hrest hlt
  use numbered batcher.nextFetch batcher.pledged
  exact {
    made := h.queued.mem_keys h.opened.reachable hrest
    fetches := hfetches
    mem_ids := fun id => by
      rw [hids]
      exact mem_wantedIds_iff_survivors hsound haccounted hrest
    nodup_ids := by
      rw [hids]
      exact nodup_wantedIds hsound
    graph := fun entry hentry => by
      obtain ⟨subject, hsubject, heq⟩ := mem_numbered hentry
      obtain ⟨hqueue, hgraph⟩ := of_mem_pledged hsound hsubject
      rw [heq]
      refine ⟨hqueue, rfl, ?_⟩
      rw [← haccounted.waiting_eq_survivors hrest, ← hbatcher.kind_eq]
      exact hgraph
    count := ⟨hrun.trans hlength.symm, hrun.trans hcount⟩
    afterwards := fun queued later hqueued hend => by
      have hlater : Reachable kind later := hstarted.trans hqueued.reaches
      constructor
      · intro key
        rw [hqueued.mem_keys hstarted hend, hold key, Nat.not_lt]
        exact and_comm
      · exact (hqueued.accounted hstarted (accounted_run haccounted.isOpen)).pendingJobs_eq
          hlater.sound hend
    sealed := fun later hlater entry hentry id hmem => h.sealed hrest hlater hentry hmem }

end

/-! ## An example -/

/-- Requests for two people.  The first two are cancelled, one of them by its own handler before it
is queued.  The handler of the last one makes another request when the work is given out. -/
def regattaOperations : List (Operation Harbor.Kind) :=
  [.submit 1 Harbor.crewList [], .submit 1 Harbor.homePort [(.pre, .cancel 1)], .cancel 0,
    .submit 1 Harbor.crewList [], .submit 1 Harbor.homePort [],
    .submit 2 Harbor.homePort [(.post, .submit 1 Harbor.crewList [])]]

/-- A batcher with the window that these requests have filled. -/
def regatta : Batcher Harbor.Kind :=
  (Batcher.empty .person).performAll regattaOperations

def regattaLog : List (Submission Harbor.Kind) :=
  (Batcher.empty .person).arrivalsAll regattaOperations

theorem regatta_window : Window .person (.empty .person) regattaLog regatta := by
  have hfirst : Queued (Batcher.empty Harbor.Kind.person) [] (.empty .person) := .refl
  have hoperations : ∀ operation ∈ regattaOperations, operation ≠ .run ∧ operation ≠ .close := by
    simp [regattaOperations]
  exact ⟨.made, hfirst.performAll hoperations⟩

theorem survivors_regatta :
    regatta.survivors regattaLog 1 = [⟨2, 1, Harbor.crewList⟩, ⟨3, 1, Harbor.homePort⟩] ∧
      regatta.survivors regattaLog 2 = [⟨4, 2, Harbor.homePort⟩] :=
  ⟨rfl, rfl⟩

theorem regatta_coalesced : regatta.pendingJobs = 2 ∧ ∃ started,
    Coalesced .person (.empty .person) regattaLog regatta started ∧
      ∀ entry ∈ started, entry.2.id = 1 →
        entry.2.graph = Graph.unionAll .person [Harbor.crewList, Harbor.homePort] := by
  obtain ⟨started, hstarted⟩ := Window.coalesced regatta_window rfl rfl
  refine ⟨rfl, started, hstarted, fun entry hentry hid => ?_⟩
  obtain ⟨_, _, hgraph⟩ := hstarted.graph entry hentry
  rw [hgraph, hid, survivors_regatta.1]
  rfl

end Batcher

end PartialEntity
