import Mathlib
import PartialEntity.Proofs.Batch.Coalescing
import PartialEntity.Proofs.Batch.Settling

/-!
# Deliveries

When a fetch is answered, each request that still waits for it is told what the answer is for it.
If the answer is the copy of a record through the union of the graphs, that is the copy of the
record through the graph of the request alone, whoever else was on board.
-/

namespace PartialEntity

open Batch

variable {κ : Type}

namespace Batcher

variable {batcher : Batcher κ}

variable [DecidableEq κ] [Catalog κ]

/-! ## Answers -/

/-- A request was answered: its handler was told that the work was given out, and then what the
outcome is. -/
structure Delivered (key : Nat) (outcome : Outcome κ) (batcher : Batcher κ) : Prop where
  callbacks : batcher.callbacks key = [.pre, .post] ++ outcome.ending
  standing : batcher.standing? key = some .settled
  outcome : batcher.outcome? key = some outcome

omit [DecidableEq κ] [Catalog κ] in
theorem exists_mem_ending (outcome : Outcome κ) :
    ∃ callback ∈ outcome.ending, callback.outcome? = some outcome := by
  cases outcome with
  | success value => exact ⟨.success value, by simp [Outcome.ending], rfl⟩
  | failed error => exact ⟨.fail error, by simp [Outcome.ending], rfl⟩
  | cancelled => exact ⟨.cancel, by simp [Outcome.ending], rfl⟩

omit [DecidableEq κ] [Catalog κ] in
theorem call_mem_settle (waiter : Waiter κ) {outcome : Outcome κ} {callback : Callback κ}
    (h : callback ∈ outcome.ending) : waiter.call callback ∈ waiter.settle outcome := by
  cases outcome <;> simp only [Outcome.ending, List.mem_cons, List.not_mem_nil, or_false] at h <;>
    rcases h with rfl | rfl | rfl <;> simp [Waiter.settle]

omit [DecidableEq κ] [Catalog κ] in
/-- A request whose handler was told an outcome and destroyed has ended with that outcome. -/
theorem AtStage.of_told {key : Nat} {outcome : Outcome κ} (h : batcher.AtStage key)
    (houtcome : outcome ≠ .cancelled)
    (htold : ∀ callback ∈ outcome.ending, callback ∈ batcher.callbacks key) :
    batcher.Delivered key outcome := by
  obtain ⟨body, hending, _⟩ := outcome.ending_eq
  have hdestroy : .destroy ∈ batcher.callbacks key := htold _ (by simp [hending])
  obtain ⟨other, first, hopening, hcallbacks, hstanding, hfinal⟩ := h.of_destroyed hdestroy
  obtain ⟨callback, hmem, hannounces⟩ := exists_mem_ending outcome
  have hsame : outcome = other := by
    have honly := Outcome.filterMap_outcome? hopening
    rw [← hcallbacks] at honly
    apply List.mem_singleton.1
    rw [← honly]
    exact List.mem_filterMap.2 ⟨callback, htold callback hmem, hannounces⟩
  subst hsame
  cases outcome with
  | success value => exact ⟨by rw [hcallbacks, List.mem_singleton.1 hopening], hstanding, hfinal⟩
  | failed error => exact ⟨by rw [hcallbacks, List.mem_singleton.1 hopening], hstanding, hfinal⟩
  | cancelled => contradiction

/-- The answer of a fetch is delivered to everybody who waits in its job. -/
theorem delivered_complete {kind : κ} (h : Reachable kind batcher) {target : Nat}
    {fetch : Fetch κ} (hfetch : batcher.fetch? target = some fetch) {job : Job κ}
    (hjob : batcher.job? fetch.job = some job) {waiter : Waiter κ} (hmem : waiter ∈ job.waiters)
    (answer : Except Error (Option (Entity κ))) :
    (batcher.perform (.complete target answer)).Delivered waiter.key (waiter.outcome answer) := by
  have hreachable : Reachable kind (batcher.perform (.complete target answer)) :=
    h.trans (reaches_perform _ _)
  apply (hreachable.atStage waiter.key).of_told (waiter.outcome_ne_cancelled answer)
  intro callback hcallback
  apply mem_callbacks_drain waiter.handler
  have hcall : waiter.call callback ∈ waiter.deliver answer :=
    List.mem_cons_of_mem _ (call_mem_settle waiter hcallback)
  simp only [start, complete, hfetch, hjob]
  apply List.mem_append_left
  apply List.mem_append_left
  exact List.mem_flatMap.2 ⟨waiter, hmem, hcall⟩

omit [DecidableEq κ] [Catalog κ] in
/-- A pending request has a waiter in its job when there is no work to do about it. -/
theorem exists_waiter_of_pending {key number : Nat} (hstage : batcher.AtStage key)
    (hsound : batcher.Sound) (hregistered : batcher.Registered) (hrest : batcher.agenda = [])
    (hrequest : batcher.requests[key]? = some ⟨.pending, some number⟩) :
    ∃ job, batcher.job? number = some job ∧ ∃ waiter ∈ job.waiters, waiter.key = key := by
  rw [AtStage, hrequest, duties_of_rest hrest] at hstage
  have hheld : batcher.held key ≠ [] := by
    intro hnone
    rw [hnone] at hstage
    exact hstage.pending_ne_nil rfl
  obtain ⟨waiter, hwaiter⟩ := List.exists_mem_of_ne_nil _ hheld
  obtain ⟨⟨other, job⟩, hentry, hmine⟩ := List.mem_flatMap.1 hwaiter
  obtain ⟨hmem, hkey⟩ := List.mem_filter.1 hmine
  have hkey : waiter.key = key := by simpa using hkey
  have hjob : batcher.job? other = some job :=
    Assoc.find?_eq_some_of_mem hsound.jobs_nodup hentry
  obtain rfl := hregistered.job_eq hjob hmem (hkey ▸ hrequest)
  exact ⟨job, hjob, waiter, hmem, hkey⟩

omit [DecidableEq κ] [Catalog κ] in
/-- No request waits twice. -/
theorem eq_of_mem_waiting (hstage : ∀ key, batcher.AtStage key) {id other : Nat}
    {left right : Waiter κ} (hleft : left ∈ batcher.waiting id)
    (hright : right ∈ batcher.waiting other) (hkey : left.key = right.key) : left = right := by
  have hlength := Stage.length_flags_le (hstage left.key)
  rw [List.length_map] at hlength
  have hfirst := mem_held_of_mem_waiting hleft
  have hsecond := mem_held_of_mem_waiting hright
  rw [← hkey] at hsecond
  have hpos := List.length_pos_of_mem hfirst
  obtain ⟨only, hheld⟩ := List.length_eq_one_iff.1 (Nat.le_antisymm hlength hpos)
  rw [hheld] at hfirst hsecond
  rw [List.mem_singleton.1 hfirst, List.mem_singleton.1 hsecond]

end Batcher

/-! ## Copies -/

namespace Batch

variable [DecidableEq κ] [Catalog κ]

/-- The copy of a record through a wider graph is narrowed to the copy through the graph that was
asked for. -/
theorem Waiter.outcome_restrict {record : Entity κ} (hrecord : record.Throughout Entity.Sound)
    {waiter : Waiter κ} (hanswers : record.Answers waiter.graph) {wide : Graph κ}
    (hwide : ∀ path, waiter.graph.selects path = true → wide.selects path = true) :
    waiter.outcome (.ok (some (record.restrict wide.selects))) =
      .success (some (record.restrict waiter.graph.selects)) := by
  have hsound := hrecord.restrict wide.selects
  have hclean := Entity.clean_restrict (hrecord.mono fun _ h => h.toFits) wide.selects
  have hcopy : (record.restrict wide.selects).cloneAll = record.restrict wide.selects := by
    rw [Entity.cloneAll_eq_restrict hsound,
      Entity.restrict_top (hsound.mono fun _ h => h.toFits) hclean]
  have hregular : ∀ path, waiter.graph.selects path = true →
      Catalog.OnPath Catalog.Regular (record.restrict wide.selects).kind path := by
    rw [Entity.kind_restrict]
    exact hanswers.regular
  unfold Waiter.outcome
  simp only [hcopy, Entity.intersect_eq_restrict hanswers.wellFormed hsound hclean hregular,
    Entity.restrict_restrict_of_subset record hwide]

end Batch

/-! ## Windows -/

namespace Batcher

variable {first batcher later : Batcher κ} [DecidableEq κ] [Catalog κ] {kind : κ}
variable {log : List (Submission κ)} {id number : Nat}

/-- A request of a closed window that was not cancelled since then waits in the job of its id, as
long as the fetch for the id is under way. -/
theorem Window.exists_waiter (h : Window kind first log batcher) (hrest : batcher.agenda = [])
    (hlater : Reaches (batcher.start .run) later) (hend : later.agenda = []) {target : Nat}
    {fetch : Fetch κ} (hfetch : later.fetch? target = some fetch)
    (hmem : (id, fetch.job) ∈ batcher.queue) {submission : Submission κ}
    (hsurvives : submission ∈ later.survivors log id) :
    ∃ job, later.job? fetch.job = some job ∧
      ∃ waiter ∈ job.waiters, waiter.submission id = submission := by
  have hbatcher := h.reachable
  have hreaches : Reaches batcher later := (reaches_start _ _).trans hlater
  have hreachable : Reachable kind later := hbatcher.trans hreaches
  have hprecede := hbatcher.requestsPrecede hreaches
  obtain ⟨member, hmember, hsubmission, hrequest⟩ :=
    h.exists_waiting hrest hmem (hprecede.survivors_subset h.accounted.attached hsurvives)
  have hlive : later.standing? submission.key ≠ some .cancelled := by
    have hfilter := (List.mem_filter.1 hsurvives).2
    simp_all
  have hopen := hbatcher.not_settled hrest hmem hrequest (by simp) hlater hend hfetch rfl
  have hpending : later.requests[submission.key]? = some ⟨.pending, some fetch.job⟩ := by
    obtain ⟨now, hnow, _⟩ := hprecede.tied hrequest
    rw [standing?, hnow] at hlive hopen
    cases now with
    | pending => exact hnow
    | settled => exact absurd rfl hopen
    | cancelled => exact absurd rfl hlive
  obtain ⟨found, hfound, waiter, hwaiter, hsame⟩ :=
    exists_waiter_of_pending (hreachable.atStage submission.key) hreachable.sound
      hreachable.registered hend hpending
  refine ⟨found, hfound, waiter, hwaiter, ?_⟩
  obtain ⟨second, hsecond, hseat⟩ := List.mem_map.1
    ((hbatcher.departed hmem hlater).seats _ (mem_seats_of_job hfound hwaiter) rfl)
  have hkey : member.key = submission.key := congrArg Submission.key hsubmission
  have hseatKey : second.key = waiter.key := congrArg Seat.key hseat
  have hseatGraph : second.graph = waiter.graph := congrArg Seat.graph hseat
  obtain rfl : member = second := eq_of_mem_waiting hbatcher.atStage hmember hsecond
    (hkey.trans (hsame.symm.trans hseatKey.symm))
  rw [← hsubmission, Waiter.submission, Waiter.submission, hseatKey, hseatGraph]

/-- Batching is transparent.  What is fetched for an id of a closed window is the union of what
some of its requests have asked for, among them all that were not cancelled since then.  When the
fetch is answered, each of these is delivered what a fetch of its own would have brought it. -/
theorem Window.delivered (h : Window kind first log batcher) (hrest : batcher.agenda = [])
    (hlater : Reaches (batcher.start .run) later) (hend : later.agenda = []) {target : Nat}
    {fetch : Fetch κ} (hfetch : later.fetch? target = some fetch)
    (hmem : (id, fetch.job) ∈ batcher.queue) :
    fetch.id = id ∧ ∃ members ⊆ batcher.survivors log id,
      later.survivors log id ⊆ members ∧
      fetch.graph = Graph.unionAll kind (members.map (·.graph)) ∧
      (∀ record : Entity κ, record.kind = kind → record.Throughout Entity.Sound →
        (∀ submission ∈ members, record.Answers submission.graph) →
        ∃ value, Entity.cloneGraph fetch.graph record = .ok value ∧
          ∀ submission ∈ later.survivors log id,
            ∃ copy, Entity.cloneGraph submission.graph record = .ok copy ∧
              (later.perform (.complete target (.ok (some value)))).Delivered submission.key
                (.success (some copy))) ∧
      ∀ submission ∈ later.survivors log id,
        (later.perform (.complete target (.ok none))).Delivered submission.key (.success none) ∧
        ∀ error, (later.perform (.complete target (.error error))).Delivered submission.key
          (.failed error) := by
  have hreachable : Reachable kind later :=
    (h.reachable.trans (reaches_start _ _)).trans hlater
  obtain ⟨hid, members, hmembers, hunion, haboard⟩ :=
    h.sealed hrest hlater (Assoc.mem_of_find? hfetch) hmem
  have hwaiter : ∀ submission ∈ later.survivors log id, submission ∈ members ∧
      ∃ waiter : Waiter κ, waiter.graph = submission.graph ∧
        ∀ answer, (later.perform (.complete target answer)).Delivered submission.key
          (waiter.outcome answer) := by
    intro submission hsurvives
    obtain ⟨job, hjob, waiter, hwaits, rfl⟩ :=
      h.exists_waiter hrest hlater hend hfetch hmem hsurvives
    exact ⟨haboard job hjob (List.mem_map_of_mem (f := Waiter.submission id) hwaits), waiter, rfl,
      delivered_complete hreachable hfetch hjob hwaits⟩
  refine ⟨hid, members, hmembers, fun submission hsurvives => (hwaiter submission hsurvives).1,
    hunion, fun record hkind hrecord hanswers => ?_, fun submission hsurvives => ?_⟩
  · have hfetched : record.Answers fetch.graph := by
      rw [hunion, ← hkind]
      apply Entity.Answers.unionAll _ hrecord
      intro graph hgraph
      obtain ⟨submission, hmember, rfl⟩ := List.mem_map.1 hgraph
      exact hanswers submission hmember
    refine ⟨_, hfetched.cloneGraph_eq hrecord, fun submission hsurvives => ?_⟩
    obtain ⟨hmember, waiter, hgraph, houtcome⟩ := hwaiter submission hsurvives
    have hanswered : record.Answers waiter.graph := hgraph ▸ hanswers submission hmember
    have hwide : ∀ path, waiter.graph.selects path = true → fetch.graph.selects path = true := by
      intro path hpath
      rw [hunion]
      exact Graph.selects_unionAll.2 ⟨_, List.mem_map_of_mem hmember, hgraph ▸ hpath⟩
    refine ⟨record.restrict waiter.graph.selects, ?_, ?_⟩
    · rw [← hgraph]
      exact hanswered.cloneGraph_eq hrecord
    · rw [← Waiter.outcome_restrict hrecord hanswered hwide]
      exact houtcome _
  · obtain ⟨_, waiter, _, houtcome⟩ := hwaiter submission hsurvives
    exact ⟨houtcome (.ok none), fun error => houtcome (.error error)⟩

/-! ## An example -/

/-- The window of the regatta was closed, and one of the requests for the first person was cancelled
while the fetch was under way. -/
def regattaUnderway : Batcher Harbor.Kind :=
  (regatta.perform .run).perform (.cancel 2)

theorem regatta_delivered : ∃ value copy,
    Entity.cloneGraph (Graph.unionAll .person [Harbor.crewList, Harbor.homePort])
      Harbor.Samples.ann = .ok value ∧
    Entity.cloneGraph Harbor.homePort Harbor.Samples.ann = .ok copy ∧
    (regattaUnderway.perform (.complete 0 (.ok (some value)))).Delivered 3
      (.success (some copy)) := by
  have hregular : ∀ graph : Graph Harbor.Kind, ∀ path, graph.selects path = true →
      Catalog.OnPath Catalog.Regular Harbor.Samples.ann.kind path :=
    fun _ path _ => Harbor.onPath_regular (by exact trivial) path
  have hanswers : ∀ submission ∈ regatta.survivors regattaLog 1,
      Harbor.Samples.ann.Answers submission.graph := by
    rw [survivors_regatta.1, List.forall_mem_cons, List.forall_mem_singleton]
    exact ⟨⟨Harbor.wellFormed_crewList, rfl, hregular _, rfl⟩,
      ⟨Harbor.wellFormed_homePort, rfl, hregular _, rfl⟩⟩
  have hlater : Reaches (regatta.start .run) regattaUnderway :=
    (reaches_steps _ _).trans (reaches_perform _ _)
  have hfetch : regattaUnderway.fetch? 0 =
      some ⟨1, 1, Graph.unionAll .person [Harbor.crewList, Harbor.homePort], false⟩ := rfl
  have hleft : regattaUnderway.survivors regattaLog 1 = [⟨3, 1, Harbor.homePort⟩] := rfl
  obtain ⟨_, members, hmembers, _, _, hrecord, _⟩ :=
    Window.delivered regatta_window rfl hlater rfl hfetch (List.mem_cons_self ..)
  obtain ⟨value, hvalue, hdelivered⟩ := hrecord Harbor.Samples.ann rfl
    Harbor.Samples.isRecord_ann.lawful.sound
    fun submission hmember => hanswers submission (hmembers hmember)
  obtain ⟨copy, hcopy, htold⟩ := hdelivered ⟨3, 1, Harbor.homePort⟩ (by simp [hleft])
  exact ⟨value, copy, hvalue, hcopy, htold⟩

end Batcher

end PartialEntity
