import Mathlib
import PartialEntity.Harbor.Kinds
import PartialEntity.Proofs.Batch.History
import PartialEntity.Proofs.Batch.Stage

/-!
# The life of a request

Whatever is done with a batcher, every request goes through the stages in order.  So its handler is
called in one of a few orders, and the last call comes when the request has ended for good.
-/

namespace PartialEntity

open Batch

variable {κ : Type}

namespace Batch

theorem Job.waiter?_eq_head? (job : Job κ) (key : Nat) :
    job.waiter? key = (waitersOf key job.waiters).head? :=
  List.head?_filter.symm

theorem waitersOf_without_self (job : Job κ) (key : Nat) :
    waitersOf key (job.without key) = [] := by
  unfold waitersOf Job.without
  rw [List.filter_filter]
  apply List.filter_eq_nil_iff.2
  simp

theorem waitersOf_without_of_ne (job : Job κ) {key other : Nat} (hne : other ≠ key) :
    waitersOf other (job.without key) = waitersOf other job.waiters := by
  unfold waitersOf Job.without
  rw [List.filter_filter]
  apply List.filter_congr
  intro waiter _
  by_cases hkey : waiter.key = other
  · simp [hkey, hne]
  · simp [hkey]

theorem key_of_mem_waitersOf {key : Nat} {waiters : List (Waiter κ)} {waiter : Waiter κ}
    (h : waiter ∈ waitersOf key waiters) : waiter.key = key := by
  simpa using (List.mem_filter.1 h).2

theorem key_of_waitersOf_eq {key : Nat} {waiters : List (Waiter κ)} {waiter : Waiter κ}
    (h : waitersOf key waiters = [waiter]) : waiter.key = key := by
  have hmem : waiter ∈ waitersOf key waiters := by
    rw [h]
    exact List.mem_singleton_self waiter
  exact key_of_mem_waitersOf hmem

theorem waitersOf_filter (key : Nat) (p : Waiter κ → Bool) (waiters : List (Waiter κ)) :
    waitersOf key (waiters.filter p) = (waitersOf key waiters).filter p := by
  unfold waitersOf
  rw [List.filter_filter, List.filter_filter]
  apply List.filter_congr
  intro waiter _
  exact Bool.and_comm _ _

theorem waitersOf_map {f : Waiter κ → Waiter κ} (hf : ∀ waiter, (f waiter).key = waiter.key)
    (key : Nat) (waiters : List (Waiter κ)) :
    waitersOf key (waiters.map f) = (waitersOf key waiters).map f := by
  unfold waitersOf
  rw [List.filter_map]
  congr 1
  apply List.filter_congr
  intro waiter _
  simp [hf]

end Batch

namespace Batcher

variable {batcher : Batcher κ} {key : Nat}

/-- Work that concerns a request not at all can be added behind other work. -/
theorem AtStage.push_append {work extra : List (Instruction κ)}
    (h : (batcher.push work).AtStage key) (hextra : dutiesIn key extra = []) :
    (batcher.push (work ++ extra)).AtStage key := by
  unfold AtStage at h ⊢
  rw [duties_push, dutiesIn_append, hextra, List.append_nil, ← duties_push]
  exact h

/-! ## Cancelling -/

/-- What a cancellation does for the request that it is about. -/
theorem stage_withdraw_self {told : List (Callback κ)} {request : Option Request}
    {duties : List (Duty κ)} {before after : List (Waiter κ)} {job : Job κ}
    (h : Stage told request duties
      ((before ++ waitersOf key job.waiters ++ after).map (·.dispatched))) :
    Stage told request
      (dutiesIn key (((job.waiter? key).map fun waiter => waiter.settle .cancelled).getD []) ++
        duties)
      ((before ++ waitersOf key (job.without key) ++ after).map (·.dispatched)) := by
  rw [waitersOf_without_self, List.append_nil, job.waiter?_eq_head?]
  apply Stage.release h
  · intro hnone
    rw [hnone]
    rfl
  · intro waiter number hone htold hrequest
    rw [hone, htold, hrequest, ← key_of_waitersOf_eq hone]
    exact stage_settle waiter .cancelled number (.inl rfl)

/-- Nothing is done about one request when another one is cancelled. -/
theorem duties_withdraw_of_ne {target : Nat} (hne : target ≠ key) (number : Nat)
    (batcher : Batcher κ) : dutiesIn key (batcher.withdraw target number).work = [] := by
  rcases withdraw_cases target number batcher with heq | ⟨job, rest, fetches, -, -, -, heq⟩
  · rw [heq]
    rfl
  · rw [heq]
    cases hfind : job.waiter? target with
    | none => rfl
    | some waiter =>
      have hwaiter : waiter.key = target := by simpa using List.find?_some hfind
      exact waiter.dutiesIn_settle_of_ne (hwaiter.trans_ne hne) .cancelled

theorem AtStage.withdraw (h : batcher.AtStage key) (target number : Nat) :
    ((batcher.withdraw target number).batcher.push
      (batcher.withdraw target number).work).AtStage key := by
  rcases withdraw_cases target number batcher with
    heq | ⟨job, rest, fetches, hjob, hrest, _, heq⟩
  · rw [heq]
    exact h
  · obtain ⟨hwaiters, _, _⟩ := Job.withdraw_eq_some hrest
    obtain ⟨before, after, hheld⟩ := held_setJob hjob
    obtain ⟨hold, hnew⟩ := hheld key
    rw [heq]
    unfold AtStage at h ⊢
    rw [duties_push]
    change Stage (batcher.callbacks key) batcher.requests[key]? (_ ++ batcher.duties key)
      (((batcher.setJob number rest).held key).map (·.dispatched))
    rw [hnew rest, hwaiters]
    rw [hold] at h
    by_cases hkey : key = target
    · subst hkey
      exact stage_withdraw_self h
    · rw [waitersOf_without_of_ne job hkey]
      have hwork : dutiesIn key
          (((job.waiter? target).map fun waiter => waiter.settle .cancelled).getD []) = [] := by
        have hnone := duties_withdraw_of_ne (Ne.symm hkey) number batcher
        rwa [heq] at hnone
      rw [hwork, List.nil_append]
      exact h

theorem getElem?_changeRequest (key other : Nat) (change : Request → Request)
    (batcher : Batcher κ) : (batcher.changeRequest other change).requests[key]? =
      if other = key then batcher.requests[key]?.map change else batcher.requests[key]? := by
  simp only [changeRequest, List.getElem?_modify]
  split <;> simp

/-- An attempt to cancel a request leaves every request at one of the stages. -/
theorem AtStage.retract (h : batcher.AtStage key) (target : Nat) :
    ((batcher.retract target).batcher.push (batcher.retract target).work).AtStage key := by
  unfold Batcher.retract
  split
  · rename_i hrequest
    change Stage (batcher.callbacks key)
      (batcher.changeRequest target (Request.mark .cancelled)).requests[key]?
      (batcher.duties key) _
    rw [getElem?_changeRequest]
    split
    · rename_i hkey
      subst hkey
      unfold AtStage at h
      rw [hrequest] at h ⊢
      exact h.cancel_unattached
    · exact h
  · exact h.withdraw target _
  · exact h

/-! ## Instructions -/

theorem AtStage.request (h : batcher.AtStage key) (id : Nat) (graph : Graph κ)
    (handler : Handler κ) : (batcher.request id graph handler).AtStage key := by
  unfold Batcher.request
  split
  · unfold AtStage at h ⊢
    rw [duties_push]
    change Stage (batcher.callbacks key) (batcher.requests ++ [.fresh])[key]?
      (_ ++ batcher.duties key) ((batcher.held key).map (·.dispatched))
    by_cases hkey : key = batcher.requests.length
    · have hnone : batcher.requests[key]? = none := by simp [hkey]
      rw [hnone] at h
      obtain ⟨htold, hduties, hheld⟩ := h.of_none
      rw [htold, hduties, hheld, hkey]
      simp only [dutiesIn_cons, dutiesIn_nil, Instruction.duties_call, Instruction.duties_enqueue,
        if_true, List.getElem?_concat_length]
      exact .announced (by simp)
    · have hrequest : (batcher.requests ++ [.fresh])[key]? = batcher.requests[key]? := by
        rcases Nat.lt_or_gt_of_ne hkey with hlt | hgt
        · exact List.getElem?_append_left hlt
        · rw [List.getElem?_eq_none (by simp; omega), List.getElem?_eq_none (by omega)]
      rw [hrequest]
      simpa [Ne.symm hkey] using h
  · exact h

theorem AtStage.react (h : batcher.AtStage key) (other : Nat) (reaction : Reaction κ) :
    (batcher.react other reaction).AtStage key := by
  cases reaction with
  | cancel target =>
    simp only [Batcher.react]
    split
    · exact (h.retract target).push_append rfl
    · exact h.push rfl
  | submit id graph handler => exact h.request id graph handler

/-! ## Queueing -/

/-- A waiter that joins a job is one more waiter. -/
theorem held_join (h : batcher.Sound) (id : Nat) (waiter : Waiter κ) :
    ∃ before after : Nat → List (Waiter κ), ∀ key,
      batcher.held key = before key ++ after key ∧
      (batcher.join id waiter).2.held key = before key ++ waitersOf key [waiter] ++ after key := by
  have hreplace : ∀ cleared : Batcher κ, cleared.Sound → ∀ key,
      (enqueue.replace id waiter cleared).held key =
        cleared.held key ++ waitersOf key [waiter] := by
    intro cleared hsound key
    simp only [held, enqueue.replace, Assoc.insert_of_find?_eq_none hsound.job?_nextJob,
      List.flatMap_append, List.flatMap_singleton]
    rfl
  rcases join_cases id waiter batcher with
    ⟨number, job, _, hjob, _, heq⟩ | ⟨number, job, hfind, hjob, hclosed, heq⟩ | ⟨_, heq⟩
  · obtain ⟨before, after, hheld⟩ := held_setJob hjob
    use fun key => before key ++ waitersOf key job.waiters, after
    intro key
    obtain ⟨hold, hnew⟩ := hheld key
    constructor
    · exact hold
    · rw [heq, hnew, Job.push, waitersOf_append]
      simp
  · -- The job in the way was settled, so it holds no request.
    have hvacant : job.waiters = [] := h.closed _ (Assoc.mem_of_find? hfind) job hjob hclosed
    obtain ⟨before, after, hheld⟩ := held_eraseJob h.jobs_nodup hjob
    use batcher.held, fun _ => []
    intro key
    obtain ⟨hold, hnew⟩ := hheld key
    constructor
    · simp
    · rw [heq, hreplace _ (h.eraseJob number), hold, hnew, hvacant]
      simp [waitersOf]
  · use batcher.held, fun _ => []
    intro key
    constructor
    · simp
    · rw [heq, hreplace batcher h, List.append_nil]

/-- Who waits in an open job can be withdrawn from it. -/
theorem withdraw_of_open {number : Nat} {job : Job κ} {waiter : Waiter κ}
    (hjob : batcher.job? number = some job) (hopen : job.isOpen = true)
    (hwaiter : job.waiter? key = some waiter) :
    (batcher.withdraw key number).result = true := by
  have hphase : job.phase = .queued := by simpa [Job.isOpen] using hopen
  simp [withdraw, hjob, Job.withdraw, hphase, hwaiter]

/-- A request whose only waiter is in an open job is taken out of it. -/
theorem withdraw_only {number : Nat} {job : Job κ} {waiter : Waiter κ}
    (hheld : batcher.held key = [waiter]) (hjob : batcher.job? number = some job)
    (hopen : job.isOpen = true) (hmem : waiter ∈ waitersOf key job.waiters) :
    ∃ after : Batcher κ,
      batcher.withdraw key number = ⟨true, after, waiter.settle .cancelled⟩ ∧
      after.history = batcher.history ∧ after.requests = batcher.requests ∧
      after.agenda = batcher.agenda ∧ after.held key = [] := by
  obtain ⟨before, after, hjobs⟩ := held_setJob hjob
  obtain ⟨hold, hnew⟩ := hjobs key
  have hlength := congrArg List.length (hold.symm.trans hheld)
  have hpos := List.length_pos_of_mem hmem
  simp only [List.length_append, List.length_singleton] at hlength
  have hbefore : before key = [] := List.length_eq_zero_iff.1 (by omega)
  have hafter : after key = [] := List.length_eq_zero_iff.1 (by omega)
  rw [hheld, hbefore, hafter, List.nil_append, List.append_nil] at hold
  have hfind : job.waiter? key = some waiter := by
    rw [job.waiter?_eq_head?, ← hold]
    rfl
  have hresult := withdraw_of_open hjob hopen hfind
  rcases withdraw_cases key number batcher with heq | ⟨job', rest, fetches, hjob', hrest, _, heq⟩
  · rw [heq] at hresult
    cases hresult
  · rw [hjob] at hjob'
    cases hjob'
    obtain ⟨hwaiters, _, _⟩ := Job.withdraw_eq_some hrest
    rw [hfind] at heq
    refine ⟨_, heq, rfl, rfl, rfl, ?_⟩
    change (batcher.setJob number rest).held key = []
    rw [hnew rest, hwaiters, waitersOf_without_self, hbefore, hafter]
    rfl

/-- A request that is tied to its job waits there, or it was cancelled before and leaves again. -/
theorem AtStage.settleIn_self {number : Nat} {job : Job κ} {waiter : Waiter κ}
    (hcallbacks : batcher.callbacks key = [.pre])
    (hrequest : ∃ standing, standing ≠ .settled ∧
      batcher.requests[key]? = some ⟨standing, none⟩)
    (hduties : batcher.duties key = []) (hheld : batcher.held key = [waiter])
    (hdispatched : waiter.dispatched = false)
    (hjob : batcher.job? number = some job) (hopen : job.isOpen = true)
    (hmem : waiter ∈ waitersOf key job.waiters) :
    (enqueue.settleIn key number batcher).AtStage key := by
  obtain ⟨standing, hstanding, hrequest⟩ := hrequest
  have htied : (batcher.changeRequest key fun request =>
      { request with job := some number }).requests[key]? = some ⟨standing, some number⟩ := by
    rw [getElem?_changeRequest, if_pos rfl, hrequest]
    rfl
  have hopening : batcher.callbacks key = opening waiter.dispatched := by
    rw [hcallbacks, hdispatched]
    rfl
  unfold enqueue.settleIn
  simp only
  split
  · rename_i hcancelled
    rw [standing?, htied] at hcancelled
    have hwithdrawn : standing = .cancelled := Option.some.inj hcancelled
    have hwaiting : (batcher.changeRequest key fun request =>
        { request with job := some number }).held key = [waiter] := hheld
    obtain ⟨after, heq, hhistory, hrequests, hagenda, hnone⟩ :=
      withdraw_only hwaiting hjob hopen hmem
    rw [heq]
    unfold AtStage
    rw [duties_push]
    have hafter : after.callbacks key = opening waiter.dispatched ∧ after.duties key = [] := by
      constructor
      · rw [← hopening, callbacks, hhistory]
        rfl
      · rw [← hduties, duties, hagenda]
        rfl
    have hkey : waiter.key = key := key_of_mem_waitersOf hmem
    have hstage := stage_settle waiter (.cancelled : Outcome κ) number (.inr hwithdrawn)
    rw [hkey] at hstage
    change Stage (after.callbacks key) after.requests[key]? (_ ++ after.duties key)
      ((after.held key).map (·.dispatched))
    rw [hafter.1, hafter.2, List.append_nil, hrequests, htied, hnone]
    exact hstage
  · rename_i hcancelled
    rw [standing?, htied] at hcancelled
    have hpending : standing = .pending := by
      cases standing with
      | pending => rfl
      | settled => exact absurd rfl hstanding
      | cancelled => exact absurd rfl hcancelled
    change Stage (batcher.callbacks key) _ (batcher.duties key)
      ((batcher.held key).map (·.dispatched))
    rw [htied, hpending, hduties, hheld]
    exact .waiting hopening

/-- When a request joins its job, the others stay where they are. -/
theorem AtStage.settleIn_of_ne (h : batcher.AtStage key) {other : Nat} (hne : other ≠ key)
    (number : Nat) : (enqueue.settleIn other number batcher).AtStage key := by
  have htied : (batcher.changeRequest other fun request =>
      { request with job := some number }).AtStage key := by
    unfold AtStage
    rw [getElem?_changeRequest, if_neg hne]
    exact h
  unfold enqueue.settleIn
  simp only
  split
  · exact htied.withdraw other number
  · exact htied

theorem AtStage.enqueue (hsound : batcher.Sound) {other id : Nat} {graph : Graph κ}
    {handler : Handler κ}
    (h : (batcher.push [.enqueue other id graph handler]).AtStage key) :
    (batcher.enqueue other id graph handler).AtStage key := by
  rw [enqueue_eq]
  obtain ⟨before, after, hheld⟩ := held_join hsound id ⟨other, graph, handler, false⟩
  obtain ⟨job, hjob, hopen, hmem⟩ := exists_job?_join id ⟨other, graph, handler, false⟩ batcher
  obtain ⟨queue, jobs, nextJob, hframe⟩ := join_frame id ⟨other, graph, handler, false⟩ batcher
  obtain ⟨hold, hnew⟩ := hheld key
  generalize (batcher.join id ⟨other, graph, handler, false⟩).1 = number at hjob ⊢
  generalize (batcher.join id ⟨other, graph, handler, false⟩).2 = joined at hjob hframe hnew ⊢
  have hsame : joined.callbacks key = batcher.callbacks key ∧
      joined.requests = batcher.requests ∧ joined.duties key = batcher.duties key := by
    rw [hframe]
    exact ⟨rfl, rfl, rfl⟩
  obtain ⟨hcallbacks, hrequests, hduties⟩ := hsame
  by_cases hkey : other = key
  · subst hkey
    unfold AtStage at h
    rw [duties_push] at h
    simp only [dutiesIn_cons, dutiesIn_nil, Instruction.duties_enqueue, if_true,
      List.singleton_append, List.append_nil] at h
    obtain ⟨htold, hrequest, hnone, hflags⟩ := h.enqueue
    have hempty : before other ++ after other = [] := by
      rw [← hold]
      exact List.map_eq_nil_iff.1 hflags
    rw [List.append_eq_nil_iff] at hempty
    apply AtStage.settleIn_self (hcallbacks.trans htold) _ (hduties.trans hnone) _ rfl hjob hopen
      (List.mem_filter.2 ⟨hmem, by simp⟩)
    · rw [hrequests]
      exact hrequest
    · rw [hnew, hempty.1, hempty.2]
      simp [waitersOf]
  · apply AtStage.settleIn_of_ne _ hkey
    have hpopped : batcher.AtStage key := h.pop (by simp [hkey])
    have hothers : joined.held key = batcher.held key := by
      rw [hold, hnew]
      simp [waitersOf, hkey]
    unfold AtStage at hpopped ⊢
    rw [hcallbacks, hduties, hrequests, hothers]
    exact hpopped

/-! ## Fetching -/

/-- The waiters of a job leave it and are told something. -/
theorem AtStage.release {left : Batcher κ} {waiters before after : List (Waiter κ)}
    {work : List (Instruction κ)} (h : batcher.AtStage key)
    (hold : batcher.held key = before ++ waitersOf key waiters ++ after)
    (hnew : left.held key = before ++ after)
    (hhistory : left.history = batcher.history) (hrequests : left.requests = batcher.requests)
    (hagenda : left.agenda = batcher.agenda)
    (hnone : waitersOf key waiters = [] → dutiesIn key work = [])
    (hone : ∀ (waiter : Waiter κ) (job : Nat), waiter.key = key → waitersOf key waiters = [waiter] →
      Stage (opening waiter.dispatched) (some ⟨.pending, some job⟩) (dutiesIn key work) []) :
    (left.push work).AtStage key := by
  unfold AtStage at h ⊢
  have hcallbacks : (left.push work).callbacks key = batcher.callbacks key := by
    unfold callbacks
    exact congrArg _ hhistory
  have hduties : left.duties key = batcher.duties key := by
    unfold duties
    rw [hagenda]
  change Stage _ left.requests[key]? _ ((left.held key).map (·.dispatched))
  rw [duties_push, hcallbacks, hduties, hrequests, hnew]
  rw [hold] at h
  apply Stage.release h hnone
  intro waiter job hmine htold hrequest
  rw [htold, hrequest]
  exact hone waiter job (key_of_waitersOf_eq hmine) hmine

theorem AtStage.flush (h : batcher.AtStage key) (id number : Nat) :
    (batcher.flush id number).AtStage key := by
  unfold Batcher.flush
  split
  · exact h
  · rename_i job hjob
    split
    · obtain ⟨before, after, hheld⟩ := held_setJob hjob
      obtain ⟨hold, hnew⟩ := hheld key
      have hleft := hnew ⟨[], .inFlight job.keys none⟩
      rw [show waitersOf key ([] : List (Waiter κ)) = [] from rfl, List.append_nil] at hleft
      have hdispatch := dutiesIn_flatMap (κ := κ)
        (fun _ _ => Waiter.dutiesIn_dispatch_of_ne) key job.waiters
      have hmap := waitersOf_map (f := fun waiter => { waiter with dispatched := true })
        (fun _ => rfl) key job.waiters
      apply AtStage.release h hold hleft rfl rfl rfl
      · intro hnone
        simp [hdispatch, hnone, hmap]
      · intro waiter other hkey hone
        have hpost := waiter.dutiesIn_dispatch
        rw [hkey] at hpost
        simp only [List.cons_append, dutiesIn_cons, dutiesIn_append, dutiesIn_nil, hdispatch, hone,
          List.flatMap_singleton, hpost, Instruction.duties_restore, hmap, List.map_singleton,
          List.append_nil]
        cases waiter.dispatched with
        | true => exact .dispatched
        | false => exact .dispatching
    · exact h.push rfl

theorem AtStage.launch (h : batcher.AtStage key) (id number : Nat) (graph : Graph κ) :
    (batcher.launch id number graph).AtStage key := by
  unfold Batcher.launch
  simp only
  split
  · rename_i waiters live fetch hjob
    obtain ⟨before, after, hheld⟩ := held_setJob hjob
    obtain ⟨hold, hnew⟩ := hheld key
    have hsame := hold.trans (hnew ⟨waiters, .inFlight live (some batcher.nextFetch)⟩).symm
    unfold AtStage at h
    rw [hsame] at h
    exact h
  · exact h

theorem AtStage.dropJob (h : batcher.AtStage key) (hsound : batcher.Sound) (number : Nat) :
    (batcher.dropJob number).AtStage key := by
  unfold Batcher.dropJob
  split
  · exact h
  · rename_i job hjob
    obtain ⟨before, after, hheld⟩ := held_eraseJob hsound.jobs_nodup hjob
    obtain ⟨hold, hnew⟩ := hheld key
    have hdiscard := dutiesIn_flatMap (κ := κ)
      (fun _ _ => Waiter.dutiesIn_discard_of_ne) key job.waiters
    apply AtStage.release h hold hnew rfl rfl rfl
    · intro hnone
      rw [hdiscard, hnone, List.flatMap_nil]
    · intro waiter other hkey hone
      have hstage := stage_settle waiter (.cancelled : Outcome κ) other (.inl rfl)
      rw [← waiter.dutiesIn_discard, hkey] at hstage
      rw [hdiscard, hone, List.flatMap_singleton]
      exact hstage

/-- A waiter goes back into its job, or it is told that its request was cancelled meanwhile. -/
theorem stage_restore {told : List (Callback κ)} {request : Option Request}
    {duties : List (Duty κ)} {mine before after : List (Waiter κ)} (p : Waiter κ → Bool)
    (hmine : ∀ waiter ∈ mine, waiter.key = key)
    (h : Stage told request ((mine.map fun waiter => .restore waiter.dispatched) ++ duties)
      ((before ++ after).map (·.dispatched))) :
    Stage told request
      ((mine.filter fun waiter => !p waiter).flatMap
        (fun waiter => dutiesIn key (waiter.settle .cancelled)) ++ duties)
      ((before ++ mine.filter p ++ after).map (·.dispatched)) := by
  cases mine with
  | nil => simpa using h
  | cons waiter rest =>
    obtain ⟨htold, ⟨job, hrequest⟩, hdispatched, hduties, hheld⟩ := Stage.restore h
    have hparts := List.append_eq_nil_iff.1 (List.map_eq_nil_iff.1 hheld)
    have hrest := List.append_eq_nil_iff.1 hduties
    have hnone : rest = [] := List.map_eq_nil_iff.1 hrest.1
    have hopening : told = opening waiter.dispatched := by
      rw [htold, hdispatched]
      rfl
    rw [hparts.1, hparts.2, hrest.2, hnone, hrequest]
    cases hp : p waiter with
    | true => simpa [hp] using Stage.waiting hopening
    | false =>
      have hstage := stage_settle waiter (.cancelled : Outcome κ) job (.inl rfl)
      rw [hmine waiter (List.mem_cons_self ..), ← hopening] at hstage
      simpa [hp] using hstage

theorem AtStage.restore {id number : Nat} {graph : Graph κ} {waiters : List (Waiter κ)}
    (hsound : (batcher.push [.restore id number graph waiters]).Sound)
    (h : (batcher.push [.restore id number graph waiters]).AtStage key) :
    (batcher.restore id number graph waiters).AtStage key := by
  unfold AtStage at h
  rw [duties_push] at h
  simp only [dutiesIn_cons, dutiesIn_nil, List.append_nil, Instruction.duties_restore] at h
  unfold Batcher.restore
  simp only
  generalize hphase : ((batcher.job? number).map (·.phase)).getD .settled = phase
  have htold := dutiesIn_flatMap (κ := κ) (f := fun waiter => waiter.settle .cancelled)
    (fun _ _ hne => Waiter.dutiesIn_settle_of_ne hne .cancelled) key
    (waiters.filter fun waiter => !phase.wants waiter.key)
  rw [waitersOf_filter] at htold
  have hmine : ∀ waiter ∈ waitersOf key waiters, waiter.key = key :=
    fun _ hmem => key_of_mem_waitersOf hmem
  split
  · rename_i hflight
    cases hjob : batcher.job? number with
    | none =>
      rw [hjob] at hphase
      subst hphase
      cases hflight
    | some job =>
      -- While the handlers were told there was no waiter in the job.
      have hvacant : job.waiters = [] :=
        hsound.vacant id number graph waiters (List.mem_cons_self ..) job hjob
      obtain ⟨before, after, hheld⟩ := held_setJob hjob
      obtain ⟨hold, hnew⟩ := hheld key
      have hempty : batcher.held key = before key ++ after key := by
        rw [hold, hvacant]
        simp [waitersOf]
      change Stage _ _ _ ((batcher.held key).map (·.dispatched)) at h
      rw [hempty] at h
      have hstage := stage_restore (fun waiter => phase.wants waiter.key) hmine h
      rw [← htold, ← waitersOf_filter, ← hnew ⟨_, phase⟩] at hstage
      apply AtStage.push_append _ rfl
      unfold AtStage
      rw [duties_push]
      exact hstage
  · rename_i hlanded
    have hunwanted : ∀ waiter ∈ waitersOf key waiters, ¬ phase.wants waiter.key = true := by
      intro waiter _
      cases phase with
      | inFlight live fetch => exact absurd rfl hlanded
      | queued => simp [Phase.wants]
      | settled => simp [Phase.wants]
    change Stage _ _ _ ((batcher.held key).map (·.dispatched)) at h
    rw [← List.append_nil (batcher.held key)] at h
    have hstage := stage_restore (fun waiter => phase.wants waiter.key) hmine h
    rw [← htold, List.filter_eq_nil_iff.2 hunwanted, List.append_nil, List.append_nil] at hstage
    apply AtStage.push_append _ rfl
    unfold AtStage
    rw [duties_push]
    exact hstage

/-! ## Every step -/

/-- Work that is made of instructions with no duty for a request has none for it. -/
theorem dutiesIn_map {α : Type} {f : α → Instruction κ} (hf : ∀ entry, (f entry).duties key = [])
    (entries : List α) : dutiesIn key (entries.map f) = [] := by
  rw [dutiesIn, List.flatMap_map]
  exact List.flatMap_eq_nil_iff.2 fun entry _ => hf entry

theorem AtStage.release_window (h : batcher.AtStage key) : batcher.release.AtStage key := by
  unfold Batcher.release
  split
  · exact h
  · have hclosed : ({ batcher with queue := [] } : Batcher κ).AtStage key := h
    exact hclosed.push (dutiesIn_map (fun _ => rfl) _)

theorem AtStage.endFetch (h : batcher.AtStage key) (number : Nat) :
    (batcher.endFetch number).AtStage key := by
  unfold Batcher.endFetch
  split
  · exact h
  · apply AtStage.release_window
    have hended : ({ batcher with
      fetches := Assoc.erase number batcher.fetches } : Batcher κ).AtStage key := h
    exact hended.push rfl

/-- Noting that a handler was called is what is left of the call. -/
theorem AtStage.note {occurrence : Occurrence κ}
    (h : (batcher.push [.note occurrence]).AtStage key) :
    (batcher.note occurrence).AtStage key := by
  unfold AtStage
  rw [callbacks_note]
  change Stage _ batcher.requests[key]? (batcher.duties key)
    ((batcher.held key).map (·.dispatched))
  cases occurrence with
  | called other callback =>
    unfold AtStage at h
    rw [duties_push] at h
    by_cases hkey : other = key
    · simp only [dutiesIn_cons, dutiesIn_nil, Instruction.duties_called, hkey, if_true,
        List.singleton_append, List.append_nil] at h ⊢
      exact h.call
    · simp only [dutiesIn_cons, dutiesIn_nil, Instruction.duties_called, hkey, if_false,
        List.nil_append, List.append_nil] at h ⊢
      exact h
  | _ =>
    rw [List.append_nil]
    exact h.pop rfl

theorem AtStage.mark {other : Nat} {standing : Standing}
    (h : (batcher.push [.mark other standing]).AtStage key) :
    (batcher.changeRequest other (Request.mark standing)).AtStage key := by
  unfold AtStage
  rw [getElem?_changeRequest]
  split
  · rename_i hkey
    unfold AtStage at h
    rw [duties_push] at h
    simp only [dutiesIn_cons, dutiesIn_nil, Instruction.duties_mark, hkey, if_true,
      List.singleton_append, List.append_nil] at h
    exact h.mark
  · rename_i hkey
    exact h.pop (by simp [hkey])

/-- The step lemma: whatever instruction comes next, every request stays at one of the stages. -/
theorem AtStage.execute {instruction : Instruction κ} (hsound : (batcher.push [instruction]).Sound)
    (h : (batcher.push [instruction]).AtStage key) :
    (batcher.execute instruction).AtStage key := by
  have hpopped := hsound.pop
  cases instruction with
  | call other handler callback =>
    have hcalled : (batcher.push [.note (.called other callback)]).AtStage key := h
    exact hcalled.note.push (dutiesIn_map (fun _ => rfl) _)
  | react other reaction => exact (h.pop rfl).react other reaction
  | note occurrence => exact h.note
  | mark other standing => exact h.mark
  | enqueue other id graph handler => exact h.enqueue hpopped
  | flush id job => exact (h.pop rfl).flush id job
  | restore id job graph waiters => exact h.restore hsound
  | launch id job graph => exact (h.pop rfl).launch id job graph
  | endFetch fetch => exact (h.pop rfl).endFetch fetch
  | dropJob job => exact (h.pop rfl).dropJob hpopped job

theorem atStage_empty (kind : κ) (key : Nat) : (Batcher.empty kind).AtStage key :=
  Stage.unknown

variable [DecidableEq κ] [Catalog κ]

theorem AtStage.complete (h : batcher.AtStage key) (number : Nat)
    (answer : Except Error (Option (Entity κ))) : (batcher.complete number answer).AtStage key := by
  unfold Batcher.complete
  split
  · exact h
  · rename_i fetch _
    split
    · exact h.push rfl
    · rename_i job hjob
      obtain ⟨before, after, hheld⟩ := held_setJob hjob
      obtain ⟨hold, hnew⟩ := hheld key
      have hleft := hnew ⟨[], .settled⟩
      rw [show waitersOf key ([] : List (Waiter κ)) = [] from rfl, List.append_nil] at hleft
      have hdeliver := dutiesIn_flatMap (f := Waiter.deliver answer)
        (fun waiter key hne => by
          rw [waiter.dutiesIn_deliver]
          exact Waiter.dutiesIn_settle_of_ne hne _) key job.waiters
      apply AtStage.push_append _ rfl
      apply AtStage.release h hold hleft rfl rfl rfl
      · intro hnone
        rw [hdeliver, hnone, List.flatMap_nil]
      · intro waiter other hkey hone
        have hstage := stage_settle waiter (waiter.outcome answer) other (.inl rfl)
        rw [← waiter.dutiesIn_deliver, hkey] at hstage
        rw [hdeliver, hone, List.flatMap_singleton]
        exact hstage

/-- The requests stay at one of the stages whatever is done from outside. -/
theorem AtStage.start (h : batcher.AtStage key) (operation : Operation κ) :
    (batcher.start operation).AtStage key := by
  cases operation with
  | submit id graph handler => exact h.request id graph handler
  | cancel target => exact h.retract target
  | run =>
    have hclosed : ({ batcher with queue := [] } : Batcher κ).AtStage key := h
    exact hclosed.push (dutiesIn_map (fun _ => rfl) _)
  | rearrange queue =>
    obtain ⟨order, -, heq⟩ := exists_perm_rearrange queue batcher
    have hrearranged : ({ batcher with queue := order } : Batcher κ).AtStage key := h
    rw [Batcher.start, heq]
    exact hrearranged
  | complete fetch answer => exact h.complete fetch answer
  | dropFetch fetch => exact h.push rfl
  | close =>
    have hclosed : ({ batcher with isOpen := false } : Batcher κ).AtStage key := h
    exact hclosed.release_window

/-- Every request is at a stage of its life, whatever was done so far. -/
theorem Reachable.atStage {kind : κ} (h : Reachable kind batcher) (key : Nat) :
    batcher.AtStage key := by
  have hboth : batcher.Sound ∧ batcher.AtStage key := by
    apply Reaches.invariant (P := fun state => state.Sound ∧ state.AtStage key) h
    · intro operation before hbefore
      exact ⟨hbefore.1.start operation, hbefore.2.start operation⟩
    · intro instruction before hbefore
      exact ⟨hbefore.1.execute, hbefore.2.execute hbefore.1⟩
    · exact ⟨.empty kind, atStage_empty kind key⟩
  exact hboth.2

/-- What holds at first and is kept by operations and instructions holds later on. -/
theorem Reachable.invariant {kind : κ} {later : Batcher κ} {P : Batcher κ → Prop}
    (h : Reachable kind batcher) (hlater : Reaches batcher later)
    (hstart : ∀ (operation : Operation κ) (before : Batcher κ), before.Sound →
      P before → P (before.start operation))
    (hexecute : ∀ (instruction : Instruction κ) (before : Batcher κ),
      (before.push [instruction]).Sound → (∀ key, (before.push [instruction]).AtStage key) →
      P (before.push [instruction]) → P (before.execute instruction))
    (hfirst : P batcher) : P later := by
  apply hlater.along (P := P)
  · intro operation before hbefore
    have hreachable : Reachable kind before := h.trans hbefore
    exact hstart operation before hreachable.sound
  · intro instruction before hbefore
    have hreachable : Reachable kind (before.push [instruction]) := h.trans hbefore
    exact hexecute instruction before hreachable.sound hreachable.atStage
  · exact hfirst

/-! ## The life of a request -/

omit [DecidableEq κ] [Catalog κ] in
/-- How a request has ended whose handler was destroyed. -/
theorem AtStage.of_destroyed (h : batcher.AtStage key)
    (hdestroy : .destroy ∈ batcher.callbacks key) :
    ∃ outcome : Outcome κ, ∃ first ∈ outcome.openings,
      batcher.callbacks key = first ++ outcome.ending ∧
      batcher.standing? key = some outcome.standing ∧ batcher.outcome? key = some outcome := by
  obtain ⟨outcome, first, hopening, htold, job, hrequest⟩ := Stage.of_destroy_mem h hdestroy
  use outcome, first, hopening, htold
  constructor
  · rw [standing?, hrequest]
    rfl
  · rw [outcome?, ← List.head?_filterMap, htold, Outcome.filterMap_outcome? hopening]
    rfl

/-- The handler of a request is called in one of four orders.  Once it is destroyed exactly one
outcome was told, the request stands as that outcome says, and nothing about it ever changes. -/
theorem Reachable.lifecycle {kind : κ} (h : Reachable kind batcher) (key : Nat) :
    (∃ order ∈ lifecycles, (batcher.callbacks key).map Callback.moment <+: order) ∧
    (.destroy ∈ batcher.callbacks key →
      ∃ outcome, (batcher.callbacks key).filterMap Callback.outcome? = [outcome] ∧
        (batcher.standing? key = some .settled ↔
          (∃ value, outcome = .success value) ∨ ∃ error, outcome = .failed error) ∧
        (batcher.standing? key = some .cancelled ↔ outcome = .cancelled) ∧
        ∀ later, Reaches batcher later →
          later.callbacks key = batcher.callbacks key ∧
          later.standing? key = batcher.standing? key ∧ later.outcome? key = some outcome) := by
  have hstage := h.atStage key
  constructor
  · obtain ⟨outcome, first, hopening, hprefix⟩ := Stage.told_prefix hstage
    exact ⟨_, Outcome.mem_lifecycles hopening, hprefix.map _⟩
  · intro hdestroy
    obtain ⟨outcome, first, hopening, htold, hstanding, _⟩ := hstage.of_destroyed hdestroy
    have honly : (batcher.callbacks key).filterMap Callback.outcome? = [outcome] := by
      rw [htold, Outcome.filterMap_outcome? hopening]
    refine ⟨outcome, honly, ?_, ?_, ?_⟩
    · rw [hstanding]
      cases outcome <;> simp [Outcome.standing]
    · rw [hstanding]
      cases outcome <;> simp [Outcome.standing]
    · intro later hlater
      obtain ⟨more, hmore⟩ := hlater.callbacks_prefix key
      have hdestroyed : .destroy ∈ later.callbacks key := by
        rw [← hmore]
        exact List.mem_append_left more hdestroy
      have hreachable : Reachable kind later := Reaches.trans h hlater
      obtain ⟨outcome', first', hopening', htold', hstanding', houtcome'⟩ :=
        (hreachable.atStage key).of_destroyed hdestroyed
      have hnothing : more = [] :=
        Outcome.eq_nil_of_destroy_mem hopening' (hmore.trans htold') hdestroy
      have hsame : later.callbacks key = batcher.callbacks key := by
        rw [← hmore, hnothing, List.append_nil]
      have hagree : outcome' = outcome := by
        have honly' := Outcome.filterMap_outcome? hopening'
        rw [← htold', hsame, honly] at honly'
        exact (List.singleton_inj.1 honly').symm
      rw [hsame, hstanding', hstanding, houtcome', hagree]
      exact ⟨rfl, rfl, rfl⟩

/-- Two requests for a person.  The handler of the second cancels the first one when it is told
that the work was given out. -/
def crossed : Batcher Harbor.Kind :=
  (((Batcher.empty .person).perform (.submit 1 (.none .person) [])).perform
    (.submit 1 (.none .person) [(.post, .cancel 0)])).perform .run

theorem crossed_reachable : Reachable .person crossed :=
  ((reaches_perform _ _).trans (reaches_perform _ _)).trans (reaches_perform _ _)

theorem crossed_cancelled :
    (crossed.callbacks 0).map Callback.moment = [.pre, .post, .cancel, .destroy] ∧
      crossed.standing? 0 = some .cancelled ∧
      ∀ later, Reaches crossed later → later.standing? 0 = some .cancelled := by
  have hcallbacks : crossed.callbacks 0 = [.pre, .post, .cancel, .destroy] := rfl
  obtain ⟨_, hended⟩ := Reachable.lifecycle crossed_reachable 0
  obtain ⟨outcome, honly, _, hcancelled, hlater⟩ := hended (by simp [hcallbacks])
  have houtcome : outcome = .cancelled := by
    rw [hcallbacks] at honly
    exact (List.singleton_inj.1 honly).symm
  have hstanding := hcancelled.2 houtcome
  refine ⟨by rw [hcallbacks]; rfl, hstanding, ?_⟩
  intro later hreaches
  exact (hlater later hreaches).2.1.trans hstanding

end Batcher

end PartialEntity
