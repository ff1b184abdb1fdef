import Mathlib
import PartialEntity.Proofs.Batch.Agenda
import PartialEntity.Proofs.Batch.Departure

/-!
# When requests are settled

The requests of a job are settled when its fetch is answered, and the fetch ends with that.  So
between two operations a fetch that is still under way has answered nobody.
-/

namespace PartialEntity.Batcher

open Batch

variable {κ : Type} {batcher : Batcher κ} {key number : Nat}

/-! ## Fetches that end -/

def fetching (batcher : Batcher κ) : List (Nat × Nat) :=
  batcher.fetches.map fun entry => (entry.1, entry.2.job)

theorem fetching_withdraw (key number : Nat) (batcher : Batcher κ) :
    (batcher.withdraw key number).batcher.fetching = batcher.fetching := by
  rcases withdraw_cases key number batcher with heq | ⟨_, _, fetches, _, _, hsubjects, heq⟩
  · rw [heq]
  · have hjobs := congrArg (List.map fun entry : Nat × Nat × Nat × Graph κ =>
      (entry.1, entry.2.1)) hsubjects
    rw [heq]
    simpa [fetching, List.map_map, Function.comp_def, Fetch.subject] using hjobs

theorem fetching_retract (key : Nat) (batcher : Batcher κ) :
    (batcher.retract key).batcher.fetching = batcher.fetching := by
  unfold Batcher.retract
  split
  · rfl
  · exact fetching_withdraw key _ batcher
  · rfl

theorem fetching_request (id : Nat) (graph : Graph κ) (handler : Handler κ)
    (batcher : Batcher κ) : (batcher.request id graph handler).fetching = batcher.fetching := by
  unfold Batcher.request
  split <;> rfl

theorem fetching_release (batcher : Batcher κ) : batcher.release.fetching = batcher.fetching := by
  unfold Batcher.release
  split <;> rfl

theorem fetching_settleIn (key number : Nat) (batcher : Batcher κ) :
    (enqueue.settleIn key number batcher).fetching = batcher.fetching := by
  unfold enqueue.settleIn
  simp only
  split
  · exact fetching_withdraw key number _
  · rfl

/-- A fetch goes on until it is forgotten. -/
theorem mem_fetching_execute {instruction : Instruction κ} {target : Nat}
    (hsound : batcher.Sound) (h : (target, number) ∈ batcher.fetching)
    (hend : instruction ≠ .endFetch target) :
    (target, number) ∈ (batcher.execute instruction).fetching := by
  cases instruction with
  | call key handler callback => exact h
  | react key reaction =>
    cases reaction with
    | cancel other =>
      simp only [Batcher.execute, Batcher.react]
      split
      · exact (fetching_retract other batcher).symm ▸ h
      · exact h
    | submit id graph handler => exact (fetching_request id graph handler batcher).symm ▸ h
  | note occurrence => exact h
  | mark key standing => exact h
  | enqueue key id graph handler =>
    obtain ⟨queue, jobs, nextJob, hframe⟩ := join_frame id ⟨key, graph, handler, false⟩ batcher
    rw [execute, enqueue_eq, fetching_settleIn, hframe]
    exact h
  | flush id job =>
    simp only [Batcher.execute, Batcher.flush]
    split
    · exact h
    · split <;> exact h
  | restore id job graph waiters =>
    simp only [Batcher.execute, Batcher.restore]
    split <;> exact h
  | launch id job graph =>
    have hnew := hsound.fetch?_nextFetch
    have hstart : ∀ fetch : Fetch κ, (target, number) ∈
        (Assoc.insert batcher.nextFetch fetch batcher.fetches).map
          fun entry => (entry.1, entry.2.job) := by
      intro fetch
      rw [Assoc.insert_of_find?_eq_none hnew, List.map_append]
      exact List.mem_append_left _ h
    simp only [Batcher.execute, Batcher.launch]
    split <;> exact hstart _
  | endFetch fetch =>
    obtain ⟨entry, hentry, heq⟩ := List.mem_map.1 h
    have hother : entry.1 ≠ fetch := by
      rintro rfl
      exact hend (congrArg Instruction.endFetch (congrArg Prod.fst heq))
    simp only [Batcher.execute, Batcher.endFetch]
    split
    · exact h
    · rw [fetching_release]
      exact List.mem_map.2 ⟨entry, List.mem_filter.2 ⟨hentry, by simp [hother]⟩, heq⟩
  | dropJob job =>
    simp only [Batcher.execute, Batcher.dropJob]
    split <;> exact h

/-- Nothing more comes for a job, or the fetch that has brought it all is about to be forgotten. -/
inductive Over (number : Nat) (batcher : Batcher κ) : Prop where
  | done (herrands : ∀ errand ∈ batcher.errands, errand.job ≠ number)
  | ending (target : Nat) (hfetch : (target, number) ∈ batcher.fetching)
      (hend : .endFetch target ∈ batcher.agenda)

/-- When the fetch of a job is forgotten, nothing is left to be done for the job. -/
theorem errands_endFetch {target : Nat} (hsound : batcher.Sound)
    (h : (target, number) ∈ batcher.fetching) :
    ∀ errand ∈ (batcher.endFetch target).errands, errand.job ≠ number := by
  obtain ⟨⟨other, fetch⟩, hentry, heq⟩ := List.mem_map.1 h
  obtain ⟨rfl, rfl⟩ : other = target ∧ fetch.job = number := Prod.mk.inj heq
  have hfetch : batcher.fetch? other = some fetch :=
    Assoc.find?_eq_some_of_mem hsound.fetches_nodup hentry
  have hkept := hsound.keepers_eraseFetch hfetch fetch.job
  have hle := hsound.keepers_le fetch.job
  rw [if_pos rfl] at hkept
  intro errand hmem
  simp only [Batcher.endFetch, hfetch] at hmem
  have hold := (mem_errands_push.1 ((Dwindles.release _).errands hmem)).resolve_left
    (by simp [Instruction.errands])
  exact job_ne_of_mem_errands (by omega) errand hold

theorem Over.execute {instruction : Instruction κ} (hsound : (batcher.push [instruction]).Sound)
    (hstage : ∀ key, (batcher.push [instruction]).AtStage key)
    (h : (batcher.push [instruction]).Over number) : (batcher.execute instruction).Over number := by
  cases h with
  | done herrands =>
    left
    cases instruction with
    | enqueue key id graph handler =>
      obtain ⟨job, hseated⟩ := exists_seated hsound.pop (hstage key)
      intro errand hmem
      exact herrands errand ((Dwindles.pop _ _).errands (hseated.errands hmem))
    | flush id job =>
      intro errand hmem
      rcases mem_errands_flush hmem with hold | ⟨found, _, rfl⟩
      · exact herrands errand ((Dwindles.pop _ _).errands hold)
      · apply herrands ⟨job, id, none⟩
        apply mem_errands_push.2
        simp [Instruction.errands]
    | _ =>
      intro errand hmem
      exact herrands errand ((Dwindles.execute hsound (by simp) (by simp)).errands hmem)
  | ending target hfetch hend =>
    by_cases hlast : instruction = .endFetch target
    · subst hlast
      exact .done (errands_endFetch hsound.pop hfetch)
    · have hlater : .endFetch target ∈ batcher.agenda :=
        (List.mem_cons.1 hend).resolve_left fun heq => hlast heq.symm
      exact .ending target (mem_fetching_execute hsound.pop hfetch hlast)
        ((grows_execute instruction batcher).suffix.subset hlater)

/-! ## Answers -/

/-- A request was not answered, and nothing on the agenda is going to answer it. -/
structure Unanswered (key : Nat) (batcher : Batcher κ) : Prop where
  standing : batcher.standing? key ≠ some .settled
  agenda : .mark key .settled ∉ batcher.agenda

theorem Unanswered.of_grows {after : Batcher κ} (h : batcher.Unanswered key)
    (hgrows : Grows batcher after)
    (hstanding : after.standing? key = some .settled → batcher.standing? key = some .settled) :
    after.Unanswered key where
  standing hsettled := h.standing (hstanding hsettled)
  agenda hmem := by
    obtain ⟨work, hagenda, hwork⟩ := hgrows
    rw [hagenda] at hmem
    rcases List.mem_append.1 hmem with hnew | hold
    · exact hwork key hnew
    · exact h.agenda hold

theorem Unanswered.execute {instruction : Instruction κ}
    (hsound : (batcher.push [instruction]).Sound)
    (hstage : ∀ key, (batcher.push [instruction]).AtStage key)
    (h : (batcher.push [instruction]).Unanswered key) :
    (batcher.execute instruction).Unanswered key := by
  have hmark : instruction ≠ .mark key .settled := by
    rintro rfl
    exact h.agenda (List.mem_cons_self ..)
  have hpopped : batcher.Unanswered key :=
    ⟨h.standing, fun hmem => h.agenda (List.mem_cons_of_mem _ hmem)⟩
  exact hpopped.of_grows (grows_execute instruction batcher)
    ((turn_execute hsound hstage key).settled (by simpa using hmark))

theorem key_of_mark_mem_settle {waiter : Waiter κ} {outcome : Outcome κ}
    (h : .mark key .settled ∈ waiter.settle outcome) : waiter.key = key := by
  have hdispatch : .mark key .settled ∉ waiter.dispatch := answerless_dispatch waiter key
  cases outcome <;> simp [Waiter.settle, Waiter.call, hdispatch] at h
  all_goals exact h.symm

section

variable [DecidableEq κ] [Catalog κ]

/-- Only the answer of a fetch is going to answer a request. -/
theorem grows_start {operation : Operation κ}
    (h : ∀ target answer, operation ≠ .complete target answer) :
    Grows batcher (batcher.start operation) := by
  cases operation with
  | submit id graph handler => exact grows_request id graph handler batcher
  | cancel key => exact grows_retract key batcher
  | run => exact ⟨_, rfl, by simp [Answerless]⟩
  | rearrange queue =>
    obtain ⟨order, -, heq⟩ := exists_perm_rearrange queue batcher
    rw [Batcher.start, heq]
    exact .of_eq rfl
  | complete target answer => exact absurd rfl (h target answer)
  | dropFetch fetch => exact ⟨_, rfl, by simp [Answerless]⟩
  | close => exact Grows.trans (.of_eq rfl) (grows_release _)

theorem suffix_agenda_start (operation : Operation κ) (batcher : Batcher κ) :
    batcher.agenda <:+ (batcher.start operation).agenda := by
  cases operation with
  | complete target answer =>
    simp only [Batcher.start, Batcher.complete]
    split
    · exact List.suffix_refl _
    · split <;> exact List.suffix_append _ _
  | _ =>
    apply Grows.suffix
    exact grows_start (by simp)

theorem fetching_start (operation : Operation κ) (batcher : Batcher κ) :
    (batcher.start operation).fetching = batcher.fetching := by
  cases operation with
  | submit id graph handler => exact fetching_request id graph handler batcher
  | cancel key => exact fetching_retract key batcher
  | run => rfl
  | rearrange queue =>
    obtain ⟨order, -, heq⟩ := exists_perm_rearrange queue batcher
    rw [Batcher.start, heq]
    rfl
  | complete target answer =>
    simp only [Batcher.start, Batcher.complete]
    split
    · rfl
    · split <;> rfl
  | dropFetch fetch => rfl
  | close => exact fetching_release _

theorem Over.start {operation : Operation κ} (hsound : batcher.Sound)
    (hqueue : number ∉ batcher.queue.map (·.2)) (h : batcher.Over number) :
    (batcher.start operation).Over number := by
  cases h with
  | done herrands =>
    left
    by_cases hrun : operation = .run
    · subst hrun
      intro errand hmem
      rcases mem_errands_push.1 hmem with hnew | hold
      · rw [List.flatMap_map] at hnew
        obtain ⟨entry, hentry, herrand⟩ := List.mem_flatMap.1 hnew
        rw [List.mem_singleton.1 herrand]
        rintro rfl
        exact hqueue (List.mem_map_of_mem hentry)
      · exact herrands errand hold
    · intro errand hmem
      exact herrands errand ((Dwindles.start hsound hrun).errands hmem)
  | ending target hfetch hend =>
    right
    · rw [fetching_start]
      exact hfetch
    · exact (suffix_agenda_start operation batcher).subset hend

/-- A request can be answered only together with its job. -/
theorem Unanswered.start {operation : Operation κ} (hregistered : batcher.Registered)
    {standing : Standing} (hrequest : batcher.requests[key]? = some ⟨standing, some number⟩)
    (h : batcher.Unanswered key) :
    (batcher.start operation).Unanswered key ∨ (batcher.start operation).Over number := by
  cases operation with
  | complete target answer =>
    cases hfetch : batcher.fetch? target with
    | none =>
      left
      simpa only [Batcher.start, Batcher.complete, hfetch] using h
    | some fetch =>
      cases hjob : batcher.job? fetch.job with
      | none =>
        left
        simp only [Batcher.start, Batcher.complete, hfetch, hjob]
        exact h.of_grows ⟨_, rfl, by simp [Answerless]⟩ id
      | some job =>
        by_cases hsame : fetch.job = number
        · right
          apply Over.ending target
          · rw [fetching_start, ← hsame]
            exact List.mem_map.2 ⟨_, Assoc.mem_of_find? hfetch, rfl⟩
          · simp [Batcher.start, Batcher.complete, hfetch, hjob, push]
        · left
          simp only [Batcher.start, Batcher.complete, hfetch, hjob]
          refine ⟨h.standing, fun hmem => ?_⟩
          rcases List.mem_append.1 hmem with hnew | hold
          · obtain ⟨waiter, hwaiter, hmark⟩ :=
              List.mem_flatMap.1 ((List.mem_append.1 hnew).resolve_right (by simp))
            have hkey := key_of_mark_mem_settle ((List.mem_cons.1 hmark).resolve_left (by simp))
            exact hsame (hregistered.job_eq hjob hwaiter (hkey ▸ hrequest)).symm
          · exact h.agenda hold
  | _ =>
    exact .inl (h.of_grows (grows_start (by simp)) ((turn_start _ batcher key).settled (by simp)))

/-- As long as the fetch of a closed window is under way, no request of the window that it is for
was answered. -/
theorem Reachable.not_settled {kind : κ} {later : Batcher κ} (h : Reachable kind batcher)
    (hrest : batcher.agenda = []) {id : Nat} (hmem : (id, number) ∈ batcher.queue)
    {standing : Standing} (hrequest : batcher.requests[key]? = some ⟨standing, some number⟩)
    (hfirst : standing ≠ .settled) (hlater : Reaches (batcher.start .run) later)
    (hend : later.agenda = []) {target : Nat} {fetch : Fetch κ}
    (hfetch : later.fetch? target = some fetch) (hjob : fetch.job = number) :
    later.standing? key ≠ some .settled := by
  have hrun : Reachable kind (batcher.start .run) := h.trans (reaches_start _ _)
  have hstate : later.Unanswered key ∨ later.Over number := by
    apply hlater.along (P := fun state => state.Unanswered key ∨ state.Over number)
    · intro operation before hbefore hstate
      have hreachable : Reachable kind before := hrun.trans hbefore
      obtain ⟨now, hnow, _⟩ :=
        (h.requestsPrecede ((reaches_start _ _).trans hbefore)).tied hrequest
      rcases hstate with hopen | hover
      · exact hopen.start hreachable.registered hnow
      · exact .inr (hover.start hreachable.sound (h.departed hmem hbefore).notMem_queue)
    · intro instruction before hbefore hstate
      have hreachable : Reachable kind (before.push [instruction]) := hrun.trans hbefore
      rcases hstate with hopen | hover
      · exact .inl (hopen.execute hreachable.sound hreachable.atStage)
      · exact .inr (hover.execute hreachable.sound hreachable.atStage)
    · left
      constructor
      · change batcher.requests[key]?.map _ ≠ _
        rw [hrequest]
        exact fun hsettled => hfirst (Option.some.inj hsettled)
      · simp [Batcher.start, push, hrest]
  rcases hstate with hopen | ⟨herrands⟩ | ⟨_, _, hending⟩
  · exact hopen.standing
  · refine absurd hjob (herrands fetch.errand ?_)
    exact List.mem_append_right _ (List.mem_map.2 ⟨_, Assoc.mem_of_find? hfetch, rfl⟩)
  · rw [hend] at hending
    cases hending

end

end PartialEntity.Batcher
