import Mathlib
import PartialEntity.Proofs.Batch.Settling

/-!
# Who wants an answer

A job that was sent in flight knows by their keys the requests that want its answer.  They are the
requests that had a waiter in the job at that time, and they only get fewer.  A request that wants
the answer of a job has its waiter in the job, or the waiter is going to be given back to the job.
-/

namespace PartialEntity

open Batch

variable {κ : Type}

namespace Batch

theorem Phase.isInFlight_of_wants {phase : Phase} {key : Nat} (h : phase.wants key = true) :
    phase.isInFlight = true := by
  cases phase with
  | inFlight => rfl
  | queued | settled => cases h

theorem Job.mem_keys_without {job : Job κ} {key other : Nat} (hne : other ≠ key)
    (h : other ∈ job.keys) : other ∈ (job.without key).map (·.key) := by
  obtain ⟨waiter, hmem, rfl⟩ := List.mem_map.1 h
  exact List.mem_map_of_mem (List.mem_filter.2 ⟨hmem, by simp [hne]⟩)

/-- A request that was taken out of a job does not want its answer any more. -/
theorem Job.wants_withdraw {job rest : Job κ} {key other : Nat} {waiter : Option (Waiter κ)}
    (h : job.withdraw key = some (rest, waiter)) (hwants : rest.phase.wants other = true) :
    other ≠ key ∧ job.phase.wants other = true := by
  unfold Job.withdraw at h
  split at h
  · split at h
    · cases h
    · cases h
      dsimp only at hwants
      split at hwants <;> cases hwants
  · rename_i live fetch hphase
    split at h
    · cases h
      dsimp only at hwants
      split at hwants
      · cases hwants
      · rw [Phase.wants, List.contains_iff_mem, List.mem_filter] at hwants
        rw [hphase, Phase.wants, List.contains_iff_mem]
        exact ⟨by simpa using hwants.2, hwants.1⟩
    · cases h
  · cases h

end Batch

namespace Batcher

variable {batcher before after : Batcher κ}

/-- A batcher goes over to another one in which no request wants an answer that it did not want
before, and whoever wants one has not left the job. -/
def WantsLess (before after : Batcher κ) : Prop :=
  ∀ number job, after.job? number = some job → ∀ key, job.phase.wants key = true →
    ∃ old, before.job? number = some old ∧ old.phase.wants key = true ∧
      (key ∈ old.keys → key ∈ job.keys)

namespace WantsLess

theorem of_jobs (h : after.jobs = before.jobs) : WantsLess before after := by
  intro number job hjob key hwants
  refine ⟨job, ?_, hwants, id⟩
  rwa [job?, ← h]

theorem trans {last : Batcher κ} (h : WantsLess before after) (hlast : WantsLess after last) :
    WantsLess before last := by
  intro number job hjob key hwants
  obtain ⟨between, hbetween, hmiddle, hkept⟩ := hlast number job hjob key hwants
  obtain ⟨old, hold, hfirst, hstayed⟩ := h number between hbetween key hmiddle
  exact ⟨old, hold, hfirst, fun hmem => hkept (hstayed hmem)⟩

/-- Work to be done and changes of requests make no difference. -/
theorem push (h : WantsLess before after) (work : List (Instruction κ)) :
    WantsLess before (after.push work) :=
  h.trans (of_jobs rfl)

theorem setJob {number : Nat} {job : Job κ}
    (h : ∀ key, job.phase.wants key = true → ∃ old, batcher.job? number = some old ∧
      old.phase.wants key = true ∧ (key ∈ old.keys → key ∈ job.keys)) :
    WantsLess batcher (batcher.setJob number job) := by
  intro other found hfound key hwants
  by_cases heq : other = number
  · subst heq
    rw [job?_setJob_self] at hfound
    obtain rfl := Option.some.inj hfound
    exact h key hwants
  · rw [job?_setJob_of_ne heq] at hfound
    exact ⟨found, hfound, hwants, id⟩

/-- Nobody wants the answer of a job that is not in flight. -/
theorem setJob_grounded {job : Job κ} (h : job.phase.isInFlight = false) (number : Nat) :
    WantsLess batcher (batcher.setJob number job) := by
  refine setJob fun key hwants => ?_
  rw [Phase.isInFlight_of_wants hwants] at h
  cases h

theorem eraseJob (number : Nat) (batcher : Batcher κ) :
    WantsLess batcher { batcher with jobs := Assoc.erase number batcher.jobs } := by
  intro other job hjob key hwants
  refine ⟨job, ?_, hwants, id⟩
  by_cases heq : other = number
  · subst heq
    simp [job?] at hjob
  · simpa [job?, Assoc.find?_erase_of_ne heq] using hjob

theorem replace (id : Nat) (waiter : Waiter κ) (batcher : Batcher κ) :
    WantsLess batcher (enqueue.replace id waiter batcher) := by
  have hnew : WantsLess batcher (batcher.setJob batcher.nextJob (Job.empty.push waiter)) :=
    setJob_grounded rfl _
  exact hnew.trans (of_jobs rfl)

theorem join (id : Nat) (waiter : Waiter κ) (batcher : Batcher κ) :
    WantsLess batcher (batcher.join id waiter).2 := by
  rcases join_cases id waiter batcher with
    ⟨number, job, -, -, hopen, heq⟩ | ⟨number, job, -, -, -, heq⟩ | ⟨-, heq⟩
  · rw [heq]
    have hphase : job.phase = .queued := by simpa [Job.isOpen] using hopen
    exact setJob_grounded (by rw [Job.push, hphase]; rfl) number
  · rw [heq]
    exact (eraseJob number batcher).trans (replace id waiter _)
  · rw [heq]
    exact replace id waiter batcher

theorem withdraw (key number : Nat) (batcher : Batcher κ) :
    WantsLess batcher (batcher.withdraw key number).batcher := by
  rcases withdraw_cases key number batcher with heq | ⟨job, rest, fetches, hjob, hrest, -, heq⟩
  · rw [heq]
    exact of_jobs rfl
  · obtain ⟨hwaiters, -, -⟩ := Job.withdraw_eq_some hrest
    rw [heq]
    have hset : WantsLess batcher (batcher.setJob number rest) := by
      refine setJob fun other hwants => ?_
      obtain ⟨hne, hold⟩ := Job.wants_withdraw hrest hwants
      refine ⟨job, hjob, hold, fun hmem => ?_⟩
      rw [Job.keys, hwaiters]
      exact Job.mem_keys_without hne hmem
    exact hset.trans (of_jobs rfl)

theorem retract (key : Nat) (batcher : Batcher κ) :
    WantsLess batcher (batcher.retract key).batcher := by
  unfold Batcher.retract
  split
  · exact of_jobs rfl
  · exact withdraw key _ batcher
  · exact of_jobs rfl

theorem request (id : Nat) (graph : Graph κ) (handler : Handler κ) (batcher : Batcher κ) :
    WantsLess batcher (batcher.request id graph handler) := by
  unfold Batcher.request
  split <;> exact of_jobs rfl

theorem enqueue (key id : Nat) (graph : Graph κ) (handler : Handler κ) (batcher : Batcher κ) :
    WantsLess batcher (batcher.enqueue key id graph handler) := by
  have hjoin := join id ⟨key, graph, handler, false⟩ batcher
  rw [enqueue_eq]
  generalize (batcher.join id ⟨key, graph, handler, false⟩).2 = joined at hjoin ⊢
  unfold enqueue.settleIn
  dsimp only
  split
  · exact hjoin.trans (((of_jobs rfl).trans (withdraw key _ _)).push _)
  · exact hjoin.trans (of_jobs rfl)

/-- Giving a job its waiters back does not change who wants its answer, and there was no waiter in
it. -/
theorem restore {id number : Nat} {graph : Graph κ} {waiters : List (Waiter κ)}
    (hsound : (batcher.push [.restore id number graph waiters]).Sound) :
    WantsLess batcher (batcher.restore id number graph waiters) := by
  unfold Batcher.restore
  dsimp only
  split
  · rename_i hflight
    refine push (setJob fun key hwants => ?_) _
    cases hjob : batcher.job? number with
    | none =>
      rw [hjob] at hflight
      cases hflight
    | some job =>
      rw [hjob] at hwants
      have hvacant : job.waiters = [] :=
        hsound.vacant id number graph waiters (List.mem_cons_self ..) job hjob
      exact ⟨job, rfl, hwants, by simp [Job.keys, hvacant]⟩
  · exact (of_jobs rfl).push _

theorem launch (id number : Nat) (graph : Graph κ) (batcher : Batcher κ) :
    WantsLess batcher (batcher.launch id number graph) := by
  unfold Batcher.launch
  dsimp only
  split
  · rename_i waiters live fetch hjob
    have hset : WantsLess batcher
        (batcher.setJob number ⟨waiters, .inFlight live (some batcher.nextFetch)⟩) :=
      setJob fun key hwants => ⟨_, hjob, hwants, fun hmem => hmem⟩
    exact hset.trans (of_jobs rfl)
  · exact of_jobs rfl

theorem release (batcher : Batcher κ) : WantsLess batcher batcher.release := by
  unfold Batcher.release
  split <;> exact of_jobs rfl

/-- Only a job that is sent in flight gets requests that want its answer. -/
theorem execute {instruction : Instruction κ} (hsound : (batcher.push [instruction]).Sound)
    (hflush : ∀ id number, instruction ≠ .flush id number) :
    WantsLess batcher (batcher.execute instruction) := by
  cases instruction with
  | call | note | mark => exact of_jobs rfl
  | react key reaction =>
    cases reaction with
    | cancel target =>
      simp only [Batcher.execute, Batcher.react]
      split
      · exact (retract target batcher).push _
      · exact of_jobs rfl
    | submit id graph handler => exact request id graph handler batcher
  | enqueue key id graph handler => exact enqueue key id graph handler batcher
  | flush id number => exact absurd rfl (hflush id number)
  | restore id number graph waiters => exact restore hsound
  | launch id number graph => exact launch id number graph batcher
  | endFetch fetch =>
    simp only [Batcher.execute, Batcher.endFetch]
    split
    · exact of_jobs rfl
    · exact (of_jobs rfl).trans (release _)
  | dropJob number =>
    simp only [Batcher.execute, Batcher.dropJob]
    split
    · exact of_jobs rfl
    · exact (eraseJob number batcher).push _

theorem start [DecidableEq κ] [Catalog κ] (operation : Operation κ) (batcher : Batcher κ) :
    WantsLess batcher (batcher.start operation) := by
  cases operation with
  | submit id graph handler => exact request id graph handler batcher
  | cancel key => exact (retract key batcher).push _
  | run | dropFetch => exact of_jobs rfl
  | rearrange queue =>
    obtain ⟨order, -, heq⟩ := exists_perm_rearrange queue batcher
    rw [Batcher.start, heq]
    exact of_jobs rfl
  | complete number answer =>
    simp only [Batcher.start, Batcher.complete]
    split
    · exact of_jobs rfl
    · split
      · exact of_jobs rfl
      · exact (setJob_grounded rfl _).push _
  | close => exact (of_jobs rfl).trans (release _)

end WantsLess

/-- A job that is sent in flight is wanted by those who have a waiter in it. -/
theorem job?_flush {id number other : Nat} {job : Job κ} {key : Nat}
    (hjob : (batcher.flush id number).job? other = some job) (hwants : job.phase.wants key = true) :
    batcher.job? other = some job ∨ other = number ∧ ∃ old, batcher.job? number = some old ∧
      key ∈ old.keys ∧ ∃ graph, .restore id number graph
        (old.waiters.map fun waiter => { waiter with dispatched := true }) ∈
          (batcher.flush id number).agenda := by
  unfold Batcher.flush at hjob ⊢
  split at hjob
  · exact .inl hjob
  · rename_i old hold
    split at hjob
    · rename_i hpending
      by_cases heq : other = number
      · subst heq
        right
        have hsame : (⟨[], .inFlight old.keys none⟩ : Job κ) = job :=
          Option.some.inj ((job?_setJob_self _ _ _).symm.trans hjob)
        rw [← hsame, Phase.wants, List.contains_iff_mem] at hwants
        refine ⟨rfl, old, hold, hwants, ⟨old.union batcher.kind, ?_⟩⟩
        simp [hpending, Batcher.push]
      · left
        exact (job?_setJob_of_ne heq _ batcher).symm.trans hjob
    · exact .inl hjob

/-! ## Where the waiters are -/

/-- Every request that wants the answer of a job has its waiter in the job, or the waiter is going
to be given back to the job. -/
def Expected (batcher : Batcher κ) : Prop :=
  ∀ number job, batcher.job? number = some job → ∀ key, job.phase.wants key = true →
    key ∈ job.keys ∨ ∃ id graph waiters, .restore id number graph waiters ∈ batcher.agenda ∧
      key ∈ waiters.map (·.key)

namespace Expected

/-- Where less is wanted and no work is gone, every waiter is still where it is expected. -/
theorem of_wantsLess (h : before.Expected) (hwants : WantsLess before after)
    (hagenda : before.agenda ⊆ after.agenda) : after.Expected := by
  intro number job hjob key hnow
  obtain ⟨old, hold, hfirst, hkept⟩ := hwants number job hjob key hnow
  rcases h number old hold key hfirst with hmem | ⟨id, graph, waiters, hrestore, hmem⟩
  · exact .inl (hkept hmem)
  · exact .inr ⟨id, graph, waiters, hagenda hrestore, hmem⟩

/-- An instruction that gives back nothing can be taken off the agenda. -/
theorem pop {instruction : Instruction κ} (h : (batcher.push [instruction]).Expected)
    (hrestore : ∀ id number graph waiters, instruction ≠ .restore id number graph waiters) :
    batcher.Expected := by
  intro number job hjob key hwants
  rcases h number job hjob key hwants with hmem | ⟨id, graph, waiters, hwork, hmem⟩
  · exact .inl hmem
  · refine .inr ⟨id, graph, waiters, (List.mem_cons.1 hwork).resolve_left ?_, hmem⟩
    exact fun heq => hrestore id number graph waiters heq.symm

theorem flush (h : batcher.Expected) (id number : Nat) : (batcher.flush id number).Expected := by
  have hagenda : batcher.agenda ⊆ (batcher.flush id number).agenda :=
    (grows_execute (.flush id number) batcher).suffix.subset
  intro other job hjob key hwants
  rcases job?_flush hjob hwants with hsame | ⟨rfl, old, -, hmem, graph, hrestore⟩
  · rcases h other job hsame key hwants with hmem | ⟨id, graph, waiters, hwork, hmem⟩
    · exact .inl hmem
    · exact .inr ⟨id, graph, waiters, hagenda hwork, hmem⟩
  · refine .inr ⟨id, graph, _, hrestore, ?_⟩
    rw [List.map_map]
    exact hmem

/-- A waiter that is given back is in its job if its request still wants the answer. -/
theorem restore {id number : Nat} {graph : Graph κ} {waiters : List (Waiter κ)}
    (h : (batcher.push [.restore id number graph waiters]).Expected)
    (hsound : (batcher.push [.restore id number graph waiters]).Sound) :
    (batcher.restore id number graph waiters).Expected := by
  have hagenda : batcher.agenda ⊆ (batcher.restore id number graph waiters).agenda :=
    (grows_execute (.restore id number graph waiters) batcher).suffix.subset
  intro other job hjob key hwants
  obtain ⟨old, hold, hfirst, hkept⟩ := WantsLess.restore hsound other job hjob key hwants
  rcases h other old hold key hfirst with hmem | ⟨id', graph', waiters', hwork, hmem⟩
  · exact .inl (hkept hmem)
  · rcases List.mem_cons.1 hwork with heq | hlater
    · cases heq
      -- The job keeps those of its waiters whose requests want the answer.
      left
      have hold : batcher.job? number = some old := hold
      have hflight := Phase.isInFlight_of_wants hfirst
      simp only [Batcher.restore, hold, Option.map_some, Option.getD_some, hflight, if_true] at hjob
      have hsame := Option.some.inj ((job?_setJob_self _ _ _).symm.trans hjob)
      obtain ⟨waiter, hwaiter, rfl⟩ := List.mem_map.1 hmem
      rw [← hsame]
      exact List.mem_map_of_mem (List.mem_filter.2 ⟨hwaiter, hfirst⟩)
    · exact .inr ⟨id', graph', waiters', hagenda hlater, hmem⟩

/-- The step lemma: whatever instruction comes next, every waiter stays where it is expected. -/
theorem execute {instruction : Instruction κ} (hsound : (batcher.push [instruction]).Sound)
    (h : (batcher.push [instruction]).Expected) : (batcher.execute instruction).Expected := by
  have hagenda : batcher.agenda ⊆ (batcher.execute instruction).agenda :=
    (grows_execute instruction batcher).suffix.subset
  cases instruction with
  | flush id number => exact (h.pop (by simp)).flush id number
  | restore id number graph waiters => exact h.restore hsound
  | _ => exact (h.pop (by simp)).of_wantsLess (.execute hsound (by simp)) hagenda

end Expected

/-- A request that wants the answer of a job is tied to that job. -/
theorem Expected.tied (h : batcher.Expected) (hregistered : batcher.Registered) {number : Nat}
    {job : Job κ} (hjob : batcher.job? number = some job) {key : Nat}
    (hwants : job.phase.wants key = true) :
    ∃ standing, batcher.requests[key]? = some ⟨standing, some number⟩ := by
  rcases h number job hjob key hwants with hmem | ⟨id, graph, waiters, hwork, hmem⟩
  · obtain ⟨waiter, hwaiter, rfl⟩ := List.mem_map.1 hmem
    exact hregistered _ (mem_seats_of_job hjob hwaiter)
  · obtain ⟨waiter, hwaiter, rfl⟩ := List.mem_map.1 hmem
    apply hregistered (waiter.seat number)
    exact List.mem_append_right _ (List.mem_flatMap.2
      ⟨_, hwork, List.mem_map_of_mem (f := Waiter.seat number) hwaiter⟩)

theorem Reachable.expected [DecidableEq κ] [Catalog κ] {kind : κ} (h : Reachable kind batcher) :
    batcher.Expected := by
  apply Reachable.invariant (P := Expected) (.refl (.empty kind)) h
  · exact fun operation before _ hbefore =>
      hbefore.of_wantsLess (.start operation before) (suffix_agenda_start operation before).subset
  · exact fun _ _ hsound _ hbefore => hbefore.execute hsound
  · intro number job hjob
    cases hjob

end Batcher

end PartialEntity
