import Mathlib
import PartialEntity.Harbor.Kinds
import PartialEntity.Proofs.Batch.Renounced

/-!
# What a cancellation says and does

Whoever cancels a request is told whether that has withdrawn it.  If not, nothing has changed.  If
so, the request is on its way out: nobody can withdraw it again, and its handler is told that it was
cancelled and nothing else.  Only while a job is sent in flight the waiters of its requests are away
from it.  Then a request that was withdrawn goes on to stand as pending until its waiter is given
back, and its handler may first be told that the work was given out.
-/

namespace PartialEntity

open Batch

variable {κ : Type}

namespace Batch.Stage

variable {told : List (Callback κ)} {request : Option Request} {duties : List (Duty κ)}
variable {flags : List Bool}

/-- A request that is known and was not queued is about to be queued. -/
theorem of_fresh (h : Stage told (some .fresh) duties flags) (hpre : .pre ∈ told) :
    told = [.pre] ∧ duties = [.enqueue] ∧ flags = [] := by
  cases h with
  | announced => cases hpre
  | joining => exact ⟨rfl, rfl, rfl⟩

/-- The request of a waiter that is given back is pending. -/
theorem of_restore_mem {dispatched : Bool} (h : Stage told request duties flags)
    (hmem : .restore dispatched ∈ duties) :
    (told = [.pre] ∧ duties = [.call .post, .restore true] ∨
        told = [.pre, .post] ∧ duties = [.restore true]) ∧
      (∃ job, request = some ⟨.pending, some job⟩) ∧ flags = [] := by
  cases h with
  | dispatching => exact ⟨.inl ⟨rfl, rfl⟩, ⟨_, rfl⟩, rfl⟩
  | dispatched => exact ⟨.inr ⟨rfl, rfl⟩, ⟨_, rfl⟩, rfl⟩
  | leaving outcome late _ _ hduties => simp [hduties] at hmem
  | ending outcome first done rest _ _ _ _ hduties => simp [hduties] at hmem
  | _ => simp at hmem

end Batch.Stage

namespace Batcher

variable {batcher called : Batcher κ} {key : Nat}

/-! ## Waiters that are away from their jobs -/

/-- Whether the waiter of a request is away from its job: the handlers of the job are being told
that the work was given out, and then it is given back. -/
def Adrift (key : Nat) (batcher : Batcher κ) : Prop :=
  ∃ id number graph waiters, .restore id number graph waiters ∈ batcher.agenda ∧
    key ∈ waiters.map (·.key)

/-- A waiter is adrift exactly when its request is going to be given back to the job. -/
theorem adrift_iff :
    batcher.Adrift key ↔ ∃ dispatched, .restore dispatched ∈ batcher.duties key := by
  constructor
  · rintro ⟨id, number, graph, waiters, hwork, hmem⟩
    obtain ⟨waiter, hwaiter, hkey⟩ := List.mem_map.1 hmem
    refine ⟨waiter.dispatched, List.mem_flatMap.2 ⟨_, hwork, ?_⟩⟩
    rw [Instruction.duties_restore]
    exact List.mem_map_of_mem (List.mem_filter.2 ⟨hwaiter, by simp [hkey]⟩)
  · rintro ⟨dispatched, hmem⟩
    obtain ⟨instruction, hwork, hduty⟩ := List.mem_flatMap.1 hmem
    cases instruction with
    | restore id number graph waiters =>
      obtain ⟨waiter, hwaiter, -⟩ := List.mem_map.1 hduty
      refine ⟨id, number, graph, waiters, hwork, ?_⟩
      rw [← key_of_mem_waitersOf hwaiter]
      exact List.mem_map_of_mem (List.mem_of_mem_filter hwaiter)
    | call | mark | enqueue => simp at hduty
    | note occurrence => cases occurrence <;> simp [Instruction.duties] at hduty
    | _ => cases hduty

/-! ## Attempts -/

/-- An attempt to cancel that withdraws nothing changes nothing. -/
theorem retract_of_false (h : (batcher.retract key).result = false) :
    batcher.retract key = ⟨false, batcher, []⟩ := by
  unfold Batcher.retract at h ⊢
  split at h
  · cases h
  · rename_i number _
    rcases withdraw_cases key number batcher with heq | ⟨job, rest, fetches, -, -, -, heq⟩
    · exact heq
    · rw [heq] at h
      cases h
  · rfl

/-- A request is withdrawn before it was queued, or it is taken out of its job. -/
theorem retract_cases (h : (batcher.retract key).result = true) :
    batcher.requests[key]? = some .fresh ∧ batcher.retract key =
        ⟨true, batcher.changeRequest key (Request.mark .cancelled), []⟩ ∨
      ∃ number job rest fetches, batcher.requests[key]? = some ⟨.pending, some number⟩ ∧
        batcher.job? number = some job ∧ job.withdraw key = some (rest, job.waiter? key) ∧
        batcher.retract key = ⟨true, { batcher.setJob number rest with fetches },
          ((job.waiter? key).map fun waiter => waiter.settle .cancelled).getD []⟩ := by
  unfold Batcher.retract at h ⊢
  split at h
  · rename_i hrequest
    exact .inl ⟨hrequest, rfl⟩
  · rename_i number hrequest
    rcases withdraw_cases key number batcher with heq | ⟨job, rest, fetches, hjob, hrest, -, heq⟩
    · rw [heq] at h
      cases h
    · exact .inr ⟨number, job, rest, fetches, hrequest, hjob, hrest, heq⟩
  · cases h

/-- If a request is taken out of a job that does not have its waiter, the waiter is adrift. -/
theorem adrift_of_withdraw (hexpected : batcher.Expected) {number : Nat} {job rest : Job κ}
    (hjob : batcher.job? number = some job)
    (hrest : job.withdraw key = some (rest, job.waiter? key)) (hnone : job.waiter? key = none) :
    batcher.Adrift key := by
  have hwants : job.phase.wants key = true := by
    unfold Job.withdraw at hrest
    split at hrest
    · rw [hnone] at hrest
      cases hrest
    · rename_i live fetch hphase
      split at hrest
      · rename_i hlive
        rw [hphase]
        exact hlive
      · cases hrest
    · cases hrest
  rcases hexpected number job hjob key hwants with hmem | ⟨id, graph, waiters, hwork, hmem⟩
  · obtain ⟨waiter, hwaiter, hkey⟩ := List.mem_map.1 hmem
    have hother := List.find?_eq_none.1 hnone waiter hwaiter
    simp [hkey] at hother
  · exact ⟨id, number, graph, waiters, hwork, hmem⟩

/-- What an attempt that withdraws a known request finds: the request is about to be queued, it
waits in its job, or its waiter is adrift. -/
inductive Found (key : Nat) (batcher : Batcher κ) : Prop
  | joining (htold : batcher.callbacks key = [.pre]) (hduties : batcher.duties key = [.enqueue])
      (hwork : dutiesIn key (batcher.retract key).work = [])
      (hrequest : (batcher.retract key).batcher.requests[key]? = some ⟨.cancelled, none⟩)
  | waiting (dispatched : Bool) (htold : batcher.callbacks key = opening dispatched)
      (hduties : batcher.duties key = [])
      (hwork : dutiesIn key (batcher.retract key).work =
        .mark .cancelled :: (Outcome.ending .cancelled).map .call)
  | dispatching (htold : batcher.callbacks key = [.pre])
      (hduties : batcher.duties key = [.call .post, .restore true])
      (hwork : dutiesIn key (batcher.retract key).work = [])
  | dispatched (htold : batcher.callbacks key = [.pre, .post])
      (hduties : batcher.duties key = [.restore true])
      (hwork : dutiesIn key (batcher.retract key).work = [])

/-- An attempt that withdraws a request that is known has found it in one of the three places. -/
theorem found_of_retract (hstage : batcher.AtStage key) (hexpected : batcher.Expected)
    (hpre : .pre ∈ batcher.callbacks key) (h : (batcher.retract key).result = true) :
    batcher.Found key := by
  rcases retract_cases h with
    ⟨hrequest, heq⟩ | ⟨number, job, rest, fetches, hrequest, hjob, hrest, heq⟩
  · rw [AtStage, hrequest] at hstage
    obtain ⟨htold, hduties, -⟩ := hstage.of_fresh hpre
    refine .joining htold hduties (by rw [heq]; rfl) ?_
    rw [heq, getElem?_changeRequest, if_pos rfl, hrequest]
    rfl
  · cases hfind : job.waiter? key with
    | none =>
      obtain ⟨dispatched, hback⟩ := adrift_iff.1 (adrift_of_withdraw hexpected hjob hrest hfind)
      have hwork : dutiesIn key (batcher.retract key).work = [] := by
        rw [heq, hfind]
        rfl
      rcases (hstage.of_restore_mem hback).1 with ⟨htold, hduties⟩ | ⟨htold, hduties⟩
      · exact .dispatching htold hduties hwork
      · exact .dispatched htold hduties hwork
    | some waiter =>
      have hkey : waiter.key = key := by simpa using List.find?_some hfind
      have hheld : waiter ∈ batcher.held key :=
        List.mem_flatMap.2 ⟨_, Assoc.mem_of_find? hjob,
          List.mem_filter.2 ⟨List.mem_of_find?_eq_some hfind, by simp [hkey]⟩⟩
      obtain ⟨first, others, hcons⟩ := List.exists_cons_of_ne_nil (List.ne_nil_of_mem hheld)
      rw [AtStage, hcons] at hstage
      obtain ⟨htold, -, hduties, -⟩ := hstage.of_flags
      refine .waiting first.dispatched htold hduties ?_
      rw [heq, hfind, ← hkey]
      exact waiter.dutiesIn_settle_cancelled

/-- A request that was just withdrawn is wanted by no job. -/
theorem unwanted_retract (hexpected : batcher.Expected) (hregistered : batcher.Registered)
    (h : (batcher.retract key).result = true) {number : Nat} {job : Job κ}
    (hjob : (batcher.retract key).batcher.job? number = some job) :
    job.phase.wants key = false := by
  rw [Bool.eq_false_iff]
  intro hwants
  obtain ⟨old, hold, hfirst, -⟩ := WantsLess.retract key batcher number job hjob key hwants
  obtain ⟨standing, htied⟩ := hexpected.tied hregistered hold hfirst
  rcases retract_cases h with ⟨hrequest, -⟩ | ⟨tied, found, rest, fetches, hrequest, -, hrest, heq⟩
  · rw [htied] at hrequest
    cases hrequest
  · -- The only job that the request can be wanted by is the one that it was taken out of.
    obtain rfl : number = tied := by
      rw [htied] at hrequest
      exact Option.some.inj (congrArg Request.job (Option.some.inj hrequest))
    rw [heq] at hjob
    obtain rfl := Option.some.inj ((job?_setJob_self number rest batcher).symm.trans hjob)
    exact (Job.wants_withdraw hrest hwants).1 rfl

/-! ## Moments -/

/-- The agenda comes back to what it was before work was put in front of it. -/
theorem exists_steps_agenda {base : List (Instruction κ)} {fuel : Nat}
    (hbase : base <:+ batcher.agenda) (hend : (batcher.steps fuel).agenda = []) :
    ∃ count, (batcher.steps count).agenda = base := by
  induction fuel generalizing batcher with
  | zero =>
    refine ⟨0, ?_⟩
    rw [steps] at hend
    rw [hend, List.suffix_nil] at hbase
    rw [steps, hend, hbase]
  | succ fuel ih =>
    by_cases hsame : batcher.agenda = base
    · exact ⟨0, hsame⟩
    · obtain ⟨work, hwork⟩ := hbase
      cases work with
      | nil => exact absurd hwork.symm hsame
      | cons head rest =>
        obtain ⟨before, rfl, hstep⟩ := step_eq_execute hwork.symm
        have hrest : rest ++ base = before.agenda := List.cons.inj hwork |>.2
        have hlater : base <:+ (before.push [head]).step.agenda := by
          rw [hstep]
          exact (List.suffix_append rest base).trans
            (hrest ▸ (grows_execute head before).suffix)
        obtain ⟨count, hcount⟩ := ih hlater hend
        exact ⟨count + 1, hcount⟩

variable [DecidableEq κ] [Catalog κ] {kind : κ}

/-- The moments at which a request can be cancelled.  At the first state the attempt is made, and
the second one has what there is to do about it on the agenda. -/
inductive Cancels (kind : κ) (key : Nat) : Batcher κ → Batcher κ → Prop
  /-- From outside, at any time. -/
  | outside {batcher : Batcher κ} (h : Reachable kind batcher) :
      Cancels kind key batcher (batcher.start (.cancel key))
  /-- From a handler that is called. -/
  | within {batcher : Batcher κ} (other : Nat)
      (h : Reachable kind (batcher.push [.react other (.cancel key)])) :
      Cancels kind key batcher (batcher.react other (.cancel key))

namespace Cancels

theorem reachable (h : Cancels kind key batcher called) : Reachable kind called := by
  cases h with
  | outside h => exact h.trans (reaches_start _ _)
  | within other h => exact h.trans (reaches_steps 1 _)

theorem atStage (h : Cancels kind key batcher called) : batcher.AtStage key := by
  cases h with
  | outside h => exact h.atStage key
  | within other h => exact (h.atStage key).pop rfl

theorem expected (h : Cancels kind key batcher called) : batcher.Expected := by
  cases h with
  | outside h => exact h.expected
  | within other h => exact h.expected.pop (by simp)

theorem registered (h : Cancels kind key batcher called) : batcher.Registered := by
  cases h with
  | outside h => exact h.registered
  | within other h => exact h.registered.of_seats (Dwindles.pop _ _).seats (.of_eq rfl)

/-- What the attempt comes to is put on the agenda. -/
theorem frame (h : Cancels kind key batcher called) (hknown : key < batcher.requests.length) :
    ∃ extra, dutiesIn key extra = [] ∧
      called = (batcher.retract key).batcher.push ((batcher.retract key).work ++ extra) := by
  cases h with
  | outside => exact ⟨[], rfl, by rw [List.append_nil]; rfl⟩
  | within other => exact ⟨_, rfl, if_pos hknown⟩

theorem lt_length (h : Cancels kind key batcher called) (hpre : .pre ∈ batcher.callbacks key) :
    key < batcher.requests.length := by
  cases hrequest : batcher.requests[key]? with
  | none =>
    have hstage := h.atStage
    rw [AtStage, hrequest] at hstage
    rw [hstage.of_none.1] at hpre
    cases hpre
  | some request => exact (List.getElem?_eq_some_iff.1 hrequest).1

/-- What the handler of a request is told before the end, if the request is withdrawn now. -/
theorem renounced (h : Cancels kind key batcher called) (hpre : .pre ∈ batcher.callbacks key)
    (htrue : (batcher.retract key).result = true) {late : List (Callback κ)}
    (hlate : batcher.callbacks key ++
      ((dutiesIn key (batcher.retract key).work).flatMap Duty.tells ++ batcher.forecast key) =
        batcher.callbacks key ++ late ++ [.cancel, .destroy]) :
    called.Renounced key (batcher.callbacks key ++ late) := by
  have hknown := h.lt_length hpre
  obtain ⟨extra, hextra, hcalled⟩ := h.frame hknown
  have hframe : called.callbacks key = batcher.callbacks key ∧
      called.forecast key = (dutiesIn key (batcher.retract key).work).flatMap Duty.tells ++
        batcher.forecast key := by
    rw [hcalled]
    constructor
    · change (batcher.retract key).batcher.callbacks key = _
      rw [callbacks, history_retract, callbacks]
    · rw [forecast_push, dutiesIn_append, hextra, List.append_nil]
      congr 1
      rw [forecast, duties, agenda_retract, forecast, duties]
  refine ⟨by rw [hframe.1, hframe.2, hlate], fun number job hjob => ?_, ?_⟩
  · rw [hcalled] at hjob
    exact unwanted_retract h.expected h.registered htrue hjob
  · rw [hcalled]
    change ∃ request, (batcher.retract key).batcher.requests[key]? = some request ∧ request ≠ .fresh
    rcases retract_cases htrue with
      ⟨hrequest, heq⟩ | ⟨number, job, rest, fetches, hrequest, -, -, heq⟩
    · refine ⟨⟨.cancelled, none⟩, ?_, by simp [Request.fresh]⟩
      rw [heq, getElem?_changeRequest, if_pos rfl, hrequest]
      rfl
    · refine ⟨⟨.pending, some number⟩, ?_, by simp [Request.fresh]⟩
      rw [heq]
      exact hrequest

end Cancels

/-! ## What a cancellation is worth -/

/-- The calls that the handler of a request is still told before it is told of the cancellation.
There is at most one: if the waiter is adrift, the handler is told that the work was given out,
unless it knows. -/
inductive Late (key : Nat) (batcher : Batcher κ) : List (Callback κ) → Prop
  | none (h : batcher.Adrift key → .post ∈ batcher.callbacks key) : Late key batcher []
  | post (hadrift : batcher.Adrift key) (h : .post ∉ batcher.callbacks key) :
      Late key batcher [.post]

structure Withdrawn (key : Nat) (batcher called : Batcher κ) : Prop where
  /-- The attempt returns. -/
  returns : ∃ count, (called.steps count).agenda = batcher.agenda
  /-- Nobody withdraws the request once more. -/
  last : ∀ later, Reaches called later → (later.retract key).result = false
  /-- The request stands as cancelled when the attempt has returned and from then on, unless its
  waiter is adrift. -/
  cancelled : ¬batcher.Adrift key → ∀ returned, Reaches called returned →
    returned.agenda = batcher.agenda →
      ∀ later, Reaches returned later → later.standing? key = some .cancelled
  /-- If its waiter is adrift, the request still stands as pending when the attempt has returned. -/
  pending : batcher.Adrift key → ∀ returned, Reaches called returned →
    returned.agenda = batcher.agenda → returned.standing? key = some .pending
  /-- Its handler is told that it was cancelled and is destroyed, and when all is done it stands as
  cancelled in any case. -/
  told : ∃ late, Late key batcher late ∧ ∀ later, Reaches called later →
    later.callbacks key <+: batcher.callbacks key ++ late ++ [.cancel, .destroy] ∧
      (later.agenda = [] →
        later.callbacks key = batcher.callbacks key ++ late ++ [.cancel, .destroy] ∧
          later.standing? key = some .cancelled)

omit [DecidableEq κ] [Catalog κ] in
/-- A request that stands as cancelled goes on to do so. -/
theorem RequestsPrecede.cancelled {before after : Batcher κ} (h : RequestsPrecede before after)
    (hcancelled : before.standing? key = some .cancelled) :
    after.standing? key = some .cancelled := by
  obtain ⟨request, hrequest, hstanding⟩ := Option.map_eq_some_iff.1 hcancelled
  obtain ⟨later, hlater, hprecedes⟩ := h key request hrequest
  rw [standing?, hlater, Option.map_some, hprecedes.standing (by simp [hstanding]), hstanding]

namespace Cancels

/-- A request that was withdrawn is on its course. -/
theorem exists_renounced (h : Cancels kind key batcher called)
    (hpre : .pre ∈ batcher.callbacks key) (htrue : (batcher.retract key).result = true) :
    ∃ late, Late key batcher late ∧
      batcher.callbacks key ++ late ∈ (Outcome.cancelled : Outcome κ).openings ∧
      called.Renounced key (batcher.callbacks key ++ late) := by
  have hunheld : ∀ {duties : List (Duty κ)}, batcher.duties key = duties →
      (∀ dispatched, .restore dispatched ∉ duties) → ¬batcher.Adrift key := by
    intro duties hduties hnone hadrift
    obtain ⟨dispatched, hmem⟩ := adrift_iff.1 hadrift
    exact hnone dispatched (hduties ▸ hmem)
  cases found_of_retract h.atStage h.expected hpre htrue with
  | joining htold hduties hwork =>
    refine ⟨[], .none fun hadrift => absurd hadrift (hunheld hduties (by simp)), ?_,
      h.renounced hpre htrue ?_⟩
    · simp [htold, Outcome.openings]
    · simp [htold, hwork, forecast, hduties, Duty.tells]
  | waiting dispatched htold hduties hwork =>
    refine ⟨[], .none fun hadrift => absurd hadrift (hunheld hduties (by simp)), ?_,
      h.renounced hpre htrue ?_⟩
    · cases dispatched <;> simp [htold, opening, Outcome.openings]
    · simp [htold, hwork, forecast, hduties, Duty.tells, Outcome.ending]
  | dispatching htold hduties hwork =>
    have hadrift : batcher.Adrift key := adrift_iff.2 ⟨true, by simp [hduties]⟩
    refine ⟨[.post], .post hadrift (by simp [htold]), ?_, h.renounced hpre htrue ?_⟩
    · simp [htold, Outcome.openings]
    · simp [htold, hwork, forecast, hduties, Duty.tells]
  | dispatched htold hduties hwork =>
    refine ⟨[], .none fun _ => by simp [htold], ?_, h.renounced hpre htrue ?_⟩
    · simp [htold, Outcome.openings]
    · simp [htold, hwork, forecast, hduties, Duty.tells]

/-- When an attempt has withdrawn a request whose waiter is not adrift, the request stands as
cancelled as soon as the attempt has returned. -/
theorem standing_of_return (h : Cancels kind key batcher called)
    (hpre : .pre ∈ batcher.callbacks key) (htrue : (batcher.retract key).result = true)
    (hadrift : ¬batcher.Adrift key) {returned : Batcher κ} (hreturned : Reaches called returned)
    (hagenda : returned.agenda = batcher.agenda) : returned.standing? key = some .cancelled := by
  have hreachable : Reachable kind returned := h.reachable.trans hreturned
  have hduties : returned.duties key = batcher.duties key := by rw [duties, hagenda, duties]
  obtain ⟨late, -, hopening, hrenounced⟩ := h.exists_renounced hpre htrue
  cases found_of_retract h.atStage h.expected hpre htrue with
  | joining _ _ _ hrequest =>
    obtain ⟨extra, -, hcalled⟩ := h.frame (h.lt_length hpre)
    refine (h.reachable.requestsPrecede hreturned).cancelled ?_
    rw [hcalled]
    change (batcher.retract key).batcher.requests[key]?.map (·.standing) = _
    rw [hrequest]
    rfl
  | waiting _ _ hnone _ =>
    exact ((hrenounced.along h.reachable hreturned).cancelled (hreachable.atStage key) hopening
      (hduties.trans hnone)).2
  | dispatching _ hback _ => exact absurd (adrift_iff.2 ⟨true, by simp [hback]⟩) hadrift
  | dispatched _ hback _ => exact absurd (adrift_iff.2 ⟨true, by simp [hback]⟩) hadrift

/-- An attempt that is refused changes nothing; called for by a handler, it is written down. -/
theorem refused (h : Cancels kind key batcher called) (hpre : .pre ∈ batcher.callbacks key)
    (hfalse : (batcher.retract key).result = false) : called = batcher ∨
      ∃ other, called.step = batcher.note (.tried other key (some false)) := by
  have hrefused := retract_of_false hfalse
  have hknown := h.lt_length hpre
  cases h with
  | outside =>
    left
    rw [Batcher.start, hrefused]
    rfl
  | within other =>
    right
    refine ⟨other, ?_⟩
    rw [Batcher.react]
    simp only [hknown, if_true, hrefused]
    rfl

/-- An attempt that is not refused has withdrawn the request. -/
theorem withdrawn (h : Cancels kind key batcher called) (hpre : .pre ∈ batcher.callbacks key)
    (htrue : (batcher.retract key).result = true) : Withdrawn key batcher called := by
  obtain ⟨late, hlate, hopening, hrenounced⟩ := h.exists_renounced hpre htrue
  have hstage : ∀ later, Reaches called later → later.AtStage key := by
    intro later hlater
    have hreachable : Reachable kind later := h.reachable.trans hlater
    exact hreachable.atStage key
  have hcourse : ∀ later, Reaches called later →
      later.Renounced key (batcher.callbacks key ++ late) :=
    fun later hlater => hrenounced.along h.reachable hlater
  exact {
    returns := by
      obtain ⟨extra, -, hcalled⟩ := h.frame (h.lt_length hpre)
      refine exists_steps_agenda ⟨(batcher.retract key).work ++ extra, ?_⟩ (agenda_drain called)
      rw [hcalled, push, agenda_retract]
    last := fun later hlater => by
      have hnow := hcourse later hlater
      rw [retract_refused (hnow.held_eq_nil (hstage later hlater)) hnow.unwanted hnow.made]
    cancelled := fun hadrift returned hreturned hagenda later hlater => by
      have hreachable : Reachable kind returned := h.reachable.trans hreturned
      exact (hreachable.requestsPrecede hlater).cancelled
        (h.standing_of_return hpre htrue hadrift hreturned hagenda)
    pending := fun hadrift returned hreturned hagenda => by
      -- The waiter is still away, and the request of a waiter that is away is pending.
      obtain ⟨dispatched, hback⟩ := adrift_iff.1 hadrift
      have hmem : .restore dispatched ∈ returned.duties key := by rwa [duties, hagenda]
      obtain ⟨-, ⟨job, hrequest⟩, -⟩ := (hstage returned hreturned).of_restore_mem hmem
      rw [standing?, hrequest]
      rfl
    told := ⟨late, hlate, fun later hlater => ⟨(hcourse later hlater).told_in_order,
      fun hend => (hcourse later hlater).cancelled (hstage later hlater) hopening
        (duties_of_rest hend key)⟩⟩ }

/-- Cancelling is truthful but for one moment.  An attempt that is refused changes nothing; called
for by a handler, it is written down.  An attempt that is not refused has withdrawn the request for
good; but if the waiter of the request is adrift, the request does not stand as cancelled yet when
the attempt has returned, and its handler may still be told that the work was given out. -/
theorem truthful (h : Cancels kind key batcher called) (hpre : .pre ∈ batcher.callbacks key) :
    ((batcher.retract key).result = false → called = batcher ∨
      ∃ other, called.step = batcher.note (.tried other key (some false))) ∧
    ((batcher.retract key).result = true → Withdrawn key batcher called) :=
  ⟨h.refused hpre, h.withdrawn hpre⟩

end Cancels

/-! ## An example -/

/-- Two requests for a person, and the window is being closed.  The handler of the first one was
told that the work was given out, and it is going to cancel the second one, whose handler was not
told. -/
def overtaken : Batcher Harbor.Kind :=
  ((((Batcher.empty .person).perform (.submit 1 (.none .person) [(.post, .cancel 1)])).perform
    (.submit 1 (.none .person) [])).start .run).steps 3

/-- The attempt says that it has withdrawn the second request, but that stands as pending when the
attempt has returned, and its handler is told of the work before it is told of the cancellation. -/
theorem overtaken_withdrawn : ∃ batcher : Batcher Harbor.Kind,
    batcher.push [.react 0 (.cancel 1)] = overtaken ∧ (batcher.retract 1).result = true ∧
      (∃ returned, Reaches overtaken returned ∧ returned.agenda = batcher.agenda ∧
        returned.standing? 1 = some .pending) ∧
      ∀ later, Reaches overtaken.step later → later.agenda = [] →
        later.callbacks 1 = [.pre, .post, .cancel, .destroy] := by
  let batcher : Batcher Harbor.Kind := { overtaken with agenda := overtaken.agenda.tail }
  have hpush : batcher.push [.react 0 (.cancel 1)] = overtaken := rfl
  have hreachable : Reachable .person overtaken :=
    (((reaches_perform _ _).trans (reaches_perform _ _)).trans (reaches_start _ _)).trans
      (reaches_steps 3 _)
  have hcancels : Cancels .person 1 batcher overtaken.step := .within 0 (hpush ▸ hreachable)
  have htold : batcher.callbacks 1 = [.pre] := rfl
  have htrue : (batcher.retract 1).result = true := rfl
  have hadrift : batcher.Adrift 1 :=
    adrift_iff.2 ⟨true, List.mem_cons_of_mem _ (List.mem_singleton_self _)⟩
  obtain ⟨⟨count, hcount⟩, -, -, hpending, late, hlate, hlater⟩ :=
    (hcancels.truthful (by rw [htold]; exact List.mem_singleton_self _)).2 htrue
  have hreturned : Reaches overtaken.step (overtaken.step.steps count) := reaches_steps _ _
  refine ⟨batcher, hpush, htrue, ⟨_, (reaches_steps 1 overtaken).trans hreturned, hcount,
    hpending hadrift _ hreturned hcount⟩, fun later hreaches hend => ?_⟩
  have hall := ((hlater later hreaches).2 hend).1
  cases hlate with
  | none h =>
    have hpost := h hadrift
    rw [htold] at hpost
    simp at hpost
  | post =>
    rw [hall, htold]
    rfl

end Batcher

end PartialEntity
