import Mathlib
import PartialEntity.Proofs.Batch.Queueing

/-!
# The open window

The requests of the open window are those that were queued since it was opened.  The jobs in the
queue hold exactly those of them that were not cancelled, in the order in which they were queued,
even if all requests for an id were cancelled and others came after them.
-/

namespace PartialEntity

open Batch

variable {κ : Type}

namespace Batch

structure Submission (κ : Type) where
  key : Nat
  id : Nat
  graph : Graph κ

def Waiter.submission (id : Nat) (waiter : Waiter κ) : Submission κ :=
  ⟨waiter.key, id, waiter.graph⟩

/-- The request that an instruction queues, if it queues one. -/
def Instruction.arrivals : Instruction κ → List (Submission κ)
  | .enqueue key id graph _ => [⟨key, id, graph⟩]
  | _ => []

def Instruction.cancels (key : Nat) : Instruction κ → Bool
  | .mark other .cancelled => other == key
  | _ => false

def cancelsIn (key : Nat) (work : List (Instruction κ)) : Bool :=
  work.any fun instruction => instruction.cancels key

@[simp]
theorem cancelsIn_nil (key : Nat) : cancelsIn key ([] : List (Instruction κ)) = false := rfl

@[simp]
theorem cancelsIn_cons (key : Nat) (instruction : Instruction κ) (rest : List (Instruction κ)) :
    cancelsIn key (instruction :: rest) = (instruction.cancels key || cancelsIn key rest) := rfl

@[simp]
theorem cancelsIn_append (key : Nat) (first second : List (Instruction κ)) :
    cancelsIn key (first ++ second) = (cancelsIn key first || cancelsIn key second) :=
  List.any_append

theorem cancelsIn_flatMap (key : Nat) (f : Waiter κ → List (Instruction κ))
    (waiters : List (Waiter κ)) :
    cancelsIn key (waiters.flatMap f) = waiters.any fun waiter => cancelsIn key (f waiter) :=
  List.any_flatMap

theorem mem_dutiesIn_of_cancelsIn {key : Nat} {work : List (Instruction κ)}
    (h : cancelsIn key work = true) : .mark .cancelled ∈ dutiesIn key work := by
  obtain ⟨instruction, hmem, hcancels⟩ := List.any_eq_true.1 h
  apply List.mem_flatMap.2
  use instruction, hmem
  cases instruction with
  | mark other standing =>
    cases standing with
    | cancelled => simp_all [Instruction.cancels]
    | _ => simp [Instruction.cancels] at hcancels
  | _ => simp [Instruction.cancels] at hcancels

namespace Waiter

@[simp]
theorem cancelsIn_dispatch (waiter : Waiter κ) (key : Nat) :
    cancelsIn key waiter.dispatch = false := by
  unfold dispatch
  split <;> rfl

theorem cancelsIn_settle_cancelled (waiter : Waiter κ) (key : Nat) :
    cancelsIn key (waiter.settle .cancelled) = (waiter.key == key) := by
  simp [settle, call, Instruction.cancels]

theorem cancelsIn_discard (waiter : Waiter κ) (key : Nat) :
    cancelsIn key waiter.discard = (waiter.key == key) := by
  simp [discard, call, Instruction.cancels]

theorem cancelsIn_settle (waiter : Waiter κ) {outcome : Outcome κ} (h : outcome ≠ .cancelled)
    (key : Nat) : cancelsIn key (waiter.settle outcome) = false := by
  cases outcome with
  | success value => simp [settle, call, Instruction.cancels]
  | failed error => simp [settle, call, Instruction.cancels]
  | cancelled => contradiction

variable [DecidableEq κ] [Catalog κ]

/-- The answer of a fetch cancels nothing. -/
theorem outcome_ne_cancelled (waiter : Waiter κ) (answer : Except Error (Option (Entity κ))) :
    waiter.outcome answer ≠ .cancelled := by
  unfold outcome
  split
  · simp only
    split <;> simp
  · simp
  · simp

theorem cancelsIn_deliver (answer : Except Error (Option (Entity κ))) (waiter : Waiter κ)
    (key : Nat) : cancelsIn key (waiter.deliver answer) = false :=
  waiter.cancelsIn_settle (waiter.outcome_ne_cancelled answer) key

end Waiter

end Batch

namespace Batcher

variable {batcher : Batcher κ}

def arrivals (batcher : Batcher κ) : List (Submission κ) :=
  match batcher.agenda with
  | [] => []
  | instruction :: _ => instruction.arrivals

/-- Whether a request was cancelled, or is just about to be marked so. -/
def isWithdrawn (batcher : Batcher κ) (key : Nat) : Bool :=
  batcher.standing? key == some .cancelled || cancelsIn key batcher.agenda

/-- A waiter that is going to be given back to its job is in no job. -/
theorem held_of_restore {id number : Nat} {graph : Graph κ} {waiters : List (Waiter κ)}
    {waiter : Waiter κ}
    (hstage : (batcher.push [.restore id number graph waiters]).AtStage waiter.key)
    (hmem : waiter ∈ waiters) : batcher.held waiter.key = [] := by
  have hmine : waiter ∈ waitersOf waiter.key waiters := List.mem_filter.2 ⟨hmem, by simp⟩
  obtain ⟨first, rest, hwaiters⟩ := List.exists_cons_of_ne_nil (List.ne_nil_of_mem hmine)
  rw [AtStage, duties_push] at hstage
  simp only [dutiesIn_cons, dutiesIn_nil, Instruction.duties_restore, List.append_nil, hwaiters,
    List.map_cons, List.cons_append] at hstage
  obtain ⟨_, _, _, _, hflags⟩ := hstage.restore
  exact List.map_eq_nil_iff.1 hflags

/-- The open window holds the requests of a log that were not cancelled, and nothing else. -/
structure Accounted (log : List (Submission κ)) (batcher : Batcher κ) : Prop where
  isOpen : batcher.isOpen = true
  attached : ∀ submission ∈ log, batcher.WasQueued submission.key
  waiting : ∀ id, (batcher.waiting id).map (Waiter.submission id) =
    log.filter fun submission => submission.id == id && !batcher.isWithdrawn submission.key

/-! ## Where waiters are -/

theorem isWithdrawn_push (work : List (Instruction κ)) (batcher : Batcher κ) (key : Nat) :
    (batcher.push work).isWithdrawn key = (batcher.isWithdrawn key || cancelsIn key work) := by
  have hstanding : (batcher.push work).standing? key = batcher.standing? key := rfl
  rw [isWithdrawn, hstanding, push, cancelsIn_append, isWithdrawn, Bool.or_assoc,
    Bool.or_comm (cancelsIn key work)]

theorem cancelsIn_agenda {key : Nat} (h : batcher.duties key = []) :
    cancelsIn key batcher.agenda = false := by
  cases hcancels : cancelsIn key batcher.agenda with
  | false => rfl
  | true =>
    have hmark : .mark .cancelled ∈ batcher.duties key := mem_dutiesIn_of_cancelsIn hcancels
    rw [h] at hmark
    cases hmark

namespace Accounted

variable {log : List (Submission κ)}

/-- A request of the log that is not withdrawn waits in the window. -/
theorem exists_waiting (h : batcher.Accounted log) {submission : Submission κ}
    (hmem : submission ∈ log) (hlive : batcher.isWithdrawn submission.key = false) :
    ∃ waiter ∈ batcher.waiting submission.id, waiter.key = submission.key := by
  have hfilter : submission ∈ (batcher.waiting submission.id).map
      (Waiter.submission submission.id) := by
    rw [h.waiting]
    exact List.mem_filter.2 ⟨hmem, by simp [hlive]⟩
  obtain ⟨waiter, hwaiter, heq⟩ := List.mem_map.1 hfilter
  exact ⟨waiter, hwaiter, congrArg Submission.key heq⟩

/-- What withdraws only requests that do not wait in the window leaves the account as it is. -/
theorem congr (h : batcher.Accounted log) {other : Batcher κ} (hopen : other.isOpen = true)
    (hattached : ∀ submission ∈ log, other.WasQueued submission.key)
    (hwaiting : ∀ id, other.waiting id = batcher.waiting id)
    (hkept : ∀ submission ∈ log, batcher.isWithdrawn submission.key = true →
      other.isWithdrawn submission.key = true)
    (hfresh : ∀ submission ∈ log, other.isWithdrawn submission.key = true →
      batcher.isWithdrawn submission.key = false →
      ∀ waiter ∈ batcher.waiting submission.id, waiter.key ≠ submission.key) :
    other.Accounted log where
  isOpen := hopen
  attached := hattached
  waiting id := by
    rw [hwaiting, h.waiting]
    apply List.filter_congr
    intro submission hmem
    congr 2
    cases hold : batcher.isWithdrawn submission.key with
    | true => exact (hkept submission hmem hold).symm
    | false =>
      cases hnew : other.isWithdrawn submission.key with
      | false => rfl
      | true =>
        obtain ⟨waiter, hwaiter, hkey⟩ := h.exists_waiting hmem hold
        exact absurd hkey (hfresh submission hmem hnew hold waiter hwaiter)

/-! ## Updates -/

theorem note (h : batcher.Accounted log) (occurrence : Occurrence κ) :
    (batcher.note occurrence).Accounted log :=
  ⟨h.isOpen, h.attached, h.waiting⟩

/-- Work may mark requests as cancelled that do not wait in the window. -/
theorem push (h : batcher.Accounted log) {work : List (Instruction κ)}
    (hwork : ∀ key, cancelsIn key work = true →
      ∀ id, ∀ waiter ∈ batcher.waiting id, waiter.key ≠ key) :
    (batcher.push work).Accounted log := by
  apply h.congr
  · exact h.isOpen
  · exact h.attached
  · intro id
    rfl
  · intro submission _ hold
    rw [isWithdrawn_push, hold, Bool.true_or]
  · intro submission _ hnew hold
    rw [isWithdrawn_push, hold, Bool.false_or] at hnew
    exact hwork submission.key hnew submission.id

/-- Work that cancels nothing leaves a window accounted for. -/
theorem push_quiet (h : batcher.Accounted log) {work : List (Instruction κ)}
    (hwork : ∀ key, cancelsIn key work = false) : (batcher.push work).Accounted log := by
  apply h.push
  intro key hcancels
  rw [hwork] at hcancels
  cases hcancels

theorem pop {work : List (Instruction κ)} (h : (batcher.push work).Accounted log)
    (hwork : ∀ key, cancelsIn key work = false) : batcher.Accounted log := by
  have hwithdrawn : ∀ key, (batcher.push work).isWithdrawn key = batcher.isWithdrawn key := by
    intro key
    rw [isWithdrawn_push, hwork, Bool.or_false]
  constructor
  · exact h.isOpen
  · exact h.attached
  · intro id
    have hwaiting := h.waiting id
    simp only [hwithdrawn] at hwaiting
    exact hwaiting

theorem push_append {work extra : List (Instruction κ)} (h : (batcher.push work).Accounted log)
    (hextra : ∀ key, cancelsIn key extra = false) :
    (batcher.push (work ++ extra)).Accounted log := by
  have hwithdrawn : ∀ key, (batcher.push (work ++ extra)).isWithdrawn key =
      (batcher.push work).isWithdrawn key := by
    intro key
    rw [isWithdrawn_push, isWithdrawn_push, cancelsIn_append, hextra, Bool.or_false]
  constructor
  · exact h.isOpen
  · exact h.attached
  · intro id
    simp only [hwithdrawn]
    exact h.waiting id

/-- Jobs that the window does not keep do not matter. -/
theorem withJobs (h : batcher.Accounted log) {jobs : List (Nat × Job κ)}
    (hjobs : ∀ number ∈ batcher.queue.map (·.2),
      ({ batcher with jobs } : Batcher κ).job? number = batcher.job? number) :
    ({ batcher with jobs } : Batcher κ).Accounted log := by
  constructor
  · exact h.isOpen
  · exact h.attached
  · intro id
    have hwaiting : ({ batcher with jobs } : Batcher κ).waiting id = batcher.waiting id := by
      apply waiting_congr
      · rfl
      · exact hjobs
    rw [hwaiting]
    exact h.waiting id

/-! ## Cancelling -/

/-- A request whose waiter is taken out of its job is going to be marked as cancelled. -/
theorem withdraw_waiter (h : batcher.Accounted log) {key number : Nat} {job rest : Job κ}
    {waiter : Waiter κ} {fetches : List (Nat × Fetch κ)} (hstage : batcher.AtStage key)
    (hjob : batcher.job? number = some job) (hwaiter : job.waiter? key = some waiter)
    (hrest : rest.waiters = job.without key) :
    (({ batcher.setJob number rest with fetches } : Batcher κ).push
      (waiter.settle .cancelled)).Accounted log := by
  have hkey : waiter.key = key := by simpa using List.find?_some hwaiter
  have hwithdrawn : ∀ other, (({ batcher.setJob number rest with fetches } : Batcher κ).push
      (waiter.settle .cancelled)).isWithdrawn other =
      (batcher.isWithdrawn other || key == other) := by
    intro other
    rw [isWithdrawn_push, Waiter.cancelsIn_settle_cancelled, hkey]
    rfl
  constructor
  · exact h.isOpen
  · exact h.attached
  · intro id
    have hlength := Stage.length_flags_le hstage
    rw [List.length_map] at hlength
    have hwaiting := waiting_setJob_without hlength hjob hwaiter hrest id
    change ((batcher.setJob number rest).waiting id).map _ = _
    rw [hwaiting]
    have hmap : ((batcher.waiting id).filter fun other => !(other.key == key)).map
        (Waiter.submission id) = ((batcher.waiting id).map (Waiter.submission id)).filter
          fun submission => !(submission.key == key) := by
      rw [List.filter_map]
      rfl
    rw [hmap, h.waiting, List.filter_filter]
    apply List.filter_congr
    intro submission _
    rw [hwithdrawn, Bool.not_or, Bool.beq_comm]
    cases submission.id == id <;> cases batcher.isWithdrawn submission.key <;>
      cases key == submission.key <;> rfl

theorem withdraw (h : batcher.Accounted log) {key : Nat} (hstage : batcher.AtStage key)
    (number : Nat) : ((batcher.withdraw key number).batcher.push
      (batcher.withdraw key number).work).Accounted log := by
  rcases withdraw_cases key number batcher with
    heq | ⟨job, rest, fetches, hjob, hrest, _, heq⟩
  · rw [heq]
    exact h
  · obtain ⟨hwaiters, _, _⟩ := Job.withdraw_eq_some hrest
    rw [heq]
    cases hfind : job.waiter? key with
    | none =>
      have hsame : job.without key = job.waiters := by
        apply List.filter_eq_self.2
        intro waiter hmem
        simpa using List.find?_eq_none.1 hfind waiter hmem
      constructor
      · exact h.isOpen
      · exact h.attached
      · intro id
        have hwaiting : (batcher.setJob number rest).waiting id = batcher.waiting id := by
          rw [waiting_setJob]
          split
          · rename_i hnumber
            simp [Batcher.waiting, hnumber, hjob, hwaiters, hsame]
          · rfl
        change ((batcher.setJob number rest).waiting id).map _ = _
        rw [hwaiting]
        exact h.waiting id
    | some waiter => exact h.withdraw_waiter hstage hjob hfind hwaiters

theorem changeRequest (h : batcher.Accounted log) {key : Nat} {change : Request → Request}
    (hchange : ∀ submission ∈ log, submission.key ≠ key) :
    (batcher.changeRequest key change).Accounted log := by
  have hrequest : ∀ submission ∈ log, (batcher.changeRequest key change).requests[submission.key]? =
      batcher.requests[submission.key]? := by
    intro submission hmem
    rw [getElem?_changeRequest, if_neg (Ne.symm (hchange submission hmem))]
  have hwithdrawn : ∀ submission ∈ log, (batcher.changeRequest key change).isWithdrawn
      submission.key = batcher.isWithdrawn submission.key := by
    intro submission hmem
    simp only [isWithdrawn, standing?, hrequest submission hmem]
    rfl
  apply h.congr
  · exact h.isOpen
  · intro submission hmem
    rw [WasQueued, hrequest submission hmem]
    exact h.attached submission hmem
  · intro id
    rfl
  · intro submission hmem hold
    rw [hwithdrawn submission hmem]
    exact hold
  · intro submission hmem hnew hold
    rw [hwithdrawn submission hmem, hold] at hnew
    cases hnew

theorem retract (h : batcher.Accounted log) {key : Nat} (hstage : batcher.AtStage key) :
    ((batcher.retract key).batcher.push (batcher.retract key).work).Accounted log := by
  unfold Batcher.retract
  split
  · rename_i hrequest
    apply h.changeRequest
    rintro submission hmem rfl
    obtain ⟨standing, job, hattached⟩ := h.attached submission hmem
    rw [hrequest] at hattached
    cases hattached
  · exact h.withdraw hstage _
  · exact h

/-! ## Requests -/

theorem request (h : batcher.Accounted log) (id : Nat) (graph : Graph κ) (handler : Handler κ) :
    (batcher.request id graph handler).Accounted log := by
  unfold Batcher.request
  split
  · have hrequest : ∀ submission ∈ log,
        (batcher.requests ++ [.fresh])[submission.key]? = batcher.requests[submission.key]? := by
      intro submission hmem
      obtain ⟨standing, job, hattached⟩ := h.attached submission hmem
      exact List.getElem?_append_left (List.getElem?_eq_some_iff.1 hattached).1
    have hnew : ({ batcher with requests := batcher.requests ++ [.fresh] } :
        Batcher κ).Accounted log := by
      apply h.congr
      · exact h.isOpen
      · intro submission hmem
        change ∃ standing job, (batcher.requests ++ [.fresh])[submission.key]? = _
        rw [hrequest submission hmem]
        exact h.attached submission hmem
      · intro id
        rfl
      · intro submission hmem hold
        simp only [isWithdrawn, standing?, hrequest submission hmem] at hold ⊢
        exact hold
      · intro submission hmem hnew hold
        simp only [isWithdrawn, standing?, hrequest submission hmem] at hnew hold
        rw [hold] at hnew
        cases hnew
    exact hnew.push_quiet fun _ => rfl
  · exact h

theorem react (h : batcher.Accounted log) (hstage : ∀ key, batcher.AtStage key) (key : Nat)
    (reaction : Reaction κ) : (batcher.react key reaction).Accounted log := by
  cases reaction with
  | cancel target =>
    simp only [Batcher.react]
    split
    · exact (h.retract (hstage target)).push_append fun _ => rfl
    · exact h.push_quiet fun _ => rfl
  | submit id graph handler => exact h.request id graph handler

/-! ## Queueing -/

/-- A request that was queued belongs to the window unless it is withdrawn at once. -/
theorem append (h : batcher.Accounted log) {after : Batcher κ} (submission : Submission κ)
    (hopen : after.isOpen = true)
    (hattached : ∀ other ∈ log ++ [submission], after.WasQueued other.key)
    (hwithdrawn : ∀ other ∈ log, after.isWithdrawn other.key = batcher.isWithdrawn other.key)
    (hwaiting : ∀ id, (after.waiting id).map (Waiter.submission id) =
      (batcher.waiting id).map (Waiter.submission id) ++
        [submission].filter fun other => other.id == id && !after.isWithdrawn other.key) :
    after.Accounted (log ++ [submission]) where
  isOpen := hopen
  attached := hattached
  waiting id := by
    rw [hwaiting, h.waiting, List.filter_append]
    congr 1
    apply List.filter_congr
    intro other hmem
    rw [hwithdrawn other hmem]

/-- A request that is tied to its job is part of the account, whether it stays or leaves again. -/
theorem enqueue (h : batcher.Accounted log) (hsound : batcher.Sound) {id : Nat}
    (waiter : Waiter κ) (hdispatched : waiter.dispatched = false)
    (hstage : (batcher.push
      [.enqueue waiter.key id waiter.graph waiter.handler]).AtStage waiter.key) :
    (batcher.enqueue waiter.key id waiter.graph waiter.handler).Accounted
      (log ++ [waiter.submission id]) := by
  obtain ⟨number, job, standing, tied, htied, hcases⟩ :=
    enqueue_cases hsound waiter hdispatched hstage
  have hagenda : tied.agenda = batcher.agenda := by rw [htied.frame]
  have hopen : tied.isOpen = true := by
    rw [htied.frame]
    exact h.isOpen
  have hfresh : ∀ other ∈ log, waiter.key ≠ other.key := by
    intro other hother hkey
    obtain ⟨before, old, hattached⟩ := h.attached other hother
    rw [← hkey, htied.untied] at hattached
    cases hattached
  have hattached : ∀ other ∈ log ++ [waiter.submission id], tied.WasQueued other.key := by
    intro other hother
    rw [WasQueued, htied.requests]
    rcases List.mem_append.1 hother with hold | hnew
    · rw [if_neg (hfresh other hold)]
      exact h.attached other hold
    · rw [List.mem_singleton.1 hnew]
      exact ⟨standing, number, if_pos rfl⟩
  have hothers : ∀ other ∈ log, tied.isWithdrawn other.key = batcher.isWithdrawn other.key := by
    intro other hother
    simp only [isWithdrawn, standing?, htied.requests, hagenda, if_neg (hfresh other hother)]
  have hself : tied.isWithdrawn waiter.key = (standing == .cancelled) := by
    have hquiet := cancelsIn_agenda htied.duties
    simp [isWithdrawn, standing?, htied.requests, hagenda, hquiet]
  rcases hcases with ⟨hlive, heq⟩ | ⟨hcancelled, rest, hrest, heq⟩
  · rw [heq]
    apply h.append _ hopen hattached hothers
    intro other
    rw [htied.waiting, List.map_append]
    congr 1
    by_cases hid : other = id
    · simp [Waiter.submission, hid, hself, hlive]
    · simp [Waiter.submission, hid, Ne.symm hid]
  · have hwithdrawn : ∀ key, ((tied.setJob number rest).push
        (waiter.settle .cancelled)).isWithdrawn key =
          (tied.isWithdrawn key || waiter.key == key) := by
      intro key
      rw [isWithdrawn_push, Waiter.cancelsIn_settle_cancelled]
      rfl
    rw [heq]
    refine h.append (waiter.submission id) ?_ ?_ ?_ ?_
    · exact hopen
    · exact hattached
    · intro other hother
      rw [hwithdrawn, hothers other hother]
      simp [hfresh other hother]
    · intro other
      have hgone : (tied.setJob number rest).waiting other = batcher.waiting other :=
        htied.waiting_without hrest other
      change ((tied.setJob number rest).waiting other).map _ = _
      rw [hgone]
      simp [Waiter.submission, hwithdrawn]

/-! ## Other instructions -/

/-- No job that the window keeps is kept by an instruction. -/
theorem withJob (h : batcher.Accounted log) {number : Nat} (hkept : batcher.keepers number = 0)
    {jobs : List (Nat × Job κ)}
    (hjobs : ∀ other ≠ number, Assoc.find? other jobs = batcher.job? other) :
    ({ batcher with jobs } : Batcher κ).Accounted log := by
  apply h.withJobs
  intro other hqueue
  apply hjobs
  rintro rfl
  exact notMem_queue_of_keepers hkept hqueue

theorem mark {key : Nat} {standing : Standing}
    (h : (batcher.push [.mark key standing]).Accounted log)
    (hstage : (batcher.push [.mark key standing]).AtStage key) :
    (batcher.changeRequest key (Request.mark standing)).Accounted log := by
  rw [AtStage, duties_push] at hstage
  simp only [dutiesIn_cons, dutiesIn_nil, Instruction.duties_mark, if_true, List.singleton_append,
    List.append_nil] at hstage
  obtain ⟨before, job, hrequest, hbefore⟩ := hstage.of_mark
  have hrequest : batcher.requests[key]? = some ⟨before, some job⟩ := hrequest
  have hrequests : ∀ other, (batcher.changeRequest key (Request.mark standing)).requests[other]? =
      if key = other then some ⟨standing, some job⟩ else batcher.requests[other]? := by
    intro other
    rw [getElem?_changeRequest]
    split
    · rename_i hkey
      rw [← hkey, hrequest, Option.map_some, Request.mark]
      rcases hbefore with rfl | rfl
      · rfl
      · split <;> rfl
    · rfl
  have hwithdrawn : ∀ other, (batcher.changeRequest key (Request.mark standing)).isWithdrawn other =
      (batcher.push [.mark key standing]).isWithdrawn other := by
    intro other
    rw [isWithdrawn_push]
    simp only [isWithdrawn, standing?, hrequests]
    change (_ || cancelsIn other batcher.agenda) = _
    by_cases hkey : key = other
    · subst hkey
      rw [if_pos rfl, hrequest]
      cases standing <;> rcases hbefore with rfl | rfl <;> simp [Instruction.cancels]
      rfl
    · rw [if_neg hkey]
      cases standing <;> simp [Instruction.cancels, hkey]
  constructor
  · exact h.isOpen
  · intro other hother
    rw [WasQueued, hrequests]
    split
    · exact ⟨_, _, rfl⟩
    · exact h.attached other hother
  · intro id
    simp only [hwithdrawn]
    exact h.waiting id

theorem flush {id number : Nat} (h : batcher.Accounted log) (hkept : batcher.keepers number = 0) :
    (batcher.flush id number).Accounted log := by
  unfold Batcher.flush
  split
  · exact h
  · rename_i job _
    split
    · have hset : (batcher.setJob number ⟨[], .inFlight job.keys none⟩).Accounted log :=
        h.withJob hkept fun other hne => Assoc.find?_insert_of_ne hne _ _
      apply hset.push_quiet
      intro key
      simp [cancelsIn_flatMap, Instruction.cancels]
    · exact h.push_quiet fun _ => rfl

/-- Waiters that are told of their cancellation do not wait in the window. -/
theorem push_told (h : batcher.Accounted log) {told : List (Waiter κ)} {last : Instruction κ}
    (habsent : ∀ waiter ∈ told, ∀ id, ∀ other ∈ batcher.waiting id, other.key ≠ waiter.key)
    (hlast : ∀ key, last.cancels key = false) :
    (batcher.push (told.flatMap (fun waiter => waiter.settle .cancelled) ++ [last])).Accounted
      log := by
  apply h.push
  intro key hcancels id other hother
  rw [cancelsIn_append, cancelsIn_flatMap, cancelsIn_cons, hlast] at hcancels
  simp only [Waiter.cancelsIn_settle_cancelled, cancelsIn_nil, Bool.or_false, List.any_eq_true,
    beq_iff_eq] at hcancels
  obtain ⟨waiter, hwaiter, rfl⟩ := hcancels
  exact habsent waiter hwaiter id other hother

theorem restore {id number : Nat} {graph : Graph κ} {waiters : List (Waiter κ)}
    (h : batcher.Accounted log) (hkept : batcher.keepers number = 0)
    (hstage : ∀ key, (batcher.push [.restore id number graph waiters]).AtStage key) :
    (batcher.restore id number graph waiters).Accounted log := by
  have habsent : ∀ waiter ∈ waiters, ∀ id, ∀ other ∈ batcher.waiting id,
      other.key ≠ waiter.key := by
    intro waiter hwaiter id other hother hkey
    have hheld := mem_held_of_mem_waiting hother
    rw [hkey, held_of_restore (hstage waiter.key) hwaiter] at hheld
    cases hheld
  unfold Batcher.restore
  simp only
  split
  · have hset : ∀ job : Job κ, (batcher.setJob number job).Accounted log := fun job =>
      h.withJob hkept fun other hne => Assoc.find?_insert_of_ne hne _ _
    have hwaiting : ∀ (job : Job κ) id, (batcher.setJob number job).waiting id =
        batcher.waiting id := by
      intro job id
      rw [waiting_setJob, if_neg]
      intro hfind
      exact notMem_queue_of_keepers hkept
        (List.mem_map_of_mem (f := (·.2)) (Assoc.mem_of_find? hfind))
    apply (hset _).push_told
    · intro waiter hwaiter id other hother
      rw [hwaiting] at hother
      exact habsent waiter (List.mem_of_mem_filter hwaiter) id other hother
    · intro _
      rfl
  · apply h.push_told
    · intro waiter hwaiter
      exact habsent waiter (List.mem_of_mem_filter hwaiter)
    · intro _
      rfl

theorem launch {id number : Nat} {graph : Graph κ} (h : batcher.Accounted log)
    (hkept : batcher.keepers number = 0) : (batcher.launch id number graph).Accounted log := by
  unfold Batcher.launch
  simp only
  split
  · rename_i waiters live fetch _
    have hset : (batcher.setJob number
        ⟨waiters, .inFlight live (some batcher.nextFetch)⟩).Accounted log :=
      h.withJob hkept fun other hne => Assoc.find?_insert_of_ne hne _ _
    exact ⟨hset.isOpen, hset.attached, hset.waiting⟩
  · exact ⟨h.isOpen, h.attached, h.waiting⟩

theorem dropJob {number : Nat} (h : batcher.Accounted log) (hsound : batcher.Sound)
    (hkept : batcher.keepers number = 0) (hstage : ∀ key, batcher.AtStage key) :
    (batcher.dropJob number).Accounted log := by
  unfold Batcher.dropJob
  split
  · exact h
  · rename_i job hjob
    have herased : ({ batcher with jobs := Assoc.erase number batcher.jobs } :
        Batcher κ).Accounted log :=
      h.withJob hkept fun other hne => Assoc.find?_erase_of_ne hne _
    apply herased.push
    intro key hcancels id waiter hmem hkey
    rw [cancelsIn_flatMap] at hcancels
    simp [Waiter.cancelsIn_discard] at hcancels
    obtain ⟨dropped, hdropped, hsame⟩ := hcancels
    -- The only waiter of the request was in the job that is forgotten.
    obtain ⟨before, after, hheld⟩ := held_eraseJob hsound.jobs_nodup hjob
    obtain ⟨hold, hnew⟩ := hheld key
    have hlength := Stage.length_flags_le (hstage key)
    have hmine : dropped ∈ waitersOf key job.waiters :=
      List.mem_filter.2 ⟨hdropped, by simp [hsame]⟩
    have hpos := List.length_pos_of_mem hmine
    rw [hold] at hlength
    simp only [List.length_map, List.length_append] at hlength
    have hleft := mem_held_of_mem_waiting hmem
    rw [hkey, hnew] at hleft
    have hsome := List.length_pos_of_mem hleft
    rw [List.length_append] at hsome
    omega

theorem endFetch (h : batcher.Accounted log) (number : Nat) :
    (batcher.endFetch number).Accounted log := by
  unfold Batcher.endFetch
  split
  · exact h
  · unfold Batcher.release
    rw [if_pos]
    · have hended : ({ batcher with
          fetches := Assoc.erase number batcher.fetches } : Batcher κ).Accounted log :=
        ⟨h.isOpen, h.attached, h.waiting⟩
      exact hended.push_quiet fun _ => rfl
    · simp [Batcher.push, h.isOpen]

/-- Every instruction keeps the account, with the request that it queues. -/
theorem execute {instruction : Instruction κ} (h : (batcher.push [instruction]).Accounted log)
    (hsound : (batcher.push [instruction]).Sound)
    (hstage : ∀ key, (batcher.push [instruction]).AtStage key) :
    (batcher.execute instruction).Accounted (log ++ instruction.arrivals) := by
  have hpopped := hsound.pop
  have hsame : instruction.arrivals = [] → (batcher.execute instruction).Accounted log →
      (batcher.execute instruction).Accounted (log ++ instruction.arrivals) := by
    intro hnone hafter
    rw [hnone, List.append_nil]
    exact hafter
  cases instruction with
  | enqueue key id graph handler =>
    have hbefore : batcher.Accounted log := h.pop fun _ => rfl
    exact hbefore.enqueue hpopped ⟨key, graph, handler, false⟩ rfl (hstage key)
  | call key handler callback =>
    have hbefore : batcher.Accounted log := h.pop fun _ => rfl
    apply hsame rfl
    apply (hbefore.note _).push_quiet
    intro other
    simp [cancelsIn, Instruction.cancels]
  | react key reaction =>
    have hbefore : batcher.Accounted log := h.pop fun _ => rfl
    apply hsame rfl
    exact hbefore.react (fun other => (hstage other).pop rfl) key reaction
  | note occurrence =>
    have hbefore : batcher.Accounted log := h.pop fun _ => rfl
    apply hsame rfl
    exact hbefore.note occurrence
  | mark key standing =>
    apply hsame rfl
    exact h.mark (hstage key)
  | flush id job =>
    have hbefore : batcher.Accounted log := h.pop fun _ => rfl
    apply hsame rfl
    exact hbefore.flush (hsound.keepers_eq_zero rfl).1
  | restore id job graph waiters =>
    have hbefore : batcher.Accounted log := h.pop fun _ => rfl
    apply hsame rfl
    exact hbefore.restore (hsound.keepers_eq_zero rfl).1 hstage
  | launch id job graph =>
    have hbefore : batcher.Accounted log := h.pop fun _ => rfl
    apply hsame rfl
    exact hbefore.launch (hsound.keepers_eq_zero rfl).1
  | endFetch fetch =>
    have hbefore : batcher.Accounted log := h.pop fun _ => rfl
    apply hsame rfl
    exact hbefore.endFetch fetch
  | dropJob job =>
    have hbefore : batcher.Accounted log := h.pop fun _ => rfl
    apply hsame rfl
    exact hbefore.dropJob hpopped (hsound.keepers_eq_zero rfl).1 fun other => (hstage other).pop rfl

variable [DecidableEq κ] [Catalog κ]

theorem complete (h : batcher.Accounted log) (hsound : batcher.Sound) (number : Nat)
    (answer : Except Error (Option (Entity κ))) :
    (batcher.complete number answer).Accounted log := by
  unfold Batcher.complete
  split
  · exact h
  · rename_i fetch hfetch
    split
    · exact h.push_quiet fun _ => rfl
    · have hset : (batcher.setJob fetch.job ⟨[], .settled⟩).Accounted log := by
        apply h.withJobs
        intro other hqueue
        apply Assoc.find?_insert_of_ne
        rintro rfl
        exact hsound.notMem_queue_of_fetch (Assoc.mem_of_find? hfetch) hqueue
      apply hset.push_quiet
      intro key
      rw [cancelsIn_append, cancelsIn_flatMap]
      simp [Waiter.cancelsIn_deliver, Instruction.cancels]

omit [DecidableEq κ] [Catalog κ] in
theorem rearrange (h : batcher.Accounted log) (hsound : batcher.Sound)
    (queue : List (Nat × Nat)) : (batcher.rearrange queue).Accounted log := by
  obtain ⟨order, hperm, heq⟩ := exists_perm_rearrange queue batcher
  have hfind := Assoc.find?_eq_of_perm hperm ((hperm.map _).nodup_iff.2 hsound.ids_nodup)
  have hwaiting (id : Nat) :
      ({ batcher with queue := order } : Batcher κ).waiting id = batcher.waiting id := by
    rw [Batcher.waiting, Batcher.waiting, hfind id]
    rfl
  rw [heq]
  refine ⟨h.isOpen, h.attached, fun id => ?_⟩
  rw [hwaiting]
  exact h.waiting id

/-- So does every operation on a batcher that is open, as long as the window is not closed. -/
theorem start (h : batcher.Accounted log) (hsound : batcher.Sound)
    (hstage : ∀ key, batcher.AtStage key) {operation : Operation κ} (hrun : operation ≠ .run)
    (hclose : operation ≠ .close) : (batcher.start operation).Accounted log := by
  cases operation with
  | submit id graph handler => exact h.request id graph handler
  | cancel key => exact h.retract (hstage key)
  | run => contradiction
  | rearrange queue => exact h.rearrange hsound queue
  | complete fetch answer => exact h.complete hsound fetch answer
  | dropFetch fetch => exact h.push_quiet fun _ => rfl
  | close => contradiction

end Accounted

theorem accounted_empty (kind : κ) : (Batcher.empty kind).Accounted [] where
  isOpen := rfl
  attached _ h := by cases h
  waiting _ := rfl

theorem accounted_run [DecidableEq κ] [Catalog κ] (h : batcher.isOpen = true) :
    (batcher.start .run).Accounted [] where
  isOpen := h
  attached _ h := by cases h
  waiting _ := rfl

/-! ## Windows -/

section

variable [DecidableEq κ] [Catalog κ]

/-- The requests that were queued on the way from one state of a batcher to another while its window
stayed open. -/
inductive Queued (first : Batcher κ) : List (Submission κ) → Batcher κ → Prop
  | refl : Queued first [] first
  | start {log : List (Submission κ)} {batcher : Batcher κ} (h : Queued first log batcher)
    {operation : Operation κ} (hrun : operation ≠ .run) (hclose : operation ≠ .close) :
    Queued first log (batcher.start operation)
  | step {log : List (Submission κ)} {batcher : Batcher κ} (h : Queued first log batcher) :
    Queued first (log ++ batcher.arrivals) batcher.step

/-- A batcher starts with an open window, and closing a window opens the next one. -/
inductive Opened (kind : κ) : Batcher κ → Prop
  | made : Opened kind (.empty kind)
  | next {closed : Batcher κ} (h : Reachable kind closed) (hopen : closed.isOpen = true) :
    Opened kind (closed.start .run)

/-- A window that is open since a batcher was in its first state, with the requests that were queued
since then. -/
structure Window (kind : κ) (first : Batcher κ) (log : List (Submission κ)) (batcher : Batcher κ) :
    Prop where
  opened : Opened kind first
  queued : Queued first log batcher

variable {kind : κ} {log : List (Submission κ)} {first : Batcher κ}

/-- A window that fills is a batcher becoming another. -/
theorem Queued.reaches (h : Queued first log batcher) : Reaches first batcher := by
  induction h with
  | refl => exact .refl _
  | start _ _ _ ih => exact ih.trans (reaches_start _ _)
  | step _ ih => exact ih.trans (reaches_steps 1 _)

/-- A window holds the requests of its log that were not cancelled, from the first one on. -/
theorem Queued.accounted (h : Queued first log batcher) (hreachable : Reachable kind first)
    (hfirst : first.Accounted []) : batcher.Accounted log := by
  induction h with
  | refl => exact hfirst
  | start hbefore hrun hclose ih =>
    have hnow : Reachable kind _ := hreachable.trans hbefore.reaches
    exact ih.start hnow.sound hnow.atStage hrun hclose
  | @step log batcher hbefore ih =>
    have hnow : Reachable kind batcher := hreachable.trans hbefore.reaches
    have hsound := hnow.sound
    have hstage := hnow.atStage
    cases hagenda : batcher.agenda with
    | nil =>
      rw [step_eq_self hagenda, arrivals, hagenda, List.append_nil]
      exact ih
    | cons instruction rest =>
      obtain ⟨before, rfl, hstep⟩ := step_eq_execute hagenda
      rw [hstep, arrivals, hagenda]
      exact ih.execute hsound hstage

def arrivalsWithin : Nat → Batcher κ → List (Submission κ)
  | 0, _ => []
  | fuel + 1, batcher => batcher.arrivals ++ arrivalsWithin fuel batcher.step

theorem Queued.steps (h : Queued first log batcher) (fuel : Nat) :
    Queued first (log ++ batcher.arrivalsWithin fuel) (batcher.steps fuel) := by
  induction fuel generalizing batcher log with
  | zero =>
    rw [arrivalsWithin, List.append_nil]
    exact h
  | succ fuel ih =>
    rw [arrivalsWithin, ← List.append_assoc]
    exact ih h.step

omit [DecidableEq κ] [Catalog κ] in
theorem arrivalsWithin_add (before after : Nat) (batcher : Batcher κ) :
    batcher.arrivalsWithin (before + after) =
      batcher.arrivalsWithin before ++ (batcher.steps before).arrivalsWithin after := by
  induction before generalizing batcher with
  | zero => rw [Nat.zero_add, arrivalsWithin, steps, List.nil_append]
  | succ before ih =>
    rw [Nat.succ_add, arrivalsWithin, ih, arrivalsWithin, steps, List.append_assoc]

def performAll (operations : List (Operation κ)) (batcher : Batcher κ) : Batcher κ :=
  operations.foldl (fun batcher operation => batcher.perform operation) batcher

def arrivalsAll : List (Operation κ) → Batcher κ → List (Submission κ)
  | [], _ => []
  | operation :: rest, batcher =>
    (batcher.start operation).arrivalsWithin (batcher.start operation).weight ++
      arrivalsAll rest (batcher.perform operation)

theorem Queued.perform (h : Queued first log batcher) {operation : Operation κ}
    (hrun : operation ≠ .run) (hclose : operation ≠ .close) :
    Queued first
      (log ++ (batcher.start operation).arrivalsWithin (batcher.start operation).weight)
      (batcher.perform operation) :=
  (h.start hrun hclose).steps _

theorem Queued.performAll (h : Queued first log batcher) {operations : List (Operation κ)}
    (hoperations : ∀ operation ∈ operations, operation ≠ .run ∧ operation ≠ .close) :
    Queued first (log ++ batcher.arrivalsAll operations) (batcher.performAll operations) := by
  induction operations generalizing log batcher with
  | nil =>
    rw [arrivalsAll, List.append_nil]
    exact h
  | cons operation rest ih =>
    rw [List.forall_mem_cons] at hoperations
    rw [arrivalsAll, ← List.append_assoc]
    exact ih (h.perform hoperations.1.1 hoperations.1.2) hoperations.2

theorem Opened.reachable (h : Opened kind first) : Reachable kind first := by
  cases h with
  | made => exact .refl _
  | next hclosed => exact hclosed.trans (reaches_start _ _)

theorem Opened.accounted (h : Opened kind first) : first.Accounted [] := by
  cases h with
  | made => exact accounted_empty kind
  | next _ hopen => exact accounted_run hopen

theorem Window.reachable (h : Window kind first log batcher) : Reachable kind batcher :=
  h.opened.reachable.trans h.queued.reaches

/-- The jobs of the open window are accounted for. -/
theorem Window.accounted (h : Window kind first log batcher) : batcher.Accounted log :=
  h.queued.accounted h.opened.reachable h.opened.accounted

/-- The requests for an id that were not cancelled. -/
def survivors (batcher : Batcher κ) (log : List (Submission κ)) (id : Nat) :
    List (Submission κ) :=
  log.filter fun submission =>
    submission.id == id && !(batcher.standing? submission.key == some .cancelled)

omit [DecidableEq κ] [Catalog κ] in
/-- Between two operations the window holds the requests that were not cancelled. -/
theorem Accounted.waiting_eq_survivors (h : batcher.Accounted log) (hrest : batcher.agenda = [])
    (id : Nat) :
    (batcher.waiting id).map (Waiter.submission id) = batcher.survivors log id := by
  rw [h.waiting, survivors]
  apply List.filter_congr
  intro submission _
  rw [isWithdrawn, hrest, cancelsIn_nil, Bool.or_false]

end

end Batcher

end PartialEntity
