import Mathlib
import PartialEntity.Proofs.Batch.Wanted

/-!
# Requests that were withdrawn

A request that was withdrawn is on a fixed course: what its handler was told and what it is still
going to be told add up to the same at every step, and end with the news that the request was
cancelled.  Nothing that is done with the batcher from then on turns the request from this course.
-/

namespace PartialEntity

open Batch

variable {κ : Type}

namespace Batch

/-- What the handler of a withdrawn request is told when a duty is done: a request that is queued or
given back only now is told then that it was cancelled. -/
def Duty.tells : Duty κ → List (Callback κ)
  | .call callback => [callback]
  | .mark _ => []
  | .enqueue => [.cancel, .destroy]
  | .restore _ => [.cancel, .destroy]

/-- A request that has been queued or marked is not as it was made. -/
theorem Request.Precedes.ne_fresh {before after : Request} (h : before.Precedes after)
    (hbefore : before ≠ .fresh) : after ≠ .fresh := by
  obtain ⟨standing, job⟩ := before
  rintro rfl
  cases job with
  | some number => cases h.job number rfl
  | none =>
    by_cases hpending : standing = .pending
    · exact hbefore (by rw [hpending]; rfl)
    · exact hpending (h.standing hpending).symm

theorem Waiter.tells_settle_cancelled (waiter : Waiter κ) :
    (dutiesIn waiter.key (waiter.settle .cancelled)).flatMap Duty.tells = [.cancel, .destroy] := by
  rw [waiter.dutiesIn_settle_cancelled]
  rfl

end Batch

namespace Batcher

variable {batcher : Batcher κ} {key : Nat} {first : List (Callback κ)}

/-- What the handler of a withdrawn request is going to be told. -/
def forecast (key : Nat) (batcher : Batcher κ) : List (Callback κ) :=
  (batcher.duties key).flatMap Duty.tells

theorem forecast_push (key : Nat) (work : List (Instruction κ)) (batcher : Batcher κ) :
    (batcher.push work).forecast key =
      (dutiesIn key work).flatMap Duty.tells ++ batcher.forecast key := by
  rw [forecast, duties_push, List.flatMap_append, forecast]

/-- A request without a waiter has none in any job. -/
theorem waitersOf_of_held (hheld : batcher.held key = []) {number : Nat} {job : Job κ}
    (hjob : batcher.job? number = some job) : waitersOf key job.waiters = [] :=
  List.flatMap_eq_nil_iff.1 hheld _ (Assoc.mem_of_find? hjob)

/-- A request was withdrawn: its handler is told the rest, no job takes it for one that wants the
answer, and it is not as it was made. -/
structure Renounced (key : Nat) (first : List (Callback κ)) (batcher : Batcher κ) : Prop where
  told : batcher.callbacks key ++ batcher.forecast key = first ++ [.cancel, .destroy]
  unwanted : ∀ number job, batcher.job? number = some job → job.phase.wants key = false
  made : ∃ request, batcher.requests[key]? = some request ∧ request ≠ .fresh

namespace Renounced

/-- A withdrawn request has no waiter in a job. -/
theorem held_eq_nil (h : batcher.Renounced key first) (hstage : batcher.AtStage key) :
    batcher.held key = [] := by
  cases hheld : batcher.held key with
  | nil => rfl
  | cons waiter rest =>
    rw [AtStage, hheld] at hstage
    obtain ⟨htold, -, hduties, -⟩ := hstage.of_flags
    have hfinal := h.told
    rw [forecast, hduties, List.flatMap_nil, List.append_nil, htold] at hfinal
    have hdestroy : .destroy ∈ (opening waiter.dispatched : List (Callback κ)) := by simp [hfinal]
    cases hdispatched : waiter.dispatched <;> simp [hdispatched, opening] at hdestroy

end Renounced

/-- A request that is not as it was made, has no waiter, and is not among those that want an answer
cannot be withdrawn. -/
theorem retract_refused (hheld : batcher.held key = [])
    (hunwanted : ∀ number job, batcher.job? number = some job → job.phase.wants key = false)
    (hmade : ∃ request, batcher.requests[key]? = some request ∧ request ≠ .fresh) :
    batcher.retract key = ⟨false, batcher, []⟩ := by
  obtain ⟨⟨standing, number⟩, hrequest, hne⟩ := hmade
  unfold Batcher.retract
  rw [hrequest]
  cases standing with
  | settled | cancelled => rfl
  | pending =>
    cases number with
    | none => exact absurd rfl hne
    | some number =>
      rcases withdraw_cases key number batcher with heq | ⟨job, rest, -, hjob, hrest, -, -⟩
      · exact heq
      · have hgone := hunwanted number job hjob
        unfold Job.withdraw at hrest
        split at hrest
        · rw [job.waiter?_eq_head?, waitersOf_of_held hheld hjob] at hrest
          cases hrest
        · rename_i live fetch hphase
          rw [hphase, Phase.wants] at hgone
          rw [hgone] at hrest
          cases hrest
        · cases hrest

/-! ## Steps that do nothing about a request -/

theorem dutiesIn_flatMap_of_held {f : Waiter κ → List (Instruction κ)}
    (hf : ∀ waiter key, waiter.key ≠ key → dutiesIn key (f waiter) = [])
    (hheld : batcher.held key = []) {number : Nat} {job : Job κ}
    (hjob : batcher.job? number = some job) : dutiesIn key (job.waiters.flatMap f) = [] := by
  rw [dutiesIn_flatMap hf, waitersOf_of_held hheld hjob, List.flatMap_nil]

/-- An attempt to cancel a request that is refused, or one to cancel another request. -/
theorem duties_retract (hrefused : batcher.retract key = ⟨false, batcher, []⟩) (target : Nat) :
    dutiesIn key (batcher.retract target).work = [] ∧
      (batcher.retract target).batcher.duties key = batcher.duties key := by
  refine ⟨?_, by rw [duties, agenda_retract, duties]⟩
  by_cases hkey : target = key
  · rw [hkey, hrefused]
    rfl
  · unfold Batcher.retract
    split
    · rfl
    · exact duties_withdraw_of_ne hkey _ batcher
    · rfl

theorem duties_request (hknown : key < batcher.requests.length) (id : Nat) (graph : Graph κ)
    (handler : Handler κ) : (batcher.request id graph handler).duties key = batcher.duties key := by
  unfold Batcher.request
  split
  · rw [duties_push]
    simp only [dutiesIn_cons, dutiesIn_nil, Instruction.duties_call, Instruction.duties_enqueue,
      if_neg (Nat.ne_of_gt hknown), List.nil_append]
    rfl
  · rfl

theorem duties_release (key : Nat) (batcher : Batcher κ) :
    batcher.release.duties key = batcher.duties key := by
  unfold Batcher.release
  split
  · rfl
  · rw [duties_push, dutiesIn_map fun _ => rfl]
    rfl

theorem duties_enqueue_of_ne {target : Nat} (hne : target ≠ key) (id : Nat) (graph : Graph κ)
    (handler : Handler κ) (batcher : Batcher κ) :
    (batcher.enqueue target id graph handler).duties key = batcher.duties key := by
  obtain ⟨queue, jobs, nextJob, hframe⟩ := join_frame id ⟨target, graph, handler, false⟩ batcher
  rw [enqueue_eq, hframe]
  unfold enqueue.settleIn
  dsimp only
  split
  · rw [duties_push, duties_withdraw_of_ne hne, List.nil_append, duties, agenda_withdraw]
    rfl
  · rfl

theorem duties_flush (hheld : batcher.held key = []) (id number : Nat) :
    (batcher.flush id number).duties key = batcher.duties key := by
  unfold Batcher.flush
  split
  · rfl
  · rename_i job hjob
    split
    · have hdispatch := dutiesIn_flatMap_of_held
        (fun _ _ => Waiter.dutiesIn_dispatch_of_ne) hheld hjob
      have hback := waitersOf_map (f := fun waiter => { waiter with dispatched := true })
        (fun _ => rfl) key job.waiters
      rw [waitersOf_of_held hheld hjob, List.map_nil] at hback
      rw [duties_push]
      simp only [List.cons_append, dutiesIn_cons, dutiesIn_append, dutiesIn_nil, hdispatch,
        Instruction.duties_restore, hback, List.map_nil, List.append_nil]
      rfl
    · rfl

theorem duties_dropJob (hheld : batcher.held key = []) (number : Nat) :
    (batcher.dropJob number).duties key = batcher.duties key := by
  unfold Batcher.dropJob
  split
  · rfl
  · rename_i job hjob
    rw [duties_push, dutiesIn_flatMap_of_held
      (fun _ _ => Waiter.dutiesIn_discard_of_ne) hheld hjob]
    rfl

/-- The waiters of a request that does not want the answer are told that it was cancelled. -/
theorem tells_withdrawn {phase : Phase} (hunwanted : phase.wants key = false)
    (waiters : List (Waiter κ)) :
    (dutiesIn key ((waiters.filter fun waiter => !phase.wants waiter.key).flatMap fun waiter =>
        waiter.settle .cancelled)).flatMap Duty.tells =
      (waitersOf key waiters).flatMap fun _ => [.cancel, .destroy] := by
  have hmine : ∀ waiter ∈ waitersOf key waiters, waiter.key = key :=
    fun waiter hmem => key_of_mem_waitersOf hmem
  have hall : (waitersOf key waiters).filter (fun waiter => !phase.wants waiter.key) =
      waitersOf key waiters := by
    refine List.filter_eq_self.2 fun waiter hmem => ?_
    rw [hmine waiter hmem, hunwanted]
    rfl
  rw [dutiesIn_flatMap fun _ _ hne => Waiter.dutiesIn_settle_of_ne hne .cancelled,
    waitersOf_filter, hall, List.flatMap_assoc]
  refine List.flatMap_congr fun waiter hmem => ?_
  rw [← hmine waiter hmem]
  exact waiter.tells_settle_cancelled

/-- A waiter that is given back to a job that its request does not want is told what was
foretold. -/
theorem forecast_restore {number : Nat} (hunwanted : ∀ job, batcher.job? number = some job →
      job.phase.wants key = false) (id : Nat) (graph : Graph κ) (waiters : List (Waiter κ)) :
    (batcher.restore id number graph waiters).forecast key =
      (batcher.push [.restore id number graph waiters]).forecast key := by
  have hback : (dutiesIn key [.restore id number graph waiters]).flatMap Duty.tells =
      (waitersOf key waiters).flatMap fun _ => [.cancel, .destroy] := by
    simp only [dutiesIn_cons, dutiesIn_nil, Instruction.duties_restore, List.append_nil,
      List.flatMap_map]
    rfl
  rw [forecast_push, hback]
  unfold Batcher.restore
  dsimp only
  generalize hphase : ((batcher.job? number).map (·.phase)).getD .settled = phase
  have hunwanted : phase.wants key = false := by
    rw [← hphase]
    cases hjob : batcher.job? number with
    | none => rfl
    | some job => exact hunwanted job hjob
  have htold := tells_withdrawn hunwanted waiters
  split <;>
  · rw [forecast_push, dutiesIn_append, List.flatMap_append, htold]
    exact congrArg (· ++ batcher.forecast key) (List.append_nil _)

/-- An instruction with no duty for a request leaves it alone. -/
theorem duties_execute_of_idle {instruction : Instruction κ} (hidle : instruction.duties key = [])
    (hheld : batcher.held key = []) (hknown : key < batcher.requests.length)
    (hrefused : batcher.retract key = ⟨false, batcher, []⟩) :
    (batcher.execute instruction).duties key = batcher.duties key := by
  cases instruction with
  | call other handler callback =>
    simp only [Batcher.execute]
    rw [duties_push, dutiesIn_map fun _ => rfl]
    rfl
  | react other reaction =>
    cases reaction with
    | cancel target =>
      obtain ⟨hwork, hsame⟩ := duties_retract hrefused target
      simp only [Batcher.execute, Batcher.react]
      split
      · rw [duties_push, dutiesIn_append, hwork, hsame]
        rfl
      · rfl
    | submit id graph handler => exact duties_request hknown id graph handler
  | note | mark => rfl
  | enqueue other id graph handler =>
    refine duties_enqueue_of_ne (fun hkey => ?_) id graph handler batcher
    rw [Instruction.duties_enqueue, if_pos hkey] at hidle
    cases hidle
  | flush id number => exact duties_flush hheld id number
  | restore id number graph waiters =>
    have hnone : waitersOf key waiters = [] := List.map_eq_nil_iff.1 hidle
    have htold : ∀ p : Waiter κ → Bool, dutiesIn key
        ((waiters.filter p).flatMap fun waiter => waiter.settle .cancelled) = [] := by
      intro p
      rw [dutiesIn_flatMap fun _ _ hne => Waiter.dutiesIn_settle_of_ne hne .cancelled,
        waitersOf_filter, hnone]
      rfl
    simp only [Batcher.execute, Batcher.restore]
    split <;>
    · rw [duties_push, dutiesIn_append, htold]
      rfl
  | launch id number graph =>
    simp only [Batcher.execute, Batcher.launch]
    split <;> rfl
  | endFetch fetch =>
    simp only [Batcher.execute, Batcher.endFetch]
    split
    · rfl
    · rw [duties_release]
      rfl
  | dropJob number => exact duties_dropJob hheld number

theorem callbacks_execute_of_noted {instruction : Instruction κ} (hnoted : instruction.noted = [])
    (key : Nat) (batcher : Batcher κ) :
    (batcher.execute instruction).callbacks key = batcher.callbacks key := by
  rw [callbacks, history_execute, hnoted, List.append_nil, callbacks]

theorem callbacks_execute_of_idle {instruction : Instruction κ}
    (hidle : instruction.duties key = []) (batcher : Batcher κ) :
    (batcher.execute instruction).callbacks key = batcher.callbacks key := by
  cases instruction with
  | call other handler callback =>
    have hother : other ≠ key := by
      rintro rfl
      simp at hidle
    simp [callbacks, history_execute, Instruction.noted, hother]
  | note occurrence =>
    simp only [Batcher.execute, callbacks_note]
    cases occurrence with
    | called other callback =>
      have hother : other ≠ key := by
        rintro rfl
        simp at hidle
      simp [hother]
    | _ => rw [List.append_nil]
  | _ => exact callbacks_execute_of_noted rfl key batcher

/-! ## Every step -/

namespace Renounced

/-- A withdrawn request that is queued leaves its job at once, and is told so. -/
theorem forecast_enqueue {id : Nat} {graph : Graph κ} {handler : Handler κ}
    (hsound : batcher.Sound)
    (hstage : (batcher.push [.enqueue key id graph handler]).AtStage key)
    (hmade : ∃ request, batcher.requests[key]? = some request ∧ request ≠ .fresh) :
    (batcher.enqueue key id graph handler).forecast key = .cancel :: .destroy :: [] ∧
      batcher.forecast key = [] := by
  obtain ⟨number, job, standing, tied, htied, hcases⟩ :=
    enqueue_cases hsound ⟨key, graph, handler, false⟩ rfl hstage
  have hduties : batcher.duties key = [] := htied.duties
  have hcancelled : standing = .cancelled := by
    obtain ⟨request, hrequest, hne⟩ := hmade
    obtain rfl := Option.some.inj (htied.untied.symm.trans hrequest)
    rw [AtStage, duties_push] at hstage
    simp only [dutiesIn_cons, dutiesIn_nil, Instruction.duties_enqueue, if_true,
      List.singleton_append, List.append_nil] at hstage
    obtain ⟨-, ⟨other, hother, hsame⟩, -⟩ := hstage.enqueue
    obtain rfl : standing = other :=
      congrArg Request.standing (Option.some.inj (htied.untied.symm.trans hsame))
    cases standing with
    | pending => exact absurd rfl hne
    | settled => exact absurd rfl hother
    | cancelled => rfl
  rcases hcases with ⟨hlive, -⟩ | ⟨-, rest, -, heq⟩
  · exact absurd hcancelled hlive
  · have hagenda : tied.agenda = batcher.agenda := by rw [htied.frame]
    have hrest : (tied.setJob number rest).forecast key = [] := by
      change (dutiesIn key tied.agenda).flatMap Duty.tells = []
      rw [hagenda]
      change (batcher.duties key).flatMap Duty.tells = []
      rw [hduties]
      rfl
    refine ⟨?_, by rw [forecast, hduties]; rfl⟩
    rw [heq, forecast_push, hrest, List.append_nil]
    exact Waiter.tells_settle_cancelled ⟨key, graph, handler, false⟩

/-- What the handler was told and what it is going to be told add up to the same after a step. -/
theorem told_execute {instruction : Instruction κ} (hsound : (batcher.push [instruction]).Sound)
    (hstage : (batcher.push [instruction]).AtStage key)
    (h : (batcher.push [instruction]).Renounced key first) :
    (batcher.execute instruction).callbacks key ++ (batcher.execute instruction).forecast key =
      first ++ [.cancel, .destroy] := by
  have hheld : batcher.held key = [] := h.held_eq_nil hstage
  have hunwanted : ∀ number job, batcher.job? number = some job → job.phase.wants key = false :=
    h.unwanted
  have hmade : ∃ request, batcher.requests[key]? = some request ∧ request ≠ .fresh := h.made
  obtain ⟨request, hrequest, -⟩ := id hmade
  have hknown : key < batcher.requests.length := (List.getElem?_eq_some_iff.1 hrequest).1
  have hrefused := retract_refused hheld hunwanted hmade
  have htold : batcher.callbacks key ++ ((dutiesIn key [instruction]).flatMap Duty.tells ++
      batcher.forecast key) = first ++ [.cancel, .destroy] := by
    rw [← forecast_push]
    exact h.told
  by_cases hidle : instruction.duties key = []
  · rw [callbacks_execute_of_idle hidle, forecast,
      duties_execute_of_idle hidle hheld hknown hrefused, ← htold]
    simp [hidle, forecast]
  · rw [← htold]
    cases instruction with
    | call other handler callback =>
      have hkey : other = key := by simpa using hidle
      simp only [Batcher.execute]
      rw [forecast_push, dutiesIn_map fun _ => rfl]
      simp [push, hkey, Duty.tells, callbacks, forecast, duties, note]
    | note occurrence =>
      cases occurrence with
      | called other callback =>
        have hkey : other = key := by simpa using hidle
        simp only [Batcher.execute, callbacks_note, hkey]
        simp [Duty.tells, forecast, duties, note]
      | _ => exact absurd rfl hidle
    | mark other standing =>
      have hkey : other = key := by simpa using hidle
      rw [callbacks_execute_of_noted rfl]
      simp [Batcher.execute, hkey, Duty.tells, forecast, duties, changeRequest]
    | enqueue other id graph handler =>
      have hkey : other = key := by simpa using hidle
      subst hkey
      obtain ⟨hafter, hbefore⟩ := forecast_enqueue hsound.pop hstage hmade
      rw [callbacks_execute_of_noted rfl, Batcher.execute, hafter, hbefore]
      simp [Duty.tells]
    | restore id number graph waiters =>
      rw [callbacks_execute_of_noted rfl, Batcher.execute,
        forecast_restore fun job hjob => hunwanted number job hjob, forecast_push]
    | _ => exact absurd rfl hidle

/-- Nobody who has no waiter becomes one of those that want an answer. -/
theorem unwanted_execute {instruction : Instruction κ} (hsound : (batcher.push [instruction]).Sound)
    (hheld : batcher.held key = [])
    (h : ∀ number job, batcher.job? number = some job → job.phase.wants key = false)
    {number : Nat} {job : Job κ} (hjob : (batcher.execute instruction).job? number = some job) :
    job.phase.wants key = false := by
  rw [Bool.eq_false_iff]
  intro hwants
  have hnobody : ∀ {other : Nat} {old : Job κ}, batcher.job? other = some old →
      ¬old.phase.wants key = true := by
    intro other old hold hfirst
    rw [h other old hold] at hfirst
    cases hfirst
  by_cases hflush : ∃ id target, instruction = .flush id target
  · obtain ⟨id, target, rfl⟩ := hflush
    rcases job?_flush hjob hwants with hsame | ⟨-, old, hold, hmem, -⟩
    · exact hnobody hsame hwants
    · obtain ⟨waiter, hwaiter, hkey⟩ := List.mem_map.1 hmem
      have hmine : waiter ∈ waitersOf key old.waiters :=
        List.mem_filter.2 ⟨hwaiter, by simp [hkey]⟩
      rw [waitersOf_of_held hheld hold] at hmine
      cases hmine
  · obtain ⟨old, hold, hfirst, -⟩ := WantsLess.execute hsound
      (fun id target heq => hflush ⟨id, target, heq⟩) number job hjob key hwants
    exact hnobody hold hfirst

/-- Every instruction leaves a withdrawn request on its course. -/
theorem execute {instruction : Instruction κ} (hsound : (batcher.push [instruction]).Sound)
    (hstage : ∀ key, (batcher.push [instruction]).AtStage key)
    (h : (batcher.push [instruction]).Renounced key first) :
    (batcher.execute instruction).Renounced key first where
  told := h.told_execute hsound (hstage key)
  unwanted _ _ hjob := unwanted_execute hsound (h.held_eq_nil (hstage key)) h.unwanted hjob
  made := by
    obtain ⟨request, hrequest, hne⟩ := h.made
    obtain ⟨later, hlater, hprecedes⟩ := RequestsPrecede.execute hsound hstage key request hrequest
    exact ⟨later, hlater, hprecedes.ne_fresh hne⟩

variable [DecidableEq κ] [Catalog κ]

theorem duties_start (hheld : batcher.held key = []) (hknown : key < batcher.requests.length)
    (hrefused : batcher.retract key = ⟨false, batcher, []⟩) (operation : Operation κ) :
    (batcher.start operation).duties key = batcher.duties key := by
  cases operation with
  | submit id graph handler => exact duties_request hknown id graph handler
  | cancel target =>
    obtain ⟨hwork, hsame⟩ := duties_retract hrefused target
    simp only [Batcher.start]
    rw [duties_push, hwork, hsame, List.nil_append]
  | run =>
    simp only [Batcher.start]
    rw [duties_push, dutiesIn_map fun _ => rfl]
    rfl
  | rearrange queue =>
    obtain ⟨order, -, heq⟩ := exists_perm_rearrange queue batcher
    rw [Batcher.start, heq]
    rfl
  | complete number answer =>
    simp only [Batcher.start, Batcher.complete]
    split
    · rfl
    · split
      · rfl
      · rename_i job hjob
        have hdeliver := dutiesIn_flatMap_of_held (f := Waiter.deliver answer)
          (fun waiter key hne => (waiter.dutiesIn_deliver answer key).trans
            (Waiter.dutiesIn_settle_of_ne hne _)) hheld hjob
        rw [duties_push, dutiesIn_append, hdeliver]
        rfl
  | dropFetch fetch => rfl
  | close =>
    simp only [Batcher.start]
    rw [duties_release]
    rfl

/-- Every operation leaves a withdrawn request on its course. -/
theorem start (hstage : batcher.AtStage key) (h : batcher.Renounced key first)
    (operation : Operation κ) : (batcher.start operation).Renounced key first where
  told := by
    have hheld := h.held_eq_nil hstage
    obtain ⟨request, hrequest, -⟩ := h.made
    rw [callbacks, history_start, forecast, duties_start hheld
      (List.getElem?_eq_some_iff.1 hrequest).1 (retract_refused hheld h.unwanted h.made)]
    exact h.told
  unwanted number job hjob := by
    rw [Bool.eq_false_iff]
    intro hwants
    obtain ⟨old, hold, hfirst, -⟩ := WantsLess.start operation batcher number job hjob key hwants
    rw [h.unwanted number old hold] at hfirst
    cases hfirst
  made := by
    obtain ⟨request, hrequest, hne⟩ := h.made
    obtain ⟨later, hlater, hprecedes⟩ :=
      RequestsPrecede.start operation batcher key request hrequest
    exact ⟨later, hlater, hprecedes.ne_fresh hne⟩

/-- A withdrawn request stays on its course, whatever is done. -/
theorem along {kind : κ} {later : Batcher κ} (h : batcher.Renounced key first)
    (hreachable : Reachable kind batcher) (hlater : Reaches batcher later) :
    later.Renounced key first := by
  apply hlater.along (P := Renounced key first)
  · intro operation before hbefore hnow
    have hthen : Reachable kind before := hreachable.trans hbefore
    exact hnow.start (hthen.atStage key) operation
  · intro instruction before hbefore hnow
    have hthen : Reachable kind (before.push [instruction]) := hreachable.trans hbefore
    exact hnow.execute hthen.sound hthen.atStage
  · exact h

end Renounced

namespace Renounced

/-- What the handler of a withdrawn request has been told is a part of what it is told in all. -/
theorem told_in_order (h : batcher.Renounced key first) :
    batcher.callbacks key <+: first ++ [.cancel, .destroy] :=
  ⟨batcher.forecast key, h.told⟩

/-- When nothing is left to be done about a withdrawn request it was cancelled, and its handler was
told all. -/
theorem cancelled (h : batcher.Renounced key first) (hstage : batcher.AtStage key)
    (hfirst : first ∈ (Outcome.cancelled : Outcome κ).openings)
    (hduties : batcher.duties key = []) :
    batcher.callbacks key = first ++ [.cancel, .destroy] ∧
      batcher.standing? key = some .cancelled := by
  have htold : batcher.callbacks key = first ++ [.cancel, .destroy] := by
    rw [← h.told, forecast, hduties, List.flatMap_nil, List.append_nil]
  refine ⟨htold, ?_⟩
  obtain ⟨outcome, opening, hopening, hcallbacks, hstanding, -⟩ :=
    hstage.of_destroyed (by simp [htold])
  have honly := Outcome.filterMap_outcome? hopening
  have hcancelled := Outcome.filterMap_outcome? hfirst
  rw [← hcallbacks, htold] at honly
  obtain rfl : Outcome.cancelled = outcome :=
    List.singleton_inj.1 (hcancelled.symm.trans honly)
  exact hstanding

end Renounced

end Batcher

end PartialEntity
