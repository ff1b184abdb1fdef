import PartialEntity.Batch.Operation

/-!
# Every operation comes to an end

Each instruction costs at least what it brings on, so the weight of a batcher goes down with every
step and its agenda is empty after as many steps as it weighs.

The cost of telling a waiter something is paid when the waiter is created: a waiter that is stored
in a job weighs what it still has to be told.
-/

namespace PartialEntity

open Batch

variable {κ : Type}

/-! ## Sums over lists -/

namespace Batch

theorem total_map_filter_split {α : Type} (f : α → Nat) (p : α → Bool) (list : List α) :
    total ((list.filter p).map f) + total ((list.filter fun a => !p a).map f) =
      total (list.map f) := by
  induction list with
  | nil => rfl
  | cons a rest ih => by_cases h : p a <;> simp [h] <;> omega

theorem le_total_map_filter_of_find? {α : Type} (f : α → Nat) (p : α → Bool) {list : List α} {a : α}
    (h : list.find? p = some a) : f a ≤ total ((list.filter p).map f) := by
  induction list with
  | nil => simp at h
  | cons b rest ih =>
    by_cases hb : p b
    · simp only [List.find?_cons, hb, Option.some.injEq] at h
      subst h
      simp [hb]
    · simp only [List.find?_cons, hb] at h
      simpa [hb] using ih h

end Batch

/-! ## Sums over association lists -/

namespace Assoc

variable {β : Type}

/-- Setting the value of a key adds its number and takes away that of the old value. -/
theorem total_insert (f : β → Nat) (key : Nat) (value : β) (entries : List (Nat × β)) :
    total ((insert key value entries).map fun entry => f entry.2) +
        ((find? key entries).map f).getD 0 =
      total (entries.map fun entry => f entry.2) + f value := by
  induction entries with
  | nil => simp [insert, alter, find?]
  | cons entry rest ih =>
    obtain ⟨k, v⟩ := entry
    by_cases h : k == key
    · simp [insert, alter, find?, h]; omega
    · simp only [insert] at ih
      simp [insert, alter, find?, h]; omega

/-- Removing a key takes away at least the number of its value. -/
theorem total_erase_le (f : β → Nat) (key : Nat) (entries : List (Nat × β)) :
    total ((erase key entries).map fun entry => f entry.2) + ((find? key entries).map f).getD 0 ≤
      total (entries.map fun entry => f entry.2) := by
  induction entries with
  | nil => simp [erase, find?]
  | cons entry rest ih =>
    obtain ⟨k, v⟩ := entry
    by_cases h : k == key
    · simp [erase, find?, h] at ih ⊢
      omega
    · simp [erase, find?, h] at ih ⊢
      omega

theorem length_insert_le (key : Nat) (value : β) (entries : List (Nat × β)) :
    (insert key value entries).length ≤ entries.length + 1 := by
  induction entries with
  | nil => simp [insert, alter]
  | cons entry rest ih =>
    obtain ⟨k, v⟩ := entry
    by_cases h : k == key
    · simp [insert, alter, h]
    · simp only [insert] at ih
      simp [insert, alter, h, ih]

end Assoc

/-! ## Handlers -/

namespace Batch

theorem reactionsWeight_eq_total (handler : Handler κ) :
    reactionsWeight handler = total (handler.map fun entry => entry.2.weight) := by
  induction handler with
  | nil => simp [reactionsWeight]
  | cons entry rest ih =>
    obtain ⟨moment, reaction⟩ := entry
    simp [reactionsWeight, ih]

theorem Handler.weight_eq_total (handler : Handler κ) (moment : Moment) :
    handler.weight moment = total ((handler.reactions moment).map Reaction.weight) := by
  rw [Handler.weight, reactionsWeight_eq_total, Handler.reactions, List.map_map]
  rfl

/-- What a handler does at different moments adds up to all it does. -/
theorem Handler.weight_moments (handler : Handler κ) :
    handler.weight .pre + handler.weight .post + handler.weight .success + handler.weight .fail +
        handler.weight .cancel + handler.weight .finish + handler.weight .destroy =
      reactionsWeight handler := by
  induction handler with
  | nil => simp [Handler.weight, reactionsWeight]
  | cons entry rest ih =>
    obtain ⟨moment, reaction⟩ := entry
    cases moment <;>
      simp [Handler.weight, reactionsWeight] at ih ⊢ <;>
      omega

/-! ## Waiters -/

/-- The number of instructions that work can bring on, itself included. -/
def workWeight (work : List (Instruction κ)) : Nat :=
  total (work.map Instruction.weight)

@[simp] theorem workWeight_nil : workWeight ([] : List (Instruction κ)) = 0 := rfl

@[simp] theorem workWeight_cons (instruction : Instruction κ) (rest : List (Instruction κ)) :
    workWeight (instruction :: rest) = instruction.weight + workWeight rest := by
  simp [workWeight]

@[simp] theorem workWeight_append (left right : List (Instruction κ)) :
    workWeight (left ++ right) = workWeight left + workWeight right := by
  simp [workWeight]

theorem workWeight_settle_cancelled_le (waiter : Waiter κ) :
    workWeight (waiter.settle .cancelled) ≤ waiter.weight := by
  simp [Waiter.settle, Waiter.call, Waiter.weight, Instruction.weight, Callback.moment]
  omega

theorem workWeight_discard_le (waiter : Waiter κ) :
    workWeight waiter.discard ≤ waiter.weight := by
  simp [Waiter.discard, Waiter.call, Waiter.weight, Instruction.weight, Callback.moment]
  omega

/-- Telling a waiter that its work was given out is paid for by what it need not be told any
more. -/
theorem workWeight_dispatch_add (waiter : Waiter κ) :
    workWeight waiter.dispatch + Waiter.weight { waiter with dispatched := true } =
      waiter.weight := by
  obtain ⟨key, graph, handler, dispatched⟩ := waiter
  cases dispatched <;>
    simp [Waiter.dispatch, Waiter.call, Waiter.weight, Instruction.weight, Callback.moment]
  omega

/-- If what is done for each waiter weighs no more than the waiter, so does all of it together. -/
theorem workWeight_flatMap_le (f : Waiter κ → List (Instruction κ))
    (hf : ∀ waiter, workWeight (f waiter) ≤ waiter.weight) (waiters : List (Waiter κ)) :
    workWeight (waiters.flatMap f) ≤ waitersWeight waiters := by
  induction waiters with
  | nil => simp [waitersWeight]
  | cons waiter rest ih =>
    have := hf waiter
    simp [waitersWeight] at ih ⊢
    omega

theorem workWeight_dispatch_all (waiters : List (Waiter κ)) :
    workWeight (waiters.flatMap Waiter.dispatch) +
        waitersWeight (waiters.map fun waiter => { waiter with dispatched := true }) =
      waitersWeight waiters := by
  induction waiters with
  | nil => simp [waitersWeight]
  | cons waiter rest ih =>
    have := workWeight_dispatch_add waiter
    simp [waitersWeight] at ih ⊢
    omega

/-- The waiter that leaves a job and those that stay weigh no more than before. -/
theorem waitersWeight_withdraw (job : Job κ) (key : Nat) :
    waitersWeight (job.without key) + ((job.waiter? key).map Waiter.weight).getD 0 ≤
      waitersWeight job.waiters := by
  have hsplit := total_map_filter_split Waiter.weight (fun waiter => waiter.key == key) job.waiters
  cases hfind : job.waiter? key with
  | none => simp [waitersWeight, Job.without] at hsplit ⊢; omega
  | some waiter =>
    have := le_total_map_filter_of_find? Waiter.weight (fun waiter => waiter.key == key) hfind
    simp [waitersWeight, Job.without] at hsplit ⊢; omega

end Batch

/-! ## Batchers -/

namespace Batcher

def jobsWeight (batcher : Batcher κ) : Nat :=
  total (batcher.jobs.map fun entry => waitersWeight entry.2.waiters)

theorem weight_eq (batcher : Batcher κ) :
    batcher.weight = workWeight batcher.agenda + batcher.jobsWeight + batcher.queue.length := rfl

@[simp] theorem weight_push (work : List (Instruction κ)) (batcher : Batcher κ) :
    (batcher.push work).weight = workWeight work + batcher.weight := by
  simp [weight_eq, push, jobsWeight, Nat.add_assoc]

@[simp] theorem weight_note (occurrence : Occurrence κ) (batcher : Batcher κ) :
    (batcher.note occurrence).weight = batcher.weight := rfl

@[simp] theorem weight_changeRequest (key : Nat) (change : Request → Request)
    (batcher : Batcher κ) : (batcher.changeRequest key change).weight = batcher.weight := rfl

@[simp] theorem weight_abort (number : Nat) (batcher : Batcher κ) :
    (batcher.abort number).weight = batcher.weight := by
  unfold abort
  split <;> rfl

@[simp] theorem weight_abortIdle (before after : Phase) (batcher : Batcher κ) :
    (batcher.abortIdle before after).weight = batcher.weight := by
  unfold abortIdle
  split <;> simp

/-- The weight of a job, which is nothing if the job is forgotten. -/
def jobWeight (batcher : Batcher κ) (number : Nat) : Nat :=
  ((batcher.job? number).map fun job => waitersWeight job.waiters).getD 0

/-- Replacing a job replaces its weight. -/
theorem weight_setJob (number : Nat) (job : Job κ) (batcher : Batcher κ) :
    (batcher.setJob number job).weight + batcher.jobWeight number =
      batcher.weight + waitersWeight job.waiters := by
  have := Assoc.total_insert (fun job : Job κ => waitersWeight job.waiters) number job batcher.jobs
  simp only [weight_eq, setJob, jobsWeight, jobWeight, job?]
  omega

theorem weight_eraseJob_le (number : Nat) (batcher : Batcher κ) :
    ({ batcher with jobs := Assoc.erase number batcher.jobs } : Batcher κ).weight +
        batcher.jobWeight number ≤ batcher.weight := by
  have := Assoc.total_erase_le (fun job : Job κ => waitersWeight job.waiters) number batcher.jobs
  simp only [weight_eq, jobsWeight, jobWeight, job?]
  omega

theorem jobWeight_of_job? {batcher : Batcher κ} {number : Nat} {job : Job κ}
    (h : batcher.job? number = some job) :
    batcher.jobWeight number = waitersWeight job.waiters := by
  simp [jobWeight, h]

/-! ## Cancelling -/

theorem waitersWeight_of_withdraw {job rest : Job κ} {key : Nat} {waiter : Option (Waiter κ)}
    (h : job.withdraw key = some (rest, waiter)) :
    waitersWeight rest.waiters + (waiter.map Waiter.weight).getD 0 ≤
      waitersWeight job.waiters := by
  have hle := waitersWeight_withdraw job key
  unfold Job.withdraw at h
  split at h
  · split at h
    · simp at h
    · rename_i found
      simp only [Option.some.injEq, Prod.mk.injEq] at h
      obtain ⟨rfl, rfl⟩ := h
      simpa [found] using hle
  · split at h
    · simp only [Option.some.injEq, Prod.mk.injEq] at h
      obtain ⟨rfl, rfl⟩ := h
      simpa using hle
    · simp at h
  · simp at h

/-- What there is to tell a waiter that is withdrawn is paid for by the waiter. -/
theorem weight_withdraw_le (key number : Nat) (batcher : Batcher κ) :
    workWeight (batcher.withdraw key number).work + (batcher.withdraw key number).batcher.weight ≤
      batcher.weight := by
  unfold withdraw
  cases hjob : batcher.job? number with
  | none => simp
  | some job =>
    cases hwithdraw : job.withdraw key with
    | none => simp [hwithdraw]
    | some result =>
      obtain ⟨rest, waiter⟩ := result
      have hset := weight_setJob number rest batcher
      rw [jobWeight_of_job? hjob] at hset
      have hrest := waitersWeight_of_withdraw hwithdraw
      simp only [hwithdraw, weight_abortIdle]
      cases waiter with
      | none => simp at hrest ⊢; omega
      | some waiter =>
        have := workWeight_settle_cancelled_le waiter
        simp at hrest ⊢; omega

theorem weight_retract_le (key : Nat) (batcher : Batcher κ) :
    workWeight (batcher.retract key).work + (batcher.retract key).batcher.weight ≤
      batcher.weight := by
  unfold retract
  split
  · simp
  · exact weight_withdraw_le _ _ _
  · simp

/-! ## Instructions -/

/-- A new request and its handler weigh less than the bound for a reaction that makes it. -/
theorem weight_request_lt (id : Nat) (graph : Graph κ) (handler : Handler κ)
    (batcher : Batcher κ) :
    (batcher.request id graph handler).weight <
      10 + reactionsWeight handler + batcher.weight := by
  have hmoments := Handler.weight_moments handler
  unfold request
  split
  · have hnew : ∀ requests : List Request,
        ({ batcher with requests } : Batcher κ).weight = batcher.weight := fun _ => rfl
    simp only [weight_push, workWeight_cons, workWeight_nil, hnew, Instruction.weight,
      Callback.moment, Waiter.weight]
    simp
    omega
  · omega

theorem weight_react_lt (key : Nat) (reaction : Reaction κ) (batcher : Batcher κ) :
    (batcher.react key reaction).weight < reaction.weight + batcher.weight := by
  cases reaction with
  | cancel target =>
    have := weight_retract_le target batcher
    simp only [react, Reaction.weight]
    split
    · simp [Instruction.weight]
      omega
    · simp [Instruction.weight]
  | submit id graph handler =>
    simpa [react, Reaction.weight] using weight_request_lt id graph handler batcher

theorem weight_settleIn_le (key number : Nat) (batcher : Batcher κ) :
    (enqueue.settleIn key number batcher).weight ≤ batcher.weight := by
  unfold enqueue.settleIn
  simp only
  split
  · have := weight_withdraw_le key number
      (batcher.changeRequest key fun request => { request with job := some number })
    simpa using this
  · simp

theorem weight_replace_le (id : Nat) (waiter : Waiter κ) (batcher : Batcher κ) :
    (enqueue.replace id waiter batcher).weight ≤ batcher.weight + waiter.weight + 1 := by
  have hjobs := Assoc.total_insert (fun job : Job κ => waitersWeight job.waiters) batcher.nextJob
    (Job.empty.push waiter) batcher.jobs
  have hqueue := Assoc.length_insert_le id batcher.nextJob batcher.queue
  have hnew : waitersWeight (Job.empty.push waiter).waiters = waiter.weight := by
    simp [waitersWeight, Job.push, Job.empty]
  simp only [enqueue.replace, weight_eq, jobsWeight]
  omega

/-- A request that is queued weighs less than the instruction that has queued it. -/
theorem weight_enqueue_lt (key id : Nat) (graph : Graph κ) (handler : Handler κ)
    (batcher : Batcher κ) :
    (batcher.enqueue key id graph handler).weight <
      2 + Waiter.weight ⟨key, graph, handler, false⟩ + batcher.weight := by
  unfold enqueue
  simp only
  split
  · rename_i number job hfound
    split
    · have hjob : batcher.job? number = some job := by
        cases hid : Assoc.find? id batcher.queue with
        | none => simp [hid] at hfound
        | some other =>
          cases hother : batcher.job? other with
          | none => simp [hid, hother] at hfound
          | some there =>
            simp [hid, hother] at hfound
            obtain ⟨rfl, rfl⟩ := hfound
            exact hother
      have hset := weight_setJob number (job.push ⟨key, graph, handler, false⟩) batcher
      rw [jobWeight_of_job? hjob] at hset
      have hpush : waitersWeight (job.push ⟨key, graph, handler, false⟩).waiters =
          waitersWeight job.waiters + Waiter.weight ⟨key, graph, handler, false⟩ := by
        simp [waitersWeight, Job.push]
      have := weight_settleIn_le key number (batcher.setJob number (job.push ⟨key, graph, handler, false⟩))
      omega
    · have herase := weight_eraseJob_le number batcher
      have := weight_settleIn_le key batcher.nextJob
        (enqueue.replace id ⟨key, graph, handler, false⟩
          { batcher with jobs := Assoc.erase number batcher.jobs })
      have := weight_replace_le id ⟨key, graph, handler, false⟩
        { batcher with jobs := Assoc.erase number batcher.jobs }
      omega
  · have := weight_settleIn_le key batcher.nextJob
      (enqueue.replace id ⟨key, graph, handler, false⟩ batcher)
    have := weight_replace_le id ⟨key, graph, handler, false⟩ batcher
    omega

/-- Handing out the work of a job weighs less than the instruction to do so. -/
theorem weight_flush_lt (id number : Nat) (batcher : Batcher κ) :
    (batcher.flush id number).weight < 4 + batcher.weight := by
  unfold flush
  cases hjob : batcher.job? number with
  | none => simp
  | some job =>
    simp only
    split
    · have hset := weight_setJob number ⟨[], .inFlight job.keys none⟩ batcher
      rw [jobWeight_of_job? hjob] at hset
      have hdispatch := workWeight_dispatch_all job.waiters
      have hnone : waitersWeight ([] : List (Waiter κ)) = 0 := rfl
      simp only [hnone] at hset
      simp [Instruction.weight] at hset hdispatch ⊢
      omega
    · simp [Instruction.weight]

/-- Giving waiters back weighs less than the instruction to do so. -/
theorem weight_restore_lt (id number : Nat) (graph : Graph κ) (waiters : List (Waiter κ))
    (batcher : Batcher κ) :
    (batcher.restore id number graph waiters).weight <
      2 + waitersWeight waiters + batcher.weight := by
  unfold restore
  simp only
  generalize ((batcher.job? number).map (·.phase)).getD .settled = phase
  have hsplit := total_map_filter_split Waiter.weight (fun waiter => phase.wants waiter.key) waiters
  have htold := workWeight_flatMap_le (fun waiter => waiter.settle .cancelled)
    workWeight_settle_cancelled_le (waiters.filter fun waiter => !phase.wants waiter.key)
  simp only [waitersWeight] at htold ⊢
  split
  · have hset := weight_setJob number
      ⟨waiters.filter fun waiter => phase.wants waiter.key, phase⟩ batcher
    simp only [waitersWeight] at hset
    simp [Instruction.weight]
    omega
  · simp [Instruction.weight]
    omega

theorem weight_launch_le (id number : Nat) (graph : Graph κ) (batcher : Batcher κ) :
    (batcher.launch id number graph).weight ≤ batcher.weight := by
  have hstarted : ∀ (fetches : List (Nat × Fetch κ)) (next : Nat) (after : Batcher κ),
      ({ after with fetches, nextFetch := next } : Batcher κ).weight = after.weight :=
    fun _ _ _ => rfl
  unfold launch
  simp only
  split
  · rename_i waiters live fetch hjob
    have hset := weight_setJob number ⟨waiters, .inFlight live (some batcher.nextFetch)⟩ batcher
    rw [jobWeight_of_job? hjob] at hset
    dsimp only at hset
    simp only [hstarted]
    omega
  · simp only [hstarted]
    omega

theorem weight_dropJob_le (number : Nat) (batcher : Batcher κ) :
    (batcher.dropJob number).weight ≤ batcher.weight := by
  unfold dropJob
  cases hjob : batcher.job? number with
  | none => simp
  | some job =>
    have herase := weight_eraseJob_le number batcher
    rw [jobWeight_of_job? hjob] at herase
    have hdiscard := workWeight_flatMap_le Waiter.discard workWeight_discard_le job.waiters
    simp
    omega

theorem weight_release_le (batcher : Batcher κ) : batcher.release.weight ≤ batcher.weight := by
  unfold release
  split
  · simp
  · have hdrop : workWeight (batcher.queue.map fun entry => (.dropJob entry.2 : Instruction κ)) =
        batcher.queue.length := by
      generalize batcher.queue = queue
      induction queue with
      | nil => rfl
      | cons entry rest ih => simp [Instruction.weight] at ih ⊢; omega
    rw [weight_push, hdrop]
    simp [weight_eq, jobsWeight]
    omega

theorem weight_endFetch_lt (number : Nat) (batcher : Batcher κ) :
    (batcher.endFetch number).weight < 2 + batcher.weight := by
  unfold endFetch
  split
  · omega
  · rename_i fetch hfetch
    have := weight_release_le
      (({ batcher with fetches := Assoc.erase number batcher.fetches } : Batcher κ).push
        [.dropJob fetch.job])
    have hfetches : ∀ fetches : List (Nat × Fetch κ),
        ({ batcher with fetches } : Batcher κ).weight = batcher.weight := fun _ => rfl
    simp [Instruction.weight, hfetches] at this
    omega

/-- The step lemma: whatever an instruction brings on weighs less than the instruction. -/
theorem weight_execute_lt (instruction : Instruction κ) (batcher : Batcher κ) :
    (batcher.execute instruction).weight < instruction.weight + batcher.weight := by
  cases instruction with
  | call key handler callback =>
    have hreact : workWeight ((handler.reactions callback.moment).map (.react key)) =
        handler.weight callback.moment := by
      rw [Handler.weight_eq_total, workWeight, List.map_map]
      rfl
    simp [execute, Instruction.weight, hreact]
  | react key reaction => exact weight_react_lt key reaction batcher
  | note occurrence => simp [execute, Instruction.weight]
  | mark key standing => simp [execute, Instruction.weight]
  | enqueue key id graph handler => exact weight_enqueue_lt key id graph handler batcher
  | flush id job => exact weight_flush_lt id job batcher
  | restore id job graph waiters => exact weight_restore_lt id job graph waiters batcher
  | launch id job graph =>
    have := weight_launch_le id job graph batcher
    simp [execute, Instruction.weight]
    omega
  | endFetch fetch => exact weight_endFetch_lt fetch batcher
  | dropJob job =>
    have := weight_dropJob_le job batcher
    simp [execute, Instruction.weight]
    omega

/-! ## The agenda -/

/-- As long as there is work, a step makes the batcher lighter. -/
theorem weight_step_lt {batcher : Batcher κ} (h : batcher.agenda ≠ []) :
    batcher.step.weight < batcher.weight := by
  unfold step
  split
  · contradiction
  · rename_i instruction rest hagenda
    have := weight_execute_lt instruction { batcher with agenda := rest }
    have hweight : batcher.weight =
        instruction.weight + ({ batcher with agenda := rest } : Batcher κ).weight := by
      simp [weight_eq, hagenda, jobsWeight, Nat.add_assoc]
    omega

theorem step_eq_self {batcher : Batcher κ} (h : batcher.agenda = []) : batcher.step = batcher := by
  unfold step
  split
  · rfl
  · rename_i hagenda
    simp [h] at hagenda

theorem steps_eq_self {fuel : Nat} {batcher : Batcher κ} (h : batcher.agenda = []) :
    batcher.steps fuel = batcher := by
  induction fuel with
  | zero => rfl
  | succ fuel ih => rw [steps, step_eq_self h, ih]

/-- As many steps as a batcher weighs empty its agenda. -/
theorem agenda_steps {fuel : Nat} {batcher : Batcher κ} (h : batcher.weight ≤ fuel) :
    (batcher.steps fuel).agenda = [] := by
  induction fuel generalizing batcher with
  | zero =>
    by_cases hagenda : batcher.agenda = []
    · exact hagenda
    · have := weight_step_lt hagenda
      omega
  | succ fuel ih =>
    by_cases hagenda : batcher.agenda = []
    · rw [steps_eq_self hagenda, hagenda]
    · have := weight_step_lt hagenda
      exact ih (by omega)

/-- Nothing is left to do after an operation. -/
theorem agenda_drain (batcher : Batcher κ) : batcher.drain.agenda = [] :=
  agenda_steps (Nat.le_refl _)

end Batcher

end PartialEntity
