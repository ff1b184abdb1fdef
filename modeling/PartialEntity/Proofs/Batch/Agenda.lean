import Mathlib
import PartialEntity.Proofs.Batch.History

/-!
# The agenda is carried out

Work that comes up is put in front of the agenda and nothing is taken from the middle of it.  So
whatever is on the agenda gets its turn before an operation is over.
-/

namespace PartialEntity.Batcher

open Batch

variable {κ : Type} {batcher : Batcher κ}

theorem agenda_withdraw (key number : Nat) (batcher : Batcher κ) :
    (batcher.withdraw key number).batcher.agenda = batcher.agenda := by
  rcases withdraw_cases key number batcher with heq | ⟨_, _, _, _, _, _, heq⟩ <;> rw [heq]
  rfl

theorem agenda_retract (key : Nat) (batcher : Batcher κ) :
    (batcher.retract key).batcher.agenda = batcher.agenda := by
  unfold Batcher.retract
  split
  · rfl
  · exact agenda_withdraw key _ batcher
  · rfl

/-- Work that tells no request of an answer. -/
def Answerless (work : List (Instruction κ)) : Prop :=
  ∀ key, .mark key .settled ∉ work

theorem Answerless.append {first second : List (Instruction κ)} (hfirst : Answerless first)
    (hsecond : Answerless second) : Answerless (first ++ second) := by
  intro key hmem
  rcases List.mem_append.1 hmem with hmem | hmem
  · exact hfirst key hmem
  · exact hsecond key hmem

theorem answerless_flatMap {f : Waiter κ → List (Instruction κ)}
    (h : ∀ waiter, Answerless (f waiter)) (waiters : List (Waiter κ)) : Answerless (waiters.flatMap f) := by
  intro key hmem
  obtain ⟨waiter, _, hwaiter⟩ := List.mem_flatMap.1 hmem
  exact h waiter key hwaiter

theorem answerless_settle_cancelled (waiter : Waiter κ) :
    Answerless (waiter.settle .cancelled) := by
  simp [Answerless, Waiter.settle, Waiter.call]

theorem answerless_dispatch (waiter : Waiter κ) : Answerless waiter.dispatch := by
  unfold Waiter.dispatch
  split <;> simp [Answerless, Waiter.call]

theorem answerless_withdraw (key number : Nat) (batcher : Batcher κ) :
    Answerless (batcher.withdraw key number).work := by
  rcases withdraw_cases key number batcher with heq | ⟨job, _, _, _, _, _, heq⟩
  · simp [heq, Answerless]
  · rw [heq]
    cases job.waiter? key with
    | none => simp [Answerless]
    | some waiter => exact answerless_settle_cancelled waiter

/-- What an attempt to cancel brings on tells no request of an answer. -/
theorem answerless_retract (key : Nat) (batcher : Batcher κ) :
    Answerless (batcher.retract key).work := by
  unfold Batcher.retract
  split
  · simp [Answerless]
  · exact answerless_withdraw key _ batcher
  · simp [Answerless]

/-- The agenda has grown in front by work that tells no request of an answer. -/
def Grows (before after : Batcher κ) : Prop :=
  ∃ work, after.agenda = work ++ before.agenda ∧ Answerless work

theorem Grows.of_eq {after : Batcher κ} (h : after.agenda = batcher.agenda) :
    Grows batcher after :=
  ⟨[], h, by simp [Answerless]⟩

theorem Grows.trans {after last : Batcher κ} (h : Grows batcher after) (hlast : Grows after last) :
    Grows batcher last := by
  obtain ⟨work, hagenda, hwork⟩ := h
  obtain ⟨more, hmore, hquiet⟩ := hlast
  exact ⟨more ++ work, by rw [hmore, hagenda, List.append_assoc], hquiet.append hwork⟩

theorem grows_retract (key : Nat) (batcher : Batcher κ) :
    Grows batcher ((batcher.retract key).batcher.push (batcher.retract key).work) := by
  refine ⟨_, ?_, answerless_retract key batcher⟩
  rw [push, agenda_retract]

/-- Making a request puts only its handler and its queueing on the agenda. -/
theorem grows_request (id : Nat) (graph : Graph κ) (handler : Handler κ) (batcher : Batcher κ) :
    Grows batcher (batcher.request id graph handler) := by
  unfold Batcher.request
  split
  · exact ⟨_, rfl, by simp [Answerless]⟩
  · exact .of_eq rfl

theorem grows_release (batcher : Batcher κ) : Grows batcher batcher.release := by
  unfold Batcher.release
  split
  · exact .of_eq rfl
  · exact ⟨_, rfl, by simp [Answerless]⟩

/-- Joining a job tells no request of an answer. -/
theorem grows_settleIn (key number : Nat) {joined : Batcher κ}
    (h : joined.agenda = batcher.agenda) :
    Grows batcher (enqueue.settleIn key number joined) := by
  unfold enqueue.settleIn
  dsimp only
  generalize htied : joined.changeRequest key _ = tied
  have hagenda : tied.agenda = batcher.agenda := by
    rw [← htied, ← h]
    rfl
  split
  · refine ⟨(tied.withdraw key number).work, ?_, answerless_withdraw key number tied⟩
    rw [push, agenda_withdraw, hagenda]
  · exact .of_eq hagenda

/-- New work comes before everything that was waiting. -/
theorem grows_execute (instruction : Instruction κ) (batcher : Batcher κ) :
    Grows batcher (batcher.execute instruction) := by
  cases instruction with
  | call key handler callback => exact ⟨_, rfl, by simp [Answerless]⟩
  | react key reaction =>
    cases reaction with
    | cancel target =>
      simp only [Batcher.execute, Batcher.react]
      split
      · refine ⟨(batcher.retract target).work ++
          [.note (.tried key target (some (batcher.retract target).result))], ?_, ?_⟩
        · rw [push, agenda_retract]
        · exact (answerless_retract target batcher).append (by simp [Answerless])
      · exact ⟨_, rfl, by simp [Answerless]⟩
    | submit id graph handler => exact grows_request id graph handler batcher
  | note occurrence => exact .of_eq rfl
  | mark key standing => exact .of_eq rfl
  | enqueue key id graph handler =>
    obtain ⟨queue, jobs, nextJob, hframe⟩ := join_frame id ⟨key, graph, handler, false⟩ batcher
    rw [execute, enqueue_eq, hframe]
    exact grows_settleIn key _ rfl
  | flush id job =>
    simp only [Batcher.execute, Batcher.flush]
    split
    · exact .of_eq rfl
    · split
      · refine ⟨_, rfl, ?_⟩
        apply Answerless.append
        · intro key hmem
          rcases List.mem_cons.1 hmem with heq | hmem
          · cases heq
          · exact answerless_flatMap answerless_dispatch _ key hmem
        · simp [Answerless]
      · exact ⟨_, rfl, by simp [Answerless]⟩
  | restore id job graph waiters =>
    have htold := answerless_flatMap (κ := κ) answerless_settle_cancelled
    simp only [Batcher.execute, Batcher.restore]
    split <;> exact ⟨_, rfl, (htold _).append (by simp [Answerless])⟩
  | launch id job graph =>
    simp only [Batcher.execute, Batcher.launch]
    split <;> exact .of_eq rfl
  | endFetch fetch =>
    simp only [Batcher.execute, Batcher.endFetch]
    split
    · exact .of_eq rfl
    · refine Grows.trans ?_ (grows_release _)
      exact ⟨_, rfl, by simp [Answerless]⟩
  | dropJob job =>
    simp only [Batcher.execute, Batcher.dropJob]
    split
    · exact .of_eq rfl
    · refine ⟨_, rfl, answerless_flatMap (fun waiter => ?_) _⟩
      simp [Answerless, Waiter.discard, Waiter.call]

/-- What was on the agenda is still there, behind all that is new. -/
theorem Grows.suffix {before after : Batcher κ} (h : Grows before after) :
    before.agenda <:+ after.agenda := by
  obtain ⟨work, hagenda, _⟩ := h
  rw [hagenda]
  exact List.suffix_append _ _

/-- Instructions can be carried out in two goes. -/
theorem steps_add (first second : Nat) (batcher : Batcher κ) :
    batcher.steps (first + second) = (batcher.steps first).steps second := by
  induction first generalizing batcher with
  | zero => rw [Nat.zero_add, steps]
  | succ first ih => rw [Nat.succ_add, steps, ih, steps]

/-- What is on the agenda gets its turn before the agenda is empty. -/
theorem exists_turn {instruction : Instruction κ} {fuel : Nat}
    (hmem : instruction ∈ batcher.agenda) (hend : (batcher.steps fuel).agenda = []) :
    ∃ first second, fuel = first + (second + 1) ∧
      (batcher.steps first).agenda.head? = some instruction := by
  induction fuel generalizing batcher with
  | zero =>
    rw [steps] at hend
    rw [hend] at hmem
    cases hmem
  | succ fuel ih =>
    obtain ⟨head, rest, hagenda⟩ := List.exists_cons_of_ne_nil (List.ne_nil_of_mem hmem)
    by_cases hhead : instruction = head
    · exact ⟨0, fuel, (Nat.zero_add _).symm, by rw [steps, hagenda, hhead]; rfl⟩
    · obtain ⟨before, rfl, hstep⟩ := step_eq_execute hagenda
      have hold : instruction ∈ before.agenda := by
        rcases List.mem_append.1 hmem with hnew | hold
        · exact absurd (List.mem_singleton.1 hnew) hhead
        · exact hold
      have hlater : instruction ∈ (before.push [head]).step.agenda := by
        rw [hstep]
        exact (grows_execute head before).suffix.subset hold
      obtain ⟨first, second, rfl, hturn⟩ := ih hlater hend
      exact ⟨first + 1, second, by omega, hturn⟩

variable [DecidableEq κ] [Catalog κ]

/-- A handler that is on the agenda is called. -/
theorem mem_callbacks_drain {key : Nat} (handler : Handler κ) {callback : Callback κ}
    (hmem : .call key handler callback ∈ batcher.agenda) :
    callback ∈ batcher.drain.callbacks key := by
  obtain ⟨first, second, hfuel, hturn⟩ := exists_turn hmem (agenda_drain batcher)
  obtain ⟨rest, hagenda⟩ := List.head?_eq_some_iff.1 hturn
  obtain ⟨before, _, hstep⟩ := step_eq_execute hagenda
  have hcalled : callback ∈ (batcher.steps first).step.callbacks key := by
    rw [hstep, callbacks, history_execute]
    simp [Instruction.noted]
  have hkept := Reaches.callbacks_prefix (reaches_steps second (batcher.steps first).step) key
  have hdrain : batcher.drain = (batcher.steps first).step.steps second := by
    rw [drain, hfuel, steps_add, steps]
  rw [hdrain]
  exact hkept.subset hcalled

end PartialEntity.Batcher
