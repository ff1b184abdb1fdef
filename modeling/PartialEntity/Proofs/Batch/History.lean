import Mathlib
import PartialEntity.Proofs.Batch.Keeping

/-!
# The history of a batcher

Only two kinds of instruction add to the history, and nothing takes away from it.
-/

namespace PartialEntity

open Batch

variable {κ : Type}

namespace Batch

def Instruction.noted : Instruction κ → List (Occurrence κ)
  | .call key _ callback => [.called key callback]
  | .note occurrence => [occurrence]
  | _ => []

end Batch

namespace Batcher

variable {batcher : Batcher κ}

theorem history_withdraw (key number : Nat) (batcher : Batcher κ) :
    (batcher.withdraw key number).batcher.history = batcher.history := by
  rcases withdraw_cases key number batcher with heq | ⟨_, _, _, _, _, _, heq⟩ <;> rw [heq]
  rfl

theorem history_retract (key : Nat) (batcher : Batcher κ) :
    (batcher.retract key).batcher.history = batcher.history := by
  unfold Batcher.retract
  split
  · rfl
  · exact history_withdraw _ _ batcher
  · rfl

theorem history_request (id : Nat) (graph : Graph κ) (handler : Handler κ)
    (batcher : Batcher κ) : (batcher.request id graph handler).history = batcher.history := by
  unfold Batcher.request
  split <;> rfl

theorem history_release (batcher : Batcher κ) : batcher.release.history = batcher.history := by
  unfold Batcher.release
  split <;> rfl

theorem history_settleIn (key number : Nat) (batcher : Batcher κ) :
    (enqueue.settleIn key number batcher).history = batcher.history := by
  unfold enqueue.settleIn
  simp only
  split
  · exact history_withdraw key number _
  · rfl

/-- The step lemma: an instruction adds to the history what it notes, and nothing else. -/
theorem history_execute (instruction : Instruction κ) (batcher : Batcher κ) :
    (batcher.execute instruction).history = batcher.history ++ instruction.noted := by
  cases instruction with
  | call key handler callback => rfl
  | note occurrence => rfl
  | react key reaction =>
    apply Eq.trans _ (List.append_nil _).symm
    cases reaction with
    | cancel target =>
      simp only [Batcher.execute, Batcher.react]
      split
      · exact history_retract target batcher
      · rfl
    | submit id graph handler => exact history_request id graph handler batcher
  | mark key standing => exact (List.append_nil _).symm
  | enqueue key id graph handler =>
    apply Eq.trans _ (List.append_nil _).symm
    obtain ⟨queue, jobs, nextJob, hframe⟩ := join_frame id ⟨key, graph, handler, false⟩ batcher
    rw [execute, enqueue_eq, history_settleIn, hframe]
  | flush id job =>
    apply Eq.trans _ (List.append_nil _).symm
    simp only [Batcher.execute, Batcher.flush]
    split
    · rfl
    · split <;> rfl
  | restore id job graph waiters =>
    apply Eq.trans _ (List.append_nil _).symm
    simp only [Batcher.execute, Batcher.restore]
    split <;> rfl
  | launch id job graph =>
    apply Eq.trans _ (List.append_nil _).symm
    simp only [Batcher.execute, Batcher.launch]
    split <;> rfl
  | endFetch fetch =>
    apply Eq.trans _ (List.append_nil _).symm
    simp only [Batcher.execute, Batcher.endFetch]
    split
    · rfl
    · exact history_release _
  | dropJob job =>
    apply Eq.trans _ (List.append_nil _).symm
    simp only [Batcher.execute, Batcher.dropJob]
    split <;> rfl

variable [DecidableEq κ] [Catalog κ]

/-- An operation adds nothing to the history before its work is done. -/
theorem history_start (operation : Operation κ) (batcher : Batcher κ) :
    (batcher.start operation).history = batcher.history := by
  cases operation with
  | submit id graph handler => exact history_request id graph handler batcher
  | cancel key => exact history_retract key batcher
  | run => rfl
  | rearrange queue =>
    obtain ⟨order, -, heq⟩ := exists_perm_rearrange queue batcher
    rw [Batcher.start, heq]
  | complete fetch answer =>
    simp only [Batcher.start, Batcher.complete]
    split
    · rfl
    · split <;> rfl
  | dropFetch fetch => rfl
  | close => exact history_release _

/-- Nothing that has happened is undone. -/
theorem Reaches.history_prefix {later : Batcher κ} (h : Reaches batcher later) :
    batcher.history <+: later.history := by
  apply h.invariant (P := fun state => batcher.history <+: state.history)
  · intro operation before hbefore
    rw [history_start]
    exact hbefore
  · intro instruction before hbefore
    rw [history_execute]
    exact hbefore.trans (List.prefix_append _ _)
  · exact List.prefix_refl _

/-- What a handler was told it stays told. -/
theorem Reaches.callbacks_prefix {later : Batcher κ} (h : Reaches batcher later) (key : Nat) :
    batcher.callbacks key <+: later.callbacks key :=
  h.history_prefix.filterMap _

end Batcher

end PartialEntity
