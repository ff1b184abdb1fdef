import Mathlib
import PartialEntity.Batch.Progress

/-!
# The states of a batcher

Operations come in any order, and each of them brings on a number of instructions.  The states that
a batcher can be in are those after any of these instructions.  An operation may start at any of
them: between two operations it comes from outside, in the middle of one it is called for by a
handler.
-/

namespace PartialEntity.Batcher

open Batch

variable {κ : Type}

/-- A step is taken with the instruction off the agenda. -/
theorem step_eq_execute {batcher : Batcher κ} {instruction : Instruction κ}
    {rest : List (Instruction κ)} (h : batcher.agenda = instruction :: rest) :
    ∃ before : Batcher κ, batcher = before.push [instruction] ∧
      batcher.step = before.execute instruction := by
  use { batcher with agenda := rest }
  constructor
  · rw [push, List.singleton_append, ← h]
  · simp only [step, h]

/-- Rearranging a window changes nothing but the order of its jobs. -/
theorem exists_perm_rearrange (queue : List (Nat × Nat)) (batcher : Batcher κ) :
    ∃ order, order.Perm batcher.queue ∧
      batcher.rearrange queue = { batcher with queue := order } := by
  rw [rearrange]
  split
  · rename_i hperm
    exact ⟨queue, List.isPerm_iff.1 hperm, rfl⟩
  · exact ⟨batcher.queue, .refl _, rfl⟩

variable [DecidableEq κ] [Catalog κ]

inductive Move : Batcher κ → Batcher κ → Prop
  | start (operation : Operation κ) (batcher : Batcher κ) : Move batcher (batcher.start operation)
  | step (batcher : Batcher κ) : Move batcher batcher.step

/-- What a batcher can become. -/
def Reaches : Batcher κ → Batcher κ → Prop :=
  Relation.ReflTransGen Move

/-- What a new batcher can become. -/
def Reachable (kind : κ) : Batcher κ → Prop :=
  Reaches (.empty kind)

variable {batcher later : Batcher κ}

theorem Reaches.refl (batcher : Batcher κ) : Reaches batcher batcher :=
  Relation.ReflTransGen.refl

theorem Reaches.trans {last : Batcher κ} (h : Reaches batcher later) (hlast : Reaches later last) :
    Reaches batcher last :=
  Relation.ReflTransGen.trans h hlast

theorem reaches_start (operation : Operation κ) (batcher : Batcher κ) :
    Reaches batcher (batcher.start operation) :=
  Relation.ReflTransGen.single (.start operation batcher)

theorem reaches_steps (fuel : Nat) (batcher : Batcher κ) :
    Reaches batcher (batcher.steps fuel) := by
  induction fuel generalizing batcher with
  | zero => exact .refl batcher
  | succ fuel ih => exact .trans (.single (.step batcher)) (ih batcher.step)

theorem reaches_perform (operation : Operation κ) (batcher : Batcher κ) :
    Reaches batcher (batcher.perform operation) :=
  (reaches_start operation batcher).trans (reaches_steps _ _)

/-- What holds at first and is kept by every operation and every instruction on the way holds at
the end. -/
theorem Reaches.along {P : Batcher κ → Prop} (h : Reaches batcher later)
    (hstart : ∀ (operation : Operation κ) (before : Batcher κ), Reaches batcher before →
      P before → P (before.start operation))
    (hexecute : ∀ (instruction : Instruction κ) (before : Batcher κ),
      Reaches batcher (before.push [instruction]) →
      P (before.push [instruction]) → P (before.execute instruction))
    (hfirst : P batcher) : P later := by
  induction h with
  | refl => exact hfirst
  | @tail before _ hbefore move ih =>
    cases move with
    | start operation => exact hstart operation before hbefore ih
    | step =>
      cases hagenda : before.agenda with
      | nil =>
        rw [step_eq_self hagenda]
        exact ih
      | cons instruction rest =>
        obtain ⟨popped, rfl, hstep⟩ := step_eq_execute hagenda
        rw [hstep]
        exact hexecute instruction popped hbefore ih

/-- What holds at first, when an operation has started and when an instruction was carried out,
always holds. -/
theorem Reaches.invariant {P : Batcher κ → Prop} (h : Reaches batcher later)
    (hstart : ∀ (operation : Operation κ) (before : Batcher κ),
      P before → P (before.start operation))
    (hexecute : ∀ (instruction : Instruction κ) (before : Batcher κ),
      P (before.push [instruction]) → P (before.execute instruction))
    (hfirst : P batcher) : P later :=
  h.along (fun operation before _ => hstart operation before)
    (fun instruction before _ => hexecute instruction before) hfirst

end PartialEntity.Batcher
