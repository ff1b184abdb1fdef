import PartialEntity.Batch.Step

/-!
# Using a batcher

Every operation puts its work on the agenda and then carries out the whole agenda, with all that
handlers bring on.  How much that can be is bounded: a handler is finite, and each request is told
each thing at most once.  `Batcher.weight` adds up that bound.
-/

namespace PartialEntity

open Batch

variable {κ : Type}

/-! ## A bound for the work -/

namespace Batch

@[simp]
def total : List Nat → Nat
  | [] => 0
  | number :: rest => number + total rest

/-- The sum of two lists of numbers together is the sum of their sums. -/
@[simp]
theorem total_append (first second : List Nat) :
    total (first ++ second) = total first + total second := by
  induction first with
  | nil => simp
  | cons number rest ih => simp [ih]; omega

mutual

/-- How many instructions a reaction can bring on. -/
def Reaction.weight : Reaction κ → Nat
  | .cancel _ => 2
  | .submit _ _ handler => 10 + reactionsWeight handler

/-- How many instructions the reactions of a handler can bring on. -/
def reactionsWeight : List (Moment × Reaction κ) → Nat
  | [] => 0
  | (_, reaction) :: rest => reaction.weight + reactionsWeight rest

end

def Handler.weight (handler : Handler κ) (moment : Moment) : Nat :=
  reactionsWeight (handler.filter fun entry => entry.1 == moment)

/-- How many instructions it can take to tell a waiter what it was not told yet. -/
def Waiter.weight (waiter : Waiter κ) : Nat :=
  let calls := Handler.weight waiter.handler
  5 + (if waiter.dispatched then 0 else 1 + calls .post) +
    calls .success + calls .fail + calls .cancel + calls .finish + calls .destroy

def waitersWeight (waiters : List (Waiter κ)) : Nat :=
  total (waiters.map Waiter.weight)

/-- How many instructions an instruction can bring on, itself included. -/
def Instruction.weight : Instruction κ → Nat
  | .call _ handler callback => 1 + handler.weight callback.moment
  | .react _ reaction => reaction.weight
  | .note _ => 1
  | .mark _ _ => 1
  | .enqueue key _ graph handler => 2 + Waiter.weight ⟨key, graph, handler, false⟩
  | .flush _ _ => 4
  | .restore _ _ _ waiters => 2 + waitersWeight waiters
  | .launch _ _ _ => 1
  | .endFetch _ => 2
  | .dropJob _ => 1

end Batch

namespace Batcher

/-- How many instructions it can take until the agenda is empty. -/
def weight (batcher : Batcher κ) : Nat :=
  total (batcher.agenda.map Instruction.weight) +
    total (batcher.jobs.map fun entry => waitersWeight entry.2.waiters) + batcher.queue.length

/-- Carries out at most `fuel` instructions. -/
def steps : Nat → Batcher κ → Batcher κ
  | 0, batcher => batcher
  | fuel + 1, batcher => steps fuel batcher.step

def drain (batcher : Batcher κ) : Batcher κ :=
  batcher.steps batcher.weight

end Batcher

/-! ## Operations -/

/-- What can be done with a batcher from outside. -/
inductive Batch.Operation (κ : Type) where
  /-- Requests an entity. -/
  | submit (id : Nat) (graph : Graph κ) (handler : Handler κ)
  /-- Cancels a request. -/
  | cancel (key : Nat)
  /-- Closes the window and starts a fetch for every id that is still wanted. -/
  | run
  /-- Brings the ids of the open window into another order.  They have none of their own, so a
  window may be closed, or dropped, in any. -/
  | rearrange (queue : List (Nat × Nat))
  /-- Answers a fetch. -/
  | complete (fetch : Nat) (answer : Except Error (Option (Entity κ)))
  /-- Drops a fetch without an answer. -/
  | dropFetch (fetch : Nat)
  /-- Drops the batcher. -/
  | close

namespace Batcher

variable [DecidableEq κ] [Catalog κ]

/-- Brings the answer of a fetch to all that still wait for it. -/
def complete (number : Nat) (answer : Except Error (Option (Entity κ))) (batcher : Batcher κ) :
    Batcher κ :=
  match batcher.fetch? number with
  | none => batcher
  | some fetch =>
    match batcher.job? fetch.job with
    | none => batcher.push [.endFetch number]
    | some job =>
      (batcher.setJob fetch.job ⟨[], .settled⟩).push
        (job.waiters.flatMap (Waiter.deliver answer) ++ [.endFetch number])

/-- Brings the open window into another order, if `queue` is one. -/
def rearrange (queue : List (Nat × Nat)) (batcher : Batcher κ) : Batcher κ :=
  if queue.isPerm batcher.queue then { batcher with queue } else batcher

/-- Puts the work of an operation on the agenda. -/
def start (operation : Operation κ) (batcher : Batcher κ) : Batcher κ :=
  match operation with
  | .submit id graph handler => batcher.request id graph handler
  | .cancel key =>
    let retraction := batcher.retract key
    retraction.batcher.push retraction.work
  | .run =>
    ({ batcher with queue := [] } : Batcher κ).push
      (batcher.queue.map fun entry => .flush entry.1 entry.2)
  | .rearrange queue => batcher.rearrange queue
  | .complete fetch answer => batcher.complete fetch answer
  | .dropFetch fetch => batcher.push [.endFetch fetch]
  | .close => release { batcher with isOpen := false }

/-- Does an operation, with all that it brings on. -/
def perform (operation : Operation κ) (batcher : Batcher κ) : Batcher κ :=
  (batcher.start operation).drain

/-- Cancels a request.  Gives also whether this has withdrawn it. -/
def cancel (key : Nat) (batcher : Batcher κ) : Bool × Batcher κ :=
  ((batcher.retract key).result, batcher.perform (.cancel key))

/-- Closes the window.  Gives also how many fetches have started. -/
def run (batcher : Batcher κ) : Nat × Batcher κ :=
  let after := batcher.perform .run
  (after.nextFetch - batcher.nextFetch, after)

/-- Why no window can be closed where nothing can be fetched. -/
def outsideRuntime : Fault :=
  .invalidConfiguration "Batcher::run must be called within a Tokio runtime"

end Batcher

end PartialEntity
