import PartialEntity.Batch.State
import PartialEntity.Entity.Clone
import PartialEntity.Entity.Intersect

/-!
# How a batcher works

`execute` carries out one instruction.  Every request is told its outcome once and in a fixed
order: `Waiter.settle` and `Waiter.discard` are the only places where that order is written down.
-/

namespace PartialEntity

open Batch

variable {κ : Type}

namespace Batch.Waiter

def call (waiter : Waiter κ) (callback : Callback κ) : Instruction κ :=
  .call waiter.key waiter.handler callback

/-- Tells a waiter that its work was given out, unless it knows. -/
def dispatch (waiter : Waiter κ) : List (Instruction κ) :=
  if waiter.dispatched then [] else [waiter.call .post]

/-- Tells a waiter its outcome. -/
def settle (waiter : Waiter κ) : Outcome κ → List (Instruction κ)
  | .success value =>
    waiter.dispatch ++ [.mark waiter.key .settled, waiter.call (.success value),
      waiter.call .finish, .note (.settled waiter.key), waiter.call .destroy]
  | .failed error =>
    waiter.dispatch ++ [.mark waiter.key .settled, waiter.call (.fail error),
      waiter.call .finish, .note (.settled waiter.key), waiter.call .destroy]
  | .cancelled =>
    [.mark waiter.key .cancelled, waiter.call .cancel, .note (.settled waiter.key),
      waiter.call .destroy]

/-- Tells a waiter that its work was dropped. -/
def discard (waiter : Waiter κ) : List (Instruction κ) :=
  [.note (.dropped waiter.key), .mark waiter.key .cancelled, waiter.call .cancel,
    waiter.call .destroy]

variable [DecidableEq κ] [Catalog κ]

/-- What the answer of a fetch is for one waiter: a copy of its own, narrowed to what it asked
for. -/
def outcome (waiter : Waiter κ) : Except Error (Option (Entity κ)) → Outcome κ
  | .ok (some value) =>
    let (narrowed, result) := Entity.intersect waiter.graph value.cloneAll
    match result with
    | .ok _ => .success (some narrowed)
    | .error stop => .failed stop
  | .ok none => .success none
  | .error stop => .failed stop

def deliver (answer : Except Error (Option (Entity κ))) (waiter : Waiter κ) :
    List (Instruction κ) :=
  let outcome := waiter.outcome answer
  .note (.delivering waiter.key outcome.name) :: waiter.settle outcome

end Batch.Waiter

namespace Batch

/-- What an attempt to cancel a request comes to. -/
structure Retraction (κ : Type) where
  /-- Whether it has withdrawn the request. -/
  result : Bool
  batcher : Batcher κ
  /-- What there is to do about it. -/
  work : List (Instruction κ)

end Batch

namespace Batcher

/-! ## Cancelling -/

/-- Aborts the fetch of a job that has gone from one phase to another, if nobody wants its answer
any more. -/
def abortIdle (before after : Phase) (batcher : Batcher κ) : Batcher κ :=
  match before.fetch?, after with
  | some fetch, .settled => batcher.abort fetch
  | _, _ => batcher

/-- Takes a request out of a job and tells it.  A fetch that nobody wants any more is aborted. -/
def withdraw (key number : Nat) (batcher : Batcher κ) : Retraction κ :=
  match batcher.job? number with
  | none => ⟨false, batcher, []⟩
  | some job =>
    match job.withdraw key with
    | none => ⟨false, batcher, []⟩
    | some (rest, waiter) =>
      ⟨true, (batcher.setJob number rest).abortIdle job.phase rest.phase,
        match waiter with
        | some waiter => waiter.settle .cancelled
        | none => []⟩

/-- Cancels a request.  One that is not queued yet is only marked; it is withdrawn when it is
queued. -/
def retract (key : Nat) (batcher : Batcher κ) : Retraction κ :=
  match batcher.requests[key]? with
  | some ⟨.pending, none⟩ => ⟨true, batcher.changeRequest key (Request.mark .cancelled), []⟩
  | some ⟨.pending, some number⟩ => batcher.withdraw key number
  | _ => ⟨false, batcher, []⟩

/-! ## Instructions -/

/-- Makes a request: its handler is told, and then it is queued.  In a batcher that was dropped
nothing can be requested. -/
def request (id : Nat) (graph : Graph κ) (handler : Handler κ) (batcher : Batcher κ) :
    Batcher κ :=
  if batcher.isOpen then
    let key := batcher.requests.length
    ({ batcher with requests := batcher.requests ++ [.fresh] } : Batcher κ).push
      [.call key handler .pre, .enqueue key id graph handler]
  else batcher

def react (key : Nat) : Reaction κ → Batcher κ → Batcher κ
  | .cancel target, batcher =>
    if target < batcher.requests.length then
      let retraction := batcher.retract target
      retraction.batcher.push
        (retraction.work ++ [.note (.tried key target (some retraction.result))])
    else batcher.push [.note (.tried key target none)]
  | .submit id graph handler, batcher => batcher.request id graph handler

/-- Puts a request into the job of its id.  A job whose requests were all cancelled takes no more
and makes room for a new one. -/
def enqueue (key id : Nat) (graph : Graph κ) (handler : Handler κ) (batcher : Batcher κ) :
    Batcher κ :=
  let waiter : Waiter κ := ⟨key, graph, handler, false⟩
  let standing := Assoc.find? id batcher.queue
  match standing.bind fun number => (batcher.job? number).map fun job => (number, job) with
  | some (number, job) =>
    if job.isOpen then settleIn number (batcher.setJob number (job.push waiter))
    else settleIn batcher.nextJob (replace waiter
      { batcher with jobs := Assoc.erase number batcher.jobs })
  | none => settleIn batcher.nextJob (replace waiter batcher)
where
  /-- Opens a new job for the id, with its first waiter. -/
  replace (waiter : Waiter κ) (batcher : Batcher κ) : Batcher κ :=
    { batcher with
      jobs := Assoc.insert batcher.nextJob (Job.empty.push waiter) batcher.jobs
      queue := Assoc.insert id batcher.nextJob batcher.queue
      nextJob := batcher.nextJob + 1 }
  /-- Ties the request to its job.  If it was cancelled in the meantime it is taken out again. -/
  settleIn (number : Nat) (batcher : Batcher κ) : Batcher κ :=
    let batcher := batcher.changeRequest key fun request => { request with job := some number }
    if batcher.standing? key = some .cancelled then
      let retraction := batcher.withdraw key number
      retraction.batcher.push retraction.work
    else batcher

/-- Sends a job of a closed window in flight: every handler is told before any of the waiters goes
back into the job. -/
def flush (id number : Nat) (batcher : Batcher κ) : Batcher κ :=
  match batcher.job? number with
  | none => batcher
  | some job =>
    if job.isPending then
      let graph := job.union batcher.kind
      (batcher.setJob number ⟨[], .inFlight job.keys none⟩).push
        (.note (.fetching id graph job.waiters.length) ::
          job.waiters.flatMap Waiter.dispatch ++
          [.restore id number graph
            (job.waiters.map fun waiter => { waiter with dispatched := true })])
    else batcher.push [.dropJob number]

/-- Gives a job its waiters back.  Those that were cancelled in the meantime are told now; if none
is left the fetch does not start. -/
def restore (id number : Nat) (graph : Graph κ) (waiters : List (Waiter κ))
    (batcher : Batcher κ) : Batcher κ :=
  let phase := ((batcher.job? number).map (·.phase)).getD .settled
  let kept := waiters.filter fun waiter => phase.wants waiter.key
  let withdrawn := waiters.filter fun waiter => !phase.wants waiter.key
  let told := withdrawn.flatMap fun waiter => waiter.settle .cancelled
  if phase.isInFlight then
    (batcher.setJob number ⟨kept, phase⟩).push (told ++ [.launch id number graph])
  else batcher.push (told ++ [.dropJob number])

/-- Starts the fetch of a job.  If the last request was cancelled while others were told, the fetch
is aborted as soon as it has started. -/
def launch (id number : Nat) (graph : Graph κ) (batcher : Batcher κ) : Batcher κ :=
  let fetch := batcher.nextFetch
  let started (aborted : Bool) (batcher : Batcher κ) : Batcher κ :=
    { batcher with
      fetches := Assoc.insert fetch ⟨number, id, graph, aborted⟩ batcher.fetches
      nextFetch := fetch + 1 }
  match batcher.job? number with
  | some ⟨waiters, .inFlight live _⟩ =>
    started false (batcher.setJob number ⟨waiters, .inFlight live (some fetch)⟩)
  | _ => started true batcher

/-- Forgets a job; requests that are still in it are told. -/
def dropJob (number : Nat) (batcher : Batcher κ) : Batcher κ :=
  match batcher.job? number with
  | none => batcher
  | some job =>
    ({ batcher with jobs := Assoc.erase number batcher.jobs } : Batcher κ).push
      (job.waiters.flatMap Waiter.discard)

/-- Forgets the open window if the batcher was dropped and no fetch is left that would keep it. -/
def release (batcher : Batcher κ) : Batcher κ :=
  if batcher.isOpen || !batcher.fetches.isEmpty then batcher
  else
    ({ batcher with queue := [] } : Batcher κ).push
      (batcher.queue.map fun entry => .dropJob entry.2)

def endFetch (number : Nat) (batcher : Batcher κ) : Batcher κ :=
  match batcher.fetch? number with
  | none => batcher
  | some fetch =>
    (({ batcher with fetches := Assoc.erase number batcher.fetches } : Batcher κ).push
      [.dropJob fetch.job]).release

def execute (instruction : Instruction κ) (batcher : Batcher κ) : Batcher κ :=
  match instruction with
  | .call key handler callback =>
    (batcher.note (.called key callback)).push
      ((handler.reactions callback.moment).map (.react key))
  | .react key reaction => batcher.react key reaction
  | .note occurrence => batcher.note occurrence
  | .mark key standing => batcher.changeRequest key (Request.mark standing)
  | .enqueue key id graph handler => batcher.enqueue key id graph handler
  | .flush id job => batcher.flush id job
  | .restore id job graph waiters => batcher.restore id job graph waiters
  | .launch id job graph => batcher.launch id job graph
  | .endFetch fetch => batcher.endFetch fetch
  | .dropJob job => batcher.dropJob job

/-- Carries out the first instruction of the agenda. -/
def step (batcher : Batcher κ) : Batcher κ :=
  match batcher.agenda with
  | [] => batcher
  | instruction :: rest => ({ batcher with agenda := rest } : Batcher κ).execute instruction

end Batcher

end PartialEntity
