import PartialEntity.Batch.Handler
import PartialEntity.Graph.Builder

/-!
# Jobs

A job gathers the requests for one id that came in during one window.  When the window closes the
job goes in flight with one fetch for all of them; whatever it takes, it is settled in the end.
-/

namespace PartialEntity.Batch

variable {κ : Type}

/-- A request that waits in a job. -/
structure Waiter (κ : Type) where
  /-- The key of the request. -/
  key : Nat
  /-- What the request asked for. -/
  graph : Graph κ
  handler : Handler κ
  /-- Whether the handler knows that the work was given out. -/
  dispatched : Bool

/-- How far a job has come. -/
inductive Phase where
  /-- It takes further requests. -/
  | queued
  /-- Its fetch is on the way or about to start.  `live` are the keys of the requests that still
  want the answer, and `fetch` is the fetch to abort when none is left. -/
  | inFlight (live : List Nat) (fetch : Option Nat)
  /-- It was delivered, or its last request was cancelled. -/
  | settled
deriving DecidableEq, Repr

namespace Phase

/-- Whether a fetch is wanted that was not answered yet. -/
def isInFlight : Phase → Bool
  | inFlight _ _ => true
  | _ => false

/-- Whether a request of this key is among those that still want the answer. -/
def wants (key : Nat) : Phase → Bool
  | inFlight live _ => live.contains key
  | _ => false

/-- The fetch that was noted for an abort. -/
def fetch? : Phase → Option Nat
  | inFlight _ fetch => fetch
  | _ => none

end Phase

/-- The requests for one id within one window. -/
structure Job (κ : Type) where
  waiters : List (Waiter κ)
  phase : Phase

namespace Job

def empty : Job κ :=
  ⟨[], .queued⟩

/-- Whether a job takes further requests. -/
def isOpen (job : Job κ) : Bool :=
  job.phase == .queued

/-- Whether a job would start a fetch if the window were closed. -/
def isPending (job : Job κ) : Bool :=
  job.isOpen && !job.waiters.isEmpty

def push (job : Job κ) (waiter : Waiter κ) : Job κ :=
  { job with waiters := job.waiters ++ [waiter] }

def keys (job : Job κ) : List Nat :=
  job.waiters.map (·.key)

/-- The union of what the requests in a job asked for. -/
def union (kind : κ) (job : Job κ) : Graph κ :=
  (job.waiters.foldl (fun builder waiter => builder.merge waiter.graph) (.empty kind) :
    Graph.Builder κ).build

def waiter? (job : Job κ) (key : Nat) : Option (Waiter κ) :=
  job.waiters.find? fun waiter => waiter.key == key

def without (job : Job κ) (key : Nat) : List (Waiter κ) :=
  job.waiters.filter fun waiter => !(waiter.key == key)

/-- Takes a request out of a job.  Gives the job without it and the waiter to be told; there is
none while the handlers are being told that the work was given out, and the job finds out when it
takes its waiters back.  A job whose last request is taken out is settled.  Gives nothing if the
request is not there any more. -/
def withdraw (job : Job κ) (key : Nat) : Option (Job κ × Option (Waiter κ)) :=
  match job.phase with
  | .queued =>
    match job.waiter? key with
    | none => none
    | some waiter =>
      let rest := job.without key
      some (⟨rest, if rest.isEmpty then .settled else .queued⟩, some waiter)
  | .inFlight live fetch =>
    if live.contains key then
      let rest := live.filter fun other => !(other == key)
      some (⟨job.without key, if rest.isEmpty then .settled else .inFlight rest fetch⟩,
        job.waiter? key)
    else none
  | .settled => none

end Job

end PartialEntity.Batch
