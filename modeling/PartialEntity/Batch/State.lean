import PartialEntity.Assoc
import PartialEntity.Batch.Job
import PartialEntity.Entity.Describe
import PartialEntity.Graph.Printer

/-!
# The state of a batcher

A batcher knows its requests by their keys, counted from zero, and its jobs and fetches by their
numbers.  All that handlers were told and did, and all that is worth a line in a log, is kept in
one history.

Work is done in small instructions.  Calling a handler may bring on further work, which comes
before everything that was waiting; so the instructions form a stack, the agenda.  Between two
operations the agenda is empty.
-/

namespace PartialEntity.Batch

variable {κ : Type}

/-- Where a request stands.  Once it has left `pending` it never changes again. -/
inductive Standing where
  | pending
  /-- A result was delivered. -/
  | settled
  | cancelled
deriving DecidableEq, Repr

def Standing.name : Standing → String
  | pending => "pending"
  | settled => "settled"
  | cancelled => "cancelled"

/-- A request as whoever made it holds on to it. -/
structure Request where
  standing : Standing
  /-- The job that the request waits in; none as long as it was not queued. -/
  job : Option Nat
deriving DecidableEq, Repr

namespace Request

def fresh : Request :=
  ⟨.pending, none⟩

/-- Moves a pending request on. -/
def mark (standing : Standing) (request : Request) : Request :=
  if request.standing = .pending then { request with standing } else request

def describe (key : Nat) (request : Request) : String :=
  "Request \x7b key: " ++ toString key ++ ", state: " ++ Text.quote request.standing.name ++ " \x7d"

end Request

/-- A fetch that was started and has not ended. -/
structure Fetch (κ : Type) where
  job : Nat
  id : Nat
  graph : Graph κ
  /-- Whether nobody wants its answer any more. -/
  aborted : Bool

/-- One thing that happened in a batcher. -/
inductive Occurrence (κ : Type) where
  /-- The handler of a request was called. -/
  | called (key : Nat) (callback : Callback κ)
  /-- The handler of `key` has tried to cancel `target`.  The result says whether that has
  withdrawn it; there is none if nothing of that key was requested so far. -/
  | tried (key target : Nat) (result : Option Bool)
  /-- A window was closed over `count` requests for an id, and `graph` is fetched for them. -/
  | fetching (id : Nat) (graph : Graph κ) (count : Nat)
  /-- The answer of a fetch reaches a request with this outcome. -/
  | delivering (key : Nat) (outcome : String)
  /-- A request was told its outcome. -/
  | settled (key : Nat)
  /-- The work behind a request was dropped before the request had an outcome. -/
  | dropped (key : Nat)

/-- One piece of work. -/
inductive Instruction (κ : Type) where
  /-- Calls the handler of a request. -/
  | call (key : Nat) (handler : Handler κ) (callback : Callback κ)
  /-- Does what the handler of a request wants done. -/
  | react (key : Nat) (reaction : Reaction κ)
  /-- Adds to the history. -/
  | note (occurrence : Occurrence κ)
  /-- Moves a request on. -/
  | mark (key : Nat) (standing : Standing)
  /-- Puts a request into the queue. -/
  | enqueue (key id : Nat) (graph : Graph κ) (handler : Handler κ)
  /-- Sends a job of a closed window in flight. -/
  | flush (id job : Nat)
  /-- Gives a job its waiters back after their handlers were told that the work was given out. -/
  | restore (id job : Nat) (graph : Graph κ) (waiters : List (Waiter κ))
  /-- Starts the fetch of a job. -/
  | launch (id job : Nat) (graph : Graph κ)
  /-- Forgets a fetch and what only it has kept. -/
  | endFetch (fetch : Nat)
  /-- Forgets a job. -/
  | dropJob (job : Nat)

end PartialEntity.Batch

namespace PartialEntity

open Batch

/-- Requests, the window that is open for them, and the fetches under way. -/
structure Batcher (κ : Type) where
  kind : κ
  /-- The requests by key. -/
  requests : List Request
  /-- The open window: ids with the numbers of their jobs.  Their order has no meaning and can
  change at any time. -/
  queue : List (Nat × Nat)
  /-- The jobs that something still refers to. -/
  jobs : List (Nat × Job κ)
  /-- The number of the next job. -/
  nextJob : Nat
  /-- The fetches under way. -/
  fetches : List (Nat × Fetch κ)
  /-- The number of the next fetch. -/
  nextFetch : Nat
  /-- Whether the batcher can still be used.  The fetches of a batcher that was dropped go on, and
  its window is kept until the last of them has ended. -/
  isOpen : Bool
  /-- The work to be done, the next first. -/
  agenda : List (Instruction κ)
  /-- What has happened, in order. -/
  history : List (Occurrence κ)

namespace Batcher

variable {κ : Type}

def empty (kind : κ) : Batcher κ :=
  ⟨kind, [], [], [], 0, [], 0, true, [], []⟩

/-! ## Queries -/

def standing? (batcher : Batcher κ) (key : Nat) : Option Standing :=
  batcher.requests[key]?.map (·.standing)

/-- A job that is not forgotten. -/
def job? (batcher : Batcher κ) (number : Nat) : Option (Job κ) :=
  Assoc.find? number batcher.jobs

def fetch? (batcher : Batcher κ) (number : Nat) : Option (Fetch κ) :=
  Assoc.find? number batcher.fetches

/-- How many fetches would start if the window were closed. -/
def pendingJobs (batcher : Batcher κ) : Nat :=
  (batcher.queue.filter fun entry => (batcher.job? entry.2).any Job.isPending).length

/-- What the handler of a request was told so far. -/
def callbacks (batcher : Batcher κ) (key : Nat) : List (Callback κ) :=
  batcher.history.filterMap fun
    | .called other callback => if other = key then some callback else none
    | _ => none

/-- How a request has ended, once its handler was told. -/
def outcome? (batcher : Batcher κ) (key : Nat) : Option (Outcome κ) :=
  (batcher.callbacks key).findSome? Callback.outcome?

/-! ## Updates -/

def note (occurrence : Occurrence κ) (batcher : Batcher κ) : Batcher κ :=
  { batcher with history := batcher.history ++ [occurrence] }

/-- Puts work in front of the agenda. -/
def push (work : List (Instruction κ)) (batcher : Batcher κ) : Batcher κ :=
  { batcher with agenda := work ++ batcher.agenda }

def changeRequest (key : Nat) (change : Request → Request) (batcher : Batcher κ) : Batcher κ :=
  { batcher with requests := batcher.requests.modify key change }

def setJob (number : Nat) (job : Job κ) (batcher : Batcher κ) : Batcher κ :=
  { batcher with jobs := Assoc.insert number job batcher.jobs }

/-- Marks a fetch as unwanted. -/
def abort (number : Nat) (batcher : Batcher κ) : Batcher κ :=
  match batcher.fetch? number with
  | some fetch =>
    { batcher with fetches := Assoc.insert number { fetch with aborted := true } batcher.fetches }
  | none => batcher

end Batcher

namespace Batch.Occurrence

variable {κ : Type} [Catalog κ]

/-- The line that an occurrence leaves in a log, if it leaves one. -/
def line? (kind : κ) : Occurrence κ → Option String
  | called _ _ | tried _ _ _ => none
  | fetching id graph count =>
    some ("DEBUG fetching " ++ Entity.label kind id ++ " with \x7b" ++ graph.render ++
      "\x7d for " ++ toString count ++ " request(s)")
  | delivering key outcome =>
    some ("TRACE delivering request " ++ toString key ++ " (" ++ outcome ++ ")")
  | settled key => some ("TRACE request " ++ toString key ++ " settled")
  | dropped key =>
    some ("DEBUG request " ++ toString key ++
      " dropped before it settled; reporting it cancelled")

end Batch.Occurrence

end PartialEntity
