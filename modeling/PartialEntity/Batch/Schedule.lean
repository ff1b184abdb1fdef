import PartialEntity.Batch.Operation
import PartialEntity.Directory

/-!
# Fetches on one thread

A schedule runs the fetches of a batcher against a directory, one at a time.  A fetch asks the
directory first.  If the directory is gated it then waits for a permit; permits are used in the
order in which fetches came to the gate.

The thread looks for a fetch that can go on, again and again, and lets it go on.  Fetches that
became ready on the thread itself go before those that something beside it has woken, but at every
`fairness`-th look it is the other way round, so that neither can hold up the other for ever.
-/

namespace PartialEntity.Batch

variable {κ : Type}

/-- Where something happens that lets a fetch go on. -/
inductive Place where
  /-- On the thread of the fetches. -/
  | inside
  /-- Beside it. -/
  | outside
deriving DecidableEq, Repr

/-- A batcher, the directory that it fetches from, and the fetches under way. -/
structure Schedule (κ : Type) where
  batcher : Batcher κ
  directory : Directory κ
  /-- Whether an answer needs a permit. -/
  gated : Bool
  /-- The permits that are free. -/
  permits : Nat
  /-- The fetches that became ready on the thread, the next first. -/
  ready : List Nat
  /-- The fetches that were woken from beside it, the next first. -/
  woken : List Nat
  /-- The fetches at the gate, in order of arrival. -/
  waiting : List Nat
  /-- The fetches that were given a permit at the gate and have not gone on yet. -/
  admitted : List Nat
  /-- The fetches with a smaller number were made ready. -/
  seen : Nat
  /-- How many times the thread has looked for a fetch that can go on. -/
  looks : Nat
  /-- What the directory was asked for, in order. -/
  calls : List (Nat × Graph κ)

namespace Schedule

def ofDirectory (kind : κ) (directory : Directory κ) (gated : Bool) : Schedule κ :=
  ⟨.empty kind, directory, gated, 0, [], [], [], [], 0, 0, []⟩

/-! ## Waking -/

/-- Whether a fetch is going to go on. -/
def isReady (schedule : Schedule κ) (fetch : Nat) : Bool :=
  schedule.ready.contains fetch || schedule.woken.contains fetch

/-- Lets fetches go on that are not ready yet. -/
def wake (place : Place) (fetches : List Nat) (schedule : Schedule κ) : Schedule κ :=
  let fresh := fetches.filter fun fetch => !schedule.isReady fetch
  match place with
  | .inside => { schedule with ready := schedule.ready ++ fresh }
  | .outside => { schedule with woken := schedule.woken ++ fresh }

def isAborted (schedule : Schedule κ) (fetch : Nat) : Bool :=
  (schedule.batcher.fetch? fetch).any (·.aborted)

/-- Takes over a batcher after an operation.  Fetches that it has started can go on, and so can
those at the gate that it has aborted. -/
def follow (place : Place) (batcher : Batcher κ) (schedule : Schedule κ) : Schedule κ :=
  let after := { schedule with batcher, seen := batcher.nextFetch }
  let started := (List.range batcher.nextFetch).filter fun fetch => schedule.seen ≤ fetch
  after.wake place (started ++ after.waiting.filter after.isAborted)

/-! ## Looking -/

/-- Every so many looks the fetches that were woken from beside the thread come first. -/
def fairness : Nat := 31

/-- How many times the thread looks before it turns to something else. -/
def roundLength : Nat := 61

/-- How many times the thread turns to something else while it is left alone. -/
def rounds : Nat := 64

/-- The first fetch that became ready on the thread, and the schedule without it. -/
def nextReady? (schedule : Schedule κ) : Option (Nat × Schedule κ) :=
  schedule.ready.head?.map fun fetch => (fetch, { schedule with ready := schedule.ready.tail })

def nextWoken? (schedule : Schedule κ) : Option (Nat × Schedule κ) :=
  schedule.woken.head?.map fun fetch => (fetch, { schedule with woken := schedule.woken.tail })

/-- The next fetch that goes on, and the schedule without it. -/
def next? (schedule : Schedule κ) : Option (Nat × Schedule κ) :=
  if schedule.looks % fairness = 0 then schedule.nextWoken?.or schedule.nextReady?
  else schedule.nextReady?.or schedule.nextWoken?

/-! ## The gate -/

/-- Gives permits to the first fetches at the gate and keeps those that are left.  A directory
without a gate has no use for them. -/
def openGate (place : Place) (count : Nat) (schedule : Schedule κ) : Schedule κ :=
  if schedule.gated then
    let through := schedule.waiting.take count
    wake place through { schedule with
      waiting := schedule.waiting.drop count
      admitted := schedule.admitted ++ through
      permits := schedule.permits + (count - schedule.waiting.length) }
  else schedule

def ask (id : Nat) (graph : Graph κ) (schedule : Schedule κ) : Schedule κ :=
  { schedule with calls := schedule.calls ++ [(id, graph)] }

variable [DecidableEq κ] [Catalog κ]

/-! ## Progress -/

def perform (place : Place) (operation : Operation κ) (schedule : Schedule κ) : Schedule κ :=
  schedule.follow place (schedule.batcher.perform operation)

/-- Takes a fetch away from the gate and drops it.  A permit that it was given goes back. -/
def discard (number : Nat) (schedule : Schedule κ) : Schedule κ :=
  let away := { schedule with waiting := schedule.waiting.filter fun other => !(other == number) }
  let free :=
    if away.admitted.contains number then
      openGate .inside 1
        { away with admitted := away.admitted.filter fun other => !(other == number) }
    else away
  free.perform .inside (.dropFetch number)

/-- Lets a fetch go on until it ends or waits at the gate. -/
def advance (number : Nat) (schedule : Schedule κ) : Schedule κ :=
  match schedule.batcher.fetch? number with
  | none => schedule
  | some fetch =>
    let answered (schedule : Schedule κ) : Schedule κ :=
      schedule.perform .inside (.complete number (schedule.directory.answer fetch.id fetch.graph))
    if fetch.aborted then schedule.discard number
    else if schedule.admitted.contains number then
      answered { schedule with
        admitted := schedule.admitted.filter fun other => !(other == number) }
    else
      let asked := schedule.ask fetch.id fetch.graph
      if !asked.gated then answered asked
      else if 0 < asked.permits then answered { asked with permits := asked.permits - 1 }
      else { asked with waiting := asked.waiting ++ [number] }

/-- Looks for a fetch and lets it go on, at most `count` times and until there is none. -/
def round : Nat → Schedule κ → Schedule κ
  | 0, schedule => schedule
  | count + 1, schedule =>
    let looked := { schedule with looks := schedule.looks + 1 }
    match looked.next? with
    | none => looked
    | some (number, rest) => round count (rest.advance number)

/-- Leaves the thread alone, which is long enough for every fetch to end or to come to the gate
unless there are thousands. -/
def tick (schedule : Schedule κ) : Schedule κ :=
  Nat.repeat (round roundLength) rounds schedule

/-- Ends the thread and drops all fetches, in the order in which they were started.  Another thread
takes over. -/
def shutdown (schedule : Schedule κ) : Schedule κ :=
  let cleared := { schedule with
    permits := schedule.permits + schedule.admitted.length
    ready := []
    woken := []
    waiting := []
    admitted := []
    looks := 0 }
  schedule.batcher.fetches.foldl
    (fun schedule entry => schedule.perform .outside (.dropFetch entry.1)) cleared

/-- Asks the directory whether it has an entity, without the batcher.  At a gate this takes a
permit as well, whatever the answer is. -/
def exists? (id : Nat) (schedule : Schedule κ) : Except Error Bool × Schedule κ :=
  let asked := schedule.ask id (.none schedule.batcher.kind)
  (Resolver.exists? schedule.directory.answer schedule.batcher.kind id,
    { asked with permits := asked.permits - 1 })

end Schedule

end PartialEntity.Batch
