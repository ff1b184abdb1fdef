import PartialEntity.Entity.Basic
import PartialEntity.Graph.Basic

/-!
# Handlers of requests

Whoever asks a batcher for an entity leaves a handler with the request.  The handler is called at
the moments of the request's life, and may cancel requests and make new ones whenever it is called.
A handler is given here as the list of what it does and when; what it is told is kept by the
batcher, so a handler does not have to remember it.
-/

namespace PartialEntity.Batch

variable {κ : Type}

/-- How a request can end. -/
inductive Outcome (κ : Type) where
  /-- With the entity, or with the news that there is none. -/
  | success (value : Option (Entity κ))
  | failed (error : Error)
  | cancelled

def Outcome.name : Outcome κ → String
  | success _ => "success"
  | failed _ => "failed"
  | cancelled => "cancelled"

/-- The moments at which a handler is called. -/
inductive Moment where
  /-- The request is about to be queued. -/
  | pre
  /-- The work behind the request was given out. -/
  | post
  | success
  | fail
  | cancel
  /-- A success or a failure was delivered. -/
  | finish
  /-- Nothing comes after this. -/
  | destroy
deriving DecidableEq, Repr

/-- A call of a handler, with what the handler is told. -/
inductive Callback (κ : Type) where
  | pre
  | post
  | success (value : Option (Entity κ))
  | fail (error : Error)
  | cancel
  | finish
  | destroy

namespace Callback

def moment : Callback κ → Moment
  | pre => .pre
  | post => .post
  | success _ => .success
  | fail _ => .fail
  | cancel => .cancel
  | finish => .finish
  | destroy => .destroy

/-- The outcome that a call announces, if it is one that does. -/
def outcome? : Callback κ → Option (Outcome κ)
  | success value => some (.success value)
  | fail error => some (.failed error)
  | cancel => some .cancelled
  | _ => none

end Callback

/-- What a handler does when it is called. -/
inductive Reaction (κ : Type) where
  /-- It cancels a request, its own or another. -/
  | cancel (key : Nat)
  /-- It makes a request, with a handler of its own. -/
  | submit (id : Nat) (graph : Graph κ) (handler : List (Moment × Reaction κ))

/-- A handler: what it does, each item with its moment, in order. -/
abbrev Handler (κ : Type) :=
  List (Moment × Reaction κ)

namespace Handler

def reactions (handler : Handler κ) (moment : Moment) : List (Reaction κ) :=
  (handler.filter fun entry => entry.1 == moment).map (·.2)

end Handler

end PartialEntity.Batch
