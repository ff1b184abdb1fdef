import PartialEntity.Batch.Progress
import PartialEntity.Batch.Schedule
import PartialEntity.Cache.Consult
import PartialEntity.Cache.Read
import PartialEntity.Derive.Instance
import PartialEntity.Directory
import PartialEntity.Error.Outline
import PartialEntity.Graph.Builder
import PartialEntity.Graph.Document
import PartialEntity.Harbor.Samples
import PartialEntity.Proofs.Assoc
import PartialEntity.Proofs.FieldSet
import PartialEntity.Proofs.Tree.Traversal
import PartialEntity.Proofs.Tree.Order
import PartialEntity.Proofs.Tree.Canonical
import PartialEntity.Proofs.Graph.Selection
import PartialEntity.Proofs.Graph.WellFormed
import PartialEntity.Proofs.Entity.Recursion
import PartialEntity.Proofs.Entity.Restrict
import PartialEntity.Proofs.Catalog
import PartialEntity.Proofs.Entity.Clone
import PartialEntity.Proofs.Entity.Missing
import PartialEntity.Proofs.Entity.Change
import PartialEntity.Proofs.Entity.Intersect
import PartialEntity.Proofs.Entity.Extend
import PartialEntity.Proofs.Entity.Answer
import PartialEntity.Proofs.Cache.Run
import PartialEntity.Proofs.Entity.Pull
import PartialEntity.Proofs.Cache.Projection
import PartialEntity.Proofs.Cache.Transparency
import PartialEntity.Proofs.Entity.Lawful
import PartialEntity.Proofs.Entity.Flat
import PartialEntity.Proofs.Entity.Frame
import PartialEntity.Proofs.Cache.Storage
import PartialEntity.Proofs.Cache.WriteBack
import PartialEntity.Proofs.Batch.Keeping
import PartialEntity.Proofs.Batch.Stage
import PartialEntity.Proofs.Batch.History
import PartialEntity.Proofs.Batch.Lifecycle
import PartialEntity.Proofs.Batch.Window
import PartialEntity.Proofs.Graph.Union
import PartialEntity.Proofs.Entity.Coverage
import PartialEntity.Proofs.Entity.Completion
import PartialEntity.Proofs.Entity.Readings
import PartialEntity.Proofs.Entity.Composition
import PartialEntity.Proofs.Harbor.Records
import PartialEntity.Proofs.Batch.Queueing
import PartialEntity.Proofs.Batch.Origin
import PartialEntity.Proofs.Batch.Requests
import PartialEntity.Proofs.Batch.Departure
import PartialEntity.Proofs.Batch.Agenda
import PartialEntity.Proofs.Batch.Settling
import PartialEntity.Proofs.Batch.Run
import PartialEntity.Proofs.Batch.Coalescing
import PartialEntity.Proofs.Batch.Delivery
import PartialEntity.Proofs.Graph.Levels
import PartialEntity.Proofs.Graph.Grammar
import PartialEntity.Proofs.Graph.Construction
import PartialEntity.Proofs.Graph.Algebra
import PartialEntity.Proofs.Derive.Names
import PartialEntity.Proofs.Graph.RoundTrip
import PartialEntity.Proofs.Cache.Entries
import PartialEntity.Proofs.Tree.Visits
import PartialEntity.Proofs.Entity.Typing
import PartialEntity.Proofs.Entity.Narrowing
import PartialEntity.Proofs.Cache.Typing
import PartialEntity.Proofs.Cache.Exact
import PartialEntity.Proofs.Cache.Monotone
import PartialEntity.Proofs.Entity.Merge
import PartialEntity.Proofs.Cache.Contents
import PartialEntity.Proofs.Cache.Refinement
import PartialEntity.Proofs.Entity.Gap
import PartialEntity.Proofs.Entity.Narrowed
import PartialEntity.Proofs.Entity.Interruption
import PartialEntity.Proofs.Derive.Acceptance
import PartialEntity.Proofs.Derive.Generated
import PartialEntity.Proofs.Graph.Steps
import PartialEntity.Proofs.Graph.Stops
import PartialEntity.Proofs.Batch.Shortfall
import PartialEntity.Proofs.Batch.Wanted
import PartialEntity.Proofs.Batch.Renounced
import PartialEntity.Proofs.Batch.Cancelling
import PartialEntity.Proofs.Graph.Representation
import PartialEntity.Proofs.Cache.Arrival
import PartialEntity.Proofs.Tree.Laws
import PartialEntity.Proofs.Entity.Cleanliness
import PartialEntity.Proofs.Error.Context
import PartialEntity.Proofs.FieldSet.Store
import PartialEntity.Proofs.FieldSet.History
import PartialEntity.Proofs.Entity.FullCopy
