import GraphMapping.Calendar.Date
import GraphMapping.Calendar.DateTime
import GraphMapping.Calendar.Rfc3339
import GraphMapping.Connection.Basic
import GraphMapping.Connection.Bolt
import GraphMapping.Connection.Constraint
import GraphMapping.Connection.Result
import GraphMapping.Decimal.Binary
import GraphMapping.Decimal.Layout
import GraphMapping.Decimal.Read
import GraphMapping.Decimal.Shortest
import GraphMapping.Dict
import GraphMapping.Entity.Basic
import GraphMapping.Entity.Key
import GraphMapping.Entity.Labels
import GraphMapping.Entity.Store
import GraphMapping.Error
import GraphMapping.Json.Number
import GraphMapping.Json.Reader
import GraphMapping.Json.Result
import GraphMapping.Json.Writer
import GraphMapping.Lifecycle.Hooks
import GraphMapping.Lifecycle.Phase
import GraphMapping.Mapper.Basic
import GraphMapping.Mapper.Loading
import GraphMapping.Offer
import GraphMapping.Property.Bag
import GraphMapping.Property.Basic
import GraphMapping.Property.Kind
import GraphMapping.Schema
import GraphMapping.Settings
import GraphMapping.Statement.Basic
import GraphMapping.Statement.Clause
import GraphMapping.Statement.Delete
import GraphMapping.Statement.Identifier
import GraphMapping.Statement.Lookup
import GraphMapping.Statement.Names
import GraphMapping.Statement.Save
import GraphMapping.Statement.Traversal
import GraphMapping.Text.Blank
import GraphMapping.Text.CaseTable
import GraphMapping.Text.Lowercase
import GraphMapping.Value
import GraphMapping.Work.Basic
import GraphMapping.Work.Flush
import GraphMapping.Work.Obligation
import GraphMapping.Work.Preview
import GraphMapping.Proofs.Work.Requests
import GraphMapping.Proofs.Work.Accounting
import GraphMapping.Proofs.Work.Scheduling
import GraphMapping.Proofs.Statement.ParamNames
import GraphMapping.Proofs.Dict
import GraphMapping.Proofs.Property.Slots
import GraphMapping.Proofs.Property.Tracking
import GraphMapping.Proofs.Statement.Parts
import GraphMapping.Proofs.Statement.SaveSteps
import GraphMapping.Proofs.Statement.SaveBatch
import GraphMapping.Proofs.Statement.Updates
import GraphMapping.Proofs.Statement.Drawing
import GraphMapping.Proofs.Statement.Creation
import GraphMapping.Proofs.Statement.Scanner
import GraphMapping.Proofs.Statement.ClauseText
import GraphMapping.Proofs.Statement.DeleteBatch
import GraphMapping.Proofs.Statement.TraversalText
import GraphMapping.Proofs.Statement.Placeholders
import GraphMapping.Proofs.Work.Targets
import GraphMapping.Proofs.Work.FlushSteps
import GraphMapping.Proofs.Work.RequestNames
import GraphMapping.Proofs.Mapper.Delivery
import GraphMapping.Proofs.Mapper.Readings
import GraphMapping.Proofs.Mapper.IdentityMap
import GraphMapping.Proofs.Mapper.Actions
import GraphMapping.Proofs.Work.Replay
import GraphMapping.Proofs.Mapper.Isolation
import GraphMapping.Proofs.Statement.Shapes
import GraphMapping.Proofs.Statement.Values
import GraphMapping.Proofs.Lifecycle.Restraint
import GraphMapping.Proofs.Work.Evolution
import GraphMapping.Proofs.Work.Executions
import GraphMapping.Proofs.Work.Restoration
import GraphMapping.Proofs.Except
import GraphMapping.Proofs.Connection.Columns
import GraphMapping.Proofs.Statement.Composing
import GraphMapping.Proofs.Entity.Settled
import GraphMapping.Proofs.Entity.Reloading
import GraphMapping.Proofs.Entity.Schemas
import GraphMapping.Proofs.Entity.TypeNames
import GraphMapping.Proofs.Statement.Matching
import GraphMapping.Proofs.Work.Settling
import GraphMapping.Proofs.Work.Course
import GraphMapping.Proofs.Mapper.Settlement
import GraphMapping.Proofs.Mapper.Failure
import GraphMapping.Proofs.Mapper.Creations
import GraphMapping.Proofs.Mapper.Deletions
import GraphMapping.Proofs.Work.Turns
import GraphMapping.Proofs.Work.Identity
import GraphMapping.Proofs.Mapper.Identity
import GraphMapping.Proofs.Lifecycle.Calls
import GraphMapping.Proofs.Work.Journal
import GraphMapping.Proofs.Work.Report
import GraphMapping.Proofs.Mapper.Trace
import GraphMapping.Proofs.Statement.Locality
import GraphMapping.Proofs.Work.Forecast
import GraphMapping.Proofs.Mapper.Forecast
import GraphMapping.Proofs.Mapper.Loading
import GraphMapping.Proofs.Mapper.Queries
import GraphMapping.Proofs.Mapper.Adoption
import GraphMapping.Proofs.Mapper.Recognition
import GraphMapping.Proofs.Property.Snapshots
import GraphMapping.Proofs.Entity.Cleanness
import GraphMapping.Proofs.Entity.Removals
import GraphMapping.Proofs.Statement.Assignments
import GraphMapping.Proofs.Property.Batches
import GraphMapping.Proofs.Lifecycle.Dispatch
import GraphMapping.Proofs.Statement.DeleteTargets
import GraphMapping.Proofs.Statement.Acceptance
import GraphMapping.Proofs.Text.Trimming
import GraphMapping.Proofs.Lifecycle.Registry
import GraphMapping.Proofs.Connection.Violations
import GraphMapping.Proofs.Connection.Classification
import GraphMapping.Proofs.Text.Runs
import GraphMapping.Proofs.Statement.Posing
import GraphMapping.Proofs.Statement.Quoting
import GraphMapping.Proofs.Connection.Boundary
import GraphMapping.Proofs.Json.Scalars
import GraphMapping.Proofs.Json.RoundTrip
import GraphMapping.Proofs.Decimal.Closest
import GraphMapping.Proofs.Decimal.Words
import GraphMapping.Proofs.Decimal.Rounding
import GraphMapping.Proofs.Decimal.Nearest
import GraphMapping.Proofs.Property.IntegerText
import GraphMapping.Proofs.Property.EpochSeconds
import GraphMapping.Proofs.Property.StoredTimes
import GraphMapping.Proofs.Work.Refreshes
import GraphMapping.Proofs.Mapper.StoredTimes
