import DocStore.Client
import DocStore.Clock
import DocStore.Config
import DocStore.DatabaseId
import DocStore.Document.Aggregate
import DocStore.Document.Batch
import DocStore.Document.Diff
import DocStore.Document.Encode
import DocStore.Document.Reference
import DocStore.Document.Scope
import DocStore.Document.Snapshot
import DocStore.Document.Write
import DocStore.Double.Basic
import DocStore.Double.Reader
import DocStore.Double.Shortest
import DocStore.Error
import DocStore.Json.Basic
import DocStore.Json.Outline
import DocStore.Json.Reader
import DocStore.Json.Writer
import DocStore.Keyed
import DocStore.Log.Level
import DocStore.Log.Registry
import DocStore.Mutation.Batcher
import DocStore.Mutation.RecursiveDelete
import DocStore.Number.Digits
import DocStore.Number.Integer
import DocStore.Number.Power
import DocStore.OrderedId
import DocStore.Path.DocumentKey
import DocStore.Path.Field
import DocStore.Path.Resource
import DocStore.Proofs.Document.Cover
import DocStore.Proofs.Document.Diff
import DocStore.Proofs.Document.Dirty
import DocStore.Proofs.Document.Encode
import DocStore.Proofs.Document.Merge
import DocStore.Proofs.Document.Selection
import DocStore.Proofs.Document.Settled
import DocStore.Proofs.Document.Sum
import DocStore.Proofs.Document.Thinned
import DocStore.Proofs.Document.Update
import DocStore.Proofs.Double.Arithmetic
import DocStore.Proofs.Double.Number
import DocStore.Proofs.Double.ReadBack
import DocStore.Proofs.Double.Text
import DocStore.Proofs.Json.Number
import DocStore.Proofs.Json.Render
import DocStore.Proofs.Keyed
import DocStore.Proofs.Mutation.Applied
import DocStore.Proofs.Mutation.BulkDelete
import DocStore.Proofs.Mutation.Chunks
import DocStore.Proofs.Mutation.Course
import DocStore.Proofs.Mutation.RecursiveDelete
import DocStore.Proofs.Mutation.Walk
import DocStore.Proofs.Number.Integer
import DocStore.Proofs.OrderedId
import DocStore.Proofs.OrderedId.Order
import DocStore.Proofs.Outcome
import DocStore.Proofs.Path.DocumentKey
import DocStore.Proofs.Path.Field
import DocStore.Proofs.Path.Names
import DocStore.Proofs.Path.Range
import DocStore.Proofs.Path.Resource
import DocStore.Proofs.Query.Acceptance
import DocStore.Proofs.Query.Built
import DocStore.Proofs.Query.Columns
import DocStore.Proofs.Query.Compile
import DocStore.Proofs.Query.Evaluate
import DocStore.Proofs.Query.Last
import DocStore.Proofs.Query.Lists
import DocStore.Proofs.Query.Negation
import DocStore.Proofs.Query.Normal
import DocStore.Proofs.Query.Order
import DocStore.Proofs.Query.Pages
import DocStore.Proofs.Query.Parts
import DocStore.Proofs.Query.Scope
import DocStore.Proofs.Query.Shaped
import DocStore.Proofs.Query.Slice
import DocStore.Proofs.Query.Statement
import DocStore.Proofs.Session.Failure
import DocStore.Proofs.Session.Image
import DocStore.Proofs.Session.Model
import DocStore.Proofs.Session.Modified
import DocStore.Proofs.Session.Overlap
import DocStore.Proofs.Session.Pretend
import DocStore.Proofs.Session.Reading
import DocStore.Proofs.Session.Reductions
import DocStore.Proofs.Session.Run
import DocStore.Proofs.Session.Statement
import DocStore.Proofs.Session.Task
import DocStore.Proofs.Session.Unwritten
import DocStore.Proofs.Session.Update
import DocStore.Proofs.Sorting
import DocStore.Proofs.Store.Concurrent
import DocStore.Proofs.Store.Creation
import DocStore.Proofs.Store.Edits
import DocStore.Proofs.Store.History
import DocStore.Proofs.Store.Mask
import DocStore.Proofs.Store.Memory
import DocStore.Proofs.Store.Reads
import DocStore.Proofs.Store.Watched
import DocStore.Proofs.Text.Base64
import DocStore.Proofs.Text.Blank
import DocStore.Proofs.Text.Bytes
import DocStore.Proofs.Text.Percent
import DocStore.Proofs.Text.PrefixCode
import DocStore.Proofs.Time.Calendar
import DocStore.Proofs.Time.Timestamp
import DocStore.Proofs.Value.Access
import DocStore.Proofs.Value.Alike
import DocStore.Proofs.Value.Assign
import DocStore.Proofs.Value.Basic
import DocStore.Proofs.Value.Doubles
import DocStore.Proofs.Value.Ends
import DocStore.Proofs.Value.Extremes
import DocStore.Proofs.Value.Fields
import DocStore.Proofs.Value.JsonView
import DocStore.Proofs.Value.Order
import DocStore.Proofs.Value.Preorder
import DocStore.Proofs.Wire.FieldPath
import DocStore.Proofs.Wire.Names
import DocStore.Proofs.Wire.Operands
import DocStore.Proofs.Wire.Query
import DocStore.Proofs.Wire.Urls
import DocStore.Proofs.Wire.Value
import DocStore.Proofs.Wire.Write
import DocStore.Query.Builder
import DocStore.Query.Call
import DocStore.Query.Compile
import DocStore.Query.Evaluate
import DocStore.Query.Operator
import DocStore.Query.Predicate
import DocStore.Query.State
import DocStore.Query.Statement
import DocStore.Query.StoreQuery
import DocStore.Session.Connection
import DocStore.Session.Model
import DocStore.Session.Mutation
import DocStore.Session.Query
import DocStore.Sorting
import DocStore.Store.Datastore
import DocStore.Store.Http
import DocStore.Store.Memory
import DocStore.Store.Recording
import DocStore.Store.Script
import DocStore.Tagged.Basic
import DocStore.Tagged.Builder
import DocStore.Tagged.Document
import DocStore.Tagged.Error
import DocStore.Tagged.Path
import DocStore.Tagged.Query
import DocStore.Tagged.Request
import DocStore.Tagged.Value
import DocStore.Text.Base64
import DocStore.Text.Blank
import DocStore.Text.Escaped
import DocStore.Text.Invisible
import DocStore.Text.Percent
import DocStore.Text.Segments
import DocStore.Time.Calendar
import DocStore.Time.Timestamp
import DocStore.Value.Basic
import DocStore.Value.Fields
import DocStore.Value.JsonView
import DocStore.Value.Literal
import DocStore.Value.Order
import DocStore.Wire.Failure
import DocStore.Wire.FieldPath
import DocStore.Wire.Names
import DocStore.Wire.Query
import DocStore.Wire.Value
import DocStore.Wire.Write
