import SqlBatch.Batch.Execute
import SqlBatch.Connection.Scripted
import SqlBatch.Embedded.Connection
import SqlBatch.Json.Reader
import SqlBatch.Proofs.Batch.Atomic
import SqlBatch.Proofs.Script.Boundary
import SqlBatch.Proofs.Script.Cover
import SqlBatch.Proofs.Script.Placement
import SqlBatch.Proofs.Batch.Scope
import SqlBatch.Proofs.Connection.Scope
import SqlBatch.Proofs.Batch.Course
import SqlBatch.Proofs.Script.Hidden
import SqlBatch.Proofs.Script.Seam
import SqlBatch.Proofs.Script.Moved
import SqlBatch.Proofs.Script.Composition
import SqlBatch.Proofs.Placeholder.Tokens
import SqlBatch.Proofs.Placeholder.Masked
import SqlBatch.Proofs.Placeholder.Single
import SqlBatch.Proofs.Placeholder.InScript
import SqlBatch.Proofs.Batch.Unfinished
import SqlBatch.Proofs.Script.Directive
import SqlBatch.Proofs.Script.Excerpt
import SqlBatch.Proofs.Script.Idempotent
import SqlBatch.Proofs.Batch.Mirrored
import SqlBatch.Proofs.Embedded.Settings
import SqlBatch.Proofs.Placeholder.Numbered
import SqlBatch.Proofs.Batch.Sent
import SqlBatch.Proofs.Script.Blanked
import SqlBatch.Proofs.Script.Uncommented
import SqlBatch.Proofs.Script.Closed
import SqlBatch.Proofs.Script.Rejoined
import SqlBatch.Proofs.Script.Lexis
import SqlBatch.Proofs.Script.Strict
import SqlBatch.Proofs.Batch.Unfit
import SqlBatch.Proofs.Batch.Partition
import SqlBatch.Proofs.Embedded.Client
import SqlBatch.Proofs.Embedded.Transactions
import SqlBatch.Proofs.Placeholder.Positions
import SqlBatch.Proofs.Placeholder.Alike
import SqlBatch.Proofs.Script.Depth
import SqlBatch.Proofs.Script.Nested
import SqlBatch.Proofs.Script.Lookahead
import SqlBatch.Proofs.Script.Reported
import SqlBatch.Proofs.Script.Quoted
import SqlBatch.Proofs.Script.Facing
import SqlBatch.Proofs.Placeholder.Renamed
import SqlBatch.Proofs.Script.Comment
import SqlBatch.Proofs.Embedded.Binding
import SqlBatch.Proofs.Batch.FailedCall
import SqlBatch.Proofs.Embedded.Detail
