import RGit.Lib.Result
import RGit.Lib.Lists
import RGit.Lib.Words
import RGit.Lib.Loops
import RGit.Lib.Maps
import RGit.Lib.Worklist
import RGit.Lib.Search
import RGit.Lib.Versioned
import RGit.Lib.Matching
import RGit.Lib.Chunking
import RGit.Lib.Topological
import RGit.Lib.PostOrder
import RGit.Lib.Grouping
import RGit.Lib.Hunks
import RGit.Lib.Seams
import RGit.Lib.Lines
import RGit.Lib.Leb128
import RGit.Lib.Stepwise
import RGit.Lib.FileTree
import RGit.Lib.Updates
import RGit.Lib.MapDiff
import RGit.Canonical.Value
import RGit.Canonical.RoundTrip
import RGit.Canonical.Raw
import RGit.Canonical.Canonicity
import RGit.Canonical.AtOnce
import RGit.Objects.Id
import RGit.Objects.Varint
import RGit.Objects.Cursor
import RGit.Objects.Types
import RGit.Objects.Path
import RGit.Objects.Typed
import RGit.Objects.Registry
import RGit.Objects.Decode
import RGit.Objects.Shapes
import RGit.Objects.Ordered
import RGit.Objects.Fields
import RGit.Objects.Express
import RGit.Objects.ExpressContent
import RGit.Objects.ExpressOperation
import RGit.Objects.ExpressRegistry
import RGit.Objects.ExpressEvidence
import RGit.Objects.ExpressIdentity
import RGit.Objects.Conformance
import RGit.Objects.Signing
import RGit.Objects.References
import RGit.Objects.Edges
import RGit.Objects.EdgeSets
import RGit.Objects.Admission
import RGit.Objects.Blobs
import RGit.Objects.Manifests
import RGit.Objects.Transitions
import RGit.Objects.Limits
import RGit.Objects.FastCdc
import RGit.Objects.Bootstrap
import RGit.Graph.Reachability
import RGit.Graph.Build
import RGit.Graph.Order
import RGit.Graph.Cycles
import RGit.Graph.Ancestors
import RGit.Graph.Tree
import RGit.Graph.Merge
import RGit.Graph.Resolutions
import RGit.Graph.Collisions
import RGit.Graph.Diff
import RGit.Store.Model
import RGit.Store.Memory
import RGit.Store.Declarations
import RGit.Store.Staging
import RGit.Store.Invariant
import RGit.Store.Concurrent
import RGit.Store.Binding
import RGit.Store.Bound
import RGit.Store.Lines
import RGit.Store.Ancestry
import RGit.Store.OperationLog
import RGit.Store.Loose
import RGit.Store.Frame
import RGit.Store.Tables
import RGit.Store.Sqlite
import RGit.Store.Mirror
import RGit.Store.Indexing
import RGit.Store.GraphTables
import RGit.Store.Transactions
import RGit.Store.OperationEdges
import RGit.Store.Reload
import RGit.Store.Statements
import RGit.Store.Quarantine
import RGit.Store.Parity
import RGit.Store.Closures
import RGit.Store.Actions
import RGit.Store.Bootstrap
import RGit.Merge.Model
import RGit.Merge.Plan
import RGit.Merge.Paths
import RGit.Merge.Rule
import RGit.Merge.Grouped
import RGit.Merge.Laws
import RGit.Merge.Text
import RGit.Merge.TextMerge
import RGit.Merge.Lines
import RGit.Merge.Records
import RGit.Merge.Access
import RGit.Merge.Ancestry
import RGit.Merge.Integrate
import RGit.Merge.Effects
import RGit.Merge.Conflicts
import RGit.Merge.Portable
import RGit.Merge.Resolved
import RGit.Merge.ValidGraph
import RGit.Merge.Bases
import RGit.Merge.Diff
import RGit.Git.Objects
import RGit.Repository.Ignore
import RGit.Repository.Scan
import RGit.Repository.Verify
import RGit.Git.Directories
import RGit.Git.TreeBytes
import RGit.Git.Trees
import RGit.Git.Import
import RGit.Git.Imported
import RGit.Git.History
import RGit.Cli.Transaction.Files
import RGit.Cli.Transaction.Plan
import RGit.Cli.Transaction.Publish
import RGit.Cli.Transaction.Leaves
import RGit.Cli.Transaction.Recover
import RGit.Cli.Transaction.Recovery
import RGit.Cli.Transaction.Commit
import RGit.Cli.Transaction.Checkout
import RGit.Cli.Transaction.Capture
