import MbxCache.Foundation.Program
import MbxCache.Foundation.Concurrent
import MbxCache.Foundation.Json
import MbxCache.Foundation.Encoding
import MbxCache.Protocol
import MbxCache.Model
import MbxCache.Crates
import MbxCache.Pack.Reader
import MbxCache.Pack.Encoding
import MbxCache.Pack.Chunking
import MbxCache.Metadata.Store
import MbxCache.Metadata.Memory
import MbxCache.Server.Api
import MbxCache.Server.Auth
import MbxCache.Server.Operations
import MbxCache.Server.Upload
import MbxCache.Server.Download
import MbxCache.Server.Results
import MbxCache.Server.Router
import MbxCache.Server.Stores
import MbxCache.Server.Invariant
import MbxCache.Server.Guarantees
import MbxCache.Server.Alone
import MbxCache.Server.Runs
import MbxCache.Server.PackReceive
import MbxCache.Server.PackRoundTrip
import MbxCache.Foundation.Simulation
import MbxCache.Foundation.Table
import MbxCache.Metadata.Spec
import MbxCache.Metadata.Database
import MbxCache.Metadata.Equivalence
import MbxCache.Foundation.Components
import MbxCache.Server.Namespaces
import MbxCache.Server.Configuration
import MbxCache.Foundation.Shuffled
import MbxCache.Server.Authorization
import MbxCache.Server.ConfigurationOrder
import MbxCache.Foundation.Effects
import MbxCache.Server.Refusals
import MbxCache.Metadata.Sweep
import MbxCache.Server.Lifecycle
import MbxCache.Foundation.ReadAhead
import MbxCache.Server.PackStream
import MbxCache.Server.PackExpiry
import MbxCache.Foundation.Machine
import MbxCache.Server.Keys
import MbxCache.Server.KeyRefresh
import MbxCache.Foundation.DepthFirst
import MbxCache.Server.Tree
import MbxCache.Foundation.Layout
import MbxCache.Server.Layout
import MbxCache.Foundation.Linearizable
import MbxCache.Metadata.Commits
import MbxCache.Foundation.CompareAndSet
import MbxCache.Server.Merging
import MbxCache.Server.Paths
import MbxCache.Server.Batches
import MbxCache.Metrics
import MbxCache.Server.PackTelemetry
import MbxCache.Foundation.Disk
import MbxCache.Storage.Filesystem
import MbxCache.Foundation.PutIfAbsent
import MbxCache.Storage.FilesystemRuns
import MbxCache.Storage.Azure
import MbxCache.Storage.AzureRuns
import MbxCache.Pack.Words
import MbxCache.Foundation.Deserialize
import MbxCache.Schemas
import MbxCache.Server.Descriptors
import MbxCache.Foundation.JsonText
import MbxCache.Foundation.JsonOrder
import MbxCache.Server.Canonical
import MbxCache.Foundation.Later
import MbxCache.Foundation.Refinement
import MbxCache.Server.Deployment
import MbxCache.Server.ReadYourWrites
import MbxCache.Server.InternalErrors
import MbxCache.Foundation.Noninterference
import MbxCache.Server.Noninterference
import MbxCache.Foundation.Deletions
import MbxCache.Foundation.Background
import MbxCache.Metadata.Transactions
import MbxCache.Server.Calls
import MbxCache.Server.Sweeping
import MbxCache.Foundation.Monitor
import MbxCache.Pack.Starts
import MbxCache.Server.Budget
import MbxCache.Server.Capabilities
import MbxCache.Server.Restore
import MbxCache.Storage.S3
import MbxCache.Metadata.Access
import MbxCache.Server.Acceptance
