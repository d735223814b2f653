import PackagedTask.Library.LittleEndian
import PackagedTask.Library.StateError
import PackagedTask.Library.Iteration
import PackagedTask.Library.LastIndex
import PackagedTask.Library.Tables
import PackagedTask.Library.Runs
import PackagedTask.Library.PortGraph
import PackagedTask.Library.FileStream
import PackagedTask.Library.Packed
import PackagedTask.Streams.Memory
import PackagedTask.Streams.Bounds
import PackagedTask.Streams.Values
import PackagedTask.Streams.Buffers
import PackagedTask.Streams.Moving
import PackagedTask.Streams.StreamStore
import PackagedTask.Streams.Renewing
import PackagedTask.Streams.Copying
import PackagedTask.Streams.Filling
import PackagedTask.Network.Connection
import PackagedTask.Network.Handing
import PackagedTask.Network.Connections
import PackagedTask.Network.Isolation
import PackagedTask.Tasks.ThreadPool
import PackagedTask.Events.SpecEvent
import PackagedTask.Events.EventSystem
import PackagedTask.Events.Delivery
import PackagedTask.Objects.Store
import PackagedTask.Objects.Frame
import PackagedTask.Objects.Handles
import PackagedTask.Objects.Registry
import PackagedTask.Objects.Messages
import PackagedTask.Objects.Records
import PackagedTask.Objects.Loading
import PackagedTask.Objects.Wire
import PackagedTask.Objects.Registration
import PackagedTask.Objects.Linking
import PackagedTask.Objects.Graph
import PackagedTask.Objects.Ownership
import PackagedTask.Objects.Acceptance
import PackagedTask.Objects.Serialization
import PackagedTask.Objects.Merge
import PackagedTask.Objects.Failure
import PackagedTask.Objects.RoundTrip
import PackagedTask.Objects.Histories
import PackagedTask.Objects.Sweeping
import PackagedTask.Objects.Lifetimes
import PackagedTask.Objects.Adoption
import PackagedTask.Objects.Termination
import PackagedTask.Objects.Typing
import PackagedTask.Archive.Headers
import PackagedTask.Archive.FileSystem
import PackagedTask.Archive.Layout
import PackagedTask.Archive.Indexing
import PackagedTask.Archive.Loading
import PackagedTask.Archive.Packing
import PackagedTask.Archive.Appending
import PackagedTask.Network.Exceptions
import PackagedTask.Archive.Walking
import PackagedTask.Archive.Foreign
import PackagedTask.Archive.Exactness
import PackagedTask.Archive.Agreement
import PackagedTask.Archive.Following
import PackagedTask.Events.Slots
import PackagedTask.Objects.Completeness
import PackagedTask.Objects.Deletion
import PackagedTask.Objects.Accesses
import PackagedTask.Objects.Exhaustion
import PackagedTask.Archive.Files
import PackagedTask.Archive.Limits
import PackagedTask.Archive.Growing
import PackagedTask.Archive.Truncation
import PackagedTask.Archive.Construction
import PackagedTask.Archive.Caching
import PackagedTask.Archive.Roots
import PackagedTask.Archive.Searching
import PackagedTask.Archive.Stamps
import PackagedTask.Objects.Subtyping
import PackagedTask.Archive.Membership
import PackagedTask.Archive.Damage
import PackagedTask.Archive.CutReads
import PackagedTask.Archive.CutDirectories
import PackagedTask.Archive.Leftovers
import PackagedTask.Objects.Programs
import PackagedTask.Objects.Managers
import PackagedTask.Objects.Coverage
import PackagedTask.Objects.Casting
import PackagedTask.Objects.Dispatch
import PackagedTask.Objects.Reloading
import PackagedTask.Objects.Generations
import PackagedTask.Objects.Dumping
import PackagedTask.Network.Receiving
import PackagedTask.Network.Timing
import PackagedTask.Library.Threads
import PackagedTask.Library.Simulation
import PackagedTask.Tasks.Lifetime
import PackagedTask.Tasks.Shutdown
import PackagedTask.Events.Outcomes
import PackagedTask.Events.Concurrent
import PackagedTask.Events.Exclusion
import PackagedTask.Events.Linearizable
import PackagedTask.Events.Dispatching
import PackagedTask.Events.Progress
import PackagedTask.Archive.Holdings
import PackagedTask.Objects.Names
import PackagedTask.Network.Frames
import PackagedTask.Objects.Sharing
import PackagedTask.Objects.Counts
import PackagedTask.Objects.Serving
import PackagedTask.Objects.Linearization
import PackagedTask.Objects.Collecting
import PackagedTask.Objects.Returning
import PackagedTask.Objects.Sequential
import PackagedTask.Modules.Module
import PackagedTask.Modules.Lifecycle
