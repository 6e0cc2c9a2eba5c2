import Foton.Lib.Run
import Foton.Lib.ByteFile
import Foton.Region.Format
import Foton.Region.Alloc
import Foton.Lib.Async
import Foton.Region.File
import Foton.Region.Events
import Foton.Region.Steps
import Foton.Region.Crash
import Foton.Region.Commit
import Foton.Region.Accept
import Foton.Lib.LeastMap
import Foton.Lib.Tally
import Foton.Ticket.Level
import Foton.Ticket.Manager
import Foton.Ticket.Spread
import Foton.Ticket.Propagation
import Foton.Chunk.Basic
import Foton.Lib.OrderedSet
import Foton.Lib.PriorityQueue
import Foton.Tick.List
import Foton.Tick.Scheduler
import Foton.Tick.Collect
import Foton.Tick.Index
import Foton.Tick.Selection
import Foton.Tick.Batch
import Foton.Tick.Save
import Foton.Tick.Owed
import Foton.Tick.Snapshot
import Foton.Palette.Container
import Foton.Section.Counts
import Foton.Section.Runs
import Foton.Lib.BitPack
import Foton.Lib.Wire
import Foton.Palette.Write
import Foton.Palette.Decode
import Foton.Lib.Memo
import Foton.Storage.Palette
import Foton.Storage.Sections
import Foton.Lib.AssocList
import Foton.PacketQueue.State
import Foton.PacketQueue.System
import Foton.PacketQueue.Exact
import Foton.PacketQueue.Start
import Foton.PacketQueue.Finish
import Foton.PacketQueue.Order
import Foton.Admission.State
import Foton.Lib.Ownership
import Foton.Admission.System
import Foton.Admission.Server
import Foton.Admission.Sound
import Foton.Command.Chain
import Foton.Command.Execute
import Foton.Command.Queue
import Foton.Command.Refine
import Foton.OpenMenu.Operations
import Foton.OpenMenu.Accounts
import Foton.OpenMenu.Tasks
import Foton.OpenMenu.LifeCycle
import Foton.Lib.Drain
import Foton.Lib.LevelField
import Foton.Light.Layout
import Foton.Light.Propagation
import Foton.Light.Field
import Foton.Light.Rising
import Foton.Light.Waning
import Foton.Light.Wave
import Foton.Light.Incremental
import Foton.Light.Chunk
import Foton.Light.Seeding
import Foton.Light.Edges
import Foton.Lib.HeadMerge
import Foton.Tick.DrainOrder
import Foton.Lib.Traversal
import Foton.Neighbor.Updater
import Foton.Neighbor.DepthFirst
import Foton.Lib.Permits
import Foton.Outbound.State
import Foton.Outbound.Delivery
import Foton.Outbound.Ledger
import Foton.Outbound.Owners
import Foton.Outbound.Queue
import Foton.ChunkSender.Batch
import Foton.ChunkSender.Follow
import Foton.Frame.Codec
import Foton.Frame.VarInt
import Foton.Frame.RoundTrip
import Foton.Frame.Accepted
import Foton.Command.Actions
import Foton.Command.Custody
import Foton.Brigadier.Node
import Foton.Brigadier.Builder
import Foton.Brigadier.Dispatcher
import Foton.Brigadier.Registration
import Foton.Brigadier.Scopes
import Foton.Brigadier.Merge
import Foton.Brigadier.Register
import Foton.Brigadier.Parse
import Foton.Brigadier.Granted
import Foton.Brigadier.Owned
import Foton.Brigadier.Access
import Foton.Snbt.Number
import Foton.Lib.Fallible
import Foton.Snbt.Parser
import Foton.Snbt.Reading
import Foton.Snbt.Tokens
import Foton.Tick.Keys
import Foton.Tick.Reload
import Foton.Heightmap.Map
import Foton.Heightmap.Prime
import Foton.Heightmap.Runs
import Foton.Item.Stack
import Foton.Item.Same
import Foton.Inventory.Player
import Foton.Inventory.Refill
import Foton.Inventory.Throw
import Foton.Inventory.Settled
import Foton.Lib.RangeWalk
import Foton.Menu.QuickMove
import Foton.Menu.Moving
import Foton.Menu.Maximal
import Foton.Command.Suspend
import Foton.Command.Builtin
import Foton.Command.Shrinking
import Foton.Command.Bounded
import Foton.Brigadier.Arena.Dispatcher
import Foton.Brigadier.Arena.Shape
import Foton.Brigadier.Arena.Graft
import Foton.Brigadier.Arena.Check
import Foton.Brigadier.Arena.Union
import Foton.Brigadier.Arena.Parse
import Foton.Brigadier.Arena.Passed
import Foton.Brigadier.Arena.Complete
import Foton.Brigadier.Suggestion
import Foton.Brigadier.Expand
import Foton.Brigadier.Completion
import Foton.Chat.SignatureCache
import Foton.Frame.Encryption
import Foton.Lib.Candidate
import Foton.Worldgen.BoundingBox
import Foton.Worldgen.BoxOctree
import Foton.Lib.Buckets
import Foton.PlayerIndex.Area
import Foton.Lib.KeyedEntries
import Foton.Snbt.Compare
import Foton.Snbt.Merge
import Foton.Command.Template
import Foton.Command.MacroFunction
import Foton.Lib.BoundedWrite
import Foton.Lib.KeyedSort
import Foton.NbtStream.Writer
import Foton.NbtStream.Encoding
import Foton.NbtStream.Spec
import Foton.NbtStream.Canonical
import Foton.NbtStream.Bounded
import Foton.Climate.ParameterList
import Foton.Climate.Build
import Foton.Climate.Flatten
import Foton.Climate.Search
import Foton.Climate.Nearest
import Foton.Chunk.Neighborhood
import Foton.Chunk.Readiness
import Foton.Chunk.ReadinessPhases
import Foton.Chunk.ReadinessRuns
import Foton.Chunk.TickingSnapshot
import Foton.Path.OpenQueue
import Foton.Path.FindPath
import Foton.Poi.World
import Foton.Inventory.Lock
import Foton.Entities.Queries
import Foton.Entities.Population
