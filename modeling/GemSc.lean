import GemSc.Core.EventQueue
import GemSc.Core.EventRun
import GemSc.Core.SimplePort
import GemSc.Core.Packet
import GemSc.Core.Port
import GemSc.Core.Link
import GemSc.Link.SendReq
import GemSc.Link.Tick
import GemSc.Link.Delivery
import GemSc.Link.Drain
import GemSc.Config.JsonIncluder
import GemSc.Config.Names
import GemSc.Lib.ExceptFold
import GemSc.Lib.Assignments
import GemSc.Core.PortManager
import GemSc.Factory.Instantiate
import GemSc.Factory.Steps
import GemSc.Factory.Locality
import GemSc.Factory.Binding
import GemSc.Factory.Ports
import GemSc.Factory.PlainConnection
import GemSc.Factory.Hierarchy
import GemSc.Factory.Groups
import GemSc.Factory.NullSafety
import GemSc.Factory.NullRuns
import GemSc.Factory.Inert
import GemSc.Lib.Glob
import GemSc.Factory.PatternConnection
import GemSc.Core.Ticks
import GemSc.Factory.Registration
import GemSc.Core.TickRuns
import GemSc.Link.Lanes
import GemSc.Link.Trace
import GemSc.Link.Latency
import GemSc.Link.Isolation
import GemSc.Lib.Ledger
import GemSc.Core.Heap
import GemSc.Pool.PacketPool
import GemSc.Pool.Calls
import GemSc.Pool.Usable
import GemSc.Pool.Ownership
import GemSc.Pool.References
import GemSc.Modules.Host
import GemSc.Modules.CPUSim
import GemSc.Modules.CacheSim
import GemSc.Modules.Interconnects
import GemSc.Modules.NocRouter
import GemSc.Modules.Servicing
import GemSc.Modules.Inversion
import GemSc.Modules.Refusal
import GemSc.Modules.Retry
import GemSc.Modules.CacheReturn
import GemSc.Modules.Return
import GemSc.Net.Network
import GemSc.Net.Payloads
import GemSc.Net.Loop
import GemSc.Lib.Fuel
import GemSc.Lib.Reachability
import GemSc.Lib.FlatRegex
import GemSc.Config.Includes
import GemSc.Config.IncludeVisits
import GemSc.Config.IncludeCycles
import GemSc.Config.IncludeResolution
import GemSc.Config.WildcardGlob
import GemSc.Pool.Accounting
import GemSc.Pool.CorePool
import GemSc.Lib.CountedQueue
import GemSc.Link.AllOrNothing
import GemSc.Link.InputAccounting
import GemSc.Link.PeerPort
import GemSc.Link.OutputAccounting
import GemSc.Link.Priority
import GemSc.Link.Handshake
import GemSc.Core.Composition
import GemSc.Core.Termination
import GemSc.Lib.HeapTies
import GemSc.Core.TieOrder
import GemSc.Factory.Buffers
import GemSc.Factory.ExposedLabels
import GemSc.Modules.Routing
import GemSc.Modules.Forwarding
import GemSc.Modules.Switching
import GemSc.Modules.Answers
import GemSc.Pool.RoundTrips
import GemSc.Net.Delays
import GemSc.Noc.CreditStream
import GemSc.Noc.Flit
import GemSc.Lib.Segments
import GemSc.Noc.Segmentation
import GemSc.Core.MergedStats
import GemSc.Core.AverageDelay
import GemSc.Link.Counters
import GemSc.Link.RequestCounts
import GemSc.Modules.Outstanding
import GemSc.Modules.AddressRange
import GemSc.Modules.IssueCycles
import GemSc.Net.RecordedDelays
import GemSc.Net.Standstill
import GemSc.Noc.Reassembly
import GemSc.Lib.Handshake
import GemSc.Noc.ScTlmRouter
import GemSc.Noc.RouterHandshake
import GemSc.Lib.Descent
import GemSc.Noc.XYRouting
import GemSc.Lib.PendingTable
import GemSc.Ext.PayloadToPacket
import GemSc.Ext.ResponseMatching
import GemSc.Lib.Owners
import GemSc.Noc.MeshTopology
import GemSc.Noc.MeshConsistency
import GemSc.Lib.GridCells
import GemSc.Lib.Writes
import GemSc.Lib.LoopFrame
import GemSc.Layout.ForceDirected
import GemSc.Layout.GridPlacement
import GemSc.Layout.Keeps
import GemSc.Layout.PinnedNodes
import GemSc.Lib.HandshakeCycles
import GemSc.Noc.RouterMesh
import GemSc.Noc.MeshDelivery
import GemSc.Noc.MeshProgress
import GemSc.Noc.MeshFlows
import GemSc.Noc.MeshWiring
import GemSc.Stream.CreditPool
import GemSc.Stream.StreamProducer
import GemSc.Stream.CreditBound
import GemSc.Stream.LostCredits
import GemSc.Stream.SequenceNumbers
import GemSc.Factory.Nesting
import GemSc.Topology.TopologyDumper
import GemSc.Topology.DumpedEdges
import GemSc.Topology.DumpedNodes
import GemSc.Lib.Delimited
import GemSc.Noc.PacketTransfer
import GemSc.Ext.RoundTrip
import GemSc.Factory.GeneratedMesh
import GemSc.Link.Blocked
