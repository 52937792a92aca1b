import ShipNet.Bands
import ShipNet.EpollEventLoop
import ShipNet.EventDelivery
import ShipNet.OutgoingStream
import ShipNet.PacketConsumption
import ShipNet.RoundTrip
import ShipNet.SizePrediction
import ShipNet.VersionedRegistry
import ShipNet.VersionBands
import ShipNet.GrowingTable
import ShipNet.OrdinalVector
import ShipNet.Registration
import ShipNet.RegistrationLookup
import ShipNet.CallbackTable
import ShipNet.Agreement
import ShipNet.ProtocolLookup
import ShipNet.ReachedBuffer
import ShipNet.SkipRead
import ShipNet.SkipWrite
import ShipNet.EventLoop
import ShipNet.TaskOrder
import ShipNet.EditIndependence
import ShipNet.PipedConnection
import ShipNet.BufferCalls
import ShipNet.PacketWrites
import ShipNet.PacketPassage
import ShipNet.FramedConnection
import ShipNet.BulkOperations
import ShipNet.IndexReset
import ShipNet.ReachableBuffer
import ShipNet.BufferTransfer
import ShipNet.LengthPrefixed
import ShipNet.UuidCodecs
import ShipNet.FailedReads
import ShipNet.VariableNumbers
import ShipNet.FreshIDs
import ShipNet.RelativeInsertion
import ShipNet.VersionLookup
import ShipNet.SlotOwnership
import ShipNet.Polling
import ShipNet.DelayedTasks
import ShipNet.WholeFrames
import ShipNet.FrameHandover
import ShipNet.FatalErrors
import ShipNet.SparseStore
import ShipNet.ShortestNumbers
import ShipNet.WriteTermination
import ShipNet.IntegerText
import ShipNet.UuidText
import ShipNet.Avoidance
import ShipNet.SegmentLedger
import ShipNet.FrameArrival
import ShipNet.Peers
import ShipNet.TaskTermination
import ShipNet.Mutex
import ShipNet.OrdinalRegistry
import ShipNet.NetworkEventLoop
import ShipNet.ServedConnections
import ShipNet.EdgeTriggers
import ShipNet.ObjectDispatch
import ShipNet.ConnectionOwnership
import ShipNet.DescriptorTable
import ShipNet.EpollListener
import ShipNet.ListenerService
import ShipNet.ServedFrames
import ShipNet.ProcessDescriptors
import ShipNet.DescriptorOwnership
import ShipNet.IncomingAgreement
