import FabricaNet.Lib.Run
import FabricaNet.Lib.Ownership
import FabricaNet.Lib.Count
import FabricaNet.Lib.StreamCode
import FabricaNet.Lib.GuardedSend
import FabricaNet.Lib.Log
import FabricaNet.Lib.Visit
import FabricaNet.Lib.Word
import FabricaNet.Lib.Linear
import FabricaNet.Go.SyncMap
import FabricaNet.Go.Range
import FabricaNet.Go.StopAll
import FabricaNet.Go.Heap
import FabricaNet.Go.Io
import FabricaNet.Go.Chan
import FabricaNet.Go.Time
import FabricaNet.Go.Bufio
import FabricaNet.Go.Broken
import FabricaNet.Go.Messages
import FabricaNet.Xnet
import FabricaNet.Ringpool.Pool
import FabricaNet.Ringpool.Conservation
import FabricaNet.Ringpool.Atomic
import FabricaNet.Ringpool.Ownership
import FabricaNet.Ringpool.Counters
import FabricaNet.Ringpool.Stats
import FabricaNet.Ringpool.MultiPool
import FabricaNet.Ringpool.Config
import FabricaNet.Ringpool.Zeroed
import FabricaNet.Ringpool.SizeClass
import FabricaNet.Ringpool.AllocLoop
import FabricaNet.Ringpool.Progress
import FabricaNet.Ringpool.Degrade
import FabricaNet.Ringpool.MultiAtomic
import FabricaNet.Ringpool.MultiZeroed
import FabricaNet.Frame.Codec
import FabricaNet.Frame.Roundtrip
import FabricaNet.Frame.Truncated
import FabricaNet.Frame.InitPool
import FabricaNet.Frame.Canonical
import FabricaNet.Frame.CodecStats
import FabricaNet.Frame.Lane
import FabricaNet.Frame.SharedPool
import FabricaNet.Internal.Listener
import FabricaNet.Internal.ConnIds
import FabricaNet.Internal.WorkerManager
import FabricaNet.Internal.ShardHash
import FabricaNet.Internal.UidIndex
import FabricaNet.Internal.OneMap
import FabricaNet.Internal.BatchLookup
import FabricaNet.Internal.RegistryAtomic
import FabricaNet.Internal.Process
import FabricaNet.Internal.Delivery
import FabricaNet.Internal.Worker
import FabricaNet.Internal.PushErr
import FabricaNet.Internal.ReadLoop
import FabricaNet.Internal.BufferUse
import FabricaNet.Internal.ReadPrefix
import FabricaNet.Internal.Segmented
import FabricaNet.Internal.Acknowledged
import FabricaNet.Internal.Tunnel
import FabricaNet.Internal.SendSafety
import FabricaNet.Internal.WorkerLife
import FabricaNet.Internal.WorkerWedge
import FabricaNet.Internal.FanOut
import FabricaNet.Internal.FanOutHeldUp
import FabricaNet.Internal.Drain
import FabricaNet.Internal.TunnelFlow
import FabricaNet.Internal.BaseServer
import FabricaNet.Internal.Shutdown
import FabricaNet.Internal.WorkerCount
import FabricaNet.Internal.TunnelManager
import FabricaNet.Internal.TunnelLife
import FabricaNet.Internal.Connection
import FabricaNet.Internal.ConnectionLife
import FabricaNet.Internal.AuthGate
import FabricaNet.Internal.DialogStop
import FabricaNet.Internal.Link
import FabricaNet.Internal.LinkStages
import FabricaNet.Internal.LinkAgree
import FabricaNet.Internal.LinkDelivery
import FabricaNet.Kcp.Smux
import FabricaNet.Kcp.Config
import FabricaNet.Kcp.Tuner
import FabricaNet.Tcp.Accept
import FabricaNet.Kcp.Handover
import FabricaNet.Kcp.ListenerStop
import FabricaNet.Client.Dialer
import FabricaNet.Client.DialogId
import FabricaNet.Internal.BaseClient
import FabricaNet.Internal.ClientRun
import FabricaNet.WebSocket.Listener
import FabricaNet.WebSocket.Upgraded
import FabricaNet.WebSocket.Conn
import FabricaNet.WebSocket.Messages
import FabricaNet.Server.Options
