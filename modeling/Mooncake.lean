import Mooncake.Client.BatchReads
import Mooncake.Client.BatchWrites
import Mooncake.Client.Mounting
import Mooncake.Client.OperationState
import Mooncake.Conductor.BlockSerializer
import Mooncake.Engine.BatchStatus
import Mooncake.Engine.DeviceChoice
import Mooncake.Engine.Framing
import Mooncake.Engine.HandshakeProgress
import Mooncake.Engine.LocalDevices
import Mooncake.Engine.ManagedBuffers
import Mooncake.Engine.MemoryLocation
import Mooncake.Engine.Reclaim
import Mooncake.Engine.SlicesKept
import Mooncake.Engine.TcpVisible
import Mooncake.Ha.Serving
import Mooncake.Master.Gauges
import Mooncake.Master.Heartbeat
import Mooncake.Master.Lifetimes
import Mooncake.Master.Regex
import Mooncake.Master.Sessions
import Mooncake.Master.Watch
import Mooncake.P2PStore.Retries
import Mooncake.P2PStore.Truthful
import Mooncake.P2PStore.Unsuited
import Mooncake.Storage.Load
import Mooncake.Storage.Scan
