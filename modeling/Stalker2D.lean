import Stalker2D.Client.ClientConsoleState
import Stalker2D.Client.ClientRequestManager
import Stalker2D.Client.ConnectionAttempts
import Stalker2D.Client.ConnectionManager
import Stalker2D.Client.ConnectionPhases
import Stalker2D.Client.ConnectionResources
import Stalker2D.Client.EventLog
import Stalker2D.Client.Interactivity
import Stalker2D.Client.NetworkComponent
import Stalker2D.Client.NetworkCoroutines
import Stalker2D.Client.NetworkResults
import Stalker2D.Client.NetworkShutdown
import Stalker2D.Client.OverlayRouting
import Stalker2D.Client.PendingRequests
import Stalker2D.Client.RequestClosure
import Stalker2D.Client.RequestCorrelation
import Stalker2D.Client.RequestInvariant
import Stalker2D.Client.RequestOutcome
import Stalker2D.Client.StateManager
import Stalker2D.Client.StateStack
import Stalker2D.Data.Json
import Stalker2D.Data.JsonReading
import Stalker2D.Data.Readable
import Stalker2D.Data.Vec
import Stalker2D.Data.Wire
import Stalker2D.Data.WireReading
import Stalker2D.EndToEnd.Completion
import Stalker2D.EndToEnd.RequestOrder
import Stalker2D.EndToEnd.RequestSafety
import Stalker2D.EndToEnd.Rest
import Stalker2D.EndToEnd.System
import Stalker2D.EndToEnd.SystemSteps
import Stalker2D.EndToEnd.WireFormat
import Stalker2D.Machine.Basic
import Stalker2D.Machine.LeadsTo
import Stalker2D.Machine.Lists
import Stalker2D.Machine.Worklist
import Stalker2D.Server.Game.History
import Stalker2D.Server.Game.MoveArithmetic
import Stalker2D.Server.Game.Sessions
import Stalker2D.Server.Game.SnapshotText
import Stalker2D.Server.Game.World
import Stalker2D.Server.Network.Answering
import Stalker2D.Server.Network.Broadcast
import Stalker2D.Server.Network.Identity
import Stalker2D.Server.Network.Pipeline
import Stalker2D.Server.Network.PlayerLifecycle
import Stalker2D.Server.Network.ResponseSize
import Stalker2D.Server.Network.ServerConnectionManager
import Stalker2D.Server.Network.Shutdown
import Stalker2D.Server.Network.Standing
import Stalker2D.Server.Network.TcpServer
import Stalker2D.Shared.AsyncEventBus
import Stalker2D.Shared.Basic
import Stalker2D.Shared.CloseProtocol
import Stalker2D.Shared.Connection
import Stalker2D.Shared.Delivery
import Stalker2D.Shared.EventBusOrder
import Stalker2D.Shared.EventDelivery
import Stalker2D.Shared.EventOrder
import Stalker2D.Shared.EventPrograms
import Stalker2D.Shared.EventRouting
import Stalker2D.Shared.Framing
import Stalker2D.Shared.FrozenStorage
import Stalker2D.Shared.MessageChannel
import Stalker2D.Shared.MessageFrameCodec
import Stalker2D.Shared.ParserInput
import Stalker2D.Shared.Progress
import Stalker2D.Shared.Protocol
import Stalker2D.Shared.Serialization
import Stalker2D.Shared.SubscribersStorage
import Stalker2D.Shared.WireFormat
import Stalker2D.Shared.WritePath
