import GuardedIM.Dict
import GuardedIM.Interleave
import GuardedIM.Validation
import GuardedIM.Encryption
import GuardedIM.Json
import GuardedIM.Dispatch
import GuardedIM.Server
import GuardedIM.Registration
import GuardedIM.Routing
import GuardedIM.Client
import GuardedIM.Attribution
import GuardedIM.Fanout
import GuardedIM.UserList
import GuardedIM.Chunked
import GuardedIM.Framing
import GuardedIM.Handshake
import GuardedIM.Wire
import GuardedIM.Address
import GuardedIM.Table
import GuardedIM.Database
import GuardedIM.Control
import GuardedIM.ReplaceIp
import GuardedIM.Requests
import GuardedIM.Peers
import GuardedIM.ReceivePath
import GuardedIM.Mesh
import GuardedIM.Refresh
import GuardedIM.Groups
import GuardedIM.Loads
import GuardedIM.JsonRoundTrip
import GuardedIM.Codec
import GuardedIM.Connect
import GuardedIM.Inert
import GuardedIM.Outgoing
import GuardedIM.ReceiveLoop
import GuardedIM.DumpSize
import GuardedIM.FrameSize
import GuardedIM.Spelling
import GuardedIM.Outcomes
import GuardedIM.Blocking
import GuardedIM.WrittenName
import GuardedIM.Sanitising
import GuardedIM.Base64
import GuardedIM.Sending
import GuardedIM.Handling
import GuardedIM.Relay
import GuardedIM.TextDelivery
import GuardedIM.FileDelivery
import GuardedIM.ChatGui
import GuardedIM.ChatList
import GuardedIM.Acknowledge
import GuardedIM.Honest
import GuardedIM.Survival
import GuardedIM.TextLimit
import GuardedIM.Conversation
import GuardedIM.Subnet
import GuardedIM.RelayAddress
import GuardedIM.Percent
import GuardedIM.NetUrl
import GuardedIM.DatabaseUrl
import GuardedIM.Simulation
import GuardedIM.Network
import GuardedIM.Authenticity
import GuardedIM.InOrder
import GuardedIM.Settling
import GuardedIM.Drain
import GuardedIM.Strconv
import GuardedIM.Daemon
import GuardedIM.Lifecycle
import GuardedIM.Lossless
