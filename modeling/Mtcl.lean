import Mtcl.Base.Arrivals
import Mtcl.Base.Blocks
import Mtcl.Base.Broker
import Mtcl.Base.CondVar
import Mtcl.Base.Diamond
import Mtcl.Base.Names
import Mtcl.Base.OrdMap
import Mtcl.Base.OrdSet
import Mtcl.Base.Pairing
import Mtcl.Base.Rounding
import Mtcl.Base.Runs
import Mtcl.Base.Safe
import Mtcl.Base.Shares
import Mtcl.Base.Sources
import Mtcl.Base.Switch
import Mtcl.Base.Words
import Mtcl.Collective.Allgather
import Mtcl.Collective.Assembly
import Mtcl.Collective.Broadcast
import Mtcl.Collective.Context
import Mtcl.Collective.CreateTeam
import Mtcl.Collective.Deal
import Mtcl.Collective.FanIn
import Mtcl.Collective.FanOut
import Mtcl.Collective.Gather
import Mtcl.Collective.GatherMPI
import Mtcl.Collective.GatherRetry
import Mtcl.Collective.Lifetime
import Mtcl.Collective.Merge
import Mtcl.Collective.Participants
import Mtcl.Collective.Peek
import Mtcl.Collective.Results
import Mtcl.Collective.Scan
import Mtcl.Collective.Sending
import Mtcl.Collective.Team
import Mtcl.Collective.TeamID
import Mtcl.Config
import Mtcl.ConnMpi
import Mtcl.ConnMqtt
import Mtcl.ConnShm
import Mtcl.ConnTcp
import Mtcl.Connect
import Mtcl.Dial
import Mtcl.Duplex
import Mtcl.EmptyUser
import Mtcl.EndOfStream
import Mtcl.Framing
import Mtcl.Handle
import Mtcl.HandleMPIP2P
import Mtcl.HandleMQTT
import Mtcl.HandleSHM
import Mtcl.HandleTCP
import Mtcl.HandleUCX
import Mtcl.Handshake
import Mtcl.HeaderCache
import Mtcl.Listen
import Mtcl.Mpi.Channels
import Mtcl.Mqtt.Channels
import Mtcl.Mqtt.Invariant
import Mtcl.MqttCalls
import Mtcl.MqttReader
import Mtcl.Ownership
import Mtcl.Protocols
import Mtcl.Proxy.Announce
import Mtcl.Proxy.Bimap
import Mtcl.Proxy.Forwarding
import Mtcl.Proxy.Frames
import Mtcl.Proxy.Hops
import Mtcl.Proxy.Identifiers
import Mtcl.Proxy.Listening
import Mtcl.Proxy.Main
import Mtcl.Proxy.Mesh
import Mtcl.Proxy.Peers
import Mtcl.Proxy.Routes
import Mtcl.Proxy.Routing
import Mtcl.Proxy.Switchboard
import Mtcl.Proxy.Tunnel
import Mtcl.Proxy.Wiring
import Mtcl.Reading
import Mtcl.Release
import Mtcl.Sendrecv
import Mtcl.Shm.Bounds
import Mtcl.Shm.Channels
import Mtcl.Shm.Invariant
import Mtcl.Shm.ReadyQueue
import Mtcl.Shm.Segments
import Mtcl.Shm.Slot
import Mtcl.ShmBuffer
import Mtcl.Tcp.Announce
import Mtcl.Tcp.Drain
import Mtcl.Tcp.Finalize
import Mtcl.Tcp.Header
import Mtcl.Tcp.Invariant
import Mtcl.Tcp.Listens
import Mtcl.Tcp.MessageQueue
import Mtcl.Tcp.Stream
import Mtcl.Tcp.Table
import Mtcl.Tcp.Torn
import Mtcl.Tcp.Vectors
import Mtcl.UcxRequest
import Mtcl.UcxStream
