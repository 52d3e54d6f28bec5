import EupuServer.Common.Machine
import EupuServer.Common.Bytes
import EupuServer.Common.Framing
import EupuServer.Protocol.Stream
import EupuServer.Protocol.Message
import EupuServer.Network.NetCommon
import EupuServer.Network.Receive
import EupuServer.Network.Reassembly
import EupuServer.Common.FiniteMap
import EupuServer.Network.SendMap
import EupuServer.Common.Heap
import EupuServer.Network.SysQueue
import EupuServer.Network.CreateMsg
import EupuServer.Network.GlobalMgr
import EupuServer.Epoll.State
import EupuServer.Epoll.Handlers
import EupuServer.Epoll.System
import EupuServer.Epoll.Step
import EupuServer.Epoll.Effect
import EupuServer.Epoll.CloseEvent
import EupuServer.Epoll.Wf
import EupuServer.Epoll.SendList
import EupuServer.Epoll.Replies
import EupuServer.Epoll.Fifo
import EupuServer.Epoll.Registration
import EupuServer.Epoll.Lifecycle
import EupuServer.Epoll.ServerRole
import EupuServer.Epoll.Attempts
import EupuServer.Epoll.HandOver
import EupuServer.Epoll.SendLimit
import EupuServer.Epoll.RecvHandOff
import EupuServer.Epoll.Interest
import EupuServer.Network.RecvEnding
import EupuServer.Worker.WorkThread
import EupuServer.Wsa.Handlers
import EupuServer.Wsa.Receive
import EupuServer.Wsa.Loop
import EupuServer.Wsa.System
import EupuServer.Common.Locks
import EupuServer.Epoll.Locking
import EupuServer.Network.SingleOwner
import EupuServer.Common.Circular
import EupuServer.Common.Memory
import EupuServer.Common.Refinement
import EupuServer.Utility.RingBuffer
import EupuServer.Protocol.StringCodec
import EupuServer.Worker.Stop
import EupuServer.Epoll.FailedConnect
import EupuServer.Epoll.SendScan
import EupuServer.Epoll.Sweep
import EupuServer.Epoll.Accept
import EupuServer.Network.RecvMemory
import EupuServer.Epoll.RecvBounds
import EupuServer.Network.LastBuffer
import EupuServer.Epoll.LostFrames
import EupuServer.Worker.Origin
import EupuServer.Worker.Header
import EupuServer.Protocol.MessageCodec
import EupuServer.Utility.RingIndex
import EupuServer.Common.Base64
import EupuServer.Utility.Base64
import EupuServer.Common.Substitute
import EupuServer.Utility.ReplaceAll
import EupuServer.Network.CreateBounds
import EupuServer.Network.Counter
import EupuServer.Protocol.ValueCodec
import EupuServer.Common.Transfer
import EupuServer.Network.SocketLoops
import EupuServer.Epoll.Index
import EupuServer.Epoll.Descriptors
import EupuServer.Common.Progress
import EupuServer.Epoll.Answers
import EupuServer.Epoll.Rounds
import EupuServer.Network.Delivery
import EupuServer.Epoll.Feed
import EupuServer.Epoll.Link
import EupuServer.Worker.Notified
import EupuServer.Worker.Service
import EupuServer.Worker.Closed
import EupuServer.Common.Region
import EupuServer.Utility.CircularBuffer
import EupuServer.Common.Numerals
import EupuServer.Inet.Quad
import EupuServer.Inet.Pton6
import EupuServer.Inet.Ntop6
import EupuServer.Inet.Families
import EupuServer.Common.Handles
import EupuServer.Network.Connect
import EupuServer.Epoll.Connect
import EupuServer.Epoll.Startup
import EupuServer.Epoll.Stop
import EupuServer.Worker.TestProj
import EupuServer.Worker.Pair
