import SocketServerLib.Lib.LabelledRun
import SocketServerLib.Lib.PrefixFraming
import SocketServerLib.Lib.ChunkedFraming
import SocketServerLib.Lib.CircularBuffer
import SocketServerLib.Lib.TryLock
import SocketServerLib.Lib.Holding
import SocketServerLib.Lib.InverseMap
import SocketServerLib.Lib.Counting
import SocketServerLib.Lib.Draining
import SocketServerLib.RacingGameServer.Sessions
import SocketServerLib.RacingGameServer.WakeUp
import SocketServerLib.RacingGameServer.Isolation
import SocketServerLib.RacingGameServer.SendStream
import SocketServerLib.RacingGameServer.Ownership
import SocketServerLib.RacingGameServer.RecvPath
import SocketServerLib.RacingGameServer.UDPTokenThreads
import SocketServerLib.RacingGameServer.UDPAddress
import SocketServerLib.RacingGameServer.Rearm
import SocketServerLib.RacingGameServer.Callbacks
import SocketServerLib.RacingGameServer.UDPSends
import SocketServerLib.RacingGameServer.Shutdown
import SocketServerLib.Lib.LongestPrefix
import SocketServerLib.RacingGameServer.SendFifo
import SocketServerLib.RacingGameServer.ThreadPool
import SocketServerLib.RacingGameServer.TimeBasedThreadPool
import SocketServerLib.EpollServer.ClientContext
import SocketServerLib.EpollServer.JobThread
import SocketServerLib.EpollServer.Interest
import SocketServerLib.EpollServer.DoRecv
import SocketServerLib.EpollServer.Sessions
import SocketServerLib.CSServer.RecvLoop
import SocketServerLib.CSServer.SendMsg
import SocketServerLib.CSServer.AcceptLoop
import SocketServerLib.EpollServer.JobFactory
import SocketServerLib.IOCPServer.Job
import SocketServerLib.TestClient.EchoProtocol
import SocketServerLib.SelectServer.SelectServer
import SocketServerLib.IOCPServer.SendStream
import SocketServerLib.Lib.ByteRange
import SocketServerLib.CreateFuncs
import SocketServerLib.StorePartialMsg
import SocketServerLib.IOCPServer.OnReceive
import SocketServerLib.IOCPServer.Reset
import SocketServerLib.IOCPServer.JobMemoryPool
import SocketServerLib.LinuxServer.JobThread
import SocketServerLib.LinuxServer.ClientThread
import SocketServerLib.LinuxServer.CleanUpThreads
import SocketServerLib.RacingGameServer.SendProgress
import SocketServerLib.RacingGameServer.ReqMessage
import SocketServerLib.RacingGameServer.PacketInit
import SocketServerLib.RacingGameServer.UDPDatagrams
import SocketServerLib.RacingGameServer.UDPResend
import SocketServerLib.RacingGameServer.Resize
import SocketServerLib.RacingGameServer.TimedOrder
import SocketServerLib.Lib.AnsweredLoop
import SocketServerLib.Lib.Answering
import SocketServerLib.Lib.BoundedFifo
import SocketServerLib.LinuxServer.Descriptor
import SocketServerLib.CSServer.SendLoop
import SocketServerLib.CSServer.ReqHandler
import SocketServerLib.CSServer.SlideFifo
import SocketServerLib.CSServer.UserManager
import SocketServerLib.RacingGameServer.Routing
import SocketServerLib.IOCPServer.ZoneManager
import SocketServerLib.RacingGameServer.Reallocate
import SocketServerLib.RacingGameServer.JobPhase
import SocketServerLib.RacingGameServer.SlideFifo
import SocketServerLib.RacingGameServer.SpinLock
import SocketServerLib.RacingGameServer.JobBlocks
import SocketServerLib.IOCPServer.PacketPool
import SocketServerLib.CSServer.EchoServe
import SocketServerLib.RacingGameServer.EchoPipeline
import SocketServerLib.SelectServer.SelectThreads
import SocketServerLib.RacingGameServer.JobOwners
import SocketServerLib.SelectServer.JobThread
import SocketServerLib.EpollServer.Lifetimes
import SocketServerLib.EpollServer.Release
import SocketServerLib.LinuxServer.Connections
import SocketServerLib.Lib.LockedObject
import SocketServerLib.CSServer.SlideThreads
import SocketServerLib.IOCPServer.JobThreads
import SocketServerLib.IOCPServer.Misdelivery
