import Mymuduo.Lib.Transition
import Mymuduo.Lib.Copy
import Mymuduo.Lib.Trace
import Mymuduo.Buffer
import Mymuduo.BufferFifo
import Mymuduo.Lib.TaskQueue
import Mymuduo.EventLoop
import Mymuduo.Wakeup
import Mymuduo.Functors
import Mymuduo.Channel
import Mymuduo.TcpConnection
import Mymuduo.ConnRun
import Mymuduo.ConnSpec
import Mymuduo.SendSpec
import Mymuduo.OutputStream
import Mymuduo.GracefulShutdown
import Mymuduo.CloseOnce
import Mymuduo.StateRace
import Mymuduo.SendCapture
import Mymuduo.TcpServer
import Mymuduo.ServerOwn
import Mymuduo.PollerRecords
import Mymuduo.ServerReg
import Mymuduo.ServerRelease
import Mymuduo.ServerReport
import Mymuduo.Lifetime
import Mymuduo.DeferredLife
import Mymuduo.Registry
import Mymuduo.ConnEnd
import Mymuduo.QuitFunctors
import Mymuduo.EventLoopThread
import Mymuduo.ServerPlaces
import Mymuduo.ServerLife
import Mymuduo.Confinement
import Mymuduo.DescriptorModes
import Mymuduo.ServerStale
import Mymuduo.ServerDestroy
import Mymuduo.Wire
import Mymuduo.CallRun
import Mymuduo.CallLog
import Mymuduo.CallOrder
import Mymuduo.BufferMemory
import Mymuduo.BufferRead
import Mymuduo.BufferWord
import Mymuduo.FaultDecision
import Mymuduo.FlowControl
import Mymuduo.ConnTable
import Mymuduo.StartOnce
import Mymuduo.Logger
import Mymuduo.Lib.Simulation
import Mymuduo.Lib.Progress
import Mymuduo.ConnLocal
import Mymuduo.ServerSound
import Mymuduo.ServerConn
import Mymuduo.CallbackOrder
import Mymuduo.ServerWatch
import Mymuduo.ServerDrain
import Mymuduo.LoopProgress
import Mymuduo.ServerLoop
import Mymuduo.InetAddress
import Mymuduo.EventList
import Mymuduo.ChatServer
import Mymuduo.ThreadPool
import Mymuduo.ServerBalance
import Mymuduo.ServerProgress
import Mymuduo.ServerFair
import Mymuduo.ServerGone
import Mymuduo.ServerLiveness
