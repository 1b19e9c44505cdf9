import LinuxSystemLearning.Library.Interleaving
import LinuxSystemLearning.Stdio.Contents
import LinuxSystemLearning.Logging.MsgQueue
import LinuxSystemLearning.Calculator.Address
import LinuxSystemLearning.Dictionary.Dict
import LinuxSystemLearning.Calculator.Survival
import LinuxSystemLearning.Calculator.Segmentation
import LinuxSystemLearning.Calculator.EndToEnd
import LinuxSystemLearning.Reactor.OutputConservation
import LinuxSystemLearning.Reactor.CalculatorServer
import LinuxSystemLearning.Reactor.FatalSend
import LinuxSystemLearning.Library.Waiting
import LinuxSystemLearning.Threads.BlockQueue
import LinuxSystemLearning.Threads.HttpPool
import LinuxSystemLearning.Threads.Shutdown
import LinuxSystemLearning.Threads.IdleWorkers
import LinuxSystemLearning.Reactor.Backlog
import LinuxSystemLearning.Reactor.WriteThrough
import LinuxSystemLearning.Reactor.Batch
import LinuxSystemLearning.Reactor.EndOfStream
import LinuxSystemLearning.Calculator.Client
import LinuxSystemLearning.Calculator.ForkingServer
import LinuxSystemLearning.Threads.IfBlockQueue
import LinuxSystemLearning.Library.Turnstile
import LinuxSystemLearning.Threads.RingQueue
import LinuxSystemLearning.Threads.Singleton
import LinuxSystemLearning.Chat.Address
import LinuxSystemLearning.Chat.Route
import LinuxSystemLearning.Chat.Delivery
import LinuxSystemLearning.Http.StaticFiles
import LinuxSystemLearning.Session.Login
import LinuxSystemLearning.Multiplex.Servers
import LinuxSystemLearning.Http.Query
import LinuxSystemLearning.Http.Response
import LinuxSystemLearning.Http.Answers
import LinuxSystemLearning.Logging.Chain
import LinuxSystemLearning.Logging.Server
import LinuxSystemLearning.Threads.Thread
import LinuxSystemLearning.Processes.PairedPrinting
import LinuxSystemLearning.Processes.Shutdown
import LinuxSystemLearning.Multiplex.LowestFd
import LinuxSystemLearning.Session.Cookies
import LinuxSystemLearning.Multiplex.Shown
import LinuxSystemLearning.Session.Connections
import LinuxSystemLearning.Cxx.CharArray
import LinuxSystemLearning.Library.Words
import LinuxSystemLearning.Shell.CommandLine
import LinuxSystemLearning.Shell.Redirection
import LinuxSystemLearning.Shell.Leaks
import LinuxSystemLearning.Session.Splitting
import LinuxSystemLearning.Library.OpenFile
import LinuxSystemLearning.Calculator.DoubleFork
import LinuxSystemLearning.Shell.Main
import LinuxSystemLearning.Shell.Input
import LinuxSystemLearning.Shell.Bounds
import LinuxSystemLearning.Shell.Builtins
import LinuxSystemLearning.Library.LittleEndian
import LinuxSystemLearning.Library.RoundRobin
import LinuxSystemLearning.Processes.Work
import LinuxSystemLearning.Processes.Balance
import LinuxSystemLearning.Processes.WaitAll
import LinuxSystemLearning.Library.NullTerminated
import LinuxSystemLearning.Processes.Handlers
import LinuxSystemLearning.Library.Filling
import LinuxSystemLearning.Processes.SharedMemory
import LinuxSystemLearning.Library.Multiplexer
import LinuxSystemLearning.Library.Simulation
import LinuxSystemLearning.Multiplex.EpollServer
import LinuxSystemLearning.Multiplex.Refinement
import LinuxSystemLearning.Library.Serialized
import LinuxSystemLearning.Logging.LogFile
import LinuxSystemLearning.Library.Tally
import LinuxSystemLearning.Processes.Drained
import LinuxSystemLearning.Threads.Tickets
import LinuxSystemLearning.Library.Arriving
import LinuxSystemLearning.Commands.Command
import LinuxSystemLearning.Commands.TcpServer
import LinuxSystemLearning.Library.BoundedFifo
import LinuxSystemLearning.Threads.Fifo
import LinuxSystemLearning.Library.Progress
import LinuxSystemLearning.Threads.Progress
import LinuxSystemLearning.Library.Calendar
import LinuxSystemLearning.Session.Expiry
import LinuxSystemLearning.Shell.Interpreter
import LinuxSystemLearning.Chat.Network
import LinuxSystemLearning.Logging.Rotation
import LinuxSystemLearning.Logging.Pipeline
import LinuxSystemLearning.Calculator.Conversation
