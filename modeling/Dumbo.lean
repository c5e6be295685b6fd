import Dumbo.Disruptor.BlockingBarriers
import Dumbo.Disruptor.BlockingReturns
import Dumbo.Disruptor.PipelineDelivery
import Dumbo.Disruptor.SequencerPublishing
import Dumbo.Disruptor.SingleReceive
import Dumbo.Fiber.BarrierRounds
import Dumbo.Fiber.BufferedCapacity
import Dumbo.Fiber.BufferedWakeups
import Dumbo.Fiber.ChannelCoreSafety
import Dumbo.Fiber.ContextMpscQueuePop
import Dumbo.Fiber.ContextSpmcQueueSafety
import Dumbo.Fiber.Fairness
import Dumbo.Fiber.FiberSpecificLaw
import Dumbo.Fiber.MigratingRuns
import Dumbo.Fiber.Mutex
import Dumbo.Fiber.PromiseProtocol
import Dumbo.Fiber.SchedulerTimers
import Dumbo.Fiber.StealingQueues
import Dumbo.Fiber.Teardown
import Dumbo.Fiber.TimedMutex
import Dumbo.Fiber.UnbufferedWakeups
import Dumbo.Reactor.CallProtocol
import Dumbo.Reactor.FiberIoMessage
import Dumbo.Reactor.Inbox
import Dumbo.Reactor.IoPoller
import Dumbo.Reactor.IpAddress
import Dumbo.Reactor.LinuxEpoll
import Dumbo.Reactor.LinuxWakeups
import Dumbo.Reactor.LoopLifetime
import Dumbo.Reactor.ApplicationRun
import Dumbo.Reactor.CallReturns
import Dumbo.Reactor.ProcessBatch
import Dumbo.Reactor.Shutdown
import Dumbo.Reactor.StreamSocket
import Dumbo.Reactor.ThreadPoolRuns
import Dumbo.Reactor.WorkerHandoff
