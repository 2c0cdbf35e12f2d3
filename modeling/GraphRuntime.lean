import GraphRuntime.Config.Cycles
import GraphRuntime.Stream.Consume
import GraphRuntime.Stream.Fanout
import GraphRuntime.Public.Producers
import GraphRuntime.Public.Ports
import GraphRuntime.Scheduler.Wakeup
import GraphRuntime.Scheduler.Errors
import GraphRuntime.Scheduler.Quiescence
import GraphRuntime.Scheduler.Termination
import GraphRuntime.Scheduler.Schedule
import GraphRuntime.Scheduler.Cancel
import GraphRuntime.Scheduler.Waiting
import GraphRuntime.Scheduler.Pairing
import GraphRuntime.Scheduler.QueueOperations
import GraphRuntime.Scheduler.Finalize
import GraphRuntime.Scheduler.Drain
import GraphRuntime.Scheduler.Reschedule
import GraphRuntime.Scheduler.Observe
import GraphRuntime.Scheduler.Delivery
import GraphRuntime.Public.Reinitialize
import GraphRuntime.Scheduler.Injection
import GraphRuntime.Scheduler.Alignment
import GraphRuntime.Profiler.RoundTrip
import GraphRuntime.Stream.Contract
import GraphRuntime.Handler.Progress
import GraphRuntime.Handler.FixedSize
import GraphRuntime.Handler.Invocations
import GraphRuntime.Public.Throttle
import GraphRuntime.Stream.Saturation
import GraphRuntime.Stream.OffsetBound
import GraphRuntime.Scheduler.Priority
import GraphRuntime.Profiler.TimeHistogram
import GraphRuntime.Profiler.GraphProfiler
import GraphRuntime.Profiler.ReaderTermination
import GraphRuntime.Scheduler.InputShards
import GraphRuntime.Scheduler.OutputCallbacks
import GraphRuntime.Scheduler.OpenOutputs
import GraphRuntime.Scheduler.Pause
import GraphRuntime.Node.NodeRegistry
import GraphRuntime.Tool.TagMap
import GraphRuntime.Profiler.Merge
import GraphRuntime.Config.JsonShape
import GraphRuntime.Config.JsonIntegers
import GraphRuntime.Scheduler.ThreadPool
import GraphRuntime.Profiler.Scope
import GraphRuntime.Scheduler.StampedStreams
import GraphRuntime.Profiler.ByteReader
import GraphRuntime.Scheduler.WaitFree
import GraphRuntime.Scheduler.Payloads
import GraphRuntime.Scheduler.Reports
import GraphRuntime.Scheduler.Channel
import GraphRuntime.Config.Validated
import GraphRuntime.Scheduler.Pipelines
import GraphRuntime.Scheduler.Conservation
import GraphRuntime.Scheduler.Closing
import GraphRuntime.Public.Streams
import GraphRuntime.Profiler.Sessions
