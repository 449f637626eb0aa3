import MicroHermes.Lib.Transition
import MicroHermes.Lib.Select
import MicroHermes.Lib.LittleEndian
import MicroHermes.Lib.Blocks
import MicroHermes.Lib.Bitmap
import MicroHermes.Common
import MicroHermes.Wire
import MicroHermes.Wst
import MicroHermes.Scheduler
import MicroHermes.Lib.Average
import MicroHermes.Pruning
import MicroHermes.Symmetry
import MicroHermes.LoadResponse
import MicroHermes.Dispatch
import MicroHermes.Kernel
import MicroHermes.Lib.Scale
import MicroHermes.Shares
import MicroHermes.Feedback
import MicroHermes.Lib.Counter
import MicroHermes.Lib.Fifo
import MicroHermes.Lib.ViewMemory
import MicroHermes.Sim.ConnQueue
import MicroHermes.Sim.QueueRuns
import MicroHermes.Sim.QueueLength
import MicroHermes.Server.Worker
import MicroHermes.Server.Host
import MicroHermes.Server.Accounting
import MicroHermes.Server.Backlog
import MicroHermes.Server.Readiness
import MicroHermes.Server.Streams
import MicroHermes.Server.Framing
import MicroHermes.Server.Responses
import MicroHermes.Timing
import MicroHermes.Collected
import MicroHermes.Readmission
import MicroHermes.Prompt
import MicroHermes.Server.HangDetection
import MicroHermes.Server.Readmission
import MicroHermes.Server.Passes
import MicroHermes.Server.SharedListener
import MicroHermes.Lib.Fallible
import MicroHermes.Server.Setup
import MicroHermes.Server.Descriptors
import MicroHermes.Server.Stopping
import MicroHermes.Server.Service
import MicroHermes.Server.Supervisor
import MicroHermes.Server.Termination
import MicroHermes.Sim.Workload
import MicroHermes.Sim.Cases
import MicroHermes.Sim.Generator
import MicroHermes.Sim.Worker
import MicroHermes.Sim.System
import MicroHermes.Sim.Conservation
import MicroHermes.Sim.Burst
import MicroHermes.Sim.Accounting
import MicroHermes.Sim.Readings
import MicroHermes.Sim.HangIsolation
import MicroHermes.Sim.Readmission
import MicroHermes.FeedbackRuns
import MicroHermes.Sim.Traffic
import MicroHermes.Sim.Completion
import MicroHermes.Sim.IdleSearch
import MicroHermes.Lib.Text
import MicroHermes.Sim.Metrics
import MicroHermes.Lib.BufWriter
import MicroHermes.Lib.LineLog
import MicroHermes.Server.Ticks
import MicroHermes.Server.HangInjection
import MicroHermes.Lib.OrderStatistics
import MicroHermes.Sim.Percentiles
import MicroHermes.Sim.Summary
import MicroHermes.Sim.Timeline
import MicroHermes.Sim.Pacing
import MicroHermes.Lib.SortByKey
import MicroHermes.Sim.MergedFiles
import MicroHermes.Sim.WeakMemory
import MicroHermes.Sim.WeakQueue
import MicroHermes.Sim.Handshake
import MicroHermes.Bench.Client
import MicroHermes.Bench.Burst
import MicroHermes.Bench.Cases
import MicroHermes.Bench.Arrivals
import MicroHermes.Bench.Rows
import MicroHermes.Bench.Collect
import MicroHermes.Bench.Recording
import MicroHermes.Sim.Shutdown
