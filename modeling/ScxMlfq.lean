import ScxMlfq.Intf.Classification
import ScxMlfq.Intf.Tree
import ScxMlfq.Bpf.Machine
import ScxMlfq.Bpf.Classify
import ScxMlfq.Bpf.SelectCpu
import ScxMlfq.Bpf.Lifecycle
import ScxMlfq.Bpf.Enqueue
import ScxMlfq.Lib.Trace
import ScxMlfq.Run.Task
import ScxMlfq.Bpf.Settle
import ScxMlfq.Run.Hysteresis
import ScxMlfq.Run.Aging
import ScxMlfq.Run.Sleep
import ScxMlfq.Run.System
import ScxMlfq.Run.Overtaking
import ScxMlfq.Lib.Tally
import ScxMlfq.Run.Idle
import ScxMlfq.Daemon.MlfqTree
import ScxMlfq.Daemon.TreeWalk
import ScxMlfq.Daemon.Publish
import ScxMlfq.Lib.Swap
import ScxMlfq.Run.Clock
import ScxMlfq.Daemon.Mirror
import ScxMlfq.Daemon.TrainResult
import ScxMlfq.Bpf.Insert
import ScxMlfq.Lib.Census
import ScxMlfq.Run.Gauges
import ScxMlfq.Bpf.Destination
import ScxMlfq.Bpf.IdleClaim
import ScxMlfq.Bpf.Placement
import ScxMlfq.Bpf.Cadence
import ScxMlfq.Run.Burst
import ScxMlfq.Run.Meters
import ScxMlfq.Run.Wait
import ScxMlfq.Bpf.Dispatch
import ScxMlfq.Daemon.Topology
import ScxMlfq.Bpf.Keep
import ScxMlfq.Run.Race
import ScxMlfq.Daemon.Fit
import ScxMlfq.Daemon.FitWalk
import ScxMlfq.Daemon.Bands
import ScxMlfq.Daemon.Prediction
import ScxMlfq.Bpf.Adapt
import ScxMlfq.Daemon.Limits
import ScxMlfq.Daemon.Window
import ScxMlfq.Lib.Harvest
import ScxMlfq.Run.Adapt
import ScxMlfq.Run.Epoch
import ScxMlfq.Run.Gates
import ScxMlfq.Run.Occupancy
import ScxMlfq.Run.Wakeups
import ScxMlfq.Daemon.Encoding
import ScxMlfq.Run.Reset
import ScxMlfq.Run.Samples
import ScxMlfq.Bpf.Redirect
import ScxMlfq.Bpf.Steering
import ScxMlfq.Daemon.Siblings
import ScxMlfq.Intf.Decay
import ScxMlfq.Intf.LatFold
import ScxMlfq.Run.Cadence
import ScxMlfq.Run.History
import ScxMlfq.Daemon.SplitSearch
import ScxMlfq.Run.Counters
import ScxMlfq.Daemon.Bounds
import ScxMlfq.Daemon.Scratch
import ScxMlfq.Run.Stay
import ScxMlfq.Lib.Channel
import ScxMlfq.Lib.Layout
import ScxMlfq.Lib.History
import ScxMlfq.Lib.Correlation
import ScxMlfq.Lib.Spacing
import ScxMlfq.Daemon.Record
import ScxMlfq.Daemon.Metrics
import ScxMlfq.Daemon.Worker
import ScxMlfq.Run.Loop
import ScxMlfq.Run.Daemon
import ScxMlfq.Run.Liveness
import ScxMlfq.Run.Model
import ScxMlfq.Lib.Gate
import ScxMlfq.Lib.Places
import ScxMlfq.Bpf.Rtdl
import ScxMlfq.Bpf.Moves
import ScxMlfq.Run.Takeover
import ScxMlfq.Run.Queues
import ScxMlfq.Run.Created
import ScxMlfq.Lib.Meter
import ScxMlfq.Intf.OpLat
import ScxMlfq.Daemon.Stats
import ScxMlfq.Run.Stats
import ScxMlfq.Run.Hints
import ScxMlfq.Lib.Lone
import ScxMlfq.Lib.Decimal
import ScxMlfq.Daemon.Cache
import ScxMlfq.Daemon.Attach
