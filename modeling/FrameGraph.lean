import FrameGraph.Main
import FrameGraph.Total
import FrameGraph.Fault
import FrameGraph.Mask
import FrameGraph.Handle
import FrameGraph.SlotTable
import FrameGraph.Pipeline
import FrameGraph.State
import FrameGraph.Info
import FrameGraph.Creation
import FrameGraph.Device.Error
import FrameGraph.Event
import FrameGraph.Logged
import FrameGraph.Registry
import FrameGraph.Command
import FrameGraph.Pass
import FrameGraph.Dependency.Sort
import FrameGraph.Dependency.Reach
import FrameGraph.Dependency.Analysis
import FrameGraph.Schedule
import FrameGraph.Timeline
import FrameGraph.Barrier.Basic
import FrameGraph.Barrier.Sync
import FrameGraph.Barrier.Plan
import FrameGraph.Barrier.Merge
import FrameGraph.Device
import FrameGraph.Pool
import FrameGraph.Frame.Recording
import FrameGraph.Frame.Backing
import FrameGraph.Settings
import FrameGraph.Settings.Text
import FrameGraph.Graph
import FrameGraph.Graph.Report
import FrameGraph.Graph.Compile
import FrameGraph.Graph.Execute
import FrameGraph.Toml.Document
import FrameGraph.Toml.Moment
import FrameGraph.Toml.Node
import FrameGraph.Toml.Number
import FrameGraph.Toml.Text
import FrameGraph.Deferred
import FrameGraph.Proofs.Dependency.Tables
import FrameGraph.Proofs.Dependency.Hazards
import FrameGraph.Proofs.Dependency.Reachability
import FrameGraph.Proofs.Dependency.Distance
import FrameGraph.Proofs.Dependency.Cycles
import FrameGraph.Proofs.Scheduling
import FrameGraph.Proofs.Scheduling.Stalling
import FrameGraph.Proofs.Scheduling.Layouts
import FrameGraph.Proofs.Dependency.Sorting
import FrameGraph.Proofs.Pruning
import FrameGraph.Proofs.Declarations
import FrameGraph.Proofs.Barrier.Merge
import FrameGraph.Proofs.Barrier.Rounds
import FrameGraph.Proofs.Barrier.NetTransition
import FrameGraph.Proofs.Timeline
import FrameGraph.Proofs.Barrier.Plan
import FrameGraph.Proofs.Barrier.Coverage
import FrameGraph.Proofs.Barrier.Shown
import FrameGraph.Proofs.Barrier.Needed
import FrameGraph.Proofs.Barrier.HandBack
import FrameGraph.Proofs.Frame.Backing
import FrameGraph.Proofs.Frame.Trace
import FrameGraph.Proofs.Frame.Layouts
import FrameGraph.Proofs.Memory.Device
import FrameGraph.Proofs.Memory.Pool
import FrameGraph.Proofs.Memory.Requirements
import FrameGraph.Proofs.Memory.Holdings
import FrameGraph.Proofs.Graph.Reachable
import FrameGraph.Proofs.Memory.Reachable
import FrameGraph.Proofs.Frame.Execution
import FrameGraph.Proofs.Memory.Aliasing
import FrameGraph.Proofs.Frame.States
import FrameGraph.Proofs.Barrier.Leaving
import FrameGraph.Proofs.Frame.Recorded
import FrameGraph.Proofs.Graph.Lifetimes
import FrameGraph.Proofs.Memory.Kinds
import FrameGraph.Proofs.Frame.Successive
import FrameGraph.Proofs.Barrier.TakingOver
import FrameGraph.Proofs.Frame.Tenants
import FrameGraph.Proofs.Frame.Succession
import FrameGraph.Proofs.Frame.Marks
import FrameGraph.Proofs.Frame.Reentry
import FrameGraph.Proofs.Graph.Fresh
import FrameGraph.Proofs.Graph.Contributing
import FrameGraph.Proofs.Renaming.Declarations
import FrameGraph.Proofs.Renaming.Plan
import FrameGraph.Proofs.Frame.Stream
import FrameGraph.Proofs.Memory.Ledger
import FrameGraph.Proofs.Memory.Conservation
import FrameGraph.Proofs.Scheduling.Greedy
import FrameGraph.Proofs.Timeline.Tight
import FrameGraph.Proofs.Memory.Sessions
import FrameGraph.Proofs.Frame.Persistence
import FrameGraph.Proofs.Frame.Warm
import FrameGraph.Proofs.Dependency.Acyclicity
import FrameGraph.Proofs.Handles
import FrameGraph.Proofs.Drafts
import FrameGraph.Proofs.Frame.Simulation
