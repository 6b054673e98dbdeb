import ProtoGpu.Contracts
import ProtoGpu.Instruction
import ProtoGpu.Memory
import ProtoGpu.Units.Warp
import ProtoGpu.Units.ExecCore
import ProtoGpu.Units.MemUnit
import ProtoGpu.Simt.ControlFlow
import ProtoGpu.Simt.WarpStep
import ProtoGpu.Simt.Launch
import ProtoGpu.Proof.SimtStack
import ProtoGpu.Proof.Issue
import ProtoGpu.Proof.MaskPartition
import ProtoGpu.Proof.Launch
import ProtoGpu.Lib.PostDominance
import ProtoGpu.Proof.ControlFlow
import ProtoGpu.Proof.Successors
import ProtoGpu.Proof.Reconvergence
import ProtoGpu.Proof.ReconvergenceLaw
import ProtoGpu.Lib.LocalLoop
import ProtoGpu.Proof.LaneLocal
import ProtoGpu.Proof.LaneRun
import ProtoGpu.Proof.LaneSim
import ProtoGpu.Proof.LaneRefinement
import ProtoGpu.Lib.Grid
import ProtoGpu.Proof.ThreadCoverage
import ProtoGpu.Lib.PathDominance
import ProtoGpu.Proof.PostDominators
import ProtoGpu.Proof.ReconvergenceFaults
import ProtoGpu.Lib.CellLoop
import ProtoGpu.Proof.LaneWrites
import ProtoGpu.Proof.Simultaneity
import ProtoGpu.Proof.LaneFrame
import ProtoGpu.Proof.IntegerWidth
import ProtoGpu.Proof.SparseMemory
import ProtoGpu.Proof.GlobalStore
import ProtoGpu.Proof.LocalPrivacy
import ProtoGpu.Lib.Rounding
import ProtoGpu.Common.Double
import ProtoGpu.Common.Json
import ProtoGpu.Observability
import ProtoGpu.Proof.DoubleText
import ProtoGpu.Proof.JsonRoundTrip
import ProtoGpu.Proof.TraceNumbers
import ProtoGpu.Proof.JsonDocuments
import ProtoGpu.Lib.Transitions
import ProtoGpu.Runtime.CtaScheduler
import ProtoGpu.Proof.CtaScheduling
import ProtoGpu.Simt.WarpScheduler
import ProtoGpu.Simt.Driver
import ProtoGpu.Proof.WarpScheduling
import ProtoGpu.Proof.WorkerSteps
import ProtoGpu.Proof.Completion
import ProtoGpu.Proof.SchedulerFairness
import ProtoGpu.Lib.Interleaving
import ProtoGpu.Proof.WarpAccesses
import ProtoGpu.Proof.WorkerProgress
import ProtoGpu.Proof.LaunchOrder
import ProtoGpu.Proof.LocalRaces
import ProtoGpu.Proof.LocalMemory
import ProtoGpu.Proof.LaunchTermination
import ProtoGpu.Proof.QuietRuns
import ProtoGpu.Proof.ScheduleIndependence
import ProtoGpu.Frontend.Text
import ProtoGpu.Frontend.Parser
import ProtoGpu.Shim.PtxEntryValidate
import ProtoGpu.Lib.Occurrence
import ProtoGpu.Proof.TextSearch
import ProtoGpu.Proof.ParserRun
import ProtoGpu.Proof.EntryLookup
import ProtoGpu.Proof.SetpOrder
import ProtoGpu.PtxIsa
import ProtoGpu.Proof.OperandKinds
import ProtoGpu.Proof.RegisterCells
import ProtoGpu.Lib.Throwing
import ProtoGpu.Proof.MapperFaults
import ProtoGpu.Shim.StreamScheduler
import ProtoGpu.Proof.StreamOrder
import ProtoGpu.Shim.PtxClean
import ProtoGpu.Shim.Fatbin
import ProtoGpu.Proof.FatbinWalk
import ProtoGpu.Proof.FatbinDecode
import ProtoGpu.Proof.BodyPasses
import ProtoGpu.Proof.LabelTargets
import ProtoGpu.Proof.KernelBodies
import ProtoGpu.Lib.Sigil
import ProtoGpu.Proof.AliasTable
import ProtoGpu.Proof.NamedRegs
import ProtoGpu.Proof.LineReadings
import ProtoGpu.Proof.CleanPtx
import ProtoGpu.Runtime.Memcpy
import ProtoGpu.Shim.DeviceMemory
import ProtoGpu.Proof.DeviceBytes
import ProtoGpu.Lib.BumpAllocator
import ProtoGpu.Proof.Allocations
import ProtoGpu.Proof.DeviceRefinement
import ProtoGpu.Proof.DeviceRanges
import ProtoGpu.Lib.Slots
import ProtoGpu.Shim.KernelArgs
import ProtoGpu.Proof.ParamLayout
import ProtoGpu.Proof.ArgPacking
import ProtoGpu.Proof.SignatureText
import ProtoGpu.Proof.ParamBinding
import ProtoGpu.Proof.GlobalAccess
import ProtoGpu.Runtime.WorkloadSchema
import ProtoGpu.Runtime.WorkloadArgs
import ProtoGpu.Proof.WorkloadArgs
import ProtoGpu.Runtime.Workload
import ProtoGpu.Lib.EventGraph
import ProtoGpu.Proof.WorkloadSchema
import ProtoGpu.Proof.WorkloadSchedule
import ProtoGpu.Proof.HostBounds
import ProtoGpu.Proof.JsonParse
import ProtoGpu.Runtime.AppConfig
import ProtoGpu.Proof.NumberWidth
import ProtoGpu.Lib.Demands
import ProtoGpu.Proof.WorkloadDemands
import ProtoGpu.Proof.SchemaErrors
import ProtoGpu.Shim.Exports
import ProtoGpu.Proof.LastError
import ProtoGpu.Lib.RingBuffer
import ProtoGpu.Proof.TraceRing
import ProtoGpu.Proof.InstText
import ProtoGpu.Simt.BitSet
import ProtoGpu.Proof.BitSet
import ProtoGpu.Proof.Convergence
import ProtoGpu.AssetTables
import ProtoGpu.Proof.AssetTables
import ProtoGpu.Runtime.KernelRun
import ProtoGpu.Proof.MemoryConfinement
import ProtoGpu.Proof.CheckedUnits
import ProtoGpu.Proof.CheckedKernels
import ProtoGpu.Shim.Extraction
import ProtoGpu.Proof.Extraction
import ProtoGpu.Shim.Registration
import ProtoGpu.Proof.Registration
import ProtoGpu.Proof.UnitShapes
import ProtoGpu.Proof.TableCoherence
import ProtoGpu.Lib.Logging
import ProtoGpu.Runtime.WorkloadTrace
import ProtoGpu.Proof.WorkloadTrace
import ProtoGpu.Lib.Buffers
import ProtoGpu.Proof.WorkloadBuffers
import ProtoGpu.Proof.TraceFile
