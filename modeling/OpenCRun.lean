import OpenCRun.Lib.Checked
import OpenCRun.Lib.Tiling
import OpenCRun.Lib.Replica
import OpenCRun.Lib.Runs
import OpenCRun.Lib.Tally
import OpenCRun.Lib.MixedRadix
import OpenCRun.Lib.Loop
import OpenCRun.Core.MemoryObject
import OpenCRun.Core.CoherencyTracker
import OpenCRun.Core.Partition
import OpenCRun.Core.Regions
import OpenCRun.Core.UpdateRegion
import OpenCRun.Core.Coherency
import OpenCRun.Core.Frame
import OpenCRun.Core.Interleaving
import OpenCRun.Core.HostAlias
import OpenCRun.Core.Command
import OpenCRun.Core.CommandCoherency
import OpenCRun.Core.Event
import OpenCRun.Core.EventObject
import OpenCRun.Core.EventCallbacks
import OpenCRun.Core.CommandQueue
import OpenCRun.Core.InOrderQueue
import OpenCRun.Core.Scheduling
import OpenCRun.Core.QueueThreads
import OpenCRun.Core.Finish
import OpenCRun.Core.CommandLifetime
import OpenCRun.Device.MultiExec
import OpenCRun.Util.DimensionInfo
import OpenCRun.Util.Iteration
import OpenCRun.Util.Coverage
import OpenCRun.Core.NDRangeBuilder
import OpenCRun.Device.CPUDevice
import OpenCRun.Device.BlockParallel
import OpenCRun.Device.CPUThread
import OpenCRun.Device.ExecutionStack
import OpenCRun.Device.WorkItemRing
import OpenCRun.Core.SubObject
import OpenCRun.Device.MemoryDescriptor
import OpenCRun.Core.SubObjectRegions
import OpenCRun.Core.MemoryObjectBuilder
import OpenCRun.Core.SubBufferCreation
import OpenCRun.Core.AccessMode
import OpenCRun.Util.MTRefCounted
import OpenCRun.Device.Submission
import OpenCRun.Core.KernelArgs
import OpenCRun.Core.MemMapping
import OpenCRun.Core.MapPairing
import OpenCRun.Core.Image
import OpenCRun.Lib.Strided
import OpenCRun.Core.ImageCommands
import OpenCRun.Core.BufferBuilders
import OpenCRun.Core.BufferRectBuilders
import OpenCRun.Core.BufferRectCommands
import OpenCRun.Core.MapBuilders
import OpenCRun.Core.MapCommands
import OpenCRun.Core.BufferCommands
import OpenCRun.Core.HostAccess
import OpenCRun.Device.KernelArguments
import OpenCRun.Device.SubDevices
import OpenCRun.Lib.Comparison
import OpenCRun.Util.OpenCLTypeSystem
import OpenCRun.Lib.Grouping
import OpenCRun.Core.Program
import OpenCRun.Device.Profiling
import OpenCRun.Device.ImageAccess
import OpenCRun.Device.AutomaticLocals
import OpenCRun.OCLGen.BuiltinSplit
import OpenCRun.Device.GlobalIds
import OpenCRun.Device.LaunchValidation
import OpenCRun.Core.Flush
import OpenCRun.Core.ProgramQueries
import OpenCRun.Device.ThreadPool
import OpenCRun.Device.Atomics
import OpenCRun.Lib.Interning
import OpenCRun.Util.TypeDescriptor
import OpenCRun.Util.TypeGenerator
import OpenCRun.Util.TypeRoundTrip
import OpenCRun.OCLGen.Overloads
import OpenCRun.Core.CopyOverlap
import OpenCRun.Core.WaitForEvents
import OpenCRun.Core.MapResult
import OpenCRun.Core.ImageGeometry
import OpenCRun.Core.BuilderErrors
import OpenCRun.Core.ArgumentKinds
import OpenCRun.Device.LocalLayout
import OpenCRun.Lib.Footprint
import OpenCRun.Device.WrittenBytes
import OpenCRun.Device.FillColor
import OpenCRun.Lib.CInteger
import OpenCRun.Library.Integer
import OpenCRun.Library.Saturation
import OpenCRun.Library.MadSat
import OpenCRun.Library.HighProduct
import OpenCRun.Lib.IntegerBits
import OpenCRun.Library.HalvingAdd
import OpenCRun.Library.Rotate
import OpenCRun.Lib.PopulationCount
import OpenCRun.Library.BitCount
import OpenCRun.Library.Convert
import OpenCRun.Library.ConvertSat
import OpenCRun.Lib.BinaryFormat
import OpenCRun.Library.ConvertReal
import OpenCRun.Device.HalfFloat
import OpenCRun.Device.HalfConversion
import OpenCRun.Device.PackedPixel
import OpenCRun.Device.PixelRoundTrip
import OpenCRun.Lib.IntegerRounding
import OpenCRun.Library.ConvertToReal
import OpenCRun.Library.LaneSelection
import OpenCRun.Device.SamplerAddressing
import OpenCRun.Util.ModuleInfo
import OpenCRun.Core.FillValue
import OpenCRun.Device.AsyncCopy
import OpenCRun.Device.GroupEvents
import OpenCRun.Lib.Backtracking
import OpenCRun.Lib.Multimap
import OpenCRun.OCLGen.SignatureExpansion
import OpenCRun.OCLGen.SignatureOrder
import OpenCRun.Lib.Memo
import OpenCRun.OCLGen.PointerExpansion
import OpenCRun.OCLGen.ImplSelection
import OpenCRun.System.Time
import OpenCRun.Core.RefusedBuild
import OpenCRun.Lib.DataLayout
import OpenCRun.Passes.FootprintEstimate
import OpenCRun.Passes.AggressiveInliner
import OpenCRun.Device.KernelExtraction
import OpenCRun.Lib.ConditionalText
import OpenCRun.OCLGen.GuardedText
import OpenCRun.Core.KernelArgStorage
import OpenCRun.Core.NativeKernel
import OpenCRun.Core.ImageBuilders
import OpenCRun.Device.ImagePixels
import OpenCRun.Device.SampledPixels
