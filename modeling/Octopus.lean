import Octopus.Snoop.Lawful
import Octopus.Lib.Itinerary
import Octopus.Snoop.Phases
import Octopus.Snoop.Laws
import Octopus.Snoop.PhaseSteps
import Octopus.Snoop.Invariant
import Octopus.Snoop.HomeSteps
import Octopus.Snoop.CoreSteps
import Octopus.Snoop.Grant
import Octopus.Snoop.Safety
import Octopus.Snoop.MSI
import Octopus.Snoop.MESI
import Octopus.Protocols.RequestState
import Octopus.DataHandler.Geometry
import Octopus.DataHandler.Handler
import Octopus.DataHandler.Places
import Octopus.DataHandler.Blocks
import Octopus.DataHandler.Calls
import Octopus.DataHandler.History
import Octopus.Controller.ProcessLogic
import Octopus.Controller.Order
import Octopus.Controller.L1Core
import Octopus.Controller.Service
import Octopus.Directory.Actions
import Octopus.Tables.DirectoryCore
import Octopus.Tables.DirectoryHome
import Octopus.Protocols.LLCDirectory
import Octopus.WriteBack.LineActions
import Octopus.WriteBack.Snooping
import Octopus.WriteBack.Directory
import Octopus.WriteBack.Law
import Octopus.Directory.System
import Octopus.Interconnect.Interface
import Octopus.Lib.Lane
import Octopus.Interconnect.Arbiter
import Octopus.Interconnect.BusController
import Octopus.Interconnect.Point2Point
import Octopus.Interconnect.Links
import Octopus.Interconnect.SplitBus
import Octopus.Interconnect.UnifiedBus
import Octopus.Interconnect.TripleBus
import Octopus.DataHandler.PartitionedFill
import Octopus.Controller.CacheLines
import Octopus.Controller.ActionEffects
import Octopus.Controller.LineRows
import Octopus.Controller.PrivateCaches
import Octopus.Controller.Bounds
import Octopus.Controller.Registers
import Octopus.Controller.Interlock
import Octopus.Controller.InterlockedCaches
import Octopus.Controller.Stores
import Octopus.Controller.ArrayAccesses
import Octopus.Controller.StoreRows
import Octopus.Controller.WrittenStores
import Octopus.DataHandler.LeastRecentlyUsed
import Octopus.Clock.ClockManager
import Octopus.Clock.Schedule
import Octopus.ReadyQueue.Calls
import Octopus.ReadyQueue.Order
import Octopus.ReadyQueue.Rescan
import Octopus.Controller.PipelineTiming
import Octopus.Interconnect.SlotOwner
import Octopus.Gem5.Bridge
import Octopus.Gem5.Release
import Octopus.Gem5.Runs
import Octopus.Lib.Text
import Octopus.TableFile.Reader
import Octopus.TableFile.Format
import Octopus.TableFile.Rows
import Octopus.TableFile.RoundTrip
import Octopus.TableFile.Queries
import Octopus.Interconnect.RoundRobin
import Octopus.Interconnect.MeshTransmit
import Octopus.CPU.Releases
import Octopus.CPU.Cycles
import Octopus.Logger.Report
import Octopus.Lib.Occupancy
import Octopus.Logger.IssueOrder
import Octopus.Logger.Oldest
import Octopus.Lib.Tiling
import Octopus.Logger.Tiling
import Octopus.Configuration.Configurable
import Octopus.Configuration.Resolution
import Octopus.Lib.Codec
import Octopus.Trace.Writer
import Octopus.Trace.Reader
import Octopus.Lib.Pairing
import Octopus.Trace.Occupancy
import Octopus.Lib.Settling
import Octopus.Snoop.Work
import Octopus.Snoop.Accounting
import Octopus.Snoop.Rest
import Octopus.Snoop.Addresses
import Octopus.Snoop.Served
import Octopus.Snoop.Progress
import Octopus.Snoop.Settled
import Octopus.Snoop.Exits
import Octopus.Lib.DelayLine
import Octopus.Memory.MainMemory
import Octopus.Lib.Spacing
import Octopus.MCsim.DRAM
import Octopus.MCsim.DDR4
import Octopus.MCsim.AddressMapping
import Octopus.MCsim.MemorySystem
import Octopus.MCsim.Steps
import Octopus.MCsim.Rows
import Octopus.MCsim.Rules
import Octopus.MCsim.Bursts
import Octopus.MCsim.Balance
import Octopus.Lib.Draining
import Octopus.MCsim.Drain
