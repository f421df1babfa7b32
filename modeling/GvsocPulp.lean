import GvsocPulp.Lib.Cycle
import GvsocPulp.Lib.Lists
import GvsocPulp.FloonocV2.FindCycle
import GvsocPulp.FloonocV2.Topology
import GvsocPulp.FloonocV2.CheckRoutes
import GvsocPulp.FloonocV2.LegalRoute
import GvsocPulp.FloonocV2.UpDownLegal
import GvsocPulp.FloonocFlex.CollectivePolicy
import GvsocPulp.FloonocFlex.Router
import GvsocPulp.IdmaV3.Coupler
import GvsocPulp.FloonocV2.XyRouting
import GvsocPulp.FloonocV2.Retries
import GvsocPulp.FloonocV2.BackPressure
import GvsocPulp.FloonocFlex.Order
import GvsocPulp.IdmaV3.Copy
import GvsocPulp.IdmaV3.TransferIds
import GvsocPulp.IdmaV3.TransferBackend
import GvsocPulp.Snitchv2.SsrStreams
import GvsocPulp.Snitchv2.FrepUnrolled
import GvsocPulp.Mchan.Counters
import GvsocPulp.FractalSync.Requests
import GvsocPulp.EventUnitV3.MutexExclusive
import GvsocPulp.EventUnitV3.BarrierExact
import GvsocPulp.EventUnitV3.DispatchDelivers
import GvsocPulp.Snitchv2.FpSequential
import GvsocPulp.FractalSync.Barriers
import GvsocPulp.Hci.Arbitration
import GvsocPulp.TcdmInterco.OneAccess
import GvsocPulp.MempoolXbar.Exact
import GvsocPulp.SnitchIcache.FlushBarrier
import GvsocPulp.SnitchIcache.FetchExact
import GvsocPulp.TeranocL1.OneAnswer
import GvsocPulp.LightRedmule.JobsOnce
import GvsocPulp.Cv32e40p.ExternalLoads
import GvsocPulp.Cv32e40p.DebugEntry
import GvsocPulp.UdmaV3.Streams
import GvsocPulp.FloonocV2.Fragmentation
import GvsocPulp.TeranocNoc.Delivers
import GvsocPulp.ObiCut.SpillRegister
import GvsocPulp.SpatzTcdmInterco.Fairness
import GvsocPulp.IdmaV2.Identifiers
import GvsocPulp.PulpIdma.SameLines
import GvsocPulp.IdmaV2.CopyExact
import GvsocPulp.IdmaV3.Busy
import GvsocPulp.IdmaV3.MidEndRuns
import GvsocPulp.IdmaV3.ByteFifos
import GvsocPulp.IdmaV3.SplitRuns
import GvsocPulp.FloonocV2.MultiTree
import GvsocPulp.FloonocV2.DimensionOrder
import GvsocPulp.FloonocV2.HexaMesh
import GvsocPulp.FloonocV2.Arbiter
import GvsocPulp.FloonocV2.MeshOrder
import GvsocPulp.FloonocFlex.ReductionGroups
import GvsocPulp.IdmaV3.NoWedge
import GvsocPulp.L2Interconnect.CacheFilter
import GvsocPulp.EventUnitV3.BarrierFires
import GvsocPulp.Hci.WideViews
import GvsocPulp.Hci.WideStatus
import GvsocPulp.Hci.Starvation
import GvsocPulp.SnitchIcache.Starvation
import GvsocPulp.TeranocL1.FlowControl
import GvsocPulp.TeranocL1.Remapper
import GvsocPulp.Datamover.Copy
