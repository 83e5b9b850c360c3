import Icsw.LogAggregation.Shutdown
import Icsw.LogAggregation.CarriedCache
import Icsw.License.EggConsume
import Icsw.LogReader.ExactlyOnce
import Icsw.LogAggregation.SourceTimespans
import Icsw.Permission.Roles
import Icsw.Routing.Model
import Icsw.License.Superseded
import Icsw.Rms.LicenseUsage
import Icsw.ProcessPool.Shutdown
import Icsw.Rms.ImportOnce
import Icsw.EventLog.Runs
import Icsw.LogAggregation.Flapping
import Icsw.LogAggregation.Incremental
import Icsw.Kpi.KpiSet
import Icsw.MetaServer.TransitionLock
import Icsw.Discovery.Dispatcher
import Icsw.ServiceTransition.ActionOrder
import Icsw.License.Signature
import Icsw.Network.Consistent
import Icsw.Kpi.EvaluateHistoric
import Icsw.License.Memoize
import Icsw.License.UsableEggs
import Icsw.LogReader.ServiceDescription
import Icsw.MdSync.Batches
import Icsw.NameTree.DeadSubtrees
import Icsw.Network.AddressText
import Icsw.Network.SavedIps
import Icsw.MdSync.StaysInside
import Icsw.Network.CreatedFits
import Icsw.Topology.CheapestRoutes
import Icsw.NameList.LosesNothing
import Icsw.Aggregate.Reordered
import Icsw.Topology.Core
import Icsw.RrdTools.ReachesTarget
import Icsw.RrdTools.CopiedRows
import Icsw.Aggregate.CountedOnce
import Icsw.Collectd.KeysFollow
import Icsw.Monitoring.Threshold
import Icsw.Icmp.Checksum
import Icsw.Config.WriteStore
import Icsw.Relay.AnyFrame
import Icsw.HmDirect.TcpCon
import Icsw.HmDirect.PingRuns
import Icsw.ServerCommand.Overwrite
import Icsw.Config.PrefixStore
import Icsw.ProcessPool.SendBuffer
import Icsw.ConfigServer.PartitionSetup
import Icsw.Discovery.PlannedAhead
import Icsw.Discovery.AssetRuns
import Icsw.Topology.DistanceMap
import Icsw.VarCache.Changes
