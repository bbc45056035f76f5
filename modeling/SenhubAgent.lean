import SenhubAgent.Otlp.EnvExpand
import SenhubAgent.Otlp.SplitCalls
import SenhubAgent.Otlp.Failover
import SenhubAgent.Otlp.LogsReplay
import SenhubAgent.Otlp.ReplayLoop
import SenhubAgent.Otlp.PartialSuccess
import SenhubAgent.AgentState.ScanPatterns
import SenhubAgent.FileTail.Committed
import SenhubAgent.Http.CacheIndex
import SenhubAgent.DataStore.Supersession
import SenhubAgent.DataStore.FirstBlock
import SenhubAgent.Config.Show
import SenhubAgent.Http.ConsoleView
import SenhubAgent.Entities.Heartbeat
import SenhubAgent.Entities.MergeOrder
import SenhubAgent.Http.NagiosStatus
import SenhubAgent.Http.SeriesKey
import SenhubAgent.AutoUpdate.BestMatch
import SenhubAgent.AutoUpdate.Signed
import SenhubAgent.Sensor.License
import SenhubAgent.KubernetesLogs.FoldMeta
import SenhubAgent.Lifecycle.Supervisor
import SenhubAgent.LogParse.Records
import SenhubAgent.PodLogs.Reassembly
import SenhubAgent.Zabbix.KeyGrammar
import SenhubAgent.OtelMapper.Expand
import SenhubAgent.FileTail.BookmarkWrites
import SenhubAgent.OtlpReceiver.ControlTags
import SenhubAgent.OtlpReceiver.Guard
import SenhubAgent.ExecProbe.Perfdata
import SenhubAgent.Http.TagFilter
import SenhubAgent.Entities.HostDep
import SenhubAgent.Config.StrategyFragments
import SenhubAgent.FileTail.PemResume
import SenhubAgent.SnmpPoll.CrawlWorkers
import SenhubAgent.SnmpPoll.Retain
import SenhubAgent.Scheduler.Ticking
import SenhubAgent.Sensor.RetryLoop
import SenhubAgent.DataStore.EventOnce
import SenhubAgent.Http.PrtgNames
