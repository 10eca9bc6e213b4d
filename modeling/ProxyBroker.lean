import ProxyBroker.Proxy.ReusePauseTheorems
import ProxyBroker.Proxy.WithdrawalTheorems
import ProxyBroker.Server.ProxyServerTheorems
import ProxyBroker.Server.RelayTheorems
import ProxyBroker.Proxy.SelectionTheorems
import ProxyBroker.Judge.LevelDetection
import ProxyBroker.Judge.LevelDetectionTheorems
import ProxyBroker.Judge.Lifecycle
import ProxyBroker.Proxy.ProxyValidator
import ProxyBroker.Proxy.TeardownTheorems
import ProxyBroker.Proxy.ActiveListTheorems
import ProxyBroker.Proxy.UsageTheorems
import ProxyBroker.Lib.LostUpdate
import ProxyBroker.Proxy.LostReportsTheorems
import ProxyBroker.Server.RetryTheorems
import ProxyBroker.Server.FallbackTheorems
import ProxyBroker.Judge.Servers
import ProxyBroker.Judge.ServersTheorems
import ProxyBroker.Proxy.Storage
import ProxyBroker.Proxy.Store
import ProxyBroker.Lib.VersionedRow
import ProxyBroker.Proxy.StorageTheorems
import ProxyBroker.Proxy.StoreTheorems
import ProxyBroker.Proxy.StoreRaceTheorems
import ProxyBroker.Proxy.StoreAloneTheorems
import ProxyBroker.Proxy.StoreFailureTheorems
import ProxyBroker.Proxy.StreakTheorems
import ProxyBroker.Proxy.LatestVerdictTheorems
import ProxyBroker.Judge.JudgeRequest
import ProxyBroker.Judge.JudgeRequestTheorems
import ProxyBroker.Judge.ServerConnection
import ProxyBroker.Judge.LevelTheorems
import ProxyBroker.Judge.ServerConnectionTheorems
import ProxyBroker.Lib.Slot
import ProxyBroker.Proxy.ConnectionTheorems
import ProxyBroker.Proxy.IdleTheorems
import ProxyBroker.Proxy.ReportTheorems
import ProxyBroker.Server.RequestHelper
import ProxyBroker.Server.RequestHelperTheorems
import ProxyBroker.Server.ResponseTheorems
import ProxyBroker.Proxy.CsvFormat
import ProxyBroker.Proxy.CsvFormatTheorems
import ProxyBroker.Server.ControlHeadersTheorems
import ProxyBroker.Proxy.UpdateListTheorems
import ProxyBroker.Judge.HeaderFlagsTheorems
import ProxyBroker.Lib.Paging
import ProxyBroker.Lib.SqlQuery
import ProxyBroker.Proxy.ProxyFetch
import ProxyBroker.Proxy.BatchTheorems
import ProxyBroker.Judge.Requests
import ProxyBroker.Judge.RequestsTheorems
import ProxyBroker.Lib.RegExp
import ProxyBroker.Server.HttpHeaderTransform
import ProxyBroker.Server.HttpHeaderTransformTheorems
import ProxyBroker.Server.AddHeadersTheorems
import ProxyBroker.Judge.RequestOptions
import ProxyBroker.Lib.Decimal
import ProxyBroker.Judge.RequestResponseMonitor
import ProxyBroker.Judge.ResponseHeadTheorems
import ProxyBroker.Judge.MonitorFinishTheorems
import ProxyBroker.Lib.Matcher
import ProxyBroker.Proxy.ProxyAddress
import ProxyBroker.Proxy.ProxyList
import ProxyBroker.Lib.LegacyUrl
import ProxyBroker.Server.GetTarget
import ProxyBroker.Lib.PartialMatch
import ProxyBroker.Provider.ProviderManager
import ProxyBroker.Provider.ProxyFetchTask
import ProxyBroker.Proxy.TaskStore
import ProxyBroker.Server.Message
import ProxyBroker.Server.BrokerChain
import ProxyBroker.Judge.BrokerLevelTheorems
import ProxyBroker.Server.HttpsProxyAgent
import ProxyBroker.Server.HandshakeTheorems
import ProxyBroker.Server.TunnelTheorems
import ProxyBroker.Server.Handles
import ProxyBroker.Server.HandlesTheorems
import ProxyBroker.Proxy.NextCalls
import ProxyBroker.Proxy.NextCallsTheorems
import ProxyBroker.Lib.GlobalSearch
import ProxyBroker.Lib.FirstSeen
import ProxyBroker.Provider.AbstractProvider
import ProxyBroker.Provider.FreeProxyListsCom
import ProxyBroker.Provider.ProxyListenDe
import ProxyBroker.Provider.FetchTheorems
import ProxyBroker.Proxy.CheckRequest
import ProxyBroker.Server.SelectedProxyTheorems
import ProxyBroker.Proxy.SelectedResultsTheorems
import ProxyBroker.Proxy.StoreSourceTheorems
import ProxyBroker.Proxy.Candidates
import ProxyBroker.Proxy.CandidatesTheorems
import ProxyBroker.Judge.Verdicts
import ProxyBroker.Judge.VerdictsTheorems
import ProxyBroker.Judge.VisitsTheorems
import ProxyBroker.Proxy.PipelineTheorems
import ProxyBroker.Server.Broker
import ProxyBroker.Server.BrokerTheorems
