import LocalSoftware.AioLanding.AcceptRequests
import LocalSoftware.AioLanding.LandingAccept
import LocalSoftware.AioLanding.LandingServer
import LocalSoftware.AioLanding.PassedRequests
import LocalSoftware.AioLanding.S40Client
import LocalSoftware.AioLanding.Segmentation
import LocalSoftware.Alloc.AllocWrapper
import LocalSoftware.Alloc.Arena
import LocalSoftware.Alloc.Invariant
import LocalSoftware.Alloc.Layout
import LocalSoftware.Alloc.Space
import LocalSoftware.Alloc.ZeroBlocks
import LocalSoftware.BandwidthMonitor.BandwidthAccept
import LocalSoftware.BandwidthMonitor.Base64
import LocalSoftware.BandwidthMonitor.Handshake
import LocalSoftware.BandwidthMonitor.LogFile
import LocalSoftware.BandwidthMonitor.LogStream
import LocalSoftware.BandwidthMonitor.MainLoop
import LocalSoftware.BandwidthMonitor.MonitoringServer
import LocalSoftware.BandwidthMonitor.PassedRequests
import LocalSoftware.BandwidthMonitor.RecordKinds
import LocalSoftware.BandwidthMonitor.Stream
import LocalSoftware.Common.Accounts
import LocalSoftware.Common.ByteRanges
import LocalSoftware.Common.CallOrder
import LocalSoftware.Common.CallTargets
import LocalSoftware.Common.CoTypes
import LocalSoftware.Common.CoWakeups
import LocalSoftware.Common.CompletionPaths
import LocalSoftware.Common.CompletionRuns
import LocalSoftware.Common.CompletionSteps
import LocalSoftware.Common.Completions
import LocalSoftware.Common.Defs
import LocalSoftware.Common.Enlisted
import LocalSoftware.Common.Event
import LocalSoftware.Common.Family
import LocalSoftware.Common.FamilyRuns
import LocalSoftware.Common.Faults
import LocalSoftware.Common.FirstThread
import LocalSoftware.Common.FreshObjects
import LocalSoftware.Common.HandlerPlans
import LocalSoftware.Common.History
import LocalSoftware.Common.HttpManager
import LocalSoftware.Common.HttpMessage
import LocalSoftware.Common.IdBlocks
import LocalSoftware.Common.LocalIdRuns
import LocalSoftware.Common.LocalIds
import LocalSoftware.Common.Locators
import LocalSoftware.Common.ObjectLives
import LocalSoftware.Common.Operations
import LocalSoftware.Common.ParseLoops
import LocalSoftware.Common.ParseOutcome
import LocalSoftware.Common.Placement
import LocalSoftware.Common.Presence
import LocalSoftware.Common.PresenceRuns
import LocalSoftware.Common.QueuedOutcomes
import LocalSoftware.Common.QueuedPhases
import LocalSoftware.Common.ReadWriteHttp
import LocalSoftware.Common.ReadWriteHttpC
import LocalSoftware.Common.Rearming
import LocalSoftware.Common.Requests
import LocalSoftware.Common.ResultOrder
import LocalSoftware.Common.RingRequests
import LocalSoftware.Common.RunLoop
import LocalSoftware.Common.TargetThread
import LocalSoftware.Common.ThreadChoice
import LocalSoftware.Common.ThreadData
import LocalSoftware.Common.ThreadShared
import LocalSoftware.Common.ThreadSteps
import LocalSoftware.Common.TimeoutRuns
import LocalSoftware.Common.Timeouts
import LocalSoftware.Common.TimerKeys
import LocalSoftware.Common.TlsProgress
import LocalSoftware.Common.TlsSocket
import LocalSoftware.Common.TlsStream
import LocalSoftware.Common.Traffic
import LocalSoftware.Common.WebsocketSocket
import LocalSoftware.Common.WriteCodes
import LocalSoftware.Library.Base64
import LocalSoftware.Library.BlockIds
import LocalSoftware.Library.DoWhile
import LocalSoftware.Library.InOrder
import LocalSoftware.Library.InverseTables
import LocalSoftware.Library.Ledger
import LocalSoftware.Library.Numerals
import LocalSoftware.Library.Outcomes
import LocalSoftware.Library.Owners
import LocalSoftware.Library.Preceded
import LocalSoftware.Library.Separated
import LocalSoftware.Library.Tickets
import LocalSoftware.Library.Tiling
import LocalSoftware.Library.Transition
import LocalSoftware.Library.WebsocketFrame
import LocalSoftware.Logging.VisitStats
import LocalSoftware.ReverseProxy.AuthGate
import LocalSoftware.ReverseProxy.Cookies
import LocalSoftware.ReverseProxy.Relay
import LocalSoftware.ReverseProxy.RelayPhases
import LocalSoftware.ReverseProxy.RelayRuns
import LocalSoftware.ReverseProxy.ReverseProxyManager
import LocalSoftware.ReverseProxy.ReverseProxyServer
import LocalSoftware.ReverseProxy.ServerSteps
