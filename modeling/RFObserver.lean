import RFObserver.Capture.CaptureClock
import RFObserver.Capture.FileReplay
import RFObserver.Capture.GridPreBuffer
import RFObserver.Capture.PreRollExact
import RFObserver.Capture.ReceiverRuns
import RFObserver.Fleet.AddressPolls
import RFObserver.Fleet.CapturePaging
import RFObserver.Fleet.DetectionPages
import RFObserver.Fleet.HubRuns
import RFObserver.Fleet.LiveAxis
import RFObserver.Fleet.LiveMode
import RFObserver.Lib.WrappedStore
import RFObserver.Modules.FmChunks
import RFObserver.Pipeline.AttributionRuns
import RFObserver.Pipeline.CaptureRuns
import RFObserver.Pipeline.CaptureSigmf
import RFObserver.Pipeline.ContinuousRuns
import RFObserver.Pipeline.DbWriterRuns
import RFObserver.Pipeline.GridPlacement
import RFObserver.Pipeline.IsolationBudget
import RFObserver.Pipeline.LeadLimitRuns
import RFObserver.Pipeline.LoopHandoff
import RFObserver.Pipeline.RecordingControlRuns
import RFObserver.Pipeline.RollupLoopRuns
import RFObserver.Pipeline.SupervisorRuns
import RFObserver.Processing.BurstIndex
import RFObserver.Processing.BurstRegions
import RFObserver.Processing.ChannelizePhase
import RFObserver.Processing.PsdGridPaths
import RFObserver.Processing.RowWindow
import RFObserver.Processing.RowWindowRuns
import RFObserver.Schedules.CutterTimeline
import RFObserver.Schedules.FateRuns
import RFObserver.Schedules.OwnTuning
import RFObserver.Schedules.RunOutcomeRuns
import RFObserver.Schedules.RunRowsRuns
import RFObserver.Schedules.ScheduleJson
import RFObserver.Schedules.WriterRuns
import RFObserver.Storage.BlobPruneRuns
import RFObserver.Storage.BurstArchiveRuns
import RFObserver.Storage.CaptureScan
import RFObserver.Storage.CollectionRuns
import RFObserver.Storage.CompanionNames
import RFObserver.Storage.DegradedFlagRuns
import RFObserver.Storage.DetectionHoursRuns
import RFObserver.Storage.EvictionRuns
import RFObserver.Storage.GovernorRuns
import RFObserver.Storage.GuardedWriteRuns
import RFObserver.Storage.MinutePeaks
import RFObserver.Storage.TierQueries
import RFObserver.Transport.RfdbProgress
import RFObserver.Web.CapturePsd
import RFObserver.Web.ConfigAtomic
import RFObserver.Web.DetectionsCsv
import RFObserver.Web.GzipAnswers
import RFObserver.Web.LiveBroadcastRuns
import RFObserver.Web.PeaksPage
import RFObserver.Web.RangeCache
import RFObserver.Web.RangeRoutes
import RFObserver.Web.ReplayRoutes
import RFObserver.Web.ReplayRuns
import RFObserver.Web.SettingsRuns
import RFObserver.Web.WaterfallBody
