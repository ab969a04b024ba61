import PmacPoll.ChangeLog
import PmacPoll.Device
import PmacPoll.Endpoint
import PmacPoll.Proofs.Actions
import PmacPoll.Proofs.MessageFraming
import PmacPoll.Proofs.ScannerFeed
import PmacPoll.Scheduler
import PmacPoll.Settings
import PmacPoll.Settings.Document
import PmacPoll.Proofs.GatewayExchange
import PmacPoll.Proofs.GatewayRefresh
import PmacPoll.Proofs.GatewayRuns
import PmacPoll.Proofs.RefreshAtomicity
import PmacPoll.Proofs.OrderedMapEntries
import PmacPoll.Proofs.TextPieces
import PmacPoll.Proofs.Utf8Text
import PmacPoll.Proofs.TableContents
import PmacPoll.Proofs.DeviceExchange
import PmacPoll.Proofs.ReplyReading
import PmacPoll.Proofs.DeviceReplies
import PmacPoll.Proofs.RefreshFromDevice
import PmacPoll.Proofs.PieceStream
import PmacPoll.Proofs.SingleMessage
import PmacPoll.Proofs.FrameOrder
import PmacPoll.Proofs.LinkOrder
import PmacPoll.Proofs.SuccessiveExchanges
import PmacPoll.Proofs.SessionReports
import PmacPoll.Proofs.CycleOrder
import PmacPoll.Proofs.LostSessions
import PmacPoll.Proofs.DeviceRecord
import PmacPoll.Proofs.WholeReplies
import PmacPoll.Proofs.FullRefresh
import PmacPoll.Proofs.OrderedMapOperations
import PmacPoll.Proofs.ChunkedUpdates
import PmacPoll.Proofs.FrameStream
import PmacPoll.Proofs.LoggedRefreshes
import PmacPoll.Proofs.DeviceWrites
import PmacPoll.Proofs.ScannerClosedForm
import PmacPoll.Proofs.CallFailures
import PmacPoll.Proofs.SilentReplies
import PmacPoll.Proofs.CommandBytes
import PmacPoll.Proofs.ExchangeAccounts
import PmacPoll.Proofs.ReportedErrors
import PmacPoll.Proofs.WholeCommands
import PmacPoll.Proofs.AssignedNames
import PmacPoll.Proofs.ChunkOutcomes
import PmacPoll.Proofs.PositionalUpdates
import PmacPoll.Proofs.ChangeReplay
import PmacPoll.Proofs.SuppressionCadence
import PmacPoll.Proofs.CycleCadence
import PmacPoll.Proofs.OrderedMapGaps
import PmacPoll.Proofs.CurrentCommands
import PmacPoll.Proofs.ValuesBeforeErrors
import PmacPoll.Proofs.BoundedReading
import PmacPoll.Proofs.UsableSettings
import PmacPoll.Proofs.MonitorLists
import PmacPoll.Proofs.OrderedMapWalks
