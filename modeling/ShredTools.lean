import ShredTools.Library.KeyedTable
import ShredTools.Library.KeyedList
import ShredTools.Library.Run
import ShredTools.Library.Segments
import ShredTools.Library.Interner
import ShredTools.Library.Batches
import ShredTools.Library.Selection
import ShredTools.Library.WordArithmetic
import ShredTools.Library.Checks
import ShredTools.Library.Grouping
import ShredTools.Library.LastClaim
import ShredTools.Library.Placement
import ShredTools.Deshred.DataSetEnds
import ShredTools.Deshred.SlotState
import ShredTools.Deshred.Recovery
import ShredTools.Deshred.DataSets
import ShredTools.Deshred.DataSetCompletion
import ShredTools.Deshred.Deshredder
import ShredTools.Deshred.SlotFinish
import ShredTools.Deshred.SlotIsolation
import ShredTools.Deshred.Block
import ShredTools.Deshred.BlockState
import ShredTools.Deshred.BlockRun
import ShredTools.Deshred.LeaderSchedule
import ShredTools.Deshred.ShredVerifier
import ShredTools.Audit.VerifiedShred
import ShredTools.Audit.Verify
import ShredTools.Audit.VerifyChunks
import ShredTools.Audit.Aggregator
import ShredTools.Audit.AggregatorRun
import ShredTools.Audit.AggregatorIsolation
import ShredTools.Audit.AggregatorContents
import ShredTools.Audit.AggregatorRow
import ShredTools.Audit.AggregatorOrder
import ShredTools.Audit.AggregatorVerdicts
import ShredTools.Audit.SlotSigIndex
import ShredTools.Audit.OnchainSignatures
import ShredTools.Audit.FilterSpec
import ShredTools.Audit.FilterWindow
import ShredTools.Audit.FilterHandOut
import ShredTools.Audit.FilterAudit
import ShredTools.Audit.FilterCheck
import ShredTools.Audit.FilterCoverage
import ShredTools.Audit.FilterAccount
import ShredTools.Audit.FilterAccounting
import ShredTools.Audit.FilterCheckRun
import ShredTools.Audit.SigRegistry
import ShredTools.Audit.SigRegistryRun
import ShredTools.Audit.SigRegistryRows
import ShredTools.Audit.SigRegistryRaces
import ShredTools.Audit.WindowLatency
import ShredTools.Audit.RotationSystem
import ShredTools.Audit.WindowEnding
import ShredTools.Audit.RotationInvariant
import ShredTools.Audit.RotationWorker
import ShredTools.Audit.RotationRun
import ShredTools.Postpack.Credits
import ShredTools.Postpack.Store
import ShredTools.Postpack.Payments
import ShredTools.Postpack.StoreRun
import ShredTools.Postpack.TipsOnce
import ShredTools.Postpack.Ledger
import ShredTools.Audit.LiveStats
import ShredTools.Audit.IntervalFold
import ShredTools.Audit.VerifyStats
import ShredTools.Audit.VotePaths
import ShredTools.Audit.LeaderRefresh
import ShredTools.Audit.Bundles
import ShredTools.Audit.Config
import ShredTools.Audit.Registry
import ShredTools.Audit.WindowLife
import ShredTools.Audit.FilterCompare
import ShredTools.Audit.FilterTags
import ShredTools.Audit.FilterVerdicts
import ShredTools.Audit.CursorJump
import ShredTools.Audit.FilterMissed
import ShredTools.Audit.CheckerPace
import ShredTools.Deshred.VerifierBounds
import ShredTools.Postpack.CreditArithmetic
import ShredTools.Postpack.Refusals
import ShredTools.Postpack.HistoryPages
import ShredTools.Postpack.UsageViews
import ShredTools.Deshred.SlotInvariant
import ShredTools.Deshred.CheckedBits
import ShredTools.Library.Iteration
import ShredTools.Audit.BundleRotation
import ShredTools.Postpack.GenuineTips
import ShredTools.Audit.DbWriter
import ShredTools.Audit.CheckedSlots
import ShredTools.Audit.SlotBound
import ShredTools.Deshred.Decodable
import ShredTools.Audit.ProviderStreams
import ShredTools.Library.Channel
import ShredTools.Audit.Receive
import ShredTools.Audit.FrontEnd
import ShredTools.Audit.MainLoop
import ShredTools.Audit.CaptureWindows
import ShredTools.Audit.PgExport
import ShredTools.Example.Decode
import ShredTools.Library.Bytes
import ShredTools.Postpack.Sessions
import ShredTools.Postpack.SessionSafety
import ShredTools.Postpack.TipTool
import ShredTools.Postpack.Redaction
import ShredTools.Postpack.Feed
import ShredTools.Postpack.Streams
import ShredTools.Postpack.Mocks
import ShredTools.Audit.CheckerUpholds
import ShredTools.Audit.HonestSource
import ShredTools.Audit.UpdateViews
import ShredTools.Audit.SpotlessSource
import ShredTools.Audit.ValidatorNames
