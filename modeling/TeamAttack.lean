import TeamAttack.Library.Runs
import TeamAttack.Library.OnceBoard
import TeamAttack.Library.ByteMemory
import TeamAttack.Library.LittleEndian
import TeamAttack.Library.CheckedWord
import TeamAttack.Library.RustStr
import TeamAttack.Library.HexText
import TeamAttack.Library.PyStr
import TeamAttack.Library.PyDict
import TeamAttack.Library.RustSlice
import TeamAttack.Library.ExceptRules
import TeamAttack.Library.Hoare
import TeamAttack.Config
import TeamAttack.Capture
import TeamAttack.Validation
import TeamAttack.Watch
import TeamAttack.Application
import TeamAttack.ApplicationProbe
import TeamAttack.MutationGuards
import TeamAttack.MutationRuns
import TeamAttack.Footprint
import TeamAttack.CaptureSchedule
import TeamAttack.CaptureOnce
import TeamAttack.Lifecycle
import TeamAttack.CaptureLog
import TeamAttack.Serializer
import TeamAttack.Allowlist
import TeamAttack.CodecProbe
import TeamAttack.ConfigHex
import TeamAttack.Install
import TeamAttack.InstallGates
import TeamAttack.InstallSteps
import TeamAttack.InstallFailure
import TeamAttack.Recorder
import TeamAttack.RecorderSlots
import TeamAttack.RecorderCalls
import TeamAttack.RecorderRows
import TeamAttack.RecorderLimit
import TeamAttack.EventText
import TeamAttack.LineText
import TeamAttack.RecordedEvents
import TeamAttack.OwnerReview
import TeamAttack.MutationTruth
import TeamAttack.LogReaders
import TeamAttack.LogText
import TeamAttack.LogLines
import TeamAttack.LogSteps
import TeamAttack.LogRoundTrip
import TeamAttack.WatchRows
import TeamAttack.ProbeSchedule
import TeamAttack.ProbeSlots
import TeamAttack.ProbeAlone
import TeamAttack.ProbeDrains
import TeamAttack.ProbeAccounts
import TeamAttack.EventIds
import TeamAttack.IntegerText
import TeamAttack.ConfigTotal
import TeamAttack.Library.RustLines
import TeamAttack.ConfigKeys
import TeamAttack.ConfigGrammar
import TeamAttack.ConfigMeaning
import TeamAttack.ParticipantLayout
import TeamAttack.PayloadRoundTrip
import TeamAttack.PcRelative
import TeamAttack.SignatureGate
import TeamAttack.CandidateBits
import TeamAttack.LogDirectory
import TeamAttack.ExtractNso
import TeamAttack.RuleBindings
import TeamAttack.Library.ChunkWindows
import TeamAttack.ScanChunks
import TeamAttack.ChunkedTracing
import TeamAttack.AnchorScan
import TeamAttack.AnchorChunks
import TeamAttack.InspectSerializer
import TeamAttack.MaterializeReviewed
import TeamAttack.RecorderLines
import TeamAttack.RecorderWrites
import TeamAttack.RecorderProgress
import TeamAttack.SessionLog
import TeamAttack.SessionReadBack
import TeamAttack.Library.MemoryBlocks
import TeamAttack.Codec
import TeamAttack.CodecRoundTrip
import TeamAttack.CodecSelfTest
import TeamAttack.CodecEvents
import TeamAttack.CompareDumps
import TeamAttack.SessionPolls
import TeamAttack.LaunchSummary
import TeamAttack.AbAnalysis
import TeamAttack.Library.A64Memory
import TeamAttack.Library.Timelines
import TeamAttack.RuleTimeline
import TeamAttack.WatchSource
