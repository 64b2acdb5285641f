import TestForge.RunEnvironment
import TestForge.Reregistration
import TestForge.RunnerFramework
import TestForge.SpecRegistration
import TestForge.TestRegistry
import TestForge.SortedTable
import TestForge.RestRuns
import TestForge.SelectionCriteria
import TestForge.FrontEnds
import TestForge.CommandLine
import TestForge.Selector
import TestForge.ConfigRoundTrip
import TestForge.Config
import TestForge.ClockRoundTrip
import TestForge.RunJson
import TestForge.Migration
import TestForge.RunListing
import TestForge.StoredRun
import TestForge.RunnerPersistence
import TestForge.RunCounts
import TestForge.ResultRoundTrip
import TestForge.ResultStore
import TestForge.JsonTruncation
import TestForge.AnalysisContext
import TestForge.ContextBudget
import TestForge.FailureContext
import TestForge.JsonAccess
import TestForge.Sequence
import TestForge.Transition
import TestForge.Strings
import TestForge.Masking
import TestForge.Redaction
import TestForge.RedactedMember
import TestForge.Url
import TestForge.UrlRejoin
import TestForge.UrlRoundTrip
import TestForge.NumericAddress
import TestForge.LinkLocal
import TestForge.HttpTypes
import TestForge.Chunked
import TestForge.ChunkedProgress
import TestForge.Double
import TestForge.DoubleRounding
import TestForge.Json
import TestForge.Reading
import TestForge.JsonParser
import TestForge.JsonGrammar
import TestForge.JsonStrings
import TestForge.JsonNumbers
import TestForge.DoubleText
import TestForge.JsonLanguage
import TestForge.JsonDump
import TestForge.JsonRoundTrip
import TestForge.HttpClient
import TestForge.Redirect
import TestForge.HttpServer
import TestForge.ServerConnection
import TestForge.ChunkGrammar
import TestForge.ResponseReading
import TestForge.ResponseCompleteness
import TestForge.Segmentation
import TestForge.ResponseSegments
import TestForge.RequestBody
import TestForge.AcceptLoop
import TestForge.ConnectionAccounts
import TestForge.StaticFiles
import TestForge.HeadGrammar
import TestForge.TestSpec
import TestForge.SpecValidator
import TestForge.SpecTestCase
import TestForge.SpecTarget
import TestForge.RequestRelation
import TestForge.SpecHeaders
import TestForge.SpecSmuggling
import TestForge.SpecGate
import TestForge.Status
import TestForge.Clock
import TestForge.TestResult
import TestForge.FailureClassifier
import TestForge.Verdict
import TestForge.Runner
import TestForge.RunnerMoves
import TestForge.RunnerControl
import TestForge.RunnerRecords
import TestForge.RunnerCancellation
import TestForge.RunnerProgress
import TestForge.RunnerBehaviour
import TestForge.RunnerFailFast
import TestForge.RunnerExitCode
import TestForge.RunnerRetention
import TestForge.RunnerFaithful
import TestForge.RunnerAccounting
import TestForge.Interrupt
import TestForge.ThreadPool
import TestForge.ThreadPoolAccounting
import TestForge.ThreadPoolLiveness
import TestForge.StopSignal
import TestForge.RunCommand
import TestForge.HeaderAgreement
import TestForge.CancellationToken
import TestForge.RequestDeadline
import TestForge.AiSidecar
import TestForge.GlobMatch
import TestForge.SoftAssertions
import TestForge.SpecTyped
import TestForge.RunnerRetry
import TestForge.VerdictConsistency
import TestForge.Sharding
import TestForge.QueryCodec
import TestForge.ChunkStrictness
import TestForge.TransactionGuard
import TestForge.SpecAccounting
import TestForge.SpecStatuses
import TestForge.Narrowing
import TestForge.FlakeRule
import TestForge.HistoryPercentile
import TestForge.LogCapture
import TestForge.JsonUtf8
import TestForge.TruncatedTexts
import TestForge.JsonEquivalence
import TestForge.IntegerReads
import TestForge.ProcessSignals
import TestForge.JUnitTree
import TestForge.HtmlOutline
import TestForge.Deadlines
import TestForge.RunQueries
import TestForge.Routing
import TestForge.PythonValues
import TestForge.SidecarSchema
import TestForge.SchemaTotality
import TestForge.MaskingLoops
import TestForge.RedactionLoops
import TestForge.ResponseAgreement
import TestForge.ExchangeAgreement
import TestForge.KeyedRows
import TestForge.ResultArchive
import TestForge.Generation
import TestForge.GenerationGate
import TestForge.LogJournal
import TestForge.LogDelivery
import TestForge.ShardSummary
import TestForge.DotEnv
import TestForge.ApiExchanges
import TestForge.SampleService
import TestForge.ReportWriter
import TestForge.AnalysisReply
import TestForge.SidecarAnalysis
import TestForge.AnalysisService
import TestForge.ProcReadings
import TestForge.ConfigLayers
