import Brain.Lib.Grouping
import Brain.Lib.Listing
import Brain.Lib.InsertionMap
import Brain.Lib.Table
import Brain.Lib.Sweep
import Brain.Lib.Timeline
import Brain.Lib.Segments
import Brain.Lib.Splice
import Brain.Lib.Runs
import Brain.Lib.Optimistic
import Brain.Lib.Statements
import Brain.Lib.Forest
import Brain.Lib.JsString
import Brain.Lib.JsonText
import Brain.Lib.StableSort
import Brain.Db.KnowledgeFact
import Brain.Ingest.ConflictResolver
import Brain.Ai.PredicateRegistry
import Brain.Ai.PredicateRegistryService
import Brain.Db.ResolveFact
import Brain.Db.FieldAsserts
import Brain.Ingest.IngestService
import Brain.Facts.FactsService
import Brain.Facts.RetractStatements
import Brain.Dreams.Resolver
import Brain.Search.WhereBuilder
import Brain.Search.GraphRetrieveDb
import Brain.Search.Visibility
import Brain.Search.PointInTime
import Brain.Search.Retrieval
import Brain.Search.Ranking
import Brain.Search.GraphRetrieve
import Brain.Search.ResponseBuilder
import Brain.Search.SearchService
import Brain.Search.Rewording
import Brain.Search.Provenance
import Brain.Search.EdgeWalk
import Brain.Search.Reattribution
import Brain.Dreams.Dedup
import Brain.Search.Probe
import Brain.Search.ReadPaths
import Brain.Search.MergedEntities
import Brain.Search.AnchoredSearch
import Brain.Search.RerankWindow
import Brain.Synthesize.SynthesizeService
import Brain.Synthesize.FailClosed
import Brain.Synthesize.DecisionLog
import Brain.Lib.Distinct
import Brain.Lib.Greedy
import Brain.Lib.HandOff
import Brain.Lib.FirstSeen
import Brain.MultiHop.MultiHopService
import Brain.MultiHop.SetAlgebra
import Brain.Compaction.CompactionService
import Brain.Compaction.SummaryInterval
import Brain.Compaction.Once
import Brain.Compaction.Revival
import Brain.Entities.EntitiesService
import Brain.Facts.SingleActiveTimeline
import Brain.Facts.Lifecycle
import Brain.Facts.TenantLife
import Brain.Facts.Derivation
import Brain.Facts.Retry
import Brain.Facts.Uniqueness
import Brain.Facts.Cascade
import Brain.Facts.Contest
import Brain.Facts.Intervals
import Brain.Ingest.ConcurrentIngest
import Brain.Ingest.IngestLink
import Brain.Db.TenantDb
import Brain.Diff.MemoryDiff
import Brain.Diff.Windows
import Brain.Diff.Replacements
import Brain.Ingest.IdentityMerge
import Brain.Ingest.ExternalRefKey
import Brain.Ingest.ExternalRefRace
import Brain.Auth.ApiKeyGuard
import Brain.Ingest.Predictor
import Brain.Mcp.EntityReadTools
import Brain.Compaction.DerivedTexts
import Brain.Compaction.Disclosure
import Brain.Entities.Forget
import Brain.Entities.Erasure
import Brain.Entities.ForgetRetry
import Brain.Entities.ForgetRun
import Brain.Lib.LruCache
import Brain.SummarizeEntity.SummarizeEntityService
import Brain.SummarizeEntity.CachedBriefings
import Brain.Jobs.JobRun
import Brain.Jobs.JobClaimService
import Brain.Jobs.JobQueue
import Brain.Jobs.TerminalStates
import Brain.Jobs.Cancellation
import Brain.Jobs.WorkerLoop
import Brain.Jobs.LostClaim
import Brain.Jobs.AttemptBudget
import Brain.Jobs.LeaderLeaseService
import Brain.Common.DistributedLeaseGuard
import Brain.Audit.ChangefeedConsumer
import Brain.Audit.Completeness
import Brain.Audit.ExactlyOnce
import Brain.Artifacts.ArtifactsService
import Brain.Ingest.IngestRun
import Brain.Ingest.LanguageTags
import Brain.Entities.References
import Brain.Entities.ErasureRace
import Brain.Ai.ExtractorInternals
import Brain.Ai.ExtractorService
import Brain.Ai.MultiPass
import Brain.Ai.SelfConsistency
import Brain.Ai.CacheTransparency
import Brain.Ai.Canonicalize
import Brain.Ai.AliasChains
import Brain.Ai.StableCanonicalization
import Brain.Ai.RetiredPredicates
import Brain.Ingest.AliasedPredicates
import Brain.Ai.CalibrationRefit
import Brain.Compaction.LearnedOutcomes
import Brain.Artifacts.CurrentFacts
import Brain.Artifacts.Freshness
import Brain.Artifacts.Templates
import Brain.Artifacts.SharedRow
import Brain.ChatRouter.Validator
import Brain.ChatRouter.JsonExtract
import Brain.ChatRouter.GroundedSpans
import Brain.ChatRouter.LocalPrepass
import Brain.ChatRouter.RouteCache
import Brain.ChatRouter.WordOccurrences
import Brain.Db.SchemaQueue
import Brain.Db.Migrator
import Brain.Ai.ClauseSplitter
import Brain.Ai.LocalSynth
import Brain.Db.ConnectionPool
import Brain.Lib.Rankings
import Brain.Ai.RerankerService
import Brain.Ai.FailedPasses
import Brain.Search.NeighbourInjection
import Brain.Search.HybridFusion
import Brain.Lib.NewestOfEach
import Brain.Search.GraphHits
import Brain.Lib.KeyMaxima
import Brain.Search.DegreeBoost
import Brain.Lib.Mass
import Brain.Search.PageRank
import Brain.Search.HitAssembly
import Brain.Lib.DropLeast
import Brain.Search.OutputShaping
import Brain.Jobs.JobWorkerPool
import Brain.Lib.Recency
import Brain.Common.LRUCache
import Brain.Common.Semaphore
import Brain.Ai.GroundedSearch
import Brain.Ai.LanguageDetector
import Brain.Search.FactCap
import Brain.Lib.Placement
import Brain.Ai.EmbedderService
import Brain.Ai.RawReferences
import Brain.Lib.PoolAdjacent
import Brain.Ai.Isotonic
import Brain.Ai.CalibratedPairs
import Brain.Lib.OffsetPaging
import Brain.Ai.ReindexEmbeddings
import Brain.Jobs.EnqueueOnce
import Brain.Common.Parallel
import Brain.Lib.TopRows
import Brain.Lib.Tally
import Brain.Admin.Listings
import Brain.Facts.History
import Brain.Diff.Replica
import Brain.Ingest.ConflictExplainer
import Brain.Common.TenantSnapshots
import Brain.Search.TrueRows
import Brain.Search.TrueHits
import Brain.Search.ShortAnswers
import Brain.Search.ReadYourWrites
import Brain.Ai.CalibrationService
import Brain.Lib.Correlation
import Brain.Ai.BgeM3Provider
import Brain.Lib.FifoCache
import Brain.Ai.PredicateRouter
import Brain.Lib.Window
import Brain.Common.DebugTrace
import Brain.Procedural.ProceduralMemory
