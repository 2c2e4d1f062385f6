import Brainzgraphinator.Base.OrderedDict
import Brainzgraphinator.Base.PropertyGraph
import Brainzgraphinator.Base.GraphViews
import Brainzgraphinator.Base.Except
import Brainzgraphinator.Base.RecordReplay
import Brainzgraphinator.Base.BeamSearch
import Brainzgraphinator.Base.SessionTriples
import Brainzgraphinator.Base.RankedBeam
import Brainzgraphinator.Base.Sorting
import Brainzgraphinator.Base.Counting
import Brainzgraphinator.Base.TicketQueue
import Brainzgraphinator.Base.Runs
import Brainzgraphinator.Base.Unwinding
import Brainzgraphinator.Base.Descent
import Brainzgraphinator.Base.Tallies
import Brainzgraphinator.Base.Locks
import Brainzgraphinator.Base.LockedStore
import Brainzgraphinator.Projections.Json
import Brainzgraphinator.Projections.Serialization
import Brainzgraphinator.Projections.Rows
import Brainzgraphinator.Projections.RowLaws
import Brainzgraphinator.Projections.Statements
import Brainzgraphinator.Projections.Enrich
import Brainzgraphinator.Projections.EntityBatch
import Brainzgraphinator.Projections.NodeProps
import Brainzgraphinator.Projections.ReleaseWrite
import Brainzgraphinator.Projections.MediaStatements
import Brainzgraphinator.Projections.MediaPhase
import Brainzgraphinator.Projections.ReleaseView
import Brainzgraphinator.Projections.StoredDigest
import Brainzgraphinator.Projections.BatchEquivalence
import Brainzgraphinator.Projections.ReplayGate
import Brainzgraphinator.Projections.MediumPrune
import Brainzgraphinator.Projections.UsedMedia
import Brainzgraphinator.Projections.RelationMerge
import Brainzgraphinator.Projections.RelationBatch
import Brainzgraphinator.Projections.ArtistWrite
import Brainzgraphinator.Projections.ArtistHistory
import Brainzgraphinator.Projections.RelationsGate
import Brainzgraphinator.Projections.DigestExact
import Brainzgraphinator.Projections.GroupedRelations
import Brainzgraphinator.Projections.FlushBoundaries
import Brainzgraphinator.Projections.ForeignEdges
import Brainzgraphinator.Projections.EntityTypes
import Brainzgraphinator.Projections.EntityWrites
import Brainzgraphinator.Projections.BatchFallback
import Brainzgraphinator.Projections.SettledRelations
import Brainzgraphinator.Projections.ReplayIdempotent
import Brainzgraphinator.Projections.ConcurrentPrune
import Brainzgraphinator.Projections.MediaContention
import Brainzgraphinator.Projections.LockCoverage
import Brainzgraphinator.Projections.SoloWrite
import Brainzgraphinator.Projections.Isolation
import Brainzgraphinator.Projections.Interleavings
import Brainzgraphinator.Projections.Vocabulary
import Brainzgraphinator.Projections.LastWriter
import Brainzgraphinator.Projections.ReleaseHistory
import Brainzgraphinator.Delivery.Batcher
import Brainzgraphinator.Delivery.Linger
import Brainzgraphinator.Delivery.Flushes
import Brainzgraphinator.Delivery.FlushSteps
import Brainzgraphinator.Delivery.FlushInvariant
import Brainzgraphinator.Delivery.FlushSettles
import Brainzgraphinator.Delivery.SerializedFlushes
import Brainzgraphinator.Delivery.Service
import Brainzgraphinator.Delivery.AckAfterCommit
import Brainzgraphinator.Delivery.Completion
import Brainzgraphinator.Delivery.PoisonIsolation
import Brainzgraphinator.Delivery.Counters
import Brainzgraphinator.Delivery.CountingService
import Brainzgraphinator.Delivery.CountersExact
import Brainzgraphinator.Delivery.Enricher
import Brainzgraphinator.Delivery.NewestWins
import Brainzgraphinator.Delivery.Draining
import Brainzgraphinator.Lifecycle.Transport
import Brainzgraphinator.Lifecycle.Timers
import Brainzgraphinator.Lifecycle.State
import Brainzgraphinator.Lifecycle.Coroutines
import Brainzgraphinator.Lifecycle.Phases
import Brainzgraphinator.Lifecycle.Effects
import Brainzgraphinator.Lifecycle.Bookkeeping
import Brainzgraphinator.Lifecycle.Turns
import Brainzgraphinator.Lifecycle.Subscriptions
import Brainzgraphinator.Lifecycle.Serving
import Brainzgraphinator.Lifecycle.Starvation
import Brainzgraphinator.Lifecycle.Dormancy
import Brainzgraphinator.Lifecycle.StaleTimers
import Brainzgraphinator.Lifecycle.Connections
import Brainzgraphinator.Lifecycle.Recovery
import Brainzgraphinator.Lifecycle.RequestReset
import Brainzgraphinator.Lifecycle.Teardown
import Brainzgraphinator.Lifecycle.WindingDown
import Brainzgraphinator.Lifecycle.Topology
import Brainzgraphinator.TagMapping.Traverse
import Brainzgraphinator.TagMapping.Capturer
import Brainzgraphinator.TagMapping.Replay
import Brainzgraphinator.TagMapping.Accounting
import Brainzgraphinator.TagMapping.Ranking
import Brainzgraphinator.TagMapping.Evaluate
import Brainzgraphinator.TagMapping.CapturedEvaluation
import Brainzgraphinator.TagMapping.Inventory
import Brainzgraphinator.TagMapping.TaxonomyExport
