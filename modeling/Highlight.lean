import Highlight.Reactor.Session
import Highlight.Scope.Nested
import Highlight.Storage.Files
import Highlight.Tree.Outline
import Highlight.WorkerPool.Tally
import Highlight.Proofs.ReactorRun
import Highlight.Proofs.LatestSelection
import Highlight.Proofs.LiveSpans
import Highlight.Proofs.TreeGeometry
import Highlight.Proofs.OccurrenceClasses
import Highlight.Proofs.ScopeWalk
import Highlight.Proofs.StructuralScopes
import Highlight.Proofs.ScopeTables
import Highlight.Proofs.StructuralResolution
import Highlight.Proofs.Replacement
import Highlight.Proofs.Renaming
import Highlight.Proofs.ExactOccurrences
import Highlight.Proofs.SearchCompleteness
import Highlight.Proofs.DecorationHistory
import Highlight.Proofs.LiveHighlights
import Highlight.Proofs.CommitOrder
import Highlight.Proofs.OwnDecorations
import Highlight.Proofs.FailedJobs
import Highlight.Proofs.ParseTransparency
import Highlight.Proofs.CrashingJobs
import Highlight.Proofs.SingleWorker
import Highlight.Proofs.SmallestEdit
import Highlight.Proofs.CharacterBytes
import Highlight.Proofs.OffsetMapping
import Highlight.Proofs.SpanDerivation
import Highlight.Proofs.WhitespaceEdits
import Highlight.Proofs.LetBindings
import Highlight.Proofs.EnclosingSelection
import Highlight.Proofs.SoundSpans
import Highlight.Proofs.PickedNames
import Highlight.Proofs.Cancellation
import Highlight.Proofs.CanonicalDeclarations
import Highlight.Proofs.DisjointSpans
import Highlight.Proofs.PoolChronicle
import Highlight.Proofs.RefusedCommits
import Highlight.Proofs.WalkStations
import Highlight.Proofs.ScopeForest
import Highlight.Proofs.EditPoints
import Highlight.Proofs.IssuedHandles
import Highlight.Proofs.JobsInFlight
