import XbowPerso.Theorems.ActiveValidation
import XbowPerso.Theorems.AffectedVersionRange
import XbowPerso.Theorems.BackendParity
import XbowPerso.Theorems.BackupManifest
import XbowPerso.Theorems.BatchMembers
import XbowPerso.Theorems.CancelStart
import XbowPerso.Theorems.CompareAndSwap
import XbowPerso.Theorems.CveAdvisoryConsensus
import XbowPerso.Theorems.DecisionChain
import XbowPerso.Theorems.DomainIncidents
import XbowPerso.Theorems.EgressRequest
import XbowPerso.Theorems.EnqueueHistory
import XbowPerso.Theorems.EvidenceChain
import XbowPerso.Theorems.Feasibility
import XbowPerso.Theorems.FileChunks
import XbowPerso.Theorems.FindingClusters
import XbowPerso.Theorems.HackerOnePaging
import XbowPerso.Theorems.HackerOneReportSync
import XbowPerso.Theorems.HypothesisMemory
import XbowPerso.Theorems.IdempotentEnqueue
import XbowPerso.Theorems.LearningMemory
import XbowPerso.Theorems.LeaseFencing
import XbowPerso.Theorems.OpenApiPreview
import XbowPerso.Theorems.OutboxReconcile
import XbowPerso.Theorems.PlannerSafety
import XbowPerso.Theorems.QueueRecovery
import XbowPerso.Theorems.QueueWaiting
import XbowPerso.Theorems.ReconIsolation
import XbowPerso.Theorems.RedisRateLimit
import XbowPerso.Theorems.RestorePreflight
import XbowPerso.Theorems.RunnerReplay
import XbowPerso.Theorems.ScanCoverage
import XbowPerso.Theorems.ScanIngestion
import XbowPerso.Theorems.ScannerFiles
import XbowPerso.Theorems.SignedAudit
import XbowPerso.Theorems.SurfaceTemporal
import XbowPerso.Theorems.TextClock
import XbowPerso.Theorems.WorkerOutcome
