import Neoth.BudgetRaft.Dispatch
import Neoth.BudgetRaft.StoreSnapshots
import Neoth.MeshSync.Agreement
import Neoth.Authority.Wire
import Neoth.Authority.Replay
import Neoth.Delegation.Custody
import Neoth.Delegation.Lifecycle
import Neoth.Memory.TierRuns
import Neoth.MeshSync.Divergence
import Neoth.Permissions.Soundness
import Neoth.SyncRequests.LeaseRuns
import Neoth.Council.DailyBudgetRuns
import Neoth.Providers.CircuitBreaker
import Neoth.Providers.Singleflight
import Neoth.Council.DayCounter
import Neoth.Memory.ContextVocabulary
import Neoth.Wal.HybridClock
import Neoth.BudgetRaft.CarrierMatching
import Neoth.MeshSync.ClockOrder
import Neoth.Wal.CheckpointPair
import Neoth.Wal.RewriteJournalTexts
import Neoth.Wal.WindowTampering
import Neoth.Wal.QuotaAccounting
import Neoth.Wal.WindowAgreement
import Neoth.Mcp.LeaseScopes
import Neoth.Tokens.PromptFit
import Neoth.Delegation.Executor
import Neoth.Memory.Ingress
import Neoth.Memory.Resolution
import Neoth.Memory.Resync
import Neoth.Wal.ReceiptManifests
import Neoth.Cron.Collisions
import Neoth.Cron.Waves
import Neoth.Memory.Chunking
import Neoth.Memory.NearestVocab
import Neoth.Pipeline.Compaction
import Neoth.Compress.KeptChanges
import Neoth.Compress.KeptErrors
import Neoth.Compress.KeptOutliers
import Neoth.Compress.Collisions
import Neoth.Compress.SearchOffload
import Neoth.Compress.Ccr
import Neoth.Security.IngressSanitizer
import Neoth.Security.PromptEnvelope
import Neoth.Permissions.TrustLedger
import Neoth.BudgetRaft.FencePreimages
import Neoth.Wal.ReplayOrder
