import Hopclaw.Cli.Undo
import Hopclaw.Proofs.BlockedCommands
import Hopclaw.Context.Budget
import Hopclaw.Knowledge.ChunkParts
import Hopclaw.Proofs.RateBound
import Hopclaw.Proofs.OverlayState
import Hopclaw.Proofs.QueueAccounting
import Hopclaw.Proofs.SlotExclusion
import Hopclaw.Proofs.Dedupe
import Hopclaw.Proofs.PlanStuck
import Hopclaw.Proofs.TaskStatuses
import Hopclaw.Proofs.PolicyChain
import Hopclaw.Proofs.SsrfGuard
import Hopclaw.Proofs.ArchiveWrites
import Hopclaw.Proofs.EventIndex
import Hopclaw.Proofs.RunStoreAgreement
import Hopclaw.Proofs.RunIDs
import Hopclaw.Proofs.ReloadOrder
import Hopclaw.Proofs.SessionMaps
import Hopclaw.Proofs.SessionStoreAgreement
import Hopclaw.Proofs.ApprovalStoreAgreement
import Hopclaw.Proofs.ExternalIndex
import Hopclaw.Proofs.CronOccurrences
import Hopclaw.Proofs.CronEdits
import Hopclaw.Proofs.IntervalTicks
import Hopclaw.Proofs.CronWakeups
import Hopclaw.Proofs.WakeupTriggers
import Hopclaw.Proofs.ScopeConfinement
import Hopclaw.Proofs.WorkflowChain
import Hopclaw.Proofs.SegmentRanges
import Hopclaw.Proofs.ToolPairing
import Hopclaw.Proofs.PromptBudget
import Hopclaw.Proofs.FactsKept
import Hopclaw.Proofs.EventReplay
import Hopclaw.Proofs.OutboxEntries
import Hopclaw.Proofs.DeliveredOnce
import Hopclaw.Proofs.DeliveryRetries
import Hopclaw.Proofs.GrantFrame
import Hopclaw.Proofs.StreamedText
import Hopclaw.Proofs.ReleaseChoice
import Hopclaw.Proofs.WireNames
import Hopclaw.Store.TimeText
