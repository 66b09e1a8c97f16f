import AionisCore.Memory.ReplayIsolation
import AionisCore.Store.WriteTx
import AionisCore.Memory.EvidenceReadBack
import AionisCore.Memory.PatternTrust
import AionisCore.Memory.AuthorityDecision
import AionisCore.Execution.TransitionHistory
import AionisCore.Execution.StateRevision
import AionisCore.Execution.StateIsolation
import AionisCore.Memory.CommitVisibility
import AionisCore.Store.SessionIsolation
import AionisCore.Util.EmbedQueryProgress
import AionisCore.Memory.SandboxCancel
import AionisCore.Memory.AutomationCoupling
import AionisCore.Memory.AutomationProgress
import AionisCore.Store.SnapshotFiles
import AionisCore.Memory.ToolsFeedbackRules
import AionisCore.Jobs.PromotedEdges
import AionisCore.Memory.PatternOverride
import AionisCore.Memory.OutboxRouting
import AionisCore.Memory.CommitChain
import AionisCore.Memory.ReplayCompiledRun
import AionisCore.AionisDoc.Coverage
import AionisCore.AionisDoc.References
import AionisCore.AionisDoc.EnvelopeExecution
import AionisCore.Memory.EvidenceExtraction
import AionisCore.Store.NodeSearch
import AionisCore.Memory.RuleConditions
import AionisCore.Memory.RegexGroups
import AionisCore.Memory.ClientIdentity
import AionisCore.Memory.PolicyPrecedence
import AionisCore.Memory.InlineEmbedding
import AionisCore.Util.RateLimit
import AionisCore.Execution.AggregateEvidence
import AionisCore.Memory.SandboxEgress
import AionisCore.Util.IpGuard
import AionisCore.Util.Redaction
import AionisCore.Memory.AutomationDependence
import AionisCore.Memory.SandboxOutput
import AionisCore.Memory.SemanticForgetting
import AionisCore.Memory.SlotNormalization
import AionisCore.Memory.RehydrateReport
import AionisCore.Memory.ToolsSelectOrder
import AionisCore.Store.SnapshotCompaction
import AionisCore.Memory.ContextRules
import AionisCore.Store.DecisionLookup
import AionisCore.Util.LruTtlCache
import AionisCore.Memory.Uri
