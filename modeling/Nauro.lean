import Nauro.Foundation.LineText
import Nauro.Foundation.Trim
import Nauro.Foundation.EscapedUtf8
import Nauro.Foundation.KeepFirst
import Nauro.Foundation.SectionedDocument
import Nauro.Foundation.DocumentUnion
import Nauro.Foundation.Table
import Nauro.Core.Text
import Nauro.Core.State
import Nauro.Core.Parsing
import Nauro.Core.Provenance
import Nauro.Core.Frontmatter
import Nauro.Core.PlainYaml
import Nauro.Core.DecisionBody
import Nauro.Core.DecisionScan
import Nauro.Core.RejectedSection
import Nauro.Core.Decision
import Nauro.Core.DecisionRoundTrip
import Nauro.Core.DecisionReformat
import Nauro.Core.Questions
import Nauro.Sync.Merge
import Nauro.Sync.MergeLaws
import Nauro.Sync.HistoryMerge
import Nauro.Core.ProposeDecision
import Nauro.Core.ProposeReadBack
import Nauro.Foundation.DocumentAbsorb
import Nauro.Sync.MergeStability
import Nauro.Foundation.Json
import Nauro.Foundation.JsonRoundTrip
import Nauro.Core.QuestionProvenance
import Nauro.Core.QuestionProvenanceCodec
import Nauro.Core.QuestionLines
import Nauro.Core.QuestionChanges
import Nauro.Core.FlagQuestion
import Nauro.Core.QuestionMinting
import Nauro.Core.QuestionResolution
import Nauro.Core.JudgmentCommit
import Nauro.Core.ResolvedQuestions
import Nauro.Foundation.StrongComponents
import Nauro.Core.Doctor
import Nauro.Core.Repair
import Nauro.Core.RepairSoundness
import Nauro.Core.StoreGrowth
import Nauro.Core.SupersedeHalves
import Nauro.Core.StatePlan
import Nauro.Foundation.Session
import Nauro.Sync.JudgmentSubmission
import Nauro.Sync.JudgmentProtocol
import Nauro.Sync.QuestionContract
import Nauro.Sync.QuestionSubmission
import Nauro.Sync.QuestionProtocol
import Nauro.Client.Registry
import Nauro.Client.RegistryOwners
import Nauro.Client.RegistryRuns
import Nauro.Client.Restore
import Nauro.Client.RestoreRuns
import Nauro.Client.Generation
import Nauro.Client.Publication
import Nauro.Client.PublicationRuns
import Nauro.Client.RefreshIntent
import Nauro.Client.GenerationRefresh
import Nauro.Client.RefreshRuns
import Nauro.Core.QuestionRoundTrip
import Nauro.Core.QuestionAppend
import Nauro.Core.DecisionHeadings
import Nauro.Core.ResolutionOutcomes
import Nauro.Core.QuestionContext
import Nauro.Client.AgentsMd
import Nauro.Client.AgentsSections
import Nauro.Client.AgentsRuns
import Nauro.Sync.PushPlan
import Nauro.Sync.PushPaths
import Nauro.Sync.Transport
import Nauro.Sync.Push
import Nauro.Sync.PushReport
import Nauro.Core.DuplicateScreening
import Nauro.Core.DecisionLookup
import Nauro.Core.RecentDecisions
import Nauro.Core.ReferenceScan
import Nauro.Core.StateArchive
import Nauro.Core.GraphComponents
import Nauro.Foundation.LowLinks
import Nauro.Core.DecisionCycles
import Nauro.Core.ClaimContract
import Nauro.Core.JudgmentFinalize
import Nauro.Foundation.LineCuts
import Nauro.Sync.Headings
import Nauro.Sync.DecisionFile
import Nauro.Sync.HeadingAgreement
import Nauro.Sync.HeadingRepair
import Nauro.Sync.DecisionCorpus
import Nauro.Sync.CompletionPass
import Nauro.Sync.Collisions
import Nauro.Foundation.PercentEncoding
import Nauro.Sync.QuarantineNames
import Nauro.Client.Projection
import Nauro.Foundation.DirectoryTree
import Nauro.Client.Acquisition
import Nauro.Client.GenerationTree
import Nauro.Client.GenerationAudit
import Nauro.Client.GenerationStaging
import Nauro.Client.LegacyInventory
import Nauro.Client.MigrationPlan
import Nauro.Client.MigrationCoverage
import Nauro.Core.StackProjection
import Nauro.Sync.DecisionNames
import Nauro.Client.CodexHooks
import Nauro.Client.CodexHookFrame
import Nauro.Client.CodexHookRuns
import Nauro.Client.Snapshots
import Nauro.Client.SnapshotVersions
import Nauro.Client.SnapshotRetention
import Nauro.Foundation.JsonAscii
import Nauro.Client.Journal
import Nauro.Client.JournalReading
import Nauro.Client.GitHygiene
import Nauro.Client.GitHygieneRuns
import Nauro.Client.GitHygieneLosses
import Nauro.Client.ClaudeBridge
import Nauro.Client.ClaudeBridgeLines
import Nauro.Client.ClaudeBridgeRemoval
import Nauro.Client.ClaudeBridgeExact
import Nauro.Sync.ListedNames
import Nauro.Sync.DecisionListing
import Nauro.Sync.CollisionVerdicts
import Nauro.Sync.CorpusUpkeep
import Nauro.Sync.DecisionBatch
import Nauro.Sync.PullBatch
import Nauro.Core.CommittedTexts
import Nauro.Core.HostedCommits
import Nauro.Foundation.OwnedNames
import Nauro.Core.CommittedRuns
import Nauro.Core.HostedLedger
import Nauro.Core.GraphPayload
