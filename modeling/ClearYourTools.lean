import ClearYourTools.Bm25Cohesion.Proofs.MergeLoop
import ClearYourTools.Bm25Search.CatalogFingerprint
import ClearYourTools.Bm25Search.Proofs.SkillBudget
import ClearYourTools.Cache.Proofs.HotCache
import ClearYourTools.Cache.Proofs.Lock
import ClearYourTools.Cache.Proofs.ServedIndex
import ClearYourTools.Cache.Proofs.ToolsCatalog
import ClearYourTools.CytClient.Proofs.CatalogSync
import ClearYourTools.CytClient.Proofs.DenialOutput
import ClearYourTools.CytClient.Proofs.Pairing
import ClearYourTools.CytClient.Proofs.ReadEscalation
import ClearYourTools.CytClient.Proofs.SchemaTermination
import ClearYourTools.CytClient.Proofs.SearchCapture
import ClearYourTools.CytClient.Proofs.ShellCalls
import ClearYourTools.CytClient.Proofs.UsageFeedback
import ClearYourTools.CytMcp.Backends
import ClearYourTools.CytMcp.Proofs.CatalogDisk
import ClearYourTools.CytMcp.Proofs.CatalogPush
import ClearYourTools.CytMcp.Proofs.WorkspaceScope
import ClearYourTools.Executor.Proofs.FlappingRestart
import ClearYourTools.HealthGates.Proofs.FirstQuarantine
import ClearYourTools.Hook.Proofs.RegistrySnapshot
import ClearYourTools.Injection.Proofs.MergedText
import ClearYourTools.Injection.SkillHash
import ClearYourTools.Migrations.Proofs.ModelProviders
import ClearYourTools.PageIndex.Proofs.FrontmatterKept
import ClearYourTools.PageIndex.Proofs.HeadingTree
import ClearYourTools.PageIndex.Proofs.SkillsRepair
import ClearYourTools.Permissions.Proofs.DenyLayers
import ClearYourTools.Permissions.Proofs.Enabling
import ClearYourTools.Permissions.Proofs.ResolvedOverlays
import ClearYourTools.Permissions.Proofs.SkillRules
import ClearYourTools.Permissions.Proofs.Wizard
import ClearYourTools.Permissions.SkillRegistry
import ClearYourTools.Pipeline.Proofs.Attribution
import ClearYourTools.Proxy.Proofs.LosslessInjection
import ClearYourTools.Proxy.Proofs.StatsBudget
import ClearYourTools.Proxy.Proofs.SurgicalStrip
import ClearYourTools.Proxy.Proofs.UnnamedTools
import ClearYourTools.Pruners.Proofs.Bulks
import ClearYourTools.Pruners.Proofs.Namesakes
import ClearYourTools.Pruners.Proofs.SelectorScores
import ClearYourTools.Tiers.Proofs.Conservation
import ClearYourTools.Tiers.Proofs.Dormancy
import ClearYourTools.Tiers.Proofs.DryRun
import ClearYourTools.Tiers.Proofs.EpochRoll
import ClearYourTools.Tiers.Proofs.StoredDecay
import ClearYourTools.ToolExamples.Proofs.Constraints
import ClearYourTools.ToolExamples.Proofs.DryRun
import ClearYourTools.Tools.Proofs.MasterCatalog
import ClearYourTools.Tools.Proofs.Serialize
import ClearYourTools.Tools.Serialize
