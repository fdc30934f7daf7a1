import PraxisPolicy.ApprovalRuns
import PraxisPolicy.BranchJoins
import PraxisPolicy.CacheGenerations
import PraxisPolicy.CacheTransparency
import PraxisPolicy.CapabilityViews
import PraxisPolicy.ChainLinks
import PraxisPolicy.ChangedPaths
import PraxisPolicy.DecisionCaching
import PraxisPolicy.DecisionKeyInjectivity
import PraxisPolicy.DecisionStoreRuns
import PraxisPolicy.DelegationLineage
import PraxisPolicy.DpopReplays
import PraxisPolicy.EffectCompaction
import PraxisPolicy.EffectOutcomes
import PraxisPolicy.ElicitationGate
import PraxisPolicy.ExecutorVerdict
import PraxisPolicy.ExportedLines
import PraxisPolicy.ExtensionFrame
import PraxisPolicy.GlobMatching
import PraxisPolicy.InlineFields
import PraxisPolicy.LayerStacking
import PraxisPolicy.MessageProjections
import PraxisPolicy.OrderExactness
import PraxisPolicy.PluginCoverage
import PraxisPolicy.PluginRegistry
import PraxisPolicy.PredicateSoundness
import PraxisPolicy.ProjectionFaithfulness
import PraxisPolicy.QuotaDebits
import PraxisPolicy.RateLimiters
import PraxisPolicy.RedactedFields
import PraxisPolicy.RedactionCompleteness
import PraxisPolicy.RequireCalls
import PraxisPolicy.RouteAgreement
import PraxisPolicy.RuleSpellings
import PraxisPolicy.SessionTaints
import PraxisPolicy.StreamNumbers
import PraxisPolicy.TokenRequests
import PraxisPolicy.VaultPaths
import PraxisPolicy.FormBodies
import PraxisPolicy.RequestRetries
import PraxisPolicy.ClaimPaths
import PraxisPolicy.CanonicalReading
import PraxisPolicy.DepthLimits
import PraxisPolicy.RouteFrames
