import Kompli.AtomicFile.AllOrNothing
import Kompli.AtomicFile.AtomicFile
import Kompli.AtomicFile.Calls
import Kompli.AtomicFile.Custody
import Kompli.AtomicFile.Functions
import Kompli.AtomicFile.System
import Kompli.BenchmarkIO.Accepted
import Kompli.BenchmarkIO.BenchmarkDefinition
import Kompli.BenchmarkIO.ContentVersion
import Kompli.BenchmarkIO.Identity
import Kompli.BenchmarkIO.Resource
import Kompli.BenchmarkIO.RuleResult
import Kompli.BenchmarkIO.VersionOrder
import Kompli.Cli.BenchmarkFormatter
import Kompli.Cli.CliOptions
import Kompli.Cli.JUnitCases
import Kompli.Cli.JUnitRenderer
import Kompli.Cli.JUnitReport
import Kompli.Cli.JUnitSize
import Kompli.Cli.ParameterOverrides
import Kompli.Cli.Plan
import Kompli.Cli.PlanFile
import Kompli.Cli.PlanRoundTrip
import Kompli.Cli.Reproduction
import Kompli.Cli.Requests
import Kompli.Cli.ResultText
import Kompli.Cli.Run
import Kompli.Cli.RunAccounting
import Kompli.Cli.RunTrace
import Kompli.Cli.Selectors
import Kompli.Cli.TextRenderers
import Kompli.Cli.TrailingData
import Kompli.Cli.VersionCheck
import Kompli.Cli.XmlCharacters
import Kompli.Cli.XmlOutput
import Kompli.ComplianceEngine.Applicability
import Kompli.ComplianceEngine.ArgumentSubstitution
import Kompli.ComplianceEngine.AuditSafety
import Kompli.ComplianceEngine.Base64
import Kompli.ComplianceEngine.BenchmarkInfo
import Kompli.ComplianceEngine.Bindings
import Kompli.ComplianceEngine.CompleteReads
import Kompli.ComplianceEngine.DirectoryCleanup
import Kompli.ComplianceEngine.DirectoryListing
import Kompli.ComplianceEngine.DistributionInfo
import Kompli.ComplianceEngine.DistributionInfoFile
import Kompli.ComplianceEngine.EmbeddedNul
import Kompli.ComplianceEngine.Engine
import Kompli.ComplianceEngine.EvaluationContext
import Kompli.ComplianceEngine.EvaluationState
import Kompli.ComplianceEngine.Evaluator
import Kompli.ComplianceEngine.FileIterator
import Kompli.ComplianceEngine.FileObjectCollector
import Kompli.ComplianceEngine.FilesystemCache
import Kompli.ComplianceEngine.FilesystemScanner
import Kompli.ComplianceEngine.Formattable
import Kompli.ComplianceEngine.FormattableAudit
import Kompli.ComplianceEngine.Formatters
import Kompli.ComplianceEngine.Indicators
import Kompli.ComplianceEngine.Interface
import Kompli.ComplianceEngine.JsonFormatter
import Kompli.ComplianceEngine.JsonRoundTrip
import Kompli.ComplianceEngine.JsonWrapper
import Kompli.ComplianceEngine.ListDirectory
import Kompli.ComplianceEngine.ListValidShells
import Kompli.ComplianceEngine.LuaEvaluator
import Kompli.ComplianceEngine.LuaForwarding
import Kompli.ComplianceEngine.MmiResults
import Kompli.ComplianceEngine.NetworkTools
import Kompli.ComplianceEngine.OpenPorts
import Kompli.ComplianceEngine.ParameterText
import Kompli.ComplianceEngine.ParameterUpdate
import Kompli.ComplianceEngine.PasswordCreditUnion
import Kompli.ComplianceEngine.Payload
import Kompli.ComplianceEngine.PayloadKeys
import Kompli.ComplianceEngine.Procedure
import Kompli.ComplianceEngine.Procedures
import Kompli.ComplianceEngine.Ranges
import Kompli.ComplianceEngine.RemediationVerdict
import Kompli.ComplianceEngine.ResultEvidence
import Kompli.ComplianceEngine.RuleIndependence
import Kompli.ComplianceEngine.ShellQuoting
import Kompli.ComplianceEngine.StringTools
import Kompli.ComplianceEngine.StrongKleene
import Kompli.ComplianceEngine.TemporaryDirectory
import Kompli.ComplianceEngine.Trace
import Kompli.ComplianceEngine.TypedComparison
import Kompli.ComplianceEngine.VariableResolver
import Kompli.ComplianceEngine.VariableSplit
import Kompli.Foundation.Agreement
import Kompli.Foundation.Backtracking
import Kompli.Foundation.Bits
import Kompli.Foundation.Budget
import Kompli.Foundation.Bytes
import Kompli.Foundation.Captures
import Kompli.Foundation.CheckedWrites
import Kompli.Foundation.DebianVersion
import Kompli.Foundation.Decimal
import Kompli.Foundation.DirectoryTree
import Kompli.Foundation.EcmaScript
import Kompli.Foundation.ExceptRule
import Kompli.Foundation.FirstError
import Kompli.Foundation.Frames
import Kompli.Foundation.Glob
import Kompli.Foundation.KeyedMachines
import Kompli.Foundation.Kinds
import Kompli.Foundation.Kleene
import Kompli.Foundation.Lines
import Kompli.Foundation.Loop
import Kompli.Foundation.MapEntries
import Kompli.Foundation.Regex
import Kompli.Foundation.RegexSearch
import Kompli.Foundation.Resumption
import Kompli.Foundation.Scope
import Kompli.Foundation.Sextets
import Kompli.Foundation.ShellWords
import Kompli.Foundation.Split
import Kompli.Foundation.StateRule
import Kompli.Foundation.Streams
import Kompli.Foundation.Substring
import Kompli.Foundation.Triple
import Kompli.Foundation.Words
import Kompli.Foundation.Worklist
import Kompli.Parsers.LoginDefs
import Kompli.Parsers.LoginDefsLines
import Kompli.Parsers.NameserverMatches
import Kompli.Parsers.NameserverSelection
import Kompli.Parson.Balanced
import Kompli.Parson.Build
import Kompli.Parson.Parse
import Kompli.Parson.Parsed
import Kompli.Parson.RoundTrip
import Kompli.Parson.Serialize
import Kompli.Parson.Text
import Kompli.Parson.Utf8
import Kompli.Parson.Value
import Kompli.Procedures.AideAttributes
import Kompli.Procedures.AideRules
import Kompli.Procedures.AksCommand
import Kompli.Procedures.AuditdRules
import Kompli.Procedures.ConfigRewrite
import Kompli.Procedures.ConfigRollback
import Kompli.Procedures.DefaultUmask
import Kompli.Procedures.DefaultUmaskRemediation
import Kompli.Procedures.FilePermissions
import Kompli.Procedures.FilePermissionsAgreement
import Kompli.Procedures.FilePermissionsRuns
import Kompli.Procedures.FileRegexMatch
import Kompli.Procedures.FileTreeWalk
import Kompli.Procedures.FilesystemMountOption
import Kompli.Procedures.FirewallCoverage
import Kompli.Procedures.FirewallOpenPorts
import Kompli.Procedures.FstabFields
import Kompli.Procedures.FstabLines
import Kompli.Procedures.FstabRemediation
import Kompli.Procedures.FstabRewrite
import Kompli.Procedures.GsettingsValue
import Kompli.Procedures.HomeRemediation
import Kompli.Procedures.IndicatorStack
import Kompli.Procedures.KernelBlocks
import Kompli.Procedures.KernelModule
import Kompli.Procedures.KernelModuleAudit
import Kompli.Procedures.KernelModulePatterns
import Kompli.Procedures.KernelModuleTools
import Kompli.Procedures.LogFilePermissions
import Kompli.Procedures.LoginDefsAudit
import Kompli.Procedures.LoginDefsLayout
import Kompli.Procedures.LoginDefsOption
import Kompli.Procedures.NoDuplicateEntries
import Kompli.Procedures.NumericVerdicts
import Kompli.Procedures.OpenNodes
import Kompli.Procedures.PackageCache
import Kompli.Procedures.PackageCacheUse
import Kompli.Procedures.PackageInstalled
import Kompli.Procedures.PackageOrder
import Kompli.Procedures.PackageVersions
import Kompli.Procedures.ProcedureRun
import Kompli.Procedures.ShadowAudit
import Kompli.Procedures.ShadowField
import Kompli.Procedures.ShellTimeout
import Kompli.Procedures.ShellTimeoutAudit
import Kompli.Procedures.SshKeyPermissions
import Kompli.Procedures.SshdLimits
import Kompli.Procedures.SshdMatches
import Kompli.Procedures.SshdOption
import Kompli.Procedures.SteadyWalk
import Kompli.Procedures.SysctlRemediation
import Kompli.Procedures.SysctlValue
import Kompli.Procedures.SystemAccountShell
import Kompli.Procedures.SystemdAgreement
import Kompli.Procedures.SystemdConfig
import Kompli.Procedures.SystemdReader
import Kompli.Procedures.SystemdScan
import Kompli.Procedures.SystemdUnitState
import Kompli.Procedures.UserDotFilePermissions
import Kompli.Procedures.UserHomeDirectoryPermissions
import Kompli.Procedures.WalkVerdict
import Kompli.Procedures.WholeFileMatches
import Kompli.Procedures.XdmcpDisabled
