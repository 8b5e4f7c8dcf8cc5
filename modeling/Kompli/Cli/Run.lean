import Kompli.Cli.BenchmarkFormatter
import Kompli.Cli.ParameterOverrides
import Kompli.Cli.PlanFile
import Kompli.ComplianceEngine.Engine

/-! Running a plan: the loop over the rules of its definitions, and the result document it makes. -/
namespace Kompli.Cli
open BenchmarkIO BenchmarkDefinition Parson Engine

variable {W G : Type}

/-- The variables of the loop. -/
structure RunState (W : Type) where
  engine : EngineState W
  formatter : BenchmarkFormatter
  status : Status := .compliant
  hasError : Bool := false
  evaluatedRules : Nat := 0

section Rule

variable (engine : Engine W G) (continueOnError : Bool)

/-- What every error leads to: the run ends, or goes on and fails in the end. -/
def failed (s : RunState W) : Option (RunState W) :=
  if continueOnError then some { s with hasError := true } else none

/-- The result of a rule is added, and its status is taken into the overall one. -/
def addResult (entry : Resource) (status : Status) (payload : Bytes) (action : Action) (s : RunState W) :
    Option (RunState W) :=
  match s.formatter.addEntry engine.num entry status payload (getParameters entry.ruleName s.engine) action with
  | .error _ => failed continueOnError s
  | .ok formatter => some { s with formatter, status := combineAllOf s.status status }

/-- The payload for the engine; definitions carry none. -/
def payloadOf (entry : Resource) : Bytes := entry.payload.getD (utf8 "\x7b\x7d")

def initRule (entry : Resource) : EngineM W Status :=
  if entry.hasInitAudit then engine.mmiSet (initPrefix ++ entry.ruleName) (payloadOf entry) else pure .compliant

def auditRule (entry : Resource) (s : RunState W) : Option (RunState W) :=
  match initRule engine entry s.engine with
  | .error _ after => failed continueOnError { s with engine := after }
  | .ok _ after =>
    match engine.mmiGet (auditPrefix ++ entry.ruleName) after with
    | .error _ after => failed continueOnError { s with engine := after }
    | .ok result after =>
      addResult engine continueOnError entry result.status result.payload .audit { s with engine := after }

def remediateRule (entry : Resource) (s : RunState W) : Option (RunState W) :=
  match engine.mmiSet (remediatePrefix ++ entry.ruleName) (payloadOf entry) s.engine with
  | .error _ after => failed continueOnError { s with engine := after }
  | .ok status after => addResult engine continueOnError entry status (utf8 "[]") .remediate { s with engine := after }

/-- The procedure of a rule, with the parameters of the plan. -/
def plannedProcedure (entry : Resource) (parameters : ParameterMap) : Except Error Bytes :=
  if parameters.isEmpty then .ok entry.procedure else applyParameterOverrides engine.num entry.procedure parameters

def skipRule (entry : Resource) (s : RunState W) : Option (RunState W) :=
  match s.formatter.addSkippedEntry entry ∅ with
  | .error _ => failed continueOnError s
  | .ok formatter => some { s with formatter }

def countRule (mode : ToggleMode) (s : RunState W) : RunState W :=
  if mode = .enforce then s else { s with evaluatedRules := s.evaluatedRules + 1 }

/-- One turn of the loop: a rule of a definition, with the plan's block for it. -/
def runRule (benchmark : PlanBenchmark) (s : RunState W) (entry : Resource) : Option (RunState W) :=
  match benchmark.rules[entry.id]? with
  | none => skipRule continueOnError entry s
  | some planned =>
    match plannedProcedure engine entry planned.parameters with
    | .error _ => failed continueOnError s
    | .ok procedure =>
      let s := countRule planned.mode s
      match engine.mmiSet (procedurePrefix ++ entry.ruleName) procedure s.engine with
      | .error _ after => failed continueOnError { s with engine := after }
      | .ok _ after =>
        match planned.mode with
        | .audit => auditRule engine continueOnError entry { s with engine := after }
        | .remediate => remediateRule engine continueOnError entry { s with engine := after }
        | .enforce => failed continueOnError { s with engine := after }

/-- The rules of a definition, one after the other. -/
def runDocument (s : RunState W) (block : PlanBenchmark × BenchmarkDocument) : Option (RunState W) :=
  block.2.resources.foldlM (runRule engine continueOnError block.1) s

def runDocuments (blocks : List (PlanBenchmark × BenchmarkDocument)) (s : RunState W) : Option (RunState W) :=
  blocks.foldlM (runDocument engine continueOnError) s

end Rule

/-- The overall status: nothing is claimed where no rule was evaluated. -/
def overallStatus (s : RunState W) : Status := if s.evaluatedRules = 0 then .notApplicable else s.status

/-- What a run prints and how it exits. -/
structure RunResult where
  document : Members
  exitCode : Nat

/-- What a run finds outside: its engine, the host, and the clock at its start and at its end. -/
structure RunEnvironment (W G : Type) where
  engine : Engine W G
  host : Host
  distributionInfo : DistributionInfo
  timestamp : Bytes
  durationMs : UInt64

/-- The `run` subcommand, once the plan and its definitions are read; nothing where it ends without a document. -/
def run (environment : RunEnvironment W G) (continueOnError : Bool) (plan : Plan) (documents : List BenchmarkDocument)
    (start : EngineState W) : Option RunResult :=
  match validatePlanForRun environment.host plan documents environment.distributionInfo with
  | .error _ => none
  | .ok _ =>
    match BenchmarkFormatter.begin_ environment.timestamp environment.distributionInfo with
    | .error _ => none
    | .ok formatter => do
      let s ← runDocuments environment.engine continueOnError (plan.benchmarks.zip documents)
        { engine := start, formatter }
      match s.formatter.finish environment.durationMs (overallStatus s) with
      | .error _ => none
      | .ok document => some { document, exitCode := if s.hasError then 1 else 0 }

/-- What is printed of a document. -/
def RunResult.text (num : NumberFormat) (result : RunResult) : Bytes :=
  jsonSerializeToStringPretty num (.object result.document) ++ [0x0A]

end Kompli.Cli
