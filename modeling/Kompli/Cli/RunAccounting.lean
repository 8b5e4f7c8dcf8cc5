import Kompli.Cli.RunTrace
import Kompli.ComplianceEngine.Interface

/-! What the result document of a run says: which rules are in it, and the overall status. -/
namespace Kompli.Cli
open BenchmarkIO BenchmarkDefinition Parson Engine Foundation

variable {W G : Type}

/-- The rules that a run comes to. -/
def runTrace (environment : RunEnvironment W G) (continueOnError : Bool) (plan : Plan)
    (documents : List BenchmarkDocument) (start : EngineState W) : List (Visit W × Outcome) :=
  trace environment.engine continueOnError (rulesOf (plan.benchmarks.zip documents)) start

/-- The loop reaches the document, or ends with a rule that failed. -/
theorem run_cases {environment : RunEnvironment W G} {continueOnError : Bool} {plan : Plan}
    {documents : List BenchmarkDocument} {start : EngineState W} {formatter : BenchmarkFormatter}
    (hvalid : validatePlanForRun environment.host plan documents environment.distributionInfo = .ok ())
    (hbegin : BenchmarkFormatter.begin_ environment.timestamp environment.distributionInfo = .ok formatter) :
    let visits := runTrace environment continueOnError plan documents start
    (run environment continueOnError plan documents start = none ∧ continueOnError = false ∧
        visits.getLast?.any (·.2.isFailed) = true) ∨
      ∃ result, run environment continueOnError plan documents start = some result ∧
        getArray result.document (utf8 "rules") = some ((reportedRules visits).map JsonValue.object) ∧
        JsonValue.getValue result.document (utf8 "status") = some (.string
          (if visits.countP (·.2.isCounted) = 0 then Status.notApplicable
            else (reportedStatuses visits).foldl combineAllOf .compliant).toBytes) ∧
        result.exitCode = (if visits.any (·.2.isFailed) then 1 else 0) ∧
        visits.map (fun visit => (visit.1.benchmark, visit.1.entry)) = rulesOf (plan.benchmarks.zip documents) ∧
        (continueOnError = false → ∀ visit ∈ visits, visit.2.isFailed = false) := by
  intro visits
  have hrules := BenchmarkFormatter.begin_rules hbegin
  rw [run, hvalid]
  simp only [hbegin]
  rcases @runDocuments_cases _ _ environment.engine continueOnError (plan.benchmarks.zip documents)
    { engine := start, formatter } with
    ⟨hnone, hstop, hlast⟩ | ⟨s, hsome, haccounts, hclean, hall⟩
  · exact .inl ⟨by rw [hnone]; rfl, hstop, hlast⟩
  · obtain ⟨document, hfinish⟩ := s.formatter.finish_succeeds environment.durationMs (overallStatus s)
    obtain ⟨hdocument, hstatus⟩ := BenchmarkFormatter.finish_members hfinish
    refine .inr ⟨{ document, exitCode := if s.hasError then 1 else 0 }, ?_, ?_, ?_, ?_, hall, hclean⟩
    · rw [hsome]
      simp only [Option.bind_eq_bind, Option.bind_some, hfinish]
    · rw [hdocument, haccounts.rules, hrules]
      rfl
    · rw [hstatus, overallStatus, haccounts.evaluatedRules, haccounts.status]
      simp only [Nat.zero_add]
      rfl
    · simp only [haccounts.hasError, Bool.false_or]
      rfl

/-- What a run that makes a document has gone through. -/
theorem run_eq_some {environment : RunEnvironment W G} {continueOnError : Bool} {plan : Plan}
    {documents : List BenchmarkDocument} {start : EngineState W} {result : RunResult}
    (h : run environment continueOnError plan documents start = some result) :
    validatePlanForRun environment.host plan documents environment.distributionInfo = .ok () ∧
      ∃ formatter s, BenchmarkFormatter.begin_ environment.timestamp environment.distributionInfo = .ok formatter ∧
        runDocuments environment.engine continueOnError (plan.benchmarks.zip documents)
          { engine := start, formatter } = some s ∧
        s.formatter.finish environment.durationMs (overallStatus s) = .ok result.document := by
  rw [run] at h
  rcases hvalid : validatePlanForRun environment.host plan documents environment.distributionInfo with e | ⟨⟩
  · rw [hvalid] at h
    cases h
  rw [hvalid] at h
  rcases hbegin : BenchmarkFormatter.begin_ environment.timestamp environment.distributionInfo with e | formatter
  · simp only [hbegin, reduceCtorEq] at h
  simp only [hbegin] at h
  obtain ⟨s, hs, h⟩ := Option.bind_eq_some_iff.mp h
  split at h
  · cases h
  · next document hfinish =>
    cases h
    exact ⟨rfl, formatter, s, rfl, hs, hfinish⟩

/-- Such a run records every outcome. -/
theorem run_some {environment : RunEnvironment W G} {continueOnError : Bool} {plan : Plan}
    {documents : List BenchmarkDocument} {start : EngineState W} {result : RunResult}
    (h : run environment continueOnError plan documents start = some result) :
    let visits := runTrace environment continueOnError plan documents start
    getArray result.document (utf8 "rules") = some ((reportedRules visits).map JsonValue.object) ∧
      JsonValue.getValue result.document (utf8 "status") = some (.string
        (if visits.countP (·.2.isCounted) = 0 then Status.notApplicable
          else (reportedStatuses visits).foldl combineAllOf .compliant).toBytes) ∧
      visits.map (fun visit => (visit.1.benchmark, visit.1.entry)) = rulesOf (plan.benchmarks.zip documents) := by
  intro visits
  obtain ⟨hvalid, formatter, s, hbegin, -, -⟩ := run_eq_some h
  rcases run_cases hvalid hbegin with ⟨hnone, -, -⟩ | ⟨result', hsome, hrules, hstatus, -, hall, -⟩
  · rw [hnone] at h
    cases h
  · rw [hsome] at h
    cases h
    exact ⟨hrules, hstatus, hall⟩

section Rule

variable (engine : Engine W G) (visit : Visit W)

/-- The plan says to audit or to remediate the rule, and its parameters apply. -/
def Visit.Evaluated : Prop :=
  ∃ planned procedure, visit.benchmark.rules[visit.entry.id]? = some planned ∧ planned.mode ≠ .enforce ∧
    plannedProcedure engine visit.entry planned.parameters = .ok procedure

/-- The calls for a rule that the plan lists succeed, with a result. -/
def Visit.Calls (mode : ToggleMode) (result : AuditResult) (after : EngineState W) : Prop :=
  ∃ planned procedure, visit.benchmark.rules[visit.entry.id]? = some planned ∧ planned.mode = mode ∧
    plannedProcedure engine visit.entry planned.parameters = .ok procedure ∧
    engineCalls engine visit.entry mode procedure visit.before = .ok result after

/-- A result that can be put in the document. -/
def Visit.Fits (result : AuditResult) (after : EngineState W) : Prop :=
  (∃ indicators, jsonParseString engine.num result.payload = some (.array indicators)) ∧
    Reportable visit.entry (getParameters visit.entry.ruleName after)

variable {engine visit}

private theorem engineCalls_enforce {entry : Resource} {procedure : Bytes} {before after : EngineState W}
    {result : AuditResult} : engineCalls engine entry .enforce procedure before ≠ .ok result after := by
  intro h
  simp only [engineCalls, bind_ok_iff, modeCalls, throw_run, reduceCtorEq, and_false, exists_false] at h

/-- What a rule comes to, by how far the run gets with it. -/
private theorem outcome_cases (engine : Engine W G) (visit : Visit W) :
    (visit.benchmark.rules[visit.entry.id]? = none ∧
      outcome engine visit.benchmark visit.entry visit.before = (skipOf visit.entry, visit.before)) ∨
    ∃ planned, visit.benchmark.rules[visit.entry.id]? = some planned ∧
      ((∃ e, plannedProcedure engine visit.entry planned.parameters = .error e ∧
          outcome engine visit.benchmark visit.entry visit.before = (.failed false, visit.before)) ∨
        ∃ procedure, plannedProcedure engine visit.entry planned.parameters = .ok procedure ∧
          ((∃ e after, engineCalls engine visit.entry planned.mode procedure visit.before = .error e after ∧
              outcome engine visit.benchmark visit.entry visit.before = (.failed (planned.mode ≠ .enforce), after)) ∨
            ∃ result after, engineCalls engine visit.entry planned.mode procedure visit.before = .ok result after ∧
              planned.mode ≠ .enforce ∧ outcome engine visit.benchmark visit.entry visit.before =
                (reportOf engine visit.entry planned.mode result after, after))) := by
  rw [outcome]
  rcases visit.benchmark.rules[visit.entry.id]? with _ | planned
  · exact .inl ⟨rfl, rfl⟩
  · refine .inr ⟨planned, rfl, ?_⟩
    rcases hprocedure : plannedProcedure engine visit.entry planned.parameters with e | procedure
    · exact .inl ⟨e, rfl, by simp only [hprocedure]⟩
    · refine .inr ⟨procedure, rfl, ?_⟩
      simp only [hprocedure]
      rcases hcalls : engineCalls engine visit.entry planned.mode procedure visit.before with
        ⟨result, after⟩ | ⟨e, after⟩
      · refine .inr ⟨result, after, rfl, fun hmode => ?_, rfl⟩
        rw [hmode] at hcalls
        exact engineCalls_enforce hcalls
      · exact .inl ⟨e, after, rfl, rfl⟩

private theorem reportOf_cases (engine : Engine W G) (visit : Visit W) (mode : ToggleMode) (result : AuditResult) (after : EngineState W) :
    (visit.Fits engine result after ∧ ∃ rule, reportOf engine visit.entry mode result after =
        .reported mode.action result.status rule ∧
      buildRuleResultJson engine.num visit.entry result.status result.payload
        (getParameters visit.entry.ruleName after) mode.action = .ok rule) ∨
    (¬ visit.Fits engine result after ∧ reportOf engine visit.entry mode result after = .failed true) := by
  rw [reportOf, Visit.Fits, ← @buildRuleResultJson_succeeds engine.num visit.entry result.status result.payload
    (getParameters visit.entry.ruleName after) mode.action]
  rcases buildRuleResultJson engine.num visit.entry result.status result.payload
    (getParameters visit.entry.ruleName after) mode.action with e | rule
  · exact .inr ⟨by simp, rfl⟩
  · exact .inl ⟨⟨rule, rfl⟩, rule, rfl, rfl⟩

/-- A rule that is in the document was skipped there, or its result was built. -/
theorem outcome_rule {rule : Members}
    (h : (outcome engine visit.benchmark visit.entry visit.before).1.rule? = some rule) :
    buildSkippedRuleResultJson visit.entry ∅ = .ok rule ∨ ∃ status payload parameters action,
      buildRuleResultJson engine.num visit.entry status payload parameters action = .ok rule := by
  rcases outcome_cases engine visit with ⟨-, heq⟩ | ⟨planned, -, ⟨e, -, heq⟩ |
    ⟨procedure, -, ⟨e, after, -, heq⟩ | ⟨result, after, -, -, heq⟩⟩⟩
  · rw [heq, skipOf] at h
    rcases hbuild : buildSkippedRuleResultJson visit.entry ∅ with e | skipped
    · rw [hbuild] at h
      cases h
    · rw [hbuild] at h
      cases h
      exact .inl rfl
  · rw [heq] at h
    cases h
  · rw [heq] at h
    cases h
  · rw [heq] at h
    rcases reportOf_cases engine visit planned.mode result after with ⟨-, reported, hreport, hbuild⟩ | ⟨-, hreport⟩
    · rw [hreport] at h
      cases h
      exact .inr ⟨_, _, _, _, hbuild⟩
    · rw [hreport] at h
      cases h

theorem isCounted_iff :
    (outcome engine visit.benchmark visit.entry visit.before).1.isCounted = true ↔ visit.Evaluated engine := by
  rcases outcome_cases engine visit with ⟨hlisted, heq⟩ | ⟨planned, hlisted, ⟨e, hprocedure, heq⟩ |
    ⟨procedure, hprocedure, ⟨e, after, hcalls, heq⟩ | ⟨result, after, hcalls, hmode, heq⟩⟩⟩
  · rw [heq, skipOf]
    rcases buildSkippedRuleResultJson visit.entry ∅ with e | rule <;> simp [Outcome.isCounted, Visit.Evaluated, hlisted]
  · simp [heq, Outcome.isCounted, Visit.Evaluated, hlisted, hprocedure]
  · simp [heq, Outcome.isCounted, Visit.Evaluated, hlisted, hprocedure]
  · have hcounted : (reportOf engine visit.entry planned.mode result after).isCounted = true := by
      rcases reportOf_cases engine visit planned.mode result after with ⟨-, rule, heq, -⟩ | ⟨-, heq⟩ <;> rw [heq] <;> rfl
    simp [heq, hcounted, Visit.Evaluated, hlisted, hprocedure, hmode]

theorem status?_eq_some_iff {status : Status} :
    (outcome engine visit.benchmark visit.entry visit.before).1.status? = some status ↔
      ∃ mode result after, visit.Calls engine mode result after ∧ visit.Fits engine result after ∧
        result.status = status := by
  rcases outcome_cases engine visit with ⟨hlisted, heq⟩ | ⟨planned, hlisted, ⟨e, hprocedure, heq⟩ |
    ⟨procedure, hprocedure, ⟨e, after, hcalls, heq⟩ | ⟨result, after, hcalls, hmode, heq⟩⟩⟩
  · rw [heq, skipOf]
    rcases buildSkippedRuleResultJson visit.entry ∅ with e | rule <;> simp [Outcome.status?, Visit.Calls, hlisted]
  · simp [heq, Outcome.status?, Visit.Calls, hlisted, hprocedure]
  · simp [heq, Outcome.status?, Visit.Calls, hlisted, hprocedure, hcalls]
  · have hreport : (reportOf engine visit.entry planned.mode result after).status? = some status ↔
        visit.Fits engine result after ∧ result.status = status := by
      rcases reportOf_cases engine visit planned.mode result after with ⟨hfits, rule, heq, -⟩ | ⟨hfits, heq⟩ <;>
        simp [heq, hfits, Outcome.status?]
    simp only [heq, hreport, Visit.Calls, hlisted, Option.some.injEq, exists_and_left, exists_eq_left', hprocedure,
      Except.ok.injEq]
    constructor
    · rintro ⟨hfits, hstatus⟩
      exact ⟨planned.mode, result, after, ⟨rfl, hcalls⟩, hfits, hstatus⟩
    · rintro ⟨mode, result', after', ⟨rfl, hcalls'⟩, hfits, hstatus⟩
      rw [hcalls] at hcalls'
      cases hcalls'
      exact ⟨hfits, hstatus⟩

end Rule

section SingleRun

/-- A benchmark with one rule, which has the given procedure, and a plan that audits it. -/
private def singleInfo : BenchmarkInfo where
  framework := utf8 "cis"
  distribution := .ubuntu
  version := utf8 "22.04"
  benchmarkVersion := utf8 "v1.0.0"

private def singleVersion : ContentVersion := ⟨utf8 "1", utf8 "0", utf8 "0", by decide⟩

private def singleBlock : PlanBenchmark where
  file := utf8 "one.json"
  name := utf8 "one"
  version := singleVersion
  versionConstraint := utf8 "^1.0.0"
  rules := (∅ : ByteMap PlanRuleMode).insert (utf8 "1") {}

private def singleRule (procedure : Bytes) : Resource where
  benchmarkInfo := singleInfo
  resourceId := utf8 "One rule"
  id := utf8 "1"
  ruleId := utf8 "r1"
  ruleName := utf8 "R1"
  procedure := procedure

private def singleDocument (procedure : Bytes) : BenchmarkDocument where
  name := utf8 "one"
  version := singleVersion
  benchmarkInfo := singleInfo
  resources := [singleRule procedure]

/-- The rule of such a run. -/
private def singleVisit (procedure : Bytes) : Visit Unit where
  benchmark := singleBlock
  entry := singleRule procedure
  before := { context := () }

private def singlePlan : Plan := { benchmarks := [singleBlock] }

private def singleEnvironment (engine : Engine Unit Unit) : RunEnvironment Unit Unit where
  engine
  host := { num := engine.num, regexMatch := fun _ _ => some true, fnmatch := fun _ _ => true, realpath := some,
            openVerified := fun _ => .error { message := [] }, openVerified_nil := by simp }
  distributionInfo := { version := utf8 "22.04" }
  timestamp := utf8 "2024-01-01T00:00:00Z"
  durationMs := 0

end SingleRun

section OverallStatus

/-- The status that a result names whose rule was evaluated. -/
def evaluatedStatus? : JsonValue → Option Bytes
  | .object rule =>
    match JsonValue.getValue rule (utf8 "action"), JsonValue.getValue rule (utf8 "status") with
    | some _, some (.string status) => some status
    | _, _ => none
  | _ => none

/-- The overall status of results, which claims nothing where there are none. -/
def claimedStatus (statuses : List Status) : Status :=
  if statuses = [] then .notApplicable else statuses.foldl combineAllOf .compliant

/-- The overall status of a document is that of the evaluated rules that it has results for. -/
def ClaimsNoMore (document : Members) : Prop :=
  ∃ rules statuses, getArray document (utf8 "rules") = some rules ∧
    rules.filterMap evaluatedStatus? = statuses.map Status.toBytes ∧
    JsonValue.getValue document (utf8 "status") = some (.string (claimedStatus statuses).toBytes)

private theorem toBytes_injective : Function.Injective Status.toBytes := by
  intro a b h
  revert h
  cases a <;> cases b <;> decide

/-- The result of a rule names its status, if the rule was evaluated. -/
private theorem outcome_evaluatedStatus (engine : Engine W G) (visit : Visit W) {rule : Members}
    (h : (outcome engine visit.benchmark visit.entry visit.before).1.rule? = some rule) :
    evaluatedStatus? (.object rule) =
      ((outcome engine visit.benchmark visit.entry visit.before).1.status?).map Status.toBytes := by
  rcases outcome_cases engine visit with ⟨-, heq⟩ | ⟨planned, -, ⟨e, -, heq⟩ |
    ⟨procedure, -, ⟨e, after, -, heq⟩ | ⟨result, after, -, -, heq⟩⟩⟩
  · rw [heq, skipOf] at h ⊢
    rcases hbuild : buildSkippedRuleResultJson visit.entry ∅ with e | skipped
    · rw [hbuild] at h
      cases h
    · rw [hbuild] at h
      cases h
      obtain ⟨-, -, haction⟩ := buildSkippedRuleResultJson_members hbuild
      simp [evaluatedStatus?, haction, Outcome.status?]
  · rw [heq] at h
    cases h
  · rw [heq] at h
    cases h
  · rw [heq] at h ⊢
    rcases reportOf_cases engine visit planned.mode result after with ⟨-, reported, heq, hbuild⟩ | ⟨-, heq⟩
    · rw [heq] at h ⊢
      cases h
      obtain ⟨-, hstatus, haction⟩ := buildRuleResultJson_members hbuild
      simp [evaluatedStatus?, hstatus, haction, Outcome.status?]
    · rw [heq] at h
      cases h

private theorem status?_rule? {o : Outcome} (h : o.rule? = none) : o.status? = none := by
  cases o <;> simp_all [Outcome.rule?, Outcome.status?]

/-- The results of a run name the statuses that it reported. -/
private theorem reportedRules_statuses (engine : Engine W G) {visits : List (Visit W × Outcome)}
    (h : ∀ visit ∈ visits, visit.2 = (outcome engine visit.1.benchmark visit.1.entry visit.1.before).1) :
    ((reportedRules visits).map JsonValue.object).filterMap evaluatedStatus? =
      (reportedStatuses visits).map Status.toBytes := by
  induction visits with
  | nil => rfl
  | cons visit visits ih =>
    rw [List.forall_mem_cons] at h
    have ih := ih h.2
    simp only [reportedRules, reportedStatuses] at ih ⊢
    rcases hrule : visit.2.rule? with _ | rule
    · simpa [hrule, status?_rule? hrule] using ih
    · have hstatus := outcome_evaluatedStatus engine visit.1 (h.1 ▸ hrule)
      rw [← h.1] at hstatus
      rcases hreported : visit.2.status? with _ | status
      · simpa [hrule, hreported, hstatus] using ih
      · simpa [hrule, hreported, hstatus] using ih

/-- The status in a run's document is that of its results, unless it is none where rules were counted. -/
private theorem overallStatus_claims {statuses : List Status} {counted : Nat} (h : statuses ≠ [] → counted ≠ 0) :
    (if counted = 0 then Status.notApplicable else statuses.foldl combineAllOf .compliant) = claimedStatus statuses ↔
      statuses ≠ [] ∨ counted = 0 := by
  by_cases hstatuses : statuses = []
  · by_cases hcounted : counted = 0 <;> simp [claimedStatus, hstatuses, hcounted]
  · simp [claimedStatus, hstatuses, h hstatuses]

private theorem claimsNoMore_iff {document : Members} {rules : List JsonValue} {statuses : List Status}
    {status : Status} (hrules : getArray document (utf8 "rules") = some rules)
    (hnamed : rules.filterMap evaluatedStatus? = statuses.map Status.toBytes)
    (hstatus : JsonValue.getValue document (utf8 "status") = some (.string status.toBytes)) :
    ClaimsNoMore document ↔ status = claimedStatus statuses := by
  constructor
  · rintro ⟨rules', statuses', hrules', hnamed', hstatus'⟩
    rw [hrules] at hrules'
    cases hrules'
    rw [hnamed] at hnamed'
    rw [hstatus, Option.some.injEq, JsonValue.string.injEq] at hstatus'
    rw [List.map_injective_iff.mpr toBytes_injective hnamed']
    exact toBytes_injective hstatus'
  · rintro rfl
    exact ⟨rules, statuses, hrules, hnamed, hstatus⟩

/-- The overall status is that of the results in the document, unless rules were evaluated and none of
them has a result. -/
theorem overall_status_iff {environment : RunEnvironment W G} {continueOnError : Bool} {plan : Plan}
    {documents : List BenchmarkDocument} {start : EngineState W} {result : RunResult}
    (h : run environment continueOnError plan documents start = some result) :
    let visits := runTrace environment continueOnError plan documents start
    ClaimsNoMore result.document ↔
      (∃ visit ∈ visits, ∃ mode audited after, visit.1.Calls environment.engine mode audited after ∧
        visit.1.Fits environment.engine audited after) ∨
      ∀ visit ∈ visits, ¬ visit.1.Evaluated environment.engine := by
  intro visits
  obtain ⟨hrules, hstatus, -⟩ := run_some h
  have houtcome : ∀ visit ∈ visits,
      visit.2 = (outcome environment.engine visit.1.benchmark visit.1.entry visit.1.before).1 :=
    fun visit hvisit => outcome_of_mem_trace hvisit
  have hreported : reportedStatuses visits ≠ [] ↔ ∃ visit ∈ visits, ∃ mode audited after,
      visit.1.Calls environment.engine mode audited after ∧ visit.1.Fits environment.engine audited after := by
    rw [ne_eq, reportedStatuses, List.filterMap_eq_nil_iff]
    push Not
    refine exists_congr fun visit => and_congr_right fun hvisit => ?_
    rw [houtcome visit hvisit, Option.ne_none_iff_exists']
    simp only [status?_eq_some_iff]
    constructor
    · rintro ⟨status, mode, audited, after, hcalls, hfits, -⟩
      exact ⟨mode, audited, after, hcalls, hfits⟩
    · rintro ⟨mode, audited, after, hcalls, hfits⟩
      exact ⟨audited.status, mode, audited, after, hcalls, hfits, rfl⟩
  have hcounted : visits.countP (·.2.isCounted) = 0 ↔ ∀ visit ∈ visits, ¬ visit.1.Evaluated environment.engine := by
    rw [List.countP_eq_zero]
    refine forall₂_congr fun visit hvisit => ?_
    rw [houtcome visit hvisit, isCounted_iff]
  have hcounts : reportedStatuses visits ≠ [] → visits.countP (·.2.isCounted) ≠ 0 := by
    intro hne hzero
    obtain ⟨visit, hvisit, mode, audited, after, ⟨planned, procedure, hlisted, rfl, hprocedure, hcalls⟩, -⟩ :=
      hreported.mp hne
    refine hcounted.mp hzero visit hvisit ⟨planned, procedure, hlisted, fun hmode => ?_, hprocedure⟩
    rw [hmode] at hcalls
    exact engineCalls_enforce hcalls
  rw [claimsNoMore_iff hrules (reportedRules_statuses environment.engine houtcome) hstatus,
    overallStatus_claims hcounts, hreported, hcounted]

private def failingDocument : BenchmarkDocument :=
  singleDocument (utf8 "\x7b\"audit\":\x7b\"None\":\x7b\x7d\x7d\x7d")

/-- A run that goes on after the audit of its only rule has failed: there is no such procedure. -/
private def failingRun : Option RunResult :=
  run (singleEnvironment Engine.bare) true singlePlan [failingDocument] { context := () }

/-- Its document has no rule and says `Compliant`. -/
private def claimsCompliant : Option RunResult → Bool
  | none => false
  | some result =>
    match getArray result.document (utf8 "rules"), JsonValue.getValue result.document (utf8 "status") with
    | some [], some (.string status) => status = Status.compliant.toBytes
    | _, _ => false

private theorem failingRun_some : ∃ result, failingRun = some result ∧
    getArray result.document (utf8 "rules") = some [] ∧
      JsonValue.getValue result.document (utf8 "status") = some (.string Status.compliant.toBytes) := by
  have h : claimsCompliant failingRun = true := by decide +kernel
  unfold claimsCompliant at h
  split at h
  · cases h
  · next result hrun =>
    split at h
    · next status hrules hstatus => exact ⟨result, hrun, hrules, by rw [hstatus, of_decide_eq_true h]⟩
    · cases h

/-- It has no result, and its document says `Compliant`. -/
theorem overall_status_claims_more : ∃ result, failingRun = some result ∧ ¬ ClaimsNoMore result.document := by
  obtain ⟨result, hrun, hrules, hstatus⟩ := failingRun_some
  refine ⟨result, hrun, ?_⟩
  rw [@claimsNoMore_iff _ _ [] _ hrules rfl hstatus]
  decide

theorem overall_status_iff_failing : ∃ result, failingRun = some result ∧
    (ClaimsNoMore result.document ↔
      let visits := runTrace (singleEnvironment Engine.bare) true singlePlan [failingDocument] { context := () }
      (∃ visit ∈ visits, ∃ mode audited after, visit.1.Calls Engine.bare mode audited after ∧
        visit.1.Fits Engine.bare audited after) ∨
      ∀ visit ∈ visits, ¬ visit.1.Evaluated Engine.bare) := by
  obtain ⟨result, hrun, -, -⟩ := failingRun_some
  exact ⟨result, hrun, overall_status_iff hrun⟩

end OverallStatus

section RuleAccounting

/-- A result names its rule, a status, and an action if the rule was evaluated. -/
def IsResultOf (rule : Members) (entry : Resource) (status : Bytes) (action : Option Bytes) : Prop :=
  JsonValue.getValue rule (utf8 "id") = some (.string (cString entry.id)) ∧
    JsonValue.getValue rule (utf8 "status") = some (.string status) ∧
    JsonValue.getValue rule (utf8 "action") = action.map .string

/-- A rule that the plan does not list is skipped, one whose calls succeed has the status they return, and
any other has no result. -/
structure Visit.Accounted (engine : Engine W G) (visit : Visit W) (result? : Option Members) : Prop where
  unlisted : visit.benchmark.rules[visit.entry.id]? = none →
    ∃ rule, result? = some rule ∧ IsResultOf rule visit.entry (utf8 "Skipped") none
  calls : ∀ mode result after, visit.Calls engine mode result after →
    ∃ rule, result? = some rule ∧
      IsResultOf rule visit.entry result.status.toBytes (some (actionText mode.action))
  otherwise : (visit.benchmark.rules[visit.entry.id]?).isSome = true →
    (∀ mode result after, ¬ visit.Calls engine mode result after) → result? = none

/-- A rule that can be put in the document: its texts and those of its result are UTF-8. -/
structure Visit.Nameable (engine : Engine W G) (visit : Visit W) : Prop where
  unlisted : visit.benchmark.rules[visit.entry.id]? = none → Reportable visit.entry ∅
  calls : ∀ mode result after, visit.Calls engine mode result after → visit.Fits engine result after

/-- The document has the rules in their order, each as it should, and a rule without a result makes the run
fail, at once or in the end. -/
def KeepsAccount (environment : RunEnvironment W G) (continueOnError : Bool) (plan : Plan)
    (documents : List BenchmarkDocument) (start : EngineState W) : Prop :=
  let visits := runTrace environment continueOnError plan documents start
  (∀ visit ∈ visits, visit.1.Accounted environment.engine visit.2.rule?) ∧
    match run environment continueOnError plan documents start with
    | none => continueOnError = false ∧ ∃ visit, visits.getLast? = some visit ∧ visit.2.rule? = none
    | some result =>
      visits.map (fun visit => (visit.1.benchmark, visit.1.entry)) = rulesOf (plan.benchmarks.zip documents) ∧
        getArray result.document (utf8 "rules") = some ((visits.filterMap (·.2.rule?)).map JsonValue.object) ∧
        result.exitCode = (if ∃ visit ∈ visits, visit.2.rule? = none then 1 else 0) ∧
        (continueOnError = false → ∀ visit ∈ visits, visit.2.rule? ≠ none)

private theorem KeepsAccount.accounted {environment : RunEnvironment W G} {continueOnError : Bool} {plan : Plan}
    {documents : List BenchmarkDocument} {start : EngineState W}
    (h : KeepsAccount environment continueOnError plan documents start) {visit : Visit W} {o : Outcome}
    (hvisit : (visit, o) ∈ runTrace environment continueOnError plan documents start) :
    visit.Accounted environment.engine o.rule? :=
  h.1 _ hvisit

private theorem isFailed_iff {o : Outcome} : o.isFailed = true ↔ o.rule? = none := by
  cases o <;> simp [Outcome.isFailed, Outcome.rule?]

private theorem isFailed_eq_false_iff {o : Outcome} : o.isFailed = false ↔ o.rule? ≠ none := by
  cases o <;> simp [Outcome.isFailed, Outcome.rule?]

private theorem calls_of {engine : Engine W G} {visit : Visit W} {planned : PlanRuleMode} {procedure : Bytes}
    (hlisted : visit.benchmark.rules[visit.entry.id]? = some planned)
    (hprocedure : plannedProcedure engine visit.entry planned.parameters = .ok procedure)
    (mode : ToggleMode) (result : AuditResult) (after : EngineState W) :
    visit.Calls engine mode result after ↔ planned.mode = mode ∧
      engineCalls engine visit.entry planned.mode procedure visit.before = .ok result after := by
  simp only [Visit.Calls, hlisted, Option.some.injEq, exists_and_left, exists_eq_left', hprocedure, Except.ok.injEq]
  constructor
  · rintro ⟨rfl, hcalls⟩
    exact ⟨rfl, hcalls⟩
  · rintro ⟨rfl, hcalls⟩
    exact ⟨rfl, hcalls⟩

/-- One rule is accounted for exactly if it can be put in the document. -/
theorem accounted_iff (engine : Engine W G) (visit : Visit W) :
    visit.Accounted engine (outcome engine visit.benchmark visit.entry visit.before).1.rule? ↔
      visit.Nameable engine := by
  rcases outcome_cases engine visit with ⟨hlisted, heq⟩ | ⟨planned, hlisted, ⟨e, hprocedure, heq⟩ |
    ⟨procedure, hprocedure, ⟨e, after, hcalls, heq⟩ | ⟨result, after, hcalls, hmode, heq⟩⟩⟩
  · have hno : ∀ mode result after, ¬ visit.Calls engine mode result after := by
      simp [Visit.Calls, hlisted]
    rw [heq, skipOf]
    rcases hbuild : buildSkippedRuleResultJson visit.entry ∅ with e | rule
    · have hnot : ¬ Reportable visit.entry ∅ := by
        rw [← buildSkippedRuleResultJson_succeeds, hbuild]
        simp
      constructor
      · intro h
        obtain ⟨rule, hrule, -⟩ := h.unlisted hlisted
        cases hrule
      · exact fun h => absurd (h.unlisted hlisted) hnot
    · have hreportable := buildSkippedRuleResultJson_succeeds.mp ⟨rule, hbuild⟩
      refine ⟨fun _ => ⟨fun _ => hreportable, fun mode result after h => absurd h (hno mode result after)⟩,
        fun _ => ⟨fun _ => ⟨rule, rfl, buildSkippedRuleResultJson_members hbuild⟩,
          fun mode result after h => absurd h (hno mode result after), ?_⟩⟩
      rw [hlisted]
      simp
  · have hno : ∀ mode result after, ¬ visit.Calls engine mode result after := by
      simp [Visit.Calls, hlisted, hprocedure]
    rw [heq]
    refine ⟨fun _ => ⟨by simp [hlisted], fun mode result after h => absurd h (hno mode result after)⟩,
      fun _ => ⟨by simp [hlisted], fun mode result after h => absurd h (hno mode result after), fun _ _ => rfl⟩⟩
  · have hno : ∀ mode result after, ¬ visit.Calls engine mode result after := by
      simp [calls_of hlisted hprocedure, hcalls]
    rw [heq]
    refine ⟨fun _ => ⟨by simp [hlisted], fun mode result after h => absurd h (hno mode result after)⟩,
      fun _ => ⟨by simp [hlisted], fun mode result after h => absurd h (hno mode result after), fun _ _ => rfl⟩⟩
  · have hyes : ∀ mode result' after', visit.Calls engine mode result' after' ↔
        planned.mode = mode ∧ result = result' ∧ after = after' := by
      simp [calls_of hlisted hprocedure, hcalls]
    rw [heq]
    rcases reportOf_cases engine visit planned.mode result after with ⟨hfits, rule, hreport, hbuild⟩ | ⟨hfits, hreport⟩
    · rw [hreport]
      refine ⟨fun _ => ⟨by simp [hlisted], ?_⟩, fun _ => ⟨by simp [hlisted], ?_, ?_⟩⟩
      · rintro mode result' after' h
        obtain ⟨-, rfl, rfl⟩ := (hyes _ _ _).mp h
        exact hfits
      · rintro mode result' after' h
        obtain ⟨rfl, rfl, rfl⟩ := (hyes _ _ _).mp h
        exact ⟨rule, rfl, buildRuleResultJson_members hbuild⟩
      · exact fun _ hno => absurd ((hyes _ _ _).mpr ⟨rfl, rfl, rfl⟩) (hno planned.mode result after)
    · rw [hreport]
      have hcall := (hyes planned.mode result after).mpr ⟨rfl, rfl, rfl⟩
      constructor
      · intro h
        obtain ⟨rule, hrule, -⟩ := h.calls _ _ _ hcall
        cases hrule
      · exact fun h => absurd (h.calls _ _ _ hcall) hfits

/-- A run that has begun keeps account of the rules exactly if each that it comes to can be put in the
document. -/
theorem keeps_account_iff {environment : RunEnvironment W G} {continueOnError : Bool} {plan : Plan}
    {documents : List BenchmarkDocument} {start : EngineState W} {formatter : BenchmarkFormatter}
    (hvalid : validatePlanForRun environment.host plan documents environment.distributionInfo = .ok ())
    (hbegin : BenchmarkFormatter.begin_ environment.timestamp environment.distributionInfo = .ok formatter) :
    KeepsAccount environment continueOnError plan documents start ↔
      ∀ visit ∈ runTrace environment continueOnError plan documents start, visit.1.Nameable environment.engine := by
  have haccounted : (∀ visit ∈ runTrace environment continueOnError plan documents start,
      visit.1.Accounted environment.engine visit.2.rule?) ↔
        ∀ visit ∈ runTrace environment continueOnError plan documents start, visit.1.Nameable environment.engine := by
    refine forall₂_congr fun visit hvisit => ?_
    rw [outcome_of_mem_trace hvisit, accounted_iff]
  rw [KeepsAccount, haccounted]
  refine and_iff_left ?_
  rcases @run_cases _ _ environment continueOnError plan documents start _ hvalid hbegin with
    ⟨hnone, hstop, hlast⟩ | ⟨result, hsome, hrules, -, hexit, hall, hclean⟩
  · rw [hnone]
    refine ⟨hstop, ?_⟩
    rcases hvisits : (runTrace environment continueOnError plan documents start).getLast? with _ | visit
    · rw [hvisits] at hlast
      cases hlast
    · rw [hvisits] at hlast
      exact ⟨visit, rfl, isFailed_iff.mp hlast⟩
  · rw [hsome]
    refine ⟨hall, hrules, ?_, fun hstop visit hvisit => isFailed_eq_false_iff.mp (hclean hstop visit hvisit)⟩
    simp only [hexit, List.any_eq_true, isFailed_iff]

/-- An engine whose only procedure is compliant, and says so with a byte that is no UTF-8. -/
private def namingEngine : Engine Unit Unit where
  num := Engine.bare.num
  procedureMap := (∅ : ProcedureMap Unit).insert (utf8 "Named")
    { audit := some fun _ _ => { result := .ok .compliant, ops := [.addIndicator [0xFF] .compliant], context := () } }
  lua := Engine.bare.lua
  formatter := ComplianceEngineInterface.asserting (JsonFormatter.format Engine.bare.num)

private def namedProcedure : Bytes := utf8 "\x7b\"audit\":\x7b\"Named\":\x7b\x7d\x7d\x7d"

private def namedVisit : Visit Unit := singleVisit namedProcedure

private theorem namedVisit_mem : (namedVisit, (outcome namingEngine namedVisit.benchmark namedVisit.entry
    namedVisit.before).1) ∈ runTrace (singleEnvironment namingEngine) true singlePlan
      [singleDocument namedProcedure] { context := () } := by
  change _ ∈ trace namingEngine true [(namedVisit.benchmark, namedVisit.entry)] namedVisit.before
  rw [trace]
  exact List.mem_cons_self

private theorem namedVisit_calls : ∃ result after, namedVisit.Calls namingEngine .audit result after := by
  have hlisted : namedVisit.benchmark.rules[namedVisit.entry.id]? = some {} := Std.ExtTreeMap.getElem?_insert_self
  have hprocedure : plannedProcedure namingEngine namedVisit.entry ∅ = .ok namedProcedure := by
    rw [plannedProcedure, if_pos Std.ExtTreeMap.isEmpty_empty]
    rfl
  have hcalls : (match engineCalls namingEngine namedVisit.entry .audit namedProcedure namedVisit.before with
    | .ok _ _ => true
    | .error _ _ => false) = true := by decide +kernel
  rcases hok : engineCalls namingEngine namedVisit.entry .audit namedProcedure namedVisit.before with
    ⟨result, after⟩ | ⟨e, after⟩
  · exact ⟨result, after, {}, namedProcedure, hlisted, rfl, hprocedure, hok⟩
  · rw [hok] at hcalls
    cases hcalls

private theorem namedVisit_result :
    (outcome namingEngine namedVisit.benchmark namedVisit.entry namedVisit.before).1.rule? = none := by
  rw [← Option.isNone_iff_eq_none]
  decide +kernel

/-- The calls for the rule succeed, and it has no result. -/
theorem loses_unnamed_rule : ¬ KeepsAccount (singleEnvironment namingEngine) true singlePlan
    [singleDocument namedProcedure] { context := () } := by
  intro h
  have hvisit : namedVisit.Accounted namingEngine
      (outcome namingEngine namedVisit.benchmark namedVisit.entry namedVisit.before).1.rule? :=
    h.accounted namedVisit_mem
  obtain ⟨result, after, hcalls⟩ := namedVisit_calls
  obtain ⟨rule, hrule, -⟩ := hvisit.calls .audit result after hcalls
  rw [namedVisit_result] at hrule
  cases hrule

theorem keeps_account_iff_failing :
    KeepsAccount (singleEnvironment Engine.bare) true singlePlan [failingDocument] { context := () } ↔
      ∀ visit ∈ runTrace (singleEnvironment Engine.bare) true singlePlan [failingDocument] { context := () },
        visit.1.Nameable Engine.bare := by
  have hvalid : validatePlanForRun (singleEnvironment Engine.bare).host singlePlan [failingDocument]
      (singleEnvironment Engine.bare).distributionInfo = .ok () := by
    decide +kernel
  have hbegin : (BenchmarkFormatter.begin_ (singleEnvironment Engine.bare).timestamp
      (singleEnvironment Engine.bare).distributionInfo).isOk = true := by decide +kernel
  rcases h : BenchmarkFormatter.begin_ (singleEnvironment Engine.bare).timestamp
    (singleEnvironment Engine.bare).distributionInfo with e | formatter
  · rw [h] at hbegin
    cases hbegin
  · exact keeps_account_iff hvalid h

end RuleAccounting

end Kompli.Cli
