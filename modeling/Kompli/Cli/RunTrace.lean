import Kompli.Cli.Run

/-! What each rule of a run comes to, and what the run makes of that. -/
namespace Kompli.Cli
open BenchmarkIO BenchmarkDefinition Parson Engine Foundation

variable {W G : Type}

/-- A rule is reported as skipped or with the result of its evaluation, or it fails; a rule that
fails may have been counted as evaluated. -/
inductive Outcome where
  | skipped (rule : Members)
  | reported (action : Action) (status : Status) (rule : Members)
  | failed (counted : Bool)

namespace Outcome

def rule? : Outcome → Option Members
  | skipped rule => some rule
  | reported _ _ rule => some rule
  | failed _ => none

def status? : Outcome → Option Status
  | reported _ status _ => some status
  | _ => none

def isFailed : Outcome → Bool
  | failed _ => true
  | _ => false

def isCounted : Outcome → Bool
  | skipped _ => false
  | reported _ _ _ => true
  | failed counted => counted

end Outcome

def ToggleMode.action : ToggleMode → Action
  | .remediate => .remediate
  | _ => .audit

section Rule

variable (engine : Engine W G)

/-- The calls of a mode, once the procedure is set. -/
def modeCalls (entry : Resource) : ToggleMode → EngineM W AuditResult
  | .audit => do
    let _ ← initRule engine entry
    engine.mmiGet (auditPrefix ++ entry.ruleName)
  | .remediate => do
    let status ← engine.mmiSet (remediatePrefix ++ entry.ruleName) (payloadOf entry)
    pure { status, payload := utf8 "[]" }
  | .enforce => throw { message := utf8 "'enforce' is not implemented yet" }

/-- The calls that the run makes for a rule, up to the first that fails. -/
def engineCalls (entry : Resource) (mode : ToggleMode) (procedure : Bytes) : EngineM W AuditResult := do
  let _ ← engine.mmiSet (procedurePrefix ++ entry.ruleName) procedure
  modeCalls engine entry mode

def reportOf (entry : Resource) (mode : ToggleMode) (result : AuditResult) (after : EngineState W) : Outcome :=
  match buildRuleResultJson engine.num entry result.status result.payload (getParameters entry.ruleName after)
      mode.action with
  | .error _ => .failed true
  | .ok rule => .reported mode.action result.status rule

def skipOf (entry : Resource) : Outcome :=
  match buildSkippedRuleResultJson entry ∅ with
  | .error _ => .failed false
  | .ok rule => .skipped rule

/-- What a rule comes to, and the engine after it. -/
def outcome (benchmark : PlanBenchmark) (entry : Resource) (before : EngineState W) : Outcome × EngineState W :=
  match benchmark.rules[entry.id]? with
  | none => (skipOf entry, before)
  | some planned =>
    match plannedProcedure engine entry planned.parameters with
    | .error _ => (.failed false, before)
    | .ok procedure =>
      match engineCalls engine entry planned.mode procedure before with
      | .error _ after => (.failed (planned.mode ≠ .enforce), after)
      | .ok result after => (reportOf engine entry planned.mode result after, after)

/-- What the run does with it. -/
def record (continueOnError : Bool) (result : Outcome × EngineState W) (s : RunState W) : Option (RunState W) :=
  let counted := s.evaluatedRules + if result.1.isCounted then 1 else 0
  match result.1 with
  | .skipped rule => some { s with engine := result.2, formatter := s.formatter.appendRuleJson rule }
  | .reported _ status rule =>
    some { s with engine := result.2, formatter := s.formatter.appendRuleJson rule, evaluatedRules := counted
                  status := combineAllOf s.status status }
  | .failed _ => failed continueOnError { s with engine := result.2, evaluatedRules := counted }

private theorem addResult_eq (continueOnError : Bool) (entry : Resource) (mode : ToggleMode) (result : AuditResult)
    (s : RunState W) (after : EngineState W) :
    addResult engine continueOnError entry result.status result.payload mode.action
        { s with engine := after, evaluatedRules := s.evaluatedRules + 1 } =
      record continueOnError (reportOf engine entry mode result after, after) s := by
  simp only [addResult, BenchmarkFormatter.addEntry, reportOf]
  rcases buildRuleResultJson engine.num entry result.status result.payload (getParameters entry.ruleName after)
    mode.action with e | rule <;> rfl

/-- After the first call, the calls of the mode. -/
private theorem modeCalls_eq (continueOnError : Bool) (entry : Resource) (mode : ToggleMode) (procedure : Bytes)
    (s : RunState W) {status : Status} {after : EngineState W}
    (hset : engine.mmiSet (procedurePrefix ++ entry.ruleName) procedure s.engine = .ok status after) :
    (match mode with
      | .audit => auditRule engine continueOnError entry { countRule mode s with engine := after }
      | .remediate => remediateRule engine continueOnError entry { countRule mode s with engine := after }
      | .enforce => failed continueOnError { countRule mode s with engine := after }) =
      record continueOnError (match engineCalls engine entry mode procedure s.engine with
        | .error _ after => (.failed (mode ≠ .enforce), after)
        | .ok result after => (reportOf engine entry mode result after, after)) s := by
  rw [engineCalls, bind_run_ok _ hset]
  cases mode with
  | audit =>
    simp only [auditRule, countRule, reduceCtorEq, ↓reduceIte, modeCalls]
    rcases hinit : initRule engine entry after with ⟨_, after'⟩ | ⟨e, after'⟩
    · rw [bind_run_ok _ hinit]
      simp only
      rcases engine.mmiGet (auditPrefix ++ entry.ruleName) after' with ⟨result, after''⟩ | ⟨e, after''⟩
      · exact addResult_eq engine continueOnError entry .audit result s after''
      · rfl
    · rw [bind_run_error _ hinit]
      rfl
  | remediate =>
    simp only [remediateRule, countRule, reduceCtorEq, ↓reduceIte, modeCalls]
    rcases hremediate : engine.mmiSet (remediatePrefix ++ entry.ruleName) (payloadOf entry) after with
      ⟨status, after'⟩ | ⟨e, after'⟩
    · rw [bind_run_ok _ hremediate]
      exact addResult_eq engine continueOnError entry .remediate { status, payload := utf8 "[]" } s after'
    · rw [bind_run_error _ hremediate]
      rfl
  | enforce => rfl

/-- A turn of the loop is the outcome of its rule. -/
theorem runRule_eq (continueOnError : Bool) (benchmark : PlanBenchmark) (entry : Resource) (s : RunState W) :
    runRule engine continueOnError benchmark s entry =
      record continueOnError (outcome engine benchmark entry s.engine) s := by
  rw [runRule, outcome]
  rcases benchmark.rules[entry.id]? with _ | ⟨mode, parameters⟩
  · simp only [skipRule, BenchmarkFormatter.addSkippedEntry, skipOf]
    rcases buildSkippedRuleResultJson entry ∅ with e | rule <;> rfl
  · simp only
    rcases plannedProcedure engine entry parameters with e | procedure
    · rfl
    · have hengine : (countRule mode s).engine = s.engine := by cases mode <;> rfl
      simp only [hengine]
      rcases hset : engine.mmiSet (procedurePrefix ++ entry.ruleName) procedure s.engine with
        ⟨status, after⟩ | ⟨e, after⟩
      · exact modeCalls_eq engine continueOnError entry mode procedure s hset
      · rw [engineCalls, bind_run_error _ hset]
        cases mode <;> rfl

end Rule

section Trace

/-- A rule that the run comes to, and the engine as it finds it. -/
structure Visit (W : Type) where
  benchmark : PlanBenchmark
  entry : Resource
  before : EngineState W

variable (engine : Engine W G) (continueOnError : Bool)

/-- The rules of the blocks, in the order of the loops. -/
def rulesOf (blocks : List (PlanBenchmark × BenchmarkDocument)) : List (PlanBenchmark × Resource) :=
  blocks.flatMap fun block => block.2.resources.map fun entry => (block.1, entry)

/-- The rules that the run comes to, and what each comes to. -/
def trace : List (PlanBenchmark × Resource) → EngineState W → List (Visit W × Outcome)
  | [], _ => []
  | (benchmark, entry) :: rules, before =>
    let result := outcome engine benchmark entry before
    ({ benchmark, entry, before }, result.1) ::
      if result.1.isFailed && !continueOnError then [] else trace rules result.2

/-- The statuses of the results that were added for evaluated rules. -/
def reportedStatuses (visits : List (Visit W × Outcome)) : List Status := visits.filterMap (·.2.status?)

/-- The results that were added. -/
def reportedRules (visits : List (Visit W × Outcome)) : List Members := visits.filterMap (·.2.rule?)

/-- What a part of the loop makes of the outcomes in it. -/
structure Accounts (visits : List (Visit W × Outcome)) (s s' : RunState W) : Prop where
  json : s'.formatter.json = s.formatter.json
  rules : s'.formatter.rules = s.formatter.rules ++ (reportedRules visits).map JsonValue.object
  status : s'.status = (reportedStatuses visits).foldl combineAllOf s.status
  hasError : s'.hasError = (s.hasError || visits.any (·.2.isFailed))
  evaluatedRules : s'.evaluatedRules = s.evaluatedRules + visits.countP (·.2.isCounted)

private theorem Accounts.nil (s : RunState W) : Accounts [] s s := by
  constructor <;> simp [reportedRules, reportedStatuses]

private theorem Accounts.cons {visit : Visit W × Outcome} {visits : List (Visit W × Outcome)} {s t s' : RunState W}
    (hfirst : Accounts [visit] s t) (hrest : Accounts visits t s') : Accounts (visit :: visits) s s' where
  json := hrest.json.trans hfirst.json
  rules := by
    rw [hrest.rules, hfirst.rules, List.append_assoc, ← List.map_append]
    rcases h : visit.2.rule? with _ | rule <;> simp [reportedRules, h]
  status := by
    rw [hrest.status, hfirst.status, ← List.foldl_append]
    rcases h : visit.2.status? with _ | status <;> simp [reportedStatuses, h]
  hasError := by
    rw [hrest.hasError, hfirst.hasError]
    simp [Bool.or_assoc]
  evaluatedRules := by
    rw [hrest.evaluatedRules, hfirst.evaluatedRules, List.countP_cons, List.countP_cons, List.countP_nil]
    omega

variable {engine continueOnError}

/-- An outcome is recorded, unless it is a failure that ends the run. -/
private theorem record_cases (visit : Visit W) (result : Outcome × EngineState W) (s : RunState W) :
    (record continueOnError result s = none ∧ result.1.isFailed = true ∧ continueOnError = false) ∨
      ∃ s', record continueOnError result s = some s' ∧ s'.engine = result.2 ∧ Accounts [(visit, result.1)] s s' ∧
        (result.1.isFailed && !continueOnError) = false := by
  obtain ⟨result, after⟩ := result
  cases result with
  | skipped rule =>
    refine .inr ⟨_, rfl, rfl, ?_, rfl⟩
    constructor <;> simp [reportedRules, reportedStatuses, BenchmarkFormatter.appendRuleJson, Outcome.rule?,
      Outcome.status?, Outcome.isFailed, Outcome.isCounted]
  | reported action status rule =>
    refine .inr ⟨_, rfl, rfl, ?_, rfl⟩
    constructor <;> simp [reportedRules, reportedStatuses, BenchmarkFormatter.appendRuleJson, Outcome.rule?,
      Outcome.status?, Outcome.isFailed, Outcome.isCounted]
  | failed counted =>
    cases continueOnError with
    | false => exact .inl ⟨rfl, rfl, rfl⟩
    | true =>
      refine .inr ⟨_, rfl, rfl, ?_, rfl⟩
      constructor <;> cases counted <;> simp [reportedRules, reportedStatuses, Outcome.rule?, Outcome.status?,
        Outcome.isFailed, Outcome.isCounted]

private theorem runDocuments_eq (blocks : List (PlanBenchmark × BenchmarkDocument)) (s : RunState W) :
    runDocuments engine continueOnError blocks s =
      (rulesOf blocks).foldlM (fun s rule => runRule engine continueOnError rule.1 s rule.2) s := by
  rw [runDocuments, rulesOf]
  induction blocks generalizing s with
  | nil => rfl
  | cons block blocks ih =>
    rw [List.foldlM_cons, List.flatMap_cons, List.foldlM_append, List.foldlM_map, runDocument]
    exact bind_congr fun s => ih s

private theorem runRules_cases (rules : List (PlanBenchmark × Resource)) (s : RunState W) :
    (rules.foldlM (fun s rule => runRule engine continueOnError rule.1 s rule.2) s = none ∧
        continueOnError = false ∧ (trace engine continueOnError rules s.engine).getLast?.any (·.2.isFailed) = true) ∨
      ∃ s', rules.foldlM (fun s rule => runRule engine continueOnError rule.1 s rule.2) s = some s' ∧
        Accounts (trace engine continueOnError rules s.engine) s s' ∧
        (continueOnError = false → ∀ visit ∈ trace engine continueOnError rules s.engine, visit.2.isFailed = false) ∧
        (trace engine continueOnError rules s.engine).map (fun visit => (visit.1.benchmark, visit.1.entry)) = rules := by
  induction rules generalizing s with
  | nil => exact .inr ⟨s, rfl, .nil s, by simp [trace], rfl⟩
  | cons rule rules ih =>
    obtain ⟨benchmark, entry⟩ := rule
    rw [List.foldlM_cons, runRule_eq, trace]
    rcases record_cases { benchmark, entry, before := s.engine } (outcome engine benchmark entry s.engine) s with
      ⟨hrecord, hfailed, hstop⟩ | ⟨t, hrecord, hengine, hfirst, hgoes⟩
    · refine .inl ⟨by rw [hrecord]; rfl, hstop, ?_⟩
      simp [hfailed, hstop]
    · rw [hrecord, hgoes, ← hengine]
      rcases ih t with ⟨hnone, hstop, hlast⟩ | ⟨s', hsome, hrest, hclean, hall⟩
      · refine .inl ⟨hnone, hstop, ?_⟩
        rcases htrace : trace engine continueOnError rules t.engine with _ | ⟨visit, visits⟩
        · rw [htrace] at hlast
          cases hlast
        · rw [htrace] at hlast
          simpa [List.getLast?_cons] using hlast
      · refine .inr ⟨s', hsome, hfirst.cons hrest, fun hstop visit hvisit => ?_, ?_⟩
        · rcases List.mem_cons.mp hvisit with rfl | hvisit
          · simpa [hstop] using hgoes
          · exact hclean hstop visit hvisit
        · simpa using hall

/-- The loop ends with a failure, or records all the outcomes. -/
theorem runDocuments_cases (blocks : List (PlanBenchmark × BenchmarkDocument)) (s : RunState W) :
    (runDocuments engine continueOnError blocks s = none ∧ continueOnError = false ∧
        (trace engine continueOnError (rulesOf blocks) s.engine).getLast?.any (·.2.isFailed) = true) ∨
      ∃ s', runDocuments engine continueOnError blocks s = some s' ∧
        Accounts (trace engine continueOnError (rulesOf blocks) s.engine) s s' ∧
        (continueOnError = false →
          ∀ visit ∈ trace engine continueOnError (rulesOf blocks) s.engine, visit.2.isFailed = false) ∧
        (trace engine continueOnError (rulesOf blocks) s.engine).map
          (fun visit => (visit.1.benchmark, visit.1.entry)) = rulesOf blocks := by
  rw [runDocuments_eq]
  exact runRules_cases (rulesOf blocks) s

theorem outcome_of_mem_trace {rules : List (PlanBenchmark × Resource)} {start : EngineState W}
    {visit : Visit W × Outcome} (h : visit ∈ trace engine continueOnError rules start) :
    visit.2 = (outcome engine visit.1.benchmark visit.1.entry visit.1.before).1 := by
  induction rules generalizing start with
  | nil => exact absurd h List.not_mem_nil
  | cons rule rules ih =>
    rw [trace] at h
    rcases List.mem_cons.mp h with rfl | h
    · rfl
    · split_ifs at h
      · exact absurd h List.not_mem_nil
      · exact ih h

end Trace

end Kompli.Cli
