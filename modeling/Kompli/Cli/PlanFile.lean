import Kompli.Cli.Plan

/-! Reading a plan, and checking it against the definitions it is for. -/
namespace Kompli.Cli
open BenchmarkIO BenchmarkDefinition Parson Ascii

def invalidPlan (message : Bytes) : Error := { message, code := EINVAL }

/-- The scan for the end of the document: the brackets that are open, innermost first,
and whether the byte is in a string and comes after a backslash there. -/
def scanPlan : (delimiters : Bytes) → (inString escaped : Bool) → Bytes → Except Error Unit
  | _, _, _, [] => .ok ()
  | delimiters, true, true, _ :: s => scanPlan delimiters true false s
  | delimiters, true, false, c :: s =>
    if c = backslash then scanPlan delimiters true true s
    else if c = quote then scanPlan delimiters false false s
    else scanPlan delimiters true false s
  | delimiters, false, escaped, c :: s =>
    if c = quote then scanPlan delimiters true escaped s
    else if c = leftBrace ∨ c = leftBracket then scanPlan (c :: delimiters) false escaped s
    else if c = rightBrace ∨ c = rightBracket then
      match delimiters with
      | [] => .ok ()
      | delimiter :: delimiters =>
        if delimiter ≠ (if c = rightBrace then leftBrace else leftBracket) then .ok ()
        else if delimiters ≠ [] then scanPlan delimiters false escaped s
        else if skipWhitespaces s = [] then .ok ()
        else .error (invalidPlan (utf8 "Plan file contains trailing data after the JSON document"))
    else scanPlan delimiters false escaped s

def rejectTrailingPlanData (content : Bytes) : Except Error Unit :=
  let document := skipWhitespaces content
  if document.head? = some leftBrace then scanPlan [] false false document else .ok ()

def readPlanString (value : Option JsonValue) (context : Bytes) (allowEmpty : Bool) : Except Error Bytes :=
  match value with
  | some (.string result) =>
    if 0 ∈ result then
      .error (invalidPlan (utf8 "Plan file's '" ++ context ++ utf8 "' contains an embedded NUL"))
    else if ¬ allowEmpty ∧ result = [] then
      .error (invalidPlan (utf8 "Plan file's '" ++ context ++ utf8 "' is empty"))
    else .ok result
  | _ => .error (invalidPlan (utf8 "Plan file's '" ++ context ++ utf8 "' is missing or is not a string"))

/-- A rule of a block of a plan, for the errors. -/
def ruleContext (context id : Bytes) : Bytes := utf8 "Plan file's '" ++ context ++ utf8 "' rule '" ++ id ++ utf8 "'"

def addPlanParameter (context id : Bytes) (object : Members) (parameters : ParameterMap)
    (member : Bytes × JsonValue) : Except Error ParameterMap :=
  let paramName := cString member.1
  if paramName = [] then
    .error (invalidPlan (ruleContext context id ++ utf8 " has a parameter with an empty name"))
  else do
    let paramValue ← readPlanString (JsonValue.getValue object paramName)
      (context ++ utf8 ".rules." ++ id ++ utf8 ".parameters." ++ paramName) true
    .ok (parameters.insert paramName paramValue)

def parsePlanParameters (context id : Bytes) (ruleObject : Members) : Except Error ParameterMap :=
  match JsonValue.getValue ruleObject (utf8 "parameters") with
  | none => .ok ∅
  | some (.object parametersObject) =>
    parametersObject.foldlM (addPlanParameter context id parametersObject) ∅
  | some _ =>
    .error (invalidPlan (ruleContext context id ++
      utf8 " has a 'parameters' field that is not a JSON object"))

def addPlanRule (context : Bytes) (rules : ByteMap PlanRuleMode) (member : Bytes × JsonValue) :
    Except Error (ByteMap PlanRuleMode) :=
  let id := cString member.1
  if id = [] then
    .error (invalidPlan (utf8 "Plan file's '" ++ context ++ utf8 "' has a rule with an empty id"))
  else
    match member.2 with
    | .object ruleObject => do
      let mode ← readPlanString (JsonValue.getValue ruleObject (utf8 "mode"))
        (context ++ utf8 ".rules." ++ id ++ utf8 ".mode") false
      let mode ← fromModeString mode
      let parameters ← parsePlanParameters context id ruleObject
      .ok (rules.insert id { mode, parameters })
    | _ => .error (invalidPlan (ruleContext context id ++ utf8 " is not a JSON object"))

def parsePlanName (context : Bytes) (benchmarkObject : Members) : Except Error Bytes :=
  match JsonValue.getValue benchmarkObject (utf8 "name") with
  | none => .ok []
  | some name => readPlanString (some name) (context ++ utf8 ".name") true

def parsePlanVersion (context : Bytes) (benchmarkObject : Members) : Except Error (ContentVersion × Bytes) :=
  match JsonValue.getValue benchmarkObject (utf8 "version"),
      JsonValue.getValue benchmarkObject (utf8 "versionConstraint") with
  | some versionValue, some constraintValue => do
    let versionText ← readPlanString (some versionValue) (context ++ utf8 ".version") false
    let version ← ContentVersion.parse versionText
    let constraint ← readPlanString (some constraintValue) (context ++ utf8 ".versionConstraint") false
    validateVersionConstraint version constraint
    .ok (version, constraint)
  | _, _ =>
    .error (invalidPlan (utf8 "Plan file's '" ++ context ++
      utf8 "' must include both version and versionConstraint"))

def parsePlanBenchmark (index : Nat) : JsonValue → Except Error PlanBenchmark
  | .object benchmarkObject => do
    let file ← readPlanString (JsonValue.getValue benchmarkObject (utf8 "file")) (context ++ utf8 ".file") false
    let name ← parsePlanName context benchmarkObject
    let (version, versionConstraint) ← parsePlanVersion context benchmarkObject
    match getObject benchmarkObject (utf8 "rules") with
    | none =>
      .error (invalidPlan (utf8 "Plan file's '" ++ context ++ utf8 "' is missing the 'rules' object"))
    | some rulesObject =>
      let rules ← rulesObject.foldlM (addPlanRule context) ∅
      .ok { file, name, version, versionConstraint, rules }
  | _ => .error (invalidPlan (utf8 "Plan file's '" ++ context ++ utf8 "' is not a JSON object"))
where
  context := utf8 "benchmarks[" ++ decimal index ++ utf8 "]"

def parsePlanBenchmarks : (index : Nat) → List JsonValue → Except Error (List PlanBenchmark)
  | _, [] => .ok []
  | index, value :: values => do
    let benchmark ← parsePlanBenchmark index value
    let benchmarks ← parsePlanBenchmarks (index + 1) values
    .ok (benchmark :: benchmarks)

def parsePlanRoot (root : Members) : Except Error Plan :=
  match getArray root (utf8 "benchmarks") with
  | none => .error (invalidPlan (utf8 "Plan file is missing the 'benchmarks' array"))
  | some [] => .error (invalidPlan (utf8 "Plan file's 'benchmarks' array must not be empty"))
  | some benchmarksArray => do
    let benchmarks ← parsePlanBenchmarks 0 benchmarksArray
    .ok { benchmarks }

/-- What `ParsePlanFile` makes of the content of a file. -/
def parsePlan (num : NumberFormat) (content : Bytes) : Except Error Plan := do
  if maxPlanInputBytes < content.length then
    .error { message := utf8 "Plan file exceeds the maximum size of " ++ decimal maxPlanInputBytes ++ utf8 " bytes"
             code := EFBIG }
  else if 0 ∈ content then .error (invalidPlan (utf8 "Plan file contains a raw NUL byte"))
  else
    rejectTrailingPlanData content
    match JsonWrapper.fromString num content with
    | .error e => .error (invalidPlan (utf8 "Failed to parse plan JSON: " ++ e.message))
    | .ok (.object root) => parsePlanRoot root
    | .ok _ => .error (invalidPlan (utf8 "Plan file is not a JSON object"))

def parsePlanFile (host : Host) (path : Bytes) : Except Error Plan := do
  let content ← host.openVerified path
  parsePlan host.num content

section Validate

/-- Whether a definition is of a version that a plan was made for. -/
def satisfiesConstraint (document : ContentVersion) (benchmark : PlanBenchmark) : Bool :=
  let prefix_ := benchmark.versionConstraint.head?
  document.compare benchmark.version ≠ .lt &&
    !(prefix_ = some 0x5E && document.major ≠ benchmark.version.major) &&
    !(prefix_ = some 0x7E && (document.major ≠ benchmark.version.major || document.minor ≠ benchmark.version.minor)) &&
    !(prefix_ ≠ some 0x5E && prefix_ ≠ some 0x7E && document.compare benchmark.version ≠ .eq)

def validateRule (host : Host) (benchmark : PlanBenchmark) (document : BenchmarkDocument)
    (rule : Bytes × PlanRuleMode) : Except Error Unit :=
  match document.resources.find? (·.id = rule.1) with
  | none =>
    .error (invalidPlan (utf8 "Unknown rule '" ++ rule.1 ++ utf8 "' in benchmark definition '" ++
      benchmark.file ++ utf8 "'"))
  | some resource =>
    validateParameters benchmark.file rule.1 host resource.parameterMetadata rule.2.parameters

def validateBenchmark (host : Host) (distributionInfo : DistributionInfo)
    (block : PlanBenchmark × BenchmarkDocument) : Except Error Unit := do
  let (benchmark, document) := block
  if ¬ document.benchmarkInfo.isMatch host.fnmatch distributionInfo then
    .error (invalidPlan (utf8 "Benchmark '" ++ benchmark.file ++
      utf8 "' is not applicable for the current distribution"))
  else
    validateVersionConstraint benchmark.version benchmark.versionConstraint
    if ¬ satisfiesConstraint document.version benchmark then
      .error (invalidPlan (utf8 "Benchmark definition '" ++ benchmark.file ++ utf8 "' version '" ++
        document.version.toBytes ++ utf8 "' does not satisfy plan constraint '" ++ benchmark.versionConstraint ++
        utf8 "'; definition upgraded incompatibly or changed: review and regenerate your plan"))
    else benchmark.rules.toList.forM (validateRule host benchmark document)

def validatePlanForRun (host : Host) (plan : Plan) (documents : List BenchmarkDocument)
    (distributionInfo : DistributionInfo) : Except Error Unit :=
  if plan.benchmarks.length ≠ documents.length then
    .error (invalidPlan (utf8 "Plan validation received a mismatched definition set"))
  else (plan.benchmarks.zip documents).forM (validateBenchmark host distributionInfo)

theorem validatePlanForRun_length {host : Host} {plan : Plan} {documents : List BenchmarkDocument}
    {distributionInfo : DistributionInfo} (h : validatePlanForRun host plan documents distributionInfo = .ok ()) :
    plan.benchmarks.length = documents.length := by
  rw [validatePlanForRun] at h
  split at h
  · cases h
  · next hlength => exact not_not.mp hlength

end Validate

end Kompli.Cli
