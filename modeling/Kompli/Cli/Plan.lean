import Kompli.BenchmarkIO.Accepted
import Kompli.ComplianceEngine.Procedures

/-! Plans: what is to be done about which rule, and with which parameters. -/
namespace Kompli.Cli
open BenchmarkIO BenchmarkDefinition Parson Ascii

/-- What the command-line tool uses of the system: the C library's numbers, patterns
(`regexMatch` gives nothing where `std::regex` throws) and paths, and the files it may read,
none of which has an empty path. -/
structure Host where
  num : NumberFormat
  regexMatch : (pattern value : Bytes) → Option Bool
  fnmatch : (pattern string : Bytes) → Bool
  realpath : Bytes → Option Bytes
  openVerified : Bytes → Except Error Bytes
  openVerified_nil : ∀ content, openVerified [] ≠ .ok content

inductive ToggleMode where
  | audit
  | remediate
  | enforce
  deriving DecidableEq, Repr

structure Toggle where
  section_ : Bytes
  mode : ToggleMode

/-- A value comes from the command line. -/
structure ParamOverride where
  selector : Bytes
  value : CString

structure PlanRuleMode where
  mode : ToggleMode := .audit
  parameters : ParameterMap := ∅

structure PlanBenchmark where
  file : Bytes
  name : Bytes
  version : ContentVersion
  versionConstraint : Bytes
  rules : ByteMap PlanRuleMode

structure Plan where
  benchmarks : List PlanBenchmark

def maxPlanInputBytes : Nat := 8 * 1024 * 1024

/-- A constraint is the plan's version, with `^` or `~` before it or without. -/
def validateVersionConstraint (version : ContentVersion) (constraint : Bytes) : Except Error Unit :=
  let minimum := if constraint.head? = some 0x5E ∨ constraint.head? = some 0x7E then constraint.tail else constraint
  let invalid : Error :=
    { message := utf8 "Invalid versionConstraint '" ++ constraint ++
        utf8 "': expected the plan's version with optional ^ or ~ prefix"
      code := EINVAL }
  match ContentVersion.parse minimum with
  | .ok parsedMinimum => if version.compare parsedMinimum ≠ .eq then .error invalid else .ok ()
  | .error _ => .error invalid

def toModeString : ToggleMode → Bytes
  | .audit => utf8 "audit"
  | .remediate => utf8 "remediate"
  | .enforce => utf8 "enforce"

def fromModeString (mode : Bytes) : Except Error ToggleMode :=
  if mode = utf8 "audit" then .ok .audit
  else if mode = utf8 "remediate" then .ok .remediate
  else if mode = utf8 "enforce" then .ok .enforce
  else
    .error { message := utf8 "Invalid plan rule mode: '" ++ mode ++
               utf8 "'. Must be 'audit', 'remediate' or 'enforce'."
             code := EINVAL }

theorem fromModeString_toModeString (mode : ToggleMode) : fromModeString (toModeString mode) = .ok mode := by
  cases mode <;> rfl

section ValidateParameters

variable (benchmarkFile ruleId : Bytes)

/-- Where a parameter is, for the errors. -/
def parameterContext (name : Bytes) : Bytes :=
  utf8 " '" ++ name ++ utf8 "' for rule '" ++ ruleId ++ utf8 "' in benchmark definition '" ++ benchmarkFile ++ utf8 "'"

def checkMandatory (parameters : ParameterMap) (entry : Bytes × ParameterMetadata) : Except Error Unit :=
  if entry.2.mandatory ∧ entry.1 ∉ parameters then
    .error { message := utf8 "Missing mandatory parameter" ++ parameterContext benchmarkFile ruleId entry.1
             code := EINVAL }
  else .ok ()

def checkParameter (host : Host) (metadata : ByteMap ParameterMetadata) (parameter : Bytes × Bytes) :
    Except Error Unit :=
  match metadata[parameter.1]? with
  | none =>
    .error { message := utf8 "Unknown parameter" ++ parameterContext benchmarkFile ruleId parameter.1
             code := EINVAL }
  | some entry =>
    match entry.validationRegex with
    | none => .ok ()
    | some pattern =>
      match host.regexMatch pattern parameter.2 with
      | none =>
        .error { message := utf8 "Parameter '" ++ parameter.1 ++ utf8 "' has an invalid validationRegex"
                 code := EINVAL }
      | some false =>
        .error { message := entry.validationFailedMessage.getD (utf8 "Value '" ++ parameter.2 ++
                   utf8 "' for parameter '" ++ parameter.1 ++ utf8 "' does not match its required pattern")
                 code := EINVAL }
      | some true => .ok ()

def validateParameters (host : Host) (metadata : ByteMap ParameterMetadata) (parameters : ParameterMap) :
    Except Error Unit := do
  metadata.toList.forM (checkMandatory benchmarkFile ruleId parameters)
  parameters.toList.forM (checkParameter benchmarkFile ruleId host metadata)

end ValidateParameters

/-- The part of a path after the last slash. -/
def baseName (path : Bytes) : Bytes := (path.reverse.takeWhile (· ≠ slash)).reverse

section Build

/-- A string that a plan cannot hold ends the plan. -/
def setString (members : Members) (name string : Bytes) (failed : Error) : Except Error Members :=
  match objectSetString members name string with
  | some members => .ok members
  | none => .error failed

def setParameter (id : Bytes) (parametersObject : Members) (param : Bytes × Bytes) : Except Error Members :=
  setString parametersObject param.1 param.2
    { message := utf8 "Failed to build plan rule '" ++ id ++ utf8 "' parameter '" ++ param.1 ++ utf8 "'"
      code := ENOMEM }

def setRule (rulesObject : Members) (entry : Bytes × PlanRuleMode) : Except Error Members := do
  let ruleObject ← setString [] (utf8 "mode") (toModeString entry.2.mode)
    { message := utf8 "Failed to build plan rule '" ++ entry.1 ++ utf8 "'", code := ENOMEM }
  let parametersObject ← entry.2.parameters.toList.foldlM (setParameter entry.1) []
  let ruleObject := objectSetValue ruleObject (utf8 "parameters") (.object parametersObject)
  .ok (objectSetValue rulesObject entry.1 (.object ruleObject))

def buildBenchmarkEntry (benchmarkFile name : Bytes) (version : ContentVersion)
    (rules : ByteMap PlanRuleMode) : Except Error JsonValue := do
  let failed : Error := { message := utf8 "Failed to set plan benchmark fields", code := ENOMEM }
  let benchmarkObject ← setString [] (utf8 "file") benchmarkFile failed
  let benchmarkObject ← setString benchmarkObject (utf8 "name") name failed
  let benchmarkObject ← setString benchmarkObject (utf8 "version") version.toBytes failed
  let benchmarkObject ← setString benchmarkObject (utf8 "versionConstraint") (0x5E :: version.toBytes) failed
  let rulesObject ← rules.toList.foldlM setRule []
  .ok (.object (objectSetValue benchmarkObject (utf8 "rules") (.object rulesObject)))

end Build

/-- A definition file and what the plan will say of its rules. -/
structure ParsedBenchmarkFile where
  file : CString
  name : Bytes
  version : ContentVersion
  rules : ByteMap PlanRuleMode := ∅
  parameterMetadata : ByteMap (ByteMap ParameterMetadata) := ∅
  sameIds : ∀ id, id ∈ rules ↔ id ∈ parameterMetadata := by simp

namespace ParsedBenchmarkFile

private theorem insert_sameIds {rules : ByteMap PlanRuleMode}
    {parameterMetadata : ByteMap (ByteMap ParameterMetadata)}
    (h : ∀ id, id ∈ rules ↔ id ∈ parameterMetadata) (id : Bytes) (mode : PlanRuleMode)
    (metadata : ByteMap ParameterMetadata) (other : Bytes) :
    other ∈ rules.insert id mode ↔ other ∈ parameterMetadata.insert id metadata := by
  rw [Std.ExtTreeMap.mem_insert, Std.ExtTreeMap.mem_insert, h]

/-- A rule starts out in audit mode with its parameters' defaults. -/
def seed (parameterMetadata : ByteMap ParameterMetadata) : PlanRuleMode :=
  { mode := .audit, parameters := parameterMetadata.map fun _ metadata => metadata.defaultValue }

def addResource (parsed : ParsedBenchmarkFile) (resource : Resource) : ParsedBenchmarkFile :=
  { parsed with
    rules := parsed.rules.insert resource.id (seed resource.parameterMetadata)
    parameterMetadata := parsed.parameterMetadata.insert resource.id resource.parameterMetadata
    sameIds := insert_sameIds parsed.sameIds resource.id _ _ }

def ofDocument (file : CString) (document : BenchmarkDocument) : ParsedBenchmarkFile :=
  document.resources.foldl addResource { file, name := document.name, version := document.version }

/-- Say something else of a rule that the file has. -/
def setRule (parsed : ParsedBenchmarkFile) (id : Bytes) (mode : PlanRuleMode) (h : id ∈ parsed.rules) :
    ParsedBenchmarkFile :=
  { parsed with
    rules := parsed.rules.insert id mode
    sameIds := by
      intro other
      rw [Std.ExtTreeMap.mem_insert, ← parsed.sameIds]
      constructor
      · rintro (heq | hmem)
        · exact Std.LawfulEqCmp.eq_of_compare heq ▸ h
        · exact hmem
      · exact Or.inr }

end ParsedBenchmarkFile

/-- A rule of the files, by the position of its file. -/
structure ResolvedRuleRef where
  file : Nat
  id : Bytes
  deriving DecidableEq

structure ResolvedParameterOverride where
  file : Nat
  id : Bytes
  name : Bytes
  deriving DecidableEq

/-- The whole selector of each declared parameter. -/
def parameterSelectors (parsedFiles : List ParsedBenchmarkFile) (multiFile : Bool) :
    List (Bytes × ResolvedParameterOverride) :=
  parsedFiles.zipIdx.flatMap fun (parsed, file) =>
    let qualifier := if multiFile then baseName parsed.file.val ++ [colon] else []
    parsed.parameterMetadata.toList.flatMap fun rule =>
      rule.2.toList.map fun parameter =>
        (qualifier ++ rule.1 ++ [dot] ++ parameter.1, { file, id := rule.1, name := parameter.1 })

def resolveParameterOverride (parsedFiles : List ParsedBenchmarkFile) (selector : Bytes) (multiFile : Bool) :
    Except Error ResolvedParameterOverride :=
  match (parameterSelectors parsedFiles multiFile).filter (·.1 = selector) with
  | [] => .error { message := utf8 "Unknown parameter selector '" ++ selector ++ utf8 "'", code := EINVAL }
  | [found] => .ok found.2
  | _ =>
    .error { message := utf8 "Ambiguous parameter selector '" ++ selector ++
               utf8 "'; it matches more than one rule and parameter"
             code := EINVAL }

/-- The positions of the files with a base name. -/
def filesNamed (parsedFiles : List ParsedBenchmarkFile) (basename : Bytes) : List Nat :=
  (parsedFiles.zipIdx.filter fun (parsed, _) => baseName parsed.file.val = basename).map Prod.snd

/-- Where there is one file it is meant. -/
def resolveRuleRef (parsedFiles : List ParsedBenchmarkFile) (ref : Bytes) (multiFile : Bool) :
    Except Error ResolvedRuleRef :=
  if ¬ multiFile then .ok { file := 0, id := ref }
  else if colon ∉ ref then
    .error { message := utf8 "'" ++ ref ++
               utf8 "' must be qualified as <file-basename>:<id> when more than one file is given"
             code := EINVAL }
  else
    let basename := ref.takeWhile (· ≠ colon)
    let id := (ref.dropWhile (· ≠ colon)).tail
    match filesNamed parsedFiles basename with
    | [] =>
      .error { message := utf8 "Unknown file '" ++ basename ++ utf8 "' in qualified rule reference '" ++ ref ++
                 utf8 "'"
               code := EINVAL }
    | [file] => .ok { file, id }
    | _ =>
      .error { message := utf8 "Ambiguous file '" ++ basename ++ utf8 "' in qualified rule reference '" ++ ref ++
                 utf8 "'"
               code := EINVAL }

def multiFile (parsedFiles : List ParsedBenchmarkFile) : Bool := 1 < parsedFiles.length

/-- Change what is said of a rule, which must be one of the file's. -/
def updateRule (parsedFiles : List ParsedBenchmarkFile) (ref : ResolvedRuleRef) (unknown : Bytes → Error)
    (update : PlanRuleMode → PlanRuleMode) : Except Error (List ParsedBenchmarkFile) :=
  match parsedFiles[ref.file]? with
  | none => .ok parsedFiles
  | some parsed =>
    if h : ref.id ∈ parsed.rules then
      .ok (parsedFiles.set ref.file (parsed.setRule ref.id (update parsed.rules[ref.id]) h))
    else .error (unknown parsed.file.val)

def applyToggle (parsedFiles : List ParsedBenchmarkFile) (toggle : Toggle) :
    Except Error (List ParsedBenchmarkFile) := do
  let ref ← resolveRuleRef parsedFiles toggle.section_ (multiFile parsedFiles)
  updateRule parsedFiles ref
    (fun file => { message := utf8 "Unknown rule '" ++ ref.id ++ utf8 "' in benchmark definition '" ++ file ++ utf8 "'"
                   code := EINVAL })
    fun rule => { rule with mode := toggle.mode }

def applyOverride (parsedFiles : List ParsedBenchmarkFile) (paramOverride : ParamOverride) :
    Except Error (List ParsedBenchmarkFile) := do
  let ref ← resolveParameterOverride parsedFiles paramOverride.selector (multiFile parsedFiles)
  updateRule parsedFiles { file := ref.file, id := ref.id }
    (fun file => { message := utf8 "Unknown rule '" ++ ref.id ++ utf8 "' in benchmark definition '" ++ file ++
                     utf8 "' for parameter selector '" ++ paramOverride.selector ++ utf8 "'"
                   code := EINVAL })
    fun rule => { rule with parameters := rule.parameters.insert ref.name paramOverride.value.val }

/-- `seen` has the paths checked so far, each after its canonical form. -/
def checkUniqueFiles (host : Host) : (seen : List (Bytes × Bytes)) → List CString → Except Error Unit
  | _, [] => .ok ()
  | seen, file :: files =>
    let canonical := (host.realpath file.val).getD file.val
    match seen.lookup canonical with
    | some original =>
      .error { message := utf8 "Duplicate benchmark file: '" ++ original ++ utf8 "' and '" ++ file.val ++
                 utf8 "' refer to the same file"
               code := EINVAL }
    | none => checkUniqueFiles host (seen ++ [(canonical, file.val)]) files

def checkUniqueBenchmarkFiles (host : Host) (benchmarkFiles : List CString) : Except Error Unit :=
  checkUniqueFiles host [] benchmarkFiles

abbrev Identity := Bytes × LinuxDistribution × Bytes × Bytes

def identity (benchmarkInfo : BenchmarkInfo) : Identity :=
  (benchmarkInfo.framework, benchmarkInfo.distribution, benchmarkInfo.version,
    BenchmarkInfo.versionWithoutPrefix benchmarkInfo.benchmarkVersion)

def checkUniqueIdentities : (seen : List (Identity × Bytes)) → List (Bytes × BenchmarkInfo) → Except Error Unit
  | _, [] => .ok ()
  | seen, (file, benchmarkInfo) :: benchmarks =>
    match seen.lookup (identity benchmarkInfo) with
    | some other =>
      .error { message := utf8 "Benchmark files '" ++ other ++ utf8 "' and '" ++ file ++
                 utf8 "' share the same (framework, distribution, distributionVersion, benchmarkVersion) identity '" ++
                 benchmarkInfo.toBytes ++ utf8 "'"
               code := EINVAL }
    | none => checkUniqueIdentities (seen ++ [(identity benchmarkInfo, file)]) benchmarks

def checkUniqueBenchmarkIdentities (benchmarks : List (Bytes × BenchmarkInfo)) : Except Error Unit :=
  checkUniqueIdentities [] benchmarks

def validateFile (host : Host) (parsed : ParsedBenchmarkFile) : Except Error Unit :=
  parsed.rules.toList.forM fun rule =>
    validateParameters parsed.file.val rule.1 host (parsed.parameterMetadata[rule.1]?.getD ∅) rule.2.parameters

/-- The plan that a list of files is made into. -/
def buildPlan (num : NumberFormat) (parsedFiles : List ParsedBenchmarkFile) : Except Error Bytes := do
  let benchmarks ← parsedFiles.mapM fun parsed =>
    buildBenchmarkEntry parsed.file.val parsed.name parsed.version parsed.rules
  let root := objectSetValue [] (utf8 "benchmarks") (.array benchmarks)
  let result := jsonSerializeToStringPretty num (.object root) ++ [0x0A]
  if maxPlanInputBytes < result.length then
    .error { message := utf8 "Generated plan exceeds the maximum size of " ++ decimal maxPlanInputBytes ++
               utf8 " bytes"
             code := EFBIG }
  else .ok result

def generatePlan (host : Host) (benchmarkFiles : List CString) (toggles : List Toggle)
    (paramOverrides : List ParamOverride) : Except Error Bytes := do
  if benchmarkFiles = [] then
    .error { message := utf8 "At least one benchmark-definition file is required", code := EINVAL }
  else
    checkUniqueBenchmarkFiles host benchmarkFiles
    let documents ← benchmarkFiles.mapM fun file => parseFile host.num host.openVerified file.val
    let parsedFiles := benchmarkFiles.zipWith ParsedBenchmarkFile.ofDocument documents
    checkUniqueBenchmarkIdentities
      (benchmarkFiles.zipWith (fun file document => (file.val, document.benchmarkInfo)) documents)
    let parsedFiles ← toggles.foldlM applyToggle parsedFiles
    let parsedFiles ← paramOverrides.foldlM applyOverride parsedFiles
    parsedFiles.forM (validateFile host)
    buildPlan host.num parsedFiles

end Kompli.Cli
