import Kompli.BenchmarkIO.Resource
import Kompli.ComplianceEngine.JsonFormatter
import Kompli.ComplianceEngine.Procedures
import Kompli.Foundation.MapEntries

/-! The result of one rule in the result document. -/
namespace Kompli.BenchmarkIO
open Parson Foundation JsonWrapper

def outOfMemory (message : Bytes) : Error := { message, code := ENOMEM }

def notSet (what : String) : Error := outOfMemory (utf8 "Failed to set JSON " ++ utf8 what)

def benchmarkProvenance (benchmarkInfo : BenchmarkInfo) : Except Error Members := do
  let failed := notSet "benchmark provenance"
  let object ← setString failed [] (utf8 "framework") benchmarkInfo.framework
  let object ← setString failed object (utf8 "distribution") benchmarkInfo.distribution.name
  let object ← setString failed object (utf8 "distributionVersion") benchmarkInfo.version
  setString failed object (utf8 "benchmarkVersion") benchmarkInfo.benchmarkVersion

/-- `json_array_append_string`. -/
def tagValue (tag : Bytes) : Except Error JsonValue :=
  match initString tag with
  | some value => .ok value
  | none => .error (outOfMemory (utf8 "Failed to append tag value"))

def setField (object : Members) (field : Bytes × Option Bytes) : Except Error Members :=
  let message := utf8 "Failed to set metadata field '" ++ field.1 ++ utf8 "'"
  match field.2 with
  | none => .ok object
  | some value =>
    if ¬ NulFree value then .error { message, code := EINVAL }
    else setString (outOfMemory message) object field.1 value

def Metadata.fields (metadata : Metadata) : List (Bytes × Option Bytes) :=
  [(utf8 "description", metadata.description), (utf8 "rationale", metadata.rationale),
    (utf8 "fixtext", metadata.fixtext), (utf8 "severity", metadata.severity),
    (utf8 "references", metadata.references)]

def reservedFields : List Bytes :=
  [utf8 "description", utf8 "rationale", utf8 "fixtext", utf8 "severity", utf8 "references"]

def setAdditionalField (object : Members) (field : Bytes × Bytes) : Except Error Members :=
  let message := utf8 "Failed to set additional metadata field '" ++ field.1 ++ utf8 "'"
  if ¬ NulFree field.1 ∨ ¬ NulFree field.2 ∨ field.1 ∈ reservedFields then .error { message, code := EINVAL }
  else setString (outOfMemory message) object field.1 field.2

def setParameter (object : Members) (parameter : Bytes × Bytes) : Except Error Members :=
  setString (outOfMemory (utf8 "Failed to set parameter value")) object parameter.1 parameter.2

/-- What a result says of its rule, whether the rule was executed or not. -/
def fillCommonRuleFields (object : Members) (entry : Resource) (parameters : ParameterMap) :
    Except Error Members := do
  let benchmark ← benchmarkProvenance entry.benchmarkInfo
  let object := objectSetValue object (utf8 "benchmark") (.object benchmark)
  let object ← setString (notSet "title") object (utf8 "title") entry.resourceId
  let object ← setString (notSet "id") object (utf8 "id") entry.id
  let object ← setString (notSet "ruleId") object (utf8 "ruleId") entry.ruleId
  let object ← setString (notSet "ruleName") object (utf8 "ruleName") entry.ruleName
  let tags ← entry.tags.mapM tagValue
  let object := objectSetValue object (utf8 "tags") (.array tags)
  let metadata ← entry.metadata.fields.foldlM setField []
  let metadata ← entry.metadata.additional.toList.foldlM setAdditionalField metadata
  let object := objectSetValue object (utf8 "metadata") (.object metadata)
  let values ← parameters.toList.foldlM setParameter []
  .ok (objectSetValue object (utf8 "parameters") (.object values))

def actionText : Action → Bytes
  | .audit => utf8 "Audit"
  | .remediate => utf8 "Remediation"

def buildRuleResultJson (num : NumberFormat) (entry : Resource) (status : Status) (indicatorsPayload : Bytes)
    (parameters : ParameterMap) (action : Action) : Except Error Members :=
  match jsonParseString num indicatorsPayload with
  | none => .error (outOfMemory (utf8 "Failed to parse JSON payload"))
  | some (.array indicators) => do
    let object := objectSetValue [] (utf8 "indicators") (.array indicators)
    let object ← setString (notSet "status") object (utf8 "status") status.toBytes
    let object ← setString (notSet "action") object (utf8 "action") (actionText action)
    fillCommonRuleFields object entry parameters
  | some _ => .error { message := utf8 "Invalid JSON payload", code := EINVAL }

/-- A rule that was not executed has no indicators and no action. -/
def buildSkippedRuleResultJson (entry : Resource) (parameters : ParameterMap) : Except Error Members := do
  let object := objectSetValue [] (utf8 "indicators") (.array [])
  let object ← setString (notSet "status") object (utf8 "status") (utf8 "Skipped")
  fillCommonRuleFields object entry parameters

/-- A text that parson takes, as the C string it sees. -/
abbrev ValidString (text : Bytes) : Prop := isValidUtf8 (cString text) = true

/-- A text that may be a value of the metadata. -/
def ValidField (text : Bytes) : Prop := NulFree text ∧ ValidString text

/-- A rule and parameters that a result can name: all their texts are UTF-8. -/
structure Reportable (entry : Resource) (parameters : ParameterMap) : Prop where
  framework : ValidString entry.benchmarkInfo.framework
  distributionVersion : ValidString entry.benchmarkInfo.version
  benchmarkVersion : ValidString entry.benchmarkInfo.benchmarkVersion
  title : ValidString entry.resourceId
  id : ValidString entry.id
  ruleId : ValidString entry.ruleId
  ruleName : ValidString entry.ruleName
  tags : ∀ tag ∈ entry.tags, ValidString tag
  metadata : ∀ field ∈ entry.metadata.fields, ∀ value, field.2 = some value → ValidField value
  additional : ∀ field ∈ entry.metadata.additional.toList,
    NulFree field.1 ∧ field.1 ∉ reservedFields ∧ ValidField field.2
  parameters : ∀ parameter ∈ parameters.toList, ValidString parameter.2

private theorem setString_succeeds {failed : Error} {object : Members} {name text : Bytes} :
    (∃ object', setString failed object name text = .ok object') ↔ ValidString text := by
  simp [setString_ok_iff]

private theorem tagValue_ok_iff {tag : Bytes} {value : JsonValue} :
    tagValue tag = .ok value ↔ ValidString tag ∧ value = .string (cString tag) := by
  unfold tagValue initString ValidString
  by_cases hvalid : isValidUtf8 (cString tag) = true
  · simp only [hvalid, ↓reduceIte, true_and]
    exact ⟨fun h => by cases h; rfl, fun h => by rw [h]⟩
  · simp [hvalid]

private theorem setField_succeeds (object : Members) (field : Bytes × Option Bytes) :
    (∃ object', setField object field = .ok object') ↔ ∀ value, field.2 = some value → ValidField value := by
  unfold setField
  cases hvalue : field.2 with
  | none => simp
  | some value =>
    by_cases hnul : NulFree value
    · simp [hnul, setString_succeeds, ValidField]
    · simp [hnul, ValidField]

private theorem setAdditionalField_succeeds (object : Members) (field : Bytes × Bytes) :
    (∃ object', setAdditionalField object field = .ok object') ↔
      NulFree field.1 ∧ field.1 ∉ reservedFields ∧ ValidField field.2 := by
  unfold setAdditionalField
  by_cases hrefused : ¬ NulFree field.1 ∨ ¬ NulFree field.2 ∨ field.1 ∈ reservedFields
  · simp only [hrefused, ↓reduceIte, reduceCtorEq, exists_false, false_iff, ValidField]
    tauto
  · simp only [hrefused, ↓reduceIte, setString_succeeds, ValidField]
    tauto

private theorem distribution_valid (distribution : LinuxDistribution) : ValidString distribution.name := by
  cases distribution <;> decide

private theorem benchmarkProvenance_succeeds (benchmarkInfo : BenchmarkInfo) :
    (∃ object, benchmarkProvenance benchmarkInfo = .ok object) ↔ ValidString benchmarkInfo.framework ∧
      ValidString benchmarkInfo.version ∧ ValidString benchmarkInfo.benchmarkVersion := by
  simp only [benchmarkProvenance, except_bind_ok_iff, setString_ok_iff]
  constructor
  · rintro ⟨_, _, ⟨hframework, -⟩, _, -, _, ⟨hversion, -⟩, hbenchmark, -⟩
    exact ⟨hframework, hversion, hbenchmark⟩
  · rintro ⟨hframework, hversion, hbenchmark⟩
    exact ⟨_, _, ⟨hframework, rfl⟩, _, ⟨distribution_valid _, rfl⟩, _, ⟨hversion, rfl⟩, hbenchmark, rfl⟩

/-- The members that `fillCommonRuleFields` sets. -/
def commonNames : List Bytes :=
  [utf8 "benchmark", utf8 "title", utf8 "id", utf8 "ruleId", utf8 "ruleName", utf8 "tags", utf8 "metadata",
    utf8 "parameters"]

/-- What a result says of its rule does not depend on the result. -/
theorem fillCommonRuleFields_succeeds {object : Members} {entry : Resource} {parameters : ParameterMap} :
    (∃ result, fillCommonRuleFields object entry parameters = .ok result) ↔ Reportable entry parameters := by
  have hmetadata := fun s => @foldlM_succeeds_iff _ _ _ _ _ setField_succeeds entry.metadata.fields s
  have hadditional :=
    fun s => @foldlM_succeeds_iff _ _ _ _ _ setAdditionalField_succeeds entry.metadata.additional.toList s
  have hparameters := fun s => @foldlM_succeeds_iff _ _ _ setParameter (fun p => ValidString p.2)
    (fun _ _ => setString_succeeds) parameters.toList s
  have htags := @mapM_ok_iff_map _ _ _ tagValue ValidString (fun tag => .string (cString tag)) entry.tags
    fun tag _ value => tagValue_ok_iff
  simp only [fillCommonRuleFields, except_bind_ok_iff, setString_ok_iff]
  constructor
  · rintro ⟨_, benchmark, hbenchmark, _, ⟨htitle, -⟩, _, ⟨hid, -⟩, _, ⟨hruleId, -⟩, _, ⟨hruleName, -⟩, tags, hall,
      fields, hfields, additional, hadd, values, hvalues, -⟩
    obtain ⟨hframework, hversion, hbenchmarkVersion⟩ := (benchmarkProvenance_succeeds _).mp ⟨_, hbenchmark⟩
    exact ⟨hframework, hversion, hbenchmarkVersion, htitle, hid, hruleId, hruleName, (htags.mp hall).1,
      (hmetadata _).mp ⟨_, hfields⟩, (hadditional _).mp ⟨_, hadd⟩, (hparameters _).mp ⟨_, hvalues⟩⟩
  · intro h
    obtain ⟨benchmark, hbenchmark⟩ := (benchmarkProvenance_succeeds _).mpr
      ⟨h.framework, h.distributionVersion, h.benchmarkVersion⟩
    obtain ⟨fields, hfields⟩ := (hmetadata []).mpr h.metadata
    obtain ⟨additional, hadd⟩ := (hadditional fields).mpr h.additional
    obtain ⟨values, hvalues⟩ := (hparameters []).mpr h.parameters
    exact ⟨_, benchmark, hbenchmark, _, ⟨h.title, rfl⟩, _, ⟨h.id, rfl⟩, _, ⟨h.ruleId, rfl⟩, _, ⟨h.ruleName, rfl⟩,
      _, htags.mpr ⟨h.tags, rfl⟩, fields, hfields, additional, hadd, values, hvalues, rfl⟩

/-- What a result says of its rule leaves its other members as they are. -/
theorem fillCommonRuleFields_getValue {object result : Members} {entry : Resource} {parameters : ParameterMap}
    (h : fillCommonRuleFields object entry parameters = .ok result) {name : Bytes} (hname : name ∉ commonNames) :
    JsonValue.getValue result name = JsonValue.getValue object name := by
  simp only [fillCommonRuleFields, except_bind_ok_iff, setString_ok_iff] at h
  obtain ⟨benchmark, -, _, ⟨-, rfl⟩, _, ⟨-, rfl⟩, _, ⟨-, rfl⟩, _, ⟨-, rfl⟩, tags, -, fields, -, additional, -, values,
    -, ⟨⟩⟩ := h
  have hother : ∀ common ∈ commonNames, cString common = common ∧ common ≠ name := by
    intro common hcommon
    refine ⟨?_, fun heq => hname (heq ▸ hcommon)⟩
    revert common
    decide
  simp only [getValue_objectSetValue]
  simp only [commonNames, List.forall_mem_cons] at hother
  simp [hother]

/-- A result has the id of its rule. -/
theorem fillCommonRuleFields_id {object result : Members} {entry : Resource} {parameters : ParameterMap}
    (h : fillCommonRuleFields object entry parameters = .ok result) :
    JsonValue.getValue result (utf8 "id") = some (.string (cString entry.id)) := by
  simp only [fillCommonRuleFields, except_bind_ok_iff, setString_ok_iff] at h
  obtain ⟨benchmark, -, _, ⟨-, rfl⟩, _, ⟨-, rfl⟩, _, ⟨-, rfl⟩, _, ⟨-, rfl⟩, tags, -, fields, -, additional, -, values,
    -, ⟨⟩⟩ := h
  have hnames : cString (utf8 "id") = utf8 "id" ∧ ∀ name ∈ [utf8 "ruleId", utf8 "ruleName", utf8 "tags",
      utf8 "metadata", utf8 "parameters"], cString name ≠ utf8 "id" := by decide
  simp only [List.forall_mem_cons] at hnames
  simp [getValue_objectSetValue, hnames]

/-- A result has the provenance of its rule. -/
theorem fillCommonRuleFields_benchmark {object result : Members} {entry : Resource} {parameters : ParameterMap}
    (h : fillCommonRuleFields object entry parameters = .ok result) :
    ∃ benchmark, benchmarkProvenance entry.benchmarkInfo = .ok benchmark ∧
      JsonValue.getValue result (utf8 "benchmark") = some (.object benchmark) := by
  simp only [fillCommonRuleFields, except_bind_ok_iff, setString_ok_iff] at h
  obtain ⟨benchmark, hbenchmark, _, ⟨-, rfl⟩, _, ⟨-, rfl⟩, _, ⟨-, rfl⟩, _, ⟨-, rfl⟩, tags, -, fields, -, additional,
    -, values, -, ⟨⟩⟩ := h
  have hnames : cString (utf8 "benchmark") = utf8 "benchmark" ∧ ∀ name ∈ [utf8 "title", utf8 "id", utf8 "ruleId",
      utf8 "ruleName", utf8 "tags", utf8 "metadata", utf8 "parameters"], cString name ≠ utf8 "benchmark" := by decide
  simp only [List.forall_mem_cons] at hnames
  exact ⟨benchmark, hbenchmark, by simp [getValue_objectSetValue, hnames]⟩

private theorem distribution_cString (distribution : LinuxDistribution) :
    cString distribution.name = distribution.name := by
  cases distribution <;> decide

theorem benchmarkProvenance_members {benchmarkInfo : BenchmarkInfo} {benchmark : Members}
    (h : benchmarkProvenance benchmarkInfo = .ok benchmark) :
    JsonValue.getValue benchmark (utf8 "framework") = some (.string (cString benchmarkInfo.framework)) ∧
      JsonValue.getValue benchmark (utf8 "distribution") = some (.string benchmarkInfo.distribution.name) ∧
      JsonValue.getValue benchmark (utf8 "distributionVersion") = some (.string (cString benchmarkInfo.version)) ∧
      JsonValue.getValue benchmark (utf8 "benchmarkVersion") =
        some (.string (cString benchmarkInfo.benchmarkVersion)) := by
  simp only [benchmarkProvenance, except_bind_ok_iff, setString_ok_iff] at h
  obtain ⟨_, ⟨-, rfl⟩, _, ⟨-, rfl⟩, _, ⟨-, rfl⟩, -, rfl⟩ := h
  have hnames : ∀ name ∈ [utf8 "framework", utf8 "distribution", utf8 "distributionVersion",
      utf8 "benchmarkVersion"], cString name = name := by decide
  simp only [List.forall_mem_cons] at hnames
  simp only [getValue_objectSetValue, hnames, distribution_cString]
  refine ⟨?_, ?_, ?_, ?_⟩ <;> rfl

private theorem actionText_valid (action : Action) :
    isValidUtf8 (cString (actionText action)) = true ∧ cString (actionText action) = actionText action := by
  cases action <;> decide

private theorem status_valid (status : Status) :
    isValidUtf8 (cString status.toBytes) = true ∧ cString status.toBytes = status.toBytes := by
  cases status <;> decide

/-- A result is built from a payload that parson reads as an array, and for a rule that it can name. -/
theorem buildRuleResultJson_succeeds {num : NumberFormat} {entry : Resource} {status : Status}
    {indicatorsPayload : Bytes} {parameters : ParameterMap} {action : Action} :
    (∃ result, buildRuleResultJson num entry status indicatorsPayload parameters action = .ok result) ↔
      (∃ indicators, jsonParseString num indicatorsPayload = some (.array indicators)) ∧
        Reportable entry parameters := by
  unfold buildRuleResultJson
  split
  · next h => simp [h]
  · next indicators h =>
    simp only [except_bind_ok_iff, setString_ok_iff]
    constructor
    · rintro ⟨result, _, -, _, -, hfill⟩
      exact ⟨⟨indicators, h⟩, fillCommonRuleFields_succeeds.mp ⟨result, hfill⟩⟩
    · rintro ⟨-, hreportable⟩
      obtain ⟨result, hfill⟩ := fillCommonRuleFields_succeeds.mpr hreportable
      exact ⟨result, _, ⟨(status_valid status).1, rfl⟩, _, ⟨(actionText_valid action).1, rfl⟩, hfill⟩
  · next value hvalue h =>
    simp only [reduceCtorEq, exists_false, h, Option.some.injEq, false_iff, not_and]
    rintro ⟨indicators, rfl⟩
    exact absurd rfl (hvalue indicators)

/-- What a result says of the evaluation. -/
theorem buildRuleResultJson_members {num : NumberFormat} {entry : Resource} {status : Status}
    {indicatorsPayload : Bytes} {parameters : ParameterMap} {action : Action} {result : Members}
    (h : buildRuleResultJson num entry status indicatorsPayload parameters action = .ok result) :
    JsonValue.getValue result (utf8 "id") = some (.string (cString entry.id)) ∧
      JsonValue.getValue result (utf8 "status") = some (.string status.toBytes) ∧
      JsonValue.getValue result (utf8 "action") = some (.string (actionText action)) := by
  unfold buildRuleResultJson at h
  split at h
  · cases h
  · next indicators hparse =>
    simp only [except_bind_ok_iff, setString_ok_iff] at h
    obtain ⟨_, ⟨-, rfl⟩, _, ⟨-, rfl⟩, hfill⟩ := h
    have hnames : cString (utf8 "status") = utf8 "status" ∧ cString (utf8 "action") = utf8 "action" ∧
        utf8 "action" ≠ utf8 "status" := by decide
    refine ⟨fillCommonRuleFields_id hfill, ?_, ?_⟩
    · rw [fillCommonRuleFields_getValue hfill (by decide)]
      simp [getValue_objectSetValue, hnames, (status_valid status).2]
    · rw [fillCommonRuleFields_getValue hfill (by decide)]
      simp [getValue_objectSetValue, hnames, (actionText_valid action).2]
  · cases h

theorem buildSkippedRuleResultJson_succeeds {entry : Resource} {parameters : ParameterMap} :
    (∃ result, buildSkippedRuleResultJson entry parameters = .ok result) ↔ Reportable entry parameters := by
  have hvalid : isValidUtf8 (cString (utf8 "Skipped")) = true := by decide
  simp only [buildSkippedRuleResultJson, except_bind_ok_iff, setString_ok_iff]
  constructor
  · rintro ⟨result, _, -, hfill⟩
    exact fillCommonRuleFields_succeeds.mp ⟨result, hfill⟩
  · intro h
    obtain ⟨result, hfill⟩ := fillCommonRuleFields_succeeds.mpr h
    exact ⟨result, _, ⟨hvalid, rfl⟩, hfill⟩

/-- A rule that was not executed has the status Skipped, and no action. -/
theorem buildSkippedRuleResultJson_members {entry : Resource} {parameters : ParameterMap} {result : Members}
    (h : buildSkippedRuleResultJson entry parameters = .ok result) :
    JsonValue.getValue result (utf8 "id") = some (.string (cString entry.id)) ∧
      JsonValue.getValue result (utf8 "status") = some (.string (utf8 "Skipped")) ∧
      JsonValue.getValue result (utf8 "action") = none := by
  simp only [buildSkippedRuleResultJson, except_bind_ok_iff, setString_ok_iff] at h
  obtain ⟨_, ⟨-, rfl⟩, hfill⟩ := h
  have hnames : cString (utf8 "status") = utf8 "status" ∧ cString (utf8 "Skipped") = utf8 "Skipped" ∧
      cString (utf8 "indicators") ≠ utf8 "action" ∧ utf8 "status" ≠ utf8 "action" := by decide
  refine ⟨fillCommonRuleFields_id hfill, ?_, ?_⟩
  · rw [fillCommonRuleFields_getValue hfill (by decide)]
    simp [getValue_objectSetValue, hnames]
  · rw [fillCommonRuleFields_getValue hfill (by decide), getValue_objectSetValue, hnames.1, if_neg hnames.2.2.2,
      getValue_objectSetValue, if_neg hnames.2.2.1]
    rfl

/-- A result of either kind says where its rule comes from. -/
theorem buildRuleResultJson_benchmark {num : NumberFormat} {entry : Resource} {status : Status}
    {indicatorsPayload : Bytes} {parameters : ParameterMap} {action : Action} {result : Members}
    (h : buildRuleResultJson num entry status indicatorsPayload parameters action = .ok result) :
    ∃ benchmark, benchmarkProvenance entry.benchmarkInfo = .ok benchmark ∧
      JsonValue.getValue result (utf8 "benchmark") = some (.object benchmark) := by
  unfold buildRuleResultJson at h
  split at h
  · cases h
  · simp only [except_bind_ok_iff] at h
    obtain ⟨_, -, _, -, hfill⟩ := h
    exact fillCommonRuleFields_benchmark hfill
  · cases h

theorem buildSkippedRuleResultJson_benchmark {entry : Resource} {parameters : ParameterMap} {result : Members}
    (h : buildSkippedRuleResultJson entry parameters = .ok result) :
    ∃ benchmark, benchmarkProvenance entry.benchmarkInfo = .ok benchmark ∧
      JsonValue.getValue result (utf8 "benchmark") = some (.object benchmark) := by
  simp only [buildSkippedRuleResultJson, except_bind_ok_iff] at h
  obtain ⟨_, -, hfill⟩ := h
  exact fillCommonRuleFields_benchmark hfill

section StatusNames

/-- The JSON written for a tree has the tree's shape, and names the status of every node and every
indicator in it as a rule's result names the rule's. -/
def NamesStatuses (t : IndicatorsTree) : Prop :=
  ∀ root json, t.getRootNode = some root → JsonFormatter.formatJson t = some (.ok json) →
    json = .array (JsonFormatter.shape Status.toBytes root)

private theorem statusText_eq_toBytes_iff (status : Status) :
    JsonFormatter.statusText status = status.toBytes ↔ status ≠ .notApplicable := by
  cases status <;> decide

theorem namesStatuses_iff (t : IndicatorsTree) :
    NamesStatuses t ↔ ∀ root, t.getRootNode = some root →
      ¬ root.Every JsonFormatter.ValidText ∨ root.Every fun _ status => status ≠ .notApplicable := by
  have hshape : ∀ root : Node, JsonFormatter.shape JsonFormatter.statusText root =
      JsonFormatter.shape Status.toBytes root ↔ root.Every fun _ status => status ≠ .notApplicable := by
    intro root
    rw [JsonFormatter.shape_eq_iff]
    simp only [statusText_eq_toBytes_iff]
  constructor
  · intro h root hroot
    by_cases hvalid : root.Every JsonFormatter.ValidText
    · right
      have hformat := JsonFormatter.formatNode_ok_iff.mpr ⟨hvalid, rfl⟩
      have hjson := h root (.array (JsonFormatter.shape JsonFormatter.statusText root)) hroot (by
        rw [JsonFormatter.formatJson, hroot, Option.map_some, hformat]
        rfl)
      exact (hshape root).mp (JsonValue.array.inj hjson)
    · exact Or.inl hvalid
  · intro h root json hroot hjson
    rw [JsonFormatter.formatJson, hroot, Option.map_some, Option.some.injEq] at hjson
    cases hitems : JsonFormatter.formatNode root with
    | error e =>
      rw [hitems] at hjson
      cases hjson
    | ok items =>
      rw [hitems] at hjson
      cases hjson
      obtain ⟨hvalid, rfl⟩ := JsonFormatter.formatNode_ok_iff.mp hitems
      rw [(hshape root).mpr ((h root hroot).resolve_left (not_not_intro hvalid))]

/-- A rule's result names the rule's status by `Status.toBytes`, and the indicators in it do so as well
unless something in their tree is not applicable. -/
theorem names_statuses_iff (t : IndicatorsTree) :
    (∀ num entry status payload parameters action result,
      buildRuleResultJson num entry status payload parameters action = .ok result →
        JsonValue.getValue result (utf8 "status") = some (.string status.toBytes)) ∧
    (NamesStatuses t ↔ ∀ root, t.getRootNode = some root →
      ¬ root.Every JsonFormatter.ValidText ∨ root.Every fun _ status => status ≠ .notApplicable) :=
  ⟨fun _ _ _ _ _ _ _ h => (buildRuleResultJson_members h).2.1, namesStatuses_iff t⟩

/-- What an evaluation of `{"AuditNotApplicable": {}}` leaves. -/
def notApplicableTree : IndicatorsTree :=
  TreeOp.applyAll [.push (utf8 "rule"), .push (utf8 "AuditNotApplicable"), .setStatus .notApplicable, .pop,
    .setStatus .notApplicable, .pop] {}

/-- The node of a procedure that does not apply is written as incompliant. -/
theorem names_notApplicable_otherwise : ¬ NamesStatuses notApplicableTree := by
  have hroot : notApplicableTree.getRootNode =
      some ⟨utf8 "rule", .notApplicable, [⟨utf8 "AuditNotApplicable", .notApplicable, [], []⟩], []⟩ := rfl
  have hvalid : isValidUtf8 (cString (utf8 "AuditNotApplicable")) = true := by decide
  rw [namesStatuses_iff]
  intro h
  rcases h _ hroot with hinvalid | hstatus
  · refine hinvalid (Node.every_iff.mpr ⟨?_, by simp⟩)
    rw [List.forall_mem_singleton]
    exact ⟨hvalid, Node.every_iff.mpr ⟨by simp, by simp⟩⟩
  · exact absurd rfl ((Node.every_iff.mp hstatus).1 _ (List.mem_singleton.mpr rfl)).1

end StatusNames

end Kompli.BenchmarkIO
