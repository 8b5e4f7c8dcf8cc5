import Kompli.BenchmarkIO.Resource
import Kompli.ComplianceEngine.JsonWrapper
import Kompli.Parson.Build
import Kompli.Parson.Serialize

/-! Reading a benchmark definition. -/
namespace Kompli

def E2BIG : Int := 7
def EFBIG : Int := 27

/-- `std::to_string` of a count. -/
def decimal (n : Nat) : Bytes := utf8 (toString n)

namespace BenchmarkDefinition
open BenchmarkIO Parson Ascii

def maxInputBytes : Nat := 8 * 1024 * 1024
def maxRules : Nat := 100000
def maxTagBytes : Nat := 256
def supportedApiVersions : List Bytes := [utf8 "v1"]

/-- An error of the definition; most name the element it is in. -/
def invalid (message : Bytes) : Error := { message := utf8 "Benchmark definition " ++ message, code := EINVAL }

def readStringValue (value key context : Bytes) : Except Error Bytes :=
  if 0 ∈ value then .error (invalid (context ++ utf8 " has an embedded NUL in '" ++ key ++ utf8 "'"))
  else .ok value

def requiredStringAllowEmpty (object : Members) (key context : Bytes) : Except Error Bytes :=
  match JsonValue.getValue object key with
  | some (.string value) => readStringValue value key context
  | _ => .error (invalid (context ++ utf8 " is missing required string field '" ++ key ++ utf8 "'"))

def requiredString (object : Members) (key context : Bytes) : Except Error Bytes := do
  let value ← requiredStringAllowEmpty object key context
  if value = [] then .error (invalid (context ++ utf8 " has an empty '" ++ key ++ utf8 "' field"))
  else .ok value

def optionalString (object : Members) (key context : Bytes) : Except Error (Option Bytes) :=
  match JsonValue.getValue object key with
  | none => .ok none
  | some (.string value) => do
    let value ← readStringValue value key context
    .ok (some value)
  | some _ => .error (invalid (context ++ utf8 " has a non-string '" ++ key ++ utf8 "' field"))

/-- The engine reads what this writes. -/
def serializeProcedure (num : NumberFormat) (ruleObject : Members) (context : Bytes) : Except Error Bytes :=
  match JsonValue.getValue ruleObject (utf8 "payload") with
  | some (.object payload) => .ok (jsonSerializeToString num (.object payload))
  | _ => .error (invalid (context ++ utf8 " is missing an object 'payload' field"))

def parseParameterEntry (entry : Members) (entryContext : Bytes) : Except Error ParameterMetadata := do
  let defaultValue ← requiredStringAllowEmpty entry (utf8 "default") entryContext
  let type ← requiredString entry (utf8 "type") entryContext
  if type ≠ utf8 "string" then
    .error (invalid (entryContext ++ utf8 " has unsupported type '" ++ type ++
      utf8 "'; only 'string' is supported"))
  else
    let displayName ← optionalString entry (utf8 "displayName") entryContext
    let validationRegex ← optionalString entry (utf8 "validationRegex") entryContext
    let validationFailedMessage ← optionalString entry (utf8 "validationFailedMessage") entryContext
    let metadata : ParameterMetadata :=
      { defaultValue, type, displayName, validationRegex, validationFailedMessage }
    match JsonValue.getValue entry (utf8 "mandatory") with
    | none => .ok metadata
    | some (.boolean mandatory) => .ok { metadata with mandatory }
    | some _ => .error (invalid (entryContext ++ utf8 " has a 'mandatory' field that is not a boolean"))

def addParameterEntry (context : Bytes) (result : ByteMap ParameterMetadata) (member : Bytes × JsonValue) :
    Except Error (ByteMap ParameterMetadata) :=
  let name := cString member.1
  if name = [] then .error (invalid (context ++ utf8 " has a 'parameterMetadata' entry with an empty name"))
  else
    let entryContext := context ++ utf8 ".parameterMetadata." ++ name
    match member.2 with
    | .object entry => do
      let metadata ← parseParameterEntry entry entryContext
      .ok (result.insert name metadata)
    | _ => .error (invalid (entryContext ++ utf8 " is not a JSON object"))

def parseParameterMetadata (ruleObject : Members) (context : Bytes) :
    Except Error (ByteMap ParameterMetadata) :=
  match JsonValue.getValue ruleObject (utf8 "parameterMetadata") with
  | none => .ok ∅
  | some (.object members) => members.foldlM (addParameterEntry context) ∅
  | some _ => .error (invalid (context ++ utf8 " has a 'parameterMetadata' field that is not a JSON object"))

/-- The part before the colon is lower case, digits and dashes. -/
def isTagKeyByte (c : UInt8) : Bool := (0x61 ≤ c && c ≤ 0x7A) || isDigit c || c = minus

def parseTag (context : Bytes) : JsonValue → Except Error Bytes
  | .string tag =>
    let key := tag.takeWhile (· ≠ colon)
    if maxTagBytes < tag.length then
      .error { message := utf8 "Benchmark definition " ++ context ++ utf8 " has a 'tags' entry exceeding " ++
                 decimal maxTagBytes ++ utf8 " bytes"
               code := E2BIG }
    else if 0 ∈ tag then .error (invalid (context ++ utf8 " has an embedded NUL in a 'tags' entry"))
    else if colon ∉ tag ∨ key = [] ∨ key.length + 1 = tag.length ∨ ¬ key.all isTagKeyByte then
      .error (invalid (context ++ utf8 " has an invalid 'tags' entry"))
    else .ok tag
  | _ => .error (invalid (context ++ utf8 " has a non-string 'tags' entry"))

def parseTags (ruleObject : Members) (context : Bytes) : Except Error (List Bytes) :=
  match JsonValue.getValue ruleObject (utf8 "tags") with
  | some (.array tags) => tags.mapM (parseTag context)
  | _ => .error (invalid (context ++ utf8 " is missing an array 'tags' field"))

def namedMetadata : List Bytes :=
  [utf8 "description", utf8 "rationale", utf8 "fixtext", utf8 "severity", utf8 "references"]

def addMetadata (object : Members) (context : Bytes) (additional : ByteMap Bytes) (member : Bytes × JsonValue) :
    Except Error (ByteMap Bytes) := do
  let key := cString member.1
  if key ∈ namedMetadata then .ok additional
  else
    let extra ← optionalString object key context
    .ok (additional.insertIfNew key (extra.getD []))

def parseMetadata (ruleObject : Members) (context : Bytes) : Except Error Metadata :=
  match getObject ruleObject (utf8 "metadata") with
  | none => .error (invalid (context ++ utf8 " is missing an object 'metadata' field"))
  | some object => do
    let metadataContext := context ++ utf8 ".metadata"
    let description ← optionalString object (utf8 "description") metadataContext
    let rationale ← optionalString object (utf8 "rationale") metadataContext
    let fixtext ← optionalString object (utf8 "fixtext") metadataContext
    let severity ← optionalString object (utf8 "severity") metadataContext
    let references ← optionalString object (utf8 "references") metadataContext
    let additional ← object.foldlM (addMetadata object metadataContext) ∅
    .ok { description, rationale, fixtext, severity, references, additional }

/-- The identity of a rule in a payload key is that of its document. -/
def validateLegacyPayloadKeyPrefix (payloadKeyInfo documentInfo : BenchmarkInfo) (context : Bytes) :
    Except Error Unit :=
  let disagrees (field ours field' theirs : Bytes) : Except Error Unit :=
    .error (invalid (context ++ utf8 " payloadKey " ++ field ++ utf8 " '" ++ ours ++
      utf8 "' disagrees with metadata " ++ field' ++ utf8 " '" ++ theirs ++ utf8 "'"))
  if payloadKeyInfo.framework ≠ documentInfo.framework then
    disagrees (utf8 "framework") payloadKeyInfo.framework (utf8 "framework") documentInfo.framework
  else if payloadKeyInfo.distribution ≠ documentInfo.distribution then
    disagrees (utf8 "distribution") payloadKeyInfo.distribution.name (utf8 "distribution")
      documentInfo.distribution.name
  else if payloadKeyInfo.version ≠ documentInfo.version then
    disagrees (utf8 "distribution version") payloadKeyInfo.version (utf8 "distribution version")
      documentInfo.version
  else if BenchmarkInfo.versionWithoutPrefix payloadKeyInfo.benchmarkVersion ≠
      BenchmarkInfo.versionWithoutPrefix documentInfo.benchmarkVersion then
    disagrees (utf8 "benchmark version") payloadKeyInfo.benchmarkVersion (utf8 "benchmark version")
      documentInfo.benchmarkVersion
  else .ok ()

def hasValue (object : Members) (key : Bytes) : Bool := (JsonValue.getValue object key).isSome

/-- The id of a rule that has none, from its section. -/
def parseLegacyId (ruleObject : Members) (documentInfo : BenchmarkInfo) (context : Bytes) :
    Except Error Bytes := do
  let section_ ← requiredString ruleObject (utf8 "section") context
  let payloadKey ← requiredString ruleObject (utf8 "payloadKey") context
  match BenchmarkInfo.parse payloadKey with
  | .error e =>
    .error { message := utf8 "Failed to parse payloadKey of benchmark definition " ++ context ++ utf8 ": " ++
               e.message
             code := e.code }
  | .ok payloadKeyInfo =>
    validateLegacyPayloadKeyPrefix payloadKeyInfo documentInfo context
    let payloadKeySection := payloadKeyInfo.section_.map fun c => if c = slash then dot else c
    if section_ ≠ payloadKeySection then
      .error (invalid (context ++ utf8 " has a 'section' ('" ++ section_ ++
        utf8 "') that disagrees with its payloadKey section ('" ++ payloadKeySection ++ utf8 "')"))
    else .ok section_

def parseRuleIdentity (ruleObject : Members) (documentInfo : BenchmarkInfo) (context : Bytes) :
    Except Error Bytes :=
  let hasSection := hasValue ruleObject (utf8 "section")
  let hasPayloadKey := hasValue ruleObject (utf8 "payloadKey")
  if hasValue ruleObject (utf8 "id") then
    if hasSection ∨ hasPayloadKey then
      .error (invalid (context ++
        utf8 " mixes the 'id' identity with legacy 'section' or 'payloadKey' fields"))
    else requiredString ruleObject (utf8 "id") context
  else if ¬ hasSection ∨ ¬ hasPayloadKey then
    .error (invalid (context ++
      utf8 " must contain either 'id' or the complete legacy 'section' and 'payloadKey' identity"))
  else parseLegacyId ruleObject documentInfo context

def parseRule (num : NumberFormat) (ruleObject : Members) (index : Nat) (documentInfo : BenchmarkInfo) :
    Except Error Resource := do
  let context := utf8 "rule #" ++ decimal index
  let title ← requiredString ruleObject (utf8 "title") context
  let ruleId ← requiredString ruleObject (utf8 "ruleId") context
  let ruleName ← requiredString ruleObject (utf8 "ruleName") context
  let procedure ← serializeProcedure num ruleObject context
  let parameterMetadata ← parseParameterMetadata ruleObject context
  let id ← parseRuleIdentity ruleObject documentInfo context
  let tags ← parseTags ruleObject context
  let metadata ← parseMetadata ruleObject context
  .ok { benchmarkInfo := documentInfo, resourceId := title, id, ruleId, procedure, ruleName, tags, metadata
        parameterMetadata, hasInitAudit := true }

/-- The loop over the rules; `resources` are those before rule `index`. -/
def parseRules (num : NumberFormat) (documentInfo : BenchmarkInfo) (index : Nat)
    (resources : List Resource) : List JsonValue → Except Error (List Resource)
  | [] => .ok resources
  | .object ruleObject :: rules => do
    let resource ← parseRule num ruleObject index documentInfo
    if resource.id ∈ resources.map Resource.id then
      .error (invalid (utf8 "has duplicate rule id '" ++ resource.id ++ utf8 "'"))
    else parseRules num documentInfo (index + 1) (resources ++ [resource]) rules
  | _ :: _ => .error (invalid (utf8 "rule #" ++ decimal index ++ utf8 " is not a JSON object"))

def parseLabels (labels annotations : Members) : Except Error BenchmarkInfo := do
  let framework ← requiredString labels (utf8 "framework") (utf8 "metadata.labels")
  let distribution ← requiredString labels (utf8 "distribution") (utf8 "metadata.labels")
  let distributionVersion ← requiredString labels (utf8 "distributionVersion") (utf8 "metadata.labels")
  let benchmarkVersion ← requiredString annotations (utf8 "benchmarkVersion") (utf8 "metadata.annotations")
  match BenchmarkInfo.fromMetadata framework distribution distributionVersion benchmarkVersion with
  | .ok benchmarkInfo => .ok benchmarkInfo
  | .error e =>
    .error { message := utf8 "Benchmark definition has invalid file-level identity: " ++ e.message
             code := e.code }

/-- Every rule of a document without an identity of its own has one. -/
def checkLegacyRules : (index : Nat) → List JsonValue → Except Error Unit
  | _, [] => .ok ()
  | index, .object ruleObject :: rules =>
    if hasValue ruleObject (utf8 "id") ∨ ¬ hasValue ruleObject (utf8 "section") ∨
        ¬ hasValue ruleObject (utf8 "payloadKey") then
      .error (invalid (utf8 "without hoisted identity must contain only complete legacy rule identities"))
    else checkLegacyRules (index + 1) rules
  | index, _ :: _ => .error (invalid (utf8 "rule #" ++ decimal index ++ utf8 " is not a JSON object"))

/-- The identity of the document, from its first rule. -/
def parseLegacyIdentity (rules : List JsonValue) : Except Error BenchmarkInfo := do
  checkLegacyRules 0 rules
  match rules with
  | .object firstRule :: _ =>
    let firstPayloadKey ← requiredString firstRule (utf8 "payloadKey") (utf8 "rule #0")
    match BenchmarkInfo.parse firstPayloadKey with
    | .ok benchmarkInfo => .ok { benchmarkInfo with section_ := [] }
    | .error e =>
      .error { message := utf8 "Failed to derive legacy benchmark identity from rule #0 payloadKey: " ++ e.message
               code := e.code }
  | _ => .error (invalid (utf8 "rule #0 is not a JSON object"))

def parseIdentity (metadata : Members) (rules : List JsonValue) : Except Error BenchmarkInfo :=
  match JsonValue.getValue metadata (utf8 "labels"), JsonValue.getValue metadata (utf8 "annotations") with
  | none, none => parseLegacyIdentity rules
  | some (.object labels), some (.object annotations) => parseLabels labels annotations
  | some (.object _), some _ => .error (invalid (utf8 "'metadata.annotations' is not an object"))
  | some _, some _ => .error (invalid (utf8 "'metadata.labels' is not an object"))
  | _, _ =>
    .error (invalid (utf8 "metadata must contain both 'labels' and 'annotations', " ++
      utf8 "or neither for a legacy document"))

def checkKind (root : Members) : Except Error Unit :=
  match requiredString root (utf8 "kind") (utf8 "document") with
  | .ok kind => if kind = utf8 "BenchmarkDefinition" then .ok () else unexpected
  | .error _ => unexpected
where
  unexpected := .error (invalid (utf8 "has an unexpected or missing 'kind' (expected 'BenchmarkDefinition')"))

def parseRoot (num : NumberFormat) (root : Members) : Except Error BenchmarkDocument := do
  checkKind root
  let apiVersion ← requiredString root (utf8 "apiVersion") (utf8 "document")
  if apiVersion ∉ supportedApiVersions then
    .error (invalid (utf8 "has an unsupported 'apiVersion'; supported: " ++
      (utf8 ", ").intercalate supportedApiVersions))
  else
    match getObject root (utf8 "metadata") with
    | none => .error (invalid (utf8 "is missing the 'metadata' object"))
    | some metadata =>
      let name ← requiredString metadata (utf8 "name") (utf8 "metadata")
      match getObject root (utf8 "spec") with
      | none => .error (invalid (utf8 "is missing the 'spec' object"))
      | some spec =>
        let versionText ← requiredString spec (utf8 "version") (utf8 "spec")
        let version ← ContentVersion.parse versionText
        match getArray spec (utf8 "rules") with
        | none => .error (invalid (utf8 "is missing the 'spec.rules' array"))
        | some rules =>
          if rules = [] then .error (invalid (utf8 "'spec.rules' must contain at least one rule"))
          else if maxRules < rules.length then
            .error { message := utf8 "Benchmark definition has more than the maximum of " ++ decimal maxRules ++
                       utf8 " rules"
                     code := E2BIG }
          else
            let benchmarkInfo ← parseIdentity metadata rules
            let resources ← parseRules num benchmarkInfo 0 [] rules
            .ok { name, version, benchmarkInfo, resources }

def parseString (num : NumberFormat) (json : Bytes) : Except Error BenchmarkDocument :=
  if 0 ∈ json then .error (invalid (utf8 "contains a NUL byte"))
  else
    match JsonWrapper.fromString num json with
    | .error e =>
      .error { message := utf8 "Failed to parse benchmark definition JSON: " ++ e.message, code := EINVAL }
    | .ok (.object root) => parseRoot num root
    | .ok _ => .error (invalid (utf8 "is not a JSON object"))

/-- `ParseStream` of a stream that holds `content`. -/
def parseStream (num : NumberFormat) (content : Bytes) : Except Error BenchmarkDocument :=
  if maxInputBytes < content.length then
    .error { message := utf8 "Benchmark definition exceeds the maximum size of " ++ decimal maxInputBytes ++
               utf8 " bytes"
             code := EFBIG }
  else parseString num content

/-- `openVerified` gives the content of a file, or says why it may not be read. -/
def parseFile (num : NumberFormat) (openVerified : Bytes → Except Error Bytes) (path : Bytes) :
    Except Error BenchmarkDocument := do
  let content ← openVerified path
  parseStream num content

end BenchmarkDefinition
end Kompli
