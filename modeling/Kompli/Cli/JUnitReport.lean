import Kompli.BenchmarkIO.BenchmarkDefinition
import Kompli.Cli.JUnitRenderer
import Kompli.Foundation.Frames
import Kompli.Parson.Utf8
import Kompli.Parson.Serialize

/-! The report of the rules of a result: its XML elements, and the bytes that are charged for them. -/
namespace Kompli.Cli
open BenchmarkDefinition Parson Foundation Ascii

def maxJUnitBytes : Nat := 16 * 1024 * 1024

def invalidResult (message : Bytes) : Error := { message := utf8 "Canonical result JSON " ++ message, code := EINVAL }

def resultTooBig : Error := { message := utf8 "JUnit result exceeds the maximum output size", code := EFBIG }

section Characters

/-- A character of XML 1.0, of the given length in UTF-8. -/
def isXmlChar (length codePoint : Nat) : Bool :=
  validCodePoint length codePoint && (codePoint = 0x09 || codePoint = 0x0A || codePoint = 0x0D || 0x20 ≤ codePoint) &&
    !(0xFFFE ≤ codePoint && codePoint ≤ 0xFFFF)

def hasValidXmlCharacters : Bytes → Bool
  | [] => true
  | first :: xml =>
    if first < 0x80 then isXmlChar 1 first.toNat && hasValidXmlCharacters xml
    else if 0xC2 ≤ first ∧ first ≤ 0xDF then
      match xml with
      | c₁ :: xml => isCont c₁ && isXmlChar 2 (addCont (first &&& 0x1F).toNat c₁) && hasValidXmlCharacters xml
      | _ => false
    else if 0xE0 ≤ first ∧ first ≤ 0xEF then
      match xml with
      | c₁ :: c₂ :: xml => isCont c₁ && isCont c₂ &&
          isXmlChar 3 (addCont (addCont (first &&& 0x0F).toNat c₁) c₂) && hasValidXmlCharacters xml
      | _ => false
    else if 0xF0 ≤ first ∧ first ≤ 0xF4 then
      match xml with
      | c₁ :: c₂ :: c₃ :: xml => isCont c₁ && isCont c₂ && isCont c₃ &&
          isXmlChar 4 (addCont (addCont (addCont (first &&& 0x07).toNat c₁) c₂) c₃) && hasValidXmlCharacters xml
      | _ => false
    else false

end Characters

inductive XmlNode where
  | element (name : Bytes) (attributes : List (Bytes × Bytes)) (children : List XmlNode)
  | pcdata (value : Bytes)

/-- The state is what is used of the budget. -/
abbrev XmlBuild := EStateM Error Nat

section Build

/-- `XmlBudget::Add`. -/
def charge (bytes : Nat) : XmlBuild Unit := fun used =>
  if maxJUnitBytes - used < bytes then .error resultTooBig used else .ok () (used + bytes)

def ofResult {α : Type} : Except Error α → XmlBuild α
  | .ok a => pure a
  | .error e => throw e

/-- What is charged for an element before it is known what is in it. -/
def addElement (name : Bytes) : XmlBuild Unit := charge (3 + name.length)

def invalidCharacters : Error :=
  { message := utf8 "Canonical result contains invalid XML 1.0 characters or UTF-8", code := EINVAL }

def addAttribute (name value : Bytes) : XmlBuild (Bytes × Bytes) :=
  if ¬ hasValidXmlCharacters value then throw invalidCharacters
  else do
    charge (4 + name.length)
    charge value.length
    pure (name, value)

/-- Control characters in a text are shown as blanks. -/
def withoutControls (value : Bytes) : Bytes :=
  value.map fun ch => if ch < 0x20 ∧ ch ≠ 0x09 ∧ ch ≠ 0x0A ∧ ch ≠ 0x0D then 0x20 else ch

def addText (value : Bytes) : XmlBuild XmlNode :=
  let value := withoutControls value
  if ¬ hasValidXmlCharacters value then throw invalidCharacters
  else do
    charge value.length
    pure (.pcdata value)

end Build

section Body

/-- A member as a C string, which is empty where there is none. -/
def stringOrEmpty (object : Members) (name : Bytes) : Bytes := (JsonValue.getString object name).getD []

def maxIndicatorDepth : Nat := 16

/-- The lines of the indicators, each a step further in than the one it is part of; `room` is what is left of
the depth. -/
def appendIndicators : (room : Nat) → List JsonValue → Bytes
  | 0, _ => []
  | room + 1, indicators => indicators.flatMap fun
    | .object node =>
      let message := stringOrEmpty node (utf8 "message")
      let label := if message = [] then stringOrEmpty node (utf8 "procedure") else message
      let status := stringOrEmpty node (utf8 "status")
      List.replicate ((maxIndicatorDepth - (room + 1)) * 2) 0x20 ++ utf8 "  - " ++ label ++
        (if status = [] then [] else utf8 " [" ++ status ++ utf8 "]") ++ [0x0A] ++
        appendIndicators room ((getArray node (utf8 "indicators")).getD [])
    | _ => []

def parameterLine (num : NumberFormat) (parameter : Bytes × JsonValue) : Bytes :=
  let value := match parameter.2 with
    | .string value => cString value
    | value => jsonSerializeToString num value
  utf8 "  - " ++ cString parameter.1 ++ utf8 ": " ++ value ++ [0x0A]

def buildBody (num : NumberFormat) (rule : Members) : Except Error Bytes :=
  let parameters := (getObject rule (utf8 "parameters")).getD []
  let body := utf8 "Rule: " ++ stringOrEmpty rule (utf8 "ruleName") ++ utf8 "\n\nParameters:\n" ++
    parameters.flatMap (parameterLine num) ++ utf8 "\nIndicators:\n" ++
    appendIndicators maxIndicatorDepth ((getArray rule (utf8 "indicators")).getD [])
  if maxJUnitBytes < body.length then .error resultTooBig else .ok body

end Body

section Tags

def readTag : JsonValue → Except Error Bytes
  | .string value =>
    let axis := value.takeWhile (· ≠ colon)
    if maxTagBytes < value.length then
      .error { message := utf8 "Canonical result JSON rule has a tag exceeding " ++ decimal maxTagBytes ++ utf8 " bytes"
               code := E2BIG }
    else if 0 ∈ value then .error (invalidResult (utf8 "rule has a tag with an embedded NUL"))
    else if colon ∉ value ∨ axis = [] ∨ axis.length + 1 = value.length ∨ ¬ axis.all isTagKeyByte then
      .error (invalidResult (utf8 "rule has an invalid 'axis:value' tag"))
    else .ok value
  | _ => .error (invalidResult (utf8 "rule has a non-string tag"))

def addTag (tag : JsonValue) : XmlBuild XmlNode := do
  let value ← ofResult (readTag tag)
  addElement (utf8 "tag")
  let value ← addAttribute (utf8 "value") value
  pure (.element (utf8 "tag") [value] [])

/-- `BuildTags`: the element for the tags, if there are any. -/
def buildTags (rule : Members) : XmlBuild (List XmlNode) :=
  match JsonValue.getValue rule (utf8 "tags") with
  | none => pure []
  | some (.array []) => pure []
  | some (.array tags) => do
    addElement (utf8 "tags")
    let tags ← tags.mapM addTag
    pure [.element (utf8 "tags") [] tags]
  | some _ => throw (invalidResult (utf8 "rule has a non-array 'tags' field"))

end Tags

section Testcase

def readComponent (benchmark : Members) (key : Bytes) : Except Error Bytes :=
  match JsonValue.getValue benchmark key with
  | some (.string component) =>
    if component = [] ∨ 0 ∈ component then
      .error (invalidResult (utf8 "rule has empty or NUL-containing benchmark field '" ++ key ++ utf8 "'"))
    else .ok component
  | _ => .error (invalidResult (utf8 "rule has invalid benchmark field '" ++ key ++ utf8 "'"))

/-- The members of a rule's benchmark that its class name has. -/
def benchmarkKeys : List Bytes :=
  [utf8 "framework", utf8 "distribution", utf8 "distributionVersion", utf8 "benchmarkVersion"]

def testcaseClassname (rule : Members) (id : Bytes) : Except Error Bytes :=
  match JsonValue.getValue rule (utf8 "benchmark") with
  | none => .ok id
  | some (.object benchmark) => do
    let components ← benchmarkKeys.mapM (readComponent benchmark)
    .ok (Frames.frames components ++ Frames.frame id)
  | some _ => .error (invalidResult (utf8 "rule has invalid 'benchmark' value"))

def readId (rule : Members) : Except Error Bytes :=
  match JsonValue.getValue rule (utf8 "id") with
  | some (.string id) =>
    if id = [] then .error (invalidResult (utf8 "rule has an empty 'id'"))
    else if 0 ∈ id then .error (invalidResult (utf8 "rule has an embedded NUL in its testcase classname"))
    else .ok id
  | _ => .error (invalidResult (utf8 "rule has no string 'id'"))

/-- The name of a test case: the title of the rule, or else its name. -/
def readTitle (rule : Members) : Except Error Bytes :=
  match JsonValue.getValue rule (utf8 "title"), JsonValue.getValue rule (utf8 "ruleName") with
  | some (.string title), _ => checkName title
  | some _, _ => .error (invalidResult (utf8 "rule has a non-string 'title'"))
  | none, some (.string ruleName) => checkName ruleName
  | none, _ => .error (invalidResult (utf8 "rule has neither a string 'title' nor a string 'ruleName'"))
where
  checkName (name : Bytes) : Except Error Bytes :=
    if 0 ∈ name then .error (invalidResult (utf8 "rule has an embedded NUL in its testcase name")) else .ok name

def readStatus (rule : Members) : Except Error Bytes :=
  match JsonValue.getValue rule (utf8 "status") with
  | some (.string status) =>
    if 0 ∈ status then .error (invalidResult (utf8 "rule has an embedded NUL in its status")) else .ok status
  | _ => .error (invalidResult (utf8 "rule has no string 'status'"))

def resultStatuses : List Bytes := [utf8 "Compliant", utf8 "NonCompliant", utf8 "NotApplicable", utf8 "Skipped"]

/-- What is read of a rule before anything is added for it. -/
structure Testcase where
  classname : Bytes
  title : Bytes
  status : Bytes

def readTestcase (rule : Members) : Except Error Testcase := do
  let id ← readId rule
  let title ← readTitle rule
  let status ← readStatus rule
  let classname ← testcaseClassname rule id
  if status ∉ resultStatuses then
    .error (invalidResult (utf8 "rule has invalid 'status' value: '" ++ status ++ utf8 "'"))
  else .ok { classname, title, status }

def buildFailure (num : NumberFormat) (rule : Members) : XmlBuild (List XmlNode) := do
  let body ← ofResult (buildBody num rule)
  addElement (utf8 "failure")
  let message ← addAttribute (utf8 "message") (utf8 "Rule is non-compliant")
  let type ← addAttribute (utf8 "type") (utf8 "NonCompliant")
  let text ← addText body
  pure [.element (utf8 "failure") [message, type] [text]]

def buildSkipped (num : NumberFormat) (rule : Members) (message : Bytes) : XmlBuild (List XmlNode) := do
  let body ← ofResult (buildBody num rule)
  addElement (utf8 "skipped")
  let message ← addAttribute (utf8 "message") message
  let text ← addText body
  pure [.element (utf8 "skipped") [message] [text]]

/-- What a test case says of a rule that did not pass. -/
def buildVerdict (num : NumberFormat) (rule : Members) (status : Bytes) : XmlBuild (List XmlNode) :=
  if status = utf8 "NonCompliant" then buildFailure num rule
  else if status = utf8 "NotApplicable" then buildSkipped num rule (utf8 "Rule is not applicable")
  else if status = utf8 "Skipped" then buildSkipped num rule (utf8 "Rule was skipped")
  else pure []

def addTestcase (num : NumberFormat) (rule : Members) : XmlBuild (XmlNode × Bytes) := do
  let case ← ofResult (readTestcase rule)
  addElement (utf8 "testcase")
  let classname ← addAttribute (utf8 "classname") case.classname
  let name ← addAttribute (utf8 "name") case.title
  let tags ← buildTags rule
  let verdict ← buildVerdict num rule case.status
  pure (.element (utf8 "testcase") [classname, name] (tags ++ verdict), case.status)

end Testcase

section Report

structure Counts where
  failures : Nat := 0
  skipped : Nat := 0

def Counts.add (counts : Counts) (status : Bytes) : Counts :=
  if status = utf8 "NonCompliant" then { counts with failures := counts.failures + 1 }
  else if status = utf8 "NotApplicable" ∨ status = utf8 "Skipped" then { counts with skipped := counts.skipped + 1 }
  else counts

/-- The loop over the rules, which counts those that did not pass. -/
def addTestcases (num : NumberFormat) : Counts → List JsonValue → XmlBuild (List XmlNode × Counts)
  | counts, [] => pure ([], counts)
  | counts, .object rule :: rules => do
    let (case, status) ← addTestcase num rule
    let (cases, counts) ← addTestcases num (counts.add status) rules
    pure (case :: cases, counts)
  | _, _ :: _ => throw (invalidResult (utf8 "'rules' entry is not an object"))

/-- The document: one suite, with a test case for each rule. -/
def buildReport (num : NumberFormat) (rules : List JsonValue) (suiteName : Bytes) : XmlBuild XmlNode := do
  addElement (utf8 "testsuites")
  addElement (utf8 "testsuite")
  let name ← addAttribute (utf8 "name") suiteName
  let (cases, counts) ← addTestcases num {} rules
  let tests ← addAttribute (utf8 "tests") (decimal rules.length)
  let failures ← addAttribute (utf8 "failures") (decimal counts.failures)
  let skipped ← addAttribute (utf8 "skipped") (decimal counts.skipped)
  pure (.element (utf8 "testsuites") [] [.element (utf8 "testsuite") [name, tests, failures, skipped] cases])

/-- `save` is that of the XML library, of a document with its declaration. -/
def renderReport (num : NumberFormat) (save : XmlNode → Bytes) (rules : List JsonValue) (suiteName : Bytes) :
    Except Error Bytes :=
  match buildReport num rules suiteName 0 with
  | .error e _ => .error e
  | .ok document _ =>
    if maxJUnitBytes < (save document).length then .error resultTooBig else .ok (save document)

end Report

end Kompli.Cli
