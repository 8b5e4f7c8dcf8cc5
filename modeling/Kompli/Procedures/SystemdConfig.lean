import Kompli.ComplianceEngine.JsonWrapper
import Kompli.ComplianceEngine.StringTools
import Kompli.Foundation.Streams
import Kompli.Foundation.Substring
import Kompli.Procedures.ConfigRewrite

/-! The remediation of a parameter in a configuration file of systemd. -/
namespace Kompli.SystemdConfig
open Parson Ascii Foundation Streams StringTools ConfigRewrite

inductive SystemdConfigValueOperator where
  | lessThan
  | lessOrEqual
  | greaterThan
  | greaterOrEqual
  | equal
  deriving DecidableEq, Repr

/-- Of the regular expression only the text is kept. -/
structure Params where
  parameter : Bytes
  valueRegex : Option Bytes := none
  op : Option SystemdConfigValueOperator := none
  value : Option Bytes := none
  file : Option Bytes := none
  block : Option Bytes := none
  dir : Option Bytes := none

/-- The value, and the file and the block it is to be set in. -/
structure Desired where
  file : Bytes
  block : Bytes
  value : Bytes

def belowSystemd (file : Bytes) : Bool :=
  (utf8 "/etc/systemd/").isPrefixOf file && (cutAt (utf8 "/../") file).isNone && ! (utf8 "/..").isSuffixOf file

def isParameterByte (c : UInt8) : Bool := isAlnum c || c ∈ utf8 "_.-"

/-- The checks read the optional parameters that the remediation uses. -/
def getSystemdConfigRemediationValue (params : Params) : Except Error Desired :=
  let oneFile : Error :=
    { message := utf8 "SystemdConfigValue remediation requires one config file below /etc/systemd", code := ENOTSUP }
  let oneBlock : Error :=
    { message := utf8 "SystemdConfigValue remediation requires one valid config block", code := ENOTSUP }
  let oneValue : Error :=
    { message := utf8 "SystemdConfigValue remediation requires an exact equality value", code := ENOTSUP }
  match params.file, params.dir with
  | some file, none =>
    if belowSystemd file = false then .error oneFile
    else
      match params.block with
      | none => .error oneBlock
      | some block =>
        if block = [] ∨ ∃ c ∈ block, c ∈ utf8 "[]\r\n" then .error oneBlock
        else if params.parameter = [] ∨ ∃ c ∈ params.parameter, isParameterByte c = false then
          .error { message := utf8 "Invalid systemd config parameter", code := EINVAL }
        else
          match params.valueRegex, params.value, params.op with
          | none, some value, some .equal =>
            if ∃ c ∈ value, c = 0 ∨ c ∈ utf8 "\r\n" then
              .error { message := utf8 "Invalid systemd config value", code := EINVAL }
            else .ok { file, block, value }
          | _, _, _ => .error oneValue
  | _, _ => .error oneFile

def carriageReturn : UInt8 := 0x0D
def equals : UInt8 := 0x3D

/-- What is known at the start of a line. -/
structure Scan where
  lineStart : Nat := 0
  /-- Where the last value of the parameter starts and ends. -/
  replacement : Option (Nat × Nat) := none
  insertionPosition : Option Nat := none
  inTargetBlock : Bool := false
  foundTargetBlock : Bool := false

def withoutCarriageReturn (line : Bytes) : Bytes :=
  if line.getLast? = some carriageReturn then line.dropLast else line

def isHeader (trimmed : Bytes) : Bool :=
  2 ≤ trimmed.length && trimmed.head? = some 0x5B && trimmed.getLast? = some 0x5D

/-- One turn of the loop. -/
def scanLine (targetBlock parameter : Bytes) (scan : Scan) (line : Bytes) : Scan :=
  let text := withoutCarriageReturn line
  let trimmed := trimWhiteSpaces text
  let next := { scan with lineStart := scan.lineStart + (line.length + 1) }
  if isHeader trimmed then
    { next with
      insertionPosition := if scan.inTargetBlock then some scan.lineStart else scan.insertionPosition
      inTargetBlock := trimmed = targetBlock
      foundTargetBlock := scan.foundTargetBlock || trimmed = targetBlock }
  else if scan.inTargetBlock ∧ trimmed ≠ [] ∧ trimmed.head? ≠ some 0x23 ∧ trimmed.head? ≠ some 0x3B ∧
      equals ∈ text ∧ trimWhiteSpaces (text.takeWhile (· ≠ equals)) = parameter then
    { next with
      replacement := some (scan.lineStart + ((text.takeWhile (· ≠ equals)).length + 1), scan.lineStart + text.length) }
  else next

def replaceSystemdConfigValue (contents block parameter value : Bytes) : Bytes :=
  let targetBlock := utf8 "[" ++ block ++ utf8 "]"
  let lineEnding := if (cutAt (utf8 "\r\n") contents).isSome then utf8 "\r\n" else utf8 "\n"
  let scan := (contents.splitOn newline).foldl (scanLine targetBlock parameter) {}
  let setting := parameter ++ utf8 "=" ++ value ++ lineEnding
  match scan.replacement with
  | some (start, stop) => contents.take start ++ value ++ contents.drop stop
  | none =>
    if scan.foundTargetBlock then
      let position := if scan.inTargetBlock then contents.length else scan.insertionPosition.getD contents.length
      let before := contents.take position
      before ++ (if before ≠ [] ∧ before.getLast? ≠ some newline then lineEnding else []) ++ setting ++
        contents.drop position
    else
      contents ++ (if contents ≠ [] ∧ contents.getLast? ≠ some newline then lineEnding else []) ++ targetBlock ++
        lineEnding ++ setting

def remediateSystemdConfigValue (outcomes : Outcomes) (params : Params) : ConfigM Status := do
  let desired ← ConfigRewrite.ofExcept (getSystemdConfigRemediationValue params)
  unlessCompliant outcomes <|
    rewriteConfig outcomes (outcomes.specialFilePath desired.file)
      (replaceSystemdConfigValue · desired.block params.parameter desired.value)
      (utf8 "SystemdConfigValue remediation produced no change") (utf8 "Systemd config remained noncompliant")

theorem remediateSystemdConfigValue_keeps (outcomes : Outcomes) (params : Params) (file : Option ConfigFile) :
    Keeps file (remediateSystemdConfigValue outcomes params { file }) ↔
      ∀ desired, getSystemdConfigRemediationValue params = .ok desired → NeedsChange outcomes →
        ReadsAllToUndo outcomes file fun text =>
          replaceSystemdConfigValue text desired.block params.parameter desired.value ≠ text := by
  refine ofExcept_keeps (untouched_start file) fun desired => ?_
  exact unlessCompliant_keeps (fun t ht => rewriteConfig_keeps ht) (untouched_start file)

end Kompli.SystemdConfig
