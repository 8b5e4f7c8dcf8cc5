import Kompli.ComplianceEngine.JsonWrapper
import Kompli.ComplianceEngine.StringTools
import Kompli.Foundation.Streams
import Kompli.Procedures.ConfigRewrite

/-! The remediation of an option in `login.defs`. -/
namespace Kompli.LoginDefsOption
open Parson Ascii Foundation Streams StringTools ConfigRewrite

inductive ComparisonOperation where
  | equal
  | notEqual
  | lessThan
  | lessOrEqual
  | greaterThan
  | greaterOrEqual
  | patternMatch
  deriving DecidableEq, Repr

structure Params where
  option : Bytes
  value : Bytes
  comparison : ComparisonOperation := .equal

def getRemediationValue (params : Params) : Except Error Bytes :=
  if params.option = [] ∨ ∃ c ∈ params.option, ¬ (isAlnum c = true ∨ c ∈ utf8 "_") then
    .error { message := utf8 "Invalid login.defs option name", code := EINVAL }
  else if params.value = [] ∨ ∃ c ∈ params.value, c ∈ utf8 " \t\r\n" then
    .error { message := utf8 "Invalid login.defs option value", code := EINVAL }
  else
    match params.comparison with
    | .equal | .lessOrEqual | .greaterOrEqual => .ok params.value
    | .notEqual =>
      .error { message := utf8 "Cannot safely remediate a not-equal login.defs comparison", code := ENOTSUP }
    | comparison =>
      match tryStringToInt params.value with
      | .error _ => .error { message := utf8 "Strict login.defs comparisons require an integer value", code := EINVAL }
      | .ok value =>
        match comparison with
        | .lessThan =>
          if value = -2 ^ 31 then
            .error { message := utf8 "Cannot remediate a less-than comparison below the minimum integer", code := ERANGE }
          else .ok (printSigned (value - 1))
        | .greaterThan =>
          if value = 2 ^ 31 - 1 then
            .error { message := utf8 "Cannot remediate a greater-than comparison above the maximum integer"
                     code := ERANGE }
          else .ok (printSigned (value + 1))
        | _ => .error { message := utf8 "Unsupported login.defs comparison operation", code := ENOTSUP }

def isLoginDefsSeparator (c : UInt8) : Bool := c ∈ utf8 " \t\r" || c = 0x0B || c = 0x0C

/-- A line that gives the option a value, with another one. -/
def replaceValue (option value line : Bytes) : Option Bytes :=
  let rest := line.dropWhile isLoginDefsSeparator
  let text := (rest.dropWhile (! isLoginDefsSeparator ·)).dropWhile isLoginDefsSeparator
  let oldValue := ((stripComment text).reverse.dropWhile isLoginDefsSeparator).reverse
  if rest = [] ∨ rest.head? = some hash ∨ rest.takeWhile (! isLoginDefsSeparator ·) ≠ option then none
  else some (line.take (line.length - text.length) ++ value ++ text.drop oldValue.length)

/-- Every value of the option is replaced; where there is none a line is added. -/
def replaceEffectiveLoginDefsValue (contents option value : Bytes) : Bytes :=
  let lines := contents.splitOn newline
  if lines.any fun line => (replaceValue option value line).isSome then
    [newline].intercalate (lines.map fun line => (replaceValue option value line).getD line)
  else
    contents ++ (if contents ≠ [] ∧ contents.getLast? ≠ some newline then [newline] else []) ++
      (option ++ utf8 "\t" ++ value ++ [newline])

def remediateLoginDefsOption (outcomes : Outcomes) (params : Params) : ConfigM Status := do
  let remediationValue ← ConfigRewrite.ofExcept (getRemediationValue params)
  unlessCompliant outcomes <|
    rewriteConfig outcomes (outcomes.specialFilePath (utf8 "/etc/login.defs"))
      (replaceEffectiveLoginDefsValue · params.option remediationValue)
      (utf8 "login.defs remediation produced no change") (utf8 "login.defs remained noncompliant")

theorem remediateLoginDefsOption_keeps (outcomes : Outcomes) (params : Params) (file : Option ConfigFile) :
    Keeps file (remediateLoginDefsOption outcomes params { file }) ↔
      ∀ value, getRemediationValue params = .ok value → NeedsChange outcomes →
        ReadsAllToUndo outcomes file fun text => replaceEffectiveLoginDefsValue text params.option value ≠ text := by
  refine ofExcept_keeps (untouched_start file) fun value => ?_
  exact unlessCompliant_keeps (fun t ht => rewriteConfig_keeps ht) (untouched_start file)

end Kompli.LoginDefsOption
