import Kompli.Foundation.CheckedWrites
import Kompli.ComplianceEngine.JsonWrapper
import Kompli.ComplianceEngine.Procedures

/-! What the engine stores for a rule, and the parameters users give for it. -/
namespace Kompli
open Parson Ascii Foundation

namespace ProcedureParameters

abbrev underscore : UInt8 := 0x5F
abbrev equalsSign : UInt8 := 0x3D
abbrev apostrophe : UInt8 := 0x27

/-- `emplace`: a key that is there already keeps its value. -/
def emplace (result : ParameterMap) (key value : Bytes) : ParameterMap := result.insertIfNew key value

def parseMember (result : ParameterMap) (member : Bytes × JsonValue) : Except Error ParameterMap :=
  match member.2 with
  | .string value => .ok (emplace result (cString member.1) (cString value))
  | _ => .error { message := utf8 "Failed to get parameter name and value" }

/-- `Parse` of a JSON object. -/
def parseObject (members : List (Bytes × JsonValue)) : Except Error ParameterMap :=
  members.foldlM parseMember ∅

/-- A key, and what follows it. -/
def parseKey : (first : Bool) → Bytes → Except Error (Bytes × Bytes)
  | _, [] => .ok ([], [])
  | first, c :: s =>
    if isSpace c ∨ c = equalsSign then .ok ([], c :: s)
    else if ¬ isAlnum c ∧ c ≠ underscore then
      .error { message := utf8 "Invalid key: only alphanumeric and underscore characters are allowed" }
    else if first ∧ isDigit c then
      .error { message := utf8 "Invalid key: first character must not be a digit" }
    else do
      let (key, rest) ← parseKey false s
      .ok (c :: key, rest)

/-- The value, the byte before the position reached, and what is at that position.
`last` is the byte before `s`, at first the opening quote. -/
def parseQuotedValue (quote : UInt8) : (last : UInt8) → (value : Bytes) → Bytes → Bytes × UInt8 × Bytes
  | last, value, [] => (value, last, [])
  | _, value, c :: s =>
    if c = backslash then
      match s with
      | [] => (value, c, [])
      | e :: s =>
        if e = backslash then parseQuotedValue quote e (value ++ [backslash]) s
        else if e = quote then parseQuotedValue quote e (value ++ [quote]) s
        else (value, c, e :: s)
    else if c = quote then (value, c, s)
    else parseQuotedValue quote c (value ++ [c]) s

/-- The value after the `=` of a pair, and what follows it. -/
def parsePairValue : Bytes → Except Error (Bytes × Bytes)
  | [] => .error { message := utf8 "Invalid key-value pair: missing value" }
  | c :: s =>
    if isSpace c then .error { message := utf8 "Invalid key-value pair: missing value" }
    else if c = quote ∨ c = apostrophe then
      let (value, last, rest) := parseQuotedValue c c [] s
      if last ≠ c then
        .error { message := utf8 "Invalid key-value pair: missing closing quote or invalid escape sequence" }
      else if s = [] then
        .error { message := utf8 "Invalid key-value pair: missing closing quote at the end of the input" }
      else if rest.head?.any (! isSpace ·) then
        .error { message := utf8 "Invalid key-value pair: space expected after quoted value" }
      else .ok (value, rest)
    else .ok ((c :: s).takeWhile (! isSpace ·), (c :: s).dropWhile (! isSpace ·))

/-- The loop of `Parse` of a text. A turn reads a byte at least, so that `fuel` does
not run out when it is more than the length of the text. -/
def parsePairs : (fuel : Nat) → ParameterMap → Bytes → Except Error ParameterMap
  | 0, result, _ => .ok result
  | fuel + 1, result, s =>
    match skipWhitespaces s with
    | [] => .ok result
    | c :: s => do
      let (key, rest) ← parseKey true (c :: s)
      if key = [] then .error { message := utf8 "Invalid key-value pair: empty key" }
      else
        match rest with
        | [] => .error { message := utf8 "Invalid key-value pair: '=' expected" }
        | c :: rest =>
          if c ≠ equalsSign then .error { message := utf8 "Invalid key-value pair: '=' expected" }
          else do
            let (value, rest) ← parsePairValue rest
            parsePairs fuel (emplace result key value) rest

/-- `Parse` of a text of `key=value` pairs. -/
def parseText (input : Bytes) : Except Error ParameterMap := parsePairs (input.length + 1) ∅ input

/-- How the first `UpdateUserParameters` reads what it is given. -/
def parseUserParameters (num : NumberFormat) (userParameters : Bytes) : Except Error ParameterMap :=
  match JsonWrapper.fromString num userParameters with
  | .ok (.object members) => parseObject members
  | .ok _ => .error { message := utf8 "A JSON object expected", code := EINVAL }
  | .error _ => parseText userParameters

end ProcedureParameters

structure Procedure where
  parameters : ParameterMap := ∅
  auditRule : Option JsonValue := none
  remediationRule : Option JsonValue := none

namespace Procedure

def parameterNotFound (key : Bytes) : Error :=
  { message := utf8 "User parameter '" ++ key ++ utf8 "' not found" }

/-- `UpdateUserParameters` of parsed parameters; a map is gone through in the order of its keys. -/
def updateParameters (userParameters : ParameterMap) : EStateM Error ParameterMap Unit :=
  writeKnown parameterNotFound userParameters.toList

/-- `UpdateUserParameters` of a text, on the parameters of the procedure. -/
def updateUserParameters (num : NumberFormat) (userParameters : Bytes) : EStateM Error Procedure Unit :=
  fun procedure =>
    match ProcedureParameters.parseUserParameters num userParameters with
    | .error e => .error e procedure
    | .ok parsed =>
      match updateParameters parsed procedure.parameters with
      | .ok _ parameters => .ok () { procedure with parameters }
      | .error e parameters => .error e { procedure with parameters }

end Procedure
end Kompli
