import Kompli.Parson.Build
import Kompli.Parson.Parse
import Kompli.ComplianceEngine.MmiResults

/-! Reading a result document to make a report of it. -/
namespace Kompli.Cli
open Parson Ascii

def isJsonSpace (c : UInt8) : Bool := c = 0x20 || c = 0x09 || c = 0x0D || c = 0x0A

/-- The scan for the end of an object. It starts at a brace, so `depth` is not 0 when one closes. -/
def scanObject : (depth : Nat) → (inString : Bool) → Bytes → Bool
  | _, _, [] => true
  | depth, true, c :: s =>
    if c = backslash then
      match s with
      | [] => true
      | _ :: s => scanObject depth true s
    else if c = quote then scanObject depth false s
    else scanObject depth true s
  | depth, false, c :: s =>
    if c = quote then scanObject depth true s
    else if c = leftBrace then scanObject (depth + 1) false s
    else if c = rightBrace then
      if depth - 1 = 0 then s.any fun c => !isJsonSpace c else scanObject (depth - 1) false s
    else scanObject depth false s

def hasTrailingObjectData (json : Bytes) : Bool := scanObject 0 false (json.dropWhile (· ≠ leftBrace))

/-- The checks of `RenderJUnit` on the document, up to its rules. -/
def readResult (num : NumberFormat) (canonicalJson : Bytes) : Except Error (List JsonValue) :=
  if 0 ∈ canonicalJson then
    .error { message := utf8 "Canonical result JSON contains a NUL byte", code := EINVAL }
  else
    match jsonParseString num canonicalJson with
    | none => .error { message := utf8 "Failed to parse canonical result JSON", code := EINVAL }
    | some (.object rootObject) =>
      if hasTrailingObjectData canonicalJson then
        .error { message := utf8 "Canonical result JSON contains trailing data", code := EINVAL }
      else
        match getArray rootObject (utf8 "rules") with
        | none => .error { message := utf8 "Canonical result JSON has no 'rules' array", code := EINVAL }
        | some rules => .ok rules
    | some _ => .error { message := utf8 "Canonical result JSON is not an object", code := EINVAL }

/-- `render` makes the report of the rules of a suite. -/
def renderJUnit (num : NumberFormat) (render : List JsonValue → Bytes → Except Error Bytes)
    (canonicalJson suiteName : Bytes) : Except Error Bytes := do
  let rules ← readResult num canonicalJson
  render rules suiteName

end Kompli.Cli
