import Kompli.ComplianceEngine.BenchmarkInfo
import Kompli.Foundation.ExceptRule

/-! The override file: what the host is said to be, and how that is printed. -/
namespace Kompli
open Parson Ascii

namespace OSType

/-- The names of `GetOSTypeMap`. -/
def name : OSType → Bytes
  | linux => utf8 "Linux"

def parse (osTypeStr : Bytes) : Except Error OSType :=
  match [linux].find? (·.name = osTypeStr) with
  | some osType => .ok osType
  | none => .error { message := utf8 "Unsupported OS type: " ++ osTypeStr, code := EINVAL }

end OSType

namespace Architecture

/-- The names of `GetArchitectureMap`. -/
def name : Architecture → Bytes
  | x86_64 => utf8 "x86_64"
  | aarch64 => utf8 "aarch64"

def parse (architectureStr : Bytes) : Except Error Architecture :=
  match [x86_64, aarch64].find? (·.name = architectureStr) with
  | some architecture => .ok architecture
  | none => .error { message := utf8 "Unsupported architecture: " ++ architectureStr, code := EINVAL }

end Architecture

namespace DistributionInfo

abbrev equals : UInt8 := 0x3D
abbrev hash : UInt8 := 0x23
abbrev newline : UInt8 := 0x0A

def invalid (message : String) : Error := { message := utf8 message, code := EINVAL }

/-- The key, and what follows its `=`; no key at all when there is nothing left to read. -/
def parseKey : (result : Bytes) → (hasSpaces comment : Bool) → Bytes → Except Error (Bytes × Bytes)
  | [], _, _, [] => .ok ([], [])
  | _ :: _, _, _, [] => .error (invalid "Unexpected end of input while parsing a key")
  | result, hasSpaces, true, value :: input => parseKey result hasSpaces (value ≠ newline) input
  | result, hasSpaces, false, value :: input =>
    if value = equals then
      if result = [] then .error (invalid "Unexpected '=' at the start of a key") else .ok (result, input)
    else if value = hash then
      if result ≠ [] then .error (invalid "Unexpected comment character '#' in a key")
      else parseKey result hasSpaces true input
    else if isSpace value then parseKey result (hasSpaces || result ≠ []) false input
    else if hasSpaces then .error (invalid "Unexpected space in a key")
    else parseKey (result ++ [value]) hasSpaces false input

/-- The value, and what follows it. White space in quotes is skipped as well. -/
def parseValue : (result : Bytes) → (quoted : Bool) → Bytes → Except Error (Bytes × Bytes)
  | _, true, [] => .error (invalid "Unexpected end of input while parsing a quoted value")
  | result, false, [] => .ok (result, [])
  | result, quoted, value :: input =>
    if value = quote then
      if quoted then .ok (result, input)
      else if result ≠ [] then .error (invalid "Unexpected quote character past the start of value")
      else parseValue result true input
    else if value = hash ∧ ¬ quoted then .ok (result, (input.dropWhile (· ≠ newline)).tail)
    else if isSpace value then
      if quoted then parseValue result quoted input else .ok (result, input)
    else parseValue (result ++ [value]) quoted input

theorem parseKey_length {result : Bytes} {hasSpaces comment : Bool} {input key rest : Bytes}
    (h : parseKey result hasSpaces comment input = .ok (key, rest)) (hkey : key ≠ []) :
    rest.length < input.length := by
  fun_induction parseKey result hasSpaces comment input with
  | case1 =>
    cases h
    exact absurd rfl hkey
  | case2 => cases h
  | case3 _ _ _ _ ih => exact Nat.lt_succ_of_lt (ih h)
  | case4 => cases h
  | case5 =>
    cases h
    exact Nat.lt_succ_self _
  | case6 => cases h
  | case7 _ _ _ _ _ ih => exact Nat.lt_succ_of_lt (ih h)
  | case8 _ _ _ _ _ _ _ ih => exact Nat.lt_succ_of_lt (ih h)
  | case9 => cases h
  | case10 _ _ _ _ _ _ _ _ ih => exact Nat.lt_succ_of_lt (ih h)

theorem parseValue_length {result : Bytes} {quoted : Bool} {input value rest : Bytes}
    (h : parseValue result quoted input = .ok (value, rest)) : rest.length ≤ input.length := by
  fun_induction parseValue result quoted input with
  | case1 => cases h
  | case2 =>
    cases h
    exact le_rfl
  | case3 =>
    cases h
    exact Nat.le_succ _
  | case4 => cases h
  | case5 _ _ _ _ _ ih => exact Nat.le_succ_of_le (ih h)
  | case6 _ _ _ input =>
    cases h
    have hline := (List.dropWhile_suffix (· ≠ newline) (l := input)).length_le
    rw [List.length_tail, List.length_cons]
    omega
  | case7 _ _ _ _ _ _ ih => exact Nat.le_succ_of_le (ih h)
  | case8 =>
    cases h
    exact Nat.le_succ _
  | case9 _ _ _ _ _ _ _ ih => exact Nat.le_succ_of_le (ih h)

/-- The loop of `ParseDistributionInfoFile`. -/
def parseEntries (input : Bytes) (result : ByteMap Bytes) : Except Error (ByteMap Bytes) :=
  if input = [] then .ok result
  else
    match _hkey : parseKey [] false false input with
    | .error e => .error e
    | .ok (key, input₁) =>
      if _hempty : key = [] then .ok result
      else
        match _hvalue : parseValue [] false input₁ with
        | .error e => .error e
        | .ok (value, input₂) => parseEntries input₂ (result.insert key value)
termination_by input.length
decreasing_by
  exact Nat.lt_of_le_of_lt (parseValue_length _hvalue) (parseKey_length _hkey _hempty)

/-- A field that the file must have. -/
def requiredField (path : Bytes) (fields : ByteMap Bytes) (name : Bytes) : Except Error Bytes :=
  match fields[name]? with
  | some value => .ok value
  | none =>
    .error { message := path ++ utf8 " file does not contain '" ++ name ++ utf8 "' field", code := EINVAL }

/-- `ParseOverrideFile`, on the content of the file. -/
def parseOverrideFile (path content : Bytes) : Except Error DistributionInfo := do
  let fields ← parseEntries content ∅
  let osType ← OSType.parse (← requiredField path fields (utf8 "OS"))
  let architecture ← Architecture.parse (← requiredField path fields (utf8 "ARCH"))
  let distribution ← LinuxDistribution.parse (← requiredField path fields (utf8 "DISTRO"))
  let version ← requiredField path fields (utf8 "VERSION")
  .ok { osType, architecture, distribution, version }

/-- `std::to_string`. -/
def toBytes (info : DistributionInfo) : Bytes :=
  utf8 "OS=\"" ++ info.osType.name ++ utf8 "\"" ++
    (utf8 " ARCH=\"" ++ info.architecture.name ++ utf8 "\"") ++
    (utf8 " DISTRO=\"" ++ info.distribution.name ++ utf8 "\"") ++
    (utf8 " VERSION=\"" ++ info.version ++ utf8 "\"")

end DistributionInfo
end Kompli
