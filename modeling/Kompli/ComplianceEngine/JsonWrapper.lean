import Kompli.Parson.Build
import Kompli.Parson.Parse
import Kompli.ComplianceEngine.MmiResults

/-! Reading JSON, given as text or as base64, and building it with errors of one's own. -/
namespace Kompli
open Parson Ascii

def isAlpha (c : UInt8) : Bool := (0x41 ≤ c && c ≤ 0x5A) || (0x61 ≤ c && c ≤ 0x7A)
def isAlnum (c : UInt8) : Bool := isAlpha c || isDigit c

/-- Letters, digits and underscores, the first not a digit. -/
structure IsKeyName (key : Bytes) : Prop where
  bytes : ∀ c ∈ key, isAlnum c = true ∨ c = 0x5F
  first : ∃ c ∈ key.head?, isDigit c = false

theorem IsKeyName.ne_nil {key : Bytes} (h : IsKeyName key) : key ≠ [] := by
  rintro rfl
  obtain ⟨c, hc, -⟩ := h.first
  cases hc

/-- The bytes of key names are no white space, and neither `=` nor `#`. -/
theorem keyName_byte {c : UInt8} (h : isAlnum c = true ∨ c = 0x5F) :
    c ≠ 0x3D ∧ c ≠ 0x23 ∧ isSpace c = false :=
  forall_byte (P := fun c => isAlnum c = true ∨ c = 0x5F → c ≠ 0x3D ∧ c ≠ 0x23 ∧ isSpace c = false) (by decide +kernel) c h

namespace Base64

abbrev padding : UInt8 := 0x3D

def base64Char (c : UInt8) : UInt8 :=
  if 0x41 ≤ c ∧ c ≤ 0x5A then c - 0x41
  else if 0x61 ≤ c ∧ c ≤ 0x7A then c - 0x61 + 26
  else if zero ≤ c ∧ c ≤ nine then c - zero + 52
  else if c = 0x2B then 62
  else if c = slash then 63
  else 0

def isBase64 (c : UInt8) : Bool := isAlnum c || c = 0x2B || c = slash || c = padding

/-- Four characters; what follows the first `=` of them is not looked at. -/
def decodeBlock (c₀ c₁ c₂ c₃ : UInt8) : Except Error Bytes :=
  let first := base64Char c₀ <<< 2 ||| base64Char c₁ >>> 4
  let second := (base64Char c₁ &&& 0x0F) <<< 4 ||| base64Char c₂ >>> 2
  let third := (base64Char c₂ &&& 0x03) <<< 6 ||| base64Char c₃
  if c₀ = padding ∨ c₁ = padding then .error { message := utf8 "Invalid base64", code := EINVAL }
  else if c₂ = padding then .ok [first]
  else if c₃ = padding then .ok [first, second]
  else .ok [first, second, third]

def decodeBlocks : Bytes → Except Error Bytes
  | c₀ :: c₁ :: c₂ :: c₃ :: input => do
    let block ← decodeBlock c₀ c₁ c₂ c₃
    let rest ← decodeBlocks input
    .ok (block ++ rest)
  | _ => .ok []

def decode (input : Bytes) : Except Error Bytes :=
  if input.length % 4 ≠ 0 then .error { message := utf8 "Invalid base64 length", code := EINVAL }
  else if ¬ input.all isBase64 then
    .error { message := utf8 "Invalid base64 character", code := EINVAL }
  else decodeBlocks input

end Base64

namespace JsonWrapper

/-- The scan for `\u0000` inside strings. -/
def containsEscapedNul : (inString : Bool) → Bytes → Bool
  | _, [] => false
  | false, c :: s => containsEscapedNul (c = quote) s
  | true, c :: s =>
    if c = quote then containsEscapedNul false s
    else if c ≠ backslash then containsEscapedNul true s
    else
      match s with
      | [] => false
      | e :: s => (e = u && startsWith (utf8 "0000") s) || containsEscapedNul true s

def containsNul (input : Bytes) : Bool := 0 ∈ input || containsEscapedNul false input

def fromString (num : NumberFormat) (input : Bytes) : Except Error JsonValue :=
  if containsNul input then .error { message := utf8 "JSON input contains embedded NUL", code := EINVAL }
  else
    match jsonParseString num input with
    | some value => .ok value
    | none => .error { message := utf8 "Failed to parse JSON", code := EINVAL }

def fromBase64 (num : NumberFormat) (input : Bytes) : Except Error JsonValue := do
  let decodedString ← Base64.decode input
  fromString num decodedString

/-- `json_object_set_string`, and the error its caller returns where it fails. -/
def setString (failed : Error) (object : Members) (name text : Bytes) : Except Error Members :=
  match objectSetString object name text with
  | some object => .ok object
  | none => .error failed

/-- Setting a string fails when the text, read as a C string, is not UTF-8. -/
theorem setString_eq (failed : Error) (object : Members) (name text : Bytes) :
    setString failed object name text =
      if isValidUtf8 (cString text) then .ok (objectSetValue object name (.string (cString text)))
      else .error failed := by
  unfold setString objectSetString initString
  split <;> rename_i h <;> split at h <;> simp_all

theorem setString_ok_iff {failed : Error} {object object' : Members} {name text : Bytes} :
    setString failed object name text = .ok object' ↔
      isValidUtf8 (cString text) = true ∧ object' = objectSetValue object name (.string (cString text)) := by
  rw [setString_eq]
  split <;> rename_i h <;> simp [h, eq_comm]

end JsonWrapper
end Kompli
