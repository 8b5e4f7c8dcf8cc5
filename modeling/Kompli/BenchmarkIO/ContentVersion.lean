import Kompli.Parson.Parse
import Kompli.ComplianceEngine.MmiResults

/-! Versions of definitions and of plans: MAJOR.MINOR.PATCH in decimals of any length. -/
namespace Kompli
open Parson Ascii

/-- A decimal without leading zeros. -/
def validComponent (component : Bytes) : Bool :=
  component ≠ [] && (component.length = 1 || component.head? ≠ some zero) && component.all isDigit

structure ContentVersion where
  major : Bytes
  minor : Bytes
  patch : Bytes
  valid : validComponent major ∧ validComponent minor ∧ validComponent patch
  deriving DecidableEq

namespace ContentVersion

/-- What comes before the first dot, and what comes after it. -/
def splitAtDot (text : Bytes) : Option (Bytes × Bytes) :=
  if dot ∈ text then some (text.takeWhile (· ≠ dot), (text.dropWhile (· ≠ dot)).tail) else none

def parts (text : Bytes) : Option (Bytes × Bytes × Bytes) := do
  let (major, rest) ← splitAtDot text
  let (minor, patch) ← splitAtDot rest
  some (major, minor, patch)

def parse (text : Bytes) : Except Error ContentVersion :=
  let invalid : Error := { message := utf8 "Invalid content version '" ++ text ++ utf8 "': expected MAJOR.MINOR.PATCH"
                           code := EINVAL }
  match parts text with
  | none => .error invalid
  | some (major, minor, patch) =>
    -- a third dot is no digit
    if valid : validComponent major ∧ validComponent minor ∧ validComponent patch then
      .ok { major, minor, patch, valid }
    else .error invalid

/-- Of two decimals without leading zeros the longer is the greater. -/
def compareDecimal (left right : Bytes) : Ordering :=
  (compare left.length right.length).then (compare left right)

def compare (left right : ContentVersion) : Ordering :=
  (compareDecimal left.major right.major).then
    ((compareDecimal left.minor right.minor).then (compareDecimal left.patch right.patch))

def toBytes (version : ContentVersion) : Bytes :=
  version.major ++ dot :: (version.minor ++ dot :: version.patch)

theorem splitAtDot_append {component : Bytes} (h : validComponent component) (rest : Bytes) :
    splitAtDot (component ++ dot :: rest) = some (component, rest) := by
  have hdot : ∀ c ∈ component, c ≠ dot := by
    simp only [validComponent, Bool.and_eq_true, List.all_eq_true] at h
    intro c hc
    have hdigit := h.2 c hc
    rintro rfl
    exact absurd hdigit (by decide)
  rw [splitAtDot, if_pos (by simp), List.takeWhile_append_of_pos (by simpa using hdot),
    List.dropWhile_append_of_pos (by simpa using hdot)]
  simp

theorem parse_toBytes (version : ContentVersion) : parse version.toBytes = .ok version := by
  obtain ⟨major, minor, patch, hvalid⟩ := version
  rw [parse, toBytes, parts, splitAtDot_append hvalid.1]
  simp only [Option.bind_eq_bind, Option.bind_some, splitAtDot_append hvalid.2.1]
  rw [dif_pos hvalid]

private theorem validComponent_nulFree {component : Bytes} (h : validComponent component) : NulFree component := by
  simp only [validComponent, Bool.and_eq_true, List.all_eq_true] at h
  intro hzero
  exact absurd (h.2 0 hzero) (by decide)

theorem toBytes_nulFree (version : ContentVersion) : NulFree version.toBytes := by
  obtain ⟨hmajor, hminor, hpatch⟩ := version.valid
  have hdot : (0 : UInt8) ≠ dot := by decide
  simp only [toBytes, NulFree, List.mem_append, List.mem_cons, not_or]
  exact ⟨validComponent_nulFree hmajor, hdot, validComponent_nulFree hminor, hdot, validComponent_nulFree hpatch⟩

theorem toBytes_ne_nil (version : ContentVersion) : version.toBytes ≠ [] := by
  simp [toBytes]

theorem compareDecimal_self (component : Bytes) : compareDecimal component component = .eq := by
  simp [compareDecimal]

theorem compare_self (version : ContentVersion) : compare version version = .eq := by
  simp [compare, compareDecimal_self]

end ContentVersion
end Kompli
