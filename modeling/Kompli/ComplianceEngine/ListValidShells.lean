import Kompli.ComplianceEngine.StringTools
import Kompli.Foundation.Lines
import Kompli.Foundation.Substring

/-! The login shells of `/etc/shells`. -/
namespace Kompli.ListValidShells
open Foundation Parson Streams StringTools

section Shells

def slash : UInt8 := 0x2F

/-- From the last slash on, or all of it where there is none. -/
def fromLastSlash (line : Bytes) : Bytes :=
  match cutLast slash line with
  | none => line
  | some (_, after) => slash :: after

/-- One turn of the loop. -/
def shellOf (line : Bytes) : Option Bytes :=
  let line := stripComment line
  match cutAt (utf8 "nologin") (fromLastSlash line) with
  | some _ => none
  | none => some line

/-- The set that the lines are inserted into. -/
def validShells (content : Bytes) : List Bytes := (lines content).filterMap shellOf

/-- `ListValidShells`, with the content of the file where that can be opened. -/
def listValidShells : Option Bytes → Except Error (List Bytes)
  | none => .error { message := utf8 "Failed to open /etc/shells file", code := EINVAL }
  | some content => .ok (validShells content)

end Shells

section Listed

/-- A text that can be a login shell. -/
def IsShellText (s : Bytes) : Prop := s ≠ [] ∧ ∀ c ∈ s, isSpace c = false ∧ c ≠ hash

/-- The last component of a path. -/
def lastComponent (s : Bytes) : Bytes :=
  match cutLast slash s with
  | none => s
  | some (_, after) => after

def RefusesLogin (s : Bytes) : Prop := utf8 "nologin" <:+: lastComponent s

instance (s : Bytes) : Decidable (RefusesLogin s) := inferInstanceAs (Decidable (_ <:+: _))

/-- A line lists the shell, whatever white space and comment are around it. -/
def Listed (content s : Bytes) : Prop :=
  (∃ line ∈ lines content, trimWhiteSpaces (stripComment line) = s) ∧ ¬ RefusesLogin s

/-- A shell that is listed with white space around it is listed without, too. -/
def PaddedRepeated (content : Bytes) : Prop :=
  ∀ line ∈ lines content, trimWhiteSpaces (stripComment line) ≠ stripComment line →
    IsShellText (trimWhiteSpaces (stripComment line)) → ¬ RefusesLogin (trimWhiteSpaces (stripComment line)) →
      ∃ other ∈ lines content, stripComment other = trimWhiteSpaces (stripComment line)

theorem infix_fromLastSlash (s : Bytes) : utf8 "nologin" <:+: fromLastSlash s ↔ RefusesLogin s := by
  rw [RefusesLogin, fromLastSlash, lastComponent]
  cases cutLast slash s with
  | none => rfl
  | some cut =>
    dsimp only
    rw [List.infix_cons_iff]
    constructor
    · rintro (hstart | hinfix)
      · exact absurd (List.cons_prefix_cons.mp hstart).1 (by decide)
      · exact hinfix
    · exact .inr

theorem shellOf_eq_some_iff {line s : Bytes} : shellOf line = some s ↔ stripComment line = s ∧ ¬ RefusesLogin s := by
  rw [shellOf]
  cases hcut : cutAt (utf8 "nologin") (fromLastSlash (stripComment line)) with
  | some cut =>
    constructor
    · intro h
      cases h
    · rintro ⟨rfl, hlogin⟩
      rw [← infix_fromLastSlash, ← cutAt_eq_none_iff, hcut] at hlogin
      cases hlogin
  | none =>
    rw [cutAt_eq_none_iff, infix_fromLastSlash] at hcut
    constructor
    · rintro ⟨⟩
      exact ⟨rfl, hcut⟩
    · rintro ⟨rfl, -⟩
      rfl

theorem mem_validShells {content s : Bytes} :
    s ∈ validShells content ↔ (∃ line ∈ lines content, stripComment line = s) ∧ ¬ RefusesLogin s := by
  simp only [validShells, List.mem_filterMap, shellOf_eq_some_iff, ← and_assoc, exists_and_right]

theorem trimWhiteSpaces_shell {s : Bytes} (h : IsShellText s) : trimWhiteSpaces s = s := by
  have hends {t : Bytes} (ht : ∀ c ∈ t, isSpace c = false) : EndsSpan isSpace t := fun c hc => ht c (List.mem_of_mem_head? hc)
  rw [trimWhiteSpaces, dropWhile_of_endsSpan (hends fun c hc => (h.2 c hc).1),
    dropWhile_of_endsSpan (hends fun c hc => (h.2 c (List.mem_reverse.mp hc)).1), List.reverse_reverse]

/-- The set has the shells that are listed just when none of them is listed with white space around it alone. -/
theorem mem_validShells_listed_iff (content : Bytes) :
    (∀ s, IsShellText s → (s ∈ validShells content ↔ Listed content s)) ↔ PaddedRepeated content := by
  constructor
  · intro h line hline hpadded htext hlogin
    exact (mem_validShells.mp ((h _ htext).mpr ⟨⟨line, hline, rfl⟩, hlogin⟩)).1
  · intro h s htext
    rw [mem_validShells, Listed]
    refine and_congr_left fun hlogin => ?_
    constructor
    · rintro ⟨line, hline, rfl⟩
      exact ⟨line, hline, trimWhiteSpaces_shell htext⟩
    · rintro ⟨line, hline, rfl⟩
      by_cases hpadded : trimWhiteSpaces (stripComment line) = stripComment line
      · exact ⟨line, hline, hpadded.symm⟩
      · exact h line hline hpadded htext hlogin

end Listed
end Kompli.ListValidShells
