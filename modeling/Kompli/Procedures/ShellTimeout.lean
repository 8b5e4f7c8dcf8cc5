import Kompli.Foundation.EcmaScript
import Kompli.Foundation.Split
import Mathlib.Data.List.Basic

/-! The lines that the audit and the remediation of the shell timeout recognise. -/
namespace Kompli.ShellTimeout
open Foundation EcmaScript Regex

section Patterns

/-- What a line is recognised by. -/
structure Recognisers where
  value : Bytes
  readonly : Bytes
  exported : Bytes

def auditShellTimeout : Recognisers where
  value := utf8 r"^[ \\t]*([^#\n\r]+[ \\t]+)?TMOUT=([[:alnum:]]+)\b"
  readonly := utf8 r"^[ \\t]*([^#\n]+[ \\t]+)?readonly[ \\t]+TMOUT\b"
  exported := utf8 r"^([ \\t]*|[ \\t]*[^#\n]+[ \\t]*;[ \\t]*)export[ \\t]+TMOUT\b"

def findTimeoutAssignment : Recognisers where
  value := utf8 r"^[ \t]*([^#\n\r]+[ \t]+)?TMOUT=([[:alnum:]]+)\b"
  readonly := utf8 r"^[ \t]*([^#\n]+[ \t]+)?readonly[ \t]+TMOUT\b"
  exported := utf8 r"^([ \t]*|[ \t]*[^#\n]+[ \t]*;[ \t]*)export[ \t]+TMOUT\b"

def regexSearch (line pattern : Bytes) : Bool :=
  match compile pattern with
  | none => false
  | some r => r.search line

end Patterns

section Forms

/-- What the audit takes for a blank: the class has a backslash and a letter in it. -/
def auditBlank (c : UInt8) : Bool := oneOf false [fun d => d = 0x20, fun d => d = 0x5C, fun d => d = 0x74] c
def blank (c : UInt8) : Bool := oneOf false [fun d => d = 0x20, fun d => d = 0x09] c

def uncommented (c : UInt8) : Bool := oneOf true [fun d => d = 0x23, fun d => d = 0x0A] c
def uncommentedLine (c : UInt8) : Bool := oneOf true [fun d => d = 0x23, fun d => d = 0x0A, fun d => d = 0x0D] c

variable (isBlank : UInt8 → Bool)

/-- At the start of a line, or after a blank and no comment. -/
def Starts (allowed : UInt8 → Bool) (before : Bytes) : Prop :=
  before = [] ∨ ((∀ c ∈ before, allowed c = true) ∧ ∃ c ∈ before.getLast?, isBlank c = true)

/-- Blanks at the start of a line, or after a semicolon that ends something. -/
def StartsCommand (before : Bytes) : Prop :=
  (∀ c ∈ before, isBlank c = true) ∨
    ∃ command blanks, before = command ++ 0x3B :: blanks ∧ command ≠ [] ∧ (∀ c ∈ command, uncommented c = true) ∧
      ∀ c ∈ blanks, isBlank c = true

def IsValue (text : Bytes) : Prop :=
  ∃ value rest, text = value ++ rest ∧ value ≠ [] ∧ (∀ c ∈ value, EcmaScript.isAlnum c = true) ∧ EndsSpan isWord rest

/-- `TMOUT` after blanks. -/
def NamesTimeout (text : Bytes) : Prop :=
  ∃ gap rest, text = gap ++ (utf8 "TMOUT" ++ rest) ∧ gap ≠ [] ∧ (∀ c ∈ gap, isBlank c = true) ∧ EndsSpan isWord rest

def Assigns (line : Bytes) : Prop :=
  ∃ before after, line = before ++ (utf8 "TMOUT=" ++ after) ∧ Starts isBlank uncommentedLine before ∧ IsValue after

def MakesReadonly (line : Bytes) : Prop :=
  ∃ before after, line = before ++ (utf8 "readonly" ++ after) ∧ Starts isBlank uncommented before ∧ NamesTimeout isBlank after

def Exports (line : Bytes) : Prop :=
  ∃ before after, line = before ++ (utf8 "export" ++ after) ∧ StartsCommand isBlank before ∧ NamesTimeout isBlank after

end Forms

section Compiled

def valueRegex (isBlank : UInt8 → Bool) : Regex UInt8 :=
  seqs (.start :: ([.star (.char isBlank), optional (seqs [plus (.char uncommentedLine), plus (.char isBlank)])] ++
    (literal (utf8 "TMOUT=") ++ [seqs [plus (.char (oneOf false [EcmaScript.isAlnum]))], .boundary isWord])))

def readonlyRegex (isBlank : UInt8 → Bool) : Regex UInt8 :=
  seqs (.start :: ([.star (.char isBlank), optional (seqs [plus (.char uncommented), plus (.char isBlank)])] ++
    (literal (utf8 "readonly") ++ (plus (.char isBlank) :: (literal (utf8 "TMOUT") ++ [.boundary isWord])))))

def exportRegex (isBlank : UInt8 → Bool) : Regex UInt8 :=
  seqs (.start :: (.alt (seqs [.star (.char isBlank)])
      (seqs [.star (.char isBlank), plus (.char uncommented), .star (.char isBlank), .char fun d => d = 0x3B, .star (.char isBlank)]) ::
    (literal (utf8 "export") ++ (plus (.char isBlank) :: (literal (utf8 "TMOUT") ++ [.boundary isWord])))))

theorem compile_auditShellTimeout :
    compile auditShellTimeout.value = some (valueRegex auditBlank) ∧
      compile auditShellTimeout.readonly = some (readonlyRegex auditBlank) ∧
      compile auditShellTimeout.exported = some (exportRegex auditBlank) := ⟨rfl, rfl, rfl⟩

theorem compile_findTimeoutAssignment :
    compile findTimeoutAssignment.value = some (valueRegex blank) ∧
      compile findTimeoutAssignment.readonly = some (readonlyRegex blank) ∧
      compile findTimeoutAssignment.exported = some (exportRegex blank) := ⟨rfl, rfl, rfl⟩

end Compiled

section Meaning

variable {isBlank allowed : UInt8 → Bool} {before s after : Bytes}

theorem matches_starts (hallowed : ∀ c, isBlank c = true → allowed c = true) :
    (seqs [.star (.char isBlank), optional (seqs [plus (.char allowed), plus (.char isBlank)])]).Matches [] s after ↔
      Starts isBlank allowed s := by
  rw [matches_seqs_cons]
  constructor
  · rintro ⟨blanks, rest, rfl, hblanks, hrest⟩
    rw [matches_star_char] at hblanks
    obtain ⟨command, none, rfl, hcommand, rfl⟩ := matches_seqs_cons.mp hrest
    rw [List.append_nil]
    rcases matches_optional.mp hcommand with hgroup | rfl
    · obtain ⟨text, gap, rfl, htext, hgap⟩ := matches_seqs_cons.mp hgroup
      obtain ⟨gap, none, rfl, hgap, rfl⟩ := matches_seqs_cons.mp hgap
      rw [matches_plus_char] at htext hgap
      rw [List.append_nil]
      refine .inr ⟨?_, ?_⟩
      · intro c hc
        simp only [List.mem_append] at hc
        rcases hc with hblank | hother | hblank
        · exact hallowed c (hblanks c hblank)
        · exact htext.2 c hother
        · exact hallowed c (hgap.2 c hblank)
      · refine ⟨gap.getLast hgap.1, ?_, hgap.2 _ (List.getLast_mem hgap.1)⟩
        rw [List.getLast?_append_of_ne_nil _ (List.append_ne_nil_of_right_ne_nil _ hgap.1),
          List.getLast?_append_of_ne_nil _ hgap.1, List.getLast?_eq_some_getLast hgap.1]
        rfl
    · rw [List.append_nil]
      by_cases hnil : blanks = []
      · exact .inl hnil
      · exact .inr ⟨fun c hc => hallowed c (hblanks c hc), _, List.getLast?_eq_some_getLast hnil,
          hblanks _ (List.getLast_mem hnil)⟩
  · rintro (rfl | ⟨hall, c, hlast, hc⟩)
    · exact ⟨[], [], rfl, matches_star_char.mpr (by simp), [], [], rfl, .inr rfl, rfl⟩
    · obtain ⟨front, rfl⟩ := List.getLast?_eq_some_iff.mp hlast
      have hsingle : ∀ d ∈ [c], isBlank d = true := by simpa using hc
      by_cases hnil : front = []
      · rw [hnil]
        exact ⟨[c], [], rfl, matches_star_char.mpr hsingle, [], [], rfl, .inr rfl, rfl⟩
      · refine ⟨[], front ++ [c], rfl, matches_star_char.mpr (by simp), front ++ [c], [], by simp, .inl ?_, rfl⟩
        refine ⟨front, [c], rfl, matches_plus_char.mpr ⟨hnil, fun d hd => hall d (List.mem_append_left _ hd)⟩, ?_⟩
        exact ⟨[c], [], rfl, matches_plus_char.mpr ⟨List.cons_ne_nil c [], hsingle⟩, rfl⟩

theorem atBoundary_iff {text : Bytes} {c : UInt8} (hlast : text.getLast? = some c) (hc : isWord c = true) :
    atBoundary isWord text after = true ↔ EndsSpan isWord after := by
  rw [atBoundary, hlast]
  cases after with
  | nil => simp [hc]
  | cons d after => simp [hc]

theorem matches_value {rest : Bytes} :
    (seqs [seqs [plus (.char (oneOf false [EcmaScript.isAlnum]))], .boundary isWord]).Matches before s rest ↔
      s ≠ [] ∧ (∀ c ∈ s, EcmaScript.isAlnum c = true) ∧ EndsSpan isWord rest := by
  have hclass (c : UInt8) : oneOf false [EcmaScript.isAlnum] c = EcmaScript.isAlnum c := by simp [oneOf]
  rw [matches_seqs_cons]
  constructor
  · rintro ⟨first, second, rfl, hfirst, hsecond⟩
    obtain ⟨value, none, rfl, hvalue, rfl⟩ := matches_seqs_cons.mp hfirst
    obtain ⟨boundary, none, rfl, ⟨rfl, hboundary⟩, rfl⟩ := matches_seqs_cons.mp hsecond
    rw [matches_plus_char] at hvalue
    simp only [hclass] at hvalue
    simp only [List.append_nil, List.nil_append] at hboundary ⊢
    have hlast : (before ++ value).getLast? = some (value.getLast hvalue.1) := by
      rw [List.getLast?_append_of_ne_nil _ hvalue.1, List.getLast?_eq_some_getLast hvalue.1]
    have hword : isWord (value.getLast hvalue.1) = true := by
      rw [isWord, hvalue.2 _ (List.getLast_mem hvalue.1)]
      rfl
    exact ⟨hvalue.1, hvalue.2, (atBoundary_iff hlast hword).mp hboundary⟩
  · rintro ⟨hne, hall, hrest⟩
    have hlast : (before ++ s).getLast? = some (s.getLast hne) := by
      rw [List.getLast?_append_of_ne_nil _ hne, List.getLast?_eq_some_getLast hne]
    have hword : isWord (s.getLast hne) = true := by
      rw [isWord, hall _ (List.getLast_mem hne)]
      rfl
    refine ⟨s, [], by simp, ⟨s, [], by simp, matches_plus_char.mpr ⟨hne, ?_⟩, rfl⟩, [], [], rfl, ⟨rfl, ?_⟩, rfl⟩
    · simpa only [hclass] using hall
    · exact (atBoundary_iff hlast hword).mpr hrest

theorem matches_names {rest : Bytes} :
    (seqs (plus (.char isBlank) :: (literal (utf8 "TMOUT") ++ [.boundary isWord]))).Matches before s rest ↔
      ∃ gap, s = gap ++ utf8 "TMOUT" ∧ gap ≠ [] ∧ (∀ c ∈ gap, isBlank c = true) ∧ EndsSpan isWord rest := by
  have hlast (text : Bytes) : (text ++ utf8 "TMOUT").getLast? = some 0x54 := by
    rw [List.getLast?_append_of_ne_nil _ (by decide +kernel)]
    rfl
  rw [matches_seqs_cons]
  constructor
  · rintro ⟨gap, second, rfl, hgap, hsecond⟩
    obtain ⟨name, rest', rfl, hname, hend⟩ := matches_seqs_append.mp hsecond
    obtain ⟨boundary, none, rfl, ⟨rfl, hword⟩, rfl⟩ := matches_seqs_cons.mp hend
    obtain rfl := matches_literal.mp hname
    rw [matches_plus_char] at hgap
    simp only [List.append_nil, List.nil_append] at hword ⊢
    exact ⟨gap, rfl, hgap.1, hgap.2, (atBoundary_iff (hlast _) (by decide)).mp hword⟩
  · rintro ⟨gap, rfl, hne, hall, hrest⟩
    refine ⟨gap, utf8 "TMOUT", rfl, matches_plus_char.mpr ⟨hne, hall⟩, matches_seqs_append.mpr ?_⟩
    refine ⟨utf8 "TMOUT", [], by simp, matches_literal.mpr rfl, [], [], rfl, ⟨rfl, ?_⟩, rfl⟩
    exact (atBoundary_iff (hlast _) (by decide)).mpr hrest

theorem matches_startsCommand (hallowed : ∀ c, isBlank c = true → uncommented c = true) :
    (Regex.alt (seqs [.star (.char isBlank)])
      (seqs [.star (.char isBlank), plus (.char uncommented), .star (.char isBlank), .char fun d => d = 0x3B,
        .star (.char isBlank)])).Matches before s after ↔ StartsCommand isBlank s := by
  constructor
  · rintro (hblanks | hcommand)
    · obtain ⟨blanks, none, rfl, hblanks, rfl⟩ := matches_seqs_cons.mp hblanks
      rw [List.append_nil]
      exact .inl (matches_star_char.mp hblanks)
    · obtain ⟨blanks, s, rfl, hblanks, h⟩ := matches_seqs_cons.mp hcommand
      obtain ⟨text, s, rfl, htext, h⟩ := matches_seqs_cons.mp h
      obtain ⟨more, s, rfl, hmore, h⟩ := matches_seqs_cons.mp h
      obtain ⟨semicolon, s, rfl, ⟨c, rfl, hc⟩, h⟩ := matches_seqs_cons.mp h
      obtain ⟨last, none, rfl, hlast, rfl⟩ := matches_seqs_cons.mp h
      rw [decide_eq_true_eq] at hc
      rw [matches_star_char] at hblanks hmore hlast
      rw [matches_plus_char] at htext
      refine .inr ⟨blanks ++ text ++ more, last, by simp [hc], by simp [htext.1], fun d hd => ?_, hlast⟩
      simp only [List.mem_append] at hd
      rcases hd with (hd | hd) | hd
      · exact hallowed d (hblanks d hd)
      · exact htext.2 d hd
      · exact hallowed d (hmore d hd)
  · rintro (hblanks | ⟨command, blanks, rfl, hne, hcommand, hblanks⟩)
    · exact .inl ⟨s, [], by simp, matches_star_char.mpr hblanks, rfl⟩
    · refine .inr ⟨[], command ++ 0x3B :: blanks, rfl, matches_star_char.mpr (by simp), ?_⟩
      refine ⟨command, 0x3B :: blanks, rfl, matches_plus_char.mpr ⟨hne, hcommand⟩, ?_⟩
      refine ⟨[], 0x3B :: blanks, rfl, matches_star_char.mpr (by simp), [0x3B], blanks, rfl, ⟨0x3B, rfl, rfl⟩, ?_⟩
      exact ⟨blanks, [], by simp, matches_star_char.mpr hblanks, rfl⟩

theorem finds_value (hallowed : ∀ c, isBlank c = true → uncommentedLine c = true) (line : Bytes) :
    (valueRegex isBlank).Finds line ↔ Assigns isBlank line := by
  rw [valueRegex, finds_start]
  constructor
  · rintro ⟨s, after, rfl, h⟩
    obtain ⟨before, rest, rfl, hstarts, hrest⟩ := matches_seqs_append.mp h
    obtain ⟨name, value, rfl, hname, hvalue⟩ := matches_seqs_append.mp hrest
    obtain rfl := matches_literal.mp hname
    obtain ⟨hne, hall, hends⟩ := matches_value.mp hvalue
    exact ⟨before, value ++ after, by simp, (matches_starts hallowed).mp hstarts, value, after, rfl, hne, hall, hends⟩
  · rintro ⟨before, text, rfl, hstarts, value, after, rfl, hne, hall, hends⟩
    refine ⟨before ++ (utf8 "TMOUT=" ++ value), after, by simp, matches_seqs_append.mpr ?_⟩
    refine ⟨before, utf8 "TMOUT=" ++ value, rfl, (matches_starts hallowed).mpr hstarts, matches_seqs_append.mpr ?_⟩
    exact ⟨utf8 "TMOUT=", value, rfl, matches_literal.mpr rfl, matches_value.mpr ⟨hne, hall, hends⟩⟩

theorem finds_readonly (hallowed : ∀ c, isBlank c = true → uncommented c = true) (line : Bytes) :
    (readonlyRegex isBlank).Finds line ↔ MakesReadonly isBlank line := by
  rw [readonlyRegex, finds_start]
  constructor
  · rintro ⟨s, after, rfl, h⟩
    obtain ⟨before, rest, rfl, hstarts, hrest⟩ := matches_seqs_append.mp h
    obtain ⟨name, second, rfl, hname, hsecond⟩ := matches_seqs_append.mp hrest
    obtain rfl := matches_literal.mp hname
    obtain ⟨gap, rfl, hne, hall, hends⟩ := matches_names.mp hsecond
    exact ⟨before, gap ++ (utf8 "TMOUT" ++ after), by simp, (matches_starts hallowed).mp hstarts, gap, after, rfl, hne, hall, hends⟩
  · rintro ⟨before, text, rfl, hstarts, gap, after, rfl, hne, hall, hends⟩
    refine ⟨before ++ (utf8 "readonly" ++ (gap ++ utf8 "TMOUT")), after, by simp, matches_seqs_append.mpr ?_⟩
    refine ⟨before, utf8 "readonly" ++ (gap ++ utf8 "TMOUT"), rfl, (matches_starts hallowed).mpr hstarts, matches_seqs_append.mpr ?_⟩
    exact ⟨utf8 "readonly", gap ++ utf8 "TMOUT", rfl, matches_literal.mpr rfl, matches_names.mpr ⟨gap, rfl, hne, hall, hends⟩⟩

theorem finds_export (hallowed : ∀ c, isBlank c = true → uncommented c = true) (line : Bytes) :
    (exportRegex isBlank).Finds line ↔ Exports isBlank line := by
  rw [exportRegex, finds_start]
  constructor
  · rintro ⟨s, after, rfl, h⟩
    obtain ⟨before, rest, rfl, hstarts, hrest⟩ := matches_seqs_cons.mp h
    obtain ⟨name, second, rfl, hname, hsecond⟩ := matches_seqs_append.mp hrest
    obtain rfl := matches_literal.mp hname
    obtain ⟨gap, rfl, hne, hall, hends⟩ := matches_names.mp hsecond
    exact ⟨before, gap ++ (utf8 "TMOUT" ++ after), by simp, (matches_startsCommand hallowed).mp hstarts, gap, after, rfl, hne, hall,
      hends⟩
  · rintro ⟨before, text, rfl, hstarts, gap, after, rfl, hne, hall, hends⟩
    refine ⟨before ++ (utf8 "export" ++ (gap ++ utf8 "TMOUT")), after, by simp, matches_seqs_cons.mpr ?_⟩
    refine ⟨before, utf8 "export" ++ (gap ++ utf8 "TMOUT"), rfl, (matches_startsCommand hallowed).mpr hstarts, matches_seqs_append.mpr ?_⟩
    exact ⟨utf8 "export", gap ++ utf8 "TMOUT", rfl, matches_literal.mpr rfl, matches_names.mpr ⟨gap, rfl, hne, hall, hends⟩⟩

end Meaning

section Agreement

variable {line : Bytes}

private theorem blank_uncommented (c : UInt8) :
    (auditBlank c = true → uncommentedLine c = true ∧ uncommented c = true) ∧
      (blank c = true → uncommentedLine c = true ∧ uncommented c = true) :=
  forall_byte (P := fun c => (auditBlank c = true → uncommentedLine c = true ∧ uncommented c = true) ∧
    (blank c = true → uncommentedLine c = true ∧ uncommented c = true)) (by decide +kernel) c

theorem auditShellTimeout_iff (line : Bytes) :
    (regexSearch line auditShellTimeout.value = true ↔ Assigns auditBlank line) ∧
      (regexSearch line auditShellTimeout.readonly = true ↔ MakesReadonly auditBlank line) ∧
      (regexSearch line auditShellTimeout.exported = true ↔ Exports auditBlank line) := by
  obtain ⟨hvalue, hreadonly, hexport⟩ := compile_auditShellTimeout
  have hallowed (c : UInt8) (hc : auditBlank c = true) := (blank_uncommented c).1 hc
  simp only [regexSearch, hvalue, hreadonly, hexport, search_iff]
  exact ⟨finds_value (fun c hc => (hallowed c hc).1) line, finds_readonly (fun c hc => (hallowed c hc).2) line,
    finds_export (fun c hc => (hallowed c hc).2) line⟩

theorem findTimeoutAssignment_iff (line : Bytes) :
    (regexSearch line findTimeoutAssignment.value = true ↔ Assigns blank line) ∧
      (regexSearch line findTimeoutAssignment.readonly = true ↔ MakesReadonly blank line) ∧
      (regexSearch line findTimeoutAssignment.exported = true ↔ Exports blank line) := by
  obtain ⟨hvalue, hreadonly, hexport⟩ := compile_findTimeoutAssignment
  have hallowed (c : UInt8) (hc : blank c = true) := (blank_uncommented c).2 hc
  simp only [regexSearch, hvalue, hreadonly, hexport, search_iff]
  exact ⟨finds_value (fun c hc => (hallowed c hc).1) line, finds_readonly (fun c hc => (hallowed c hc).2) line,
    finds_export (fun c hc => (hallowed c hc).2) line⟩

/-- What stands in the place of the blank at the start, if there is one. -/
def StartBlank (allowed : UInt8 → Bool) (before blanks : Bytes) : Prop :=
  (before = [] ∧ blanks = []) ∨ ∃ front c, before = front ++ [c] ∧ blanks = [c] ∧ ∀ d ∈ front, allowed d = true

/-- What stands in front of a command, or between it and a semicolon that ends something. -/
def CommandBlanks (before blanks : Bytes) : Prop :=
  blanks = before ∨ ∃ command, before = command ++ 0x3B :: blanks ∧ command ≠ [] ∧ ∀ c ∈ command, uncommented c = true

/-- What stands in front of `TMOUT`. -/
def GapBlanks (text blanks : Bytes) : Prop :=
  ∃ rest, text = blanks ++ (utf8 "TMOUT" ++ rest) ∧ blanks ≠ [] ∧ EndsSpan isWord rest

/-- An assignment in the line, with what stands in its blank places. -/
def AssignmentIn (line blanks : Bytes) : Prop :=
  ∃ before after, line = before ++ (utf8 "TMOUT=" ++ after) ∧ StartBlank uncommentedLine before blanks ∧ IsValue after

def ReadonlyIn (line blanks : Bytes) : Prop :=
  ∃ before after first gap, line = before ++ (utf8 "readonly" ++ after) ∧ blanks = first ++ gap ∧
    StartBlank uncommented before first ∧ GapBlanks after gap

def ExportIn (line blanks : Bytes) : Prop :=
  ∃ before after first gap, line = before ++ (utf8 "export" ++ after) ∧ blanks = first ++ gap ∧
    CommandBlanks before first ∧ GapBlanks after gap

def Spaced (blanks : Bytes) : Prop := ∀ c ∈ blanks, c = 0x20

def Tabbed (blanks : Bytes) : Prop := 0x09 ∈ blanks ∧ ∀ c ∈ blanks, c = 0x20 ∨ c = 0x09

/-- There is a backslash or a letter `t`. -/
def Lettered (blanks : Bytes) : Prop := (0x5C ∈ blanks ∨ 0x74 ∈ blanks) ∧ ∀ c ∈ blanks, c = 0x20 ∨ c = 0x5C ∨ c = 0x74

/-- There is a byte of another kind, or a tab together with a backslash or a `t`. -/
def Mixed (blanks : Bytes) : Prop :=
  (∃ c ∈ blanks, c ≠ 0x20 ∧ c ≠ 0x09 ∧ c ≠ 0x5C ∧ c ≠ 0x74) ∨ 0x09 ∈ blanks ∧ (0x5C ∈ blanks ∨ 0x74 ∈ blanks)

/-- What stands in the blank places of something wherever it is in a line: somewhere only spaces, or tabs in one place and
backslashes or `t`s in another, or a mixture everywhere. -/
inductive Alike (isIn : Bytes → Bytes → Prop) (line : Bytes) : Prop
  | spaced {blanks : Bytes} : isIn line blanks → Spaced blanks → Alike isIn line
  | both {tabs letters : Bytes} : isIn line tabs → Tabbed tabs → isIn line letters → Lettered letters → Alike isIn line
  | mixed : (∀ blanks, isIn line blanks → Mixed blanks) → Alike isIn line

/-- The four kinds of blanks. -/
theorem blanks_cases (blanks : Bytes) : Spaced blanks ∨ Tabbed blanks ∨ Lettered blanks ∨ Mixed blanks := by
  by_cases hother : ∃ c ∈ blanks, c ≠ 0x20 ∧ c ≠ 0x09 ∧ c ≠ 0x5C ∧ c ≠ 0x74
  · exact .inr (.inr (.inr (.inl hother)))
  push Not at hother
  by_cases htab : 0x09 ∈ blanks
  · by_cases hletter : 0x5C ∈ blanks ∨ 0x74 ∈ blanks
    · exact .inr (.inr (.inr (.inr ⟨htab, hletter⟩)))
    refine .inr (.inl ⟨htab, fun c hc => ?_⟩)
    by_contra hne
    obtain ⟨hspace, hnotab⟩ := not_or.mp hne
    by_cases hbackslash : c = 0x5C
    · exact hletter (.inl (hbackslash ▸ hc))
    · exact hletter (.inr (hother c hc hspace hnotab hbackslash ▸ hc))
  have hletters (c : UInt8) (hc : c ∈ blanks) : c = 0x20 ∨ c = 0x5C ∨ c = 0x74 := by
    by_contra hne
    obtain ⟨hspace, hne⟩ := not_or.mp hne
    obtain ⟨hbackslash, hletter⟩ := not_or.mp hne
    refine hletter (hother c hc hspace ?_ hbackslash)
    rintro rfl
    exact htab hc
  by_cases hletter : 0x5C ∈ blanks ∨ 0x74 ∈ blanks
  · exact .inr (.inr (.inl ⟨hletter, hletters⟩))
  refine .inl fun c hc => (hletters c hc).resolve_right ?_
  rintro (rfl | rfl)
  · exact hletter (.inl hc)
  · exact hletter (.inr hc)

theorem Mixed.not_blanks {blanks : Bytes} (h : Mixed blanks) : ¬ (Spaced blanks ∨ Tabbed blanks ∨ Lettered blanks) := by
  rcases h with ⟨c, hc, hspace, htab, hbackslash, hletter⟩ | ⟨htab, hletter⟩
  · rintro (hspaces | ⟨-, htabs⟩ | ⟨-, hletters⟩)
    · exact hspace (hspaces c hc)
    · rcases htabs c hc with heq | heq
      · exact hspace heq
      · exact htab heq
    · rcases hletters c hc with heq | heq | heq
      · exact hspace heq
      · exact hbackslash heq
      · exact hletter heq
  · rintro (hspaces | ⟨-, htabs⟩ | ⟨-, hletters⟩)
    · exact absurd (hspaces _ htab) (by decide)
    · rcases hletter with hc | hc
      · exact absurd (htabs _ hc) (by decide)
      · exact absurd (htabs _ hc) (by decide)
    · exact absurd (hletters _ htab) (by decide)

theorem blanks_iff {blanks : Bytes} : (∀ c ∈ blanks, blank c = true) ↔ Spaced blanks ∨ Tabbed blanks := by
  have hblank (c : UInt8) : blank c = true ↔ c = 0x20 ∨ c = 0x09 := by simp [blank, oneOf]
  simp only [hblank]
  constructor
  · intro h
    by_cases htab : 0x09 ∈ blanks
    · exact .inr ⟨htab, h⟩
    · refine .inl fun c hc => (h c hc).resolve_right ?_
      rintro rfl
      exact htab hc
  · rintro (h | ⟨-, h⟩)
    · exact fun c hc => .inl (h c hc)
    · exact h

theorem auditBlanks_iff {blanks : Bytes} : (∀ c ∈ blanks, auditBlank c = true) ↔ Spaced blanks ∨ Lettered blanks := by
  have hblank (c : UInt8) : auditBlank c = true ↔ c = 0x20 ∨ c = 0x5C ∨ c = 0x74 := by simp [auditBlank, oneOf]
  simp only [hblank]
  constructor
  · intro h
    by_cases hletters : 0x5C ∈ blanks ∨ 0x74 ∈ blanks
    · exact .inr ⟨hletters, h⟩
    · rw [not_or] at hletters
      refine .inl fun c hc => (h c hc).resolve_right ?_
      rintro (rfl | rfl)
      · exact hletters.1 hc
      · exact hletters.2 hc
  · rintro (h | ⟨-, h⟩)
    · exact fun c hc => .inl (h c hc)
    · exact h

section Places

variable {isBlank allowed : UInt8 → Bool} {before text : Bytes}

theorem starts_iff (hallowed : ∀ c, isBlank c = true → allowed c = true) :
    Starts isBlank allowed before ↔ ∃ blanks, StartBlank allowed before blanks ∧ ∀ c ∈ blanks, isBlank c = true := by
  constructor
  · rintro (rfl | ⟨hall, c, hlast, hc⟩)
    · exact ⟨[], .inl ⟨rfl, rfl⟩, by simp⟩
    · obtain ⟨front, rfl⟩ := List.getLast?_eq_some_iff.mp hlast
      exact ⟨[c], .inr ⟨front, c, rfl, rfl, fun d hd => hall d (List.mem_append_left _ hd)⟩, by simpa using hc⟩
  · rintro ⟨blanks, ⟨rfl, -⟩ | ⟨front, c, rfl, rfl, hfront⟩, hblanks⟩
    · exact .inl rfl
    · have hc := hblanks c (List.mem_singleton_self c)
      refine .inr ⟨List.forall_mem_append.mpr ⟨hfront, by simpa using hallowed c hc⟩, c, by simp, hc⟩

theorem startsCommand_iff :
    StartsCommand isBlank before ↔ ∃ blanks, CommandBlanks before blanks ∧ ∀ c ∈ blanks, isBlank c = true := by
  constructor
  · rintro (hblanks | ⟨command, blanks, hbefore, hne, hcommand, hblanks⟩)
    · exact ⟨before, .inl rfl, hblanks⟩
    · exact ⟨blanks, .inr ⟨command, hbefore, hne, hcommand⟩, hblanks⟩
  · rintro ⟨blanks, rfl | ⟨command, hbefore, hne, hcommand⟩, hblanks⟩
    · exact .inl hblanks
    · exact .inr ⟨command, blanks, hbefore, hne, hcommand, hblanks⟩

theorem namesTimeout_iff :
    NamesTimeout isBlank text ↔ ∃ blanks, GapBlanks text blanks ∧ ∀ c ∈ blanks, isBlank c = true := by
  constructor
  · rintro ⟨gap, rest, htext, hne, hall, hends⟩
    exact ⟨gap, ⟨rest, htext, hne, hends⟩, hall⟩
  · rintro ⟨gap, ⟨rest, htext, hne, hends⟩, hall⟩
    exact ⟨gap, rest, htext, hne, hall, hends⟩

theorem assigns_iff (hallowed : ∀ c, isBlank c = true → uncommentedLine c = true) :
    Assigns isBlank line ↔ ∃ blanks, AssignmentIn line blanks ∧ ∀ c ∈ blanks, isBlank c = true := by
  constructor
  · rintro ⟨before, after, hline, hstarts, hvalue⟩
    obtain ⟨blanks, hblanks, hall⟩ := (starts_iff hallowed).mp hstarts
    exact ⟨blanks, ⟨before, after, hline, hblanks, hvalue⟩, hall⟩
  · rintro ⟨blanks, ⟨before, after, hline, hblanks, hvalue⟩, hall⟩
    exact ⟨before, after, hline, (starts_iff hallowed).mpr ⟨blanks, hblanks, hall⟩, hvalue⟩

theorem makesReadonly_iff (hallowed : ∀ c, isBlank c = true → uncommented c = true) :
    MakesReadonly isBlank line ↔ ∃ blanks, ReadonlyIn line blanks ∧ ∀ c ∈ blanks, isBlank c = true := by
  constructor
  · rintro ⟨before, after, hline, hstarts, hnames⟩
    obtain ⟨first, hfirst, hall⟩ := (starts_iff hallowed).mp hstarts
    obtain ⟨gap, hgap, hall'⟩ := namesTimeout_iff.mp hnames
    exact ⟨first ++ gap, ⟨before, after, first, gap, hline, rfl, hfirst, hgap⟩, List.forall_mem_append.mpr ⟨hall, hall'⟩⟩
  · rintro ⟨_, ⟨before, after, first, gap, hline, rfl, hfirst, hgap⟩, hall⟩
    obtain ⟨hall, hall'⟩ := List.forall_mem_append.mp hall
    exact ⟨before, after, hline, (starts_iff hallowed).mpr ⟨first, hfirst, hall⟩, namesTimeout_iff.mpr ⟨gap, hgap, hall'⟩⟩

theorem exports_iff :
    Exports isBlank line ↔ ∃ blanks, ExportIn line blanks ∧ ∀ c ∈ blanks, isBlank c = true := by
  constructor
  · rintro ⟨before, after, hline, hstarts, hnames⟩
    obtain ⟨first, hfirst, hall⟩ := startsCommand_iff.mp hstarts
    obtain ⟨gap, hgap, hall'⟩ := namesTimeout_iff.mp hnames
    exact ⟨first ++ gap, ⟨before, after, first, gap, hline, rfl, hfirst, hgap⟩, List.forall_mem_append.mpr ⟨hall, hall'⟩⟩
  · rintro ⟨_, ⟨before, after, first, gap, hline, rfl, hfirst, hgap⟩, hall⟩
    obtain ⟨hall, hall'⟩ := List.forall_mem_append.mp hall
    exact ⟨before, after, hline, startsCommand_iff.mpr ⟨first, hfirst, hall⟩, namesTimeout_iff.mpr ⟨gap, hgap, hall'⟩⟩

end Places

private theorem eq_iff_alike {isIn : Bytes → Bytes → Prop} {audited found : Bool}
    (haudit : audited = true ↔ ∃ blanks, isIn line blanks ∧ ∀ c ∈ blanks, auditBlank c = true)
    (hfound : found = true ↔ ∃ blanks, isIn line blanks ∧ ∀ c ∈ blanks, blank c = true) :
    audited = found ↔ Alike isIn line := by
  simp only [auditBlanks_iff] at haudit
  simp only [blanks_iff] at hfound
  rw [Bool.eq_iff_iff, haudit, hfound]
  constructor
  · intro h
    by_cases hspaces : ∃ blanks, isIn line blanks ∧ Spaced blanks
    · obtain ⟨blanks, hin, hspaced⟩ := hspaces
      exact .spaced hin hspaced
    have hmixed (blanks : Bytes) (hin : isIn line blanks) (hnot : ¬ (Tabbed blanks ∨ Lettered blanks)) :
        Mixed blanks := by
      rcases blanks_cases blanks with hspaced | htabs | hletters | hmixed
      · exact absurd ⟨blanks, hin, hspaced⟩ hspaces
      · exact absurd (.inl htabs) hnot
      · exact absurd (.inr hletters) hnot
      · exact hmixed
    by_cases hboth : ∃ blanks, isIn line blanks ∧ (Tabbed blanks ∨ Lettered blanks)
    · obtain ⟨blanks, hin, htabs | hletters⟩ := hboth
      · obtain ⟨letters, hin', hspaced | hletters⟩ := h.mpr ⟨blanks, hin, .inr htabs⟩
        · exact .spaced hin' hspaced
        · exact .both hin htabs hin' hletters
      · obtain ⟨tabs, hin', hspaced | htabs⟩ := h.mp ⟨blanks, hin, .inr hletters⟩
        · exact .spaced hin' hspaced
        · exact .both hin' htabs hin hletters
    · exact .mixed fun blanks hin => hmixed blanks hin fun hkind => hboth ⟨blanks, hin, hkind⟩
  · intro h
    cases h with
    | spaced hin hspaced => exact ⟨fun _ => ⟨_, hin, .inl hspaced⟩, fun _ => ⟨_, hin, .inl hspaced⟩⟩
    | both hin htabs hin' hletters => exact ⟨fun _ => ⟨_, hin, .inr htabs⟩, fun _ => ⟨_, hin', .inr hletters⟩⟩
    | mixed hmixed =>
      constructor
      · rintro ⟨blanks, hin, hspaced | hletters⟩
        · exact absurd (.inl hspaced) (hmixed blanks hin).not_blanks
        · exact absurd (.inr (.inr hletters)) (hmixed blanks hin).not_blanks
      · rintro ⟨blanks, hin, hspaced | htabs⟩
        · exact absurd (.inl hspaced) (hmixed blanks hin).not_blanks
        · exact absurd (.inr (.inl htabs)) (hmixed blanks hin).not_blanks

/-- Which lines the audit and the remediation recognise alike. -/
theorem recognisers_agree_iff (line : Bytes) :
    (regexSearch line auditShellTimeout.value = regexSearch line findTimeoutAssignment.value ∧
        regexSearch line auditShellTimeout.readonly = regexSearch line findTimeoutAssignment.readonly ∧
        regexSearch line auditShellTimeout.exported = regexSearch line findTimeoutAssignment.exported) ↔
      Alike AssignmentIn line ∧ Alike ReadonlyIn line ∧ Alike ExportIn line := by
  obtain ⟨hvalue, hreadonly, hexport⟩ := auditShellTimeout_iff line
  obtain ⟨hvalue', hreadonly', hexport'⟩ := findTimeoutAssignment_iff line
  have haudit (c : UInt8) (hc : auditBlank c = true) := (blank_uncommented c).1 hc
  have hblank (c : UInt8) (hc : blank c = true) := (blank_uncommented c).2 hc
  rw [assigns_iff fun c hc => (haudit c hc).1] at hvalue
  rw [assigns_iff fun c hc => (hblank c hc).1] at hvalue'
  rw [makesReadonly_iff fun c hc => (haudit c hc).2] at hreadonly
  rw [makesReadonly_iff fun c hc => (hblank c hc).2] at hreadonly'
  rw [exports_iff] at hexport hexport'
  rw [eq_iff_alike hvalue hvalue', eq_iff_alike hreadonly hreadonly', eq_iff_alike hexport hexport']

/-- The audit does not see what a tab indents. -/
theorem tab_not_recognised :
    ∃ line, (0x0A : UInt8) ∉ line ∧ regexSearch line auditShellTimeout.value = false ∧
      regexSearch line findTimeoutAssignment.value = true :=
  ⟨utf8 "\tTMOUT=900", by decide +kernel, by decide +kernel, by decide +kernel⟩

end Agreement

end Kompli.ShellTimeout
