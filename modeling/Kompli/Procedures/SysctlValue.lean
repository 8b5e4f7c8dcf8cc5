import Kompli.ComplianceEngine.Indicators
import Kompli.ComplianceEngine.StringTools
import Kompli.Foundation.EcmaScript
import Kompli.Foundation.Lines
import Kompli.Foundation.Regex
import Mathlib.Data.List.DropRight
import Mathlib.Data.List.Infix

/-! The audit of a kernel parameter: its value at run time, and the assignment of it that is stored. -/
namespace Kompli.SysctlValue
open Parson Foundation Streams StringTools
open EcmaScript (isAnyButLineEnd)

def equals : UInt8 := 0x3D
def dot : UInt8 := 0x2E
def slash : UInt8 := 0x2F

/-- `found` is what `std::regex_search` says of a text. -/
structure Pattern where
  text : Bytes
  found : Bytes → Bool

structure Params where
  sysctlName : Bytes
  value : Pattern
  runtimeOnly : Option Bool := some false

/-- What the audit is told of the host. -/
structure Context where
  specialFilePath : Bytes → Bytes
  getFileContents : Bytes → Except Error Bytes
  executeCommand : Bytes → Except Error Bytes

section Names

def isNameByte (c : UInt8) : Bool := EcmaScript.isAlnum c || c = dot || c = 0x5F || c = slash || c = 0x2D

def isValidSysctlName (name : Bytes) : Bool :=
  if name = [] then false
  else if utf8 ".." <:+: name then false
  else name.all isNameByte

def isValidFilePath (path : Bytes) : Bool :=
  if path = [] then false
  else if path.head? ≠ some slash then false
  else if utf8 ".." <:+: path then false
  else true

/-- The name with each dot replaced by a slash. -/
def sysctlPath (name : Bytes) : Bytes := name.map fun c => if c = dot then slash else c

def isWordOrDotDash (c : UInt8) : Bool := EcmaScript.isWord c || c = dot || c = 0x2D

/-- `\s*([a-zA-Z0-9_]+[\.a-zA-Z0-9_-]+)\s*=\s*(.*)` -/
def nameValuePattern : Regex UInt8 :=
  .seqs [.star (.char isSpace), .plus (.char EcmaScript.isWord), .plus (.char isWordOrDotDash), .star (.char isSpace),
    .char (· = equals), .star (.char isSpace), .star (.char isAnyButLineEnd)]

/-- `^\s*#\s*(\/.*\.conf)$` -/
def fileNamePattern : Regex UInt8 :=
  .seqs ([.start, .star (.char isSpace), .char (· = hash), .star (.char isSpace), .char (· = slash),
    .star (.char isAnyButLineEnd)] ++ Regex.literal (utf8 ".conf") ++ [.stop])

end Names

section Stored

/-- The name before the first equals sign and the value after it, both trimmed. -/
def nameOf (line : Bytes) : Bytes := trimWhiteSpaces (line.takeWhile (· ≠ equals))

def valueOf (line : Bytes) : Bytes := trimWhiteSpaces (line.dropWhile (· ≠ equals)).tail

/-- The value a line of the configuration has for the name, as one turn of the loop reads it. -/
def readValue (name : Bytes) (configLine : Bytes) : Option Bytes :=
  let line := configLine.takeWhile (· ≠ hash)
  if line = [] then none
  else if nameValuePattern.search line then
    if equals ∉ line then none
    else if nameOf line = name then some (valueOf line)
    else none
  else none

/-- The loop over the lines from the last one back: the first value that is found, and the lines left. -/
def findStored (name : Bytes) : List Bytes → Option (Bytes × List Bytes)
  | [] => none
  | line :: lines =>
    match readValue name line with
    | some value => some (value, lines)
    | none => findStored name lines

/-- The name of the file that the lines left start with, going back. -/
def fileNameOf : List Bytes → Bytes
  | [] => []
  | line :: lines =>
    if fileNamePattern.search line then (line.dropWhile (· ≠ hash)).tail.dropWhile (· ≠ slash) else fileNameOf lines

inductive StoredVerdict where
  | correct
  | wrong (value fileName : Bytes)
  | missing
  deriving DecidableEq

/-- What the audit finds in the merged configuration. -/
def storedVerdict (params : Params) (configurations : Bytes) : StoredVerdict :=
  match findStored params.sysctlName (lines configurations).reverse with
  | none => .missing
  | some (value, left) => if params.value.found value then .correct else .wrong value (fileNameOf left)

end Stored

section Audit

structure Outcome where
  indicators : List Indicator := []
  result : Except Error Status

/-- An indicator is added, and its status is the result. -/
def Outcome.report (indicators : List Indicator) (message : Bytes) (status : Status) : Outcome where
  indicators := indicators ++ [{ message, status }]
  result := .ok status

def quoted (text : Bytes) : Bytes := utf8 "'" ++ text ++ utf8 "'"

/-- The part of the audit that looks for a value that is not stored where `ufw` has its own. -/
def auditUfw (context : Context) (params : Params) (indicators : List Indicator) : Outcome :=
  match context.getFileContents (utf8 "/etc/default/ufw") with
  | .error e => .report indicators (utf8 "Failed to read /etc/default/ufw: " ++ e.message) .nonCompliant
  | .ok ufwDefaults =>
    let sysctlFile := ((lines ufwDefaults).find? (utf8 "IPT_SYSCTL=" <+: ·)).elim [] (·.drop 11)
    if sysctlFile = [] then .report indicators (utf8 "Failed to find IPT_SYSCTL in /etc/default/ufw") .nonCompliant
    else if ¬ isValidFilePath (trimWhiteSpaces sysctlFile) then
      .report indicators (utf8 "Invalid sysctl file path in /etc/default/ufw") .nonCompliant
    else
      match context.getFileContents (trimWhiteSpaces sysctlFile) with
      | .error e => .report indicators (utf8 "Failed to read ufw sysctl config file: " ++ e.message) .nonCompliant
      | .ok contents =>
        match (lines contents).find? (sysctlPath params.sysctlName ++ utf8 "=" <+: ·) with
        | none => .report indicators (utf8 "Value not found in UFW configuration for " ++ quoted params.sysctlName) .nonCompliant
        | some line =>
          let value := line.drop (params.sysctlName.length + 1)
          if params.value.found value then
            .report indicators (utf8 "Correct value for " ++ quoted params.sysctlName ++ utf8 " in UFW configuration") .compliant
          else
            .report indicators (utf8 "Expected " ++ quoted params.sysctlName ++ utf8 ", got " ++ quoted value ++
              utf8 " in UFW configuration") .nonCompliant

/-- What is reported of the merged configuration. -/
def reportStored (context : Context) (params : Params) (indicators : List Indicator) : StoredVerdict → Outcome
  | .correct =>
    .report indicators (utf8 "Correct value for " ++ quoted params.sysctlName ++ utf8 " in stored configuration") .compliant
  | .wrong value fileName =>
    .report indicators (utf8 "Expected " ++ quoted params.sysctlName ++ utf8 " got " ++ quoted value ++
      utf8 " found in: " ++ quoted fileName) .nonCompliant
  | .missing =>
    auditUfw context params (indicators ++
      [{ message := utf8 "Expected " ++ quoted params.sysctlName ++ utf8 " not found in stored sysctl configuration"
         status := .nonCompliant }])

def systemdSysctlLocations : List Bytes := [utf8 "/lib/systemd/systemd-sysctl", utf8 "/usr/lib/systemd/systemd-sysctl"]

def auditStored (context : Context) (params : Params) (indicators : List Indicator) : Outcome :=
  match systemdSysctlLocations.find? fun cmd => (context.executeCommand (cmd ++ utf8 " --version")).isOk with
  | none => { indicators, result := .error { message := utf8 "Cannot find systemd-sysctl command", code := ENOENT } }
  | some cmd =>
    match context.executeCommand (cmd ++ utf8 " --cat-config") with
    | .error e => { indicators, result := .error e }
    | .ok configurations => reportStored context params indicators (storedVerdict params configurations)

/-- The value at run time: without a newline at its end, and trimmed. -/
def runtimeValue (output : Bytes) : Bytes :=
  trimWhiteSpaces (if output.getLast? = some newline then output.dropLast else output)

def runtimePath (context : Context) (params : Params) : Bytes :=
  context.specialFilePath (utf8 "/proc/sys/" ++ sysctlPath params.sysctlName)

def runtimeCorrect (params : Params) : Indicator where
  message := utf8 "Correct value for " ++ quoted params.sysctlName ++ utf8 " in runtime configuration"
  status := .compliant

def auditSysctlValue (context : Context) (params : Params) : Outcome :=
  if ¬ isValidSysctlName params.sysctlName then
    { result := .error { message := utf8 "Invalid sysctl name: " ++ params.sysctlName, code := EINVAL } }
  else
    match context.getFileContents (runtimePath context params) with
    | .error e =>
      if e.code = ENOENT then
        .report [] (utf8 "Sysctl " ++ quoted params.sysctlName ++ utf8 " not found in runtime configuration") .notApplicable
      else { result := .error e }
    | .ok output =>
      if params.value.found (runtimeValue output) then
        if params.runtimeOnly = some true then
          .report [runtimeCorrect params]
            (utf8 "Runtime-only check for " ++ quoted params.sysctlName ++ utf8 " passed") .compliant
        else auditStored context params [runtimeCorrect params]
      else
        .report [] (utf8 "Expected " ++ quoted params.sysctlName ++ utf8 " value " ++ quoted params.value.text ++ utf8 " got " ++
          quoted (runtimeValue output) ++ utf8 " in runtime configuration") .nonCompliant

end Audit

section Lines

variable {name line value : Bytes}

/-- A name as it is found by the search expression, with an equals sign after it. -/
def Searchable (line : Bytes) : Prop :=
  ∃ before first more blanks after, line = before ++ (first ++ (more ++ (blanks ++ equals :: after))) ∧
    (first ≠ [] ∧ ∀ c ∈ first, EcmaScript.isWord c = true) ∧ (more ≠ [] ∧ ∀ c ∈ more, isWordOrDotDash c = true) ∧
      ∀ c ∈ blanks, isSpace c = true

/-- A line whose part before a `#` gives the name, spelled as it is, a value. -/
def Legible (name line value : Bytes) : Prop :=
  ∃ key text, line.takeWhile (· ≠ hash) = key ++ equals :: text ∧ equals ∉ key ∧ trimWhiteSpaces key = name ∧
    trimWhiteSpaces text = value ∧ Searchable (line.takeWhile (· ≠ hash))

/-- A line that gives a value to the kernel parameter of that name: no comment, perhaps with a minus, and with dots or
slashes between the parts of the name. -/
def Assigns (name line value : Bytes) : Prop :=
  ∃ key text, line = key ++ equals :: text ∧ equals ∉ key ∧ (∀ c ∈ (line.dropWhile isSpace).head?, c ∉ utf8 "#;") ∧
    (sysctlPath (trimWhiteSpaces key) = sysctlPath name ∨
      ∃ rest, trimWhiteSpaces key = 0x2D :: rest ∧ sysctlPath rest = sysctlPath name) ∧ trimWhiteSpaces text = value

theorem search_nameValuePattern : nameValuePattern.search line = true ↔ Searchable line := by
  rw [Regex.search_iff]
  constructor
  · rintro ⟨before, s, after, rfl, h⟩
    obtain ⟨lead, s, rfl, -, h⟩ := Regex.matches_seqs_cons.mp h
    obtain ⟨first, s, rfl, hfirst, h⟩ := Regex.matches_seqs_cons.mp h
    obtain ⟨more, s, rfl, hmore, h⟩ := Regex.matches_seqs_cons.mp h
    obtain ⟨blanks, s, rfl, hblanks, h⟩ := Regex.matches_seqs_cons.mp h
    obtain ⟨sign, s, rfl, ⟨c, rfl, hc⟩, -⟩ := Regex.matches_seqs_cons.mp h
    rw [decide_eq_true_eq] at hc
    subst hc
    refine ⟨before ++ lead, first, more, blanks, s ++ after, ?_, Regex.matches_plus_char.mp hfirst,
      Regex.matches_plus_char.mp hmore, Regex.matches_star_char.mp hblanks⟩
    simp only [List.append_assoc, List.cons_append, List.nil_append]
  · rintro ⟨before, first, more, blanks, after, rfl, hfirst, hmore, hblanks⟩
    refine ⟨before, first ++ (more ++ (blanks ++ [equals])), after, by simp, [], _, rfl,
      Regex.matches_star_char.mpr (by simp), first, _, rfl, Regex.matches_plus_char.mpr hfirst, more, _, rfl,
      Regex.matches_plus_char.mpr hmore, blanks, _, rfl, Regex.matches_star_char.mpr hblanks, [equals], [], rfl,
      ⟨equals, rfl, decide_eq_true rfl⟩, [], [], rfl, Regex.matches_star_char.mpr (by simp), [], [], rfl,
      Regex.matches_star_char.mpr (by simp), rfl⟩

/-- What is before and after the first equals sign. -/
theorem split_at_equals {key text : Bytes} (h : equals ∉ key) :
    nameOf (key ++ equals :: text) = trimWhiteSpaces key ∧ valueOf (key ++ equals :: text) = trimWhiteSpaces text := by
  rw [nameOf, valueOf, takeWhile_cut h, dropWhile_cut h, List.tail_cons]
  exact ⟨rfl, rfl⟩

theorem readValue_eq_some_iff : readValue name line = some value ↔ Legible name line value := by
  unfold readValue Legible
  generalize line.takeWhile (· ≠ hash) = stripped
  dsimp only
  constructor
  · intro h
    split_ifs at h with hne hsearch hequals hname
    have hcut := cut_append hequals
    refine ⟨_, _, hcut.symm, not_mem_takeWhile stripped, hname, Option.some.inj h, search_nameValuePattern.mp hsearch⟩
  · rintro ⟨key, text, rfl, hkey, rfl, rfl, hsearch⟩
    obtain ⟨hname, hvalue⟩ := @split_at_equals _ text hkey
    rw [if_neg (by simp), if_pos (search_nameValuePattern.mpr hsearch), if_neg (by simp), if_pos hname, hvalue]

/-- What is left of a trimmed text starts where the text does after its blanks. -/
theorem head?_trimWhiteSpaces {text : Bytes} (hne : trimWhiteSpaces text ≠ []) :
    (text.dropWhile isSpace).head? = (trimWhiteSpaces text).head? := by
  have hstart : trimWhiteSpaces text <+: text.dropWhile isSpace := List.rdropWhile_prefix _ _
  obtain ⟨rest, hrest⟩ := hstart
  obtain ⟨c, trimmed, hcons⟩ := List.exists_cons_of_ne_nil hne
  rw [← hrest, hcons]
  rfl

theorem isNameByte_of_valid (hvalid : isValidSysctlName name = true) : name ≠ [] ∧ ∀ c ∈ name, isNameByte c = true := by
  unfold isValidSysctlName at hvalid
  split_ifs at hvalid with hne hdots
  exact ⟨hne, List.all_eq_true.mp hvalid⟩

theorem not_mem_comment {c : UInt8} (hc : isNameByte c = true) : c ∉ utf8 "#;" := by
  intro hmem
  have hbytes : utf8 "#;" = [hash, 0x3B] := by
    rw [utf8_ofList]
    rfl
  rw [hbytes, List.mem_cons, List.mem_singleton] at hmem
  rcases hmem with rfl | rfl
  · exact absurd hc (by decide)
  · exact absurd hc (by decide)

/-- A line that is read is one that assigns, though it may be with another value. -/
theorem Legible.assigns (h : Legible name line value) (hvalid : isValidSysctlName name = true) :
    ∃ other, Assigns name line other := by
  obtain ⟨key, text, hline, hkey, hname, -, -⟩ := h
  obtain ⟨hne, hbytes⟩ := isNameByte_of_valid hvalid
  obtain ⟨rest, hrest⟩ : line.takeWhile (· ≠ hash) <+: line := List.takeWhile_prefix _
  rw [hline, List.append_assoc, List.cons_append] at hrest
  refine ⟨_, key, text ++ rest, hrest.symm, hkey, ?_, .inl (by rw [hname]), rfl⟩
  -- The line starts as the name does, after blanks.
  have htrim : trimWhiteSpaces key ≠ [] := by rwa [hname]
  have hhead := head?_trimWhiteSpaces htrim
  rw [hname] at hhead
  obtain ⟨c, more, hcons⟩ := List.exists_cons_of_ne_nil hne
  have hdrop : key.dropWhile isSpace ≠ [] := by
    intro hnil
    rw [hnil, hcons] at hhead
    cases hhead
  have hstart : (line.dropWhile isSpace).head? = some c := by
    obtain ⟨d, left, hleft⟩ := List.exists_cons_of_ne_nil hdrop
    have hlong : (key ++ equals :: (text ++ rest)).dropWhile isSpace = key.dropWhile isSpace ++ equals :: (text ++ rest) := by
      rw [List.dropWhile_append, if_neg (by simp [hleft])]
    rw [hleft, hcons, List.head?_cons, List.head?_cons] at hhead
    rw [← hrest, hlong, hleft]
    exact hhead
  intro d hd
  rw [hstart] at hd
  cases hd
  have hc : isNameByte c = true := hbytes c (by rw [hcons]; exact List.mem_cons_self)
  exact not_mem_comment hc

end Lines

section Verdict

variable {params : Params} {configLines : List Bytes} {configurations value other : Bytes}

theorem findStored_eq_some_iff {name : Bytes} {reversed left : List Bytes} :
    findStored name reversed = some (value, left) ↔ ∃ front line, reversed = front ++ line :: left ∧
      Legible name line value ∧ ∀ other ∈ front, ∀ v, ¬ Legible name other v := by
  induction reversed with
  | nil => simp [findStored]
  | cons line reversed ih =>
    rw [findStored]
    cases hread : readValue name line with
    | some v =>
      have hlegible := readValue_eq_some_iff.mp hread
      constructor
      · intro h
        cases h
        exact ⟨[], line, rfl, hlegible, fun other hother => nomatch hother⟩
      · rintro ⟨front, last, heq, hlast, hnone⟩
        cases front with
        | nil =>
          cases heq
          rw [readValue_eq_some_iff.mpr hlast] at hread
          cases hread
          rfl
        | cons other front =>
          cases heq
          exact absurd hlegible (hnone line List.mem_cons_self v)
    | none =>
      have hillegible (v : Bytes) : ¬ Legible name line v := by
        rw [← readValue_eq_some_iff, hread]
        simp
      rw [ih]
      constructor
      · rintro ⟨front, last, rfl, hlast, hnone⟩
        refine ⟨line :: front, last, rfl, hlast, fun other hother => ?_⟩
        rcases List.mem_cons.mp hother with rfl | hother
        · exact hillegible
        · exact hnone other hother
      · rintro ⟨front, last, heq, hlast, hnone⟩
        cases front with
        | nil =>
          cases heq
          exact absurd hlast (hillegible value)
        | cons other front =>
          cases heq
          exact ⟨front, last, rfl, hlast, fun other hother => hnone other (List.mem_cons_of_mem _ hother)⟩

/-- Going back through the lines, the last one that can be read is found. -/
theorem exists_findStored_iff {name : Bytes} :
    (∃ left, findStored name configLines.reverse = some (value, left)) ↔ LastOf (Legible name) configLines value := by
  constructor
  · rintro ⟨left, h⟩
    obtain ⟨front, line, heq, hline, hnone⟩ := findStored_eq_some_iff.mp h
    refine ⟨left.reverse, line, front.reverse, ?_, hline, fun y hy => hnone y (List.mem_reverse.mp hy)⟩
    rw [← List.reverse_reverse configLines, heq]
    simp
  · rintro ⟨before, line, after, rfl, hline, hnone⟩
    refine ⟨before.reverse, findStored_eq_some_iff.mpr ⟨after.reverse, line, ?_, hline, fun y hy =>
      hnone y (List.mem_reverse.mp hy)⟩⟩
    simp

theorem legible_unique (name line value other : Bytes) (h : Legible name line value) (h' : Legible name line other) :
    value = other :=
  Option.some.inj ((readValue_eq_some_iff.mpr h).symm.trans (readValue_eq_some_iff.mpr h'))

theorem assigns_unique (name line value other : Bytes) (h : Assigns name line value) (h' : Assigns name line other) :
    value = other := by
  obtain ⟨key, text, hline, hkey, -, -, rfl⟩ := h
  obtain ⟨key', text', hline', hkey', -, -, rfl⟩ := h'
  have htext : text = text' := by
    have hdrop := dropWhile_cut hkey text
    rw [← hline, hline', dropWhile_cut hkey'] at hdrop
    exact (List.cons.inj hdrop).2.symm
  rw [htext]

/-- The audit of what is stored is decided by the assignment that wins. -/
structure Decides (params : Params) (configurations : Bytes) (verdict : StoredVerdict) : Prop where
  correct : verdict = .correct ↔
    ∃ winner, LastOf (Assigns params.sysctlName) (lines configurations) winner ∧ params.value.found winner = true
  wrong : ∀ winner, LastOf (Assigns params.sysctlName) (lines configurations) winner →
    params.value.found winner = false → ∃ fileName, verdict = .wrong winner fileName

/-- The last line that can be read says what the last that assigns does, or both values are as they should be. -/
def ReadsWinner (params : Params) (configurations : Bytes) : Prop :=
  ∀ winner, LastOf (Assigns params.sysctlName) (lines configurations) winner →
    ∃ value, LastOf (Legible params.sysctlName) (lines configurations) value ∧
      (value = winner ∨ params.value.found value = true ∧ params.value.found winner = true)

theorem storedVerdict_of_last {value : Bytes} (h : LastOf (Legible params.sysctlName) (lines configurations) value) :
    if params.value.found value then storedVerdict params configurations = .correct
    else ∃ fileName, storedVerdict params configurations = .wrong value fileName := by
  obtain ⟨left, hfind⟩ := exists_findStored_iff.mpr h
  unfold storedVerdict
  rw [hfind]
  dsimp only
  split_ifs with hfound
  · rfl
  · exact ⟨_, rfl⟩

theorem storedVerdict_of_none (h : ¬ ∃ value, LastOf (Legible params.sysctlName) (lines configurations) value) :
    storedVerdict params configurations = .missing := by
  unfold storedVerdict
  cases hfind : findStored params.sysctlName (lines configurations).reverse with
  | none => rfl
  | some found => exact absurd ⟨found.1, exists_findStored_iff.mp ⟨found.2, hfind⟩⟩ h

theorem storedVerdict_decides_iff (hvalid : isValidSysctlName params.sysctlName = true) :
    Decides params configurations (storedVerdict params configurations) ↔ ReadsWinner params configurations := by
  constructor
  · intro h winner hwinner
    cases hfound : params.value.found winner with
    | true =>
      have hcorrect := h.correct.mpr ⟨winner, hwinner, hfound⟩
      by_cases hlast : ∃ value, LastOf (Legible params.sysctlName) (lines configurations) value
      · obtain ⟨value, hvalue⟩ := hlast
        have hverdict := storedVerdict_of_last hvalue
        split_ifs at hverdict with hmatches
        · exact ⟨value, hvalue, .inr ⟨hmatches, rfl⟩⟩
        · obtain ⟨fileName, hwrong⟩ := hverdict
          rw [hwrong] at hcorrect
          cases hcorrect
      · rw [storedVerdict_of_none hlast] at hcorrect
        cases hcorrect
    | false =>
      obtain ⟨fileName, hwrong⟩ := h.wrong winner hwinner hfound
      by_cases hlast : ∃ value, LastOf (Legible params.sysctlName) (lines configurations) value
      · obtain ⟨value, hvalue⟩ := hlast
        have hverdict := storedVerdict_of_last hvalue
        split_ifs at hverdict with hmatches
        · rw [hverdict] at hwrong
          cases hwrong
        · obtain ⟨other, hother⟩ := hverdict
          rw [hother] at hwrong
          cases hwrong
          exact ⟨_, hvalue, .inl rfl⟩
      · rw [storedVerdict_of_none hlast] at hwrong
        cases hwrong
  · intro h
    constructor
    · constructor
      · intro hcorrect
        have hlast : ∃ value, LastOf (Legible params.sysctlName) (lines configurations) value := by
          by_contra hnone
          rw [storedVerdict_of_none hnone] at hcorrect
          cases hcorrect
        obtain ⟨value, hvalue⟩ := hlast
        obtain ⟨line, hline, hlegible⟩ := hvalue.exists_mem
        obtain ⟨winner, hwinner⟩ := exists_lastOf ⟨line, hline, hlegible.assigns hvalid⟩
        obtain ⟨read, hread, hsame⟩ := h winner hwinner
        obtain rfl := hread.unique (legible_unique params.sysctlName) hvalue
        have hverdict := storedVerdict_of_last hvalue
        split_ifs at hverdict with hmatches
        · refine ⟨winner, hwinner, ?_⟩
          rcases hsame with rfl | hboth
          · exact hmatches
          · exact hboth.2
        · obtain ⟨fileName, hwrong⟩ := hverdict
          rw [hwrong] at hcorrect
          cases hcorrect
      · rintro ⟨winner, hwinner, hfound⟩
        obtain ⟨value, hvalue, hsame⟩ := h winner hwinner
        have hverdict := storedVerdict_of_last hvalue
        have hmatches : params.value.found value = true := by
          rcases hsame with rfl | hboth
          · exact hfound
          · exact hboth.1
        rwa [if_pos hmatches] at hverdict
    · intro winner hwinner hfound
      obtain ⟨value, hvalue, hsame⟩ := h winner hwinner
      have heq : value = winner := hsame.resolve_right fun hboth => by
        rw [hfound] at hboth
        cases hboth.2
      subst heq
      have hverdict := storedVerdict_of_last hvalue
      rwa [hfound, if_neg Bool.false_ne_true] at hverdict

/-- The value at run time is as it should be, and the merged configuration is there to be looked at. -/
structure LooksAtStored (context : Context) (params : Params) (configurations : Bytes) : Prop where
  valid : isValidSysctlName params.sysctlName = true
  runtime : ∃ output, context.getFileContents (runtimePath context params) = .ok output ∧
    params.value.found (runtimeValue output) = true
  runtimeOnly : params.runtimeOnly = some false
  systemdSysctl : ∃ cmd, systemdSysctlLocations.find? (fun cmd => (context.executeCommand (cmd ++ utf8 " --version")).isOk) =
    some cmd ∧ context.executeCommand (cmd ++ utf8 " --cat-config") = .ok configurations

theorem auditSysctlValue_stored {context : Context} (h : LooksAtStored context params configurations) :
    auditSysctlValue context params =
      reportStored context params [runtimeCorrect params] (storedVerdict params configurations) := by
  obtain ⟨output, hread, hfound⟩ := h.runtime
  obtain ⟨cmd, hcmd, hconfigurations⟩ := h.systemdSysctl
  unfold auditSysctlValue
  rw [if_neg (not_not.mpr h.valid), hread]
  dsimp only
  rw [if_pos hfound, h.runtimeOnly, if_neg (by simp)]
  unfold auditStored
  rw [hcmd]
  dsimp only
  rw [hconfigurations]

/-- Where the audit comes to what is stored, the assignment that wins decides it just when the last line that can be
read agrees with it. -/
theorem auditSysctlValue_decides_iff {context : Context} (h : LooksAtStored context params configurations) :
    auditSysctlValue context params =
        reportStored context params [runtimeCorrect params] (storedVerdict params configurations) ∧
      (Decides params configurations (storedVerdict params configurations) ↔ ReadsWinner params configurations) :=
  ⟨auditSysctlValue_stored h, storedVerdict_decides_iff h.valid⟩

/-- No forwarding, at run time and stored. -/
def ipForward : Params where
  sysctlName := utf8 "net.ipv4.ip_forward"
  value := { text := utf8 "^0$", found := (· = [0x30]) }

/-- A host that has what its configuration says. -/
def hostWith (configurations : Bytes) : Context where
  specialFilePath := id
  getFileContents := fun _ => .ok [0x30, newline]
  executeCommand := fun cmd => .ok (if utf8 "--cat-config" <:+ cmd then configurations else [])

theorem hostWith_looksAtStored (configurations : Bytes) : LooksAtStored (hostWith configurations) ipForward configurations where
  valid := by decide +kernel
  runtime := ⟨[0x30, newline], rfl, by decide +kernel⟩
  runtimeOnly := rfl
  systemdSysctl := by
    have hasks : utf8 "--cat-config" <:+ utf8 "/lib/systemd/systemd-sysctl" ++ utf8 " --cat-config" := by decide +kernel
    exact ⟨utf8 "/lib/systemd/systemd-sysctl", rfl, congrArg Except.ok (if_pos hasks)⟩

/-- A last line with a minus. -/
def dashed : Bytes := utf8 "net.ipv4.ip_forward = 0\n-net.ipv4.ip_forward = 1\n"

theorem hostWith_decides : auditSysctlValue (hostWith dashed) ipForward =
      reportStored (hostWith dashed) ipForward [runtimeCorrect ipForward] (storedVerdict ipForward dashed) ∧
    (Decides ipForward dashed (storedVerdict ipForward dashed) ↔ ReadsWinner ipForward dashed) :=
  auditSysctlValue_decides_iff (hostWith_looksAtStored dashed)

theorem dash_is_missed : LooksAtStored (hostWith dashed) ipForward dashed ∧
    ¬ Decides ipForward dashed (storedVerdict ipForward dashed) := by
  refine ⟨hostWith_looksAtStored dashed, fun h => ?_⟩
  have hcorrect : storedVerdict ipForward dashed = .correct := by decide +kernel
  obtain ⟨winner, hwinner, hfound⟩ := h.correct.mp hcorrect
  have hlast : LastOf (Assigns ipForward.sysctlName) (lines dashed) [0x31] := by
    refine ⟨[utf8 "net.ipv4.ip_forward = 0"], utf8 "-net.ipv4.ip_forward = 1", [], by decide +kernel, ?_,
      fun y hy => nomatch hy⟩
    refine ⟨utf8 "-net.ipv4.ip_forward ", utf8 " 1", by decide +kernel, by decide +kernel, by decide +kernel,
      .inr ⟨utf8 "net.ipv4.ip_forward", by decide +kernel, rfl⟩, by decide +kernel⟩
  obtain rfl := hwinner.unique (assigns_unique ipForward.sysctlName) hlast
  exact absurd hfound (by decide)

end Verdict

end Kompli.SysctlValue
