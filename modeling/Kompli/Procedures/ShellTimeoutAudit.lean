import Kompli.ComplianceEngine.Indicators
import Kompli.ComplianceEngine.StringTools
import Kompli.Procedures.ShellTimeout

/-! The audit of the shell timeout over all files that shells read. -/
namespace Kompli.ShellTimeoutAudit
open Foundation Streams StringTools

/-- What the three expressions find in a line, and the text that is assigned. -/
structure Patterns where
  value : Bytes → Option Bytes
  readonly : Bytes → Bool
  exported : Bytes → Bool

structure MatchResult where
  found : Bool := false
  multiple : Bool := false
  correct : Bool := false
  readonly : Bool := false
  exported : Bool := false

/-- What `stat` says of a location, or its content. -/
inductive Location where
  | noStat (code : Int)
  | noOpen (code : Int)
  | readable (content : Bytes)

def ENOENT : Int := 2

section Audit

variable (patterns : Patterns) (strerror : Int → Bytes)

/-- The end of a turn. -/
def matchOthers (line : Bytes) (result : MatchResult) : MatchResult :=
  { result with
    readonly := result.readonly || patterns.readonly line
    exported := result.exported || patterns.exported line }

def matchLines : List Bytes → MatchResult → Except Error MatchResult
  | [], result => .ok result
  | line :: lines, result =>
    match patterns.value line with
    | none => matchLines lines (matchOthers patterns line result)
    | some text =>
      if result.found then .ok { result with multiple := true }
      else
        match tryStringToInt text with
        | .error e => .error e
        | .ok value =>
          let correct := result.correct || decide (value ≤ 900)
          matchLines lines (matchOthers patterns line { result with found := true, correct })

def multilineMatch (filename : Bytes) : Location → Except Error MatchResult
  | .readable content => matchLines patterns (lines content) {}
  | .noOpen code | .noStat code => .error { message := utf8 "Failed to open file: " ++ filename, code }

/-- The indicators of a location that sets the timeout; the first that is not compliant is the last. -/
def report (location : Bytes) (result : MatchResult) (found : Bool) : List Indicator :=
  let compliant (text : Bytes) : Indicator := { message := text ++ location, status := .compliant }
  let nonCompliant (text : Bytes) : Indicator := { message := text, status := .nonCompliant }
  if ! result.correct then [nonCompliant (utf8 "TMOUT is set to an incorrect value in " ++ location)]
  else compliant (utf8 "TMOUT is set to a correct value in ") ::
    if result.multiple then [nonCompliant (utf8 "TMOUT is set multiple times in " ++ location)]
    else if ! result.readonly then [nonCompliant (utf8 "TMOUT is not readonly in " ++ location)]
    else compliant (utf8 "TMOUT is set readonly in ") ::
      if ! result.exported then [nonCompliant (utf8 "TMOUT is not exported in " ++ location)]
      else compliant (utf8 "TMOUT is exported in ") ::
        if found then [nonCompliant (utf8 "TMOUT is set in multiple locations")] else []

def auditLocations (found : Bool) : List (Bytes × Location) → List Indicator → Except Error Status × List Indicator
  | [], indicators =>
    if found then (.ok .compliant, indicators ++ [{ message := utf8 "TMOUT variable is properly defined", status := .compliant }])
    else (.ok .nonCompliant, indicators ++ [{ message := utf8 "TMOUT is not set", status := .nonCompliant }])
  | (path, .noStat code) :: locations, indicators =>
    if code = ENOENT then auditLocations found locations indicators
    else (.error { message := utf8 "Failed to stat " ++ path ++ utf8 ": " ++ strerror code, code }, indicators)
  | (path, location) :: locations, indicators =>
    match multilineMatch patterns path location with
    | .error e => (.error e, indicators)
    | .ok result =>
      if ! result.found then auditLocations found locations indicators
      else
        let reported := report path result found
        if reported.all (·.status = .compliant) then auditLocations true locations (indicators ++ reported)
        else (.ok .nonCompliant, indicators ++ reported)

/-- The expressions are compiled, and the locations are `GetShellConfigLocations`. -/
def auditShellTimeout : Except Error (List (Bytes × Location)) → Except Error Status × List Indicator
  | .error e => (.error e, [])
  | .ok locations => auditLocations patterns strerror false locations []

end Audit

section Meaning

variable (patterns : Patterns)

/-- A location that is there with a content, or is not there. -/
def locationOf (file : Bytes × Option Bytes) : Bytes × Location :=
  (file.1, file.2.elim (.noStat ENOENT) .readable)

def assigned (content : Bytes) : List Bytes := (lines content).filterMap patterns.value

def assignedIn (file : Bytes × Option Bytes) : List Bytes := file.2.elim [] (assigned patterns)

/-- A file sets the timeout to a value once, and fixes it. -/
structure SetsTo (content : Bytes) (value : Int) : Prop where
  assigns : ∃ text, assigned patterns content = [text] ∧ tryStringToInt text = .ok value
  readonly : ∃ line ∈ lines content, patterns.readonly line = true
  exported : ∃ line ∈ lines content, patterns.exported line = true

/-- There is one effective timeout, of a certain kind: one file alone sets it. -/
def OneTimeout (P : Int → Prop) (files : List (Bytes × Option Bytes)) : Prop :=
  ∃ before path content after value, files = before ++ (path, some content) :: after ∧
    (∀ file ∈ before ++ after, assignedIn patterns file = []) ∧ SetsTo patterns content value ∧ P value

end Meaning

section Lines

variable {patterns : Patterns}

/-- What is found in lines without an assignment. -/
theorem matchLines_plain {lines : List Bytes} (h : lines.filterMap patterns.value = []) (result : MatchResult) :
    matchLines patterns lines result = .ok { result with
      readonly := result.readonly || lines.any patterns.readonly
      exported := result.exported || lines.any patterns.exported } := by
  induction lines generalizing result with
  | nil =>
    rw [matchLines, List.any_nil, List.any_nil, Bool.or_false, Bool.or_false]
  | cons line lines ih =>
    cases hvalue : patterns.value line with
    | some text =>
      rw [List.filterMap_cons_some hvalue] at h
      cases h
    | none =>
      rw [List.filterMap_cons_none hvalue] at h
      rw [matchLines, hvalue]
      dsimp only
      rw [ih h, matchOthers]
      simp only [List.any_cons, Bool.or_assoc]

/-- After an assignment, another one ends the search. -/
theorem matchLines_found {lines : List Bytes} (h : lines.filterMap patterns.value ≠ []) {result : MatchResult}
    (hfound : result.found = true) : ∃ after, matchLines patterns lines result = .ok after ∧ after.found = true ∧
      after.multiple = true := by
  induction lines generalizing result with
  | nil => exact absurd rfl h
  | cons line lines ih =>
    cases hvalue : patterns.value line with
    | some text =>
      rw [matchLines, hvalue]
      dsimp only
      rw [if_pos hfound]
      exact ⟨_, rfl, hfound, rfl⟩
    | none =>
      rw [List.filterMap_cons_none hvalue] at h
      rw [matchLines, hvalue]
      exact ih h hfound

/-- How the search ends: without an assignment, with an error, after one assignment, or at a second one. -/
theorem matchLines_cases (lines : List Bytes) (readonly exported : Bool) :
    let result := matchLines patterns lines { readonly, exported }
    (lines.filterMap patterns.value = [] ∧ ∃ after, result = .ok after ∧ after.found = false) ∨
      (∃ text more e, lines.filterMap patterns.value = text :: more ∧ tryStringToInt text = .error e ∧ result = .error e) ∨
      (∃ text value, lines.filterMap patterns.value = [text] ∧ tryStringToInt text = .ok value ∧ result = .ok
        { found := true, multiple := false, correct := decide (value ≤ 900)
          readonly := readonly || lines.any patterns.readonly, exported := exported || lines.any patterns.exported }) ∨
      ∃ text more, lines.filterMap patterns.value = text :: more ∧ more ≠ [] ∧
        ∃ after, result = .ok after ∧ after.found = true ∧ after.multiple = true := by
  induction lines generalizing readonly exported with
  | nil => exact .inl ⟨rfl, _, rfl, rfl⟩
  | cons line lines ih =>
    dsimp only at ih ⊢
    cases hvalue : patterns.value line with
    | none =>
      have hothers := ih (readonly || patterns.readonly line) (exported || patterns.exported line)
      rw [List.filterMap_cons_none hvalue, matchLines, hvalue, List.any_cons, List.any_cons, ← Bool.or_assoc, ← Bool.or_assoc]
      exact hothers
    | some text =>
      rw [List.filterMap_cons_some hvalue, matchLines, hvalue]
      dsimp only
      simp only [Bool.false_eq_true, if_false, Bool.false_or]
      cases hint : tryStringToInt text with
      | error e => exact .inr (.inl ⟨text, _, e, rfl, hint, rfl⟩)
      | ok value =>
        dsimp only
        by_cases hmore : lines.filterMap patterns.value = []
        · refine .inr (.inr (.inl ⟨text, value, by rw [hmore], hint, ?_⟩))
          rw [matchLines_plain hmore, matchOthers]
          simp only [List.any_cons, Bool.or_assoc]
        · exact .inr (.inr (.inr ⟨text, _, rfl, hmore, matchLines_found hmore rfl⟩))

end Lines

section Locations

variable {patterns : Patterns} {strerror : Int → Bytes} {path : Bytes} {locations : List (Bytes × Location)}
  {indicators : List Indicator}

theorem audit_unset {file : Bytes × Option Bytes} (h : assignedIn patterns file = []) (found : Bool) :
    auditLocations patterns strerror found (locationOf file :: locations) indicators =
      auditLocations patterns strerror found locations indicators := by
  obtain ⟨path, content⟩ := file
  cases content with
  | none =>
    change (if ENOENT = ENOENT then _ else _) = _
    rw [if_pos rfl]
  | some content =>
    change (match matchLines patterns (lines content) {} with
      | .error e => _
      | .ok result => _) = _
    rcases @matchLines_cases patterns (lines content) false false with
      ⟨-, after, hrun, hfound⟩ | ⟨text, more, e, htext, -, -⟩ | ⟨text, value, htext, -, -⟩ | ⟨text, more, htext, -, -⟩
    · rw [hrun]
      dsimp only
      rw [hfound]
      rfl
    · cases h.symm.trans htext
    · cases h.symm.trans htext
    · cases h.symm.trans htext

/-- The audit goes on where nothing that is reported is against it. -/
theorem report_compliant_iff (result : MatchResult) (found : Bool) :
    (report path result found).all (·.status = .compliant) = true ↔ result.correct = true ∧ result.multiple = false ∧
      result.readonly = true ∧ result.exported = true ∧ found = false := by
  obtain ⟨-, multiple, correct, readonly, exported⟩ := result
  rw [report]
  cases correct with
  | false => simp
  | true =>
    cases multiple with
    | true => simp
    | false =>
      cases readonly with
      | false => simp
      | true =>
        cases exported with
        | false => simp
        | true => cases found <;> simp

/-- What the audit makes of a file in which the search has found something. -/
theorem audit_found {content : Bytes} {result : MatchResult} {found : Bool}
    (hrun : matchLines patterns (lines content) {} = .ok result) (hfound : result.found = true) :
    auditLocations patterns strerror found ((path, .readable content) :: locations) indicators =
      if (report path result found).all (·.status = .compliant) then
        auditLocations patterns strerror true locations (indicators ++ report path result found)
      else (.ok .nonCompliant, indicators ++ report path result found) := by
  rw [auditLocations, multilineMatch, hrun]
  · dsimp only
    rw [hfound]
    rfl
  · rintro code ⟨⟩

/-- The one file that sets the timeout rightly. -/
theorem audit_set {content : Bytes} {value : Int} (h : SetsTo patterns content value) (hvalue : value ≤ 900) : ∃ reported,
    auditLocations patterns strerror false ((path, .readable content) :: locations) indicators =
      auditLocations patterns strerror true locations (indicators ++ reported) := by
  obtain ⟨⟨text, htext, hint⟩, hreadonly, hexported⟩ := h
  rw [assigned] at htext
  rcases @matchLines_cases patterns (lines content) false false with
    ⟨hnone, -⟩ | ⟨_, _, e, hother, herror, -⟩ | ⟨_, _, hother, hsame, hrun⟩ | ⟨_, more, hother, hmore, -⟩
  · cases hnone.symm.trans htext
  · cases htext.symm.trans hother
    cases hint.symm.trans herror
  · cases htext.symm.trans hother
    cases hint.symm.trans hsame
    rw [audit_found hrun rfl, if_pos]
    · exact ⟨_, rfl⟩
    · rw [report_compliant_iff]
      exact ⟨decide_eq_true hvalue, rfl, List.any_eq_true.mpr hreadonly, List.any_eq_true.mpr hexported, rfl⟩
  · cases htext.symm.trans hother
    exact absurd rfl hmore

/-- Any other file that sets it ends the audit. -/
theorem audit_refused {content : Bytes} {found : Bool} (h : assigned patterns content ≠ [])
    (hrefused : found = true ∨ ¬ ∃ value, SetsTo patterns content value ∧ value ≤ 900) :
    (auditLocations patterns strerror found ((path, .readable content) :: locations) indicators).1 ≠ .ok .compliant := by
  rw [assigned] at h
  rcases @matchLines_cases patterns (lines content) false false with
    ⟨hnone, -⟩ | ⟨_, _, e, -, -, hrun⟩ | ⟨text, value, htext, hint, hrun⟩ | ⟨_, _, -, -, after, hrun, hfound, hmultiple⟩
  · exact absurd hnone h
  · rw [auditLocations, multilineMatch, hrun]
    · nofun
    · rintro code ⟨⟩
  · rw [audit_found hrun rfl]
    split_ifs with hreport
    · obtain ⟨hcorrect, -, hreadonly, hexported, hfound⟩ := (report_compliant_iff _ _).mp hreport
      refine hrefused.elim (fun htrue => absurd (htrue.symm.trans hfound) nofun) fun hnot => absurd ?_ hnot
      exact ⟨value, ⟨⟨text, htext, hint⟩, List.any_eq_true.mp hreadonly, List.any_eq_true.mp hexported⟩, of_decide_eq_true hcorrect⟩
    · nofun
  · rw [audit_found hrun hfound]
    split_ifs with hreport
    · have hsingle := ((report_compliant_iff _ _).mp hreport).2.1
      cases hmultiple.symm.trans hsingle
    · nofun

/-- After a file that sets the timeout, no other may. -/
theorem audit_after_set (files : List (Bytes × Option Bytes)) (indicators : List Indicator) :
    (auditLocations patterns strerror true (files.map locationOf) indicators).1 = .ok .compliant ↔
      ∀ file ∈ files, assignedIn patterns file = [] := by
  induction files generalizing indicators with
  | nil => exact iff_of_true rfl nofun
  | cons file files ih =>
    rw [List.map_cons, List.forall_mem_cons]
    by_cases hfile : assignedIn patterns file = []
    · rw [audit_unset hfile, ih]
      exact (and_iff_right hfile).symm
    · obtain ⟨path, content⟩ := file
      cases content with
      | none => exact absurd rfl hfile
      | some content => exact iff_of_false (audit_refused hfile (.inl rfl)) fun h => hfile h.1

end Locations

section OneTimeout

variable {patterns : Patterns} {strerror : Int → Bytes} {P Q : Int → Prop} {file : Bytes × Option Bytes}
  {files : List (Bytes × Option Bytes)}

theorem SetsTo.assigned_ne {content : Bytes} {value : Int} (h : SetsTo patterns content value) : assigned patterns content ≠ [] := by
  obtain ⟨text, htext, -⟩ := h.assigns
  rw [htext]
  exact List.cons_ne_nil text []

theorem oneTimeout_cons_unset (h : assignedIn patterns file = []) :
    OneTimeout patterns P (file :: files) ↔ OneTimeout patterns P files := by
  constructor
  · rintro ⟨before, path, content, after, value, hfiles, hothers, hset, hvalue⟩
    cases before with
    | nil =>
      cases hfiles
      exact absurd h hset.assigned_ne
    | cons first before =>
      cases hfiles
      exact ⟨before, path, content, after, value, rfl, (List.forall_mem_cons.mp hothers).2, hset, hvalue⟩
  · rintro ⟨before, path, content, after, value, rfl, hothers, hset, hvalue⟩
    exact ⟨file :: before, path, content, after, value, rfl, List.forall_mem_cons.mpr ⟨h, hothers⟩, hset, hvalue⟩

theorem oneTimeout_cons_set (h : assignedIn patterns file ≠ []) : OneTimeout patterns P (file :: files) ↔
    (∃ path content value, file = (path, some content) ∧ SetsTo patterns content value ∧ P value) ∧
      ∀ other ∈ files, assignedIn patterns other = [] := by
  constructor
  · rintro ⟨before, path, content, after, value, hfiles, hothers, hset, hvalue⟩
    cases before with
    | nil =>
      cases hfiles
      exact ⟨⟨path, content, value, rfl, hset, hvalue⟩, hothers⟩
    | cons first before =>
      cases hfiles
      exact absurd (hothers _ List.mem_cons_self) h
  · rintro ⟨⟨path, content, value, rfl, hset, hvalue⟩, hothers⟩
    exact ⟨[], path, content, files, value, rfl, hothers, hset, hvalue⟩

theorem auditLocations_compliant_iff (files : List (Bytes × Option Bytes)) (indicators : List Indicator) :
    (auditLocations patterns strerror false (files.map locationOf) indicators).1 = .ok .compliant ↔
      OneTimeout patterns (· ≤ 900) files := by
  induction files generalizing indicators with
  | nil =>
    refine iff_of_false nofun ?_
    rintro ⟨before, path, content, after, value, hfiles, -⟩
    exact List.append_ne_nil_of_right_ne_nil before (List.cons_ne_nil _ after) hfiles.symm
  | cons file files ih =>
    rw [List.map_cons]
    by_cases hfile : assignedIn patterns file = []
    · rw [audit_unset hfile, ih, oneTimeout_cons_unset hfile]
    · rw [oneTimeout_cons_set hfile]
      obtain ⟨path, content⟩ := file
      cases content with
      | none => exact absurd rfl hfile
      | some content =>
        by_cases hset : ∃ value, SetsTo patterns content value ∧ value ≤ 900
        · obtain ⟨value, hset, hvalue⟩ := hset
          obtain ⟨reported, haudit⟩ := @audit_set patterns strerror path (files.map locationOf) indicators content value hset hvalue
          have hgoes : (auditLocations patterns strerror false (locationOf (path, some content) :: files.map locationOf) indicators).1 =
              (auditLocations patterns strerror true (files.map locationOf) (indicators ++ reported)).1 := congrArg Prod.fst haudit
          rw [hgoes, audit_after_set]
          exact (and_iff_right ⟨path, content, value, rfl, hset, hvalue⟩).symm
        · refine iff_of_false (audit_refused hfile (.inr hset)) ?_
          rintro ⟨⟨_, _, value, ⟨⟩, hother, hvalue⟩, -⟩
          exact hset ⟨value, hother, hvalue⟩

/-- All that is assigned anywhere is one text. -/
theorem OneTimeout.text (h : OneTimeout patterns P files) : ∃ text value,
    files.flatMap (assignedIn patterns) = [text] ∧ tryStringToInt text = .ok value ∧ P value := by
  obtain ⟨before, path, content, after, value, rfl, hothers, hset, hvalue⟩ := h
  obtain ⟨text, htext, hint⟩ := hset.assigns
  have hbefore : before.flatMap (assignedIn patterns) = [] :=
    List.flatMap_eq_nil_iff.mpr fun file hfile => hothers file (List.mem_append_left after hfile)
  have hafter : after.flatMap (assignedIn patterns) = [] :=
    List.flatMap_eq_nil_iff.mpr fun file hfile => hothers file (List.mem_append_right before hfile)
  refine ⟨text, value, ?_, hint, hvalue⟩
  rw [List.flatMap_append, List.flatMap_cons, hbefore, hafter]
  exact (List.append_nil _).trans htext

theorem OneTimeout.both (h : OneTimeout patterns P files) (h' : OneTimeout patterns Q files) : ∃ value, P value ∧ Q value := by
  obtain ⟨text, value, htext, hint, hP⟩ := h.text
  obtain ⟨_, _, hother, hsame, hQ⟩ := h'.text
  cases htext.symm.trans hother
  cases hint.symm.trans hsame
  exact ⟨value, hP, hQ⟩

theorem OneTimeout.perm {other : List (Bytes × Option Bytes)} (hperm : files.Perm other) (h : OneTimeout patterns P files) :
    OneTimeout patterns P other := by
  obtain ⟨before, path, content, after, value, rfl, hothers, hset, hvalue⟩ := h
  have hmem : (path, some content) ∈ other := hperm.mem_iff.mp (List.mem_append_right before List.mem_cons_self)
  obtain ⟨before', after', rfl⟩ := List.append_of_mem hmem
  have hrest : (before ++ after).Perm (before' ++ after') :=
    List.Perm.cons_inv ((List.perm_middle.symm.trans hperm).trans List.perm_middle)
  exact ⟨before', path, content, after', value, rfl, fun file hfile => hothers file (hrest.mem_iff.mpr hfile), hset, hvalue⟩

/-- A compliant audit means a timeout that takes effect, whatever the order of the files. -/
def MeansOneTimeout (patterns : Patterns) (strerror : Int → Bytes) (files : List (Bytes × Option Bytes)) : Prop :=
  let status := fun files : List (Bytes × Option Bytes) =>
    (auditShellTimeout patterns strerror (.ok (files.map locationOf))).1
  (status files = .ok .compliant ↔ OneTimeout patterns (fun value => 1 ≤ value ∧ value ≤ 900) files) ∧
    ∀ other, files.Perm other → (status other = .ok .compliant ↔ status files = .ok .compliant)

/-- It does just where the one timeout is not one that is switched off. -/
theorem meansOneTimeout_iff (patterns : Patterns) (strerror : Int → Bytes) (files : List (Bytes × Option Bytes)) :
    MeansOneTimeout patterns strerror files ↔ ¬ OneTimeout patterns (· < 1) files := by
  have hcompliant (files : List (Bytes × Option Bytes)) :
      (auditShellTimeout patterns strerror (.ok (files.map locationOf))).1 = .ok .compliant ↔ OneTimeout patterns (· ≤ 900) files :=
    auditLocations_compliant_iff files []
  rw [MeansOneTimeout]
  dsimp only
  simp only [hcompliant]
  constructor
  · rintro ⟨hmeans, -⟩ hoff
    obtain ⟨before, path, content, after, value, hfiles, hothers, hset, hvalue⟩ := id hoff
    have hsmall : OneTimeout patterns (· ≤ 900) files :=
      ⟨before, path, content, after, value, hfiles, hothers, hset, by omega⟩
    obtain ⟨other, hless, hmore, -⟩ := hoff.both (hmeans.mp hsmall)
    omega
  · intro hon
    refine ⟨⟨?_, ?_⟩, fun other hperm => ⟨fun h => h.perm hperm.symm, fun h => h.perm hperm⟩⟩
    · rintro ⟨before, path, content, after, value, hfiles, hothers, hset, hvalue⟩
      refine ⟨before, path, content, after, value, hfiles, hothers, hset, ?_, hvalue⟩
      by_contra hless
      exact hon ⟨before, path, content, after, value, hfiles, hothers, hset, by omega⟩
    · rintro ⟨before, path, content, after, value, hfiles, hothers, hset, -, hvalue⟩
      exact ⟨before, path, content, after, value, hfiles, hothers, hset, hvalue⟩

/-- The expressions of the audit, for lines that start with an assignment. -/
def atStart : Patterns where
  value line := if ShellTimeout.regexSearch line ShellTimeout.auditShellTimeout.value then
    some ((line.drop 6).takeWhile EcmaScript.isAlnum) else none
  readonly line := ShellTimeout.regexSearch line ShellTimeout.auditShellTimeout.readonly
  exported line := ShellTimeout.regexSearch line ShellTimeout.auditShellTimeout.exported

private def switchedOff : Bytes × Option Bytes :=
  (utf8 "/etc/profile", some (utf8 "TMOUT=0\nreadonly TMOUT\nexport TMOUT\n"))

private theorem assigned_switchedOff : assignedIn atStart switchedOff = [utf8 "0"] := by decide +kernel

/-- A timeout of 0 is compliant, although it is none. -/
theorem zero_timeout_compliant :
    (auditShellTimeout atStart (fun _ => []) (.ok ([switchedOff].map locationOf))).1 = .ok .compliant ∧
      ¬ OneTimeout atStart (fun value => 1 ≤ value ∧ value ≤ 900) [switchedOff] := by
  constructor
  · decide +kernel
  · intro h
    obtain ⟨text, value, htext, hint, hvalue, -⟩ := h.text
    rw [List.flatMap_singleton, assigned_switchedOff] at htext
    cases htext
    have hzero : tryStringToInt (utf8 "0") = .ok 0 := by decide +kernel
    cases hzero.symm.trans hint
    exact absurd hvalue (by decide)

end OneTimeout
end Kompli.ShellTimeoutAudit
