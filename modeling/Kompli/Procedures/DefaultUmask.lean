import Kompli.ComplianceEngine.Indicators
import Kompli.ComplianceEngine.StringTools
import Kompli.Foundation.Captures
import Kompli.Foundation.EcmaScript
import Kompli.Foundation.Lines
import Kompli.Foundation.StateRule

/-! The audit of the umask over all files that set it, and the remediation, which the next audit finds compliant. -/
namespace Kompli.DefaultUmask
open Foundation Streams StringTools
open EcmaScript (isAnyButLineEnd isWord)
open Parson (isSpace)

section Patterns

def lower (c : UInt8) : UInt8 := if 0x41 ≤ c ∧ c ≤ 0x5A then c + 0x20 else c

/-- A text whose letters are of either case. -/
def spelled (text : Bytes) : Regex UInt8 := .seqs (text.map fun c => .char fun d => lower d = c)

def isBlank (c : UInt8) : Bool := c = 0x20 || c = 0x09

def isOctal (c : UInt8) : Bool := 0x30 ≤ c && c ≤ 0x37

def isAccess (c : UInt8) : Bool := lower c ∈ utf8 "rwx"

/-- `[^#\\n\\r]` -/
def isPlain (c : UInt8) : Bool := c ≠ hash && isAnyButLineEnd c

/-- `[0-7]{3,4}` -/
def octalPattern : Regex UInt8 :=
  .seqs [.char isOctal, .char isOctal, .char isOctal, .optional (.char isOctal)]

/-- `[rwx]{0,3}` -/
def accessPattern : Regex UInt8 := .atMost (.char isAccess) 3

/-- `[ \t]*umask[ \t]+` -/
def umaskPattern : Regex UInt8 := .seqs [.star (.char isBlank), spelled (utf8 "umask"), .plus (.char isBlank)]

/-- `([ \t]*#.*)?` -/
def commentPattern : Regex UInt8 :=
  .optional (.seqs [.star (.char isBlank), .char (· = hash), .star (.char isAnyButLineEnd)])

/-- `^[ \t]*umask[ \t]+(([0-7]{3,4})|u=([rwx]{0,3}),g=([rwx]{0,3}),o=([rwx]{0,3}))([ \t]*#.*)?$`, in letters of either
case, without the last group, which nothing asks for. -/
def valuePattern : Capturing UInt8 :=
  .seqs [.start, .ofRegex umaskPattern,
    .group 1 (.alt (.group 2 (.ofRegex octalPattern))
      (.seqs [.ofRegex (spelled (utf8 "u=")), .group 3 (.ofRegex accessPattern), .ofRegex (spelled (utf8 ",g=")),
        .group 4 (.ofRegex accessPattern), .ofRegex (spelled (utf8 ",o=")), .group 5 (.ofRegex accessPattern)])),
    .ofRegex commentPattern, .stop]

/-- `([^#\n\r]+[ \t]+)?` -/
def argumentsPattern : Regex UInt8 := .optional (.seqs [.plus (.char isPlain), .plus (.char isBlank)])

/-- `^[ \t]*session[ \t]+([^#\n\r]+[ \t]+)?pam_umask\.so[ \t]+([^#\n\r]+[ \t]+)?umask=([0-7]{3,4})\b`, in letters of
either case, without the first two groups. -/
def pamPattern : Capturing UInt8 :=
  .seqs [.start, .ofRegex (.star (.char isBlank)), .ofRegex (spelled (utf8 "session")), .ofRegex (.plus (.char isBlank)),
    .ofRegex argumentsPattern, .ofRegex (spelled (utf8 "pam_umask.so")), .ofRegex (.plus (.char isBlank)),
    .ofRegex argumentsPattern, .ofRegex (spelled (utf8 "umask=")), .group 3 (.ofRegex octalPattern), .boundary isWord]

end Patterns

section Audit

/-- `std::stoi` to the base 8, which has to use all of the text. -/
def tryStringToOctal (str : Bytes) : Except Error Int :=
  let text := (cString str).dropWhile isSpace
  let digits := if text.head? = some 0x2D ∨ text.head? = some 0x2B then text.tail else text
  let number := digits.takeWhile isOctal
  let magnitude : Nat := number.foldl (fun n c => 8 * n + (c.toNat - 0x30)) 0
  let value : Int := if text.head? = some 0x2D then -magnitude else magnitude
  if number = [] then .error (invalidInteger str)
  else if value < -2 ^ 31 ∨ 2 ^ 31 ≤ value then .error (integerOutOfRange str)
  else if number ≠ digits ∨ cString str ≠ str then .error (invalidInteger str)
  else .ok value

inductive MatchResult where
  | correct
  | incorrect
  | notFound
  deriving DecidableEq

/-- The bits of `r`, `w` and `x` in a text, where they are in the place of the user, the group or the others. -/
def accessBits (text : Bytes) (shift : UInt32) : UInt32 :=
  let bit (c : UInt8) (value : UInt32) : UInt32 := if c ∈ text then value <<< shift else 0
  bit 0x72 4 ||| bit 0x77 2 ||| bit 0x78 1

def parseSymbolicValue (user group other : Bytes) : UInt32 :=
  ~~~ (accessBits user 6 ||| accessBits group 3 ||| accessBits other 0)

/-- `027` -/
def expected : UInt32 := 23

def judge (mask : UInt32) : MatchResult := if expected &&& mask ≠ expected then .incorrect else .correct

def judgeOctal (text : Bytes) : Except Error MatchResult := (tryStringToOctal text).map fun octal => judge (UInt32.ofInt octal)

/-- One turn of the loop over the lines: what is returned for a line, if there is a match. -/
def matchLine (line : Bytes) : Option (Except Error MatchResult) :=
  match valuePattern.search line with
  | some found =>
    if found.str 2 ≠ [] then some (judgeOctal (found.str 2))
    else some (.ok (judge (parseSymbolicValue (found.str 3) (found.str 4) (found.str 5))))
  | none =>
    match pamPattern.search line with
    | some found => some (judgeOctal (found.str 3))
    | none => none

def multilineMatch (contents : Bytes) : Except Error MatchResult :=
  ((lines contents).findSome? matchLine).getD (.ok .notFound)

abbrev Files := Bytes → Option Bytes

/-- What the system has: the names in `/etc/profile.d/`, in the order of the directory, if it is there. -/
structure Host where
  names : Option (List Bytes)
  specialFilePath : Bytes → Bytes

def standardLocations : List Bytes :=
  [utf8 "/etc/profile", utf8 "/etc/bashrc", utf8 "/etc/bash.bashrc", utf8 "/etc/pam.d/postlogin", utf8 "/etc/login.defs",
    utf8 "/etc/default/login"]

def getUmaskLocations (host : Host) : List Bytes :=
  let profiledPath := host.specialFilePath (utf8 "/etc/profile.d/")
  let separator := if profiledPath.getLast? = some 0x2F then [] else utf8 "/"
  let entries := (host.names.getD []).filter fun name => name ≠ utf8 "." ∧ name ≠ utf8 ".."
  (entries.map fun name => profiledPath ++ separator ++ name).filter (utf8 ".sh" <:+ ·) ++
    standardLocations.map host.specialFilePath

structure Outcome where
  indicators : List Indicator
  result : Except Error Status

def Outcome.report (indicators : List Indicator) (message : Bytes) (status : Status) : Outcome where
  indicators := indicators ++ [{ message, status }]
  result := .ok status

/-- The loop over the locations. -/
def auditLocations (files : Files) (indicators : List Indicator) (found : Bool) : List Bytes → Outcome
  | [] =>
    if found then { indicators, result := .ok .nonCompliant }
    else .report indicators (utf8 "umask is not set") .nonCompliant
  | location :: locations =>
    match files location with
    | none => auditLocations files indicators found locations
    | some contents =>
      match multilineMatch contents with
      | .error e => { indicators, result := .error e }
      | .ok .notFound => auditLocations files indicators found locations
      | .ok .correct => .report indicators (utf8 "umask is correctly set in " ++ location) .compliant
      | .ok .incorrect =>
        auditLocations files (indicators ++ [{ message := utf8 "umask is incorrectly set in " ++ location
                                               status := .nonCompliant }]) true locations

def auditDefaultUmask (host : Host) (files : Files) : Outcome := auditLocations files [] false (getUmaskLocations host)

end Audit

section Remediation

/-- Where the value is in a line, and how long it is. -/
def findValue (line : Bytes) : Option (Nat × Nat) :=
  match valuePattern.search line with
  | some found => (found.found 1).map fun group => (group.1, group.2.length)
  | none =>
    match pamPattern.search line with
    | some found => (found.found 3).map fun group => (group.1, group.2.length)
    | none => none

/-- The loop over the lines of a text, up to the last newline and after it, from the place where they start. -/
def findInLines (lineStart : Nat) : List Bytes → Option (Nat × Nat)
  | [] => none
  | line :: lines =>
    match findValue line with
    | some (start, length) => some (lineStart + start, length)
    | none => findInLines (lineStart + line.length + 1) lines

structure UmaskChange where
  path : Bytes
  original : Bytes
  updated : Bytes

def findUmaskChange (files : Files) : List Bytes → Option UmaskChange
  | [] => none
  | location :: locations =>
    match files location with
    | none => findUmaskChange files locations
    | some original =>
      match findInLines 0 (original.splitOn newline) with
      | some (valueStart, valueLength) =>
        some { path := location, original
               updated := original.take valueStart ++ utf8 "027" ++ original.drop (valueStart + valueLength) }
      | none => findUmaskChange files locations

/-- A line that sets the umask, at the end of the profile. -/
def appendUmask (original : Bytes) : Bytes :=
  (if original ≠ [] ∧ original.getLast? ≠ some newline then original ++ [newline] else original) ++ utf8 "umask 027\n"

/-- How the replacements go. -/
structure Outcomes where
  replace : Option Error
  rollback : Option Error

structure Run where
  files : Files
  indicators : List Indicator := []

abbrev UmaskM := EStateM Error Run

def audit (host : Host) : UmaskM (Except Error Status) := do
  let s ← get
  let outcome := auditDefaultUmask host s.files
  modify fun s => { s with indicators := s.indicators ++ outcome.indicators }
  pure outcome.result

/-- An atomic replacement, which leaves the file as it is when it fails. -/
def replaceFileContentsAtomic (failure : Option Error) (path contents : Bytes) : UmaskM (Option Error) := do
  if failure.isNone then modify fun s => { s with files := Function.update s.files path (some contents) }
  pure failure

def ofExcept {α : Type} : Except Error α → UmaskM α
  | .ok a => pure a
  | .error e => throw e

/-- The change of a setting, or of the profile where there is none. -/
def selectChange (host : Host) (files : Files) : Except Error UmaskChange :=
  match findUmaskChange files (getUmaskLocations host) with
  | some change => .ok change
  | none =>
    let profile := host.specialFilePath (utf8 "/etc/profile")
    match files profile with
    | none => .error { message := utf8 "umask is not set and no writable profile is available", code := ENOENT }
    | some original => .ok { path := profile, original, updated := appendUmask original }

def remediateDefaultUmask (host : Host) (outcomes : Outcomes) : UmaskM Status := do
  let result ← audit host
  if result.toOption = none ∨ result.toOption = some .compliant then ofExcept result
  else do
    let s ← get
    let selected ← ofExcept (selectChange host s.files)
    match ← replaceFileContentsAtomic outcomes.replace selected.path selected.updated with
    | some e => throw e
    | none => do
      let postAudit ← audit host
      if postAudit.toOption = some .compliant then ofExcept postAudit
      else
        match ← replaceFileContentsAtomic outcomes.rollback selected.path selected.original with
        | some e => throw { message := utf8 "Default umask validation failed; rollback failed: " ++ e.message, code := e.code }
        | none => ofExcept postAudit

end Remediation

section Spelling

variable {line s t : Bytes}

def Blanks (s : Bytes) : Prop := ∀ c ∈ s, isBlank c = true

/-- A text but for the case of its letters. -/
def Spells (text s : Bytes) : Prop := s.map lower = text

theorem matches_spelled {text before rest : Bytes} : (spelled text).Matches before s rest ↔ Spells text s := by
  unfold spelled Spells
  induction text generalizing before s with
  | nil =>
    rw [List.map_nil, Regex.matches_seqs_nil]
    exact List.map_eq_nil_iff.symm
  | cons c text ih =>
    rw [List.map_cons, Regex.matches_seqs_cons]
    constructor
    · rintro ⟨first, more, rfl, ⟨d, rfl, hd⟩, hmore⟩
      rw [decide_eq_true_eq] at hd
      rw [List.singleton_append, List.map_cons, hd, ih.mp hmore]
    · intro h
      cases s with
      | nil => cases h
      | cons d s =>
        rw [List.map_cons, List.cons.injEq] at h
        exact ⟨[d], s, rfl, ⟨d, rfl, decide_eq_true h.1⟩, ih.mpr h.2⟩

theorem Spells.length {text : Bytes} (h : Spells text s) : s.length = text.length := by
  rw [← h, List.length_map]

/-- The first letter of what is spelled is not a blank. -/
theorem Spells.endsSpan {c : UInt8} {text : Bytes} (h : Spells (c :: text) s) (hlower : lower 0x20 ≠ c)
    (htab : lower 0x09 ≠ c) : EndsSpan isBlank (s ++ t) := by
  cases s with
  | nil => cases h
  | cons d s =>
    rw [Spells, List.map_cons, List.cons.injEq] at h
    rw [List.cons_append, endsSpan_cons, isBlank, Bool.or_eq_false_iff, decide_eq_false_iff_not, decide_eq_false_iff_not]
    constructor
    · rintro rfl
      exact hlower h.1
    · rintro rfl
      exact htab h.1

end Spelling

section ValueLines

open Capturing (Way)

variable {line lead value trail before rest s : Bytes} {w v : Way UInt8}

def UmaskLead (s : Bytes) : Prop :=
  ∃ blanks word more, s = blanks ++ (word ++ more) ∧ Blanks blanks ∧ Spells (utf8 "umask") word ∧ more ≠ [] ∧ Blanks more

def Octal (s : Bytes) : Prop := (s.length = 3 ∨ s.length = 4) ∧ ∀ c ∈ s, isOctal c = true

def Access (s : Bytes) : Prop := s.length ≤ 3 ∧ ∀ c ∈ s, isAccess c = true

def Symbolic (s : Bytes) : Prop :=
  ∃ u user g group o other, s = u ++ (user ++ (g ++ (group ++ (o ++ other)))) ∧ Spells (utf8 "u=") u ∧ Access user ∧
    Spells (utf8 ",g=") g ∧ Access group ∧ Spells (utf8 ",o=") o ∧ Access other

def Comment (s : Bytes) : Prop :=
  s = [] ∨ ∃ blanks text, s = blanks ++ hash :: text ∧ Blanks blanks ∧ ∀ c ∈ text, isAnyButLineEnd c = true

/-- A line that sets the umask, with what is before and after the value. -/
structure ValueLine (line lead value trail : Bytes) : Prop where
  line : line = lead ++ (value ++ trail)
  lead : UmaskLead lead
  value : Octal value ∨ Symbolic value
  trail : Comment trail

theorem matches_umaskPattern : umaskPattern.Matches before s rest ↔ UmaskLead s := by
  constructor
  · intro h
    obtain ⟨blanks, t, rfl, hblanks, word, t, rfl, hword, more, t, rfl, hmore, rfl⟩ := h
    obtain ⟨hne, hmore⟩ := Regex.matches_plus_char.mp hmore
    exact ⟨blanks, word, more, by simp, Regex.matches_star_char.mp hblanks, matches_spelled.mp hword, hne, hmore⟩
  · rintro ⟨blanks, word, more, rfl, hblanks, hword, hne, hmore⟩
    exact ⟨blanks, _, rfl, Regex.matches_star_char.mpr hblanks, word, _, rfl, matches_spelled.mpr hword, more, [], by simp,
      Regex.matches_plus_char.mpr ⟨hne, hmore⟩, rfl⟩

theorem matches_octalPattern : octalPattern.Matches before s rest ↔ Octal s := by
  constructor
  · intro h
    obtain ⟨-, t, rfl, ⟨a, rfl, ha⟩, -, t, rfl, ⟨b, rfl, hb⟩, -, t, rfl, ⟨c, rfl, hc⟩, last, t, rfl, hlast, rfl⟩ := h
    rcases hlast with ⟨d, rfl, hd⟩ | rfl
    · exact ⟨.inr rfl, by simp [ha, hb, hc, hd]⟩
    · exact ⟨.inl rfl, by simp [ha, hb, hc]⟩
  · rintro ⟨hlength, hall⟩
    rcases s with _ | ⟨a, _ | ⟨b, _ | ⟨c, _ | ⟨d, _ | ⟨e, s⟩⟩⟩⟩⟩
    · simp at hlength
    · simp at hlength
    · simp at hlength
    · simp only [List.mem_cons, List.not_mem_nil, or_false, forall_eq_or_imp, forall_eq] at hall
      obtain ⟨ha, hb, hc⟩ := hall
      exact ⟨[a], _, rfl, ⟨a, rfl, ha⟩, [b], _, rfl, ⟨b, rfl, hb⟩, [c], [], rfl, ⟨c, rfl, hc⟩, [], [], rfl, .inr rfl, rfl⟩
    · simp only [List.mem_cons, List.not_mem_nil, or_false, forall_eq_or_imp, forall_eq] at hall
      obtain ⟨ha, hb, hc, hd⟩ := hall
      exact ⟨[a], _, rfl, ⟨a, rfl, ha⟩, [b], _, rfl, ⟨b, rfl, hb⟩, [c], [d], rfl, ⟨c, rfl, hc⟩, [d], [], rfl,
        .inl ⟨d, rfl, hd⟩, rfl⟩
    · simp at hlength

theorem matches_accessPattern : accessPattern.Matches before s rest ↔ Access s := Regex.matches_atMost_char

theorem matches_commentPattern : commentPattern.Matches before s rest ↔ Comment s := by
  constructor
  · rintro (⟨blanks, t, rfl, hblanks, sign, t, rfl, ⟨c, rfl, hc⟩, text, t, rfl, htext, rfl⟩ | rfl)
    · rw [decide_eq_true_eq] at hc
      subst hc
      exact .inr ⟨blanks, text, by simp, Regex.matches_star_char.mp hblanks, Regex.matches_star_char.mp htext⟩
    · exact .inl rfl
  · rintro (rfl | ⟨blanks, text, rfl, hblanks, htext⟩)
    · exact .inr rfl
    · exact .inl ⟨blanks, _, rfl, Regex.matches_star_char.mpr hblanks, [hash], text, rfl, ⟨hash, rfl, decide_eq_true rfl⟩, text, [],
        by simp, Regex.matches_star_char.mpr htext, rfl⟩

def symbolicGroup : Capturing UInt8 :=
  .seqs [.ofRegex (spelled (utf8 "u=")), .group 3 (.ofRegex accessPattern), .ofRegex (spelled (utf8 ",g=")),
    .group 4 (.ofRegex accessPattern), .ofRegex (spelled (utf8 ",o=")), .group 5 (.ofRegex accessPattern)]

/-- The value, with its groups. -/
def valueGroup : Capturing UInt8 := .alt (.group 2 (.ofRegex octalPattern)) symbolicGroup

theorem matches_symbolicGroup : symbolicGroup.erase.Matches before s rest ↔ Symbolic s := by
  simp only [symbolicGroup, Capturing.seqs, Capturing.erase, Capturing.erase_ofRegex]
  constructor
  · intro h
    obtain ⟨u, t, rfl, hu, user, t, rfl, huser, g, t, rfl, hg, group, t, rfl, hgroup, o, t, rfl, ho, other, t, rfl, hother, rfl⟩ := h
    exact ⟨u, user, g, group, o, other, by simp, matches_spelled.mp hu, matches_accessPattern.mp huser, matches_spelled.mp hg,
      matches_accessPattern.mp hgroup, matches_spelled.mp ho, matches_accessPattern.mp hother⟩
  · rintro ⟨u, user, g, group, o, other, rfl, hu, huser, hg, hgroup, ho, hother⟩
    exact ⟨u, _, rfl, matches_spelled.mpr hu, user, _, rfl, matches_accessPattern.mpr huser, g, _, rfl, matches_spelled.mpr hg,
      group, _, rfl, matches_accessPattern.mpr hgroup, o, _, rfl, matches_spelled.mpr ho, other, [], by simp,
      matches_accessPattern.mpr hother, rfl⟩

theorem matches_valueGroup : valueGroup.erase.Matches before s rest ↔ Octal s ∨ Symbolic s := by
  rw [valueGroup, Capturing.erase, Capturing.erase, Capturing.erase_ofRegex]
  exact or_congr matches_octalPattern matches_symbolicGroup

/-- What is octal is not symbolic. -/
theorem Octal.not_symbolic (h : Octal s) : ¬ Symbolic s := by
  rintro ⟨u, user, g, group, o, other, rfl, hu, -⟩
  cases u with
  | nil => cases hu
  | cons c u =>
    have hc : isOctal c = true := h.2 c (by simp)
    rw [Spells, List.map_cons] at hu
    have hletter : lower c = 0x75 := (List.cons.inj hu).1
    rw [isOctal, Bool.and_eq_true, decide_eq_true_eq, decide_eq_true_eq] at hc
    have hsame : lower c = c := by
      rw [lower, if_neg]
      rintro ⟨hlow, -⟩
      exact absurd (UInt8.le_trans hlow hc.2) (by decide)
    rw [hsame] at hletter
    subst hletter
    exact absurd hc.2 (by decide)

/-- The first group is the value, and so is the second where it is octal. -/
theorem mem_ways_valueGroup (h : v ∈ valueGroup.ways w) :
    ∃ s, w.rest = s ++ v.rest ∧ v.before = w.before ++ s ∧ (Octal s ∨ Symbolic s) ∧ (Octal s → v.str 2 = s) := by
  obtain ⟨s, hs⟩ := Capturing.reads_of_mem h
  have hvalue := matches_valueGroup.mp hs.erased
  refine ⟨s, hs.takes.2, hs.takes.1, hvalue, fun hoctal => ?_⟩
  rcases List.mem_append.mp h with h | h
  · obtain ⟨s', rest', hrest, -, rfl⟩ := (Capturing.mem_ways_group (Capturing.groups_ofRegex _)).mp h
    obtain rfl : s' = s := List.append_cancel_left hs.takes.1
    simp [Way.str, Way.nextGroup]
  · obtain ⟨s', hs'⟩ := Capturing.reads_of_mem h
    obtain rfl : s = s' := List.append_cancel_left (hs.takes.1.symm.trans hs'.takes.1)
    exact absurd (matches_symbolicGroup.mp hs'.erased) hoctal.not_symbolic

/-- The way to match a line is through its value. -/
theorem valueLine_of_search (h : valuePattern.search line = some w) :
    ∃ lead value trail, ValueLine line lead value trail ∧ w.found 1 = some (lead.length, value) ∧
      (Octal value → w.str 2 = value) := by
  have hsearch : valuePattern.search line = ((Capturing.seqs [.ofRegex umaskPattern, .group 1 valueGroup,
      .ofRegex commentPattern, .stop]).ways { before := [], rest := line }).head? := Capturing.search_start line
  rw [hsearch] at h
  have hmem := List.mem_of_head? h
  obtain ⟨lead, t, htext, hlead, hmem⟩ := (Capturing.mem_ways_seq (Capturing.groups_ofRegex _)).mp hmem
  rw [Capturing.erase_ofRegex] at hlead
  obtain ⟨u, hu, hmem⟩ := List.mem_flatMap.mp hmem
  obtain ⟨u, hvalueGroup, rfl⟩ := List.mem_map.mp hu
  obtain ⟨value, hrest, hbefore, hvalue, hoctal⟩ := mem_ways_valueGroup hvalueGroup
  obtain ⟨trail, t', htrail, hcomment, hmem⟩ := (Capturing.mem_ways_seq (Capturing.groups_ofRegex _)).mp hmem
  obtain ⟨last, t'', hlast, hstop, hmem⟩ := (Capturing.mem_ways_seq (r := .stop) rfl).mp hmem
  obtain rfl := Capturing.mem_ways_empty.mp hmem
  rw [Capturing.erase_ofRegex] at hcomment
  obtain ⟨rfl, rfl⟩ : last = [] ∧ t'' = [] := hstop
  have htrail : u.rest = trail ++ t' := htrail
  have hrest : t = value ++ u.rest := hrest
  obtain rfl : t' = [] := hlast
  refine ⟨lead, value, trail, ⟨?_, matches_umaskPattern.mp hlead, hvalue, matches_commentPattern.mp hcomment⟩, ?_, ?_⟩
  · rw [show line = lead ++ t from htext, hrest, htrail, List.append_nil]
  · have hdrop : u.before.drop ([] ++ lead).length = value := by
      rw [show u.before = [] ++ lead ++ value from hbefore, List.drop_left]
    exact congrArg (fun text => some (lead.length, text)) hdrop
  · exact fun h => hoctal h

theorem ValueLine.search (h : ValueLine line lead value trail) : (valuePattern.search line).isSome := by
  have hmatches : (Capturing.seqs [.ofRegex umaskPattern, .group 1 valueGroup, .ofRegex commentPattern, .stop]).erase.Matches
      [] line [] := by
    refine ⟨lead, _, h.line, ?_, value, trail, rfl, matches_valueGroup.mpr h.value, trail, [], (List.append_nil _).symm, ?_, [],
      [], rfl, ⟨rfl, rfl⟩, rfl⟩
    · rw [Capturing.erase_ofRegex]
      exact matches_umaskPattern.mpr h.lead
    · rw [Capturing.erase_ofRegex]
      exact matches_commentPattern.mpr h.trail
  obtain ⟨w, hw, -⟩ := Capturing.exists_mem (w := { before := [], rest := line }) (List.append_nil line).symm hmatches
  have hsearch : valuePattern.search line = ((Capturing.seqs [.ofRegex umaskPattern, .group 1 valueGroup,
      .ofRegex commentPattern, .stop]).ways { before := [], rest := line }).head? := Capturing.search_start line
  rw [hsearch]
  cases hways : (Capturing.seqs [.ofRegex umaskPattern, .group 1 valueGroup, .ofRegex commentPattern, .stop]).ways
      { before := [], rest := line } with
  | nil =>
    rw [hways] at hw
    cases hw
  | cons => rfl

theorem isBlank_of_endsSpan_umask {word s : Bytes} (h : Spells (utf8 "umask") word) : EndsSpan isBlank (word ++ s) :=
  @Spells.endsSpan word s 0x75 (utf8 "mask") h (by decide) (by decide)

/-- What is before a value is a lead in one way. -/
theorem UmaskLead.unique {lead' rest' : Bytes} (h : UmaskLead lead) (h' : UmaskLead lead') (hrest : EndsSpan isBlank rest)
    (hrest' : EndsSpan isBlank rest') (heq : lead ++ rest = lead' ++ rest') : lead = lead' ∧ rest = rest' := by
  obtain ⟨blanks, word, more, rfl, hblanks, hword, -, hmore⟩ := h
  obtain ⟨blanks', word', more', rfl, hblanks', hword', -, hmore'⟩ := h'
  simp only [List.append_assoc] at heq
  obtain ⟨rfl, hcut⟩ := span_unique hblanks (isBlank_of_endsSpan_umask hword) hblanks' (isBlank_of_endsSpan_umask hword') heq
  obtain ⟨rfl, hcut'⟩ := List.append_inj hcut (hword.length.trans hword'.length.symm)
  obtain ⟨rfl, hlast⟩ := span_unique hmore hrest hmore' hrest' hcut'
  exact ⟨rfl, hlast⟩

theorem octal_newValue : Octal (utf8 "027") := ⟨.inl (by decide +kernel), by decide +kernel⟩

theorem isBlank_of_isOctal {c : UInt8} (h : isOctal c = true) : isBlank c = false := by
  rw [isOctal, Bool.and_eq_true, decide_eq_true_eq, decide_eq_true_eq] at h
  rw [isBlank, Bool.or_eq_false_iff, decide_eq_false_iff_not, decide_eq_false_iff_not]
  constructor
  · rintro rfl
    exact absurd h.1 (by decide)
  · rintro rfl
    exact absurd h.1 (by decide)

theorem Octal.endsSpan (h : Octal s) : EndsSpan isBlank (s ++ rest) := by
  cases s with
  | nil => simp [Octal] at h
  | cons c s => exact endsSpan_cons.mpr (isBlank_of_isOctal (h.2 c List.mem_cons_self))

theorem Symbolic.endsSpan (h : Symbolic s) : EndsSpan isBlank (s ++ rest) := by
  obtain ⟨u, user, g, group, o, other, rfl, hu, -⟩ := h
  rw [List.append_assoc]
  exact @Spells.endsSpan u _ 0x75 (utf8 "=") hu (by decide) (by decide)

theorem Comment.endsSpan (h : Comment s) : EndsSpan isOctal s := by
  rcases h with rfl | ⟨blanks, text, rfl, hblanks, -⟩
  · exact endsSpan_nil
  · cases blanks with
    | nil => exact endsSpan_cons.mpr (by decide)
    | cons c blanks =>
      have hblank := hblanks c List.mem_cons_self
      rw [List.cons_append, endsSpan_cons, Bool.eq_false_iff]
      intro hoctal
      rw [isBlank_of_isOctal hoctal] at hblank
      cases hblank

/-- With the new value a line sets the umask to it. -/
theorem matchLine_newValue (h : ValueLine line lead value trail) :
    matchLine (lead ++ (utf8 "027" ++ trail)) = some (.ok .correct) := by
  have hnew : ValueLine (lead ++ (utf8 "027" ++ trail)) lead (utf8 "027") trail := ⟨rfl, h.lead, .inl octal_newValue, h.trail⟩
  obtain ⟨w, hw⟩ := Option.isSome_iff_exists.mp hnew.search
  obtain ⟨lead', value', trail', hline, -, hstr⟩ := valueLine_of_search hw
  have hends : EndsSpan isBlank (value' ++ trail') := by
    rcases hline.value with hvalue | hvalue
    · exact hvalue.endsSpan
    · exact hvalue.endsSpan
  obtain ⟨rfl, hcut⟩ := hnew.lead.unique hline.lead octal_newValue.endsSpan hends hline.line
  have hoctal : Octal value' := by
    rcases hline.value with hvalue | ⟨u, user, g, group, o, other, rfl, hu, -⟩
    · exact hvalue
    · cases u with
      | nil => cases hu
      | cons c u =>
        rw [Spells, List.map_cons] at hu
        have hletter : lower c = 0x75 := (List.cons.inj hu).1
        have hzero : (0x30 : UInt8) = c := (List.cons.inj hcut).1
        rw [← hzero] at hletter
        exact absurd hletter (by decide)
  obtain ⟨hvalue, -⟩ := span_unique octal_newValue.2 h.trail.endsSpan hoctal.2 hline.trail.endsSpan hcut
  have hfound : w.str 2 = utf8 "027" := (hstr hoctal).trans hvalue.symm
  unfold matchLine
  rw [hw]
  dsimp only
  rw [hfound, if_pos (by decide +kernel)]
  decide +kernel

end ValueLines

section PamLines

open Capturing (Way)

variable {line lead key value trail s t : Bytes} {w v z : Way UInt8}

theorem Spells.forall {p : UInt8 → Bool} {text : Bytes} (hp : ∀ c, p (lower c) = true → p c = true)
    (htext : ∀ c ∈ text, p c = true) (h : Spells text s) : ∀ c ∈ s, p c = true := by
  intro c hc
  refine hp c (htext _ ?_)
  rw [← h]
  exact List.mem_map_of_mem hc

/-- What is no letter is not changed. -/
theorem lower_of_lt {c : UInt8} (h : c < 0x41) : lower c = c := if_neg fun hc => absurd (UInt8.lt_of_lt_of_le h hc.1) (UInt8.lt_irrefl c)

theorem isPlain_of_lower {c : UInt8} (h : isPlain (lower c) = true) : isPlain c = true := by
  by_cases hc : c < 0x41
  · rwa [lower_of_lt hc] at h
  · have hne {d : UInt8} (hd : d < 0x41) : c ≠ d := by
      rintro rfl
      exact hc hd
    simp [isPlain, isAnyButLineEnd, hne (d := hash) (by decide), hne (d := 0x0A) (by decide), hne (d := 0x0D) (by decide)]

theorem not_isBlank_of_lower {c : UInt8} (h : (!isBlank (lower c)) = true) : (!isBlank c) = true := by
  by_cases hc : c < 0x41
  · rwa [lower_of_lt hc] at h
  · have hne {d : UInt8} (hd : d < 0x41) : c ≠ d := by
      rintro rfl
      exact hc hd
    simp [isBlank, hne (d := 0x20) (by decide), hne (d := 0x09) (by decide)]

theorem isPlain_of_isBlank {c : UInt8} (h : isBlank c = true) : isPlain c = true := by
  rw [isBlank, Bool.or_eq_true, decide_eq_true_eq, decide_eq_true_eq] at h
  rcases h with rfl | rfl
  · decide
  · decide

theorem isPlain_of_isOctal {c : UInt8} (h : isOctal c = true) : isPlain c = true := by
  rw [isOctal, Bool.and_eq_true, decide_eq_true_eq, decide_eq_true_eq] at h
  have hne {d : UInt8} (hd : d < 0x30) : c ≠ d := by
    rintro rfl
    exact absurd (UInt8.lt_of_lt_of_le hd h.1) (UInt8.lt_irrefl c)
  simp [isPlain, isAnyButLineEnd, hne (d := hash) (by decide), hne (d := 0x0A) (by decide), hne (d := 0x0D) (by decide)]

def Arguments (s : Bytes) : Prop :=
  s = [] ∨ ∃ text blanks, s = text ++ blanks ∧ (text ≠ [] ∧ ∀ c ∈ text, isPlain c = true) ∧ blanks ≠ [] ∧ Blanks blanks

theorem matches_argumentsPattern {before rest : Bytes} : argumentsPattern.Matches before s rest ↔ Arguments s := by
  constructor
  · rintro (⟨text, t, rfl, htext, blanks, t, rfl, hblanks, rfl⟩ | rfl)
    · exact .inr ⟨text, blanks, by simp, Regex.matches_plus_char.mp htext, Regex.matches_plus_char.mp hblanks⟩
    · exact .inl rfl
  · rintro (rfl | ⟨text, blanks, rfl, htext, hblanks⟩)
    · exact .inr rfl
    · exact .inl ⟨text, blanks, rfl, Regex.matches_plus_char.mpr htext, blanks, [], by simp, Regex.matches_plus_char.mpr hblanks, rfl⟩

/-- With more text before its last blank, an argument is an argument. -/
theorem Arguments.extend {b : UInt8} (h : Arguments s) (hne : t ≠ []) (ht : ∀ c ∈ t, isPlain c = true) (hb : isBlank b = true) :
    Arguments (s ++ (t ++ [b])) := by
  have hblank : ([b] : Bytes) ≠ [] ∧ Blanks [b] := by simpa [Blanks] using hb
  rcases h with rfl | ⟨text, blanks, rfl, ⟨-, htext⟩, -, hblanks⟩
  · exact .inr ⟨t, [b], rfl, ⟨hne, ht⟩, hblank⟩
  · refine .inr ⟨text ++ blanks ++ t, [b], by simp, ⟨by simp [hne], ?_⟩, hblank⟩
    intro c hc
    rcases List.mem_append.mp hc with hc | hc
    · rcases List.mem_append.mp hc with hc | hc
      · exact htext c hc
      · exact isPlain_of_isBlank (hblanks c hc)
    · exact ht c hc

/-- What is before the second arguments. -/
def PamStart (s : Bytes) : Prop :=
  ∃ blanks session more first module after, s = blanks ++ (session ++ (more ++ (first ++ (module ++ after)))) ∧ Blanks blanks ∧
    Spells (utf8 "session") session ∧ (more ≠ [] ∧ Blanks more) ∧ Arguments first ∧ Spells (utf8 "pam_umask.so") module ∧
    after ≠ [] ∧ Blanks after

def PamLead (s : Bytes) : Prop := ∃ start arguments, s = start ++ arguments ∧ PamStart start ∧ Arguments arguments

/-- A line that gives the umask to the module, with what is before and after the value. -/
structure PamLine (line lead key value trail : Bytes) : Prop where
  line : line = lead ++ (key ++ (value ++ trail))
  lead : PamLead lead
  key : Spells (utf8 "umask=") key
  value : Octal value
  trail : EndsSpan isWord trail

theorem Blanks.plain (h : Blanks s) : ∀ c ∈ s, isPlain c = true := fun c hc => isPlain_of_isBlank (h c hc)

theorem Arguments.plain (h : Arguments s) : ∀ c ∈ s, isPlain c = true := by
  rcases h with rfl | ⟨text, blanks, rfl, ⟨-, htext⟩, -, hblanks⟩
  · simp
  · intro c hc
    exact (List.mem_append.mp hc).elim (htext c) (hblanks.plain c)

theorem PamStart.plain (h : PamStart s) : ∀ c ∈ s, isPlain c = true := by
  obtain ⟨blanks, session, more, first, module, after, rfl, hblanks, hsession, ⟨-, hmore⟩, hfirst, hmodule, -, hafter⟩ := h
  have hsession := hsession.forall (fun _ => isPlain_of_lower) (by decide +kernel)
  have hmodule := hmodule.forall (fun _ => isPlain_of_lower) (by decide +kernel)
  simp only [List.forall_mem_append]
  exact ⟨hblanks.plain, hsession, hmore.plain, hfirst.plain, hmodule, hafter.plain⟩

theorem PamLead.plain (h : PamLead s) : ∀ c ∈ s, isPlain c = true := by
  obtain ⟨start, arguments, rfl, hstart, harguments⟩ := h
  exact List.forall_mem_append.mpr ⟨hstart.plain, harguments.plain⟩

theorem exists_last_blank (hne : s ≠ []) (h : Blanks s) : ∃ b, s.getLast? = some b ∧ isBlank b = true :=
  ⟨s.getLast hne, List.getLast?_eq_some_getLast hne, h _ (List.getLast_mem hne)⟩

theorem PamLead.last (h : PamLead s) : ∃ b, s.getLast? = some b ∧ isBlank b = true := by
  obtain ⟨start, arguments, rfl, hstart, harguments⟩ := h
  rcases harguments with rfl | ⟨text, blanks, rfl, -, hne, hblanks⟩
  · obtain ⟨blanks, session, more, first, module, after, rfl, -, -, -, -, -, hne, hafter⟩ := hstart
    obtain ⟨b, hb, hblank⟩ := exists_last_blank hne hafter
    exact ⟨b, by simp [List.getLast?_append, hb], hblank⟩
  · obtain ⟨b, hb, hblank⟩ := exists_last_blank hne hblanks
    exact ⟨b, by simp [List.getLast?_append, hb], hblank⟩

theorem PamLead.extend {b : UInt8} (h : PamLead s) (hne : t ≠ []) (ht : ∀ c ∈ t, isPlain c = true) (hb : isBlank b = true) :
    PamLead (s ++ (t ++ [b])) := by
  obtain ⟨start, arguments, rfl, hstart, harguments⟩ := h
  exact ⟨start, _, List.append_assoc _ _ _, hstart, harguments.extend hne ht hb⟩

end PamLines

section Furthest

open Capturing (Way Leads)

variable {line lead key value trail s t : Bytes} {w v z : Way UInt8}

/-- What follows the second arguments. -/
def settingGroup : Capturing UInt8 :=
  .seqs [.ofRegex (spelled (utf8 "umask=")), .group 3 (.ofRegex octalPattern), .boundary isWord]

/-- Where the value starts. -/
def place (v : Way UInt8) : Nat := ((v.found 3).map Prod.fst).getD 0

theorem isWord_of_isOctal {c : UInt8} (h : isOctal c = true) : isWord c = true := by
  rw [isOctal, Bool.and_eq_true, decide_eq_true_eq, decide_eq_true_eq] at h
  have hdigit : c ≤ 0x39 := UInt8.le_trans h.2 (by decide)
  simp [isWord, EcmaScript.isAlnum, h.1, hdigit]

/-- After an octal value there is a boundary where no letter or digit follows. -/
theorem atBoundary_octal {before : Bytes} (h : Octal value) :
    Regex.atBoundary isWord (before ++ value) t = true ↔ EndsSpan isWord t := by
  have hne : value ≠ [] := by
    rintro rfl
    simp [Octal] at h
  have hlast : (before ++ value).getLast?.any isWord = true := by
    rw [List.getLast?_append_of_ne_nil _ hne, List.getLast?_eq_some_getLast hne]
    exact isWord_of_isOctal (h.2 _ (List.getLast_mem hne))
  rw [Regex.atBoundary, hlast, EndsSpan]
  cases t.head? with
  | none => simp
  | some c => simp

theorem mem_ways_settingGroup : v ∈ settingGroup.ways w ↔ ∃ key value trail, w.rest = key ++ (value ++ trail) ∧
    Spells (utf8 "umask=") key ∧ Octal value ∧ EndsSpan isWord trail ∧
      v = (w.next key (value ++ trail)).nextGroup 3 value trail := by
  constructor
  · intro h
    obtain ⟨key, rest, hrest, hkey, h⟩ := (Capturing.mem_ways_seq (Capturing.groups_ofRegex _)).mp h
    obtain ⟨value, trail, hvalue, hoctal, h⟩ := (Capturing.mem_ways_seq_group (Capturing.groups_ofRegex _)).mp h
    obtain ⟨last, trail', hlast, ⟨rfl, hboundary⟩, h⟩ := (Capturing.mem_ways_seq (r := .boundary isWord) rfl).mp h
    obtain rfl := Capturing.mem_ways_empty.mp h
    rw [Capturing.erase_ofRegex] at hkey hoctal
    obtain rfl : trail = trail' := hlast
    obtain rfl : rest = value ++ trail := hvalue
    have hoctal := matches_octalPattern.mp hoctal
    refine ⟨key, value, trail, hrest, matches_spelled.mp hkey, hoctal, (atBoundary_octal hoctal).mp hboundary, ?_⟩
    ext1
    · exact List.append_nil _
    · rfl
    · rfl
  · rintro ⟨key, value, trail, hrest, hkey, hoctal, htrail, rfl⟩
    refine (Capturing.mem_ways_seq (Capturing.groups_ofRegex _)).mpr ⟨key, _, hrest, ?_, ?_⟩
    · rw [Capturing.erase_ofRegex]
      exact matches_spelled.mpr hkey
    refine (Capturing.mem_ways_seq_group (Capturing.groups_ofRegex _)).mpr ⟨value, trail, rfl, ?_, ?_⟩
    · rw [Capturing.erase_ofRegex]
      exact matches_octalPattern.mpr hoctal
    refine (Capturing.mem_ways_seq (r := .boundary isWord) rfl).mpr
      ⟨[], trail, rfl, ⟨rfl, (atBoundary_octal hoctal).mpr htrail⟩, Capturing.mem_ways_empty.mpr ?_⟩
    ext1
    · exact (List.append_nil _).symm
    · rfl
    · rfl

theorem place_of_mem (h : v ∈ settingGroup.ways w) : place v = w.before.length + 6 ∧ EndsSpan isBlank w.rest := by
  obtain ⟨key, value, trail, hrest, hkey, -, -, rfl⟩ := mem_ways_settingGroup.mp h
  have hlength : key.length = 6 := hkey.length.trans (by decide +kernel)
  constructor
  · change (w.before ++ key).length = _
    rw [List.length_append, hlength]
  · rw [hrest]
    exact @Spells.endsSpan key _ 0x75 (utf8 "mask=") hkey (by decide) (by decide)

/-- Blanks from a later place, up to their end, do not end earlier. -/
theorem reach_le {text blanks rest text' blanks' rest' : Bytes} (h : text ++ (blanks ++ rest) = text' ++ (blanks' ++ rest'))
    (hrest : EndsSpan isBlank rest) (hblanks : Blanks blanks') (hle : text'.length ≤ text.length) :
    (text' ++ blanks').length ≤ (text ++ blanks).length := by
  obtain ⟨more, rfl⟩ : text' <+: text :=
    List.prefix_of_prefix_length_le ⟨_, h.symm⟩ (List.prefix_append _ _) hle
  rw [List.append_assoc, List.append_cancel_left_eq, ← List.append_assoc] at h
  rw [List.append_assoc, List.length_append, List.length_append]
  refine Nat.add_le_add_left ?_ _
  rcases List.append_eq_append_iff.mp h with ⟨further, rfl, hcut⟩ | ⟨further, hfurther, -⟩
  · cases further with
    | nil => simp
    | cons c further =>
      rw [hcut, List.cons_append, endsSpan_cons, hblanks c (by simp)] at hrest
      cases hrest
  · rw [hfurther, List.length_append]
    exact Nat.le_add_right _ _

/-- The arguments that go further are tried first. -/
theorem descending_arguments (z : Way UInt8) : ((Capturing.ofRegex argumentsPattern).ways z).Pairwise fun u v =>
    EndsSpan isBlank u.rest → EndsSpan isBlank v.rest → v.before.length ≤ u.before.length := by
  change (((Capturing.ofRegex (.plus (.char isPlain))).ways z).flatMap
    (Capturing.seq (.ofRegex (.plus (.char isBlank))) .empty).ways ++ [z]).Pairwise _
  have hspec {x u : Way UInt8} (hx : x ∈ (Capturing.ofRegex (.plus (.char isPlain))).ways z)
      (hu : u ∈ (Capturing.seq (.ofRegex (.plus (.char isBlank))) .empty).ways x) :
      ∃ text blanks, z.rest = text ++ (blanks ++ u.rest) ∧ Blanks blanks ∧ x.before = z.before ++ text ∧
        u.before = z.before ++ (text ++ blanks) := by
    obtain ⟨text, rest, hrest, -, rfl⟩ := (Capturing.mem_ways (Capturing.groups_ofRegex _)).mp hx
    obtain ⟨blanks, last, hlast, hblanks, hu⟩ := (Capturing.mem_ways_seq (Capturing.groups_ofRegex _)).mp hu
    obtain rfl := Capturing.mem_ways_empty.mp hu
    rw [Capturing.erase_ofRegex] at hblanks
    obtain rfl : rest = blanks ++ last := hlast
    exact ⟨text, blanks, hrest, (Regex.matches_plus_char.mp hblanks).2, rfl, List.append_assoc _ _ _⟩
  rw [List.pairwise_append, List.pairwise_flatMap]
  refine ⟨⟨?_, ?_⟩, List.pairwise_singleton _ _, ?_⟩
  · intro x hx
    refine List.pairwise_of_forall_mem_list fun u hu v hv hends hends' => ?_
    obtain ⟨text, blanks, hrest, hblanks, hxb, hub⟩ := hspec hx hu
    obtain ⟨text', blanks', hrest', hblanks', hxb', hvb⟩ := hspec hx hv
    obtain rfl : text = text' := List.append_cancel_left (hxb.symm.trans hxb')
    rw [hub, hvb, List.length_append, @List.length_append _ z.before]
    exact Nat.add_le_add_left (reach_le (hrest.symm.trans hrest') hends hblanks' le_rfl) _
  · refine (Capturing.descending_plus isPlain z).imp_of_mem fun hx hy hle u hu v hv hends hends' => ?_
    obtain ⟨text, blanks, hrest, hblanks, hxb, hub⟩ := hspec hx hu
    obtain ⟨text', blanks', hrest', hblanks', hyb, hvb⟩ := hspec hy hv
    rw [hxb, hyb, List.length_append, List.length_append] at hle
    rw [hub, hvb, List.length_append, @List.length_append _ z.before]
    exact Nat.add_le_add_left (reach_le (hrest.symm.trans hrest') hends hblanks' (by omega)) _
  · intro u hu v hv _ _
    obtain rfl := List.mem_singleton.mp hv
    obtain ⟨x, hx, hu⟩ := List.mem_flatMap.mp hu
    obtain ⟨text, blanks, -, -, -, hub⟩ := hspec hx hu
    rw [hub, List.length_append]
    exact Nat.le_add_right _ _

/-- The first way is to the setting that is furthest. -/
theorem leads_setting (z : Way UInt8) : Leads place ((Capturing.seq (.ofRegex argumentsPattern) settingGroup).ways z) := by
  refine Capturing.leads_flatMap (fun x _ => ?_) ((descending_arguments z).imp fun hle u hu v hv => ⟨u, hu, ?_⟩)
  · intro u hu v hv
    rw [(place_of_mem hv).1, (place_of_mem (List.mem_of_head? hu)).1]
  · obtain ⟨hplace, hends⟩ := place_of_mem hu
    obtain ⟨hplace', hends'⟩ := place_of_mem hv
    rw [hplace, hplace']
    exact Nat.add_le_add_right (hle hends hends') 6

end Furthest

section PamSearch

open Capturing (Way)

variable {line lead key value trail s t : Bytes} {w v z : Way UInt8}

/-- What is before the second arguments, as a pattern. -/
theorem pamPattern_search (line : Bytes) : pamPattern.search line = ((Capturing.seqs [.ofRegex (.star (.char isBlank)),
    .ofRegex (spelled (utf8 "session")), .ofRegex (.plus (.char isBlank)), .ofRegex argumentsPattern,
    .ofRegex (spelled (utf8 "pam_umask.so")), .ofRegex (.plus (.char isBlank)), .ofRegex argumentsPattern,
    .ofRegex (spelled (utf8 "umask=")), .group 3 (.ofRegex octalPattern), .boundary isWord]).ways
      { before := [], rest := line }).head? := Capturing.search_start line

/-- One setting goes further than another where the lead of the one is that of the other and some text that ends with a
blank. -/
theorem PamLead.further {lead' rest' : Bytes} (hlead : PamLead lead') (hkey : Spells (utf8 "umask=") key)
    (heq : lead ++ (key ++ s) = lead' ++ rest') (hless : lead.length < lead'.length) :
    ∃ text b, lead' = lead ++ (text ++ [b]) ∧ text ≠ [] ∧ (∀ c ∈ text, isPlain c = true) ∧ isBlank b = true ∧
      key ++ s = text ++ b :: rest' := by
  obtain ⟨b, hlast, hb⟩ := hlead.last
  obtain ⟨more, rfl⟩ : lead <+: lead' :=
    List.prefix_of_prefix_length_le (List.prefix_append _ _) ⟨_, heq.symm⟩ hless.le
  have hne : more ≠ [] := by
    rintro rfl
    simp at hless
  rw [List.getLast?_append_of_ne_nil _ hne] at hlast
  obtain ⟨text, rfl⟩ := List.getLast?_eq_some_iff.mp hlast
  rw [List.append_assoc, List.append_cancel_left_eq, List.append_assoc, List.singleton_append] at heq
  refine ⟨text, b, rfl, ?_, fun c hc => hlead.plain c (by simp [hc]), hb, heq⟩
  rintro rfl
  have hends : EndsSpan isBlank (key ++ s) := @Spells.endsSpan key _ 0x75 (utf8 "mask=") hkey (by decide) (by decide)
  rw [heq, List.nil_append, endsSpan_cons, hb] at hends
  cases hends

/-- The way to match a line is to its furthest setting. -/
theorem pamLine_of_search (h : pamPattern.search line = some w) : ∃ lead key value trail, PamLine line lead key value trail ∧
    w.found 3 = some ((lead ++ key).length, value) ∧
    ∀ lead' key' value' trail', PamLine line lead' key' value' trail' → lead'.length ≤ lead.length := by
  rw [pamPattern_search] at h
  obtain ⟨blanks, t, htext, hblanks, h⟩ := Capturing.head?_ways_seq (Capturing.groups_ofRegex _) h
  obtain ⟨session, t', hsession', hsession, h⟩ := Capturing.head?_ways_seq (Capturing.groups_ofRegex _) h
  obtain ⟨more, t'', hmore', hmore, h⟩ := Capturing.head?_ways_seq (Capturing.groups_ofRegex _) h
  obtain ⟨first, t₃, hfirst', hfirst, h⟩ := Capturing.head?_ways_seq (Capturing.groups_ofRegex _) h
  obtain ⟨module, t₄, hmodule', hmodule, h⟩ := Capturing.head?_ways_seq (Capturing.groups_ofRegex _) h
  obtain ⟨after, left, hafter', hafter, h⟩ := Capturing.head?_ways_seq (Capturing.groups_ofRegex _) h
  rw [Capturing.erase_ofRegex] at hblanks hsession hmore hfirst hmodule hafter
  obtain rfl : line = blanks ++ t := htext
  obtain rfl : t = session ++ t' := hsession'
  obtain rfl : t' = more ++ t'' := hmore'
  obtain rfl : t'' = first ++ t₃ := hfirst'
  obtain rfl : t₃ = module ++ t₄ := hmodule'
  obtain rfl : t₄ = after ++ left := hafter'
  have hstart : PamStart (blanks ++ (session ++ (more ++ (first ++ (module ++ after))))) :=
    ⟨blanks, session, more, first, module, after, rfl, Regex.matches_star_char.mp hblanks, matches_spelled.mp hsession,
      Regex.matches_plus_char.mp hmore, matches_argumentsPattern.mp hfirst, matches_spelled.mp hmodule,
      Regex.matches_plus_char.mp hafter⟩
  generalize hbegin : blanks ++ (session ++ (more ++ (first ++ (module ++ after)))) = start at hstart
  have hline : blanks ++ (session ++ (more ++ (first ++ (module ++ (after ++ left))))) = start ++ left := by
    rw [← hbegin]
    simp
  rw [hline]
  obtain ⟨z, hz, hzbefore, hzrest⟩ : ∃ z : Way UInt8, ((Capturing.seq (.ofRegex argumentsPattern) settingGroup).ways z).head? = some w ∧
      z.before = start ∧ z.rest = left := by
    refine ⟨_, h, ?_, rfl⟩
    rw [← hbegin]
    simp [Way.next]
  have hmem := List.mem_of_head? hz
  obtain ⟨arguments, rest, hrest, hmatched, hmem⟩ := (Capturing.mem_ways_seq (Capturing.groups_ofRegex _)).mp hmem
  obtain ⟨key, value, trail, hkey', hkey, hvalue, htrail, rfl⟩ := mem_ways_settingGroup.mp hmem
  rw [Capturing.erase_ofRegex] at hmatched
  have harguments := matches_argumentsPattern.mp hmatched
  obtain rfl : rest = key ++ (value ++ trail) := hkey'
  rw [hzrest] at hrest
  subst hrest
  refine ⟨start ++ arguments, key, value, trail, ⟨by simp, ⟨start, arguments, rfl, hstart, harguments⟩, hkey, hvalue, htrail⟩, ?_, ?_⟩
  · rw [← hzbefore]
    rfl
  · intro lead' key' value' trail' hother
    by_contra hless
    rw [not_le] at hless
    have hsame : (start ++ arguments) ++ (key ++ (value ++ trail)) = lead' ++ (key' ++ (value' ++ trail')) := by
      rw [← hother.line, List.append_assoc]
    obtain ⟨text, b, rfl, hne, htext, hb, hcut⟩ := hother.lead.further hkey hsame hless
    have hway : ((z.next (arguments ++ (text ++ [b])) (key' ++ (value' ++ trail'))).next key' (value' ++ trail')).nextGroup 3 value'
        trail' ∈ (Capturing.seq (.ofRegex argumentsPattern) settingGroup).ways z := by
      refine (Capturing.mem_ways_seq (Capturing.groups_ofRegex _)).mpr ⟨_, _, ?_, ?_, mem_ways_settingGroup.mpr
        ⟨key', value', trail', rfl, hother.key, hother.value, hother.trail, rfl⟩⟩
      · rw [hzrest, hcut]
        simp
      · rw [Capturing.erase_ofRegex]
        exact matches_argumentsPattern.mpr (harguments.extend hne htext hb)
    have hle := leads_setting z _ hz _ hway
    have hlength : key'.length = key.length := hother.key.length.trans hkey.length.symm
    simp only [place, Way.next, Way.nextGroup, if_true, Option.map_some, Option.getD_some, hzbefore, List.length_append] at hle hless
    omega

theorem PamLine.search (h : PamLine line lead key value trail) : (pamPattern.search line).isSome := by
  obtain ⟨start, arguments, hlead, ⟨blanks, session, more, first, module, after, rfl, hblanks, hsession, hmore, hfirst, hmodule,
    hafter⟩, harguments⟩ := h.lead
  have hmatches : (Capturing.seqs [.ofRegex (.star (.char isBlank)), .ofRegex (spelled (utf8 "session")),
      .ofRegex (.plus (.char isBlank)), .ofRegex argumentsPattern, .ofRegex (spelled (utf8 "pam_umask.so")),
      .ofRegex (.plus (.char isBlank)), .ofRegex argumentsPattern, .ofRegex (spelled (utf8 "umask=")),
      .group 3 (.ofRegex octalPattern), .boundary isWord]).erase.Matches [] (lead ++ (key ++ value)) trail := by
    simp only [Capturing.seqs, Capturing.erase, Capturing.erase_ofRegex]
    refine ⟨blanks, _, ?_, Regex.matches_star_char.mpr hblanks, session, _, rfl, matches_spelled.mpr hsession,
      more, _, rfl, Regex.matches_plus_char.mpr hmore, first, _, rfl, matches_argumentsPattern.mpr hfirst, module, _, rfl,
      matches_spelled.mpr hmodule, after, _, rfl, Regex.matches_plus_char.mpr hafter, arguments, _, rfl,
      matches_argumentsPattern.mpr harguments, key, _, rfl, matches_spelled.mpr h.key, value, [], (List.append_nil _).symm,
      matches_octalPattern.mpr h.value, [], [], rfl, ⟨rfl, ?_⟩, rfl⟩
    · rw [hlead]
      simp
    · exact (atBoundary_octal h.value).mpr h.trail
  obtain ⟨w, hw, -⟩ := Capturing.exists_mem (w := { before := [], rest := line }) (by rw [h.line]; simp) hmatches
  rw [pamPattern_search]
  cases hways : (Capturing.seqs [.ofRegex (.star (.char isBlank)), .ofRegex (spelled (utf8 "session")),
      .ofRegex (.plus (.char isBlank)), .ofRegex argumentsPattern, .ofRegex (spelled (utf8 "pam_umask.so")),
      .ofRegex (.plus (.char isBlank)), .ofRegex argumentsPattern, .ofRegex (spelled (utf8 "umask=")),
      .group 3 (.ofRegex octalPattern), .boundary isWord]).ways { before := [], rest := line } with
  | nil =>
    rw [hways] at hw
    cases hw
  | cons => rfl

/-- A line does not both set the umask and give it to the module. -/
theorem PamLine.not_valueLine {lead' value' trail' : Bytes} (h : PamLine line lead key value trail) :
    ¬ ValueLine line lead' value' trail' := by
  intro hvalue
  obtain ⟨start, arguments, rfl, ⟨blanks, session, more, first, module, after, rfl, hblanks, hsession, -⟩, -⟩ := h.lead
  obtain ⟨blanks', word, more', rfl, hblanks', hword, -, -⟩ := hvalue.lead
  have heq := h.line.symm.trans hvalue.line
  simp only [List.append_assoc] at heq
  have hends {rest : Bytes} : EndsSpan isBlank (session ++ rest) :=
    @Spells.endsSpan session rest 0x73 (utf8 "ession") hsession (by decide) (by decide)
  obtain ⟨-, hcut⟩ := span_unique hblanks hends hblanks' (isBlank_of_endsSpan_umask hword) heq
  cases session with
  | nil => cases hsession
  | cons c session =>
    cases word with
    | nil => cases hword
    | cons d word =>
      obtain rfl := (List.cons.inj hcut).1
      rw [Spells, List.map_cons] at hsession hword
      have hs : lower c = 0x73 := (List.cons.inj hsession).1
      have hu : lower c = 0x75 := (List.cons.inj hword).1
      exact absurd (hs.symm.trans hu) (by decide)

theorem PamLine.valuePattern_search (h : PamLine line lead key value trail) : valuePattern.search line = none := by
  cases hsearch : valuePattern.search line with
  | none => rfl
  | some w =>
    obtain ⟨lead', value', trail', hvalue, -⟩ := valueLine_of_search hsearch
    exact absurd hvalue h.not_valueLine

theorem isOctal_endsSpan (h : EndsSpan isWord s) : EndsSpan isOctal s := by
  intro c hc
  rw [Bool.eq_false_iff]
  intro hoctal
  have hword := h c hc
  rw [isWord_of_isOctal hoctal] at hword
  cases hword

/-- With the new value in place of the furthest setting, the line gives the new value to the module. -/
theorem matchLine_newSetting (h : PamLine line lead key value trail)
    (hfurthest : ∀ lead' key' value' trail', PamLine line lead' key' value' trail' → lead'.length ≤ lead.length) :
    matchLine (lead ++ (key ++ (utf8 "027" ++ trail))) = some (.ok .correct) := by
  have hnew : PamLine (lead ++ (key ++ (utf8 "027" ++ trail))) lead key (utf8 "027") trail :=
    ⟨rfl, h.lead, h.key, octal_newValue, h.trail⟩
  obtain ⟨w, hw⟩ := Option.isSome_iff_exists.mp hnew.search
  obtain ⟨lead', key', value', trail', hline, hfound, hmost⟩ := pamLine_of_search hw
  have hle := hmost _ _ _ _ hnew
  have hsame : lead.length = lead'.length := by
    by_contra hdiffers
    -- a setting that is further in the new line is further in the old line
    obtain ⟨text, b, rfl, hne, htext, hb, hcut⟩ := hline.lead.further h.key hline.line (by omega)
    have hsetting : ∀ c ∈ key ++ utf8 "027", (!isBlank c) = true := by
      refine List.forall_mem_append.mpr ⟨h.key.forall (fun _ => not_isBlank_of_lower) (by decide +kernel), ?_⟩
      decide +kernel
    rw [← List.append_assoc] at hcut
    obtain ⟨more, rfl⟩ : key ++ utf8 "027" <+: text := by
      rcases List.append_eq_append_iff.mp hcut with ⟨more, hmore, -⟩ | ⟨more, hmore, hmore'⟩
      · exact ⟨more, hmore.symm⟩
      · cases more with
        | nil => exact ⟨[], by rw [hmore]; simp⟩
        | cons c more =>
          obtain rfl : b = c := (List.cons.inj hmore').1
          have hnot := hsetting b (by rw [hmore]; simp)
          rw [hb] at hnot
          cases hnot
    simp only [List.append_assoc, List.append_cancel_left_eq] at hcut
    have hold : PamLine line (lead ++ ((key ++ (value ++ more)) ++ [b])) key' value' trail' := by
      refine ⟨?_, h.lead.extend ?_ ?_ hb, hline.key, hline.value, hline.trail⟩
      · rw [h.line, hcut]
        simp
      · intro hnil
        have hzero := congrArg List.length hnil
        rw [List.length_append, h.key.length, show (utf8 "umask=").length = 6 by decide +kernel, List.length_nil] at hzero
        omega
      · refine List.forall_mem_append.mpr ⟨h.key.forall (fun _ => isPlain_of_lower) (by decide +kernel),
          List.forall_mem_append.mpr ⟨fun c hc => isPlain_of_isOctal (h.value.2 c hc), fun c hc => htext c (by simp [hc])⟩⟩
    have hlonger := hfurthest _ _ _ _ hold
    simp at hlonger
  obtain ⟨rfl, hcut⟩ := List.append_inj hline.line hsame
  obtain ⟨rfl, hcut'⟩ := List.append_inj hcut (h.key.length.trans hline.key.length.symm)
  obtain ⟨hvalue, -⟩ := span_unique octal_newValue.2 (isOctal_endsSpan h.trail) hline.value.2 (isOctal_endsSpan hline.trail) hcut'
  have hstr : w.str 3 = utf8 "027" := by
    rw [Way.str, hfound, ← hvalue]
    rfl
  unfold matchLine
  rw [hnew.valuePattern_search, hw]
  dsimp only
  rw [hstr]
  decide +kernel

end PamSearch

end Kompli.DefaultUmask
