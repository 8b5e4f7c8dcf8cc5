import Kompli.ComplianceEngine.Indicators
import Kompli.Foundation.Captures
import Kompli.Foundation.EcmaScript
import Kompli.Foundation.Lines
import Kompli.Foundation.StateRule
import Kompli.Procedures.ConfigRewrite
import Mathlib.Data.List.Induction
import Mathlib.Data.List.Nodup

/-! The remediation that switches off the requests for a display in up to four files, and when it is all or nothing. -/
namespace Kompli.XdmcpDisabled
open Foundation Streams EcmaScript

def hash : UInt8 := 0x23
def openBracket : UInt8 := 0x5B

section Patterns

/-- `\s*(#.*)?` -/
def trailPattern : Regex UInt8 :=
  .seqs [.star (.char isSpace), .optional (.seqs [.char (· = hash), .star (.char isAnyButLineEnd)])]

/-- `^\s*\[xdmcp\]\s*(#.*)?$` -/
def sectionPattern : Regex UInt8 :=
  .seqs [.start, .star (.char isSpace), .seqs (Regex.literal (utf8 "[xdmcp]")), trailPattern, .stop]

/-- `\s*Enable\s*=\s*` -/
def leadPattern : Regex UInt8 :=
  .seqs [.star (.char isSpace), .seqs (Regex.literal (utf8 "Enable")), .star (.char isSpace), .char (· = 0x3D),
    .star (.char isSpace)]

/-- `^(\s*Enable\s*=\s*)true(\s*(#.*)?)$`, without the third group, which nothing asks for. -/
def settingPattern : Capturing UInt8 :=
  .seqs [.start, .group 1 (.ofRegex leadPattern), .ofRegex (.seqs (Regex.literal (utf8 "true"))),
    .group 2 (.ofRegex trailPattern), .stop]

end Patterns

section Text

def isSpaceOrTab (c : UInt8) : Bool := c = 0x20 || c = 0x09

/-- Whether a line is in the section, or starts it. -/
def inSectionAfter (inSection : Bool) (line : Bytes) : Bool :=
  if sectionPattern.isMatch line then true
  else if (line.dropWhile isSpaceOrTab).head? = some openBracket then false
  else inSection

/-- What a setting that is found becomes. -/
def disabled (line : Bytes) : Option Bytes :=
  (settingPattern.isMatch line).map fun found => found.str 1 ++ utf8 "false" ++ found.str 2

/-- The loop over the lines: the lines that are written, and whether one is changed. -/
def disableLines : Bool → List Bytes → List Bytes × Bool
  | _, [] => ([], false)
  | inSection, line :: lines =>
    let inSection := inSectionAfter inSection line
    let rest := disableLines inSection lines
    match if inSection then disabled line else none with
    | some updated => (updated :: rest.1, true)
    | none => (line :: rest.1, rest.2)

def disableXdmcp (contents : Bytes) : Bytes × Bool :=
  let output := disableLines false (lines contents)
  ([newline].intercalate output.1 ++ if contents.getLast? = some newline then [newline] else [], output.2)

end Text

section Lines

variable {line before after : Bytes}

def Blank (s : Bytes) : Prop := ∀ c ∈ s, isSpace c = true

/-- White space, and perhaps a comment. -/
def Trail (s : Bytes) : Prop :=
  ∃ blanks comment, s = blanks ++ comment ∧ Blank blanks ∧
    (comment = [] ∨ ∃ text, comment = hash :: text ∧ ∀ c ∈ text, isAnyButLineEnd c = true)

def Lead (s : Bytes) : Prop :=
  ∃ first second third, s = first ++ (utf8 "Enable" ++ (second ++ 0x3D :: third)) ∧ Blank first ∧ Blank second ∧ Blank third

/-- The line that starts the section. -/
def SectionLine (line : Bytes) : Prop :=
  ∃ blanks trail, line = blanks ++ (utf8 "[xdmcp]" ++ trail) ∧ Blank blanks ∧ Trail trail

/-- A line that sets `Enable` to true, with what is before and after the value. -/
structure Setting (line before after : Bytes) : Prop where
  line : line = before ++ (utf8 "true" ++ after)
  lead : Lead before
  trail : Trail after

theorem matches_trailPattern {text rest : Bytes} : trailPattern.Matches before text rest ↔ Trail text := by
  constructor
  · intro h
    obtain ⟨blanks, s, rfl, hblanks, comment, s, rfl, hcomment, rfl⟩ := h
    refine ⟨blanks, comment, by simp, Regex.matches_star_char.mp hblanks, ?_⟩
    rcases hcomment with ⟨sign, s, rfl, ⟨c, rfl, hc⟩, text, s, rfl, htext, rfl⟩ | rfl
    · rw [decide_eq_true_eq] at hc
      subst hc
      exact .inr ⟨text, by simp, Regex.matches_star_char.mp htext⟩
    · exact .inl rfl
  · rintro ⟨blanks, comment, rfl, hblanks, hcomment⟩
    refine ⟨blanks, comment, rfl, Regex.matches_star_char.mpr hblanks, comment, [], by simp, ?_, rfl⟩
    rcases hcomment with rfl | ⟨text, rfl, htext⟩
    · exact .inr rfl
    · exact .inl ⟨[hash], text, rfl, ⟨hash, rfl, decide_eq_true rfl⟩, text, [], by simp, Regex.matches_star_char.mpr htext, rfl⟩

theorem matches_leadPattern {text rest : Bytes} : leadPattern.Matches before text rest ↔ Lead text := by
  constructor
  · intro h
    obtain ⟨first, s, rfl, hfirst, word, s, rfl, hword, second, s, rfl, hsecond, sign, s, rfl, ⟨c, rfl, hc⟩, third, s, rfl,
      hthird, rfl⟩ := h
    rw [decide_eq_true_eq] at hc
    subst hc
    obtain rfl := Regex.matches_literal.mp hword
    exact ⟨first, second, third, by simp, Regex.matches_star_char.mp hfirst, Regex.matches_star_char.mp hsecond,
      Regex.matches_star_char.mp hthird⟩
  · rintro ⟨first, second, third, rfl, hfirst, hsecond, hthird⟩
    exact ⟨first, _, rfl, Regex.matches_star_char.mpr hfirst, utf8 "Enable", _, rfl, Regex.matches_literal.mpr rfl, second, _,
      rfl, Regex.matches_star_char.mpr hsecond, [0x3D], third, rfl, ⟨0x3D, rfl, decide_eq_true rfl⟩, third, [], by simp,
      Regex.matches_star_char.mpr hthird, rfl⟩

theorem isMatch_sectionPattern : sectionPattern.isMatch line = true ↔ SectionLine line := by
  rw [Regex.isMatch_iff]
  constructor
  · intro h
    obtain ⟨nothing, s, rfl, ⟨rfl, -⟩, blanks, s, rfl, hblanks, word, s, rfl, hword, trail, s, rfl, htrail, last, s, rfl,
      ⟨rfl, -⟩, rfl⟩ := h
    obtain rfl := Regex.matches_literal.mp hword
    exact ⟨blanks, trail, by simp, Regex.matches_star_char.mp hblanks, matches_trailPattern.mp htrail⟩
  · rintro ⟨blanks, trail, rfl, hblanks, htrail⟩
    exact ⟨[], _, rfl, ⟨rfl, rfl⟩, blanks, _, rfl, Regex.matches_star_char.mpr hblanks, utf8 "[xdmcp]", _, rfl,
      Regex.matches_literal.mpr rfl, trail, [], by simp, matches_trailPattern.mpr htrail, [], [], rfl, ⟨rfl, rfl⟩, rfl⟩

/-- What is before a letter that is no white space is a lead in one way. -/
theorem Lead.unique {before' rest rest' : Bytes} (h : Lead before) (h' : Lead before') (hrest : EndsSpan isSpace rest)
    (hrest' : EndsSpan isSpace rest') (heq : before ++ rest = before' ++ rest') : before = before' ∧ rest = rest' := by
  obtain ⟨first, second, third, rfl, hfirst, hsecond, hthird⟩ := h
  obtain ⟨first', second', third', rfl, hfirst', hsecond', hthird'⟩ := h'
  have henable (s : Bytes) : EndsSpan isSpace (utf8 "Enable" ++ s) := endsSpan_cons.mpr (by decide)
  have hsign (s : Bytes) : EndsSpan isSpace ((0x3D : UInt8) :: s) := endsSpan_cons.mpr (by decide)
  simp only [List.append_assoc, List.cons_append] at heq
  obtain ⟨rfl, hword⟩ := span_unique hfirst (henable _) hfirst' (henable _) heq
  obtain ⟨rfl, hequals⟩ := span_unique hsecond (hsign _) hsecond' (hsign _) (List.append_cancel_left hword)
  obtain ⟨rfl, hlast⟩ := span_unique hthird hrest hthird' hrest' (List.cons.inj hequals).2
  exact ⟨rfl, hlast⟩

theorem endsSpan_true (s : Bytes) : EndsSpan isSpace (utf8 "true" ++ s) := endsSpan_cons.mpr (by decide)

theorem endsSpan_false (s : Bytes) : EndsSpan isSpace (utf8 "false" ++ s) := endsSpan_cons.mpr (by decide)

theorem false_ne_true (s t : Bytes) : utf8 "false" ++ s ≠ utf8 "true" ++ t := by
  intro h
  have hfirst : (0x66 : UInt8) = 0x74 := (List.cons.inj h).1
  exact absurd hfirst (by decide)

theorem Setting.unique {before' after' : Bytes} (h : Setting line before after) (h' : Setting line before' after') :
    before = before' ∧ after = after' := by
  obtain ⟨hbefore, hafter⟩ := h.lead.unique h'.lead (endsSpan_true _) (endsSpan_true _) (h.line.symm.trans h'.line)
  exact ⟨hbefore, List.append_cancel_left hafter⟩

/-- The groups of a match are what is before and after the value. -/
theorem setting_of_mem_ways {w : Capturing.Way UInt8} (h : w ∈ settingPattern.ways { before := [], rest := line }) :
    w.rest = [] ∧ Setting line (w.str 1) (w.str 2) := by
  rw [settingPattern, Capturing.seqs, Capturing.mem_ways_seq rfl] at h
  simp only [Capturing.seqs, Capturing.mem_ways_seq_group (Capturing.groups_ofRegex _),
    Capturing.mem_ways_seq (Capturing.groups_ofRegex _), Capturing.mem_ways_seq (r := .stop) rfl,
    Capturing.mem_ways_empty, Capturing.erase_ofRegex] at h
  obtain ⟨nothing, text, rfl, ⟨rfl, -⟩, before, s, rfl, hbefore, word, s, rfl, hword, after, s, rfl, hafter, last, s, rfl,
    ⟨rfl, rfl⟩, rfl⟩ := h
  obtain rfl := Regex.matches_literal.mp hword
  refine ⟨rfl, ?_, matches_leadPattern.mp hbefore, matches_trailPattern.mp hafter⟩
  simp [Capturing.Way.str, Capturing.Way.next, Capturing.Way.nextGroup]

theorem exists_mem_ways (h : Setting line before after) :
    ∃ w ∈ settingPattern.ways { before := [], rest := line }, w.rest = [] := by
  have hmatches : settingPattern.erase.Matches [] line [] := by
    refine ⟨[], line, rfl, ⟨rfl, rfl⟩, before, utf8 "true" ++ after, h.line, ?_, utf8 "true", after, rfl, ?_, after, [],
      (List.append_nil _).symm, ?_, [], [], rfl, ⟨rfl, rfl⟩, rfl⟩
    · rw [Capturing.erase, Capturing.erase_ofRegex]
      exact matches_leadPattern.mpr h.lead
    · rw [Capturing.erase_ofRegex]
      exact Regex.matches_literal.mpr rfl
    · rw [Capturing.erase, Capturing.erase_ofRegex]
      exact matches_trailPattern.mpr h.trail
  obtain ⟨w, hw, -, hrest⟩ := Capturing.exists_mem (w := { before := [], rest := line }) (List.append_nil line).symm hmatches
  exact ⟨w, hw, hrest⟩

theorem disabled_eq_some_iff {updated : Bytes} :
    disabled line = some updated ↔ ∃ before after, Setting line before after ∧ updated = before ++ (utf8 "false" ++ after) := by
  rw [disabled, Option.map_eq_some_iff, Capturing.isMatch]
  constructor
  · rintro ⟨w, hw, rfl⟩
    obtain ⟨-, h⟩ := setting_of_mem_ways (List.mem_of_find?_eq_some hw)
    exact ⟨_, _, h, List.append_assoc _ _ _⟩
  · rintro ⟨before, after, h, rfl⟩
    obtain ⟨w, hw, hrest⟩ := exists_mem_ways h
    have hfound : ((settingPattern.ways { before := [], rest := line }).find? (·.rest.isEmpty)).isSome :=
      List.find?_isSome.mpr ⟨w, hw, List.isEmpty_iff.mpr hrest⟩
    obtain ⟨v, hv⟩ := Option.isSome_iff_exists.mp hfound
    obtain ⟨-, h'⟩ := setting_of_mem_ways (List.mem_of_find?_eq_some hv)
    obtain ⟨hbefore, hafter⟩ := h'.unique h
    refine ⟨v, hv, ?_⟩
    rw [hbefore, hafter, List.append_assoc]

end Lines

section Sections

variable {line : Bytes} {ls : List Bytes} {inSection : Bool}

/-- A line that starts a section, and whether it is the one for the display requests. -/
def Header (line : Bytes) (xdmcp : Bool) : Prop :=
  (SectionLine line ∧ xdmcp = true) ∨
    (¬ SectionLine line ∧ (line.dropWhile isSpaceOrTab).head? = some openBracket ∧ xdmcp = false)

/-- The last of the lines is in the section. -/
def InXdmcp (ls : List Bytes) : Prop := LastOf Header ls true

theorem inSectionAfter_eq_true : inSectionAfter inSection line = true ↔
    Header line true ∨ (∀ xdmcp, ¬ Header line xdmcp) ∧ inSection = true := by
  unfold inSectionAfter Header
  by_cases hsection : SectionLine line
  · rw [if_pos (isMatch_sectionPattern.mpr hsection)]
    exact iff_of_true rfl (.inl (.inl ⟨hsection, rfl⟩))
  · rw [if_neg (mt isMatch_sectionPattern.mp hsection)]
    by_cases hbracket : (line.dropWhile isSpaceOrTab).head? = some openBracket
    · rw [if_pos hbracket]
      refine iff_of_false Bool.false_ne_true ?_
      rintro ((⟨h, -⟩ | ⟨-, -, h⟩) | ⟨h, -⟩)
      · exact hsection h
      · cases h
      · exact h false (.inr ⟨hsection, hbracket, rfl⟩)
    · rw [if_neg hbracket]
      constructor
      · intro h
        refine .inr ⟨?_, h⟩
        rintro xdmcp (⟨hline, -⟩ | ⟨-, hline, -⟩)
        · exact hsection hline
        · exact hbracket hline
      · rintro ((⟨h, -⟩ | ⟨-, -, h⟩) | ⟨-, h⟩)
        · exact absurd h hsection
        · cases h
        · exact h

theorem foldl_inSectionAfter : ls.foldl inSectionAfter false = true ↔ InXdmcp ls := by
  induction ls using List.reverseRecOn with
  | nil =>
    refine iff_of_false Bool.false_ne_true fun h => ?_
    obtain ⟨x, hx, -⟩ := h.exists_mem
    cases hx
  | append_singleton ls line ih =>
    rw [List.foldl_concat, inSectionAfter_eq_true, InXdmcp, lastOf_concat, ih]
    rfl

/-- A line as the loop writes it. -/
def written (inSection : Bool) (line : Bytes) : Bytes := (if inSection then disabled line else none).getD line

def changes (inSection : Bool) (line : Bytes) : Bool := (if inSection then disabled line else none).isSome

theorem disableLines_cons : disableLines inSection (line :: ls) =
    (written (inSectionAfter inSection line) line :: (disableLines (inSectionAfter inSection line) ls).1,
      changes (inSectionAfter inSection line) line || (disableLines (inSectionAfter inSection line) ls).2) := by
  rw [disableLines]
  unfold written changes
  cases (if inSectionAfter inSection line = true then disabled line else none) <;> rfl

theorem length_disableLines : (disableLines inSection ls).1.length = ls.length := by
  induction ls generalizing inSection with
  | nil => rfl
  | cons line ls ih => rw [disableLines_cons, List.length_cons, List.length_cons, ih]

theorem getElem?_disableLines (k : Nat) :
    (disableLines inSection ls).1[k]? = ls[k]?.map (written ((ls.take (k + 1)).foldl inSectionAfter inSection)) := by
  induction ls generalizing inSection k with
  | nil => rfl
  | cons line ls ih =>
    rw [disableLines_cons, List.take_succ_cons, List.foldl_cons]
    cases k with
    | zero => rfl
    | succ k => exact ih k

theorem disableLines_changes : (disableLines inSection ls).2 = true ↔
    ∃ k line, ls[k]? = some line ∧ changes ((ls.take (k + 1)).foldl inSectionAfter inSection) line = true := by
  induction ls generalizing inSection with
  | nil =>
    refine iff_of_false Bool.false_ne_true ?_
    rintro ⟨k, line, hline, -⟩
    cases hline
  | cons line ls ih =>
    rw [disableLines_cons, Bool.or_eq_true, ih]
    constructor
    · rintro (h | ⟨k, line', hline, h⟩)
      · exact ⟨0, line, rfl, h⟩
      · exact ⟨k + 1, line', hline, h⟩
    · rintro ⟨k, line', hline, h⟩
      cases k with
      | zero =>
        cases hline
        exact .inl h
      | succ k => exact .inr ⟨k, line', hline, h⟩

end Sections

section Contents

variable {ls : List Bytes} {contents original updated line : Bytes} {inSection : Bool}

/-- A setting in the section, with the number of its line. -/
def Enabled (ls : List Bytes) (k : Nat) (before after : Bytes) : Prop :=
  ∃ line, ls[k]? = some line ∧ InXdmcp (ls.take (k + 1)) ∧ Setting line before after

/-- The texts differ only in that the value of each setting in the section is false. -/
structure Disabled (original updated : Bytes) : Prop where
  count : (updated.splitOn newline).length = (original.splitOn newline).length
  settings : ∀ k before after, Enabled (original.splitOn newline) k before after →
    (updated.splitOn newline)[k]? = some (before ++ (utf8 "false" ++ after))
  others : ∀ k, (∀ before after, ¬ Enabled (original.splitOn newline) k before after) →
    (updated.splitOn newline)[k]? = (original.splitOn newline)[k]?

theorem written_eq (inSection : Bool) (line : Bytes) :
    (∃ before after, inSection = true ∧ Setting line before after ∧ written inSection line = before ++ (utf8 "false" ++ after) ∧
      changes inSection line = true) ∨
    (¬ (inSection = true ∧ ∃ before after, Setting line before after) ∧ written inSection line = line ∧
      changes inSection line = false) := by
  unfold written changes
  cases inSection with
  | false => exact .inr ⟨by simp, rfl, rfl⟩
  | true =>
    rw [if_pos rfl]
    cases hdisabled : disabled line with
    | none =>
      refine .inr ⟨?_, rfl, rfl⟩
      rintro ⟨-, before, after, h⟩
      have hsome := disabled_eq_some_iff.mpr ⟨before, after, h, rfl⟩
      rw [hdisabled] at hsome
      cases hsome
    | some updated =>
      obtain ⟨before, after, h, rfl⟩ := disabled_eq_some_iff.mp hdisabled
      exact .inl ⟨before, after, rfl, h, rfl, rfl⟩

theorem changes_eq_true : changes inSection line = true ↔ inSection = true ∧ ∃ before after, Setting line before after := by
  rcases written_eq inSection line with ⟨before, after, hin, h, -, hchanges⟩ | ⟨h, -, hchanges⟩
  · exact iff_of_true hchanges ⟨hin, before, after, h⟩
  · rw [hchanges]
    exact iff_of_false Bool.false_ne_true h

theorem Setting.ne_nil {before after : Bytes} (h : Setting line before after) : line ≠ [] := by
  rw [h.line]
  intro hnil
  have hword := (List.append_eq_nil_iff.mp hnil).2
  cases (List.append_eq_nil_iff.mp hword).1

theorem written_nil (inSection : Bool) : written inSection [] = [] ∧ changes inSection [] = false := by
  rcases written_eq inSection [] with ⟨before, after, -, h, -⟩ | ⟨-, h⟩
  · exact absurd rfl h.ne_nil
  · exact h

theorem disableLines_closed : disableLines inSection (ls ++ [[]]) =
    ((disableLines inSection ls).1 ++ [[]], (disableLines inSection ls).2) := by
  induction ls generalizing inSection with
  | nil =>
    obtain ⟨hwritten, hchanges⟩ := written_nil (inSectionAfter inSection [])
    rw [List.nil_append, disableLines_cons, hwritten, hchanges]
    rfl
  | cons line ls ih => rw [List.cons_append, disableLines_cons, disableLines_cons, ih, List.cons_append]

theorem disableLines_ne_nil (hne : ls ≠ []) : (disableLines inSection ls).1 ≠ [] := by
  intro hnil
  have hlength := congrArg List.length hnil
  rw [length_disableLines, List.length_nil] at hlength
  exact hne (List.eq_nil_of_length_eq_zero hlength)

/-- The lines of the loop are the pieces, but for an empty one at the end. -/
theorem disableXdmcp_eq (contents : Bytes) : disableXdmcp contents =
    ([newline].intercalate (disableLines false (contents.splitOn newline)).1,
      (disableLines false (contents.splitOn newline)).2) := by
  unfold disableXdmcp
  dsimp only
  by_cases hlast : contents.getLast? = some newline
  · obtain ⟨text, rfl⟩ := List.getLast?_eq_some_iff.mp hlast
    have hlines : lines (text ++ [newline]) = text.splitOn newline := by
      rw [lines_append_newline]
      exact List.append_nil _
    rw [if_pos hlast, hlines, splitOn_concat, disableLines_closed,
      intercalate_closed (disableLines_ne_nil (List.splitOn_ne_nil newline text))]
  · rw [if_neg hlast, List.append_nil]
    by_cases hne : contents = []
    · subst hne
      have hempty := @disableLines_closed [] false
      rw [List.nil_append] at hempty
      rw [List.splitOn_nil, hempty]
      rfl
    · rw [lines_eq_splitOn hne hlast]

theorem newline_not_mem_written (hline : newline ∉ line) : newline ∉ written inSection line := by
  rcases written_eq inSection line with ⟨before, after, -, h, hwritten, -⟩ | ⟨-, hwritten, -⟩
  · rw [h.line] at hline
    have hfalse : newline ∉ utf8 "false" := by decide +kernel
    rw [hwritten]
    simp only [List.mem_append, not_or] at hline ⊢
    exact ⟨hline.1, hfalse, hline.2.2⟩
  · rwa [hwritten]

theorem newline_not_mem_disableLines (hls : ∀ line ∈ ls, newline ∉ line) :
    ∀ line ∈ (disableLines inSection ls).1, newline ∉ line := by
  induction ls generalizing inSection with
  | nil => exact fun line hline => nomatch hline
  | cons line ls ih =>
    rw [List.forall_mem_cons] at hls
    rw [disableLines_cons, List.forall_mem_cons]
    exact ⟨newline_not_mem_written hls.1, ih hls.2⟩

theorem splitOn_disableXdmcp (contents : Bytes) :
    (disableXdmcp contents).1.splitOn newline = (disableLines false (contents.splitOn newline)).1 := by
  rw [disableXdmcp_eq]
  exact List.splitOn_intercalate newline (newline_not_mem_disableLines fun _ => not_mem_of_mem_splitOn)
    (disableLines_ne_nil (List.splitOn_ne_nil newline contents))

/-- Texts with the same pieces are the same. -/
theorem splitOn_injective (h : original.splitOn newline = updated.splitOn newline) : original = updated := by
  rw [← @List.intercalate_splitOn _ original _ _ newline, h, List.intercalate_splitOn]

/-- What is written is what differs only in the settings of the section. -/
theorem disabled_iff : Disabled original updated ↔ updated = (disableXdmcp original).1 := by
  have hsettings (k : Nat) (before after : Bytes) (h : Enabled (original.splitOn newline) k before after) :
      ((disableXdmcp original).1.splitOn newline)[k]? = some (before ++ (utf8 "false" ++ after)) := by
    obtain ⟨line, hline, hin, hsetting⟩ := h
    rw [splitOn_disableXdmcp, getElem?_disableLines, hline, foldl_inSectionAfter.mpr hin, Option.map_some]
    rcases written_eq true line with ⟨before', after', -, h', hwritten, -⟩ | ⟨h', -⟩
    · obtain ⟨rfl, rfl⟩ := hsetting.unique h'
      rw [hwritten]
    · exact absurd ⟨rfl, before, after, hsetting⟩ h'
  have hothers (k : Nat) (h : ∀ before after, ¬ Enabled (original.splitOn newline) k before after) :
      ((disableXdmcp original).1.splitOn newline)[k]? = (original.splitOn newline)[k]? := by
    rw [splitOn_disableXdmcp, getElem?_disableLines]
    cases hline : (original.splitOn newline)[k]? with
    | none => rfl
    | some line =>
      rcases written_eq (((original.splitOn newline).take (k + 1)).foldl inSectionAfter false) line with
        ⟨before, after, hin, hsetting, -⟩ | ⟨-, hwritten, -⟩
      · exact absurd ⟨line, hline, foldl_inSectionAfter.mp hin, hsetting⟩ (h before after)
      · rw [Option.map_some, hwritten]
  constructor
  · intro h
    apply splitOn_injective
    apply List.ext_getElem?
    intro k
    by_cases hsome : ∃ before after, Enabled (original.splitOn newline) k before after
    · obtain ⟨before, after, henabled⟩ := hsome
      rw [h.settings k before after henabled, hsettings k before after henabled]
    · have hnone : ∀ before after, ¬ Enabled (original.splitOn newline) k before after :=
        fun before after henabled => hsome ⟨before, after, henabled⟩
      rw [h.others k hnone, hothers k hnone]
  · rintro rfl
    refine ⟨?_, hsettings, hothers⟩
    rw [splitOn_disableXdmcp, length_disableLines]

def HasSetting (contents : Bytes) : Prop := ∃ k before after, Enabled (contents.splitOn newline) k before after

theorem disableXdmcp_changes : (disableXdmcp contents).2 = true ↔ HasSetting contents := by
  rw [disableXdmcp_eq, disableLines_changes]
  constructor
  · rintro ⟨k, line, hline, h⟩
    obtain ⟨hin, before, after, hsetting⟩ := changes_eq_true.mp h
    exact ⟨k, before, after, line, hline, foldl_inSectionAfter.mp hin, hsetting⟩
  · rintro ⟨k, before, after, line, hline, hin, hsetting⟩
    exact ⟨k, line, hline, changes_eq_true.mpr ⟨foldl_inSectionAfter.mpr hin, before, after, hsetting⟩⟩

/-- A line with a setting starts no section, whatever the value. -/
theorem Lead.not_header {before : Bytes} (h : Lead before) (rest : Bytes) (xdmcp : Bool) : ¬ Header (before ++ rest) xdmcp := by
  obtain ⟨first, second, third, rfl, hfirst, -, -⟩ := h
  have hword (s : Bytes) : EndsSpan isSpace (utf8 "Enable" ++ s) := endsSpan_cons.mpr (by decide)
  have hother (s t : Bytes) : utf8 "Enable" ++ s ≠ openBracket :: t := by
    intro h
    have hfirst : (0x45 : UInt8) = 0x5B := (List.cons.inj h).1
    exact absurd hfirst (by decide)
  rintro (⟨⟨blanks, trail, heq, hblanks, -⟩, -⟩ | ⟨-, hbracket, -⟩)
  · rw [List.append_assoc, List.append_assoc] at heq
    exact hother _ _ (span_unique hfirst (hword _) hblanks (endsSpan_cons.mpr (by decide)) heq).2
  · obtain ⟨tail, htail⟩ := List.head?_eq_some_iff.mp hbracket
    have heq := (List.takeWhile_append_dropWhile (p := isSpaceOrTab)).symm.trans (congrArg _ htail)
    have hblanks : Blank ((first ++ (utf8 "Enable" ++ (second ++ 0x3D :: third)) ++ rest).takeWhile isSpaceOrTab) := by
      intro c hc
      have hspace := List.mem_takeWhile_imp hc
      simp only [isSpaceOrTab, Bool.or_eq_true, decide_eq_true_eq] at hspace
      rcases hspace with rfl | rfl <;> rfl
    rw [List.append_assoc, List.append_assoc] at heq hblanks
    exact hother _ _ (span_unique hfirst (hword _) hblanks (endsSpan_cons.mpr (by decide)) heq).2

theorem inSectionAfter_written (inSection : Bool) (line : Bytes) :
    inSectionAfter inSection (written (inSectionAfter inSection line) line) = inSectionAfter inSection line := by
  have hstays {before : Bytes} (h : Lead before) (rest : Bytes) : inSectionAfter inSection (before ++ rest) = inSection := by
    rw [Bool.eq_iff_iff, inSectionAfter_eq_true]
    constructor
    · rintro (hheader | ⟨-, h⟩)
      · exact absurd hheader (h.not_header rest true)
      · exact h
    · exact fun hin => .inr ⟨h.not_header rest, hin⟩
  rcases written_eq (inSectionAfter inSection line) line with ⟨before, after, -, h, hwritten, -⟩ | ⟨-, hwritten, -⟩
  · rw [hwritten, hstays h.lead, h.line, hstays h.lead]
  · rw [hwritten]

theorem written_twice (inSection : Bool) (line : Bytes) :
    written inSection (written inSection line) = written inSection line ∧ changes inSection (written inSection line) = false := by
  rcases written_eq inSection (written inSection line) with ⟨before, after, hin, h, -⟩ | ⟨-, h⟩
  · rcases written_eq inSection line with ⟨before', after', -, h', hwritten, -⟩ | ⟨hnot, hwritten, -⟩
    · have heq := hwritten.symm.trans h.line
      exact absurd (h'.lead.unique h.lead (endsSpan_false _) (endsSpan_true _) heq).2 (false_ne_true _ _)
    · rw [hwritten] at h
      exact absurd ⟨hin, before, after, h⟩ hnot
  · exact h

theorem disableLines_twice : disableLines inSection (disableLines inSection ls).1 = ((disableLines inSection ls).1, false) := by
  induction ls generalizing inSection with
  | nil => rfl
  | cons line ls ih =>
    obtain ⟨hwritten, hchanges⟩ := written_twice (inSectionAfter inSection line) line
    rw [disableLines_cons, disableLines_cons, inSectionAfter_written, hwritten, hchanges, ih]
    rfl

theorem disableXdmcp_idempotent (contents : Bytes) :
    disableXdmcp (disableXdmcp contents).1 = ((disableXdmcp contents).1, false) := by
  rw [disableXdmcp_eq (disableXdmcp contents).1, splitOn_disableXdmcp, disableLines_twice, disableXdmcp_eq]

theorem written_of_not_changes (h : changes inSection line = false) : written inSection line = line := by
  rcases written_eq inSection line with ⟨-, -, -, -, -, hchanges⟩ | ⟨-, hwritten, -⟩
  · rw [h] at hchanges
    cases hchanges
  · exact hwritten

theorem disableLines_of_not_changes (h : (disableLines inSection ls).2 = false) : (disableLines inSection ls).1 = ls := by
  induction ls generalizing inSection with
  | nil => rfl
  | cons line ls ih =>
    rw [disableLines_cons, Bool.or_eq_false_iff] at h
    rw [disableLines_cons, written_of_not_changes h.1, ih h.2]

/-- Only a setting is changed. -/
theorem disableXdmcp_of_not_hasSetting (h : ¬ HasSetting contents) : (disableXdmcp contents).1 = contents := by
  rw [← disableXdmcp_changes, Bool.not_eq_true, disableXdmcp_eq] at h
  rw [disableXdmcp_eq, disableLines_of_not_changes h, List.intercalate_splitOn]

theorem not_hasSetting_disableXdmcp (contents : Bytes) : ¬ HasSetting (disableXdmcp contents).1 := by
  rw [← disableXdmcp_changes, disableXdmcp_idempotent]
  exact Bool.false_ne_true

/-- What is left of a line does not become what the line becomes. -/
theorem written_append {inSection' : Bool} {more : Bytes} (h : written inSection line = written inSection' (line ++ more)) :
    more = [] := by
  rcases written_eq inSection line with ⟨before, after, -, hset, hwritten, -⟩ | ⟨-, hwritten, -⟩
  · rcases written_eq inSection' (line ++ more) with ⟨before', after', -, hset', hwritten', -⟩ | ⟨-, hwritten', -⟩
    · have heq := hset'.line
      rw [hset.line, List.append_assoc, List.append_assoc] at heq
      obtain ⟨rfl, hafter⟩ := hset.lead.unique hset'.lead (endsSpan_true _) (endsSpan_true _) heq
      rw [hwritten, hwritten', ← List.append_cancel_left hafter] at h
      have hsame := List.append_cancel_left (List.append_cancel_left h)
      exact List.self_eq_append_right.mp hsame
    · rw [hwritten, hwritten', hset.line, List.append_assoc, List.append_assoc] at h
      exact absurd (List.append_cancel_left h) (false_ne_true _ _)
  · rcases written_eq inSection' (line ++ more) with ⟨before', after', -, hset', hwritten', -⟩ | ⟨-, hwritten', -⟩
    · have heq := hset'.line
      rw [hwritten, hwritten'] at h
      rw [h, List.append_assoc, List.append_assoc] at heq
      exact absurd (List.append_cancel_left heq) (false_ne_true _ _)
    · rw [hwritten, hwritten'] at h
      exact List.self_eq_append_right.mp h

theorem disableLines_append {text more : Bytes} (h : (disableLines inSection (text.splitOn newline)).1 =
    (disableLines inSection ((text ++ more).splitOn newline)).1) : more = [] := by
  induction text using lines_induction newline generalizing inSection with
  | last line hline =>
    have hlength := congrArg List.length h
    rw [length_disableLines, length_disableLines, List.splitOn_eq_singleton hline, List.length_singleton] at hlength
    obtain ⟨piece, hpiece⟩ := List.length_eq_one_iff.mp hlength.symm
    have hsame : line ++ more = piece := by
      rw [← @List.intercalate_splitOn _ (line ++ more) _ _ newline, hpiece, List.intercalate_singleton]
    rw [hpiece, List.splitOn_eq_singleton hline, disableLines_cons, disableLines_cons, List.cons.injEq, ← hsame] at h
    exact written_append h.1
  | cons line rest hline ih =>
    rw [List.append_assoc, List.cons_append, splitOn_append_cons hline, splitOn_append_cons hline, disableLines_cons,
      disableLines_cons] at h
    exact ih (List.cons.inj h).2

/-- What is left of a text does not become what the text becomes. -/
theorem disableXdmcp_of_isPrefix {text : Bytes} (hpre : text <+: contents)
    (h : (disableXdmcp text).1 = (disableXdmcp contents).1) : text = contents := by
  obtain ⟨more, rfl⟩ := hpre
  have hlines := congrArg (List.splitOn newline) h
  rw [splitOn_disableXdmcp, splitOn_disableXdmcp] at hlines
  rw [disableLines_append hlines, List.append_nil]

end Contents

section Remediation

open ConfigRewrite (textRead)

abbrev Files := Bytes → Option Bytes

/-- How the calls of a run go, each by its number: a read of a file that is there is as much as there is before its end,
or an error. -/
structure Outcomes where
  read : Nat → Except Error Nat
  replace : Nat → Option Error
  /-- The error of a replacement where there is no file. -/
  noFile : Error
  /-- Nothing else is found to be absent. -/
  present : ∀ n e, read n = .error e → e.code ≠ ENOENT

structure Run where
  files : Files
  reads : Nat := 0
  replacements : Nat := 0
  indicators : List Indicator := []
  rollbackFailed : Bool := false

abbrev RemediateM := EStateM Error Run

structure Change where
  path : Bytes
  original : Bytes
  updated : Bytes

def cXdmcpFiles : List Bytes :=
  [utf8 "/etc/gdm3/custom.conf", utf8 "/etc/gdm3/daemon.conf", utf8 "/etc/gdm/custom.conf", utf8 "/etc/gdm/daemon.conf"]

variable (outcomes : Outcomes)

def getFileContents (path : Bytes) : RemediateM (Except Error Bytes) := fun s =>
  let s' := { s with reads := s.reads + 1 }
  match outcomes.read s.reads, s.files path with
  | .error e, _ => .ok (.error e) s'
  | .ok _, none => .ok (.error { message := utf8 "File not found: " ++ path, code := ENOENT }) s'
  | .ok count, some contents => .ok (.ok (textRead count contents)) s'

/-- An atomic replacement, which leaves the file as it is when it fails. -/
def replaceFileContentsAtomic (path contents : Bytes) : RemediateM (Option Error) := fun s =>
  let s' := { s with replacements := s.replacements + 1 }
  match outcomes.replace s.replacements, s.files path with
  | some e, _ => .ok (some e) s'
  | none, none => .ok (some outcomes.noFile) s'
  | none, some _ => .ok none { s' with files := Function.update s.files path (some contents) }

def report (message : Bytes) (status : Status) : RemediateM Status := do
  modify fun s => { s with indicators := s.indicators ++ [{ message, status }] }
  pure status

/-- The loop of the audit over the files. -/
def auditFiles : List Bytes → RemediateM Status
  | [] => report (utf8 "Did not found xdmcp Enabled block") .compliant
  | cfg :: cfgs => do
    match ← getFileContents outcomes cfg with
    | .error e => if e.code ≠ ENOENT then throw e else auditFiles cfgs
    | .ok contents =>
      if (disableXdmcp contents).2 then report (utf8 "Found xdmcp Enabled block") .nonCompliant else auditFiles cfgs

def auditXdmcpDisabled : RemediateM Status := auditFiles outcomes cXdmcpFiles

/-- The loop that reads the files and finds the changes. -/
def findChanges : List Bytes → RemediateM (List Change)
  | [] => pure []
  | cfg :: cfgs => do
    match ← getFileContents outcomes cfg with
    | .error e => if e.code = ENOENT then findChanges cfgs else throw e
    | .ok contents => do
      let others ← findChanges cfgs
      let (updated, changed) := disableXdmcp contents
      pure (if changed then { path := cfg, original := contents, updated } :: others else others)

/-- The loop back over the changes that have been applied, the last one first. -/
def rollBack (originalError : Error) : List Change → RemediateM Unit
  | [] => throw originalError
  | change :: changes => do
    match ← replaceFileContentsAtomic outcomes change.path change.original with
    | some e => do
      modify fun s => { s with rollbackFailed := true }
      throw { message := originalError.message ++ utf8 "; rollback failed: " ++ e.message, code := originalError.code }
    | none => rollBack originalError changes

/-- The loop that applies the changes. -/
def applyChanges (applied : List Change) : List Change → RemediateM Unit
  | [] => pure ()
  | change :: changes => do
    match ← replaceFileContentsAtomic outcomes change.path change.updated with
    | some e => rollBack outcomes e applied
    | none => applyChanges (change :: applied) changes

def remediateXdmcpDisabled : RemediateM Status := do
  let changes ← findChanges outcomes cXdmcpFiles
  applyChanges outcomes [] changes
  auditXdmcpDisabled outcomes

end Remediation

section Steps

open ConfigRewrite (textRead)

variable {outcomes : Outcomes} {s : Run} {cfgs : List Bytes}

/-- What a read of a path gives, where the file is there and it does not fail. -/
def seen (outcomes : Outcomes) (files : Files) (n : Nat) (path : Bytes) : Option Bytes :=
  match outcomes.read n with
  | .error _ => none
  | .ok count => (files path).map (textRead count)

/-- Reads go well, from that number on. -/
def ReadsWell (outcomes : Outcomes) (n : Nat) (cfgs : List Bytes) : Prop :=
  ∀ k < cfgs.length, ∃ count, outcomes.read (n + k) = .ok count

def changesOf (outcomes : Outcomes) (files : Files) : Nat → List Bytes → List Change
  | _, [] => []
  | n, cfg :: cfgs =>
    match seen outcomes files n cfg with
    | none => changesOf outcomes files (n + 1) cfgs
    | some contents =>
      if (disableXdmcp contents).2 then
        { path := cfg, original := contents, updated := (disableXdmcp contents).1 } :: changesOf outcomes files (n + 1) cfgs
      else changesOf outcomes files (n + 1) cfgs

theorem readsWell_cons {n : Nat} {cfg : Bytes} : ReadsWell outcomes n (cfg :: cfgs) ↔
    (∃ count, outcomes.read n = .ok count) ∧ ReadsWell outcomes (n + 1) cfgs := by
  constructor
  · intro h
    refine ⟨h 0 (Nat.succ_pos _), fun k hk => ?_⟩
    have hlater := h (k + 1) (by simpa using hk)
    rwa [← Nat.add_assoc, Nat.add_right_comm] at hlater
  · rintro ⟨hfirst, hlater⟩ k hk
    cases k with
    | zero => exact hfirst
    | succ k =>
      rw [← Nat.add_assoc, Nat.add_right_comm]
      exact hlater k (by simpa using hk)

/-- A read that does not fail gives what is seen, or that there is no file. -/
theorem getFileContents_run {count : Nat} (path : Bytes) (hread : outcomes.read s.reads = .ok count) :
    getFileContents outcomes path s = .ok
      (match seen outcomes s.files s.reads path with
        | some contents => .ok contents
        | none => .error { message := utf8 "File not found: " ++ path, code := ENOENT })
      { s with reads := s.reads + 1 } := by
  unfold getFileContents seen
  rw [hread]
  cases s.files path <;> rfl

theorem findChanges_run (cfgs : List Bytes) (s : Run) :
    (ReadsWell outcomes s.reads cfgs ∧
      findChanges outcomes cfgs s = .ok (changesOf outcomes s.files s.reads cfgs) { s with reads := s.reads + cfgs.length }) ∨
    (¬ ReadsWell outcomes s.reads cfgs ∧ ∃ e n, findChanges outcomes cfgs s = .error e { s with reads := n }) := by
  induction cfgs generalizing s with
  | nil => exact .inl ⟨fun k hk => absurd hk (Nat.not_lt_zero k), rfl⟩
  | cons cfg cfgs ih =>
    unfold findChanges changesOf
    rw [readsWell_cons]
    cases hread : outcomes.read s.reads with
    | error e =>
      refine .inr ⟨?_, e, s.reads + 1, ?_⟩
      · rintro ⟨⟨count, hcount⟩, -⟩
        cases hcount
      have hget : getFileContents outcomes cfg s = .ok (.error e) { s with reads := s.reads + 1 } := by
        unfold getFileContents
        rw [hread]
      rw [bind_run_ok _ hget]
      dsimp only
      rw [if_neg (outcomes.present _ e hread)]
      rfl
    | ok count =>
      rw [bind_run_ok _ (getFileContents_run cfg hread)]
      rcases ih { s with reads := s.reads + 1 } with ⟨hreads, hrun⟩ | ⟨hreads, e, n, hrun⟩
      · refine .inl ⟨⟨⟨count, rfl⟩, hreads⟩, ?_⟩
        have hcount : s.reads + 1 + cfgs.length = s.reads + (cfg :: cfgs).length := by
          rw [List.length_cons]
          omega
        rw [hcount] at hrun
        cases hseen : seen outcomes s.files s.reads cfg with
        | none =>
          dsimp only
          rw [if_pos rfl]
          exact hrun
        | some contents =>
          dsimp only
          rw [bind_run_ok _ hrun]
          rfl
      · refine .inr ⟨fun h => hreads h.2, e, n, ?_⟩
        cases hseen : seen outcomes s.files s.reads cfg with
        | none =>
          dsimp only
          rw [if_pos rfl]
          exact hrun
        | some contents =>
          dsimp only
          rw [bind_run_error _ hrun]

theorem mem_changesOf {files : Files} {n : Nat} {change : Change} : change ∈ changesOf outcomes files n cfgs ↔
    ∃ k cfg text, cfgs[k]? = some cfg ∧ seen outcomes files (n + k) cfg = some text ∧ HasSetting text ∧
      change = { path := cfg, original := text, updated := (disableXdmcp text).1 } := by
  induction cfgs generalizing n with
  | nil =>
    refine iff_of_false List.not_mem_nil ?_
    rintro ⟨k, cfg, text, hcfg, -⟩
    cases hcfg
  | cons cfg cfgs ih =>
    have hmore : (∃ k cfg' text, (cfg :: cfgs)[k]? = some cfg' ∧ seen outcomes files (n + k) cfg' = some text ∧ HasSetting text ∧
        change = { path := cfg', original := text, updated := (disableXdmcp text).1 }) ↔
        (∃ text, seen outcomes files n cfg = some text ∧ HasSetting text ∧
          change = { path := cfg, original := text, updated := (disableXdmcp text).1 }) ∨
        change ∈ changesOf outcomes files (n + 1) cfgs := by
      rw [ih]
      constructor
      · rintro ⟨k, cfg', text, hcfg, h⟩
        cases k with
        | zero =>
          cases hcfg
          exact .inl ⟨text, h⟩
        | succ k =>
          rw [← Nat.add_assoc, Nat.add_right_comm] at h
          exact .inr ⟨k, cfg', text, hcfg, h⟩
      · rintro (⟨text, h⟩ | ⟨k, cfg', text, hcfg, h⟩)
        · exact ⟨0, cfg, text, rfl, h⟩
        · rw [Nat.add_right_comm, Nat.add_assoc] at h
          exact ⟨k + 1, cfg', text, hcfg, h⟩
    rw [hmore, changesOf]
    cases hseen : seen outcomes files n cfg with
    | none => simp
    | some contents =>
      dsimp only
      by_cases hsetting : HasSetting contents
      · rw [if_pos (disableXdmcp_changes.mpr hsetting), List.mem_cons]
        simp [hsetting]
      · rw [if_neg (mt disableXdmcp_changes.mp hsetting)]
        simp [hsetting]

theorem paths_changesOf (outcomes : Outcomes) (files : Files) (n : Nat) (cfgs : List Bytes) :
    ((changesOf outcomes files n cfgs).map Change.path).Sublist cfgs := by
  induction cfgs generalizing n with
  | nil => exact .slnil
  | cons cfg cfgs ih =>
    unfold changesOf
    cases seen outcomes files n cfg with
    | none => exact (ih (n + 1)).cons cfg
    | some contents =>
      dsimp only
      split_ifs
      · exact (ih (n + 1)).cons_cons cfg
      · exact (ih (n + 1)).cons cfg

/-- The files once a text is written for each change. -/
def install (text : Change → Bytes) (files : Files) (changes : List Change) : Files :=
  changes.foldl (fun files change => Function.update files change.path (some (text change))) files

theorem install_of_not_mem {text : Change → Bytes} {files : Files} {changes : List Change} {path : Bytes}
    (h : path ∉ changes.map Change.path) : install text files changes path = files path := by
  induction changes generalizing files with
  | nil => rfl
  | cons change changes ih =>
    rw [List.map_cons, List.mem_cons, not_or] at h
    exact (ih h.2).trans (Function.update_of_ne h.1 _ _)

theorem install_of_mem {text : Change → Bytes} {files : Files} {changes : List Change} {change : Change}
    (hnodup : (changes.map Change.path).Nodup) (h : change ∈ changes) :
    install text files changes change.path = some (text change) := by
  induction changes generalizing files with
  | nil => cases h
  | cons first changes ih =>
    rw [List.map_cons, List.nodup_cons] at hnodup
    rcases List.mem_cons.mp h with rfl | h
    · exact (install_of_not_mem hnodup.1).trans (Function.update_self _ _ _)
    · exact ih hnodup.2 h

theorem install_isSome {text : Change → Bytes} {files : Files} (changes : List Change) {path : Bytes}
    (h : (files path).isSome) : (install text files changes path).isSome := by
  induction changes generalizing files with
  | nil => exact h
  | cons change changes ih =>
    refine ih ?_
    dsimp only
    by_cases heq : path = change.path
    · rw [heq, Function.update_self]
      rfl
    · rwa [Function.update_of_ne heq]

theorem replace_run {path contents : Bytes} (hfile : (s.files path).isSome) :
    replaceFileContentsAtomic outcomes path contents s =
      .ok (outcomes.replace s.replacements) { s with
        replacements := s.replacements + 1
        files := if (outcomes.replace s.replacements).isSome then s.files
          else Function.update s.files path (some contents) } := by
  unfold replaceFileContentsAtomic
  obtain ⟨original, horiginal⟩ := Option.isSome_iff_exists.mp hfile
  rw [horiginal]
  cases outcomes.replace s.replacements <;> rfl

/-- Changes are undone, or a roll back has failed. -/
theorem rollBack_run (e : Error) {changes : List Change} (hfiles : ∀ change ∈ changes, (s.files change.path).isSome) :
    ((∀ i < changes.length, outcomes.replace (s.replacements + i) = none) ∧
      rollBack outcomes e changes s = .error e { s with
        files := install Change.original s.files changes
        replacements := s.replacements + changes.length }) ∨
    ((∃ i < changes.length, (outcomes.replace (s.replacements + i)).isSome) ∧
      ∃ e' s', rollBack outcomes e changes s = .error e' s' ∧ s'.rollbackFailed = true) := by
  induction changes generalizing s with
  | nil => exact .inl ⟨fun i hi => absurd hi (Nat.not_lt_zero i), rfl⟩
  | cons change changes ih =>
    rw [List.forall_mem_cons] at hfiles
    unfold rollBack
    rw [bind_run_ok _ (replace_run hfiles.1)]
    cases hreplace : outcomes.replace s.replacements with
    | some failure => exact .inr ⟨⟨0, Nat.succ_pos _, by rw [Nat.add_zero, hreplace]; rfl⟩, _, _, rfl, rfl⟩
    | none =>
      dsimp only
      rw [if_neg (by simp)]
      have hlater : ∀ later ∈ changes,
          (Function.update s.files change.path (some change.original) later.path).isSome :=
        fun later hlater => @install_isSome Change.original s.files [change] later.path (hfiles.2 later hlater)
      have hnext (i : Nat) : s.replacements + 1 + i = s.replacements + (i + 1) := by omega
      rcases @ih { s with
          replacements := s.replacements + 1
          files := Function.update s.files change.path (some change.original) } hlater with ⟨hall, hrun⟩ | ⟨⟨i, hi, hsome⟩, hrun⟩
      · refine .inl ⟨fun i hi => ?_, ?_⟩
        · cases i with
          | zero => exact hreplace
          | succ i =>
            rw [← hnext]
            exact hall i (Nat.lt_of_succ_lt_succ hi)
        · dsimp only at hrun
          rw [hrun, hnext]
          rfl
      · rw [hnext] at hsome
        exact .inr ⟨⟨i + 1, Nat.succ_lt_succ hi, hsome⟩, hrun⟩

/-- The first replacement that fails, of so many. -/
structure FirstFailure (outcomes : Outcomes) (n count j : Nat) (e : Error) : Prop where
  less : j < count
  fails : outcomes.replace (n + j) = some e
  before : ∀ i < j, outcomes.replace (n + i) = none

theorem FirstFailure.unique {n count j j' : Nat} {e e' : Error} (h : FirstFailure outcomes n count j e)
    (h' : FirstFailure outcomes n count j' e') : j = j' := by
  rcases Nat.lt_trichotomy j j' with hless | heq | hless
  · exact nomatch h.fails.symm.trans (h'.before j hless)
  · exact heq
  · exact nomatch h'.fails.symm.trans (h.before j' hless)

theorem applyChanges_run (applied : List Change) {changes : List Change} (hfiles : ∀ change ∈ changes, (s.files change.path).isSome) :
    ((∀ i < changes.length, outcomes.replace (s.replacements + i) = none) ∧
      applyChanges outcomes applied changes s = .ok () { s with
        files := install Change.updated s.files changes
        replacements := s.replacements + changes.length }) ∨
    (∃ j e, FirstFailure outcomes s.replacements changes.length j e ∧
      applyChanges outcomes applied changes s = rollBack outcomes e ((changes.take j).reverse ++ applied) { s with
        files := install Change.updated s.files (changes.take j)
        replacements := s.replacements + j + 1 }) := by
  induction changes generalizing s applied with
  | nil => exact .inl ⟨fun i hi => absurd hi (Nat.not_lt_zero i), rfl⟩
  | cons change changes ih =>
    rw [List.forall_mem_cons] at hfiles
    unfold applyChanges
    rw [bind_run_ok _ (replace_run hfiles.1)]
    cases hreplace : outcomes.replace s.replacements with
    | some failure => exact .inr ⟨0, failure, ⟨Nat.succ_pos _, hreplace, fun i hi => absurd hi (Nat.not_lt_zero i)⟩, rfl⟩
    | none =>
      dsimp only
      rw [if_neg (by simp)]
      have hlater : ∀ later ∈ changes,
          (Function.update s.files change.path (some change.updated) later.path).isSome :=
        fun later hlater => @install_isSome Change.updated s.files [change] later.path (hfiles.2 later hlater)
      have hnext (i : Nat) : s.replacements + 1 + i = s.replacements + (i + 1) := by omega
      rcases @ih { s with
          replacements := s.replacements + 1
          files := Function.update s.files change.path (some change.updated) } (change :: applied) hlater with ⟨hall, hrun⟩ | ⟨j, e, hfirst, hrun⟩
      · refine .inl ⟨fun i hi => ?_, ?_⟩
        · cases i with
          | zero => exact hreplace
          | succ i =>
            rw [← hnext]
            exact hall i (Nat.lt_of_succ_lt_succ hi)
        · dsimp only at hrun
          rw [hrun, hnext]
          rfl
      · refine .inr ⟨j + 1, e, ⟨Nat.succ_lt_succ hfirst.less, (hnext j) ▸ hfirst.fails, fun i hi => ?_⟩, ?_⟩
        · cases i with
          | zero => exact hreplace
          | succ i =>
            rw [← hnext]
            exact hfirst.before i (Nat.lt_of_succ_lt_succ hi)
        · dsimp only at hrun
          rw [hrun, hnext, List.take_succ_cons, List.reverse_cons, List.append_assoc]
          rfl

/-- The audit reads every file that is there, and finds no setting in what it reads. -/
def AuditPasses (outcomes : Outcomes) (files : Files) (n : Nat) (cfgs : List Bytes) : Prop :=
  ∀ k cfg, cfgs[k]? = some cfg → ∃ count, outcomes.read (n + k) = .ok count ∧
    ∀ contents, files cfg = some contents → ¬ HasSetting (textRead count contents)

theorem auditPasses_cons {files : Files} {n : Nat} {cfg : Bytes} : AuditPasses outcomes files n (cfg :: cfgs) ↔
    (∃ count, outcomes.read n = .ok count ∧ ∀ contents, files cfg = some contents → ¬ HasSetting (textRead count contents)) ∧
      AuditPasses outcomes files (n + 1) cfgs := by
  constructor
  · intro h
    refine ⟨h 0 cfg rfl, fun k cfg' hcfg => ?_⟩
    rw [Nat.add_right_comm]
    exact h (k + 1) cfg' hcfg
  · rintro ⟨hfirst, hlater⟩ k cfg' hcfg
    cases k with
    | zero =>
      cases hcfg
      exact hfirst
    | succ k =>
      have hread := hlater k cfg' hcfg
      rwa [Nat.add_right_comm] at hread

theorem report_run (message : Bytes) (status : Status) (s : Run) :
    report message status s = .ok status { s with indicators := s.indicators ++ [{ message, status }] } := rfl

theorem auditFiles_run (cfgs : List Bytes) (s : Run) :
    ∃ s', s'.files = s.files ∧ s'.rollbackFailed = s.rollbackFailed ∧
      ((AuditPasses outcomes s.files s.reads cfgs ∧ auditFiles outcomes cfgs s = .ok .compliant s') ∨
        (¬ AuditPasses outcomes s.files s.reads cfgs ∧
          (auditFiles outcomes cfgs s = .ok .nonCompliant s' ∨ ∃ e, auditFiles outcomes cfgs s = .error e s'))) := by
  induction cfgs generalizing s with
  | nil =>
    unfold auditFiles
    rw [report_run]
    refine ⟨{ s with indicators := s.indicators ++ [{ message := utf8 "Did not found xdmcp Enabled block", status := .compliant }] },
      rfl, rfl, .inl ⟨fun k cfg hcfg => ?_, rfl⟩⟩
    cases hcfg
  | cons cfg cfgs ih =>
    unfold auditFiles
    rw [auditPasses_cons]
    cases hread : outcomes.read s.reads with
    | error e =>
      refine ⟨{ s with reads := s.reads + 1 }, rfl, rfl, .inr ⟨?_, .inr ⟨e, ?_⟩⟩⟩
      · rintro ⟨⟨count, hcount, -⟩, -⟩
        cases hcount
      · have hget : getFileContents outcomes cfg s = .ok (.error e) { s with reads := s.reads + 1 } := by
          unfold getFileContents
          rw [hread]
        rw [bind_run_ok _ hget]
        dsimp only
        rw [if_pos (outcomes.present _ e hread)]
        rfl
    | ok count =>
      rw [bind_run_ok _ (getFileContents_run cfg hread)]
      obtain ⟨s', hfiles, hflag, hlater⟩ := ih { s with reads := s.reads + 1 }
      have hgoesOn (file : Option Bytes) (hnone : ∀ contents, file = some contents → ¬ HasSetting (textRead count contents)) :
          AuditPasses outcomes s.files (s.reads + 1) cfgs ↔
          (∃ count', Except.ok (ε := Error) count = .ok count' ∧
              ∀ contents, file = some contents → ¬ HasSetting (textRead count' contents)) ∧
            AuditPasses outcomes s.files (s.reads + 1) cfgs := by
        constructor
        · exact fun h => ⟨⟨count, rfl, hnone⟩, h⟩
        · exact And.right
      cases hfile : s.files cfg with
      | none =>
        have hseen : seen outcomes s.files s.reads cfg = none := by rw [seen, hread, hfile]; rfl
        rw [hseen, ← hgoesOn none fun contents h => nomatch h]
        dsimp only
        rw [if_neg (not_not_intro rfl)]
        exact ⟨s', hfiles, hflag, hlater⟩
      | some contents =>
        have hseen : seen outcomes s.files s.reads cfg = some (textRead count contents) := by rw [seen, hread, hfile]; rfl
        rw [hseen]
        dsimp only
        by_cases hsetting : HasSetting (textRead count contents)
        · rw [if_pos (disableXdmcp_changes.mpr hsetting), report_run]
          refine ⟨{ s with
            reads := s.reads + 1
            indicators := s.indicators ++ [{ message := utf8 "Found xdmcp Enabled block", status := .nonCompliant }] },
            rfl, rfl, .inr ⟨?_, .inl rfl⟩⟩
          rintro ⟨⟨count', hcount, hnone⟩, -⟩
          cases hcount
          exact hnone contents rfl hsetting
        · rw [if_neg (mt disableXdmcp_changes.mp hsetting), ← hgoesOn]
          · exact ⟨s', hfiles, hflag, hlater⟩
          · intro contents' hcontents
            cases hcontents
            exact hsetting

end Steps

section Law

open ConfigRewrite (textRead)

variable {outcomes : Outcomes} {files : Files}

def final : EStateM.Result Error Run Status → Run
  | .ok _ s => s
  | .error _ s => s

/-- What a remediation of these files leaves behind, for what it returns. -/
structure AllOrNothing (files : Files) (result : EStateM.Result Error Run Status) : Prop where
  disabled : ∀ s, result = .ok .compliant s → ∀ cfg ∈ cXdmcpFiles, ∀ original, files cfg = some original →
    ∃ updated, s.files cfg = some updated ∧ Disabled original updated
  restored : (∀ s, result ≠ .ok .compliant s) → (final result).rollbackFailed = false →
    ∀ cfg ∈ cXdmcpFiles, (final result).files cfg = files cfg

/-- The texts that are to be changed, as they are read. -/
def changesFound (outcomes : Outcomes) (files : Files) : List Change := changesOf outcomes files 0 cXdmcpFiles

/-- What is written can be made good, and what is not written needs no change. -/
structure Recoverable (outcomes : Outcomes) (files : Files) : Prop where
  /-- What is rolled back has been read to its end. -/
  undone : ∀ j e, FirstFailure outcomes 0 (changesFound outcomes files).length j e →
    (∀ i < j, outcomes.replace (j + 1 + i) = none) →
      ∀ change ∈ (changesFound outcomes files).take j, files change.path = some change.original
  /-- Where the last audit passes, what has not been read to its end has no setting before or after that. -/
  passed : (∀ i < (changesFound outcomes files).length, outcomes.replace i = none) →
    AuditPasses outcomes (install Change.updated files (changesFound outcomes files)) cXdmcpFiles.length cXdmcpFiles →
      ∀ k cfg original text, cXdmcpFiles[k]? = some cfg → files cfg = some original → seen outcomes files k cfg = some text →
        text = original ∨ (¬ HasSetting text ∧ ¬ HasSetting original)
  refused : (∀ i < (changesFound outcomes files).length, outcomes.replace i = none) →
    ¬ AuditPasses outcomes (install Change.updated files (changesFound outcomes files)) cXdmcpFiles.length cXdmcpFiles →
      changesFound outcomes files = []

theorem nodup_cXdmcpFiles : cXdmcpFiles.Nodup := by decide +kernel

theorem nodup_changesFound (outcomes : Outcomes) (files : Files) :
    ((changesFound outcomes files).map Change.path).Nodup :=
  nodup_cXdmcpFiles.sublist (paths_changesOf outcomes files 0 cXdmcpFiles)

/-- A change is found in a file that is there, in what is read of it. -/
theorem mem_changesFound {change : Change} : change ∈ changesFound outcomes files ↔
    ∃ k cfg count contents, cXdmcpFiles[k]? = some cfg ∧ outcomes.read k = .ok count ∧ files cfg = some contents ∧
      HasSetting (textRead count contents) ∧ change =
        { path := cfg, original := textRead count contents, updated := (disableXdmcp (textRead count contents)).1 } := by
  rw [changesFound, mem_changesOf]
  simp only [Nat.zero_add]
  constructor
  · rintro ⟨k, cfg, text, hcfg, hseen, h⟩
    unfold seen at hseen
    cases hread : outcomes.read k with
    | error e =>
      rw [hread] at hseen
      cases hseen
    | ok count =>
      rw [hread] at hseen
      obtain ⟨contents, hfile, rfl⟩ := Option.map_eq_some_iff.mp hseen
      exact ⟨k, cfg, count, contents, hcfg, hread, hfile, h⟩
  · rintro ⟨k, cfg, count, contents, hcfg, hread, hfile, h⟩
    refine ⟨k, cfg, textRead count contents, hcfg, ?_, h⟩
    rw [seen, hread, hfile]
    rfl

theorem textRead_isPrefix (count : Nat) (contents : Bytes) : textRead count contents <+: contents :=
  (List.takeWhile_prefix _).trans (List.take_prefix _ _)

/-- What a text becomes is not what it is read from. -/
theorem disableXdmcp_ne_contents {count : Nat} {contents : Bytes} (h : HasSetting (textRead count contents)) :
    (disableXdmcp (textRead count contents)).1 ≠ contents := by
  intro heq
  have htwice : (disableXdmcp (textRead count contents)).1 = (disableXdmcp contents).1 := by
    calc (disableXdmcp (textRead count contents)).1
        = (disableXdmcp (disableXdmcp (textRead count contents)).1).1 := by rw [disableXdmcp_idempotent]
      _ = (disableXdmcp contents).1 := by rw [heq]
  have hall := disableXdmcp_of_isPrefix (textRead_isPrefix count contents) htwice
  rw [hall] at heq h
  exact not_hasSetting_disableXdmcp contents (heq.symm ▸ h)

theorem fails_iff {result : EStateM.Result Error Run Status} (hfails : ∀ s, result ≠ .ok .compliant s) :
    AllOrNothing files result ↔
      ((final result).rollbackFailed = false → ∀ cfg ∈ cXdmcpFiles, (final result).files cfg = files cfg) := by
  constructor
  · intro h
    exact h.restored hfails
  · intro h
    exact ⟨fun s hs => absurd hs (hfails s), fun _ => h⟩

theorem restored_iff {result : EStateM.Result Error Run Status} {s : Run} (hfails : ∀ t, result ≠ .ok .compliant t)
    (hfinal : final result = s) (hflag : s.rollbackFailed = false) :
    AllOrNothing files result ↔ ∀ cfg ∈ cXdmcpFiles, s.files cfg = files cfg := by
  rw [fails_iff hfails, hfinal]
  exact ⟨fun h => h hflag, fun h _ => h⟩

theorem error_iff {e : Error} {s : Run} (hflag : s.rollbackFailed = false) :
    AllOrNothing files (.error e s) ↔ ∀ cfg ∈ cXdmcpFiles, s.files cfg = files cfg :=
  restored_iff (fun _ ht => nomatch ht) rfl hflag

theorem files_changesFound : ∀ change ∈ changesFound outcomes files, (files change.path).isSome := by
  intro change hchange
  obtain ⟨k, cfg, count, contents, -, -, hfile, -, rfl⟩ := mem_changesFound.mp hchange
  rw [hfile]
  rfl

theorem mem_cXdmcpFiles {change : Change} (h : change ∈ changesFound outcomes files) : change.path ∈ cXdmcpFiles := by
  obtain ⟨k, cfg, -, -, hcfg, -, -, -, rfl⟩ := mem_changesFound.mp h
  exact List.mem_of_getElem? hcfg

/-- What has been undone is as it was where it was read to its end. -/
theorem undone_iff (j : Nat) :
    (∀ cfg ∈ cXdmcpFiles, install Change.original (install Change.updated files ((changesFound outcomes files).take j))
        ((changesFound outcomes files).take j).reverse cfg = files cfg) ↔
      ∀ change ∈ (changesFound outcomes files).take j, files change.path = some change.original := by
  have hnodup : (((changesFound outcomes files).take j).map Change.path).Nodup :=
    (nodup_changesFound outcomes files).sublist ((List.take_sublist _ _).map _)
  have hreverse : ((((changesFound outcomes files).take j).reverse).map Change.path).Nodup := by
    rw [List.map_reverse]
    exact List.nodup_reverse.mpr hnodup
  have hundone {change : Change} (h : change ∈ (changesFound outcomes files).take j) :
      install Change.original (install Change.updated files ((changesFound outcomes files).take j))
        ((changesFound outcomes files).take j).reverse change.path = some change.original :=
    install_of_mem hreverse (List.mem_reverse.mpr h)
  constructor
  · intro h change hchange
    rw [← h change.path (mem_cXdmcpFiles (List.mem_of_mem_take hchange)), hundone hchange]
  · intro h cfg hcfg
    by_cases hmem : cfg ∈ ((changesFound outcomes files).take j).map Change.path
    · obtain ⟨change, hchange, rfl⟩ := List.mem_map.mp hmem
      rw [hundone hchange, h change hchange]
    · have hnot : cfg ∉ (((changesFound outcomes files).take j).reverse).map Change.path := by
        rwa [List.map_reverse, List.mem_reverse]
      rw [install_of_not_mem hnot, install_of_not_mem hmem]

/-- What has been replaced is not as it was. -/
theorem refused_iff : (∀ cfg ∈ cXdmcpFiles, install Change.updated files (changesFound outcomes files) cfg = files cfg) ↔
    changesFound outcomes files = [] := by
  constructor
  · intro h
    rw [List.eq_nil_iff_forall_not_mem]
    intro change hchange
    have hsame := h change.path (mem_cXdmcpFiles hchange)
    rw [install_of_mem (nodup_changesFound outcomes files) hchange] at hsame
    obtain ⟨k, cfg, count, contents, -, -, hfile, hsetting, rfl⟩ := mem_changesFound.mp hchange
    rw [hfile, Option.some.injEq] at hsame
    exact disableXdmcp_ne_contents hsetting hsame
  · intro h cfg _
    rw [h]
    rfl

/-- Each file that is there has its settings switched off where it was read to its end, or has none. -/
theorem passed_iff {s : Run} (hreads : ReadsWell outcomes 0 cXdmcpFiles)
    (hfiles : s.files = install Change.updated files (changesFound outcomes files)) :
    AllOrNothing files (.ok .compliant s) ↔
      ∀ k cfg original text, cXdmcpFiles[k]? = some cfg → files cfg = some original → seen outcomes files k cfg = some text →
        text = original ∨ (¬ HasSetting text ∧ ¬ HasSetting original) := by
  have hone {k : Nat} {cfg original text : Bytes} (hcfg : cXdmcpFiles[k]? = some cfg) (hfile : files cfg = some original)
      (hseen : seen outcomes files k cfg = some text) :
      (∃ updated, s.files cfg = some updated ∧ Disabled original updated) ↔
        text = original ∨ (¬ HasSetting text ∧ ¬ HasSetting original) := by
    obtain ⟨count, hread, rfl⟩ : ∃ count, outcomes.read k = .ok count ∧ text = textRead count original := by
      obtain ⟨count, hread⟩ := hreads k (List.getElem?_eq_some_iff.mp hcfg).1
      rw [Nat.zero_add] at hread
      refine ⟨count, hread, ?_⟩
      rw [seen, hread, hfile] at hseen
      exact (Option.some.inj hseen).symm
    rw [hfiles]
    by_cases hsetting : HasSetting (textRead count original)
    · have hinstalled : install Change.updated files (changesFound outcomes files) cfg =
          some (disableXdmcp (textRead count original)).1 :=
        install_of_mem (nodup_changesFound outcomes files)
          (mem_changesFound.mpr ⟨k, cfg, count, original, hcfg, hread, hfile, hsetting, rfl⟩)
      rw [hinstalled]
      constructor
      · rintro ⟨updated, hupdated, hdisabled⟩
        cases hupdated
        exact .inl (disableXdmcp_of_isPrefix (textRead_isPrefix count original) (disabled_iff.mp hdisabled))
      · rintro (hall | ⟨hnone, -⟩)
        · exact ⟨_, rfl, disabled_iff.mpr (by rw [hall])⟩
        · exact absurd hsetting hnone
    · have hnot : cfg ∉ (changesFound outcomes files).map Change.path := by
        intro hmem
        obtain ⟨change, hchange, hpath⟩ := List.mem_map.mp hmem
        obtain ⟨k', cfg', count', contents, hcfg', hread', hfile', hsetting', rfl⟩ := mem_changesFound.mp hchange
        obtain rfl : cfg' = cfg := hpath
        obtain rfl := (List.getElem?_inj (List.getElem?_eq_some_iff.mp hcfg).1 nodup_cXdmcpFiles).mp (hcfg.trans hcfg'.symm)
        rw [hread] at hread'
        rw [hfile] at hfile'
        cases hread'
        cases hfile'
        exact hsetting hsetting'
      rw [install_of_not_mem hnot, hfile]
      constructor
      · rintro ⟨updated, hupdated, hdisabled⟩
        cases hupdated
        refine .inr ⟨hsetting, ?_⟩
        rw [disabled_iff.mp hdisabled]
        exact not_hasSetting_disableXdmcp original
      · intro h
        have hnone : ¬ HasSetting original := by
          rcases h with hall | ⟨-, hnone⟩
          · rwa [hall] at hsetting
          · exact hnone
        exact ⟨original, rfl, disabled_iff.mpr (disableXdmcp_of_not_hasSetting hnone).symm⟩
  constructor
  · intro h k cfg original text hcfg hfile hseen
    exact (hone hcfg hfile hseen).mp (h.disabled s rfl cfg (List.mem_of_getElem? hcfg) original hfile)
  · intro h
    refine ⟨?_, fun hnot => absurd rfl (hnot s)⟩
    rintro t ht cfg hcfg original hfile
    cases ht
    obtain ⟨k, hk⟩ := List.mem_iff_getElem?.mp hcfg
    obtain ⟨count, hread⟩ := hreads k (List.getElem?_eq_some_iff.mp hk).1
    have hseen : seen outcomes files k cfg = some (textRead count original) := by
      rw [Nat.zero_add] at hread
      rw [seen, hread, hfile]
      rfl
    exact (hone hk hfile hseen).mpr (h k cfg original _ hk hfile hseen)

/-- What is written is all or nothing exactly where it can be made good. -/
theorem remediateXdmcpDisabled_allOrNothing_iff (outcomes : Outcomes) (files : Files) :
    ((∀ contents, disableXdmcp (disableXdmcp contents).1 = ((disableXdmcp contents).1, false)) ∧
      AllOrNothing files (remediateXdmcpDisabled outcomes { files })) ↔
    (ReadsWell outcomes 0 cXdmcpFiles → Recoverable outcomes files) := by
  rw [and_iff_right disableXdmcp_idempotent]
  unfold remediateXdmcpDisabled
  rcases findChanges_run cXdmcpFiles { files } with ⟨hreads, hrun⟩ | ⟨hreads, e, n, hrun⟩
  · rw [bind_run_ok _ hrun]
    have hfound : changesOf outcomes files 0 cXdmcpFiles = changesFound outcomes files := rfl
    dsimp only at hreads ⊢
    rw [hfound, Nat.zero_add]
    let start : Run := { files, reads := cXdmcpFiles.length }
    rcases @applyChanges_run outcomes start [] _ files_changesFound with ⟨hall, happly⟩ | ⟨j, e, hfirst, happly⟩
    · have hnofailure {j : Nat} {e : Error} (h : FirstFailure outcomes 0 (changesFound outcomes files).length j e) : False :=
        nomatch (hall j h.less).symm.trans h.fails
      have hall' : ∀ i < (changesFound outcomes files).length, outcomes.replace i = none := by
        intro i hi
        rw [← hall i hi, Nat.zero_add]
      rw [bind_run_ok _ happly]
      obtain ⟨s', hfiles, hflag, haudit⟩ := @auditFiles_run outcomes cXdmcpFiles { start with
        files := install Change.updated files (changesFound outcomes files)
        replacements := start.replacements + (changesFound outcomes files).length }
      unfold auditXdmcpDisabled
      rcases haudit with ⟨hpasses, haudit⟩ | ⟨hfails, haudit⟩
      · rw [haudit, passed_iff hreads hfiles]
        constructor
        · exact fun h _ => ⟨fun j e hfirst => absurd hfirst hnofailure, fun _ _ => h, fun _ hnot => absurd hpasses hnot⟩
        · exact fun h => (h hreads).passed hall' hpasses
      · have hleft : AllOrNothing files (auditFiles outcomes cXdmcpFiles { start with
            files := install Change.updated files (changesFound outcomes files)
            replacements := start.replacements + (changesFound outcomes files).length }) ↔
            ∀ cfg ∈ cXdmcpFiles, s'.files cfg = files cfg := by
          rcases haudit with haudit | ⟨e, haudit⟩
          · rw [haudit]
            exact restored_iff (fun t ht => by cases ht) rfl hflag
          · rw [haudit]
            exact error_iff hflag
        rw [hleft, hfiles, refused_iff]
        constructor
        · exact fun h _ => ⟨fun j e hfirst => absurd hfirst hnofailure, fun _ hpasses => absurd hpasses hfails, fun _ _ => h⟩
        · exact fun h => (h hreads).refused hall' hfails
    · have hpresent : ∀ change ∈ (List.take j (changesFound outcomes files)).reverse ++ [],
          (install Change.updated files ((changesFound outcomes files).take j) change.path).isSome := by
        intro change hchange
        rw [List.append_nil, List.mem_reverse] at hchange
        exact install_isSome _ (files_changesFound change (List.mem_of_mem_take hchange))
      have hlength : ((changesFound outcomes files).take j).reverse.length = j := by
        rw [List.length_reverse, List.length_take, Nat.min_eq_left hfirst.less.le]
      have hnotall (h : ∀ i < (changesFound outcomes files).length, outcomes.replace i = none) : False := by
        have hnone := h j hfirst.less
        rw [← Nat.zero_add j] at hnone
        exact nomatch hfirst.fails.symm.trans hnone
      rcases @rollBack_run outcomes { start with
          files := install Change.updated files ((changesFound outcomes files).take j)
          replacements := start.replacements + j + 1 } e _ hpresent with ⟨hall, hback⟩ | ⟨⟨i, hi, hsome⟩, e', s', hback, hflag⟩
      · rw [List.append_nil] at hall
        rw [bind_run_error _ (happly.trans hback), error_iff rfl, List.append_nil]
        dsimp only
        rw [undone_iff]
        constructor
        · intro h _
          refine ⟨fun j' e' hfirst' _ => ?_, fun hall' => absurd hall' hnotall, fun hall' => absurd hall' hnotall⟩
          rwa [← hfirst.unique hfirst']
        · intro h
          refine (h hreads).undone j e hfirst fun i hi => ?_
          simpa [start] using hall i (by rwa [hlength])
      · rw [bind_run_error _ (happly.trans hback)]
        refine iff_of_true ?_ fun _ => ⟨fun j' e' hfirst' hall => ?_, fun hall' => absurd hall' hnotall,
          fun hall' => absurd hall' hnotall⟩
        · have hfails (t : Run) : (.error e' s' : EStateM.Result Error Run Status) ≠ .ok .compliant t := fun ht => nomatch ht
          exact (fails_iff hfails).mpr fun hnot => nomatch hflag.symm.trans hnot
        · rw [List.append_nil, hlength, hfirst.unique hfirst'] at hi
          have hnone := hall i hi
          rw [← hfirst.unique hfirst'] at hnone
          simp [start, hnone] at hsome
  · rw [bind_run_error _ hrun]
    refine iff_of_true ((error_iff rfl).mpr fun _ _ => rfl) fun h => absurd h hreads

/-- One file, with a setting in the section. -/
def enabledFile : Bytes := utf8 "[xdmcp]\nEnable=true\n"

def oneEnabled : Files := fun path => if path = utf8 "/etc/gdm3/custom.conf" then some enabledFile else none

/-- The last audit cannot read the file any more. -/
def lastReadFails : Outcomes where
  read n := if n < 4 then .ok 100 else .error { message := utf8 "Failed to load file contents", code := -1 }
  replace := fun _ => none
  noFile := { message := [], code := ENOENT }
  present := by
    intro n e h
    split_ifs at h
    cases h
    decide

/-- The file stays changed, and the error of the audit is returned. -/
theorem lastReadFails_keeps_change : ¬ AllOrNothing oneEnabled (remediateXdmcpDisabled lastReadFails { files := oneEnabled }) := by
  have hnone : (remediateXdmcpDisabled lastReadFails).run' { files := oneEnabled } = none := by decide +kernel
  have hflag : (final (remediateXdmcpDisabled lastReadFails { files := oneEnabled })).rollbackFailed = false := by
    decide +kernel
  intro h
  have hleft := h.restored (fun s hs => ?_) hflag (utf8 "/etc/gdm3/custom.conf") List.mem_cons_self
  · exact absurd hleft (by decide +kernel)
  · delta EStateM.run' EStateM.run at hnone
    rw [hs] at hnone
    cases hnone

end Law

end Kompli.XdmcpDisabled
