import Kompli.Procedures.KernelBlocks
import Kompli.Procedures.KernelModuleTools

/-! What the patterns of the audit match in the report of modprobe. -/
namespace Kompli.KernelModule
open Parson Ascii Foundation Streams Regex

section Compiled

/-- A dash and an underscore are one, and any other byte is itself. -/
def sameByte (c : UInt8) : UInt8 → Bool :=
  if c = 0x5F ∨ c = 0x2D then EcmaScript.oneOf false [fun d => d = 0x2D, fun d => d = 0x5F] else fun d => d = c

def nameRegexes (moduleName : Bytes) : List (Regex UInt8) := moduleName.map fun c => char (sameByte c)

def spaces : Regex UInt8 := plus (char EcmaScript.isSpace)

def blocklistRegex (moduleName : Bytes) : Regex UInt8 :=
  seqs (.start :: (literal (utf8 "blacklist") ++ (spaces :: (nameRegexes moduleName ++ [.stop]))))

def installRegex (moduleName : Bytes) : Regex UInt8 :=
  seqs (.start :: (literal (utf8 "install") ++ (spaces :: (nameRegexes moduleName ++
    (spaces :: optional (seqs (literal (utf8 "/usr"))) :: (literal (utf8 "/bin/") ++
      [.alt (seqs (literal (utf8 "true"))) (seqs (literal (utf8 "false")))]))))))

def isNameByte (c : UInt8) : Bool := isAlnum c || c ∈ utf8 "_-"

private theorem readByte_alnum {c : UInt8} (h : isAlnum c = true) :
    EcmaScript.readByte .pattern c = some (.pattern, [.atom (.char fun d => d = c)]) := by
  have hplain := forall_byte (P := fun c => isAlnum c = true → c ∉ utf8 "\\[^$.*+?|()]\x7b\x7d") (by decide +kernel) c h
  have hbytes : utf8 "\\[^$.*+?|()]\x7b\x7d" =
      [0x5C, 0x5B, 0x5E, 0x24, 0x2E, 0x2A, 0x2B, 0x3F, 0x7C, 0x28, 0x29] ++ utf8 "]\x7b\x7d" := by decide +kernel
  rw [hbytes] at hplain
  simp only [List.mem_append, List.mem_cons, List.not_mem_nil, or_false, not_or] at hplain
  simp only [EcmaScript.readByte, EcmaScript.readPattern, hplain, if_false]

private theorem advance_name {moduleName : Bytes} (h : ∀ c ∈ moduleName, isNameByte c = true) :
    EcmaScript.advance .pattern (underscoreForRegex moduleName) =
      some (.pattern, (nameRegexes moduleName).map EcmaScript.Token.atom) := by
  induction moduleName with
  | nil => rfl
  | cons c moduleName ih =>
    rw [List.forall_mem_cons] at h
    have hfirst : EcmaScript.advance .pattern (if c = 0x5F ∨ c = 0x2D then utf8 "[-_]" else [c]) =
        some (.pattern, [.atom (char (sameByte c))]) := by
      rw [sameByte]
      split_ifs with hsign
      · rfl
      · have halnum : isAlnum c = true := by
          have hc := h.1
          rw [isNameByte, Bool.or_eq_true, decide_eq_true_eq] at hc
          have hsigns : utf8 "_-" = [0x5F, 0x2D] := by decide
          rw [hsigns] at hc
          exact hc.resolve_right fun hmem => hsign (by simpa using hmem)
        rw [EcmaScript.advance, readByte_alnum halnum]
        rfl
    exact EcmaScript.advance_append hfirst (ih h.2)

variable {moduleName : Bytes}

theorem compile_blocklistPattern (h : ∀ c ∈ moduleName, isNameByte c = true) :
    EcmaScript.compile (blocklistPattern moduleName) = some (blocklistRegex moduleName) := by
  let terms := spaces :: (Regex.start :: literal (utf8 "blacklist")).reverse
  have hstart : ∃ found, EcmaScript.advance .pattern (utf8 "^blacklist\\s+") = some (.pattern, found) ∧
      ∀ rest, EcmaScript.readTokens {} [] (found ++ rest) = EcmaScript.readTokens { terms } [] rest :=
    ⟨_, rfl, fun rest => rfl⟩
  have hstop : EcmaScript.tokens .pattern (utf8 "$") = some [.assertion .stop] := rfl
  obtain ⟨found, hadvance, hread⟩ := hstart
  obtain ⟨quantifiable, hname⟩ := EcmaScript.readTokens_atoms (nameRegexes moduleName) { terms } []
  rw [EcmaScript.compile, blocklistPattern, List.append_assoc, EcmaScript.tokens_append hadvance,
    EcmaScript.tokens_append (advance_name h), hstop]
  simp only [Option.map_some, Option.bind_some]
  rw [hread, hname]
  simp [EcmaScript.readTokens, EcmaScript.readToken, EcmaScript.Group.add, EcmaScript.Group.regex, blocklistRegex, terms]

theorem compile_installPattern (h : ∀ c ∈ moduleName, isNameByte c = true) :
    EcmaScript.compile (installPattern moduleName) = some (installRegex moduleName) := by
  let terms := spaces :: (Regex.start :: literal (utf8 "install")).reverse
  let lastTerms := [spaces, optional (seqs (literal (utf8 "/usr")))] ++ literal (utf8 "/bin/") ++
      [.alt (seqs (literal (utf8 "true"))) (seqs (literal (utf8 "false")))]
  have hstart : ∃ found, EcmaScript.advance .pattern (utf8 "^install\\s+") = some (.pattern, found) ∧
      ∀ rest, EcmaScript.readTokens {} [] (found ++ rest) = EcmaScript.readTokens { terms } [] rest :=
    ⟨_, rfl, fun rest => rfl⟩
  have hstop : ∃ found, EcmaScript.tokens .pattern (utf8 "\\s+(/usr)?/bin/(true|false)") = some found ∧
      ∀ terms quantifiable, EcmaScript.readTokens { terms, quantifiable } [] found =
        some (seqs (lastTerms.reverse ++ terms).reverse) :=
    ⟨_, rfl, fun terms quantifiable => rfl⟩
  obtain ⟨found, hadvance, hread⟩ := hstart
  obtain ⟨last, htokens, hlast⟩ := hstop
  obtain ⟨quantifiable, hname⟩ := EcmaScript.readTokens_atoms (nameRegexes moduleName) { terms } []
  rw [EcmaScript.compile, installPattern, List.append_assoc, EcmaScript.tokens_append hadvance,
    EcmaScript.tokens_append (advance_name h), htokens]
  simp only [Option.map_some, Option.bind_some]
  rw [hread, hname, hlast]
  simp [installRegex, terms, lastTerms]

end Compiled

section Matched

variable {moduleName : Bytes} {before s after : Bytes}

/-- A name that is the same up to dashes and underscores. -/
def SameName (moduleName name : Bytes) : Prop := List.Forall₂ (fun c d => sameByte c d = true) moduleName name

theorem SameName.refl (moduleName : Bytes) : SameName moduleName moduleName := by
  refine List.forall₂_same.mpr fun c _ => ?_
  rw [sameByte]
  split_ifs with hsign
  · rcases hsign with rfl | rfl <;> decide
  · exact decide_eq_true rfl

theorem matches_name : (seqs (nameRegexes moduleName)).Matches before s after ↔ SameName moduleName s := by
  induction moduleName generalizing before s with
  | nil =>
    refine matches_seqs_nil.trans ⟨?_, List.forall₂_nil_left_iff.mp⟩
    rintro rfl
    exact .nil
  | cons c moduleName ih =>
    rw [nameRegexes, List.map_cons, matches_seqs_cons]
    constructor
    · rintro ⟨first, rest, rfl, ⟨d, rfl, hd⟩, hrest⟩
      exact .cons hd (ih.mp hrest)
    · rintro (_ | ⟨hd, hrest⟩)
      exact ⟨_, _, rfl, ⟨_, rfl, hd⟩, ih.mpr hrest⟩

private theorem matches_spaces : spaces.Matches before s after ↔ s ≠ [] ∧ ∀ c ∈ s, EcmaScript.isSpace c = true :=
  matches_plus_char

/-- The directive, white space and the name are all of the line. -/
theorem finds_blocklist_iff {line : Bytes} : (blocklistRegex moduleName).Finds line ↔
    ∃ gap name, line = utf8 "blacklist" ++ (gap ++ name) ∧ (gap ≠ [] ∧ ∀ c ∈ gap, EcmaScript.isSpace c = true) ∧
      SameName moduleName name := by
  rw [blocklistRegex, finds_start]
  constructor
  · rintro ⟨s, after, rfl, h⟩
    obtain ⟨directive, s, rfl, hdirective, h⟩ := matches_seqs_append.mp h
    obtain ⟨gap, s, rfl, hgap, h⟩ := matches_seqs_cons.mp h
    obtain ⟨name, s, rfl, hname, h⟩ := matches_seqs_append.mp h
    obtain ⟨first, rest, rfl, ⟨rfl, hafter⟩, rfl⟩ := matches_seqs_cons.mp h
    obtain rfl := matches_literal.mp hdirective
    rw [List.nil_append] at hafter
    exact ⟨gap, name, by simp [hafter], matches_spaces.mp hgap, matches_name.mp hname⟩
  · rintro ⟨gap, name, rfl, hgap, hname⟩
    refine ⟨utf8 "blacklist" ++ (gap ++ name), [], by simp, matches_seqs_append.mpr ?_⟩
    refine ⟨_, gap ++ name, rfl, matches_literal.mpr rfl, matches_seqs_cons.mpr ?_⟩
    refine ⟨gap, name, rfl, matches_spaces.mpr hgap, matches_seqs_append.mpr ?_⟩
    exact ⟨name, [], by simp, matches_name.mpr hname, [], [], rfl, ⟨rfl, rfl⟩, rfl⟩

/-- A program that does nothing is run in place of the module's. -/
theorem finds_install (moduleName : Bytes) :
    (installRegex moduleName).Finds (utf8 "install " ++ moduleName ++ utf8 " /bin/false") := by
  have hspace : ([0x20] : Bytes) ≠ [] ∧ ∀ c ∈ ([0x20] : Bytes), EcmaScript.isSpace c = true := by decide +kernel
  have hline : utf8 "install " ++ moduleName ++ utf8 " /bin/false" =
      utf8 "install" ++ ([0x20] ++ (moduleName ++ ([0x20] ++ ([] ++ (utf8 "/bin/" ++ (utf8 "false" ++ [])))))) := rfl
  rw [installRegex, finds_start]
  refine ⟨_, [], (List.append_nil _).symm, ?_⟩
  rw [hline]
  refine matches_seqs_append.mpr ⟨_, _, rfl, matches_literal.mpr rfl, ?_⟩
  refine matches_seqs_cons.mpr ⟨_, _, rfl, matches_spaces.mpr hspace, ?_⟩
  refine matches_seqs_append.mpr ⟨_, _, rfl, matches_name.mpr (.refl moduleName), ?_⟩
  refine matches_seqs_cons.mpr ⟨_, _, rfl, matches_spaces.mpr hspace, ?_⟩
  refine matches_seqs_cons.mpr ⟨_, _, rfl, matches_optional.mpr (.inr rfl), ?_⟩
  refine matches_seqs_append.mpr ⟨_, _, rfl, matches_literal.mpr rfl, ?_⟩
  exact matches_seqs_cons.mpr ⟨_, _, rfl, .inr (matches_literal.mpr rfl), rfl⟩

end Matched

section Report

variable {moduleName : Bytes}

/-- The report has lines of the block only, and both of its directives; it may leave the marks out. -/
structure ReportsBlock (moduleName report : Bytes) : Prop where
  line : ∀ line ∈ lines report, line ∈ lines (block moduleName)
  blacklist : utf8 "blacklist " ++ moduleName ∈ lines report
  install : utf8 "install " ++ moduleName ++ utf8 " /bin/false" ∈ lines report

theorem isNameByte_of_valid (h : isValidModuleName moduleName = true) : ∀ c ∈ moduleName, isNameByte c = true := by
  rw [isValidModuleName, Bool.and_eq_true, List.all_eq_true] at h
  exact h.2

theorem lines_block (h : isValidModuleName moduleName = true) :
    lines (block moduleName) = [managedBlockStart moduleName, utf8 "blacklist " ++ moduleName,
      utf8 "install " ++ moduleName ++ utf8 " /bin/false", managedBlockEnd moduleName] := by
  have hname : newline ∉ moduleName := newline_not_mem h
  have hfalse : utf8 " /bin/false\n" = utf8 " /bin/false" ++ [newline] := by decide
  have hblock : block moduleName = [managedBlockStart moduleName, utf8 "blacklist " ++ moduleName,
      utf8 "install " ++ moduleName ++ utf8 " /bin/false", managedBlockEnd moduleName].flatMap fun line =>
        line ++ [newline] := by
    simp [block, hfalse]
  have htexts : newline ∉ utf8 "# BEGIN KOMPLI DISABLE " ∧ newline ∉ utf8 "blacklist " ∧ newline ∉ utf8 "install " ∧
      newline ∉ utf8 " /bin/false" ∧ newline ∉ utf8 "# END KOMPLI DISABLE " := by decide +kernel
  obtain ⟨hstart, hblacklist, hinstall, hmask, hend⟩ := htexts
  rw [hblock, lines_flatMap, List.map_id']
  simp only [List.forall_mem_cons, managedBlockStart, managedBlockEnd, List.mem_append, not_or]
  exact ⟨⟨hstart, hname⟩, ⟨hblacklist, hname⟩, ⟨⟨hinstall, hname⟩, hmask⟩, ⟨hend, hname⟩, fun _ h => absurd h List.not_mem_nil⟩

theorem reportsBlock_block (h : isValidModuleName moduleName = true) : ReportsBlock moduleName (block moduleName) where
  line line hline := hline
  blacklist := by simp [lines_block h]
  install := by simp [lines_block h]

end Report

end Kompli.KernelModule
