import Kompli.ComplianceEngine.Indicators
import Kompli.Foundation.Lines
import Kompli.Foundation.MapEntries
import Mathlib.Data.List.Nodup

/-! The search for values that a column of a file has more than once, and the last field of a line, which is missed where
it is empty. -/
namespace Kompli.NoDuplicateEntries
open Foundation
open Streams (lines)

structure Params where
  filename : Bytes
  delimiter : Bytes
  column : Int := 0
  context : Option Bytes := none

/-- A status, and what is shown for it. -/
structure Checked where
  status : Status
  indicators : List Indicator

/-- The two sets of values. -/
structure Entries where
  uniqueEntries : ByteMap Unit := ∅
  duplicateEntries : ByteMap Unit := ∅

def addEntry (entries : Entries) (token : Bytes) : Entries :=
  if token ∈ entries.uniqueEntries then
    { entries with duplicateEntries := entries.duplicateEntries.insert token () }
  else { entries with uniqueEntries := entries.uniqueEntries.insert token () }

def outOfBounds : Error := { message := utf8 "Column index out of bounds", code := EINVAL }

/-- The tokens up to the column are read from the line one after the other. -/
def readLine (delimiter : UInt8) (column : Nat) (entries : Entries) (line : Bytes) : Except Error Entries :=
  match nthToken delimiter column line with
  | none => .error outOfBounds
  | some token => .ok (addEntry entries token)

def duplicate (entry : Bytes) : Indicator :=
  { message := utf8 "Duplicate entry: '" ++ entry ++ utf8 "'", status := .nonCompliant }

def noDuplicate (params : Params) : Indicator where
  message := utf8 "No duplicate " ++ params.context.getD (utf8 "entries") ++ utf8 " found in " ++ params.filename
  status := .compliant

def conclude (params : Params) (entries : Entries) : Checked :=
  if entries.duplicateEntries.keys ≠ [] then
    { status := .nonCompliant, indicators := entries.duplicateEntries.keys.map duplicate }
  else { status := .compliant, indicators := [noDuplicate params] }

/-- A file that cannot be opened has no content. -/
def auditNoDuplicateEntries (readFile : Bytes → Option Bytes) (params : Params) : Except Error Checked :=
  match params.delimiter with
  | [delimiter] =>
    if params.column < 0 then .error { message := utf8 "Column must be a non-negative integer", code := EINVAL }
    else
      match readFile params.filename with
      | none => .error { message := utf8 "Failed to open file: " ++ params.filename, code := ENOENT }
      | some content =>
        (conclude params ·) <$> (lines content).foldlM (readLine delimiter params.column.toNat) {}
  | _ => .error { message := utf8 "Delimiter must be a single character", code := EINVAL }

section Column

variable (delimiter : UInt8) (column : Nat) (line content : Bytes)

/-- The pieces between the delimiters. -/
def fields : List Bytes := line.splitOn delimiter

/-- The line is empty or has no such column. -/
def Lacking : Prop := line = [] ∨ (fields delimiter line).length ≤ column

/-- The column is an empty field at the end of the line. -/
def EndsEmpty : Prop := line.getLast? = some delimiter ∧ (fields delimiter line).length = column + 1

/-- The greatest `int`. -/
def intMax : Nat := 2147483647

/-- The loop counts the tokens of a line with an `int`, which does not come to its end on a line that is read. -/
def CountsInInt (content : Bytes) : Prop :=
  ∀ before line after, lines content = before ++ line :: after →
    (∀ earlier ∈ before, (nthToken delimiter column earlier).isSome) →
      intMax ≤ column → nthToken delimiter intMax line = none

def fieldAt : Bytes := (fields delimiter line)[column]?.getD []

def columnOf : List Bytes := (lines content).map (fieldAt delimiter column)

/-- The audit fails where a line lacks the column, and otherwise finds the values that the column has more than once. -/
structure Right (params : Params) (result : Except Error Checked) : Prop where
  refuses : (∃ line ∈ lines content, Lacking delimiter column line) → ∃ e, result = .error e
  decides : (¬∃ line ∈ lines content, Lacking delimiter column line) →
    ∃ (status : Status) (reported : List Bytes), result = .ok ⟨status, if (columnOf delimiter column content).Nodup then [noDuplicate params] else reported.map duplicate⟩ ∧
      (status = .compliant ↔ (columnOf delimiter column content).Nodup) ∧ reported.Nodup ∧
      ∀ value, value ∈ reported ↔ 2 ≤ (columnOf delimiter column content).count value

end Column

section Reading

variable {delimiter : UInt8} {column : Nat} {line content : Bytes}

/-- The token is read, or the line lacks the column, or it is an empty field at the end. -/
theorem nthToken_cases : nthToken delimiter column line = some (fieldAt delimiter column line) ∧
      ¬Lacking delimiter column line ∧ ¬EndsEmpty delimiter column line ∨
    nthToken delimiter column line = none ∧ (Lacking delimiter column line ∨ EndsEmpty delimiter column line) := by
  by_cases hempty : line = []
  · exact .inr ⟨by rw [hempty, nthToken_nil], .inl (.inl hempty)⟩
  rw [nthToken_eq column hempty]
  by_cases hlength : (fields delimiter line).length ≤ column
  · refine .inr ⟨?_, .inl (.inr hlength)⟩
    have hdrop : (fields delimiter line).dropLast.length ≤ column := by
      rw [List.length_dropLast]
      omega
    split_ifs
    · exact List.getElem?_eq_none hdrop
    · exact List.getElem?_eq_none hlength
  have hfound : (fields delimiter line)[column]? = some (fieldAt delimiter column line) := by
    rw [fieldAt, List.getElem?_eq_getElem (by omega), Option.getD_some]
  have hhas : ¬Lacking delimiter column line := not_or.mpr ⟨hempty, hlength⟩
  by_cases hlast : line.getLast? = some delimiter
  · rw [if_pos hlast]
    by_cases hcolumn : (fields delimiter line).length = column + 1
    · refine .inr ⟨List.getElem?_eq_none ?_, .inr ⟨hlast, hcolumn⟩⟩
      rw [List.length_dropLast]
      exact (congrArg (· - 1) hcolumn).le
    · refine .inl ⟨?_, hhas, fun hends => hcolumn hends.2⟩
      rw [List.getElem?_dropLast, if_pos]
      · exact hfound
      · rw [fields] at hlength hcolumn
        omega
  · rw [if_neg hlast]
    exact .inl ⟨hfound, hhas, fun hends => hlast hends.1⟩

theorem nthToken_none : nthToken delimiter column line = none ↔
    Lacking delimiter column line ∨ EndsEmpty delimiter column line := by
  obtain ⟨hread, hhas, hends⟩ | ⟨hread, hnot⟩ := @nthToken_cases delimiter column line <;> rw [hread]
  · exact iff_of_false nofun (not_or.mpr ⟨hhas, hends⟩)
  · exact iff_of_true rfl hnot

/-- Where there is no token, there is none further on. -/
theorem nthToken_none_mono {later : Nat} (h : nthToken delimiter column line = none) (hle : column ≤ later) :
    nthToken delimiter later line = none := by
  rw [nthToken_none] at h ⊢
  rcases h with (hempty | hlength) | ⟨hlast, hlength⟩
  · exact .inl (.inl hempty)
  · exact .inl (.inr (hlength.trans hle))
  · rcases hle.eq_or_lt with rfl | hlt
    · exact .inr ⟨hlast, hlength⟩
    · exact .inl (.inr (hlength.trans_le hlt))

/-- Only the first line matters: the loop does not end on it, or the audit does. -/
theorem countsInInt_iff : CountsInInt delimiter column content ↔
    column < intMax ∨
      ∀ line ∈ (lines content).head?, Lacking delimiter intMax line ∨ EndsEmpty delimiter intMax line := by
  constructor
  · intro h
    refine or_iff_not_imp_left.mpr fun hcolumn line hline => ?_
    obtain ⟨rest, hlines⟩ := List.head?_eq_some_iff.mp hline
    exact nthToken_none.mp
      (h [] line rest hlines (fun _ hmem => absurd hmem List.not_mem_nil) (Nat.le_of_not_lt hcolumn))
  · rintro (hcolumn | hfirst) before line after hlines hread hle
    · exact absurd hle (Nat.not_le_of_lt hcolumn)
    · rw [hlines] at hfirst
      cases before with
      | nil => exact nthToken_none.mpr (hfirst line rfl)
      | cons first before =>
        have hnone := nthToken_none_mono (nthToken_none.mpr (hfirst first rfl)) hle
        have hsome := hread first List.mem_cons_self
        rw [hnone] at hsome
        cases hsome

theorem readLine_ok {entries next : Entries} (h : readLine delimiter column entries line = .ok next) :
    next = addEntry entries (fieldAt delimiter column line) := by
  rw [readLine] at h
  obtain ⟨hread, -, -⟩ | ⟨hread, -⟩ := @nthToken_cases delimiter column line <;> rw [hread] at h <;> cases h
  rfl

theorem readLine_succeeds (entries : Entries) (line : Bytes) : (∃ next, readLine delimiter column entries line = .ok next) ↔
    ¬Lacking delimiter column line ∧ ¬EndsEmpty delimiter column line := by
  rw [readLine]
  obtain ⟨hread, hhas, hends⟩ | ⟨hread, hnot⟩ := @nthToken_cases delimiter column line <;> rw [hread]
  · exact iff_of_true ⟨_, rfl⟩ ⟨hhas, hends⟩
  · exact iff_of_false nofun fun h => hnot.elim h.1 h.2

/-- What the sets hold after the values. -/
structure Holds (values : List Bytes) (entries : Entries) : Prop where
  unique : ∀ value, value ∈ entries.uniqueEntries ↔ value ∈ values
  duplicates : ∀ value, value ∈ entries.duplicateEntries ↔ 2 ≤ values.count value

theorem Holds.add {values : List Bytes} {entries : Entries} (h : Holds values entries) (token : Bytes) :
    Holds (values ++ [token]) (addEntry entries token) := by
  have hcount : ∀ value, (values ++ [token]).count value = values.count value + if token = value then 1 else 0 := by
    intro value
    rw [List.count_append, List.count_singleton]
    simp only [beq_iff_eq]
  rw [addEntry]
  split_ifs with hmem
  · have hpos := List.count_pos_iff.mpr ((h.unique token).mp hmem)
    refine ⟨fun value => ?_, fun value => ?_⟩
    · rw [h.unique, List.mem_append, List.mem_singleton, iff_self_or]
      rintro rfl
      exact (h.unique value).mp hmem
    · rw [Std.ExtTreeMap.mem_insert, h.duplicates, hcount, Std.LawfulEqCmp.compare_eq_iff_eq]
      split_ifs with hvalue
      · subst hvalue
        exact iff_of_true (.inl rfl) (by omega)
      · rw [or_iff_right hvalue, Nat.add_zero]
  · have hzero := List.count_eq_zero.mpr fun hvalue => hmem ((h.unique token).mpr hvalue)
    refine ⟨fun value => ?_, fun value => ?_⟩
    · rw [Std.ExtTreeMap.mem_insert, h.unique, Std.LawfulEqCmp.compare_eq_iff_eq, List.mem_append, List.mem_singleton,
        or_comm, eq_comm]
    · rw [h.duplicates, hcount]
      split_ifs with hvalue
      · subst hvalue
        omega
      · rfl

theorem Holds.foldl {values : List Bytes} {entries : Entries} (h : Holds values entries) (tokens : List Bytes) :
    Holds (values ++ tokens) (tokens.foldl addEntry entries) := by
  induction tokens generalizing values entries with
  | nil => rwa [List.append_nil]
  | cons token tokens ih =>
    rw [List.append_cons, List.foldl_cons]
    exact ih (h.add token)

theorem Holds.nodup_iff {values : List Bytes} {entries : Entries} (h : Holds values entries) :
    values.Nodup ↔ entries.duplicateEntries.keys = [] := by
  rw [List.nodup_iff_count_le_one, List.eq_nil_iff_forall_not_mem]
  refine forall_congr' fun value => ?_
  rw [Std.ExtTreeMap.mem_keys, h.duplicates]
  omega

end Reading

section Auditing

variable {params : Params} {delimiter : UInt8} {column : Nat} {content : Bytes}

theorem foldlM_readLine (h : ∀ line ∈ lines content, ¬Lacking delimiter column line ∧ ¬EndsEmpty delimiter column line) :
    ∃ entries, (lines content).foldlM (readLine delimiter column) {} = .ok entries ∧
      Holds (columnOf delimiter column content) entries := by
  obtain ⟨entries, hrun⟩ := (foldlM_succeeds_iff readLine_succeeds).mpr h
  have hentries := foldlM_ok_eq_foldl (fun entries line => addEntry entries (fieldAt delimiter column line))
    (fun _ _ _ _ => readLine_ok) hrun
  have hstart : Holds [] {} := ⟨by simp, by simp⟩
  have hholds := hstart.foldl (columnOf delimiter column content)
  rw [columnOf, List.foldl_map, ← hentries, List.nil_append] at hholds
  exact ⟨entries, hrun, hholds⟩

theorem decides_iff {readFile : Bytes → Option Bytes} (hdelimiter : params.delimiter = [delimiter])
    (hcolumn : 0 ≤ params.column) (hfile : readFile params.filename = some content) :
    Right delimiter params.column.toNat content params (auditNoDuplicateEntries readFile params) ↔
      (∃ line ∈ lines content, Lacking delimiter params.column.toNat line) ∨
        ∀ line ∈ lines content, ¬EndsEmpty delimiter params.column.toNat line := by
  rw [auditNoDuplicateEntries, hdelimiter]
  dsimp only
  rw [if_neg (not_lt.mpr hcolumn), hfile]
  dsimp only
  by_cases hall : ∀ line ∈ lines content,
      ¬Lacking delimiter params.column.toNat line ∧ ¬EndsEmpty delimiter params.column.toNat line
  · obtain ⟨entries, hrun, hholds⟩ := foldlM_readLine hall
    rw [hrun]
    refine iff_of_true ⟨?_, fun _ => ?_⟩ (.inr fun line hline => (hall line hline).2)
    · rintro ⟨line, hline, hlacking⟩
      exact absurd hlacking (hall line hline).1
    · have hreported : ∀ value, value ∈ entries.duplicateEntries.keys ↔
          2 ≤ (columnOf delimiter params.column.toNat content).count value := by
        intro value
        rw [Std.ExtTreeMap.mem_keys, hholds.duplicates]
      by_cases hempty : entries.duplicateEntries.keys = []
      · have hnodup := hholds.nodup_iff.mpr hempty
        refine ⟨.compliant, _, ?_, iff_of_true rfl hnodup, Std.ExtTreeMap.nodup_keys, hreported⟩
        rw [if_pos hnodup]
        exact congrArg Except.ok (if_neg (not_not_intro hempty))
      · have hnodup := hholds.nodup_iff.not.mpr hempty
        refine ⟨.nonCompliant, _, ?_, iff_of_false nofun hnodup, Std.ExtTreeMap.nodup_keys, hreported⟩
        rw [if_neg hnodup]
        exact congrArg Except.ok (if_pos hempty)
  · have herror : ∃ e, (lines content).foldlM (readLine delimiter params.column.toNat) {} = .error e := by
      cases hrun : (lines content).foldlM (readLine delimiter params.column.toNat) {} with
      | error e => exact ⟨e, rfl⟩
      | ok entries => exact absurd ((foldlM_succeeds_iff readLine_succeeds).mp ⟨entries, hrun⟩) hall
    obtain ⟨e, herror⟩ := herror
    rw [herror]
    by_cases hlacking : ∃ line ∈ lines content, Lacking delimiter params.column.toNat line
    · exact iff_of_true ⟨fun _ => ⟨e, rfl⟩, fun hnone => absurd hlacking hnone⟩ (.inl hlacking)
    · refine iff_of_false (fun hright => ?_) (not_or.mpr ⟨hlacking, fun hnone => hall fun line hline => ?_⟩)
      · obtain ⟨status, reported, hok, -⟩ := hright.decides hlacking
        cases hok
      · exact ⟨fun h => hlacking ⟨line, hline, h⟩, hnone line hline⟩

/-- The audit is right unless the column is an empty field at the end of a line, and no line lacks it; and its counter
stays in its range unless the column is the greatest and there on the first line. -/
theorem right_iff {readFile : Bytes → Option Bytes} (hdelimiter : params.delimiter = [delimiter]) (hcolumn : 0 ≤ params.column)
    (hfile : readFile params.filename = some content) :
    Right delimiter params.column.toNat content params (auditNoDuplicateEntries readFile params) ∧
        CountsInInt delimiter params.column.toNat content ↔
      ((∃ line ∈ lines content, Lacking delimiter params.column.toNat line) ∨
          ∀ line ∈ lines content, ¬EndsEmpty delimiter params.column.toNat line) ∧
        (params.column.toNat < intMax ∨
          ∀ line ∈ (lines content).head?, Lacking delimiter intMax line ∨ EndsEmpty delimiter intMax line) :=
  and_congr (decides_iff hdelimiter hcolumn hfile) countsInInt_iff

/-- The second field of the line is there, but empty. -/
def colons : Params := { filename := utf8 "f", delimiter := utf8 ":", column := 1 }

def holding (content : Bytes) (_ : Bytes) : Option Bytes := some content

theorem colons_wrong :
    ¬Right 0x3A 1 (utf8 "a:\n") colons (auditNoDuplicateEntries (holding (utf8 "a:\n")) colons) := by
  intro h
  have hlines : lines (utf8 "a:\n") = [utf8 "a:"] := by decide
  have herror : auditNoDuplicateEntries (holding (utf8 "a:\n")) colons = .error outOfBounds := by rfl
  have hnone : ¬∃ line ∈ lines (utf8 "a:\n"), Lacking 0x3A 1 line := by
    rw [hlines]
    rintro ⟨line, hline, hlacking⟩
    rw [List.mem_singleton.mp hline] at hlacking
    revert hlacking
    unfold Lacking fields
    decide
  obtain ⟨status, reported, hok, -⟩ := h.decides hnone
  rw [herror] at hok
  cases hok

theorem right_iff_colons :
    Right 0x3A 1 (utf8 "a:b\n") colons (auditNoDuplicateEntries (holding (utf8 "a:b\n")) colons) ∧
      CountsInInt 0x3A 1 (utf8 "a:b\n") := by
  have hcolumn : 0 ≤ colons.column := by decide
  have hline : ¬EndsEmpty 0x3A 1 (utf8 "a:b") := by
    unfold EndsEmpty
    decide
  have hlines : lines (utf8 "a:b\n") = [utf8 "a:b"] := by decide
  have hfile : holding (utf8 "a:b\n") colons.filename = some (utf8 "a:b\n") := rfl
  have hdelimiter : colons.delimiter = [0x3A] := rfl
  refine (right_iff hdelimiter hcolumn hfile).mpr ⟨.inr ?_, .inl (by decide)⟩
  rw [hlines]
  exact List.forall_mem_singleton.mpr hline

end Auditing
end Kompli.NoDuplicateEntries
