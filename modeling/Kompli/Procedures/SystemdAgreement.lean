import Kompli.Procedures.SystemdScan

/-! When the audit reads the setting that was written to a configuration of systemd. -/
namespace Kompli.SystemdConfig
open Parson Ascii Foundation Streams StringTools

section Places

/-- Where a setting is written: the lines before it, what is before its `=`, and the lines after it. -/
structure Place where
  before : List Bytes
  key : Bytes
  after : List Bytes

def targetBlock (block : Bytes) : Bytes := utf8 "[" ++ block ++ utf8 "]"

/-- The last line of the parameter, or the last end of the block, or a block of its own. -/
inductive IsPlace (contents block parameter : Bytes) : Place → Prop
  | line {before after line} (htaken : LastTaken (targetBlock block) parameter (contents.splitOn newline) before line)
    (hlines : contents.splitOn newline = before ++ line :: after) :
    IsPlace contents block parameter ⟨before, keyText line, after⟩
  | blockEnd {before after}
    (hnone : ∀ other line, other ++ [line] <+: contents.splitOn newline → ¬ Takes (targetBlock block) parameter other line)
    (hend : UpToEnd (targetBlock block) (contents.splitOn newline) before)
    (hlines : contents.splitOn newline = before ++ after) : IsPlace contents block parameter ⟨before, parameter, after⟩
  | newBlock (hnone : ∀ before, before <+: contents.splitOn newline → inTarget (targetBlock block) before = false) :
    IsPlace contents block parameter ⟨contents.splitOn newline ++ [targetBlock block], parameter, []⟩

theorem IsPlace.unique {contents block parameter : Bytes} {place other : Place} (h : IsPlace contents block parameter place)
    (hother : IsPlace contents block parameter other) : place = other := by
  cases h with
  | @line before after taken htaken hlines =>
    cases hother with
    | @line before' after' taken' htaken' hlines' =>
      have hlength : before'.length = before.length :=
        le_antisymm (htaken.last _ _ htaken'.isPrefix htaken'.takes) (htaken'.last _ _ htaken.isPrefix htaken.takes)
      rw [hlines] at hlines'
      obtain ⟨rfl, hrest⟩ := List.append_inj hlines' hlength.symm
      cases hrest
      rfl
    | blockEnd hnone => exact absurd htaken.takes (hnone _ _ htaken.isPrefix)
    | newBlock hnone =>
      have hinside := hnone before ((List.prefix_append before [taken]).trans htaken.isPrefix)
      rw [htaken.takes.1] at hinside
      cases hinside
  | @blockEnd before after hnone hend hlines =>
    cases hother with
    | line htaken => exact absurd htaken.takes (hnone _ _ htaken.isPrefix)
    | @blockEnd before' after' _ hend' hlines' =>
      have hlength : before'.length = before.length :=
        le_antisymm (hend.last _ hend'.isPrefix hend'.inside) (hend'.last _ hend.isPrefix hend.inside)
      rw [hlines] at hlines'
      obtain ⟨rfl, rfl⟩ := List.append_inj hlines' hlength.symm
      rfl
    | newBlock hnone' =>
      have hinside := hnone' before hend.isPrefix
      rw [hend.inside] at hinside
      cases hinside
  | newBlock hnone =>
    cases hother with
    | @line before after taken htaken =>
      have hinside := hnone before ((List.prefix_append before [taken]).trans htaken.isPrefix)
      rw [htaken.takes.1] at hinside
      cases hinside
    | @blockEnd before after _ hend =>
      have hinside := hnone before hend.isPrefix
      rw [hend.inside] at hinside
      cases hinside
    | newBlock _ => rfl

end Places

section Written

variable {contents block parameter value : Bytes}

theorem intercalate_append (before : List Bytes) {after : List Bytes} (hne : after ≠ []) :
    [newline].intercalate (before ++ after) = joined before ++ [newline].intercalate after := by
  induction before with
  | nil => rfl
  | cons line before ih =>
    rw [List.cons_append, List.intercalate_cons_of_ne_nil (by simp [hne]), ih]
    simp [joined]

theorem exists_tail (after : List Bytes) : ∃ tail, ∀ line, [newline].intercalate (line :: after) = line ++ tail := by
  by_cases hnil : after = []
  · exact ⟨[], fun line => by rw [hnil, List.intercalate_singleton, List.append_nil]⟩
  · exact ⟨newline :: [newline].intercalate after, fun line => by
      rw [List.intercalate_cons_of_ne_nil hnil, List.append_assoc, List.singleton_append]⟩

/-- What ends a line is not read. -/
structure Ending (lineEnding blanks : Bytes) : Prop where
  eq : lineEnding = blanks ++ [newline]
  trimmed : ∀ c ∈ blanks, isTrimmed c = true
  newline : newline ∉ blanks

theorem exists_carriageReturn (line : Bytes) :
    ∃ blanks, line = withoutCarriageReturn line ++ blanks ∧ (∀ c ∈ blanks, isTrimmed c = true) ∧ newline ∉ blanks := by
  rw [withoutCarriageReturn]
  split_ifs with hlast
  · obtain ⟨front, rfl⟩ := List.getLast?_eq_some_iff.mp hlast
    exact ⟨[carriageReturn], by rw [List.dropLast_concat], by decide +kernel, by decide⟩
  · exact ⟨[], by simp, by simp, by simp⟩

theorem readText_line_ending {lineEnding blanks text : Bytes} (hending : Ending lineEnding blanks) (htext : newline ∉ text)
    (reader : Reader) (rest : Bytes) : readText reader (text ++ (lineEnding ++ rest)) = readText (readLine reader text) rest := by
  have hsplit : text ++ (lineEnding ++ rest) = text ++ blanks ++ newline :: rest := by simp [hending.eq]
  rw [hsplit, readText_append (by simp [htext, hending.newline]), readLine_append reader hending.trimmed]

/-- What is read after a setting was written to a place. -/
def Place.read (place : Place) (value : Bytes) : Reader :=
  place.after.foldl readLine (readLine (place.before.foldl readLine {}) (place.key ++ equals :: value))

def newEnding (contents : Bytes) : Bytes := if (cutAt (utf8 "\r\n") contents).isSome then utf8 "\r\n" else utf8 "\n"

theorem newEnding_cases (contents : Bytes) : newEnding contents = utf8 "\n" ∨ newEnding contents = utf8 "\r\n" := by
  rw [newEnding]
  split_ifs
  · exact .inr rfl
  · exact .inl rfl

theorem exists_ending (contents : Bytes) : ∃ blanks, Ending (newEnding contents) blanks := by
  rcases newEnding_cases contents with hending | hending <;> rw [hending]
  · exact ⟨[], rfl, by simp, by simp⟩
  · exact ⟨[carriageReturn], rfl, by decide +kernel, by decide⟩

private theorem not_mem_pieces {line : Bytes} {before after : List Bytes} (hlines : contents.splitOn newline = before ++ after)
    (hmem : line ∈ before ∨ line ∈ after) : newline ∉ line := by
  apply @not_mem_of_mem_splitOn _ _ newline line contents
  rw [hlines]
  exact List.mem_append.mpr hmem

/-- A value that takes the place of the last one. -/
theorem readText_replacement {before after : List Bytes} {line : Bytes} (hlines : contents.splitOn newline = before ++ line :: after)
    (hequals : equals ∈ withoutCarriageReturn line) (hvalue : newline ∉ value) :
    readText {} (contents.take ((joined before).length + ((keyText line).length + 1)) ++ value ++
        contents.drop ((joined before).length + (withoutCarriageReturn line).length)) =
      Place.read ⟨before, keyText line, after⟩ value := by
  obtain ⟨blanks, hblanks, htrimmed, hnewline⟩ := exists_carriageReturn line
  obtain ⟨tail, htail⟩ := exists_tail after
  have hline : newline ∉ line := not_mem_pieces hlines (.inr List.mem_cons_self)
  have hcut : keyText line ++ equals :: ((withoutCarriageReturn line).dropWhile (· ≠ equals)).tail = withoutCarriageReturn line :=
    cut_append hequals
  set old := ((withoutCarriageReturn line).dropWhile (· ≠ equals)).tail
  have hcontents : contents = joined before ++ (line ++ tail) := by
    rw [← htail, ← intercalate_append before (List.cons_ne_nil line after), ← hlines, List.intercalate_splitOn]
  have hstart : contents = joined before ++ (keyText line ++ [equals]) ++ (old ++ (blanks ++ tail)) := by
    conv_lhs => rw [hcontents, hblanks, ← hcut]
    simp
  have hstop : contents = joined before ++ withoutCarriageReturn line ++ (blanks ++ tail) := by
    conv_lhs => rw [hcontents, hblanks]
    simp
  have htake : contents.take ((joined before).length + ((keyText line).length + 1)) = joined before ++ (keyText line ++ [equals]) := by
    conv_lhs => rw [hstart]
    exact List.take_left' (by simp)
  have hdrop : contents.drop ((joined before).length + (withoutCarriageReturn line).length) = blanks ++ tail := by
    conv_lhs => rw [hstop]
    exact List.drop_left' (by simp)
  have hkey : newline ∉ keyText line := by
    intro hmem
    apply hline
    rw [hblanks]
    exact List.mem_append_left _ (List.takeWhile_subset _ hmem)
  have hpieces : ∀ text ∈ (keyText line ++ equals :: value ++ blanks) :: after, newline ∉ text := by
    rw [List.forall_mem_cons]
    refine ⟨?_, fun text hmem => not_mem_pieces hlines (.inr (List.mem_cons_of_mem _ hmem))⟩
    have hnot : newline ≠ equals := by decide
    simp [hkey, hvalue, hnewline, hnot]
  have hresult : joined before ++ (keyText line ++ [equals]) ++ value ++ (blanks ++ tail) =
      joined before ++ [newline].intercalate ((keyText line ++ equals :: value ++ blanks) :: after) := by
    rw [htail]
    simp
  rw [htake, hdrop, hresult, readText_joined _ fun text hmem => not_mem_pieces hlines (.inl hmem), readText_intercalate _ hpieces,
    List.foldl_cons, readLine_append _ htrimmed]
  rfl

/-- A setting between two lines. -/
theorem readText_insertion {before after : List Bytes} (hlines : contents.splitOn newline = before ++ after) (hne : after ≠ [])
    (hsetting : newline ∉ parameter ++ equals :: value) :
    readText {} (contents.take (joined before).length ++ ((parameter ++ equals :: value) ++ newEnding contents) ++
        contents.drop (joined before).length) = Place.read ⟨before, parameter, after⟩ value := by
  obtain ⟨blanks, hending⟩ := exists_ending contents
  have hcontents : contents = joined before ++ [newline].intercalate after := by
    rw [← intercalate_append before hne, ← hlines, List.intercalate_splitOn]
  have htake : contents.take (joined before).length = joined before := by
    conv_lhs => rw [hcontents]
    exact List.take_left
  have hdrop : contents.drop (joined before).length = [newline].intercalate after := by
    conv_lhs => rw [hcontents]
    exact List.drop_left
  rw [htake, hdrop, List.append_assoc, List.append_assoc, readText_joined _ fun text hmem => not_mem_pieces hlines (.inl hmem),
    readText_line_ending hending hsetting, readText_intercalate _ fun text hmem => not_mem_pieces hlines (.inr hmem)]
  rfl

/-- A setting after all lines. -/
theorem readText_last (hsetting : newline ∉ parameter ++ equals :: value) :
    readText {} (contents ++ (if contents ≠ [] ∧ contents.getLast? ≠ some newline then newEnding contents else []) ++
        ((parameter ++ equals :: value) ++ newEnding contents)) =
      Place.read ⟨contents.splitOn newline, parameter, []⟩ value := by
  obtain ⟨blanks, hending⟩ := exists_ending contents
  have hline := readText_line_ending hending hsetting (readText {} contents) []
  rw [List.append_nil] at hline
  rw [readText_ended _ _ (newEnding_cases contents), hline, readText_eq {} contents]
  rfl

/-- A block after all lines, with the setting in it. -/
theorem readText_newBlock (hblock : newline ∉ targetBlock block) (hsetting : newline ∉ parameter ++ equals :: value) :
    readText {} (contents ++ (if contents ≠ [] ∧ contents.getLast? ≠ some newline then newEnding contents else []) ++
        (targetBlock block ++ (newEnding contents ++ ((parameter ++ equals :: value) ++ newEnding contents)))) =
      Place.read ⟨contents.splitOn newline ++ [targetBlock block], parameter, []⟩ value := by
  obtain ⟨blanks, hending⟩ := exists_ending contents
  have hline := readText_line_ending hending hsetting (readLine (readText {} contents) (targetBlock block)) []
  rw [List.append_nil] at hline
  rw [readText_ended _ _ (newEnding_cases contents), readText_line_ending hending hblock, hline, readText_eq {} contents,
    Place.read, List.foldl_append]
  rfl

def scanText (contents block parameter : Bytes) : Scan :=
  (contents.splitOn newline).foldl (scanLine (targetBlock block) parameter) {}

theorem scanned_scanText (contents block parameter : Bytes) :
    Scanned (targetBlock block) parameter (contents.splitOn newline) (scanText contents block parameter) :=
  scanned _ _ _

/-- The position at which a setting is put in is known, and inside the contents. -/
def InsertionInside (contents block parameter : Bytes) : Prop :=
  (scanText contents block parameter).replacement = none → (scanText contents block parameter).foundTargetBlock = true →
    (scanText contents block parameter).inTargetBlock = true ∨
      ∃ position, (scanText contents block parameter).insertionPosition = some position ∧ position ≤ contents.length

theorem UpToEnd.exists_after {lines before : List Bytes} {targetBlock : Bytes} (h : UpToEnd targetBlock lines before)
    (hout : inTarget targetBlock lines = false) : ∃ after, after ≠ [] ∧ lines = before ++ after := by
  obtain ⟨after, rfl⟩ := h.isPrefix
  refine ⟨after, ?_, rfl⟩
  rintro rfl
  rw [List.append_nil, h.inside] at hout
  cases hout

theorem insertionInside (contents block parameter : Bytes) : InsertionInside contents block parameter := by
  intro _ hfound
  have hscanned := scanned_scanText contents block parameter
  cases hinside : (scanText contents block parameter).inTargetBlock with
  | true => exact .inl rfl
  | false =>
    obtain ⟨before, hend, hposition⟩ := hscanned.insertionPosition hfound hinside
    obtain ⟨after, hne, hlines⟩ := hend.exists_after (hscanned.inTargetBlock.symm.trans hinside)
    have hcontents : contents = joined before ++ [newline].intercalate after := by
      rw [← intercalate_append before hne, ← hlines, List.intercalate_splitOn]
    refine .inr ⟨_, hposition, ?_⟩
    conv_rhs => rw [hcontents]
    rw [List.length_append]
    omega

private theorem replaceSystemdConfigValue_eq (contents block parameter value : Bytes) :
    replaceSystemdConfigValue contents block parameter value =
      match (scanText contents block parameter).replacement with
      | some (start, stop) => contents.take start ++ value ++ contents.drop stop
      | none =>
        if (scanText contents block parameter).foundTargetBlock then
          let position :=
            if (scanText contents block parameter).inTargetBlock then contents.length
            else (scanText contents block parameter).insertionPosition.getD contents.length
          let before := contents.take position
          before ++ (if before ≠ [] ∧ before.getLast? ≠ some newline then newEnding contents else []) ++
            (parameter ++ utf8 "=" ++ value ++ newEnding contents) ++ contents.drop position
        else
          contents ++ (if contents ≠ [] ∧ contents.getLast? ≠ some newline then newEnding contents else []) ++
            targetBlock block ++ newEnding contents ++ (parameter ++ utf8 "=" ++ value ++ newEnding contents) := rfl

private theorem joined_ended (before : List Bytes) : ¬ (joined before ≠ [] ∧ (joined before).getLast? ≠ some newline) := by
  rintro ⟨hne, hlast⟩
  induction before using List.reverseRecOn with
  | nil => exact hne rfl
  | append_singleton before line =>
    apply hlast
    simp [joined]

/-- The setting is read at its place. -/
theorem readText_replaceSystemdConfigValue (hblock : newline ∉ block) (hparameter : newline ∉ parameter) (hvalue : newline ∉ value) :
    ∃ place, IsPlace contents block parameter place ∧
      readText {} (replaceSystemdConfigValue contents block parameter value) = place.read value := by
  have hscanned := scanned_scanText contents block parameter
  have hnotEquals : newline ≠ equals := by decide
  have hsetting : newline ∉ parameter ++ equals :: value := by simp [hparameter, hvalue, hnotEquals]
  have htarget : newline ∉ targetBlock block := by
    have hopen : newline ∉ utf8 "[" := by decide +kernel
    have hclose : newline ∉ utf8 "]" := by decide +kernel
    simp [targetBlock, hopen, hblock, hclose]
  have hequals : parameter ++ utf8 "=" ++ value = parameter ++ equals :: value := by
    rw [List.append_assoc]
    rfl
  rw [replaceSystemdConfigValue_eq, hequals]
  cases hreplacement : (scanText contents block parameter).replacement with
  | some span =>
    obtain ⟨start, stop⟩ := span
    obtain ⟨before, line, htaken, rfl, rfl⟩ := hscanned.replacement start stop hreplacement
    obtain ⟨after, hlines⟩ := htaken.isPrefix
    have hlines' : contents.splitOn newline = before ++ line :: after := by simp [← hlines]
    exact ⟨_, .line htaken hlines', readText_replacement hlines' htaken.takes.2.2.2.2.2.1 hvalue⟩
  | none =>
    have hnone := hscanned.no_replacement hreplacement
    cases hfound : (scanText contents block parameter).foundTargetBlock with
    | false =>
      refine ⟨_, .newBlock fun before hstarts => ?_, ?_⟩
      · refine Bool.eq_false_iff.mpr fun hinside => ?_
        have htrue := hscanned.foundTargetBlock.mpr ⟨before, hstarts, hinside⟩
        rw [hfound] at htrue
        cases htrue
      · simp only [Bool.false_eq_true, if_false]
        have hnew := @readText_newBlock contents block parameter value htarget hsetting
        rw [List.append_assoc, List.append_assoc]
        exact hnew
    | true =>
      cases hinside : (scanText contents block parameter).inTargetBlock with
      | true =>
        have hall : inTarget (targetBlock block) (contents.splitOn newline) = true := hscanned.inTargetBlock.symm.trans hinside
        refine ⟨_, .blockEnd hnone ⟨List.prefix_rfl, hall, fun _ hother _ => hother.length_le⟩ (List.append_nil _).symm, ?_⟩
        simp only [if_true, List.take_length, List.drop_length, List.append_nil]
        exact readText_last hsetting
      | false =>
        obtain ⟨before, hend, hposition⟩ := hscanned.insertionPosition hfound hinside
        obtain ⟨after, hne, hlines⟩ := hend.exists_after (hscanned.inTargetBlock.symm.trans hinside)
        refine ⟨_, .blockEnd hnone hend hlines, ?_⟩
        have htake : contents.take (joined before).length = joined before := by
          have hcontents : contents = joined before ++ [newline].intercalate after := by
            rw [← intercalate_append before hne, ← hlines, List.intercalate_splitOn]
          conv_lhs => rw [hcontents]
          exact List.take_left
        simp only [if_true, Bool.false_eq_true, if_false, hposition, Option.getD_some]
        rw [← readText_insertion hlines hne hsetting]
        rw [htake, if_neg (joined_ended before), List.append_nil]

end Written

section Settles

variable {contents block parameter value : Bytes} {place : Place}

/-- The audit's rules before the place. -/
def Place.reader (place : Place) : Reader := place.before.foldl readLine {}

/-- The block and the key that the audit reads at the place. -/
def Place.target (place : Place) : Bytes × Bytes := (place.reader.currentBlock, place.key.dropWhile isTrimmed)

/-- The audit reads another value of them after the place. -/
def Place.Overwritten (place : Place) : Prop := place.reader.later place.after place.target ≠ none

instance (place : Place) : Decidable place.Overwritten := inferInstanceAs (Decidable (_ ≠ none))

theorem trimWhiteSpaces_split (s : Bytes) :
    ∃ before after, s = before ++ (trimWhiteSpaces s ++ after) ∧ (∀ c ∈ before, isSpace c = true) ∧
      ∀ c ∈ after, isSpace c = true := by
  refine ⟨s.takeWhile isSpace, ((s.dropWhile isSpace).reverse.takeWhile isSpace).reverse, ?_,
    fun c hc => List.mem_takeWhile_imp hc, fun c hc => List.mem_takeWhile_imp (List.mem_reverse.mp hc)⟩
  rw [trimWhiteSpaces, ← List.reverse_append, List.takeWhile_append_dropWhile, List.reverse_reverse,
    List.takeWhile_append_dropWhile]

/-- The name of a parameter. -/
structure IsParameter (parameter : Bytes) : Prop where
  ne_nil : parameter ≠ []
  bytes : ∀ c ∈ parameter, isParameterByte c = true

private theorem parameterByte_plain {c : UInt8} (h : isParameterByte c = true) :
    isTrimmed c = false ∧ isSpace c = false ∧ c ≠ equals ∧ c ≠ hash ∧ c ≠ 0x5B ∧ c ≠ newline :=
  forall_byte (P := fun c => isParameterByte c = true →
    isTrimmed c = false ∧ isSpace c = false ∧ c ≠ equals ∧ c ≠ hash ∧ c ≠ 0x5B ∧ c ≠ newline) (by decide +kernel) c h

private theorem space_plain {c : UInt8} (h : isSpace c = true) : c ≠ equals ∧ c ≠ hash ∧ c ≠ 0x5B := by
  rw [isSpace_iff] at h
  refine ⟨?_, ?_, ?_⟩ <;>
  · rintro rfl
    revert h
    decide

theorem setting_of_trimmed (hparameter : IsParameter parameter) {key : Bytes} (h : trimWhiteSpaces key = parameter) : Setting key := by
  obtain ⟨before, after, hkey, hbefore, hafter⟩ := trimWhiteSpaces_split key
  rw [h] at hkey
  have hplain : ∀ c ∈ key, c ≠ equals ∧ c ≠ hash ∧ c ≠ 0x5B := by
    intro c hc
    rw [hkey] at hc
    simp only [List.mem_append] at hc
    rcases hc with hspace | hbyte | hspace
    · exact space_plain (hbefore c hspace)
    · obtain ⟨-, -, hequals, hhash, hbracket, -⟩ := parameterByte_plain (hparameter.bytes c hbyte)
      exact ⟨hequals, hhash, hbracket⟩
    · exact space_plain (hafter c hspace)
  have hne : key.dropWhile isTrimmed ≠ [] := by
    obtain ⟨c, name, hname⟩ := List.exists_cons_of_ne_nil hparameter.ne_nil
    intro hnil
    have hmem : c ∈ key := by
      rw [hkey, hname]
      simp
    have htrimmed := List.dropWhile_eq_nil_iff.mp hnil c hmem
    rw [(parameterByte_plain (hparameter.bytes c (by rw [hname]; exact List.mem_cons_self))).1] at htrimmed
    cases htrimmed
  obtain ⟨c, name, hname⟩ := List.exists_cons_of_ne_nil hne
  have hc : c ∈ key := List.dropWhile_subset _ (by rw [hname]; exact List.mem_cons_self)
  exact ⟨fun hmem => (hplain equals hmem).1 rfl, c, name, hname, (hplain c hc).2.1, (hplain c hc).2.2⟩

theorem trimWhiteSpaces_parameter (hparameter : IsParameter parameter) : trimWhiteSpaces parameter = parameter := by
  have hspan {s : Bytes} (hs : ∀ c ∈ s, c ∈ parameter) : EndsSpan isSpace s := fun c hc =>
    (parameterByte_plain (hparameter.bytes c (hs c (List.mem_of_mem_head? hc)))).2.1
  rw [trimWhiteSpaces, dropWhile_of_endsSpan (hspan fun c hc => hc),
    dropWhile_of_endsSpan (hspan fun c hc => List.mem_reverse.mp hc), List.reverse_reverse]

theorem IsPlace.setting (hparameter : IsParameter parameter) (h : IsPlace contents block parameter place) : Setting place.key := by
  cases h with
  | line htaken => exact setting_of_trimmed hparameter htaken.takes.2.2.2.2.2.2
  | blockEnd => exact setting_of_trimmed hparameter (trimWhiteSpaces_parameter hparameter)
  | newBlock => exact setting_of_trimmed hparameter (trimWhiteSpaces_parameter hparameter)

theorem readLine_targetBlock (reader : Reader) (block : Bytes) :
    readLine reader (targetBlock block) = { reader with currentBlock := targetBlock block } := by
  have htarget : targetBlock block = 0x5B :: (block ++ [0x5D]) := by
    rw [targetBlock, List.append_assoc]
    rfl
  have htrim : trimLine (targetBlock block) = targetBlock block := by
    have hstart : EndsSpan isTrimmed (targetBlock block) := by
      rw [htarget]
      exact endsSpan_cons.mpr (by decide +kernel)
    have hend : EndsSpan isTrimmed (targetBlock block).reverse := by
      rw [htarget, ← List.cons_append, List.reverse_append]
      exact endsSpan_cons.mpr (by decide +kernel)
    rw [trimLine, dropWhile_of_endsSpan hstart, dropWhile_of_endsSpan hend, List.reverse_reverse]
  have hne : targetBlock block ≠ [] := by simp [htarget]
  have hhash : (targetBlock block).head? ≠ some hash := by
    rw [htarget, List.head?_cons]
    decide
  have hheader : (targetBlock block).head? = some 0x5B ∧ (targetBlock block).getLast? = some 0x5D := by
    rw [htarget, ← List.cons_append, List.getLast?_concat]
    exact ⟨rfl, rfl⟩
  rw [readLine, htrim]
  simp only [if_neg hne, if_neg hhash, if_pos hheader]

/-- What is read of a place and the lines after it. -/
theorem Place.config_read (hsetting : Setting place.key) (value : Bytes) (x : Bytes × Bytes) :
    (place.read value).config x = (place.reader.later place.after x).or
      (if x = place.target then some (trimEnd value, place.reader.currentConfig) else place.reader.config x) := by
  rw [Place.read, readLine_setting _ hsetting, foldl_readLine_config]
  split_ifs with hx
  · rw [hx]
    simp only [Place.target, Place.reader, Function.update_self]
    rfl
  · have hne : x ≠ ((place.before.foldl readLine {}).currentBlock, place.key.dropWhile isTrimmed) := hx
    simp only [Function.update_of_ne hne]
    rfl

/-- What is read without the written line, other than at the place. -/
theorem IsPlace.config_before (hparameter : IsParameter parameter) (h : IsPlace contents block parameter place)
    {x : Bytes × Bytes} (hx : x ≠ place.target ∨ place.reader.later place.after x ≠ none) :
    (readText {} contents).config x = (place.reader.later place.after x).or (place.reader.config x) := by
  have hsetting := h.setting hparameter
  rw [readText_eq]
  cases h with
  | @line before after line htaken hlines =>
    obtain ⟨blanks, hblanks, htrimmed, -⟩ := exists_carriageReturn line
    have hcut : keyText line ++ equals :: ((withoutCarriageReturn line).dropWhile (· ≠ equals)).tail = withoutCarriageReturn line :=
      cut_append htaken.takes.2.2.2.2.2.1
    have hread := @Place.config_read ⟨before, keyText line, after⟩ hsetting
      ((withoutCarriageReturn line).dropWhile (· ≠ equals)).tail x
    rw [Place.read, hcut] at hread
    have hline (reader : Reader) : readLine reader line = readLine reader (withoutCarriageReturn line) := by
      conv_lhs => rw [hblanks]
      exact readLine_append reader htrimmed
    rw [hlines, List.foldl_append, List.foldl_cons, hline, hread]
    rcases hx with hne | hlater
    · rw [if_neg hne]
    · obtain ⟨y, hy⟩ := Option.ne_none_iff_exists'.mp hlater
      rw [hy, Option.some_or, Option.some_or]
  | @blockEnd before after _ _ hlines =>
    rw [hlines, List.foldl_append, foldl_readLine_config]
    rfl
  | newBlock =>
    simp only [Place.reader, List.foldl_append, List.foldl_cons, List.foldl_nil, readLine_targetBlock]
    rfl

/-- What is read with it. -/
theorem IsPlace.config_after (hparameter : IsParameter parameter) (h : IsPlace contents block parameter place)
    (value : Bytes) (x : Bytes × Bytes) :
    (place.read value).config x =
      if x = place.target ∧ ¬ place.Overwritten then some (trimEnd value, place.reader.currentConfig)
      else (readText {} contents).config x := by
  rw [Place.config_read (h.setting hparameter)]
  by_cases hx : x = place.target
  · by_cases hover : place.Overwritten
    · obtain ⟨y, hy⟩ := Option.ne_none_iff_exists'.mp hover
      have hout : ¬ (x = place.target ∧ ¬ place.Overwritten) := fun hboth => hboth.2 hover
      rw [if_neg hout, h.config_before hparameter (.inr (hx ▸ hover)), hx, hy, Option.some_or, Option.some_or]
    · have hnone : place.reader.later place.after x = none := by
        rw [hx]
        exact not_not.mp hover
      rw [if_pos hx, if_pos ⟨hx, hover⟩, hnone, Option.none_or]
  · have hout : ¬ (x = place.target ∧ ¬ place.Overwritten) := fun hboth => hx hboth.1
    rw [if_neg hx, if_neg hout, h.config_before hparameter (.inl hx)]

/-- The block and the parameter are mapped to the value, and all else as it was. -/
def Settles (contents block parameter value : Bytes) : Prop :=
  ∃ before after, getSystemdConfig (fun _ => none) (.ok contents) = .ok before ∧
    getSystemdConfig (fun _ => none) (.ok (replaceSystemdConfigValue contents block parameter value)) = .ok after ∧
    (after (targetBlock block, parameter)).map Prod.fst = some value ∧
    (∀ x, x ≠ (targetBlock block, parameter) → after x = before x) ∧ InsertionInside contents block parameter

/-- The audit reads the written line as the setting and no other after it, and all of the value; or the setting
is there, and the line it reads changes nothing. -/
def Place.Fits (place : Place) (contents block parameter value : Bytes) : Prop :=
  (place.target = (targetBlock block, parameter) ∧ ¬ place.Overwritten ∧ trimEnd value = value) ∨
    (((readText {} contents).config (targetBlock block, parameter)).map Prod.fst = some value ∧
      (place.Overwritten ∨ (readText {} contents).config place.target = some (trimEnd value, place.reader.currentConfig)))

theorem settles_iff (hparameter : IsParameter parameter) (h : IsPlace contents block parameter place)
    (hread : readText {} (replaceSystemdConfigValue contents block parameter value) = place.read value) :
    Settles contents block parameter value ↔ place.Fits contents block parameter value := by
  have hafter := h.config_after hparameter value
  constructor
  · rintro ⟨before, after, hbefore, hwritten, hvalue, hothers, -⟩
    cases hbefore
    cases hwritten
    change ((readText {} (replaceSystemdConfigValue contents block parameter value)).config _).map Prod.fst = _ at hvalue
    change ∀ x, _ → (readText {} (replaceSystemdConfigValue contents block parameter value)).config x =
      (readText {} contents).config x at hothers
    rw [hread, hafter] at hvalue
    by_cases hover : place.Overwritten
    · rw [if_neg fun hboth => hboth.2 hover] at hvalue
      exact .inr ⟨hvalue, .inl hover⟩
    · by_cases htarget : place.target = (targetBlock block, parameter)
      · rw [if_pos ⟨htarget.symm, hover⟩] at hvalue
        exact .inl ⟨htarget, hover, Option.some.inj hvalue⟩
      · rw [if_neg fun hboth => htarget hboth.1.symm] at hvalue
        have hsame := hothers place.target htarget
        rw [hread, hafter, if_pos ⟨rfl, hover⟩] at hsame
        exact .inr ⟨hvalue, .inr hsame.symm⟩
  · intro hfits
    refine ⟨_, _, rfl, rfl, ?_, fun x hx => ?_, insertionInside contents block parameter⟩
    · change ((readText {} (replaceSystemdConfigValue contents block parameter value)).config _).map Prod.fst = _
      rw [hread, hafter]
      rcases hfits with ⟨htarget, hover, hend⟩ | ⟨hvalue, hrest⟩
      · rw [if_pos ⟨htarget.symm, hover⟩, hend]
        rfl
      · split_ifs with hboth
        · rcases hrest with hover | hsame
          · exact absurd hover hboth.2
          · rw [← hboth.1] at hsame
            rw [hsame] at hvalue
            exact hvalue
        · exact hvalue
    · change (readText {} (replaceSystemdConfigValue contents block parameter value)).config x = (readText {} contents).config x
      rw [hread, hafter]
      split_ifs with hboth
      · rcases hfits with ⟨htarget, -, -⟩ | ⟨-, hrest⟩
        · exact absurd (hboth.1.trans htarget) hx
        · rcases hrest with hover | hsame
          · exact absurd hover hboth.2
          · rw [hboth.1, hsame]
      · rfl

theorem accepted_parameter {params : Params} {desired : Desired} (h : getSystemdConfigRemediationValue params = .ok desired) :
    IsParameter params.parameter ∧ newline ∉ desired.block ∧ newline ∉ desired.value := by
  have hblockBytes : newline ∈ utf8 "[]\r\n" := by decide +kernel
  have hvalueBytes : newline ∈ utf8 "\r\n" := by decide +kernel
  simp only [getSystemdConfigRemediationValue] at h
  split at h
  · split at h
    · cases h
    · split at h
      · cases h
      · split at h
        · cases h
        · next hbad =>
          split at h
          · cases h
          · next hname =>
            split at h
            · split at h
              · cases h
              · next hvalue =>
                cases h
                rw [not_or] at hbad hname
                refine ⟨⟨hname.1, fun c hc => ?_⟩, fun hmem => hbad.2 ⟨newline, hmem, hblockBytes⟩,
                  fun hmem => hvalue ⟨newline, hmem, .inr hvalueBytes⟩⟩
                by_contra hbyte
                exact hname.2 ⟨c, hc, by simpa using hbyte⟩
            · cases h
  · cases h

/-- The rewritten setting is the one that the audit reads where the line that is written fits. -/
theorem replaceSystemdConfigValue_settles_iff {params : Params} {desired : Desired}
    (h : getSystemdConfigRemediationValue params = .ok desired) (contents : Bytes) :
    Settles contents desired.block params.parameter desired.value ↔
      ∃ place, IsPlace contents desired.block params.parameter place ∧
        place.Fits contents desired.block params.parameter desired.value := by
  obtain ⟨hparameter, hblock, hvalue⟩ := accepted_parameter h
  have hname : newline ∉ params.parameter := fun hmem =>
    (parameterByte_plain (hparameter.bytes newline hmem)).2.2.2.2.2 rfl
  obtain ⟨place, hplace, hread⟩ := @readText_replaceSystemdConfigValue contents _ _ _ hblock hname hvalue
  rw [settles_iff hparameter hplace hread]
  constructor
  · exact fun hfits => ⟨place, hplace, hfits⟩
  · rintro ⟨other, hother, hfits⟩
    rwa [hplace.unique hother]

theorem replaceSystemdConfigValue_settles_iff_journal :
    Settles (utf8 "[Journal]\n#Storage=auto\nStorage=volatile\n") (utf8 "Journal") (utf8 "Storage") (utf8 "persistent") ↔
      ∃ place, IsPlace (utf8 "[Journal]\n#Storage=auto\nStorage=volatile\n") (utf8 "Journal") (utf8 "Storage") place ∧
        place.Fits (utf8 "[Journal]\n#Storage=auto\nStorage=volatile\n") (utf8 "Journal") (utf8 "Storage")
          (utf8 "persistent") :=
  @replaceSystemdConfigValue_settles_iff
    { parameter := utf8 "Storage", op := some .equal, value := some (utf8 "persistent")
      file := some (utf8 "/etc/systemd/journald.conf"), block := some (utf8 "Journal") }
    { file := utf8 "/etc/systemd/journald.conf", block := utf8 "Journal", value := utf8 "persistent" }
    (by rfl) _

/-- The key that the audit reads has the blank before the `=` in it. -/
theorem blank_not_settles :
    ¬ Settles (utf8 "[Journal]\nStorage = volatile\n") (utf8 "Journal") (utf8 "Storage") (utf8 "persistent") := by
  rintro ⟨before, after, -, hwritten, hvalue, -, -⟩
  cases hwritten
  revert hvalue
  decide +kernel

end Settles

end Kompli.SystemdConfig
