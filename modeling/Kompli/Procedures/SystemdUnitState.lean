import Kompli.ComplianceEngine.Indicators
import Kompli.ComplianceEngine.StringTools
import Kompli.Foundation.ExceptRule
import Kompli.Foundation.Split

/-! The state of a systemd unit, as `systemctl show` prints it. Neither the order nor the repetition of its lines
matters. -/
namespace Kompli.SystemdUnitState
open StringTools
open Foundation (takeWhile_cut dropWhile_cut not_mem_takeWhile cut_append except_ok_bind)
open Foundation.Streams (lines)

/-- An expression and its text. -/
structure Pattern where
  isMatch : Bytes → Bool
  text : Bytes

structure Params where
  unitName : Bytes
  activeState : Option Pattern := none
  subState : Option Pattern := none
  loadState : Option Pattern := none
  unitFileState : Option Pattern := none
  unit : Option Pattern := none

inductive Property where
  | activeState
  | subState
  | loadState
  | unitFileState
  | unit
  deriving DecidableEq

def Property.argName : Property → Bytes
  | .activeState => utf8 "ActiveState"
  | .subState => utf8 "SubState"
  | .loadState => utf8 "LoadState"
  | .unitFileState => utf8 "UnitFileState"
  | .unit => utf8 "Unit"

def Params.pattern (params : Params) : Property → Option Pattern
  | .activeState => params.activeState
  | .subState => params.subState
  | .loadState => params.loadState
  | .unitFileState => params.unitFileState
  | .unit => params.unit

/-- The properties that are asked for, with their patterns. -/
def Params.queryParams (params : Params) : List (Property × Pattern) :=
  [.activeState, .subState, .loadState, .unitFileState, .unit].filterMap fun property =>
    (params.pattern property).map (property, ·)

def equals : UInt8 := 0x3D

section Audit

variable (params : Params)

def systemCtlCmd : Bytes :=
  utf8 "systemctl show " ++ params.queryParams.flatMap (fun param => utf8 "-p " ++ param.1.argName ++ utf8 " ") ++
    utf8 "\"" ++ escapeForShell params.unitName ++ utf8 "\""

/-- What the lines up to here have shown. -/
structure Scan where
  observed : Property → Option Bytes := fun _ => none
  mismatchMessage : Bytes := []
  indicators : List Indicator := []

def matching (property : Property) (pattern : Pattern) (value : Bytes) : Bytes :=
  utf8 " systemctl unit name '" ++ params.unitName ++ utf8 "' field '" ++ property.argName ++ utf8 "' value '" ++
    value ++ utf8 "' with pattern '" ++ pattern.text ++ utf8 "'"

def failedMatch (property : Property) (pattern : Pattern) (value : Bytes) : Bytes :=
  utf8 "Failed to match" ++ matching params property pattern value

/-- The first value of a property. Only the first mismatch of all is kept. -/
def observe (scan : Scan) (property : Property) (pattern : Pattern) (value : Bytes) : Scan :=
  let observed := Function.update scan.observed property (some value)
  if pattern.isMatch value then
    let shown := utf8 "Successfully matched" ++ matching params property pattern value
    { scan with observed, indicators := scan.indicators ++ [⟨shown, .compliant⟩] }
  else if scan.mismatchMessage = [] then { scan with observed, mismatchMessage := failedMatch params property pattern value }
  else { scan with observed }

def aboutProperty (what name : Bytes) : Error :=
  { message := what ++ utf8 " systemctl property '" ++ name ++ utf8 "' for unit '" ++ params.unitName ++ utf8 "'" }

def noEquals (line : Bytes) : Error :=
  { message := utf8 "Invalid systemctl output, missing '=' in '" ++ line ++ utf8 "'" }

def readValue (scan : Scan) (property : Property) (pattern : Pattern) (value : Bytes) : Except Error Scan :=
  if value = [] ∧ property ≠ .unitFileState then .error (aboutProperty params (utf8 "Empty") property.argName)
  else
    match scan.observed property with
    | none => .ok (observe params scan property pattern value)
    | some observedValue =>
      if value ≠ observedValue then .error (aboutProperty params (utf8 "Conflicting") property.argName) else .ok scan

/-- No two properties have the same name, so that a line is about one of them at most. -/
def readLine (scan : Scan) (line : Bytes) : Except Error Scan :=
  let name := line.takeWhile (· ≠ equals)
  let value := (line.dropWhile (· ≠ equals)).tail
  if equals ∉ line then .error (noEquals line)
  else
    match params.queryParams.find? (·.1.argName = name) with
    | none => .error (aboutProperty params (utf8 "Unexpected") name)
    | some (property, pattern) => readValue params scan property pattern value

/-- A status, and what is shown for it. -/
structure Checked where
  status : Status
  indicators : List Indicator

def conclude (scan : Scan) : Except Error Checked :=
  match params.queryParams.find? (scan.observed ·.1 = none) with
  | some (property, _) => .error (aboutProperty params (utf8 "Missing requested") property.argName)
  | none =>
    if scan.mismatchMessage ≠ [] then
      .ok { status := .nonCompliant, indicators := scan.indicators ++ [⟨scan.mismatchMessage, .nonCompliant⟩] }
    else .ok { status := .compliant, indicators := scan.indicators }

def notRequested : Error :=
  { message := utf8 "None of 'activeState subState loadState unitFileState unit' parameters are present" }

def notExecuted (error : Error) : Error :=
  { message := utf8 "Failed to execute systemctl command '" ++ systemCtlCmd params ++ utf8 "': " ++ error.message
    code := error.code }

def auditSystemdUnitState (executeCommand : Bytes → Except Error Bytes) : Except Error Checked :=
  if params.queryParams = [] then .error notRequested
  else
    match executeCommand (systemCtlCmd params) with
    | .error error => .error (notExecuted params error)
    | .ok output => (lines output).foldlM (readLine params) {} >>= conclude params

end Audit

section Properties

variable {params : Params} {property : Property} {pattern : Pattern} {line name value : Bytes}

theorem argName_injective : Function.Injective Property.argName := by
  intro property other h
  cases property <;> cases other <;> first | rfl | (revert h; decide)

theorem mem_queryParams : (property, pattern) ∈ params.queryParams ↔ params.pattern property = some pattern := by
  have hall : property ∈ [Property.activeState, .subState, .loadState, .unitFileState, .unit] := by
    cases property <;> decide
  rw [Params.queryParams, List.mem_filterMap]
  constructor
  · rintro ⟨other, -, h⟩
    obtain ⟨_, hother, h⟩ := Option.map_eq_some_iff.mp h
    cases h
    exact hother
  · intro h
    exact ⟨property, hall, by rw [h, Option.map_some]⟩

/-- The line assigns the value to the name. -/
def Assigns (line name value : Bytes) : Prop := equals ∉ name ∧ line = name ++ equals :: value

theorem Assigns.takeWhile (h : Assigns line name value) : line.takeWhile (· ≠ equals) = name := by
  rw [h.2]
  exact takeWhile_cut h.1 value

theorem Assigns.tail (h : Assigns line name value) : (line.dropWhile (· ≠ equals)).tail = value := by
  rw [h.2, dropWhile_cut h.1, List.tail_cons]

theorem Assigns.mem (h : Assigns line name value) : equals ∈ line := by
  rw [h.2]
  exact List.mem_append_right name (List.mem_cons_self ..)

theorem assigns_of_mem (h : equals ∈ line) :
    Assigns line (line.takeWhile (· ≠ equals)) (line.dropWhile (· ≠ equals)).tail :=
  ⟨not_mem_takeWhile line, (cut_append h).symm⟩

/-- The line gives a value to a property that is asked for, and may do so. -/
structure Gives (params : Params) (line : Bytes) (property : Property) (value : Bytes) : Prop where
  requested : (params.pattern property).isSome
  assigns : Assigns line property.argName value
  filled : value = [] → property = .unitFileState

theorem Gives.unique {other : Property} {different : Bytes} (h : Gives params line property value)
    (h' : Gives params line other different) : property = other ∧ value = different :=
  ⟨argName_injective (h.assigns.takeWhile.symm.trans h'.assigns.takeWhile), h.assigns.tail.symm.trans h'.assigns.tail⟩

/-- A line that is wrong whatever the others are, or two that are about the same name. -/
inductive Malformed (params : Params) (fileLines : List Bytes) : Prop where
  | noEquals (line : Bytes) (mem : line ∈ fileLines) (h : equals ∉ line)
  | unexpected (line name value : Bytes) (mem : line ∈ fileLines) (assigns : Assigns line name value)
      (h : ∀ property, (params.pattern property).isSome → property.argName ≠ name)
  | empty (line : Bytes) (property : Property) (mem : line ∈ fileLines) (assigns : Assigns line property.argName [])
      (requested : (params.pattern property).isSome) (h : property ≠ .unitFileState)
  | conflicting (line other name value different : Bytes) (mem : line ∈ fileLines) (mem_other : other ∈ fileLines)
      (assigns : Assigns line name value) (assigns_other : Assigns other name different) (h : value ≠ different)

/-- A property that is asked for is on none of the lines. -/
def Missing (params : Params) (fileLines : List Bytes) : Prop :=
  ∃ property, (params.pattern property).isSome ∧ ∀ line ∈ fileLines, ∀ value, ¬Assigns line property.argName value

/-- Every property that is asked for has a value that matches. -/
def AllMatch (params : Params) (fileLines : List Bytes) : Prop :=
  ∀ property pattern, params.pattern property = some pattern →
    ∃ line ∈ fileLines, ∃ value, Assigns line property.argName value ∧ pattern.isMatch value = true

theorem Malformed.mono {fileLines others : List Bytes} (h : Malformed params fileLines)
    (hsub : ∀ line ∈ fileLines, line ∈ others) : Malformed params others := by
  cases h with
  | noEquals line mem h => exact .noEquals line (hsub line mem) h
  | unexpected line name value mem assigns h => exact .unexpected line name value (hsub line mem) assigns h
  | empty line property mem assigns requested h => exact .empty line property (hsub line mem) assigns requested h
  | conflicting line other name value different mem mem_other assigns assigns_other h =>
    exact .conflicting line other name value different (hsub line mem) (hsub other mem_other) assigns assigns_other h

theorem not_malformed {fileLines : List Bytes}
    (hgives : ∀ line ∈ fileLines, ∃ property value, Gives params line property value)
    (hone : ∀ line ∈ fileLines, ∀ other ∈ fileLines, ∀ property value different,
      Gives params line property value → Gives params other property different → value = different) :
    ¬Malformed params fileLines := by
  intro h
  cases h with
  | noEquals line mem h =>
    obtain ⟨_, _, hline⟩ := hgives line mem
    exact h hline.assigns.mem
  | unexpected line name value mem assigns h =>
    obtain ⟨property, _, hline⟩ := hgives line mem
    exact h property hline.requested (hline.assigns.takeWhile.symm.trans assigns.takeWhile)
  | empty line property mem assigns requested h =>
    obtain ⟨other, value, hline⟩ := hgives line mem
    have hname : other = property := argName_injective (hline.assigns.takeWhile.symm.trans assigns.takeWhile)
    have hvalue : value = [] := hline.assigns.tail.symm.trans assigns.tail
    exact h (hname ▸ hline.filled hvalue)
  | conflicting line other name value different mem mem_other assigns assigns_other h =>
    obtain ⟨property, given, hline⟩ := hgives line mem
    obtain ⟨property', given', hother⟩ := hgives other mem_other
    have hname : name = property.argName := assigns.takeWhile.symm.trans hline.assigns.takeWhile
    have hname' : name = property'.argName := assigns_other.takeWhile.symm.trans hother.assigns.takeWhile
    have hsame : property' = property := argName_injective (hname'.symm.trans hname)
    subst hsame
    have hvalue : value = given := assigns.tail.symm.trans hline.assigns.tail
    have hdifferent : different = given' := assigns_other.tail.symm.trans hother.assigns.tail
    apply h
    rw [hvalue, hdifferent]
    exact hone line mem other mem_other _ _ _ hline hother

end Properties

section Lines

variable {params : Params} {scan next : Scan} {property : Property} {pattern : Pattern} {line name value : Bytes}
  {seen fileLines : List Bytes}

theorem readLine_noEquals (h : equals ∉ line) : readLine params scan line = .error (noEquals line) := by
  rw [readLine, if_pos h]

theorem readLine_unexpected (hassigns : Assigns line name value)
    (h : ∀ property, (params.pattern property).isSome → property.argName ≠ name) :
    readLine params scan line = .error (aboutProperty params (utf8 "Unexpected") name) := by
  have hnone : params.queryParams.find? (·.1.argName = name) = none := by
    apply List.find?_eq_none.mpr
    rintro ⟨property, pattern⟩ hmem
    have hsome := mem_queryParams.mp hmem
    simpa using h property (by rw [hsome, Option.isSome_some])
  rw [readLine, if_neg (not_not_intro hassigns.mem), hassigns.takeWhile, hnone]

theorem readLine_of_assigns (hassigns : Assigns line property.argName value)
    (hpattern : params.pattern property = some pattern) :
    readLine params scan line = readValue params scan property pattern value := by
  have hfound : params.queryParams.find? (·.1.argName = property.argName) = some (property, pattern) := by
    cases hfind : params.queryParams.find? (·.1.argName = property.argName) with
    | none => simpa using List.find?_eq_none.mp hfind _ (mem_queryParams.mpr hpattern)
    | some found =>
      obtain ⟨other, otherPattern⟩ := found
      have hname : other = property := argName_injective (by simpa using List.find?_some hfind)
      have hsome := mem_queryParams.mp (List.mem_of_find?_eq_some hfind)
      rw [hname, hpattern] at hsome
      cases hsome
      rw [hname]
  rw [readLine, if_neg (not_not_intro hassigns.mem), hassigns.takeWhile, hassigns.tail, hfound]

/-- All that a line can do. -/
theorem readLine_cases (params : Params) (scan : Scan) (line : Bytes) :
    (∃ e, readLine params scan line = .error e ∧ (Malformed params [line] ∨ ∃ property value observedValue,
      Gives params line property value ∧ scan.observed property = some observedValue ∧ value ≠ observedValue)) ∨
    ∃ property pattern value, params.pattern property = some pattern ∧ Gives params line property value ∧
      (scan.observed property = some value ∧ readLine params scan line = .ok scan ∨
        scan.observed property = none ∧
          readLine params scan line = .ok (observe params scan property pattern value)) := by
  by_cases hequals : equals ∉ line
  · exact .inl ⟨_, readLine_noEquals hequals, .inl (.noEquals line (List.mem_singleton_self line) hequals)⟩
  have hassigns := assigns_of_mem (not_not.mp hequals)
  by_cases hnone : ∀ property, (params.pattern property).isSome → property.argName ≠ line.takeWhile (· ≠ equals)
  · exact .inl ⟨_, readLine_unexpected hassigns hnone,
      .inl (.unexpected line _ _ (List.mem_singleton_self line) hassigns hnone)⟩
  push Not at hnone
  obtain ⟨property, hrequested, hname⟩ := hnone
  obtain ⟨pattern, hpattern⟩ := Option.isSome_iff_exists.mp hrequested
  generalize (line.dropWhile (· ≠ equals)).tail = value at hassigns
  rw [← hname] at hassigns
  rw [readLine_of_assigns hassigns hpattern, readValue]
  by_cases hempty : value = [] ∧ property ≠ .unitFileState
  · rw [if_pos hempty]
    rw [hempty.1] at hassigns
    exact .inl ⟨_, rfl, .inl (.empty line property (List.mem_singleton_self line) hassigns hrequested hempty.2)⟩
  rw [if_neg hempty]
  have hgives : Gives params line property value :=
    ⟨hrequested, hassigns, fun hvalue => of_not_not fun hother => hempty ⟨hvalue, hother⟩⟩
  cases hobserved : scan.observed property with
  | none => exact .inr ⟨property, pattern, value, hpattern, hgives, .inr ⟨hobserved, rfl⟩⟩
  | some observedValue =>
    dsimp only
    by_cases hvalue : value = observedValue
    · refine .inr ⟨property, pattern, value, hpattern, hgives, .inl ⟨?_, if_neg (not_not_intro hvalue)⟩⟩
      rw [hobserved, hvalue]
    · exact .inl ⟨_, if_pos hvalue, .inr ⟨property, value, observedValue, hgives, hobserved, hvalue⟩⟩

theorem observe_observed : (observe params scan property pattern value).observed =
    Function.update scan.observed property (some value) := by
  unfold observe
  split_ifs <;> rfl

theorem failedMatch_ne_nil : failedMatch params property pattern value ≠ [] := by
  have hne : utf8 "Failed to match" ≠ [] := by decide
  exact fun h => hne (List.append_eq_nil_iff.mp h).1

theorem observe_mismatchMessage : (observe params scan property pattern value).mismatchMessage = [] ↔
    scan.mismatchMessage = [] ∧ pattern.isMatch value = true := by
  unfold observe
  by_cases hmatch : pattern.isMatch value = true
  · rw [if_pos hmatch]
    exact ⟨fun h => ⟨h, hmatch⟩, fun h => h.1⟩
  · rw [if_neg hmatch]
    by_cases hmessage : scan.mismatchMessage = []
    · rw [if_pos hmessage]
      exact ⟨fun h => absurd h failedMatch_ne_nil, fun h => absurd h.2 hmatch⟩
    · rw [if_neg hmessage]
      exact ⟨fun h => absurd h hmessage, fun h => absurd h.1 hmessage⟩

/-- What the scan holds after the lines that it has read. -/
structure Read (params : Params) (seen : List Bytes) (scan : Scan) : Prop where
  gives : ∀ line ∈ seen, ∃ property value, Gives params line property value
  observed : ∀ property value, scan.observed property = some value ↔ ∃ line ∈ seen, Gives params line property value
  mismatch : scan.mismatchMessage = [] ↔ ∀ property pattern value, params.pattern property = some pattern →
    scan.observed property = some value → pattern.isMatch value = true

theorem Read.start : Read params [] {} where
  gives := by simp
  observed := by simp
  mismatch := by simp

theorem Read.not_malformed (h : Read params seen scan) : ¬Malformed params seen := by
  apply SystemdUnitState.not_malformed h.gives
  intro line mem other mem_other property value different hline hother
  have hvalue := (h.observed property value).mpr ⟨line, mem, hline⟩
  have hdifferent := (h.observed property different).mpr ⟨other, mem_other, hother⟩
  rw [hvalue] at hdifferent
  exact Option.some.inj hdifferent

theorem gives_append : (∃ given ∈ seen ++ [line], Gives params given property value) ↔
    (∃ given ∈ seen, Gives params given property value) ∨ Gives params line property value := by
  simp only [List.mem_append, List.mem_singleton, or_and_right, exists_or, exists_eq_left]

theorem Read.all_gives (h : Read params seen scan) (hgives : Gives params line property value) :
    ∀ given ∈ seen ++ [line], ∃ property value, Gives params given property value := by
  intro given hmem
  rcases List.mem_append.mp hmem with hseen | hlast
  · exact h.gives given hseen
  · rw [List.mem_singleton.mp hlast]
    exact ⟨property, value, hgives⟩

theorem Read.again (h : Read params seen scan) (hgives : Gives params line property value)
    (hobserved : scan.observed property = some value) : Read params (seen ++ [line]) scan := by
  refine ⟨h.all_gives hgives, ?_, h.mismatch⟩
  intro other different
  rw [gives_append, h.observed, iff_self_or]
  intro hgiven
  obtain ⟨rfl, rfl⟩ := hgives.unique hgiven
  exact (h.observed _ _).mp hobserved

theorem Read.first (h : Read params seen scan) (hpattern : params.pattern property = some pattern)
    (hgives : Gives params line property value) (hobserved : scan.observed property = none) :
    Read params (seen ++ [line]) (observe params scan property pattern value) := by
  refine ⟨h.all_gives hgives, ?_, ?_⟩
  · intro other different
    rw [gives_append, ← h.observed, observe_observed]
    by_cases hsame : other = property
    · subst hsame
      rw [Function.update_self, hobserved]
      constructor
      · intro hvalue
        cases hvalue
        exact .inr hgives
      · rintro (hnone | hgiven)
        · cases hnone
        · rw [(hgives.unique hgiven).2]
    · rw [Function.update_of_ne hsame, iff_self_or]
      exact fun hgiven => absurd (hgives.unique hgiven).1.symm hsame
  · rw [observe_mismatchMessage, observe_observed, h.mismatch]
    constructor
    · rintro ⟨hold, hmatch⟩ other otherPattern different hother hdifferent
      by_cases hsame : other = property
      · subst hsame
        rw [Function.update_self] at hdifferent
        rw [hpattern] at hother
        cases hdifferent
        cases hother
        exact hmatch
      · rw [Function.update_of_ne hsame] at hdifferent
        exact hold other otherPattern different hother hdifferent
    · intro hall
      refine ⟨fun other otherPattern different hother hdifferent => ?_, ?_⟩
      · have hsame : other ≠ property := by
          rintro rfl
          rw [hobserved] at hdifferent
          cases hdifferent
        exact hall other otherPattern different hother ((Function.update_of_ne hsame _ _).trans hdifferent)
      · exact hall property pattern value hpattern (Function.update_self ..)

/-- A line that can be read is read, and one that cannot makes the lines wrong. -/
theorem Read.step (h : Read params seen scan) (line : Bytes) :
    (∃ next, readLine params scan line = .ok next ∧ Read params (seen ++ [line]) next) ∨
      ∃ e, readLine params scan line = .error e ∧ Malformed params (seen ++ [line]) := by
  obtain ⟨e, herror, hline | ⟨property, value, observedValue, hgives, hobserved, hne⟩⟩ |
    ⟨property, pattern, value, hpattern, hgives, ⟨hobserved, hok⟩ | ⟨hobserved, hok⟩⟩ := readLine_cases params scan line
  · exact .inr ⟨e, herror, hline.mono fun _ hmem => List.mem_append_right seen hmem⟩
  · obtain ⟨other, hseen, hother⟩ := (h.observed property observedValue).mp hobserved
    have hmem : line ∈ seen ++ [line] := List.mem_append_right seen (List.mem_singleton_self line)
    exact .inr ⟨e, herror, .conflicting line other _ value observedValue hmem (List.mem_append_left _ hseen)
      hgives.assigns hother.assigns hne⟩
  · exact .inl ⟨scan, hok, h.again hgives hobserved⟩
  · exact .inl ⟨_, hok, h.first hpattern hgives hobserved⟩

theorem Read.run (h : Read params seen scan) (fileLines : List Bytes) :
    (∃ last, fileLines.foldlM (readLine params) scan = .ok last ∧ Read params (seen ++ fileLines) last) ∨
      ∃ e, fileLines.foldlM (readLine params) scan = .error e ∧ Malformed params (seen ++ fileLines) := by
  induction fileLines generalizing seen scan with
  | nil =>
    rw [List.append_nil]
    exact .inl ⟨scan, rfl, h⟩
  | cons line fileLines ih =>
    rw [List.foldlM_cons, List.append_cons]
    obtain ⟨next, hok, hnext⟩ | ⟨e, herror, hmalformed⟩ := h.step line
    · rw [hok, except_ok_bind]
      exact ih hnext
    · rw [herror]
      exact .inr ⟨e, rfl, hmalformed.mono fun _ hmem => List.mem_append_left fileLines hmem⟩

theorem Read.observed_iff (h : Read params fileLines scan) :
    scan.observed property = some value ↔ ∃ line ∈ fileLines, Assigns line property.argName value := by
  rw [h.observed]
  constructor
  · rintro ⟨line, hmem, hgives⟩
    exact ⟨line, hmem, hgives.assigns⟩
  · rintro ⟨line, hmem, hassigns⟩
    obtain ⟨other, given, hgives⟩ := h.gives line hmem
    have hname : other = property := argName_injective (hgives.assigns.takeWhile.symm.trans hassigns.takeWhile)
    have hvalue : given = value := hgives.assigns.tail.symm.trans hassigns.tail
    subst hname hvalue
    exact ⟨line, hmem, hgives⟩

theorem Read.missing_iff (h : Read params fileLines scan) :
    Missing params fileLines ↔ ∃ property, (params.pattern property).isSome ∧ scan.observed property = none := by
  refine exists_congr fun property => and_congr_right fun _ => ?_
  rw [Option.eq_none_iff_forall_ne_some]
  constructor
  · intro hnone value hvalue
    obtain ⟨line, hmem, hassigns⟩ := h.observed_iff.mp hvalue
    exact hnone line hmem value hassigns
  · intro hnone line hmem value hassigns
    exact hnone value (h.observed_iff.mpr ⟨line, hmem, hassigns⟩)

theorem Read.allMatch_iff (h : Read params fileLines scan) (hall : ¬Missing params fileLines) :
    AllMatch params fileLines ↔ scan.mismatchMessage = [] := by
  rw [h.mismatch]
  constructor
  · intro hmatch property pattern value hpattern hobserved
    obtain ⟨line, hmem, given, hassigns, hgiven⟩ := hmatch property pattern hpattern
    have hsame := h.observed_iff.mpr ⟨line, hmem, hassigns⟩
    rw [hobserved] at hsame
    cases hsame
    exact hgiven
  · intro hmatch property pattern hpattern
    cases hobserved : scan.observed property with
    | none => exact absurd (h.missing_iff.mpr ⟨property, by rw [hpattern, Option.isSome_some], hobserved⟩) hall
    | some value =>
      obtain ⟨line, hmem, hassigns⟩ := h.observed_iff.mp hobserved
      exact ⟨line, hmem, value, hassigns, hmatch property pattern value hpattern hobserved⟩

theorem conclude_missing (h : ∃ property, (params.pattern property).isSome ∧ scan.observed property = none) :
    ∃ e, conclude params scan = .error e := by
  obtain ⟨property, hrequested, hnone⟩ := h
  obtain ⟨pattern, hpattern⟩ := Option.isSome_iff_exists.mp hrequested
  rw [conclude]
  cases hfind : params.queryParams.find? (scan.observed ·.1 = none) with
  | none => simpa [hnone] using List.find?_eq_none.mp hfind _ (mem_queryParams.mpr hpattern)
  | some found => exact ⟨_, rfl⟩

theorem conclude_found (h : ¬∃ property, (params.pattern property).isSome ∧ scan.observed property = none) :
    ∃ checked, conclude params scan = .ok checked ∧
      checked.status = if scan.mismatchMessage = [] then .compliant else .nonCompliant := by
  have hnone : params.queryParams.find? (scan.observed ·.1 = none) = none := by
    apply List.find?_eq_none.mpr
    rintro ⟨property, pattern⟩ hmem
    have hsome := mem_queryParams.mp hmem
    simpa using fun hobserved => h ⟨property, by rw [hsome, Option.isSome_some], hobserved⟩
  rw [conclude, hnone]
  dsimp only
  by_cases hmessage : scan.mismatchMessage = []
  · rw [if_neg (not_not_intro hmessage), if_pos hmessage]
    exact ⟨_, rfl, rfl⟩
  · rw [if_pos hmessage, if_neg hmessage]
    exact ⟨_, rfl, rfl⟩

end Lines

section Verdict

variable {params : Params} {executeCommand : Bytes → Except Error Bytes} {output : Bytes}

/-- The lines are wrong, or a property that is asked for is on none of them. -/
def Faulty (params : Params) (fileLines : List Bytes) : Prop := Malformed params fileLines ∨ Missing params fileLines

theorem audit_cases (hrequested : ∃ property, (params.pattern property).isSome)
    (hrun : executeCommand (systemCtlCmd params) = .ok output) :
    (Faulty params (lines output) ∧ ∃ e, auditSystemdUnitState params executeCommand = .error e) ∨
      ¬Faulty params (lines output) ∧ ∃ checked, auditSystemdUnitState params executeCommand = .ok checked ∧
        (AllMatch params (lines output) ∧ checked.status = .compliant ∨
          ¬AllMatch params (lines output) ∧ checked.status = .nonCompliant) := by
  have hne : params.queryParams ≠ [] := by
    obtain ⟨property, hsome⟩ := hrequested
    obtain ⟨pattern, hpattern⟩ := Option.isSome_iff_exists.mp hsome
    exact List.ne_nil_of_mem (mem_queryParams.mpr hpattern)
  rw [auditSystemdUnitState, if_neg hne, hrun]
  dsimp only
  obtain ⟨scan, hok, hread⟩ | ⟨e, herror, hmalformed⟩ := Read.start.run (lines output)
  · rw [List.nil_append] at hread
    rw [hok, except_ok_bind]
    by_cases hmissing : Missing params (lines output)
    · exact .inl ⟨.inr hmissing, conclude_missing (hread.missing_iff.mp hmissing)⟩
    · obtain ⟨checked, hchecked, hstatus⟩ := conclude_found (hread.missing_iff.not.mp hmissing)
      refine .inr ⟨fun hfaulty => hfaulty.elim hread.not_malformed hmissing, checked, hchecked, ?_⟩
      rw [hread.allMatch_iff hmissing, hstatus]
      by_cases hmessage : scan.mismatchMessage = []
      · exact .inl ⟨hmessage, if_pos hmessage⟩
      · exact .inr ⟨hmessage, if_neg hmessage⟩
  · rw [herror]
    exact .inl ⟨.inl hmalformed, e, rfl⟩

theorem faulty_congr {fileLines others : List Bytes} (h : ∀ line, line ∈ fileLines ↔ line ∈ others) :
    Faulty params fileLines ↔ Faulty params others := by
  refine or_congr ⟨fun hm => hm.mono fun line => (h line).mp, fun hm => hm.mono fun line => (h line).mpr⟩ ?_
  simp only [Missing, h]

theorem allMatch_congr {fileLines others : List Bytes} (h : ∀ line, line ∈ fileLines ↔ line ∈ others) :
    AllMatch params fileLines ↔ AllMatch params others := by
  simp only [AllMatch, h]

/-- The status, or none where there is an error. -/
def verdict (result : Except Error Checked) : Option Status := result.toOption.map Checked.status

/-- The audit fails exactly where a line is malformed or a property is missing, and is compliant else exactly where every
value matches; it does not matter in which order the lines come, nor how often. -/
theorem auditSystemdUnitState_orderless (hrequested : ∃ property, (params.pattern property).isSome)
    (hrun : executeCommand (systemCtlCmd params) = .ok output) :
    ((∃ e, auditSystemdUnitState params executeCommand = .error e) ↔ Faulty params (lines output)) ∧
    (∀ checked, auditSystemdUnitState params executeCommand = .ok checked →
      (checked.status = .compliant ↔ AllMatch params (lines output))) ∧
    ∀ (otherRun : Bytes → Except Error Bytes) (other : Bytes), otherRun (systemCtlCmd params) = .ok other →
      (∀ line, line ∈ lines output ↔ line ∈ lines other) →
        verdict (auditSystemdUnitState params executeCommand) = verdict (auditSystemdUnitState params otherRun) := by
  refine ⟨?_, ?_, ?_⟩
  · obtain ⟨hfaulty, herror⟩ | ⟨hsound, checked, hok, -⟩ := audit_cases hrequested hrun
    · exact iff_of_true herror hfaulty
    · refine iff_of_false ?_ hsound
      rintro ⟨e, herror⟩
      rw [hok] at herror
      cases herror
  · intro checked hchecked
    obtain ⟨-, e, herror⟩ | ⟨-, found, hok, hstatus⟩ := audit_cases hrequested hrun
    · rw [hchecked] at herror
      cases herror
    · rw [hchecked] at hok
      cases hok
      rcases hstatus with ⟨hmatch, hstatus⟩ | ⟨hmatch, hstatus⟩
      · exact iff_of_true hstatus hmatch
      · refine iff_of_false ?_ hmatch
        rw [hstatus]
        exact nofun
  · intro otherRun other hother hsame
    have hcases := audit_cases hrequested hother
    rw [← faulty_congr hsame, ← allMatch_congr hsame] at hcases
    obtain ⟨hfaulty, e, herror⟩ | ⟨hsound, checked, hok, hstatus⟩ := audit_cases hrequested hrun
    · obtain ⟨-, e', herror'⟩ | ⟨hsound, -⟩ := hcases
      · rw [herror, herror']
        rfl
      · exact absurd hfaulty hsound
    · obtain ⟨hfaulty, -⟩ | ⟨-, checked', hok', hstatus'⟩ := hcases
      · exact absurd hfaulty hsound
      · rw [hok, hok']
        have hequal : checked.status = checked'.status := by grind
        exact congrArg some hequal

/-- Only an active unit that is loaded will do. -/
def activeAndLoaded : Params :=
  { unitName := utf8 "cron.timer", activeState := some { isMatch := (· = utf8 "active"), text := utf8 "^active$" }
    loadState := some { isMatch := (· = utf8 "loaded"), text := utf8 "^loaded$" } }

def prints (output : Bytes) (_ : Bytes) : Except Error Bytes := .ok output

/-- Two properties the other way round, and one of them twice. -/
theorem orderless_permuted :
    verdict (auditSystemdUnitState activeAndLoaded (prints (utf8 "LoadState=loaded\nActiveState=active\nLoadState=loaded\n"))) =
      verdict (auditSystemdUnitState activeAndLoaded (prints (utf8 "ActiveState=active\nLoadState=loaded\n"))) ∧
    verdict (auditSystemdUnitState activeAndLoaded (prints (utf8 "ActiveState=active\nLoadState=loaded\n"))) =
      some .compliant := by
  have hrequested : ∃ property, (activeAndLoaded.pattern property).isSome := ⟨.activeState, rfl⟩
  have hlines : ∀ line, line ∈ lines (utf8 "LoadState=loaded\nActiveState=active\nLoadState=loaded\n") ↔
      line ∈ lines (utf8 "ActiveState=active\nLoadState=loaded\n") := by
    have hfirst : lines (utf8 "LoadState=loaded\nActiveState=active\nLoadState=loaded\n") =
        [utf8 "LoadState=loaded", utf8 "ActiveState=active", utf8 "LoadState=loaded"] := by decide
    have hsecond : lines (utf8 "ActiveState=active\nLoadState=loaded\n") =
        [utf8 "ActiveState=active", utf8 "LoadState=loaded"] := by decide
    intro line
    rw [hfirst, hsecond]
    simp only [List.mem_cons, List.not_mem_nil, or_false]
    exact ⟨fun h => h.elim .inr id, .inr⟩
  have hrun : prints (utf8 "LoadState=loaded\nActiveState=active\nLoadState=loaded\n") (systemCtlCmd activeAndLoaded) =
      .ok (utf8 "LoadState=loaded\nActiveState=active\nLoadState=loaded\n") := rfl
  exact ⟨(auditSystemdUnitState_orderless hrequested hrun).2.2 (prints _) _ rfl hlines, by decide⟩

end Verdict
end Kompli.SystemdUnitState
