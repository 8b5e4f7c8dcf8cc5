import Kompli.Cli.JUnitRenderer
import Kompli.Cli.PlanFile
import Kompli.Parson.Balanced

/-! What the readers of plans, definitions and results make of data after the document. -/
namespace Kompli.Cli
open BenchmarkIO BenchmarkDefinition Parson Ascii Foundation

section ScanPlan

private theorem scanPlan_plain {c : UInt8} (hc : isStructural c = false) (delimiters s : Bytes) :
    scanPlan delimiters false false (c :: s) = scanPlan delimiters false false s := by
  rw [isStructural, List.contains_eq_mem, decide_eq_false_iff_not] at hc
  simp only [List.mem_cons, List.not_mem_nil, or_false, not_or] at hc
  rw [scanPlan.eq_def]
  simp only [hc, or_self, ↓reduceIte]

private theorem scanPlan_string {s input rest : Bytes} (h : skipQuotes s = some (input, rest)) (delimiters : Bytes) :
    scanPlan delimiters true false s = scanPlan delimiters false false rest := by
  fun_induction skipQuotes s generalizing input with
  | case1 => cases h
  | case2 s =>
    cases h
    rw [scanPlan.eq_def]
    rfl
  | case3 => cases h
  | case4 _ s e ih =>
    obtain ⟨⟨input', rest'⟩, hrest, heq⟩ := Option.map_eq_some_iff.mp h
    cases heq
    rw [scanPlan.eq_def]
    exact ih hrest
  | case5 c s hquote hbackslash ih =>
    obtain ⟨⟨input', rest'⟩, hrest, heq⟩ := Option.map_eq_some_iff.mp h
    cases heq
    rw [scanPlan.eq_def]
    simp only [if_neg hquote, if_neg hbackslash]
    exact ih hrest

/-- Inside a bracket the scan goes over a balanced text. -/
theorem scanPlan_balanced {w : Bytes} (h : Balanced w) (delimiter : UInt8) (delimiters rest : Bytes) :
    scanPlan (delimiter :: delimiters) false false (w ++ rest) =
      scanPlan (delimiter :: delimiters) false false rest := by
  induction h generalizing delimiter delimiters rest with
  | nil => rfl
  | append _ _ iha ihb => rw [List.append_assoc, iha, ihb]
  | plain hc => exact scanPlan_plain hc _ rest
  | string hquoted =>
    rw [List.cons_append, List.append_assoc, List.singleton_append, scanPlan.eq_def]
    exact scanPlan_string (hquoted rest) _
  | array _ ih =>
    rw [List.cons_append, List.append_assoc, List.singleton_append, scanPlan.eq_def]
    simp only [show leftBracket ≠ quote by decide, or_true, ↓reduceIte]
    rw [ih, scanPlan.eq_def]
    rfl
  | object _ ih =>
    rw [List.cons_append, List.append_assoc, List.singleton_append, scanPlan.eq_def]
    simp only [show leftBrace ≠ quote by decide, true_or, ↓reduceIte]
    rw [ih, scanPlan.eq_def]
    rfl

/-- A plan that is an object is refused where more than white space follows it. -/
theorem rejectTrailingPlanData_object {content t rest : Bytes} (hstart : skipWhitespaces content = leftBrace :: t)
    (h : Passes t (rightBrace :: rest)) :
    rejectTrailingPlanData content =
      if skipWhitespaces rest = [] then .ok ()
      else .error (invalidPlan (utf8 "Plan file contains trailing data after the JSON document")) := by
  obtain ⟨w, rfl, hw⟩ := h
  simp only [rejectTrailingPlanData, hstart, List.head?_cons, ↓reduceIte]
  rw [scanPlan.eq_def]
  simp only [show leftBrace ≠ quote by decide, true_or, ↓reduceIte]
  rw [scanPlan_balanced hw, scanPlan.eq_def]
  simp only [show rightBrace ≠ quote by decide, show rightBrace ≠ leftBrace by decide,
    show rightBrace ≠ leftBracket by decide, or_self, true_or, ne_eq, not_true_eq_false, ↓reduceIte]

/-- A text that does not start with a brace is not scanned. -/
theorem rejectTrailingPlanData_other {content : Bytes} (h : (skipWhitespaces content).head? ≠ some leftBrace) :
    rejectTrailingPlanData content = .ok () := by
  simp only [rejectTrailingPlanData, if_neg h]

end ScanPlan

section ScanObject

private theorem scanObject_plain {c : UInt8} (hq : c ≠ quote) (hl : c ≠ leftBrace) (hr : c ≠ rightBrace)
    (depth : Nat) (s : Bytes) : scanObject depth false (c :: s) = scanObject depth false s := by
  rw [scanObject.eq_def]
  simp only [if_neg hq, if_neg hl, if_neg hr]

private theorem scanObject_string {s input rest : Bytes} (h : skipQuotes s = some (input, rest)) (depth : Nat) :
    scanObject depth true s = scanObject depth false rest := by
  fun_induction skipQuotes s generalizing input with
  | case1 => cases h
  | case2 s =>
    cases h
    rw [scanObject.eq_def]
    rfl
  | case3 => cases h
  | case4 _ s e ih =>
    obtain ⟨⟨input', rest'⟩, hrest, heq⟩ := Option.map_eq_some_iff.mp h
    cases heq
    rw [scanObject.eq_def]
    exact ih hrest
  | case5 c s hquote hbackslash ih =>
    obtain ⟨⟨input', rest'⟩, hrest, heq⟩ := Option.map_eq_some_iff.mp h
    cases heq
    rw [scanObject.eq_def]
    simp only [if_neg hquote, if_neg hbackslash]
    exact ih hrest

/-- Inside a brace the scan goes over a balanced text. -/
theorem scanObject_balanced {w : Bytes} (h : Balanced w) (depth : Nat) (rest : Bytes) :
    scanObject (depth + 1) false (w ++ rest) = scanObject (depth + 1) false rest := by
  induction h generalizing depth rest with
  | nil => rfl
  | append _ _ iha ihb => rw [List.append_assoc, iha, ihb]
  | @plain c hc =>
    rw [isStructural, List.contains_eq_mem, decide_eq_false_iff_not] at hc
    simp only [List.mem_cons, List.not_mem_nil, or_false, not_or] at hc
    exact scanObject_plain hc.1 hc.2.1 hc.2.2.1 _ rest
  | string hquoted =>
    rw [List.cons_append, List.append_assoc, List.singleton_append, scanObject.eq_def]
    exact scanObject_string (hquoted rest) _
  | array _ ih =>
    rw [List.cons_append, List.append_assoc, List.singleton_append,
      scanObject_plain (by decide) (by decide) (by decide), ih,
      scanObject_plain (by decide) (by decide) (by decide)]
  | object _ ih =>
    rw [List.cons_append, List.append_assoc, List.singleton_append, scanObject.eq_def]
    simp only [show leftBrace ≠ quote by decide, ↓reduceIte]
    rw [ih, scanObject.eq_def]
    rfl

/-- A result is refused where more than JSON's white space follows its first object. -/
theorem hasTrailingObjectData_object {json t rest : Bytes} (hstart : json.dropWhile (· ≠ leftBrace) = leftBrace :: t)
    (h : Passes t (rightBrace :: rest)) : hasTrailingObjectData json = rest.any fun c => !isJsonSpace c := by
  obtain ⟨w, rfl, hw⟩ := h
  rw [hasTrailingObjectData, hstart, scanObject.eq_def]
  simp only [show leftBrace ≠ quote by decide, ↓reduceIte]
  rw [scanObject_balanced hw, scanObject.eq_def]
  rfl

end ScanObject

section Readers

/-- The mark that a text starts with, and the text after it. -/
def mark (text : Bytes) : Bytes := if startsWith byteOrderMark text then byteOrderMark else []
def afterMark (text : Bytes) : Bytes := if startsWith byteOrderMark text then text.drop 3 else text

/-- The value that a text starts with, and what follows it, which the parser does not look at. -/
def leadingValue (num : NumberFormat) (text : Bytes) : Option (JsonValue × Bytes) :=
  (parseValue num (maxNesting + 1) (afterMark (cString text))).map fun (value, rest) =>
    (value, rest ++ text.drop (cString text).length)

theorem jsonParseString_eq (num : NumberFormat) (text : Bytes) :
    jsonParseString num text = (leadingValue num text).map Prod.fst := by
  rw [jsonParseString, leadingValue, Option.map_map]
  rfl

private theorem mark_append_afterMark (text : Bytes) : mark text ++ afterMark text = text := by
  rw [mark, afterMark]
  split
  · rename_i hmark
    obtain ⟨t, rfl⟩ := List.isPrefixOf_iff_prefix.mp hmark
    rfl
  · rfl

private theorem cString_append_drop (text : Bytes) : cString text ++ text.drop (cString text).length = text :=
  List.prefix_iff_eq_append.mp (List.takeWhile_prefix _)

private theorem mark_cString (text : Bytes) : mark (cString text) = mark text := by
  have hiff : startsWith byteOrderMark (cString text) = startsWith byteOrderMark text := by
    rw [Bool.eq_iff_iff, startsWith, startsWith, List.isPrefixOf_iff_prefix, List.isPrefixOf_iff_prefix]
    constructor
    · exact fun h => h.trans (List.takeWhile_prefix _)
    · rintro ⟨t, rfl⟩
      exact ⟨cString t, (cString_append (by decide) t).symm⟩
  rw [mark, mark, hiff]

/-- A text that starts with an object: white space, after the mark if there is one, and
what is up to the closing brace. -/
private theorem leadingValue_object {num : NumberFormat} (hplain : num.ReadsPlain) {text rest : Bytes}
    {members : Members} (h : leadingValue num text = some (.object members, rest)) :
    ∃ spaces t, (∀ c ∈ spaces, isSpace c = true) ∧ Passes t (rightBrace :: rest) ∧
      text = mark text ++ (spaces ++ leftBrace :: t) := by
  obtain ⟨⟨value, rest'⟩, hparse, heq⟩ := Option.map_eq_some_iff.mp h
  cases heq
  obtain ⟨t, hskip, hpasses⟩ := parseValue_object hplain hparse
  have hspaces := List.takeWhile_append_dropWhile (p := isSpace) (l := afterMark (cString text))
  rw [show (afterMark (cString text)).dropWhile isSpace = leftBrace :: t from hskip] at hspaces
  refine ⟨(afterMark (cString text)).takeWhile isSpace, t ++ text.drop (cString text).length,
    fun c hc => List.mem_takeWhile_imp hc, hpasses.append _, ?_⟩
  calc text
    _ = cString text ++ text.drop (cString text).length := (cString_append_drop text).symm
    _ = (mark text ++ afterMark (cString text)) ++ text.drop (cString text).length := by
      rw [← mark_cString, mark_append_afterMark]
    _ = _ := by
      rw [List.append_assoc (mark text), ← List.cons_append, ← List.append_assoc (List.takeWhile _ _), hspaces]

private theorem skipWhitespaces_spaces {spaces : Bytes} (h : ∀ c ∈ spaces, isSpace c = true) (s : Bytes) :
    skipWhitespaces (spaces ++ leftBrace :: s) = leftBrace :: s := by
  rw [skipWhitespaces, List.dropWhile_append_of_pos h]
  rfl

/-- The scan of plans looks at white space as `isspace` has it, and at no text after a mark. -/
theorem rejectTrailingPlanData_iff {num : NumberFormat} (hplain : num.ReadsPlain) {text rest : Bytes}
    {members : Members} (h : leadingValue num text = some (.object members, rest)) :
    rejectTrailingPlanData text = .ok () ↔ startsWith byteOrderMark text = true ∨ rest.all isSpace = true := by
  obtain ⟨spaces, t, hspaces, hpasses, htext⟩ := leadingValue_object hplain h
  by_cases hmark : startsWith byteOrderMark text = true
  · rw [mark, if_pos hmark] at htext
    have hhead : (skipWhitespaces text).head? ≠ some leftBrace := by
      rw [htext]
      exact (by decide : some (0xEF : UInt8) ≠ some leftBrace)
    simp only [rejectTrailingPlanData_other hhead, hmark, true_or]
  · rw [mark, if_neg hmark, List.nil_append] at htext
    have hskip : skipWhitespaces text = leftBrace :: t := by
      rw [htext, skipWhitespaces_spaces hspaces]
    rw [rejectTrailingPlanData_object hskip hpasses]
    simp only [hmark, Bool.false_eq_true, false_or]
    have hempty : skipWhitespaces rest = [] ↔ rest.all isSpace = true := by
      rw [skipWhitespaces, List.dropWhile_eq_nil_iff, List.all_eq_true]
    rw [← hempty]
    by_cases hrest : skipWhitespaces rest = []
    · simp only [hrest, ↓reduceIte]
    · simp only [hrest, ↓reduceIte, reduceCtorEq]

/-- The scan of results looks at white space as JSON has it. -/
theorem hasTrailingObjectData_eq {num : NumberFormat} (hplain : num.ReadsPlain) {text rest : Bytes}
    {members : Members} (h : leadingValue num text = some (.object members, rest)) :
    hasTrailingObjectData text = !rest.all isJsonSpace := by
  obtain ⟨spaces, t, hspaces, hpasses, htext⟩ := leadingValue_object hplain h
  have hbefore : ∀ c ∈ mark text ++ spaces, decide (c ≠ leftBrace) = true := by
    intro c hc
    rw [decide_eq_true_eq]
    rintro rfl
    rcases List.mem_append.mp hc with hc | hc
    · rw [mark] at hc
      split at hc
      · exact absurd hc (by decide)
      · exact List.not_mem_nil hc
    · exact absurd (hspaces _ hc) (by decide)
  have hstart : text.dropWhile (· ≠ leftBrace) = leftBrace :: t := by
    rw [htext, ← List.append_assoc, List.dropWhile_append_of_pos hbefore]
    simp
  rw [hasTrailingObjectData_object hstart hpasses, List.not_all_eq_any_not]

/-- The text is an object with nothing but white space after it. -/
def EndsWithObject (num : NumberFormat) (text : Bytes) : Prop :=
  ∃ members rest, leadingValue num text = some (.object members, rest) ∧ rest.all isJsonSpace = true

/-- No reader accepts a text that hides something after its document, and the scanners
find the same end of it. -/
structure HidesNothing (num : NumberFormat) (render : List JsonValue → Bytes → Except Error Bytes)
    (text : Bytes) : Prop where
  plan : ∀ plan, parsePlan num text = .ok plan → EndsWithObject num text
  definition : ∀ document, parseString num text = .ok document → EndsWithObject num text
  result : ∀ suiteName report, renderJUnit num render text suiteName = .ok report → EndsWithObject num text
  scanners : ∀ members rest, leadingValue num text = some (.object members, rest) →
    (rejectTrailingPlanData text = .ok () ↔ hasTrailingObjectData text = false)

/-- The object at the start of a text makes a definition of it, whatever follows. -/
def IsDefinition (num : NumberFormat) (text : Bytes) (members : Members) : Prop :=
  JsonWrapper.containsNul text = false ∧ ∃ document, parseRoot num members = .ok document

/-- Only white space follows the object, or what follows it is seen by the scan of plans and
the object makes no definition. -/
def NothingToHide (num : NumberFormat) (text : Bytes) : Prop :=
  ∀ members rest, leadingValue num text = some (.object members, rest) →
    rest.all isJsonSpace = true ∨
      (startsWith byteOrderMark text = false ∧ rest.all isSpace = false ∧ ¬ IsDefinition num text members)

variable {num : NumberFormat} {text : Bytes}

private theorem fromString_ok {value : JsonValue} (h : JsonWrapper.fromString num text = .ok value) :
    JsonWrapper.containsNul text = false ∧ ∃ rest, leadingValue num text = some (value, rest) := by
  rw [JsonWrapper.fromString] at h
  split at h
  · cases h
  · rename_i hnul
    rw [jsonParseString_eq] at h
    cases hleading : leadingValue num text with
    | none =>
      rw [hleading] at h
      cases h
    | some leading =>
      rw [hleading] at h
      cases h
      exact ⟨by simpa using hnul, leading.2, rfl⟩

private theorem parsePlan_ok {plan : Plan} (h : parsePlan num text = .ok plan) :
    rejectTrailingPlanData text = .ok () ∧
      ∃ members rest, leadingValue num text = some (.object members, rest) := by
  rw [parsePlan] at h
  split at h
  · cases h
  · split at h
    · cases h
    · obtain ⟨⟨⟩, hreject, h⟩ := except_bind_ok_iff.mp h
      cases hparse : JsonWrapper.fromString num text with
      | error e =>
        rw [hparse] at h
        cases h
      | ok value =>
        obtain ⟨-, rest, hleading⟩ := fromString_ok hparse
        rw [hparse] at h
        cases value with
        | object members => exact ⟨hreject, members, rest, hleading⟩
        | _ => cases h

private theorem parseString_ok {document : BenchmarkDocument} (h : parseString num text = .ok document) :
    ∃ members rest, leadingValue num text = some (.object members, rest) ∧ IsDefinition num text members := by
  rw [parseString] at h
  split at h
  · cases h
  · cases hparse : JsonWrapper.fromString num text with
    | error e =>
      rw [hparse] at h
      cases h
    | ok value =>
      obtain ⟨hnul, rest, hleading⟩ := fromString_ok hparse
      rw [hparse] at h
      cases value with
      | object members => exact ⟨members, rest, hleading, hnul, document, h⟩
      | _ => cases h

private theorem parseString_of_isDefinition {members : Members} {rest : Bytes}
    (hleading : leadingValue num text = some (.object members, rest)) (h : IsDefinition num text members) :
    ∃ document, parseString num text = .ok document := by
  obtain ⟨hnul, document, hroot⟩ := h
  have hzero : 0 ∉ text := by
    simp only [JsonWrapper.containsNul, Bool.or_eq_false_iff, decide_eq_false_iff_not] at hnul
    exact hnul.1
  refine ⟨document, ?_⟩
  simp only [parseString, if_neg hzero, JsonWrapper.fromString, hnul, Bool.false_eq_true, ↓reduceIte,
    jsonParseString_eq, hleading, Option.map_some, hroot]

private theorem renderJUnit_ok {render : List JsonValue → Bytes → Except Error Bytes} {suiteName report : Bytes}
    (h : renderJUnit num render text suiteName = .ok report) :
    hasTrailingObjectData text = false ∧
      ∃ members rest, leadingValue num text = some (.object members, rest) := by
  obtain ⟨rules, hread, -⟩ := except_bind_ok_iff.mp h
  rw [readResult, jsonParseString_eq] at hread
  split at hread
  · cases hread
  · cases hleading : leadingValue num text with
    | none =>
      rw [hleading] at hread
      cases hread
    | some leading =>
      obtain ⟨value, rest⟩ := leading
      rw [hleading] at hread
      cases value with
      | object members =>
        dsimp only [Option.map_some] at hread
        split at hread
        · cases hread
        · rename_i htrailing
          exact ⟨by simpa using htrailing, members, rest, rfl⟩
      | _ => cases hread

private theorem all_isSpace {rest : Bytes} (h : rest.all isJsonSpace = true) : rest.all isSpace = true := by
  rw [List.all_eq_true] at h ⊢
  intro c hc
  have hjson := h c hc
  simp only [isJsonSpace, Bool.or_eq_true, decide_eq_true_eq] at hjson
  rcases hjson with ((rfl | rfl) | rfl) | rfl <;> decide

/-- The exact condition: the readers and the scans are right where only JSON's white space follows
the object; where something else does, a mark hides it from the scan of plans, characters that only
`isspace` takes for white space are let through by it, and definitions are not scanned. -/
theorem hidesNothing_iff (hplain : num.ReadsPlain) (render : List JsonValue → Bytes → Except Error Bytes)
    (text : Bytes) : HidesNothing num render text ↔ NothingToHide num text := by
  constructor
  · intro h members rest hleading
    by_cases hrest : rest.all isJsonSpace = true
    · exact Or.inl hrest
    · have hscanners := h.scanners members rest hleading
      rw [rejectTrailingPlanData_iff hplain hleading, hasTrailingObjectData_eq hplain hleading] at hscanners
      have hseen : ¬ (startsWith byteOrderMark text = true ∨ rest.all isSpace = true) := by
        intro hhidden
        have hall := hscanners.mp hhidden
        rw [Bool.not_eq_false'] at hall
        exact hrest hall
      rw [not_or, Bool.not_eq_true, Bool.not_eq_true] at hseen
      refine Or.inr ⟨hseen.1, hseen.2, fun hdefinition => ?_⟩
      obtain ⟨document, hdocument⟩ := parseString_of_isDefinition hleading hdefinition
      obtain ⟨members', rest', hleading', hrest'⟩ := h.definition document hdocument
      rw [hleading] at hleading'
      cases hleading'
      exact hrest hrest'
  · intro h
    refine ⟨fun plan hplan => ?_, fun document hdocument => ?_, fun suiteName report hreport => ?_,
      fun members rest hleading => ?_⟩
    · obtain ⟨hreject, members, rest, hleading⟩ := parsePlan_ok hplan
      rcases h members rest hleading with hrest | ⟨hmark, hspaces, -⟩
      · exact ⟨members, rest, hleading, hrest⟩
      · rw [rejectTrailingPlanData_iff hplain hleading, hmark, hspaces] at hreject
        simp at hreject
    · obtain ⟨members, rest, hleading, hdefinition⟩ := parseString_ok hdocument
      rcases h members rest hleading with hrest | ⟨-, -, hno⟩
      · exact ⟨members, rest, hleading, hrest⟩
      · exact absurd hdefinition hno
    · obtain ⟨htrailing, members, rest, hleading⟩ := renderJUnit_ok hreport
      rw [hasTrailingObjectData_eq hplain hleading, Bool.not_eq_false'] at htrailing
      exact ⟨members, rest, hleading, htrailing⟩
    · rw [rejectTrailingPlanData_iff hplain hleading, hasTrailingObjectData_eq hplain hleading, Bool.not_eq_false']
      rcases h members rest hleading with hrest | ⟨hmark, hspaces, -⟩
      · simp only [hrest, all_isSpace hrest, or_true]
      · have hrest : ¬ rest.all isJsonSpace = true := by
          intro hrest
          rw [all_isSpace hrest] at hspaces
          cases hspaces
        simp only [hmark, hspaces, hrest, Bool.false_eq_true, or_self]

/-- A number format for texts without numbers. -/
private def noNumbers : NumberFormat := { print := fun _ => [], read := fun _ => none }

private theorem noNumbers_readsPlain : noNumbers.ReadsPlain := by
  intro s bits length h
  cases h

private def smallPlan : Bytes := utf8 ("\x7b\"benchmarks\":[\x7b\"file\":\"x.json\",\"version\":\"1.0.0\"," ++
  "\"versionConstraint\":\"^1.0.0\",\"rules\":\x7b\x7d\x7d]\x7d")

/-- A plan that starts with a mark is accepted with anything after it. -/
theorem hides_after_mark :
    ¬ HidesNothing noNumbers (fun _ _ => .ok []) (byteOrderMark ++ smallPlan ++ utf8 "garbage") := by
  intro h
  have hplan : (parsePlan noNumbers (byteOrderMark ++ smallPlan ++ utf8 "garbage")).isOk = true := by
    decide +kernel
  cases hparse : parsePlan noNumbers (byteOrderMark ++ smallPlan ++ utf8 "garbage") with
  | error e =>
    rw [hparse] at hplan
    cases hplan
  | ok plan =>
    obtain ⟨members, rest, hleading, hrest⟩ := h.plan plan hparse
    have hgarbage : (leadingValue noNumbers (byteOrderMark ++ smallPlan ++ utf8 "garbage")).map Prod.snd =
        some (utf8 "garbage") := by
      decide +kernel
    rw [hleading] at hgarbage
    cases hgarbage
    exact absurd hrest (by decide)

/-- The same plan with a line feed after it. -/
theorem hidesNothing_smallPlan : HidesNothing noNumbers (fun _ _ => .ok []) (smallPlan ++ [0x0A]) := by
  refine (hidesNothing_iff noNumbers_readsPlain _ _).mpr fun members rest hleading => Or.inl ?_
  have hrest : (leadingValue noNumbers (smallPlan ++ [0x0A])).map Prod.snd = some [0x0A] := by
    decide +kernel
  rw [hleading] at hrest
  cases hrest
  decide

end Readers

end Kompli.Cli
