import Kompli.Procedures.LoginDefsLayout
import Mathlib.Data.List.Forall2

/-! The audit of an option in `login.defs`, and that a rewritten text passes it. -/
namespace Kompli.LoginDefsOption
open Parson Ascii Foundation Streams StringTools LoginDefs

section Audit

inductive TypedComparisonOperation where
  | equal
  | notEqual
  | lessThan
  | lessOrEqual
  | greaterThan
  | greaterOrEqual
  deriving DecidableEq, Repr

def mapComparison : ComparisonOperation → Except Error TypedComparisonOperation
  | .equal => .ok .equal
  | .notEqual => .ok .notEqual
  | .lessThan => .ok .lessThan
  | .lessOrEqual => .ok .lessOrEqual
  | .greaterThan => .ok .greaterThan
  | .greaterOrEqual => .ok .greaterOrEqual
  | .patternMatch => .error { message := utf8 "Unsupported comparison operation 6", code := EINVAL }

def ComparisonOperation.name : ComparisonOperation → Bytes
  | .equal => utf8 "eq"
  | .notEqual => utf8 "ne"
  | .lessThan => utf8 "lt"
  | .lessOrEqual => utf8 "le"
  | .greaterThan => utf8 "gt"
  | .greaterOrEqual => utf8 "ge"
  | .patternMatch => utf8 "match"

def compareTyped (lhs rhs : Int) : TypedComparisonOperation → Bool
  | .equal => lhs = rhs
  | .notEqual => lhs ≠ rhs
  | .lessThan => lhs < rhs
  | .lessOrEqual => lhs ≤ rhs
  | .greaterThan => rhs < lhs
  | .greaterOrEqual => rhs ≤ lhs

def numericComparison (lhs rhs : Int) (operation : ComparisonOperation) : Except Error Bool :=
  match mapComparison operation with
  | .error e =>
    .error { message := utf8 "Unsupported comparison operation for numeric value: " ++ e.message, code := e.code }
  | .ok mapped => .ok (compareTyped lhs rhs mapped)

def encryptionComparison (lhs rhs : EncryptionMethod) (operation : ComparisonOperation) : Except Error Bool :=
  if operation ≠ .equal ∧ operation ≠ .notEqual then
    .error { message := utf8 "Unsupported comparison operation for string value (only eq and ne are supported)"
             code := EINVAL }
  else .ok (if operation = .equal then lhs = rhs else lhs ≠ rhs)

def isPasswordAgingOption (option : Bytes) : Bool :=
  option = utf8 "PASS_MAX_DAYS" || option = utf8 "PASS_MIN_DAYS" || option = utf8 "PASS_WARN_AGE"

def numericOption (document : Document) (option : Bytes) : Option Int :=
  if option = utf8 "PASS_MAX_DAYS" then document.passMaxDays
  else if option = utf8 "PASS_MIN_DAYS" then document.passMinDays
  else if option = utf8 "PASS_WARN_AGE" then document.passWarnAge
  else none

def notSet (filePath option : Bytes) : Indicator where
  message := utf8 "Option '" ++ option ++ utf8 "' is not set in " ++ filePath
  status := .nonCompliant

/-- The verdict on a value that was compared. -/
def compared (params : Params) (actual : Bytes) : Except Error Bool → Except Error Indicator
  | .error e => .error e
  | .ok true =>
    .ok { message := params.option ++ utf8 " = " ++ actual ++ utf8 " (" ++ params.comparison.name ++ utf8 " " ++
            params.value ++ utf8 ")"
          status := .compliant }
  | .ok false =>
    .ok { message := params.option ++ utf8 " = " ++ actual ++ utf8 " (expected " ++ params.comparison.name ++ utf8 " " ++
            params.value ++ utf8 ")"
          status := .nonCompliant }

def invalidTarget (option : Bytes) (e : Error) : Error :=
  { message := utf8 "Invalid " ++ option ++ utf8 " comparison target: " ++ e.message, code := e.code }

def auditPasswordAging (filePath fileContents : Bytes) (params : Params) : Except Error Indicator := do
  let target ← (tryStringToInt params.value).mapError (invalidTarget params.option)
  let parsed ← parse fileContents filePath
  match numericOption parsed params.option with
  | none => pure (notSet filePath params.option)
  | some actual => compared params (printSigned actual) (numericComparison actual target params.comparison)

def auditEncryptMethod (filePath fileContents : Bytes) (params : Params) : Except Error Indicator := do
  let target ← (parseEncryptionMethod params.value).mapError (invalidTarget (utf8 "ENCRYPT_METHOD"))
  let parsed ← parse fileContents filePath
  match parsed.encryptMethod with
  | none => pure (notSet filePath params.option)
  | some method =>
    compared params (encryptionMethodName method) (encryptionComparison method target params.comparison)

/-- The indicator has the status. -/
def auditLoginDefsOption (filePath : Bytes) (fileContents : Except Error Bytes) (params : Params) :
    Except Error Indicator := do
  if isPasswordAgingOption params.option = false ∧ params.option ≠ utf8 "ENCRYPT_METHOD" then
    throw { message := utf8 "Unsupported login.defs option: " ++ params.option, code := EINVAL }
  let contents ← fileContents
  if isPasswordAgingOption params.option then auditPasswordAging filePath contents params
  else auditEncryptMethod filePath contents params

end Audit

section Values

/-- A text that is an integer can stand in a line. -/
theorem exists_writes_int {v : Bytes} {w : Int} (hv : tryStringToInt v = .ok w) (hnewline : newline ∉ v) :
    ∃ lead core, Writes tryStringToInt w v lead core := by
  obtain ⟨blanks, sign, digits, htext, hw, hlow, hhigh⟩ := tryStringToInt_ok_iff.mp hv
  refine ⟨blanks, sign ++ digits, ?_⟩
  exact
    { eq := htext.text
      lead_separators := fun c hc => by
        refine isSeparator_iff.mpr ⟨htext.all_space c hc, ?_⟩
        rintro rfl
        exact hnewline (by rw [htext.text]; exact List.mem_append_left _ hc)
      core_plain := htext.withoutBlanks.not_mem (by decide) (by decide) (by decide) (by decide)
      core_starts := htext.endsSpan
      core_ends := by
        rw [List.reverse_append]
        refine endsSpan_append (fun c hc => ?_) (by simpa using htext.ne_nil)
        exact isSpace_of_isDigit (htext.all_digit c (List.mem_reverse.mp (List.mem_of_mem_head? hc)))
      core_ne_nil := List.append_ne_nil_of_right_ne_nil sign htext.ne_nil
      parse := tryStringToInt_ok_iff.mpr ⟨[], sign, digits, htext.withoutBlanks, hw, hlow, hhigh⟩
      nulFree := htext.nulFree
      newline := hnewline }

private theorem plain_of_toLower {v name : Bytes} (h : toLower v = name) (hne : name ≠ [])
    (hname : ∀ c ∈ name, isSpace c = false ∧ c ≠ hash ∧ c ≠ 0) : v ≠ [] ∧ ∀ c ∈ v, isSpace c = false ∧ c ≠ hash ∧ c ≠ 0 := by
  constructor
  · rintro rfl
    exact hne h.symm
  · intro c hc
    by_cases hupper : 0x41 ≤ c ∧ c ≤ 0x5A
    · simp only [UInt8.le_iff_toNat_le, UInt8.reduceToNat] at hupper
      refine ⟨Bool.eq_false_iff.mpr fun hspace => ?_, ?_, ?_⟩
      · rw [isSpace_iff] at hspace
        omega
      all_goals
        rintro rfl
        exact absurd hupper (by decide)
    · apply hname
      rw [← h, toLower, List.mem_map]
      exact ⟨c, hc, if_neg hupper⟩

theorem encryptionMethod_plain {v : Bytes} {w : EncryptionMethod} (h : parseEncryptionMethod v = .ok w) :
    v ≠ [] ∧ ∀ c ∈ v, isSpace c = false ∧ c ≠ hash ∧ c ≠ 0 := by
  simp only [parseEncryptionMethod] at h
  split_ifs at h with hdes hmd5 hsha256 hsha512 hyescrypt hbcrypt
  · exact plain_of_toLower hdes (by decide +kernel) (by decide +kernel)
  · exact plain_of_toLower hmd5 (by decide +kernel) (by decide +kernel)
  · exact plain_of_toLower hsha256 (by decide +kernel) (by decide +kernel)
  · exact plain_of_toLower hsha512 (by decide +kernel) (by decide +kernel)
  · exact plain_of_toLower hyescrypt (by decide +kernel) (by decide +kernel)
  · exact plain_of_toLower hbcrypt (by decide +kernel) (by decide +kernel)

theorem writes_method {v : Bytes} {w : EncryptionMethod} (hv : parseEncryptionMethod v = .ok w) :
    Writes parseEncryptionMethod w v [] v := by
  obtain ⟨hne, hplain⟩ := encryptionMethod_plain hv
  exact
    { eq := rfl
      lead_separators := by simp
      core_plain := fun hc => (hplain hash hc).2.1 rfl
      core_starts := fun c hc => (hplain c (List.mem_of_mem_head? hc)).1
      core_ends := fun c hc => (hplain c (List.mem_reverse.mp (List.mem_of_mem_head? hc))).1
      core_ne_nil := hne
      parse := hv
      nulFree := fun hc => (hplain 0 hc).2.2 rfl
      newline := fun hc => absurd (hplain newline hc).1 (by decide) }

/-- What is given for a target is an integer that compares with it as it should. -/
theorem getRemediationValue_int {params : Params} {v : Bytes} {target : Int} (htarget : tryStringToInt params.value = .ok target)
    (hv : getRemediationValue params = .ok v) :
    ∃ w, tryStringToInt v = .ok w ∧ newline ∉ v ∧ numericComparison w target params.comparison = .ok true := by
  obtain ⟨-, -, -, -, -, hlow, hhigh⟩ := tryStringToInt_ok_iff.mp htarget
  rw [getRemediationValue] at hv
  split_ifs at hv with hoption hblank
  have hnewline : newline ∉ params.value := fun hmem => hblank (.inr ⟨newline, hmem, by decide +kernel⟩)
  cases hcomparison : params.comparison <;> rw [hcomparison] at hv <;> simp only [htarget] at hv
  case equal =>
    cases hv
    exact ⟨target, htarget, hnewline, by simp [numericComparison, mapComparison, compareTyped]⟩
  case lessOrEqual =>
    cases hv
    exact ⟨target, htarget, hnewline, by simp [numericComparison, mapComparison, compareTyped]⟩
  case greaterOrEqual =>
    cases hv
    exact ⟨target, htarget, hnewline, by simp [numericComparison, mapComparison, compareTyped]⟩
  case notEqual => cases hv
  case patternMatch => cases hv
  case lessThan =>
    split_ifs at hv with hmin
    cases hv
    refine ⟨target - 1, tryStringToInt_printSigned (by omega) (by omega), newline_not_mem_printSigned _, ?_⟩
    simp only [numericComparison, mapComparison, compareTyped, Except.ok.injEq, decide_eq_true_eq]
    omega
  case greaterThan =>
    split_ifs at hv with hmax
    cases hv
    refine ⟨target + 1, tryStringToInt_printSigned (by omega) (by omega), newline_not_mem_printSigned _, ?_⟩
    simp only [numericComparison, mapComparison, compareTyped, Except.ok.injEq, decide_eq_true_eq]
    omega

theorem getRemediationValue_equal {params : Params} {v : Bytes} (hequal : params.comparison = .equal)
    (hv : getRemediationValue params = .ok v) : v = params.value := by
  rw [getRemediationValue, hequal] at hv
  split_ifs at hv
  cases hv
  rfl

end Values

section Agreement

/-- A line that does not assign the option is as it was, and so is every comment. -/
structure SameBut (option line line' : Bytes) : Prop where
  other : ¬ (IsRecord line ∧ key line = option) → line' = line
  comment : fromComment line' = fromComment line

/-- The new text passes the audit, and differs from the old one only in the option. -/
structure Fulfils (params : Params) (filePath contents updated value : Bytes) (document : Document) : Prop where
  only : ∃ (k : Key) (w : k.Value), k.name = params.option ∧ parse updated filePath = .ok (document.set k w)
  audit : ∃ found, auditLoginDefsOption filePath (.ok updated) params = .ok found ∧ found.status = .compliant
  lines : ∃ changed added, lines updated = changed ++ added ∧
    List.Forall₂ (SameBut params.option) (Streams.lines contents) changed ∧
      (added = [] ∨ added = [params.option ++ utf8 "\t" ++ value])

variable {params : Params} {filePath contents value lead core : Bytes} {document : Document}

private theorem fulfils_of_writes {k : Key} {w : k.Value} (hk : k.name = params.option) (hwrites : Writes k.parse w value lead core)
    (hparse : parse contents filePath = .ok document)
    (hlimits : WithinLimits (replaceEffectiveLoginDefsValue contents params.option value))
    (haudit : ∀ updated, parse updated filePath = .ok (document.set k w) →
      ∃ found, auditLoginDefsOption filePath (.ok updated) params = .ok found ∧ found.status = .compliant) :
    Fulfils params filePath contents (replaceEffectiveLoginDefsValue contents params.option value) value document := by
  rw [← hk] at hlimits ⊢
  have hupdated := parse_replaceEffectiveLoginDefsValue hwrites hparse hlimits
  obtain ⟨-, -, hdescribes⟩ := parse_ok_iff.mp hparse
  refine ⟨⟨k, w, hk, hupdated⟩, haudit _ hupdated, _, _, lines_replaceEffectiveLoginDefsValue hwrites hdescribes.accepted, ?_, ?_⟩
  · rw [List.forall₂_map_right_iff, List.forall₂_same, ← hk]
    intro line hmem
    have hrewrites := rewriteLine_rewrites hwrites (hdescribes.accepted line hmem) (not_mem_of_mem_splitOn (mem_lines hmem))
    exact ⟨hrewrites.other, hrewrites.comment⟩
  · rw [← hk]
    split_ifs
    · exact .inl rfl
    · exact .inr rfl

private theorem auditLoginDefsOption_numeric (hoption : isPasswordAgingOption params.option = true) (text : Bytes) :
    auditLoginDefsOption filePath (.ok text) params = auditPasswordAging filePath text params := by
  simp [auditLoginDefsOption, hoption]

private theorem auditLoginDefsOption_method (hmethod : params.option = utf8 "ENCRYPT_METHOD") (text : Bytes) :
    auditLoginDefsOption filePath (.ok text) params = auditEncryptMethod filePath text params := by
  have hoption : isPasswordAgingOption (utf8 "ENCRYPT_METHOD") = false := by decide +kernel
  simp [auditLoginDefsOption, hoption, hmethod]

/-- A value that is given for a target makes the audit pass, and nothing else is changed. -/
theorem replaceEffectiveLoginDefsValue_fulfils {found : Indicator}
    (hcomparison : isPasswordAgingOption params.option = true ∨ params.comparison = .equal)
    (hparse : parse contents filePath = .ok document) (haudit : auditLoginDefsOption filePath (.ok contents) params = .ok found)
    (hvalue : getRemediationValue params = .ok value)
    (hlimits : WithinLimits (replaceEffectiveLoginDefsValue contents params.option value)) :
    Fulfils params filePath contents (replaceEffectiveLoginDefsValue contents params.option value) value document := by
  by_cases hoption : isPasswordAgingOption params.option = true
  · rw [auditLoginDefsOption_numeric hoption, auditPasswordAging] at haudit
    obtain ⟨target, htarget, -⟩ := except_bind_ok_iff.mp haudit
    rw [except_mapError_ok_iff] at htarget
    obtain ⟨w, hw, hnewline, hholds⟩ := getRemediationValue_int htarget hvalue
    obtain ⟨lead, core, hwrites⟩ := exists_writes_int hw hnewline
    have hpasses {after : Document} (hget : numericOption after params.option = some w) (updated : Bytes)
        (hupdated : parse updated filePath = .ok after) :
        ∃ found, auditLoginDefsOption filePath (.ok updated) params = .ok found ∧ found.status = .compliant := by
      rw [auditLoginDefsOption_numeric hoption, auditPasswordAging, htarget, hupdated]
      simp only [Except.mapError, except_ok_bind, hget, hholds, compared]
      exact ⟨_, rfl, rfl⟩
    simp only [isPasswordAgingOption, Bool.or_eq_true, decide_eq_true_eq] at hoption
    rcases hoption with (hmax | hmin) | hwarn
    · refine @fulfils_of_writes params filePath contents value lead core document .passMaxDays w hmax.symm hwrites hparse hlimits
        (hpasses ?_)
      rw [numericOption, if_pos hmax]
      rfl
    · refine @fulfils_of_writes params filePath contents value lead core document .passMinDays w hmin.symm hwrites hparse hlimits
        (hpasses ?_)
      rw [hmin]
      rfl
    · refine @fulfils_of_writes params filePath contents value lead core document .passWarnAge w hwarn.symm hwrites hparse hlimits
        (hpasses ?_)
      rw [hwarn]
      rfl
  · have hequal := hcomparison.resolve_left hoption
    have hmethod : params.option = utf8 "ENCRYPT_METHOD" := by
      by_contra hother
      rw [auditLoginDefsOption, if_pos ⟨by simpa using hoption, hother⟩] at haudit
      cases haudit
    rw [auditLoginDefsOption_method hmethod, auditEncryptMethod] at haudit
    obtain ⟨target, htarget, -⟩ := except_bind_ok_iff.mp haudit
    rw [except_mapError_ok_iff] at htarget
    obtain rfl := getRemediationValue_equal hequal hvalue
    refine @fulfils_of_writes params filePath contents params.value [] params.value document .encryptMethod target hmethod.symm
      (writes_method htarget) hparse hlimits fun updated hupdated => ?_
    rw [auditLoginDefsOption_method hmethod, auditEncryptMethod, htarget, hupdated]
    simp only [Except.mapError, except_ok_bind, Document.set, encryptionComparison, hequal]
    exact ⟨_, rfl, rfl⟩

theorem replaceEffectiveLoginDefsValue_fulfils_lessOrEqual :
    Fulfils { option := utf8 "PASS_MAX_DAYS", value := utf8 "365", comparison := .lessOrEqual } (utf8 "login.defs")
      (utf8 "# ages\n\tPASS_MAX_DAYS  99999 # days\nUID_MIN 1000")
      (replaceEffectiveLoginDefsValue (utf8 "# ages\n\tPASS_MAX_DAYS  99999 # days\nUID_MIN 1000") (utf8 "PASS_MAX_DAYS")
        (utf8 "365")) (utf8 "365")
      { source := utf8 "login.defs", uidMin := some 1000, passMaxDays := some 99999 } :=
  replaceEffectiveLoginDefsValue_fulfils (.inl (by decide +kernel)) (by rfl) (by rfl) (by rfl)
    ⟨by decide +kernel, by decide +kernel, by decide +kernel⟩

/-- Where the option is not there the audit does not look at the comparison, and the value given is then refused. -/
theorem le_of_method_not_set :
    ∃ before after, parse [] (utf8 "login.defs") = .ok { source := utf8 "login.defs" } ∧
      auditLoginDefsOption (utf8 "login.defs") (.ok []) ⟨utf8 "ENCRYPT_METHOD", utf8 "SHA512", .lessOrEqual⟩ = .ok before ∧
      before.status = .nonCompliant ∧
      getRemediationValue ⟨utf8 "ENCRYPT_METHOD", utf8 "SHA512", .lessOrEqual⟩ = .ok (utf8 "SHA512") ∧
      auditLoginDefsOption (utf8 "login.defs")
        (.ok (replaceEffectiveLoginDefsValue [] (utf8 "ENCRYPT_METHOD") (utf8 "SHA512")))
        ⟨utf8 "ENCRYPT_METHOD", utf8 "SHA512", .lessOrEqual⟩ = .error after :=
  ⟨_, _, rfl, rfl, rfl, rfl, rfl⟩

end Agreement

end Kompli.LoginDefsOption
