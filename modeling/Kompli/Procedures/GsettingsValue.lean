import Kompli.ComplianceEngine.Indicators
import Kompli.ComplianceEngine.StringTools
import Kompli.ComplianceEngine.TypedComparison
import Kompli.Foundation.Substring

/-! The audit of a key of gsettings, and the two numbers that it compares. -/
namespace Kompli.GsettingsValue
open Parson Ascii Foundation StringTools
open Streams (newline)

inductive GsettingsKeyType where
  | number
  | string
  deriving DecidableEq, Repr

inductive GsettingsOperationType where
  | equal
  | notEqual
  | lessThan
  | greaterThan
  | isUnlocked
  deriving DecidableEq, Repr

structure Params where
  schema : Bytes
  key : Bytes
  keyType : GsettingsKeyType := .number
  operation : GsettingsOperationType := .equal
  value : Bytes

/-- `std::to_string`. -/
def GsettingsKeyType.name : GsettingsKeyType → Bytes
  | .number => utf8 "number"
  | .string => utf8 "string"

/-- `std::to_string`. -/
def GsettingsOperationType.name : GsettingsOperationType → Bytes
  | .equal => utf8 "eq"
  | .notEqual => utf8 "ne"
  | .lessThan => utf8 "lt"
  | .greaterThan => utf8 "gt"
  | .isUnlocked => utf8 "is-unlocked"

def mapComparison : GsettingsOperationType → TypedComparisonOperation
  | .lessThan => .lessThan
  | .greaterThan => .greaterThan
  | .equal | .isUnlocked => .equal
  | .notEqual => .notEqual

section Numbers

/-- `strtol` of a C string: the number, which stays at the ends of the range of a `long`, and the text that is left. -/
def strtol (str : Bytes) : Int64 × Bytes :=
  let text := str.dropWhile isSpace
  let digits := if text.head? = some 0x2D ∨ text.head? = some 0x2B then text.tail else text
  let number := digits.takeWhile isDigit
  let value : Int := if text.head? = some 0x2D then -Decimal.value number else Decimal.value number
  if number = [] then (0, str)
  else (Int64.ofInt (max (-2 ^ 63) (min (2 ^ 63 - 1) value)), digits.dropWhile isDigit)

/-- The number of a text that `strtol` leaves nothing of. -/
def readNumber (text : Bytes) : Option Int64 :=
  let (number, rest) := strtol (cString text)
  if rest = [] then some number else none

/-- The text of a number of 64 bits. -/
def IsNumber (text : Bytes) (number : Int64) : Prop :=
  ∃ blanks sign digits, IntText text blanks sign digits ∧ number.toInt = signed sign digits

theorem strtol_of_intText {str blanks sign digits : Bytes} (h : IntText str blanks sign digits)
    (hlow : -2 ^ 63 ≤ signed sign digits) (hhigh : signed sign digits < 2 ^ 63) :
    strtol str = (Int64.ofInt (signed sign digits), []) := by
  have htext : str.dropWhile isSpace = sign ++ digits := by
    rw [h.text, dropWhile_span h.all_space h.endsSpan]
  have hnumber : digits.takeWhile isDigit = digits := List.takeWhile_eq_self_iff.mpr h.all_digit
  have hrest : digits.dropWhile isDigit = [] := List.dropWhile_eq_nil_iff.mpr h.all_digit
  have hclamp : max (-2 ^ 63) (min (2 ^ 63 - 1) (signed sign digits)) = signed sign digits := by omega
  have hfirst : ∀ c, isDigit c = false → digits.head? ≠ some c := by
    intro c hc hhead
    have hdigit := h.all_digit c (List.mem_of_head? hhead)
    exact ne_of_isDigit hdigit hc rfl
  have hminus : digits.head? ≠ some 0x2D := hfirst _ (by decide)
  have hplus : digits.head? ≠ some 0x2B := hfirst _ (by decide)
  rw [strtol, htext]
  rcases h.one_sign with rfl | rfl | rfl
  · have hsigned : signed [] digits = Decimal.value digits := if_neg (by simp)
    rw [hsigned] at hclamp ⊢
    simp only [List.nil_append, hminus, hplus, or_self, if_false, hnumber, hrest, if_neg h.ne_nil, hclamp]
  · have hsigned : signed [minusSign] digits = -Decimal.value digits := if_pos rfl
    rw [hsigned] at hclamp ⊢
    simp only [minusSign, List.cons_append, List.nil_append, List.head?_cons, true_or, if_true, List.tail_cons, hnumber,
      hrest, if_neg h.ne_nil, hclamp]
  · have hsigned : signed [plusSign] digits = Decimal.value digits := if_neg (by decide)
    have hhead : ([plusSign] ++ digits).head? = some 0x2B := rfl
    have hsign : ¬ some (0x2B : UInt8) = some 0x2D := by decide
    have htail : ([plusSign] ++ digits).tail = digits := rfl
    rw [hsigned] at hclamp ⊢
    simp only [hhead, hsign, or_true, if_true, if_false, htail, hnumber, hrest, if_neg h.ne_nil, hclamp]

theorem IsNumber.readNumber {text : Bytes} {number : Int64} (h : IsNumber text number) :
    readNumber text = some number := by
  obtain ⟨blanks, sign, digits, htext, hnumber⟩ := h
  rw [GsettingsValue.readNumber, cString_of_nulFree htext.nulFree,
    strtol_of_intText htext (hnumber ▸ number.le_toInt) (hnumber ▸ number.toInt_lt), ← hnumber, Int64.ofInt_toInt]
  exact if_pos rfl

end Numbers

section Audit

variable (executeCommand : Bytes → Except Error Bytes) (params : Params)

def quoted : Bytes := utf8 "\"" ++ escapeForShell params.schema ++ utf8 "\" \"" ++ escapeForShell params.key ++ utf8 "\""

def rangeCommand : Bytes := utf8 "gsettings range " ++ quoted params
def getCommand : Bytes := utf8 "gsettings get " ++ quoted params
def writableCommand : Bytes := utf8 "gsettings writable " ++ quoted params

def withoutNewline (text : Bytes) : Bytes := if text.getLast? = some newline then text.dropLast else text

def supportedKeyTypes : List Bytes := [utf8 "type u", utf8 "type i", utf8 "type s"]

/-- The type of the key. -/
def gsettingKeyType : Except Error Bytes :=
  match executeCommand (rangeCommand params) with
  | .error e =>
    .error { message := utf8 "Failed to execute gsettings range command " ++ params.key ++ utf8 " error: " ++ e.message
             code := e.code }
  | .ok output =>
    if output = [] then
      .error { message := utf8 "gsettings range returned no type for " ++ params.schema ++ utf8 " " ++ params.key
               code := EINVAL }
    else if withoutNewline output ∈ supportedKeyTypes then .ok (withoutNewline output)
    else
      .error { message := utf8 "Unsuported  gsettings key type for schema " ++ params.schema ++ utf8 " params.key  " ++
                 params.key ++ utf8 " keyType: " ++ withoutNewline output
               code := EINVAL }

/-- What the key has, without the name of its type. -/
def gsettingsValue (keyType : Bytes) : Except Error Bytes :=
  match executeCommand (if params.operation = .isUnlocked then writableCommand params else getCommand params) with
  | .error e =>
    .error { message := utf8 "Failed to execute gsettings get command " ++ params.schema ++ utf8 " " ++ params.key ++
               utf8 " error: " ++ e.message
             code := e.code }
  | .ok output =>
    if output = [] then
      .error { message := utf8 "gsettings get returned no value for " ++ params.schema ++ utf8 " " ++ params.key
               code := EINVAL }
    else if keyType = utf8 "type u" then
      match cutAt (utf8 "uint32") (withoutNewline output) with
      | some (before, after) => .ok (before ++ after.drop 1)
      | none =>
        .error { message := utf8 "Failed to parse gsettings get command " ++ params.schema ++ utf8 " " ++ params.key ++
                   utf8 " output: " ++ withoutNewline output ++ utf8 " expected uint32 prefix"
                 code := EINVAL }
    else .ok (withoutNewline output)

def verdictMessage : Bytes :=
  utf8 "Gsettings key " ++ params.schema ++ utf8 " " ++ params.key ++ utf8 " " ++ params.operation.name ++
    utf8 " value " ++ params.value

def report (isCompliant : Bool) : Indicator :=
  { message := verdictMessage params, status := if isCompliant then .compliant else .nonCompliant }

/-- The comparison of two texts. There is none of a value without quotes to take away, where `std::string::substr`
throws. -/
def compareText (value : Bytes) : Option Bool :=
  if params.keyType = .string ∧ params.operation ≠ .isUnlocked then
    match value.head?, value.getLast? with
    | some quote, some endQuote =>
      if quote ≠ 0x22 ∧ quote ≠ 0x27 ∧ quote ≠ endQuote then some false
      else some (compareTyped ((value.drop 1).take (value.length - 2)) params.value (mapComparison params.operation))
    | _, _ => none
  else some (compareTyped value params.value (mapComparison params.operation))

def notANumber (what : Bytes) : Error :=
  { message := utf8 "Invalid " ++ what ++ utf8 " value: not a number " ++ params.value, code := EINVAL }

/-- `numberValue` is the number to compare with, and 0 where there is none. -/
def compareValue (numberValue : Int64) (keyType value : Bytes) : Option (Except Error Indicator) :=
  match if keyType = utf8 "type u" ∨ keyType = utf8 "type i" then readNumber value else some 0 with
  | none => some (.error (notANumber params (utf8 "operation")))
  | some gsettingsNumberValue =>
    if params.keyType = .number then
      some (.ok (report params
        (compareTyped gsettingsNumberValue.toInt32 numberValue.toInt32 (mapComparison params.operation))))
    else (compareText params value).map fun isCompliant => .ok (report params isCompliant)

/-- Without a result where an exception ends the audit. -/
def auditGsettingsValue : Option (Except Error Indicator) :=
  if params.keyType ≠ .number ∧ (params.operation = .lessThan ∨ params.operation = .greaterThan) then
    some (.error { message := utf8 "Unsupported operation " ++ params.operation.name, code := EINVAL })
  else if params.operation = .isUnlocked ∧ params.keyType ≠ .string then
    some (.error { message := utf8 "Not supported keyType " ++ params.keyType.name ++ utf8 " for is-unlocked operation"
                   code := EINVAL })
  else
    match if params.keyType = .number then readNumber params.value else some 0 with
    | none => some (.error (notANumber params (utf8 "argument")))
    | some numberValue =>
      match gsettingKeyType executeCommand params with
      | .error e => some (.error e)
      | .ok keyType =>
        match gsettingsValue executeCommand params keyType with
        | .error e => some (.error e)
        | .ok value => compareValue params numberValue keyType value

end Audit

section Verdicts

/-- What a command prints is a line, and the end of it may be missing. -/
def Line (output text : Bytes) : Prop := newline ∉ text ∧ text ≠ [] ∧ (output = text ∨ output = text ++ [newline])

/-- `gsettings` reports a number for the key: of an unsigned key, one of 32 bits after the name of its type. -/
structure Reports (executeCommand : Bytes → Except Error Bytes) (params : Params) (number : Int64) : Prop where
  reported : ∃ range output type text digits, executeCommand (rangeCommand params) = .ok range ∧ Line range type ∧
    executeCommand (getCommand params) = .ok output ∧ Line output text ∧ IsNumber digits number ∧
    (type = utf8 "type i" ∧ text = digits ∨
      type = utf8 "type u" ∧ text = utf8 "uint32 " ++ digits ∧ 0 ≤ number.toInt ∧ number.toInt < 2 ^ 32)

variable {executeCommand : Bytes → Except Error Bytes} {params : Params} {target number : Int64}

theorem Line.ne_nil {output text : Bytes} (h : Line output text) : output ≠ [] := by
  obtain ⟨-, hne, rfl | rfl⟩ := h
  · exact hne
  · simp

theorem Line.withoutNewline {output text : Bytes} (h : Line output text) : withoutNewline output = text := by
  obtain ⟨hnewline, -, rfl | rfl⟩ := h
  · rw [GsettingsValue.withoutNewline, if_neg fun hlast => hnewline (List.mem_of_getLast? hlast)]
  · rw [GsettingsValue.withoutNewline, if_pos List.getLast?_concat, List.dropLast_concat]

/-- Both numbers are made an `int` before they are compared. -/
theorem auditGsettingsValue_number (hkey : params.keyType = .number) (hoperation : params.operation ≠ .isUnlocked)
    (htarget : IsNumber params.value target) (h : Reports executeCommand params number) :
    auditGsettingsValue executeCommand params =
      some (.ok (report params (compareTyped number.toInt32 target.toInt32 (mapComparison params.operation)))) := by
  obtain ⟨range, output, type, text, digits, hrange, htype, hget, htext, hdigits, hkind⟩ := h.reported
  have hsupported : type ∈ supportedKeyTypes := by
    rcases hkind with ⟨rfl, -⟩ | ⟨rfl, -⟩
    · exact List.mem_cons_of_mem _ List.mem_cons_self
    · exact List.mem_cons_self
  have hgettingType : gsettingKeyType executeCommand params = .ok type := by
    simp only [gsettingKeyType, hrange, if_neg htype.ne_nil, htype.withoutNewline, if_pos hsupported]
  have hvalue : gsettingsValue executeCommand params type = .ok digits := by
    simp only [gsettingsValue, if_neg hoperation, hget, if_neg htext.ne_nil, htext.withoutNewline]
    rcases hkind with ⟨rfl, rfl⟩ | ⟨rfl, rfl, -⟩
    · exact if_neg (by decide)
    · have hcut : cutAt (utf8 "uint32") (utf8 "uint32 " ++ digits) = some ([], 0x20 :: digits) := rfl
      rw [if_pos rfl, hcut]
      rfl
  have hnumber : type = utf8 "type u" ∨ type = utf8 "type i" := hkind.symm.imp And.left And.left
  simp only [auditGsettingsValue, hkey, ne_eq, not_true, false_and, if_false, hoperation, if_true, htarget.readNumber,
    hgettingType, hvalue, compareValue, if_pos hnumber, hdigits.readNumber]

end Verdicts

end Kompli.GsettingsValue
