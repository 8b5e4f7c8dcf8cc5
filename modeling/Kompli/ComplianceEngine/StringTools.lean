import Kompli.ComplianceEngine.MmiResults
import Kompli.Foundation.Decimal
import Kompli.Foundation.Split
import Kompli.Foundation.Streams
import Kompli.Parson.Parse

/-! Texts trimmed, without their comments, and read as numbers. -/
namespace Kompli.StringTools
open Parson Foundation Streams

def ERANGE : Int := 34

def hash : UInt8 := 0x23

/-- The result is put between double quotes. -/
def escapeForShell (str : Bytes) : Bytes :=
  str.flatMap fun c => if c ∈ utf8 "\\\"`$" then [0x5C, c] else [c]

def trimWhiteSpaces (str : Bytes) : Bytes := ((str.dropWhile isSpace).reverse.dropWhile isSpace).reverse

def stripComment (str : Bytes) : Bytes := str.takeWhile (· ≠ hash)

/-- `std::tolower` in the C locale. -/
def toLower (value : Bytes) : Bytes := value.map fun c => if 0x41 ≤ c ∧ c ≤ 0x5A then c + 0x20 else c

def invalidInteger (str : Bytes) : Error := { message := utf8 "Invalid integer value: " ++ str, code := EINVAL }

def integerOutOfRange (str : Bytes) : Error :=
  { message := utf8 "Integer value out of range: " ++ str, code := ERANGE }

/-- `std::stoi`, which has to use all of the text. -/
def tryStringToInt (str : Bytes) : Except Error Int :=
  let text := (cString str).dropWhile isSpace
  let digits := if text.head? = some 0x2D ∨ text.head? = some 0x2B then text.tail else text
  let number := digits.takeWhile isDigit
  let value : Int := if text.head? = some 0x2D then -Decimal.value number else Decimal.value number
  if number = [] then .error (invalidInteger str)
  else if value < -2 ^ 31 ∨ 2 ^ 31 ≤ value then .error (integerOutOfRange str)
  else if number ≠ digits ∨ cString str ≠ str then .error (invalidInteger str)
  else .ok value

/-- `std::stoull`, where there is no minus. -/
def tryStringToUint (str : Bytes) : Except Error Nat :=
  let text := (cString str).dropWhile isSpace
  let digits := if text.head? = some 0x2B then text.tail else text
  let number := digits.takeWhile isDigit
  let value := Decimal.value number
  if (str.dropWhile isSpace).head? = some 0x2D then
    match tryStringToInt str with
    | .error e => .error e
    | .ok signedValue =>
      .error { message := utf8 "Invalid integer value (should be positive): " ++ printSigned signedValue
               code := EINVAL }
  else if number = [] then .error (invalidInteger str)
  else if 2 ^ 64 ≤ value then .error (integerOutOfRange str)
  else if number ≠ digits ∨ cString str ≠ str then .error (invalidInteger str)
  else if 2 ^ 32 - 1 < value then .error (integerOutOfRange str)
  else .ok value

section Integers

def minusSign : UInt8 := 0x2D
def plusSign : UInt8 := 0x2B

/-- The text of an integer: blanks, a sign or none, and digits. -/
structure IntText (str blanks sign digits : Bytes) : Prop where
  text : str = blanks ++ (sign ++ digits)
  all_space : ∀ c ∈ blanks, isSpace c = true
  one_sign : sign = [] ∨ sign = [minusSign] ∨ sign = [plusSign]
  all_digit : ∀ c ∈ digits, isDigit c = true
  ne_nil : digits ≠ []

def signed (sign digits : Bytes) : Int := if sign = [minusSign] then -Decimal.value digits else Decimal.value digits

theorem isDigit_iff {c : UInt8} : isDigit c = true ↔ 0x30 ≤ c.toNat ∧ c.toNat ≤ 0x39 := by
  rw [isDigit, Bool.and_eq_true, decide_eq_true_eq, decide_eq_true_eq, UInt8.le_iff_toNat_le, UInt8.le_iff_toNat_le]
  rfl

theorem isSpace_iff {c : UInt8} : isSpace c = true ↔ c.toNat = 0x20 ∨ (0x09 ≤ c.toNat ∧ c.toNat ≤ 0x0D) := by
  rw [isSpace, Bool.or_eq_true, Bool.and_eq_true, decide_eq_true_eq, decide_eq_true_eq, decide_eq_true_eq,
    UInt8.le_iff_toNat_le, UInt8.le_iff_toNat_le, ← UInt8.toNat_inj]
  rfl

theorem isSpace_of_isDigit {c : UInt8} (h : isDigit c = true) : isSpace c = false := by
  rw [isDigit_iff] at h
  refine Bool.eq_false_iff.mpr fun hspace => ?_
  rw [isSpace_iff] at hspace
  omega

theorem ne_of_isDigit {c d : UInt8} (h : isDigit c = true) (hd : isDigit d = false) : c ≠ d := by
  rintro rfl
  rw [h] at hd
  cases hd

namespace IntText

variable {str blanks sign digits : Bytes}

theorem endsSpan (h : IntText str blanks sign digits) : EndsSpan isSpace (sign ++ digits) := by
  rcases h.one_sign with rfl | rfl | rfl
  · obtain ⟨c, rest, rfl⟩ := List.exists_cons_of_ne_nil h.ne_nil
    exact endsSpan_cons.mpr (isSpace_of_isDigit (h.all_digit c List.mem_cons_self))
  · exact endsSpan_cons.mpr (by decide)
  · exact endsSpan_cons.mpr (by decide)

/-- What a number consists of. -/
theorem mem (h : IntText str blanks sign digits) {c : UInt8} (hc : c ∈ str) :
    isSpace c = true ∨ c = minusSign ∨ c = plusSign ∨ isDigit c = true := by
  rw [h.text, List.mem_append, List.mem_append] at hc
  rcases hc with hblank | hsign | hdigit
  · exact .inl (h.all_space c hblank)
  · rcases h.one_sign with rfl | rfl | rfl
    · cases hsign
    · exact .inr (.inl (List.mem_singleton.mp hsign))
    · exact .inr (.inr (.inl (List.mem_singleton.mp hsign)))
  · exact .inr (.inr (.inr (h.all_digit c hdigit)))

theorem not_mem (h : IntText str blanks sign digits) {c : UInt8} (hspace : isSpace c = false) (hminus : c ≠ minusSign)
    (hplus : c ≠ plusSign) (hdigit : isDigit c = false) : c ∉ str := by
  intro hmem
  rcases h.mem hmem with hc | hc | hc | hc
  · exact absurd hc (by simp [hspace])
  · exact hminus hc
  · exact hplus hc
  · exact absurd hc (by simp [hdigit])

theorem withoutBlanks (h : IntText str blanks sign digits) : IntText (sign ++ digits) [] sign digits where
  text := rfl
  all_space := by simp
  one_sign := h.one_sign
  all_digit := h.all_digit
  ne_nil := h.ne_nil

theorem nulFree (h : IntText str blanks sign digits) : NulFree str :=
  h.not_mem (by decide) (by decide) (by decide) (by decide)

end IntText

/-- What is read after the sign. -/
private def readDigits (str sign digits : Bytes) : Except Error Int :=
  let number := digits.takeWhile isDigit
  if number = [] then .error (invalidInteger str)
  else if signed sign number < -2 ^ 31 ∨ 2 ^ 31 ≤ signed sign number then .error (integerOutOfRange str)
  else if number ≠ digits ∨ cString str ≠ str then .error (invalidInteger str)
  else .ok (signed sign number)

private def startsUnsigned (text : Bytes) : Prop := text.head? ≠ some minusSign ∧ text.head? ≠ some plusSign

private theorem tryStringToInt_eq {str sign digits : Bytes} (htext : (cString str).dropWhile isSpace = sign ++ digits)
    (hsign : sign = [] ∧ startsUnsigned digits ∨ sign = [minusSign] ∨ sign = [plusSign]) :
    tryStringToInt str = readDigits str sign digits := by
  simp only [tryStringToInt, htext, readDigits, signed]
  rcases hsign with ⟨rfl, hminus, hplus⟩ | rfl | rfl
  · have hnotMinus : ¬ digits.head? = some 0x2D := hminus
    have hnotPlus : ¬ digits.head? = some 0x2B := hplus
    simp [hnotMinus, hnotPlus]
  · simp [minusSign]
  · simp [plusSign, minusSign]

private theorem exists_sign (text : Bytes) :
    ∃ sign digits, text = sign ++ digits ∧ (sign = [] ∧ startsUnsigned digits ∨ sign = [minusSign] ∨ sign = [plusSign]) := by
  cases text with
  | nil => exact ⟨[], [], rfl, .inl ⟨rfl, by simp [startsUnsigned]⟩⟩
  | cons c text =>
    by_cases hminus : c = minusSign
    · exact ⟨[c], text, rfl, .inr (.inl (by rw [hminus]))⟩
    · by_cases hplus : c = plusSign
      · exact ⟨[c], text, rfl, .inr (.inr (by rw [hplus]))⟩
      · exact ⟨[], c :: text, rfl, .inl ⟨rfl, by simpa [startsUnsigned] using ⟨hminus, hplus⟩⟩⟩

/-- The texts that are integers, and which. -/
theorem tryStringToInt_ok_iff {str : Bytes} {v : Int} :
    tryStringToInt str = .ok v ↔
      ∃ blanks sign digits, IntText str blanks sign digits ∧ v = signed sign digits ∧ -2 ^ 31 ≤ v ∧ v < 2 ^ 31 := by
  constructor
  · intro h
    obtain ⟨sign, digits, htext, hsign⟩ := exists_sign ((cString str).dropWhile isSpace)
    rw [tryStringToInt_eq htext hsign, readDigits] at h
    split_ifs at h with hnone hrange hrest
    obtain ⟨hall, hstring⟩ := not_or.mp hrest
    rw [not_not] at hall hstring
    rw [hall] at h hnone hrange
    rw [hstring] at htext
    cases h
    refine ⟨str.takeWhile isSpace, sign, digits, ⟨?_, fun c hc => List.mem_takeWhile_imp hc, ?_, ?_, hnone⟩, rfl, ?_, ?_⟩
    · rw [← htext, List.takeWhile_append_dropWhile]
    · exact hsign.imp_left And.left
    · intro c hc
      rw [← hall] at hc
      exact List.mem_takeWhile_imp hc
    · omega
    · omega
  · rintro ⟨blanks, sign, digits, htext, rfl, hlow, hhigh⟩
    have hstring : cString str = str := cString_of_nulFree htext.nulFree
    have hdrop : (cString str).dropWhile isSpace = sign ++ digits := by
      rw [hstring, htext.text, dropWhile_span htext.all_space htext.endsSpan]
    have hdigits : digits.takeWhile isDigit = digits := by
      simpa using takeWhile_span htext.all_digit endsSpan_nil
    have hsign : sign = [] ∧ startsUnsigned digits ∨ sign = [minusSign] ∨ sign = [plusSign] := by
      refine htext.one_sign.imp_left fun hnil => ⟨hnil, ?_⟩
      obtain ⟨c, rest, rfl⟩ := List.exists_cons_of_ne_nil htext.ne_nil
      have hc := htext.all_digit c List.mem_cons_self
      exact ⟨by simpa using ne_of_isDigit hc (by decide), by simpa using ne_of_isDigit hc (by decide)⟩
    rw [tryStringToInt_eq hdrop hsign, readDigits, hdigits, if_neg htext.ne_nil, if_neg (by omega),
      if_neg (by simp [hstring])]

/-- What is printed of an `int` is read as it. -/
theorem tryStringToInt_printSigned {v : Int} (hlow : -2 ^ 31 ≤ v) (hhigh : v < 2 ^ 31) :
    tryStringToInt (printSigned v) = .ok v := by
  have hdigits (n : Nat) : ∀ c ∈ printUnsigned n, isDigit c = true := by
    intro c hc
    have hdigit := (Decimal.print_canonical n).digits c hc
    rw [isDigit, Bool.and_eq_true, decide_eq_true_eq, decide_eq_true_eq]
    exact hdigit
  have hne : printUnsigned v.natAbs ≠ [] := (Decimal.print_canonical _).ne_nil
  have hvalue : Decimal.value (printUnsigned v.natAbs) = v.natAbs := Decimal.value_print _
  rw [tryStringToInt_ok_iff, printSigned]
  split_ifs with hneg
  · refine ⟨[], [minusSign], printUnsigned v.natAbs, ⟨rfl, by simp, .inr (.inl rfl), hdigits _, hne⟩, ?_, hlow, hhigh⟩
    rw [signed, if_pos rfl, hvalue]
    omega
  · refine ⟨[], [], printUnsigned v.natAbs, ⟨rfl, by simp, .inl rfl, hdigits _, hne⟩, ?_, hlow, hhigh⟩
    rw [signed, if_neg (by simp), hvalue]
    omega

end Integers

end Kompli.StringTools
