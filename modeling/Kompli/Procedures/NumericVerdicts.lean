import Kompli.Procedures.GsettingsValue
import Kompli.Procedures.ShadowField

/-! Which integers the numeric audits compare: the two that they are given, as far as these fit into an `int`. -/
namespace Kompli.NumericVerdicts
open GsettingsValue ShadowField StringTools TypedComparisonOperation

/-- The audit has a verdict, and it is that the comparison holds or that it does not. -/
def Decides (audit : Option (Except Error Indicator)) (comparison : Prop) : Prop :=
  ∃ indicator, audit = some (.ok indicator) ∧ (indicator.status = .compliant ↔ comparison) ∧
    (indicator.status = .nonCompliant ↔ ¬ comparison)

theorem decides_report (params : Params) {verdict : Bool} {comparison : Prop} (h : verdict = true ↔ comparison) :
    Decides (some (.ok (report params verdict))) comparison := by
  refine ⟨report params verdict, rfl, ?_, ?_⟩
  · cases verdict <;> simp [report, ← h]
  · cases verdict <;> simp [report, ← h]

section Gsettings

variable {executeCommand : Bytes → Except Error Bytes} {params : Params} {target number : Int64}

theorem gsettings_decides (hkey : params.keyType = .number) (hoperation : params.operation ≠ .isUnlocked)
    (htarget : IsNumber params.value target) (h : Reports executeCommand params number) :
    Decides (auditGsettingsValue executeCommand params)
      ((GsettingsValue.mapComparison params.operation).Holds (number.toInt.bmod (2 ^ 32))
        (target.toInt.bmod (2 ^ 32))) := by
  rw [auditGsettingsValue_number hkey hoperation htarget h]
  apply decides_report
  rw [compareTyped_iff, Int64.toInt_toInt32, Int64.toInt_toInt32]

theorem gsettings_decides_of_fits (hkey : params.keyType = .number) (hoperation : params.operation ≠ .isUnlocked)
    (htarget : IsNumber params.value target) (h : Reports executeCommand params number) (hnumber : Fits number.toInt)
    (hfits : Fits target.toInt) :
    Decides (auditGsettingsValue executeCommand params)
      ((GsettingsValue.mapComparison params.operation).Holds number.toInt target.toInt) := by
  rw [auditGsettingsValue_number hkey hoperation htarget h]
  exact decides_report params (compareTyped_of_fits hnumber hfits _)

end Gsettings

theorem shadow_decides_of_fits (regexSearch : Bytes → Bytes → Except Bytes Bool) {entry : Spwd} {field : Field}
    {number : Int64} {value : Bytes} {intValue : Int} {operation : ComparisonOperation}
    {mapped : TypedComparisonOperation} (hnumber : entry.number field = some number)
    (hvalue : tryStringToInt value = .ok intValue) (hmapped : ShadowField.mapComparison operation = .ok mapped)
    (hfits : Fits number.toInt) :
    ∃ verdict, compareUserEntry regexSearch entry field value operation = some (.ok verdict) ∧
      (verdict = true ↔ mapped.Holds number.toInt intValue) := by
  refine ⟨_, compareUserEntry_number regexSearch hnumber hvalue hmapped, ?_⟩
  rw [compareTyped_iff, toInt_of_fits hfits, (toInt_intValue hvalue).2]

/-- In the width of an `int`. -/
theorem numeric_verdicts :
    (∀ (executeCommand : Bytes → Except Error Bytes) (params : Params) (target number : Int64),
      params.keyType = .number → params.operation ≠ .isUnlocked → IsNumber params.value target →
      Reports executeCommand params number →
        Decides (auditGsettingsValue executeCommand params)
          ((GsettingsValue.mapComparison params.operation).Holds (number.toInt.bmod (2 ^ 32))
            (target.toInt.bmod (2 ^ 32))) ∧
        (Fits number.toInt → Fits target.toInt →
          Decides (auditGsettingsValue executeCommand params)
            ((GsettingsValue.mapComparison params.operation).Holds number.toInt target.toInt))) ∧
    (∀ (regexSearch : Bytes → Bytes → Except Bytes Bool) (entry : Spwd) (field : Field) (number : Int64) (value : Bytes)
      (intValue : Int) (operation : ComparisonOperation) (mapped : TypedComparisonOperation),
      entry.number field = some number → tryStringToInt value = .ok intValue →
      ShadowField.mapComparison operation = .ok mapped → Fits number.toInt →
        ∃ verdict, compareUserEntry regexSearch entry field value operation = some (.ok verdict) ∧
          (verdict = true ↔ mapped.Holds number.toInt intValue)) := by
  constructor
  · intro executeCommand params target number hkey hoperation htarget h
    exact ⟨gsettings_decides hkey hoperation htarget h, gsettings_decides_of_fits hkey hoperation htarget h⟩
  · intro regexSearch entry field number value intValue operation mapped hnumber hvalue hmapped hfits
    exact shadow_decides_of_fits regexSearch hnumber hvalue hmapped hfits

section Runs

def cursorSize (value : Bytes) : Params :=
  { schema := utf8 "org.gnome.desktop.interface", key := utf8 "cursor-size", operation := .lessThan, value }

/-- `gsettings` with an unsigned key. -/
def unsignedKey (params : Params) (text : Bytes) (command : Bytes) : Except Error Bytes :=
  if command = rangeCommand params then .ok (utf8 "type u\n") else .ok (utf8 "uint32 " ++ text)

theorem isNumber_digits {digits : Bytes} (hdigits : digits.all Parson.isDigit = true) (hne : digits ≠ []) {number : Int64} (hnumber : number.toInt = Foundation.Decimal.value digits) : IsNumber digits number :=
  ⟨[], [], digits, ⟨rfl, by simp, .inl rfl, List.all_eq_true.mp hdigits, hne⟩, by rw [hnumber, signed, if_neg (by simp)]⟩

theorem reports_unsignedKey (value digits : Bytes) (number : Int64)
    (hdigits : digits.all Parson.isDigit = true) (hne : digits ≠ []) (hnumber : number.toInt = Foundation.Decimal.value digits)
    (hwidth : number.toInt < 2 ^ 32) :
    Reports (unsignedKey (cursorSize value) digits) (cursorSize value) number := by
  have hline : Foundation.Streams.newline ∉ utf8 "uint32 " ++ digits := by
    rw [List.mem_append, not_or]
    exact ⟨by decide, fun hmem => ne_of_isDigit (List.all_eq_true.mp hdigits _ hmem) (by decide) rfl⟩
  have hcommand : getCommand (cursorSize value) ≠ rangeCommand (cursorSize value) := by
    rw [getCommand, rangeCommand]
    exact mt List.append_cancel_right (by decide)
  refine ⟨_, _, utf8 "type u", _, digits, if_pos rfl, ⟨by decide, by decide, .inr rfl⟩, if_neg hcommand,
    ⟨hline, by simp [utf8], .inl rfl⟩, isNumber_digits hdigits hne hnumber, .inr ⟨rfl, rfl, ?_, hwidth⟩⟩
  omega

/-- The largest `int` is less than the number after it, and the audit says that it is not. -/
theorem gsettings_narrows :
    IsNumber (cursorSize (utf8 "2147483648")).value 2147483648 ∧
      Reports (unsignedKey (cursorSize (utf8 "2147483648")) (utf8 "2147483647")) (cursorSize (utf8 "2147483648"))
        2147483647 ∧
      ¬ Decides (auditGsettingsValue (unsignedKey (cursorSize (utf8 "2147483648")) (utf8 "2147483647"))
          (cursorSize (utf8 "2147483648")))
        (TypedComparisonOperation.lessThan.Holds 2147483647 2147483648) := by
  have htarget : IsNumber (cursorSize (utf8 "2147483648")).value 2147483648 :=
    isNumber_digits (by decide) (by decide) (by decide)
  have hreports := reports_unsignedKey (utf8 "2147483648") (utf8 "2147483647") 2147483647 (by decide) (by decide)
    (by decide) (by decide)
  refine ⟨htarget, hreports, ?_⟩
  rintro ⟨indicator, haudit, hverdict, -⟩
  rw [auditGsettingsValue_number rfl (by decide) htarget hreports] at haudit
  cases haudit
  exact absurd (hverdict.mpr (by decide)) (by decide)

theorem numeric_verdicts_small :
    Decides (auditGsettingsValue (unsignedKey (cursorSize (utf8 "5")) (utf8 "4")) (cursorSize (utf8 "5")))
        (TypedComparisonOperation.lessThan.Holds 4 5) ∧
      ∃ verdict, compareUserEntry (fun _ _ => .ok false)
          { pwdp := none, lstchg := 0, min := 7, max := 0, warn := 0, inact := 0, expire := 0 } .minAge (utf8 "+7")
          .greaterOrEqual = some (.ok verdict) ∧
        (verdict = true ↔ TypedComparisonOperation.greaterOrEqual.Holds 7 7) :=
  ⟨(numeric_verdicts.1 _ _ 5 4 rfl (by decide) (isNumber_digits (by decide) (by decide) (by decide))
      (reports_unsignedKey _ _ _ (by decide) (by decide) (by decide) (by decide))).2 (by decide) (by decide),
    numeric_verdicts.2 _ _ .minAge 7 (utf8 "+7") 7 _ _ rfl
      (tryStringToInt_ok_iff.mpr ⟨[], [plusSign], utf8 "7", ⟨rfl, by simp, .inr (.inr rfl), List.all_eq_true.mp (by decide), by decide⟩,
        by decide, by decide, by decide⟩) rfl (by decide)⟩

end Runs

end Kompli.NumericVerdicts
