import Kompli.Foundation.Lines
import Kompli.Procedures.SshdOption
import Mathlib.Data.List.Forall2

/-! Limits of several numbers: which texts are lists of numbers for the two loops that read them, and how the lists are
compared. -/
namespace Kompli.SshdOption
open Foundation Streams

variable {delimiter : UInt8} {numFields : Nat} {text token : Bytes} {numbers parts limits : List Int} {n : Int}

/-- A signed number of 64 bits, with nothing after it. -/
def IsNumber (token : Bytes) (n : Int) : Prop := signed 64 token = some (n, [])

instance (token : Bytes) (n : Int) : Decidable (IsNumber token n) := inferInstanceAs (Decidable (_ = _))

/-- A list of numbers between single delimiters, of at most so many. -/
structure NumberList (delimiter : UInt8) (numFields : Nat) (text : Bytes) (numbers : List Int) : Prop where
  pieces : List.Forall₂ IsNumber (text.splitOn delimiter) numbers
  length : numbers.length ≤ numFields

/-- A limit that is empty has no fields. -/
def LimitList (numFields : Nat) (value : Bytes) (limits : List Int) : Prop :=
  value = [] ∧ limits = [] ∨ NumberList limitDelimiter numFields value limits

section Parse

theorem parseToken_iff : parseToken token = .ok n ↔ IsNumber token n := by
  rw [parseToken, IsNumber]
  cases signed 64 token with
  | none => simp
  | some read =>
    obtain ⟨value, rest⟩ := read
    dsimp only
    split_ifs with hrest
    · simp [hrest]
    · simp [hrest]

/-- What a loop reads, where the checks after it are passed. -/
def Accepted (delimiter : UInt8) (numFields : Nat) (text : Bytes) (parts : List Int) : Prop :=
  ∃ eof, parseFields delimiter numFields false text = .ok (parts, eof) ∧ ¬ (parts.length = numFields ∧ eof = false) ∧
    text.getLast? ≠ some delimiter

private theorem getline_last (h : delimiter ∉ text) (hne : text ≠ []) : getline delimiter text = some (text, [], true) := by
  have hall : ∀ c ∈ text, decide (c ≠ delimiter) = true := by
    intro c hc
    rw [decide_eq_true_eq]
    rintro rfl
    exact h hc
  rw [getline, if_neg hne, List.dropWhile_eq_nil_iff.mpr hall]

private theorem getline_line {line : Bytes} (h : delimiter ∉ line) (rest : Bytes) :
    getline delimiter (line ++ delimiter :: rest) = some (line, rest, false) := by
  rw [getline, if_neg (by simp), dropWhile_cut h, takeWhile_cut h]

/-- At the end nothing more is read, and the end has been met. -/
private theorem parseFields_end (delimiter : UInt8) (numFields : Nat) :
    parseFields delimiter numFields true [] = .ok ([], true) := by
  cases numFields <;> rfl

/-- One field and those after it. -/
private theorem parseFields_line {line rest : Bytes} (h : delimiter ∉ line) {eof : Bool} :
    parseFields delimiter (numFields + 1) false (line ++ delimiter :: rest) = .ok (parts, eof) ↔
      ∃ n others, parts = n :: others ∧ IsNumber line n ∧
        parseFields delimiter numFields false rest = .ok (others, eof) := by
  rw [parseFields, getline_line h]
  dsimp only
  cases hparsed : parseToken line with
  | error e =>
    constructor
    · intro hparts
      cases hparts
    · rintro ⟨n, others, -, hnumber, -⟩
      rw [← parseToken_iff, hparsed] at hnumber
      cases hnumber
  | ok value =>
    dsimp only
    have hvalue := parseToken_iff.mp hparsed
    cases hrest : parseFields delimiter numFields false rest with
    | error e => simp
    | ok read =>
      obtain ⟨others, end'⟩ := read
      constructor
      · intro hparts
        cases hparts
        exact ⟨value, others, rfl, hvalue, rfl⟩
      · rintro ⟨n, others', rfl, hnumber, hothers⟩
        cases hothers
        rw [← parseToken_iff, hparsed] at hnumber
        cases hnumber
        rfl

private theorem not_accepted_zero : ¬ Accepted delimiter 0 text parts := by
  rintro ⟨eof, hparts, hmore, -⟩
  cases hparts
  exact hmore ⟨rfl, rfl⟩

theorem not_isNumber_nil : ¬ IsNumber [] n := by
  intro h
  cases h

private theorem not_numberList_zero : ¬ NumberList delimiter 0 text numbers := by
  intro h
  have hpieces := h.pieces.length_eq
  have hpos := List.length_pos_iff.mpr (List.splitOn_ne_nil delimiter text)
  have hlength := h.length
  omega

private theorem accepted_nil : Accepted delimiter (numFields + 1) [] parts ↔ parts = [] := by
  constructor
  · rintro ⟨eof, hparts, -⟩
    cases hparts
    rfl
  · rintro rfl
    exact ⟨true, rfl, by simp, by simp⟩

private theorem accepted_last (h : delimiter ∉ text) (hne : text ≠ []) :
    Accepted delimiter (numFields + 1) text parts ↔ ∃ n, parts = [n] ∧ IsNumber text n := by
  have hlast : text.getLast? ≠ some delimiter := fun hlast => h (List.mem_of_getLast? hlast)
  rw [Accepted, parseFields, getline_last h hne]
  dsimp only
  cases hparsed : parseToken text with
  | error e =>
    constructor
    · rintro ⟨eof, hparts, -⟩
      cases hparts
    · rintro ⟨n, -, hnumber⟩
      rw [← parseToken_iff, hparsed] at hnumber
      cases hnumber
  | ok value =>
    rw [parseFields_end]
    constructor
    · rintro ⟨eof, hparts, -⟩
      cases hparts
      exact ⟨value, rfl, parseToken_iff.mp hparsed⟩
    · rintro ⟨n, rfl, hnumber⟩
      rw [← parseToken_iff, hparsed] at hnumber
      cases hnumber
      exact ⟨true, rfl, by simp, hlast⟩

private theorem accepted_line {line rest : Bytes} (h : delimiter ∉ line) :
    Accepted delimiter (numFields + 1) (line ++ delimiter :: rest) parts ↔
      rest ≠ [] ∧ ∃ n others, parts = n :: others ∧ IsNumber line n ∧ Accepted delimiter numFields rest others := by
  simp only [Accepted, parseFields_line h]
  by_cases hrest : rest = []
  · subst hrest
    simp
  · have hlast : (line ++ delimiter :: rest).getLast? = rest.getLast? := by
      rw [List.getLast?_append_of_ne_nil _ (List.cons_ne_nil _ _), List.getLast?_cons_of_ne_nil hrest]
    rw [hlast]
    constructor
    · rintro ⟨eof, ⟨n, others, rfl, hnumber, hothers⟩, hmore, hend⟩
      refine ⟨hrest, n, others, rfl, hnumber, eof, hothers, fun hfull => hmore ?_, hend⟩
      exact ⟨congrArg Nat.succ hfull.1, hfull.2⟩
    · rintro ⟨-, n, others, rfl, hnumber, eof, hothers, hmore, hend⟩
      refine ⟨eof, ⟨n, others, rfl, hnumber, hothers⟩, fun hfull => hmore ?_, hend⟩
      exact ⟨Nat.succ.inj hfull.1, hfull.2⟩

/-- A list is a number, or a number, a delimiter and a list. -/
private theorem numberList_line {line rest : Bytes} (h : delimiter ∉ line) :
    NumberList delimiter (numFields + 1) (line ++ delimiter :: rest) numbers ↔
      ∃ n others, numbers = n :: others ∧ IsNumber line n ∧ NumberList delimiter numFields rest others := by
  constructor
  · rintro ⟨hpieces, hlength⟩
    rw [splitOn_append_cons h, List.forall₂_cons_left_iff] at hpieces
    obtain ⟨n, others, hnumber, hothers, rfl⟩ := hpieces
    exact ⟨n, others, rfl, hnumber, hothers, Nat.le_of_succ_le_succ hlength⟩
  · rintro ⟨n, others, rfl, hnumber, hothers, hlength⟩
    refine ⟨?_, Nat.succ_le_succ hlength⟩
    rw [splitOn_append_cons h]
    exact .cons hnumber hothers

private theorem numberList_last (h : delimiter ∉ text) :
    NumberList delimiter (numFields + 1) text numbers ↔ ∃ n, numbers = [n] ∧ IsNumber text n := by
  constructor
  · rintro ⟨hpieces, -⟩
    rw [List.splitOn_eq_singleton h, List.forall₂_cons_left_iff] at hpieces
    obtain ⟨n, others, hnumber, hothers, rfl⟩ := hpieces
    cases hothers
    exact ⟨n, rfl, hnumber⟩
  · rintro ⟨n, rfl, hnumber⟩
    refine ⟨?_, by simp⟩
    rw [List.splitOn_eq_singleton h]
    exact .cons hnumber .nil

/-- A loop and its checks accept the lists of numbers, and an empty text. -/
theorem accepted_iff : Accepted delimiter numFields text parts ↔
    text = [] ∧ parts = [] ∧ 0 < numFields ∨ NumberList delimiter numFields text parts := by
  induction text using lines_induction delimiter generalizing numFields parts with
  | last text htext =>
    cases numFields with
    | zero => simp [not_accepted_zero, not_numberList_zero]
    | succ numFields =>
      by_cases hne : text = []
      · subst hne
        rw [accepted_nil, numberList_last htext]
        simp [not_isNumber_nil]
      · rw [accepted_last htext hne, numberList_last htext]
        simp [hne]
  | cons line rest hline ih =>
    cases numFields with
    | zero => simp [not_accepted_zero, not_numberList_zero]
    | succ numFields =>
      rw [accepted_line hline, numberList_line hline]
      by_cases hrest : rest = []
      · subst hrest
        have hnot (others : List Int) : ¬ NumberList delimiter numFields [] others := by
          cases numFields with
          | zero => exact not_numberList_zero
          | succ numFields =>
            rw [numberList_last (by simp)]
            rintro ⟨n, -, hnumber⟩
            exact not_isNumber_nil hnumber
        simp [hnot]
      · simp [ih, hrest]

end Parse

section Evaluate

variable {option value realValue ctx : Bytes}

theorem NumberList.ne_nil (h : NumberList delimiter numFields text numbers) : text ≠ [] ∧ numbers ≠ [] := by
  constructor
  · rintro rfl
    have hpieces := h.pieces
    rw [List.splitOn_nil, List.forall₂_cons_left_iff] at hpieces
    obtain ⟨n, others, hnumber, -, -⟩ := hpieces
    exact not_isNumber_nil hnumber
  · rintro rfl
    exact List.splitOn_ne_nil delimiter text (List.forall₂_nil_right_iff.mp h.pieces)

/-- A limit is accepted just where it is one, if a field is asked for at all. -/
theorem limit_accepted_iff (h : 0 < numFields) :
    Accepted limitDelimiter numFields value limits ↔ LimitList numFields value limits := by
  rw [accepted_iff, LimitList]
  simp [h]

/-- With a value and a limit that can be read the fields are compared. -/
theorem evaluate_of_lists (option ctx : Bytes) (hreal : NumberList delimiter numFields realValue numbers)
    (hlimit : LimitList numFields value limits) :
    ∃ indicator, evaluateDelimitedNumericLimits option value realValue delimiter numFields ctx = .ok indicator ∧
      (indicator.status = .compliant ↔ ∀ i < numFields, numbers.getD i 0 ≤ limits.getD i 0) := by
  have hsome : numbers.length ≠ 0 := fun hnil => hreal.ne_nil.2 (List.eq_nil_of_length_eq_zero hnil)
  have hpos : 0 < numFields := by
    have hlength := hreal.length
    omega
  obtain ⟨realEof, hrealParts, hrealMore, hrealEnd⟩ := accepted_iff.mpr (.inr hreal)
  obtain ⟨limitEof, hlimitParts, hlimitMore, hlimitEnd⟩ := (limit_accepted_iff hpos).mpr hlimit
  simp only [evaluateDelimitedNumericLimits, hrealParts, if_neg hsome, if_neg (not_or.mpr ⟨hrealMore, hrealEnd⟩),
    hlimitParts, if_neg (not_or.mpr ⟨hlimitMore, hlimitEnd⟩)]
  split_ifs with hexceeds
  · refine ⟨_, rfl, ?_⟩
    rw [List.any_eq_true] at hexceeds
    obtain ⟨i, hi, hlt⟩ := hexceeds
    constructor
    · intro hstatus
      cases hstatus
    · intro hall
      have hle := hall i (List.mem_range.mp hi)
      rw [decide_eq_true_eq] at hlt
      omega
  · refine ⟨_, rfl, fun _ i hi => ?_, fun _ => rfl⟩
    by_contra hgt
    exact hexceeds (List.any_eq_true.mpr ⟨i, List.mem_range.mpr hi, by rw [decide_eq_true_eq]; omega⟩)

/-- Without them there is an error. -/
theorem lists_of_evaluate {indicator : Indicator} (option ctx : Bytes)
    (h : evaluateDelimitedNumericLimits option value realValue delimiter numFields ctx = .ok indicator) :
    (∃ numbers, NumberList delimiter numFields realValue numbers) ∧ ∃ limits, LimitList numFields value limits := by
  rw [evaluateDelimitedNumericLimits] at h
  cases hreal : parseFields delimiter numFields false realValue with
  | error e =>
    rw [hreal] at h
    cases h
  | ok read =>
    obtain ⟨realParts, realEof⟩ := read
    rw [hreal] at h
    dsimp only at h
    by_cases hsome : realParts.length = 0
    · rw [if_pos hsome] at h
      cases h
    rw [if_neg hsome] at h
    by_cases hrealMore : realParts.length = numFields ∧ realEof = false ∨ realValue.getLast? = some delimiter
    · rw [if_pos hrealMore] at h
      cases h
    rw [if_neg hrealMore] at h
    rw [not_or] at hrealMore
    have hnumbers : NumberList delimiter numFields realValue realParts :=
      (accepted_iff.mp ⟨realEof, hreal, hrealMore⟩).resolve_left fun hnil => hsome (by rw [hnil.2.1]; rfl)
    refine ⟨⟨realParts, hnumbers⟩, ?_⟩
    cases hlimit : parseFields limitDelimiter numFields false value with
    | error e =>
      rw [hlimit] at h
      cases h
    | ok read =>
      obtain ⟨limitParts, limitEof⟩ := read
      rw [hlimit] at h
      dsimp only at h
      by_cases hlimitMore : limitParts.length = numFields ∧ limitEof = false ∨ value.getLast? = some limitDelimiter
      · rw [if_pos hlimitMore] at h
        cases h
      rw [not_or] at hlimitMore
      have hlength := hnumbers.length
      exact ⟨limitParts, (limit_accepted_iff (by omega)).mp ⟨limitEof, hlimit, hlimitMore⟩⟩

/-- There is an error just where the value is no list of numbers, or the limit is none; otherwise the value complies just
where no field of it exceeds the limit's, and fields that are missing are 0. -/
theorem evaluateDelimitedNumericLimits_spec (option value realValue : Bytes) (delimiter : UInt8) (numFields : Nat)
    (ctx : Bytes) :
    ((∃ e, evaluateDelimitedNumericLimits option value realValue delimiter numFields ctx = .error e) ↔
      (¬ ∃ numbers, NumberList delimiter numFields realValue numbers) ∨ ¬ ∃ limits, LimitList numFields value limits) ∧
    ∀ numbers limits, NumberList delimiter numFields realValue numbers → LimitList numFields value limits →
      ∃ indicator, evaluateDelimitedNumericLimits option value realValue delimiter numFields ctx = .ok indicator ∧
        (indicator.status = .compliant ↔ ∀ i < numFields, numbers.getD i 0 ≤ limits.getD i 0) := by
  refine ⟨?_, fun numbers limits hreal hlimit => evaluate_of_lists option ctx hreal hlimit⟩
  rw [← not_and_or]
  constructor
  · rintro ⟨e, herror⟩ ⟨⟨numbers, hreal⟩, limits, hlimit⟩
    obtain ⟨indicator, hindicator, -⟩ := evaluate_of_lists option ctx hreal hlimit
    rw [herror] at hindicator
    cases hindicator
  · intro h
    cases hresult : evaluateDelimitedNumericLimits option value realValue delimiter numFields ctx with
    | error e => exact ⟨e, rfl⟩
    | ok indicator => exact absurd (lists_of_evaluate option ctx hresult) h

theorem max_startups_evaluated : ∃ indicator,
    evaluateDelimitedNumericLimits (utf8 "maxstartups") (utf8 "10:30") (utf8 "10:30:60") 0x3A 3 [] = .ok indicator ∧
      (indicator.status = .compliant ↔ ∀ i < 3, [10, 30, 60].getD i 0 ≤ [10, 30].getD i (0 : Int)) := by
  have hreal : (utf8 "10:30:60").splitOn 0x3A = [utf8 "10", utf8 "30", utf8 "60"] := by decide +kernel
  have hlimit : (utf8 "10:30").splitOn limitDelimiter = [utf8 "10", utf8 "30"] := by decide +kernel
  refine (evaluateDelimitedNumericLimits_spec (utf8 "maxstartups") (utf8 "10:30") (utf8 "10:30:60") 0x3A 3 []).2
    [10, 30, 60] [10, 30] ⟨?_, by decide⟩ (.inr ⟨?_, by decide⟩)
  · rw [hreal]
    exact .cons (by decide +kernel) (.cons (by decide +kernel) (.cons (by decide +kernel) .nil))
  · rw [hlimit]
    exact .cons (by decide +kernel) (.cons (by decide +kernel) .nil)

end Evaluate

end Kompli.SshdOption
