import Mathlib.Data.Nat.Find
import Mathlib.Order.Basic

/-! Searches for the matches of an expression in a text, as `std::regex_search` does them, and the matches that follow one
another. What the expression finds at a place is left open. -/
namespace Kompli.Foundation.RegexSearch

section Searches

/-- What is found at a place: how long it is, and where its first group is and how long, if the expression has one. -/
structure Found where
  length : Nat
  group : Option (Nat × Nat) := none
  deriving DecidableEq

/-- A match at a position in the text. -/
structure Match extends Found where
  position : Nat
  deriving DecidableEq

/-- An expression on a text of some size. What it finds at a place depends on whether what is before is there to be
looked at, and on whether an empty match counts. -/
structure Expression (size : Nat) where
  matchAt : (prevAvail notNull : Bool) → (place : Nat) → Option Found
  within : ∀ {prevAvail notNull place found}, matchAt prevAvail notNull place = some found → place + found.length ≤ size
  not_null : ∀ {prevAvail place found}, matchAt prevAvail true place = some found → found.length ≠ 0

/-- The `match_flag_type` values that are used. -/
structure Flags where
  prevAvail : Bool := false
  notNull : Bool := false
  continuous : Bool := false

variable {size : Nat}

def matchFrom (expression : Expression size) (prevAvail notNull : Bool) (place : Nat) : Option Match :=
  (expression.matchAt prevAvail notNull place).map fun found => { found with position := place }

/-- `std::regex_search` from a place to the end of the text: the first match, or one that begins right there. After
its first place it sees what is before. -/
def regexSearch (expression : Expression size) (start : Nat) (flags : Flags) : Option Match :=
  if flags.continuous then matchFrom expression flags.prevAvail flags.notNull start
  else
    (List.range' start (size + 1 - start)).findSome? fun place =>
      matchFrom expression (flags.prevAvail || start < place) flags.notNull place

end Searches

section Lines

variable {α : Type} [DecidableEq α] {c : α} {text : List α} {offset place : Nat}

/-- `std::string::find` of a byte. -/
def findFrom (c : α) (text : List α) (offset : Nat) : Option Nat :=
  if c ∈ text.drop offset then some (offset + (text.drop offset).idxOf c) else none

/-- Place 0, or just after the end of a line. -/
def LineStart (newline : α) (text : List α) (place : Nat) : Prop := place = 0 ∨ text[place - 1]? = some newline

instance : Decidable (LineStart c text place) := inferInstanceAs (Decidable (_ ∨ _))

theorem length_takeWhile_ne (c : α) (text : List α) : (text.takeWhile fun d => d ≠ c).length = text.idxOf c := by
  induction text with
  | nil => rfl
  | cons d text ih =>
    by_cases heq : d = c
    · simp [heq]
    · rw [List.takeWhile_cons_of_pos (by simpa using heq), List.idxOf_cons, beq_false_of_ne heq, cond_false, List.length_cons, ih]

theorem findFrom_some (h : findFrom c text offset = some place) :
    offset ≤ place ∧ text[place]? = some c ∧ ∀ i, offset ≤ i → i < place → text[i]? ≠ some c := by
  rw [findFrom] at h
  split_ifs at h with hmem
  cases h
  have hless := List.idxOf_lt_length_of_mem hmem
  refine ⟨Nat.le_add_right _ _, ?_, fun i hle hlt heq => ?_⟩
  · rw [← List.getElem?_drop, List.getElem?_eq_getElem hless, List.getElem_idxOf]
  · obtain ⟨i, rfl⟩ := Nat.exists_eq_add_of_le hle
    rw [← List.getElem?_drop] at heq
    obtain ⟨hi, heq⟩ := List.getElem?_eq_some_iff.mp heq
    have hbefore : i < (text.drop offset).idxOf c := by omega
    have hnot := List.not_of_lt_findIdx hbefore
    simp [heq] at hnot

theorem findFrom_none (h : findFrom c text offset = none) : ∀ i, offset ≤ i → text[i]? ≠ some c := by
  intro i hle heq
  rw [findFrom, ite_eq_right_iff] at h
  obtain ⟨i, rfl⟩ := Nat.exists_eq_add_of_le hle
  rw [← List.getElem?_drop] at heq
  cases h (List.mem_of_getElem? heq)

/-- After the end of a line there is a line start, and none before. -/
theorem LineStart.of_findFrom (h : findFrom c text offset = some place) :
    LineStart c text (place + 1) ∧ place < text.length ∧ ∀ i, offset < i → i ≤ place → ¬ LineStart c text i := by
  obtain ⟨hle, hplace, hnone⟩ := findFrom_some h
  refine ⟨.inr hplace, (List.getElem?_eq_some_iff.mp hplace).1, fun i hlt hle hstart => ?_⟩
  rcases hstart with rfl | hstart
  · omega
  · exact hnone (i - 1) (by omega) (by omega) hstart

end Lines

section Successive

variable {size : Nat} (expression : Expression size)

/-- What the pattern finds at a place of the text. -/
def occursAt (place : Nat) : Option Match := matchFrom expression (place ≠ 0) false place

/-- What it finds there that is not empty. -/
def occursNonemptyAt (place : Nat) : Option Match := matchFrom expression (place ≠ 0) true place

/-- The first match that begins at a place or after it. -/
def IsFirst (start : Nat) (found : Match) : Prop :=
  start ≤ found.position ∧ occursAt expression found.position = some found ∧
    ∀ place, start ≤ place → place < found.position → occursAt expression place = none

/-- A match, or an empty one and then one at the same place that is not, and where the search goes on: at the end, or
a byte further where nothing is there. -/
inductive Segment : Nat → List Match → Nat → Prop where
  | nonempty {start found} : IsFirst expression start found → found.length ≠ 0 →
      Segment start [found] (found.position + found.length)
  | both {start found nonempty} : IsFirst expression start found → found.length = 0 →
      occursNonemptyAt expression found.position = some nonempty →
      Segment start [found, nonempty] (nonempty.position + nonempty.length)
  | empty {start found} : IsFirst expression start found → found.length = 0 →
      occursNonemptyAt expression found.position = none → Segment start [found] (found.position + 1)

/-- The matches that follow one another from a place on and do not overlap. -/
inductive Successive : Nat → List Match → Prop where
  | done {start} : (∀ place, start ≤ place → occursAt expression place = none) → Successive start []
  | segment {start segment next rest} : Segment expression start segment next → Successive next rest →
      Successive start (segment ++ rest)

variable {expression} {start place next : Nat} {found other : Match} {all others segment : List Match}

theorem occursAt_position (h : occursAt expression place = some found) :
    found.position = place ∧ found.position + found.length ≤ size := by
  obtain ⟨what, hwhat, rfl⟩ := Option.map_eq_some_iff.mp h
  exact ⟨rfl, expression.within hwhat⟩

theorem occursNonemptyAt_position (h : occursNonemptyAt expression place = some found) :
    found.position = place ∧ found.position + found.length ≤ size ∧ found.length ≠ 0 := by
  obtain ⟨what, hwhat, rfl⟩ := Option.map_eq_some_iff.mp h
  exact ⟨rfl, expression.within hwhat, expression.not_null hwhat⟩

theorem occursAt_beyond (h : size < place) : occursAt expression place = none := by
  refine Option.eq_none_iff_forall_ne_some.mpr fun found hfound => ?_
  obtain ⟨hposition, hwithin⟩ := occursAt_position hfound
  omega

theorem IsFirst.unique (h : IsFirst expression start found) (hother : IsFirst expression start other) :
    found = other := by
  obtain ⟨hstart, hfound, hbefore⟩ := h
  obtain ⟨hstart', hother, hbefore'⟩ := hother
  rcases lt_trichotomy found.position other.position with hlt | heq | hlt
  · rw [hbefore' _ hstart hlt] at hfound
    cases hfound
  · rw [heq, hother] at hfound
    exact (Option.some.inj hfound).symm
  · rw [hbefore _ hstart' hlt] at hother
    cases hother

/-- There is a first match, or there is none. -/
theorem first_or_none (expression : Expression size) (start : Nat) :
    (∃ found, IsFirst expression start found) ∨ ∀ place, start ≤ place → occursAt expression place = none := by
  by_cases h : ∃ place, start ≤ place ∧ (occursAt expression place).isSome
  · obtain ⟨hstart, hsome⟩ := Nat.find_spec h
    obtain ⟨found, hfound⟩ := Option.isSome_iff_exists.mp hsome
    refine .inl ⟨found, ?_⟩
    rw [IsFirst, (occursAt_position hfound).1]
    refine ⟨hstart, hfound, fun place hle hlt => ?_⟩
    have hnot := Nat.find_min h hlt
    rw [not_and, Option.not_isSome_iff_eq_none] at hnot
    exact hnot hle
  · refine .inr fun place hle => ?_
    rw [← Option.not_isSome_iff_eq_none]
    exact fun hsome => h ⟨place, hle, hsome⟩

theorem Segment.first (h : Segment expression start segment next) : ∃ found, IsFirst expression start found := by
  cases h with
  | nonempty hfirst | both hfirst | empty hfirst => exact ⟨_, hfirst⟩

theorem IsFirst.exists_segment (h : IsFirst expression start found) :
    ∃ rest next, Segment expression start (found :: rest) next := by
  by_cases hlength : found.length = 0
  · cases hnonempty : occursNonemptyAt expression found.position with
    | none => exact ⟨_, _, .empty h hlength hnonempty⟩
    | some nonempty => exact ⟨_, _, .both h hlength hnonempty⟩
  · exact ⟨_, _, .nonempty h hlength⟩

theorem Segment.unique {other : List Match} {after : Nat} (h : Segment expression start segment next)
    (hother : Segment expression start other after) : segment = other ∧ next = after := by
  cases h with
  | nonempty hfirst hlength =>
    cases hother with
    | nonempty hfirst' =>
      cases hfirst.unique hfirst'
      exact ⟨rfl, rfl⟩
    | both hfirst' hzero | empty hfirst' hzero =>
      cases hfirst.unique hfirst'
      exact absurd hzero hlength
  | both hfirst hlength hnonempty =>
    cases hother with
    | nonempty hfirst' hnot =>
      cases hfirst.unique hfirst'
      exact absurd hlength hnot
    | both hfirst' _ hnonempty' =>
      cases hfirst.unique hfirst'
      cases hnonempty.symm.trans hnonempty'
      exact ⟨rfl, rfl⟩
    | empty hfirst' _ hnone =>
      cases hfirst.unique hfirst'
      cases hnonempty.symm.trans hnone
  | empty hfirst hlength hnone =>
    cases hother with
    | nonempty hfirst' hnot =>
      cases hfirst.unique hfirst'
      exact absurd hlength hnot
    | both hfirst' _ hnonempty =>
      cases hfirst.unique hfirst'
      cases hnone.symm.trans hnonempty
    | empty hfirst' =>
      cases hfirst.unique hfirst'
      exact ⟨rfl, rfl⟩

theorem Segment.bounds (h : Segment expression start segment next) :
    start ≤ size ∧ start < next ∧ next ≤ size + 1 := by
  cases h with
  | nonempty hfirst hlength =>
    have hposition := occursAt_position hfirst.2.1
    have hstart := hfirst.1
    omega
  | both hfirst _ hnonempty =>
    have hposition := occursAt_position hfirst.2.1
    have hplace := occursNonemptyAt_position hnonempty
    have hstart := hfirst.1
    omega
  | empty hfirst =>
    have hposition := occursAt_position hfirst.2.1
    have hstart := hfirst.1
    omega

theorem segment_or_none (expression : Expression size) (start : Nat) :
    (∃ segment next, Segment expression start segment next) ∨
      ∀ place, start ≤ place → occursAt expression place = none := by
  rcases first_or_none expression start with ⟨found, hfirst⟩ | hnone
  · obtain ⟨rest, next, hsegment⟩ := hfirst.exists_segment
    exact .inl ⟨_, _, hsegment⟩
  · exact .inr hnone

/-- The matches that follow one another are determined. -/
theorem Successive.unique (h : Successive expression start all) (hother : Successive expression start others) :
    all = others := by
  induction h generalizing others with
  | done hnone =>
    cases hother with
    | done => rfl
    | segment hsegment =>
      obtain ⟨found, hstart, hfound, -⟩ := hsegment.first
      cases (hnone _ hstart).symm.trans hfound
  | segment hsegment _ ih =>
    cases hother with
    | done hnone =>
      obtain ⟨found, hstart, hfound, -⟩ := hsegment.first
      cases (hnone _ hstart).symm.trans hfound
    | segment hsegment' hrest =>
      obtain ⟨rfl, rfl⟩ := hsegment.unique hsegment'
      rw [ih hrest]

/-- A search may begin earlier where nothing is found. -/
theorem Successive.extend {later : Nat} (h : Successive expression later all)
    (hnone : ∀ place, start ≤ place → place < later → occursAt expression place = none) (hle : start ≤ later) :
    Successive expression start all := by
  have hfirst {found : Match} (hfound : IsFirst expression later found) : IsFirst expression start found := by
    refine ⟨hle.trans hfound.1, hfound.2.1, fun place hstart hlt => ?_⟩
    rcases Nat.lt_or_ge place later with hbefore | hafter
    · exact hnone place hstart hbefore
    · exact hfound.2.2 place hafter hlt
  cases h with
  | done hdone =>
    refine .done fun place hstart => ?_
    rcases Nat.lt_or_ge place later with hbefore | hafter
    · exact hnone place hstart hbefore
    · exact hdone place hafter
  | segment hsegment hrest =>
    cases hsegment with
    | nonempty hfound hlength => exact .segment (.nonempty (hfirst hfound) hlength) hrest
    | both hfound hlength hnonempty => exact .segment (.both (hfirst hfound) hlength hnonempty) hrest
    | empty hfound hlength hempty => exact .segment (.empty (hfirst hfound) hlength hempty) hrest

/-- The matches are found where they are, from the start of the search on, and one after the other. -/
theorem Successive.sorted (h : Successive expression start all) :
    (∀ found ∈ all, start ≤ found.position) ∧
      all.Pairwise fun found later => found.position + found.length ≤ later.position := by
  induction h with
  | done => exact ⟨by simp, .nil⟩
  | segment hsegment _ ih =>
    obtain ⟨hplaces, hpairs⟩ := ih
    cases hsegment with
    | nonempty hfirst =>
      have hstart := hfirst.1
      refine ⟨List.forall_mem_cons.mpr ⟨hstart, fun later hlater => ?_⟩, .cons hplaces hpairs⟩
      have := hplaces later hlater
      omega
    | both hfirst hlength hnonempty =>
      have hstart := hfirst.1
      have hplace := (occursNonemptyAt_position hnonempty).1
      refine ⟨List.forall_mem_cons.mpr ⟨hstart, List.forall_mem_cons.mpr ⟨by omega, fun later hlater => ?_⟩⟩,
        .cons (List.forall_mem_cons.mpr ⟨by omega, fun later hlater => ?_⟩) (.cons hplaces hpairs)⟩
      · have := hplaces later hlater
        omega
      · have := hplaces later hlater
        omega
    | empty hfirst hlength =>
      have hstart := hfirst.1
      refine ⟨List.forall_mem_cons.mpr ⟨hstart, fun later hlater => ?_⟩, .cons (fun later hlater => ?_) hpairs⟩
      · have := hplaces later hlater
        omega
      · have := hplaces later hlater
        omega

variable (expression) in
theorem exists_successive (start : Nat) : ∃ all, Successive expression start all := by
  -- by how much of the text is left
  induction hleft : size + 1 - start using Nat.strong_induction_on generalizing start with
  | _ left ih =>
    rcases segment_or_none expression start with ⟨segment, next, hsegment⟩ | hnone
    · have hbounds := hsegment.bounds
      obtain ⟨rest, hrest⟩ := ih _ (by omega) next rfl
      exact ⟨_, .segment hsegment hrest⟩
    · exact ⟨[], .done hnone⟩

theorem findSome?_range' {α : Type} (f : Nat → Option α) (start count : Nat) :
    match (List.range' start count).findSome? f with
    | some value => ∃ place, start ≤ place ∧ place < start + count ∧ f place = some value ∧
        ∀ before, start ≤ before → before < place → f before = none
    | none => ∀ place, start ≤ place → place < start + count → f place = none := by
  induction count generalizing start with
  | zero => exact fun place hle hlt => absurd hlt (by omega)
  | succ count ih =>
    rw [List.range'_succ, List.findSome?_cons]
    cases hfirst : f start with
    | some value => exact ⟨start, le_rfl, by omega, hfirst, fun before hle hlt => absurd hlt (by omega)⟩
    | none =>
      have hrest := ih (start + 1)
      revert hrest
      dsimp only
      cases (List.range' (start + 1) count).findSome? f with
      | some value =>
        rintro ⟨place, hle, hlt, hplace, hbefore⟩
        refine ⟨place, by omega, by omega, hplace, fun before hle' hlt' => ?_⟩
        rcases Nat.eq_or_lt_of_le hle' with rfl | hlt''
        · exact hfirst
        · exact hbefore before hlt'' hlt'
      | none =>
        intro hnone place hle hlt
        rcases Nat.eq_or_lt_of_le hle with rfl | hlt'
        · exact hfirst
        · exact hnone place hlt' (by omega)

/-- The search of the loop finds the first match. -/
theorem regexSearch_first (expression : Expression size) (start : Nat) :
    match regexSearch expression start { prevAvail := start ≠ 0 } with
    | some found => IsFirst expression start found
    | none => ∀ place, start ≤ place → occursAt expression place = none := by
  have hplace : ∀ place, start ≤ place →
      matchFrom expression (decide (start ≠ 0) || decide (start < place)) false place = occursAt expression place := by
    intro place hle
    have hflag : (decide (start ≠ 0) || decide (start < place)) = decide (place ≠ 0) := by
      rw [← Bool.decide_or, decide_eq_decide]
      omega
    rw [occursAt, hflag]
  have hsearch := findSome?_range' (fun place =>
    matchFrom expression (decide (start ≠ 0) || decide (start < place)) false place) start (size + 1 - start)
  simp only [regexSearch, Bool.false_eq_true, if_false]
  revert hsearch
  cases (List.range' start (size + 1 - start)).findSome? fun place =>
    matchFrom expression (decide (start ≠ 0) || decide (start < place)) false place with
  | some found =>
    rintro ⟨place, hle, -, hfound, hbefore⟩
    rw [hplace place hle] at hfound
    obtain ⟨rfl, -⟩ := occursAt_position hfound
    exact ⟨hle, hfound, fun before hle' hlt => hplace before hle' ▸ hbefore before hle' hlt⟩
  | none =>
    intro hnone place hle
    by_cases hlt : place < start + (size + 1 - start)
    · exact hplace place hle ▸ hnone place hle hlt
    · exact occursAt_beyond (by omega)

end Successive

end Kompli.Foundation.RegexSearch
