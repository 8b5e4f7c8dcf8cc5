import Kompli.ComplianceEngine.MmiResults
import Kompli.Foundation.FirstError

/-! What is gathered of the states of items, and the verdict on all of them. -/
namespace Kompli.ResultEvidence
open Foundation

/-- An enumeration that a cast can give any other value. -/
inductive StateSatisfaction where
  | satisfied
  | notSatisfied
  | other (value : Int)
  deriving DecidableEq, Repr

open StateSatisfaction

abbrev StateResult := Except Error StateSatisfaction

def invalidState : Error := { message := utf8 "Invalid state satisfaction value", code := EINVAL }

def noComparisons : Error := { message := utf8 "Selected value item has no comparison results", code := EINVAL }

def validateStateSatisfaction : StateResult → StateResult
  | .error e => .error e
  | .ok satisfied => .ok satisfied
  | .ok notSatisfied => .ok notSatisfied
  | .ok (other _) => .error invalidState

structure CompletedItemEvidence where
  hasSelected : Bool := false
  allSatisfied : StateResult := .ok satisfied

namespace CompletedItemEvidence

def addSelected (state : StateResult) (evidence : CompletedItemEvidence) : CompletedItemEvidence :=
  { hasSelected := true
    allSatisfied :=
      match evidence.allSatisfied with
      | .error e => .error e
      | .ok all =>
        match validateStateSatisfaction state with
        | .error e => .error e
        | .ok notSatisfied => .ok notSatisfied
        | .ok _ => .ok all }

def recordError (error : Error) (evidence : CompletedItemEvidence) : CompletedItemEvidence :=
  match evidence.allSatisfied with
  | .error _ => evidence
  | .ok _ => { evidence with allSatisfied := .error error }

def hasSelectedItems (evidence : CompletedItemEvidence) : Bool := evidence.hasSelected

def allSelectedStatesSatisfied (evidence : CompletedItemEvidence) : StateResult := evidence.allSatisfied

end CompletedItemEvidence

structure SelectedItemComparisonEvidence where
  hasComparison : Bool := false
  anySatisfied : StateResult := .ok notSatisfied

namespace SelectedItemComparisonEvidence

def addComparison (evidence : SelectedItemComparisonEvidence) (comparison : StateResult) :
    SelectedItemComparisonEvidence :=
  { hasComparison := true
    anySatisfied :=
      match evidence.anySatisfied with
      | .error e => .error e
      | .ok any =>
        match validateStateSatisfaction comparison with
        | .error e => .error e
        | .ok satisfied => .ok satisfied
        | .ok _ => .ok any }

def hasComparisons (evidence : SelectedItemComparisonEvidence) : Bool := evidence.hasComparison

def anyComparisonSatisfied (evidence : SelectedItemComparisonEvidence) : StateResult :=
  if !evidence.hasComparison then .error noComparisons else evidence.anySatisfied

/-- The evidence after these comparisons. -/
def compared (comparisons : List StateResult) : SelectedItemComparisonEvidence := comparisons.foldl addComparison {}

end SelectedItemComparisonEvidence

structure SelectedItemsEvidence where
  items : CompletedItemEvidence := {}
  hasEmptyItem : Bool := false

namespace SelectedItemsEvidence

def addItem (assessment : StateResult) (evidence : SelectedItemsEvidence) : SelectedItemsEvidence :=
  { evidence with items := evidence.items.addSelected assessment }

/-- The other overload of `AddItem`. -/
def addComparedItem (item : SelectedItemComparisonEvidence) (evidence : SelectedItemsEvidence) : SelectedItemsEvidence :=
  if !item.hasComparisons then { items := evidence.items.addSelected (.ok notSatisfied), hasEmptyItem := true }
  else { evidence with items := evidence.items.addSelected item.anyComparisonSatisfied }

def recordCollectionError (error : Error) (evidence : SelectedItemsEvidence) : SelectedItemsEvidence :=
  { evidence with items := evidence.items.recordError error }

def hasSelectedItems (evidence : SelectedItemsEvidence) : Bool := evidence.items.hasSelectedItems

def allSelectedItemsSatisfied (evidence : SelectedItemsEvidence) : StateResult :=
  match evidence.items.allSelectedStatesSatisfied with
  | .error e => .error e
  | .ok state => if evidence.hasEmptyItem then .error noComparisons else .ok state

end SelectedItemsEvidence

/-- A call on the evidence of completed items. -/
inductive StateCall where
  | addSelected (state : StateResult)
  | recordError (error : Error)
  deriving DecidableEq

namespace StateCall

def apply (evidence : CompletedItemEvidence) : StateCall → CompletedItemEvidence
  | addSelected state => evidence.addSelected state
  | recordError error => evidence.recordError error

def input : StateCall → StateResult
  | addSelected state => validateStateSatisfaction state
  | recordError error => .error error

end StateCall

/-- The evidence after these calls. -/
def completed (calls : List StateCall) : CompletedItemEvidence := calls.foldl StateCall.apply {}

/-- A call on the evidence of selected items; an item comes with all its comparisons. -/
inductive ItemCall where
  | addItem (assessment : StateResult)
  | addComparedItem (comparisons : List StateResult)
  | recordCollectionError (error : Error)

namespace ItemCall

def apply (evidence : SelectedItemsEvidence) : ItemCall → SelectedItemsEvidence
  | addItem assessment => evidence.addItem assessment
  | addComparedItem comparisons => evidence.addComparedItem (.compared comparisons)
  | recordCollectionError error => evidence.recordCollectionError error

/-- Without comparisons an item is not satisfied. -/
def state : ItemCall → StateCall
  | addItem assessment => .addSelected assessment
  | addComparedItem [] => .addSelected (.ok notSatisfied)
  | addComparedItem (comparison :: more) =>
    .addSelected (SelectedItemComparisonEvidence.compared (comparison :: more)).anyComparisonSatisfied
  | recordCollectionError error => .recordError error

def isEmpty : ItemCall → Bool
  | addComparedItem [] => true
  | _ => false

end ItemCall

def selected (calls : List ItemCall) : SelectedItemsEvidence := calls.foldl ItemCall.apply {}

/-- Not satisfied once, not satisfied for good. -/
def worse (all state : StateSatisfaction) : StateSatisfaction := if state = notSatisfied then notSatisfied else all

/-- Satisfied once, satisfied for good. -/
def better (any state : StateSatisfaction) : StateSatisfaction := if state = satisfied then satisfied else any

instance : RightCommutative worse where
  right_comm all a b := by
    unfold worse
    split_ifs <;> rfl

instance : RightCommutative better where
  right_comm any a b := by
    unfold better
    split_ifs <;> rfl

section Completed

theorem apply_allSatisfied (evidence : CompletedItemEvidence) (call : StateCall) :
    (call.apply evidence).allSatisfied = sticky worse evidence.allSatisfied call.input := by
  cases call with
  | addSelected state =>
    rw [StateCall.apply, CompletedItemEvidence.addSelected, StateCall.input]
    cases evidence.allSatisfied with
    | error e => rfl
    | ok all => rcases validateStateSatisfaction state with _ | (_ | _ | _) <;> rfl
  | recordError error =>
    rw [StateCall.apply, CompletedItemEvidence.recordError, StateCall.input]
    cases h : evidence.allSatisfied with
    | error e =>
      dsimp only
      rw [h]
      rfl
    | ok all => rfl

theorem foldl_allSatisfied (calls : List StateCall) (evidence : CompletedItemEvidence) :
    (calls.foldl StateCall.apply evidence).allSatisfied =
      (calls.map StateCall.input).foldl (sticky worse) evidence.allSatisfied := by
  induction calls generalizing evidence with
  | nil => rfl
  | cons call calls ih => rw [List.foldl_cons, ih, apply_allSatisfied, List.map_cons, List.foldl_cons]

theorem completed_eq (calls : List StateCall) : (completed calls).allSelectedStatesSatisfied =
    (calls.map StateCall.input).foldl (sticky worse) (.ok satisfied) :=
  foldl_allSatisfied calls {}

theorem foldl_worse (states : List StateSatisfaction) (all : StateSatisfaction) :
    states.foldl worse all = if notSatisfied ∈ states then notSatisfied else all := by
  induction states generalizing all with
  | nil => rfl
  | cons state states ih =>
    rw [List.foldl_cons, ih, worse]
    by_cases hstate : state = notSatisfied
    · rw [if_pos hstate, ite_self, if_pos (by rw [hstate]; exact List.mem_cons_self)]
    · rw [if_neg hstate]
      refine if_congr ?_ rfl rfl
      rw [List.mem_cons, or_iff_right (Ne.symm hstate)]

theorem validate_eq_ok {state : StateResult} {value : StateSatisfaction} (h : validateStateSatisfaction state = .ok value) :
    state = .ok value ∧ (value = satisfied ∨ value = notSatisfied) := by
  rcases state with _ | (_ | _ | _)
  · cases h
  · cases h
    exact ⟨rfl, .inl rfl⟩
  · cases h
    exact ⟨rfl, .inr rfl⟩
  · cases h

/-- Without an error, the states are satisfied where none is not. -/
theorem completed_of_none {calls : List StateCall} (h : firstError (calls.map StateCall.input) = none) :
    (completed calls).allSelectedStatesSatisfied =
      .ok (if .addSelected (.ok notSatisfied) ∈ calls then notSatisfied else satisfied) := by
  rw [completed_eq, foldl_sticky_of_none _ h, foldl_worse]
  refine congrArg Except.ok (if_congr ?_ rfl rfl)
  simp only [List.mem_filterMap, List.mem_map, exists_exists_and_eq_and]
  constructor
  · rintro ⟨call, hcall, hstate⟩
    cases call with
    | addSelected state =>
      cases hinput : validateStateSatisfaction state with
      | error e =>
        rw [StateCall.input, hinput] at hstate
        cases hstate
      | ok value =>
        rw [StateCall.input, hinput] at hstate
        cases hstate
        exact (validate_eq_ok hinput).1 ▸ hcall
    | recordError error => cases hstate
  · intro hmem
    exact ⟨_, hmem, rfl⟩

theorem satisfied_iff {calls : List StateCall} (h : firstError (calls.map StateCall.input) = none) :
    StateCall.addSelected (.ok notSatisfied) ∉ calls ↔ ∀ state, StateCall.addSelected state ∈ calls → state = .ok satisfied := by
  rw [firstError_eq_none] at h
  constructor
  · intro hmem state hstate
    obtain ⟨value, hvalue⟩ := h _ (List.mem_map_of_mem hstate)
    obtain ⟨rfl, rfl | rfl⟩ := validate_eq_ok hvalue
    · rfl
    · exact absurd hstate hmem
  · intro hall hmem
    cases hall _ hmem

end Completed

section Comparisons

open SelectedItemComparisonEvidence

theorem addComparison_anySatisfied (evidence : SelectedItemComparisonEvidence) (comparison : StateResult) :
    (evidence.addComparison comparison).anySatisfied =
      sticky better evidence.anySatisfied (validateStateSatisfaction comparison) := by
  rw [addComparison]
  cases evidence.anySatisfied with
  | error e => rfl
  | ok any => rcases validateStateSatisfaction comparison with _ | (_ | _ | _) <;> rfl

theorem foldl_anySatisfied (comparisons : List StateResult) (evidence : SelectedItemComparisonEvidence) :
    (comparisons.foldl addComparison evidence).anySatisfied =
      (comparisons.map validateStateSatisfaction).foldl (sticky better) evidence.anySatisfied := by
  induction comparisons generalizing evidence with
  | nil => rfl
  | cons comparison comparisons ih =>
    rw [List.foldl_cons, ih, addComparison_anySatisfied, List.map_cons, List.foldl_cons]

theorem foldl_hasComparison (comparisons : List StateResult) (evidence : SelectedItemComparisonEvidence) :
    (comparisons.foldl addComparison evidence).hasComparison = (evidence.hasComparison || !comparisons.isEmpty) := by
  induction comparisons generalizing evidence with
  | nil => simp
  | cons comparison comparisons ih => simp [ih, addComparison]

theorem compared_hasComparison (comparisons : List StateResult) :
    (compared comparisons).hasComparison = !comparisons.isEmpty := foldl_hasComparison comparisons {}

theorem compared_cons (comparison : StateResult) (more : List StateResult) :
    (compared (comparison :: more)).anyComparisonSatisfied =
      ((comparison :: more).map validateStateSatisfaction).foldl (sticky better) (.ok notSatisfied) := by
  rw [anyComparisonSatisfied, compared_hasComparison, if_neg (by simp)]
  exact foldl_anySatisfied _ {}

theorem foldl_better (states : List StateSatisfaction) (any : StateSatisfaction) :
    states.foldl better any = if satisfied ∈ states then satisfied else any := by
  induction states generalizing any with
  | nil => rfl
  | cons state states ih =>
    rw [List.foldl_cons, ih, better]
    by_cases hstate : state = satisfied
    · rw [if_pos hstate, ite_self, if_pos (by rw [hstate]; exact List.mem_cons_self)]
    · rw [if_neg hstate]
      refine if_congr ?_ rfl rfl
      rw [List.mem_cons, or_iff_right (Ne.symm hstate)]

theorem mem_validated {comparisons : List StateResult} :
    satisfied ∈ (comparisons.map validateStateSatisfaction).filterMap Except.toOption ↔ .ok satisfied ∈ comparisons := by
  simp only [List.mem_filterMap, List.mem_map, exists_exists_and_eq_and]
  constructor
  · rintro ⟨state, hstate, hvalue⟩
    cases hinput : validateStateSatisfaction state with
    | error e =>
      rw [hinput] at hvalue
      cases hvalue
    | ok value =>
      rw [hinput] at hvalue
      cases hvalue
      exact (validate_eq_ok hinput).1 ▸ hstate
  · intro hmem
    exact ⟨_, hmem, rfl⟩

theorem compared_of_some {comparisons : List StateResult} {e : Error}
    (h : firstError (comparisons.map validateStateSatisfaction) = some e) :
    (compared comparisons).anyComparisonSatisfied = .error e := by
  cases comparisons with
  | nil => cases h
  | cons comparison more => rw [compared_cons, foldl_sticky_of_some _ h]

/-- Without an error, the comparisons are satisfied where one is, and not satisfied where none is. -/
theorem compared_of_none {comparisons : List StateResult}
    (h : firstError (comparisons.map validateStateSatisfaction) = none) :
    ((compared comparisons).anyComparisonSatisfied = .ok satisfied ↔ .ok satisfied ∈ comparisons) ∧
      (comparisons ≠ [] → (compared comparisons).anyComparisonSatisfied ≠ .ok satisfied →
        (compared comparisons).anyComparisonSatisfied = .ok notSatisfied) := by
  cases comparisons with
  | nil => exact ⟨by simp [compared, anyComparisonSatisfied], fun hne => absurd rfl hne⟩
  | cons comparison more =>
    rw [compared_cons, foldl_sticky_of_none _ h, foldl_better, ← mem_validated, Except.ok.injEq]
    split_ifs with hmem
    · exact ⟨iff_of_true rfl hmem, fun _ hnot => absurd rfl hnot⟩
    · exact ⟨iff_of_false (nomatch ·) hmem, fun _ _ => rfl⟩

theorem compared_perm {comparisons others : List StateResult} (h : comparisons.Perm others) :
    (compared comparisons).anyComparisonSatisfied.toOption = (compared others).anyComparisonSatisfied.toOption := by
  cases comparisons with
  | nil => rw [h.nil_eq]
  | cons comparison more =>
    cases others with
    | nil => cases h.eq_nil
    | cons other rest =>
      rw [compared_cons, compared_cons]
      exact toOption_foldl_sticky_perm _ ((h.map _).map _)

end Comparisons

section Items

theorem apply_items (evidence : SelectedItemsEvidence) (call : ItemCall) :
    (call.apply evidence).items = call.state.apply evidence.items := by
  rcases call with assessment | (_ | ⟨comparison, more⟩) | error
  · rfl
  · rfl
  · rw [ItemCall.apply, SelectedItemsEvidence.addComparedItem, SelectedItemComparisonEvidence.hasComparisons,
      compared_hasComparison, if_neg (by simp)]
    rfl
  · rfl

theorem apply_hasEmptyItem (evidence : SelectedItemsEvidence) (call : ItemCall) :
    (call.apply evidence).hasEmptyItem = (evidence.hasEmptyItem || call.isEmpty) := by
  rcases call with assessment | (_ | ⟨comparison, more⟩) | error
  · exact (Bool.or_false _).symm
  · exact (Bool.or_true _).symm
  · rw [ItemCall.apply, SelectedItemsEvidence.addComparedItem, SelectedItemComparisonEvidence.hasComparisons,
      compared_hasComparison, if_neg (by simp)]
    exact (Bool.or_false _).symm
  · exact (Bool.or_false _).symm

theorem foldl_items (calls : List ItemCall) (evidence : SelectedItemsEvidence) :
    (calls.foldl ItemCall.apply evidence).items = (calls.map ItemCall.state).foldl StateCall.apply evidence.items ∧
      (calls.foldl ItemCall.apply evidence).hasEmptyItem = (evidence.hasEmptyItem || calls.any ItemCall.isEmpty) := by
  induction calls generalizing evidence with
  | nil => exact ⟨rfl, (Bool.or_false _).symm⟩
  | cons call calls ih =>
    obtain ⟨hitems, hempty⟩ := ih (call.apply evidence)
    rw [List.foldl_cons, hitems, hempty, apply_items, apply_hasEmptyItem, List.map_cons, List.foldl_cons, List.any_cons,
      Bool.or_assoc]
    exact ⟨rfl, rfl⟩

theorem selected_eq (calls : List ItemCall) : (selected calls).allSelectedItemsSatisfied =
    match (completed (calls.map ItemCall.state)).allSelectedStatesSatisfied with
    | .error e => .error e
    | .ok state => if calls.any ItemCall.isEmpty then .error noComparisons else .ok state := by
  obtain ⟨hitems, hempty⟩ := foldl_items calls {}
  rw [SelectedItemsEvidence.allSelectedItemsSatisfied, selected, hitems, hempty, Bool.false_or]
  rfl

/-- The same call, but for the order of an item's comparisons. -/
inductive SameCall : ItemCall → ItemCall → Prop where
  | addItem (assessment : StateResult) : SameCall (.addItem assessment) (.addItem assessment)
  | addComparedItem {comparisons others : List StateResult} (perm : comparisons.Perm others) :
    SameCall (.addComparedItem comparisons) (.addComparedItem others)
  | recordCollectionError (error : Error) : SameCall (.recordCollectionError error) (.recordCollectionError error)

/-- The calls in another order, and the comparisons of each item too. -/
def Rearranged (calls others : List ItemCall) : Prop :=
  ∃ between, calls.Perm between ∧ List.Forall₂ SameCall between others

theorem validate_toOption {state other : StateResult} (h : state.toOption = other.toOption) :
    (validateStateSatisfaction state).toOption = (validateStateSatisfaction other).toOption := by
  cases state with
  | error e =>
    cases other with
    | error e' => rfl
    | ok value => cases h
  | ok value =>
    cases other with
    | error e' => cases h
    | ok value' =>
      cases h
      rfl

theorem SameCall.input {call other : ItemCall} (h : SameCall call other) :
    call.state.input.toOption = other.state.input.toOption := by
  cases h with
  | addItem assessment => rfl
  | @addComparedItem comparisons others perm =>
    cases comparisons with
    | nil => rw [perm.nil_eq]
    | cons comparison more =>
      cases others with
      | nil => cases perm.eq_nil
      | cons other rest => exact validate_toOption (compared_perm perm)
  | recordCollectionError error => rfl

theorem SameCall.isEmpty {call other : ItemCall} (h : SameCall call other) : call.isEmpty = other.isEmpty := by
  cases h with
  | addItem assessment => rfl
  | @addComparedItem comparisons others perm =>
    cases comparisons with
    | nil => rw [perm.nil_eq]
    | cons comparison more =>
      cases others with
      | nil => cases perm.eq_nil
      | cons other rest => rfl
  | recordCollectionError error => rfl

theorem Rearranged.inputs {calls others : List ItemCall} (h : Rearranged calls others) :
    (((calls.map ItemCall.state).map StateCall.input).map Except.toOption).Perm
      (((others.map ItemCall.state).map StateCall.input).map Except.toOption) := by
  obtain ⟨between, hperm, hsame⟩ := h
  refine (((hperm.map _).map _).map _).trans (List.Perm.of_eq ?_)
  clear hperm
  induction hsame with
  | nil => rfl
  | cons hcall _ ih =>
    simp only [List.map_cons]
    rw [hcall.input, ih]

theorem Rearranged.any_isEmpty {calls others : List ItemCall} (h : Rearranged calls others) :
    calls.any ItemCall.isEmpty = others.any ItemCall.isEmpty := by
  obtain ⟨between, hperm, hsame⟩ := h
  rw [hperm.any_eq]
  clear hperm
  induction hsame with
  | nil => rfl
  | cons hcall _ ih => rw [List.any_cons, List.any_cons, hcall.isEmpty, ih]

end Items

/-- In each of the three, the first error decides, and the states otherwise; in what order they come decides neither
whether there is an error nor the verdict without. -/
theorem evidence_orderless :
    (∀ calls : List StateCall,
      (∀ e, firstError (calls.map StateCall.input) = some e → (completed calls).allSelectedStatesSatisfied = .error e) ∧
      (firstError (calls.map StateCall.input) = none →
        ((completed calls).allSelectedStatesSatisfied = .ok satisfied ↔
          ∀ state, .addSelected state ∈ calls → state = .ok satisfied) ∧
        ((completed calls).allSelectedStatesSatisfied ≠ .ok satisfied →
          (completed calls).allSelectedStatesSatisfied = .ok notSatisfied)) ∧
      ∀ others, calls.Perm others →
        (completed calls).allSelectedStatesSatisfied.toOption = (completed others).allSelectedStatesSatisfied.toOption) ∧
    (∀ comparisons : List StateResult,
      (∀ e, firstError (comparisons.map validateStateSatisfaction) = some e →
        (SelectedItemComparisonEvidence.compared comparisons).anyComparisonSatisfied = .error e) ∧
      (firstError (comparisons.map validateStateSatisfaction) = none →
        ((SelectedItemComparisonEvidence.compared comparisons).anyComparisonSatisfied = .ok satisfied ↔
          .ok satisfied ∈ comparisons) ∧
        (comparisons ≠ [] →
          (SelectedItemComparisonEvidence.compared comparisons).anyComparisonSatisfied ≠ .ok satisfied →
            (SelectedItemComparisonEvidence.compared comparisons).anyComparisonSatisfied = .ok notSatisfied)) ∧
      ∀ others, comparisons.Perm others →
        (SelectedItemComparisonEvidence.compared comparisons).anyComparisonSatisfied.toOption =
          (SelectedItemComparisonEvidence.compared others).anyComparisonSatisfied.toOption) ∧
    ∀ calls : List ItemCall,
      (∀ e, firstError ((calls.map ItemCall.state).map StateCall.input) = some e →
        (selected calls).allSelectedItemsSatisfied = .error e) ∧
      (firstError ((calls.map ItemCall.state).map StateCall.input) = none →
        ((∃ call ∈ calls, call.isEmpty) → (selected calls).allSelectedItemsSatisfied = .error noComparisons) ∧
        ((¬ ∃ call ∈ calls, call.isEmpty) →
          ((selected calls).allSelectedItemsSatisfied = .ok satisfied ↔
            ∀ state, .addSelected state ∈ calls.map ItemCall.state → state = .ok satisfied) ∧
          ((selected calls).allSelectedItemsSatisfied ≠ .ok satisfied →
            (selected calls).allSelectedItemsSatisfied = .ok notSatisfied))) ∧
      ∀ others, Rearranged calls others →
        (selected calls).allSelectedItemsSatisfied.toOption = (selected others).allSelectedItemsSatisfied.toOption := by
  have hcompleted : ∀ calls : List StateCall, firstError (calls.map StateCall.input) = none →
      ((completed calls).allSelectedStatesSatisfied = .ok satisfied ↔
        ∀ state, .addSelected state ∈ calls → state = .ok satisfied) ∧
      ((completed calls).allSelectedStatesSatisfied ≠ .ok satisfied →
        (completed calls).allSelectedStatesSatisfied = .ok notSatisfied) := by
    intro calls hnone
    rw [completed_of_none hnone, ← satisfied_iff hnone]
    split_ifs with hmem
    · exact ⟨iff_of_false (nomatch ·) (not_not_intro hmem), fun _ => rfl⟩
    · exact ⟨iff_of_true rfl hmem, fun h => absurd rfl h⟩
  refine ⟨fun calls => ⟨?_, hcompleted calls, ?_⟩, fun comparisons => ⟨?_, compared_of_none, ?_⟩, fun calls => ⟨?_, ?_, ?_⟩⟩
  · intro e he
    rw [completed_eq, foldl_sticky_of_some _ he]
  · intro others hperm
    rw [completed_eq, completed_eq]
    exact toOption_foldl_sticky_perm _ ((hperm.map _).map _)
  · exact fun e he => compared_of_some he
  · exact fun others hperm => compared_perm hperm
  · intro e he
    rw [selected_eq, completed_eq, foldl_sticky_of_some _ he]
  · intro hnone
    have hstates := hcompleted _ hnone
    rw [selected_eq, completed_of_none hnone]
    rw [completed_of_none hnone] at hstates
    dsimp only
    constructor
    · intro hempty
      rw [if_pos (List.any_eq_true.mpr hempty)]
    · intro hempty
      rw [if_neg (by rwa [List.any_eq_true])]
      exact hstates
  · intro others h
    have hstates := @toOption_foldl_sticky_perm _ _ _ worse _ _ _ (.ok satisfied) h.inputs
    rw [← completed_eq, ← completed_eq] at hstates
    rw [selected_eq, selected_eq, h.any_isEmpty]
    cases hcalls : (completed (calls.map ItemCall.state)).allSelectedStatesSatisfied with
    | error e =>
      cases hothers : (completed (others.map ItemCall.state)).allSelectedStatesSatisfied with
      | error e' => rfl
      | ok state =>
        rw [hcalls, hothers] at hstates
        cases hstates
    | ok state =>
      cases hothers : (completed (others.map ItemCall.state)).allSelectedStatesSatisfied with
      | error e' =>
        rw [hcalls, hothers] at hstates
        cases hstates
      | ok state' =>
        rw [hcalls, hothers] at hstates
        cases hstates
        rfl

/-- An error stays, whatever is satisfied before or after it. -/
example : (completed [.addSelected (.ok satisfied), .recordError noComparisons, .addSelected (.ok notSatisfied)]).allSelectedStatesSatisfied
    = .error noComparisons := rfl

end Kompli.ResultEvidence
