import Mathlib.Data.List.Perm.Basic
import Mathlib.Data.Option.NAry

/-! Accumulators that keep the first error they are given and add up values until then. -/
namespace Kompli.Foundation

variable {ε α β : Type}

/-- Nothing is added to an error. -/
def sticky (op : α → β → α) (total : Except ε α) (input : Except ε β) : Except ε α :=
  match total, input with
  | .error e, _ => .error e
  | .ok _, .error e => .error e
  | .ok a, .ok b => .ok (op a b)

def errorOf : Except ε β → Option ε
  | .error e => some e
  | .ok _ => none

def firstError (inputs : List (Except ε β)) : Option ε := inputs.findSome? errorOf

variable {op : α → β → α} {inputs others : List (Except ε β)}

@[simp] theorem firstError_nil : firstError ([] : List (Except ε β)) = none := rfl

@[simp] theorem firstError_error (e : ε) : firstError (.error e :: inputs) = some e := rfl

@[simp] theorem firstError_ok (b : β) : firstError (.ok b :: inputs) = firstError inputs := rfl

theorem firstError_eq_none : firstError inputs = none ↔ ∀ input ∈ inputs, ∃ b, input = .ok b := by
  rw [firstError, List.findSome?_eq_none_iff]
  refine forall₂_congr fun input _ => ?_
  cases input <;> simp [errorOf]

@[simp] theorem foldl_sticky_error (e : ε) : inputs.foldl (sticky op) (.error e) = .error e := by
  induction inputs with
  | nil => rfl
  | cons input inputs ih => exact ih

/-- The first error is the total. -/
theorem foldl_sticky_of_some {e : ε} (a : α) (h : firstError inputs = some e) :
    inputs.foldl (sticky op) (.ok a) = .error e := by
  induction inputs generalizing a with
  | nil => cases h
  | cons input inputs ih =>
    cases input with
    | error other =>
      cases h
      exact foldl_sticky_error e
    | ok b => exact ih (op a b) h

/-- Where there is no error the values are added up. -/
theorem foldl_sticky_of_none (a : α) (h : firstError inputs = none) :
    inputs.foldl (sticky op) (.ok a) = .ok ((inputs.filterMap Except.toOption).foldl op a) := by
  induction inputs generalizing a with
  | nil => rfl
  | cons input inputs ih =>
    cases input with
    | error other => cases h
    | ok b => exact ih (op a b) h

theorem toOption_foldl_sticky (total : Except ε α) : (inputs.foldl (sticky op) total).toOption =
    (inputs.map Except.toOption).foldl (Option.map₂ op) total.toOption := by
  induction inputs generalizing total with
  | nil => rfl
  | cons input inputs ih =>
    rw [List.foldl_cons, ih, List.map_cons, List.foldl_cons]
    congr 1
    cases total <;> cases input <;> rfl

instance rightCommutative_map₂ [hcomm : RightCommutative op] : RightCommutative (Option.map₂ op) where
  right_comm := by
    rintro (_ | a) (_ | b) (_ | c) <;> first | rfl | exact congrArg some (hcomm.right_comm a b c)

/-- Which error it is may depend on the order, but not whether there is one, nor the total without. -/
theorem toOption_foldl_sticky_perm [RightCommutative op] (total : Except ε α)
    (h : (inputs.map Except.toOption).Perm (others.map Except.toOption)) :
    (inputs.foldl (sticky op) total).toOption = (others.foldl (sticky op) total).toOption := by
  rw [toOption_foldl_sticky, toOption_foldl_sticky]
  exact h.foldl_eq _

end Kompli.Foundation
