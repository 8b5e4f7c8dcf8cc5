import Kompli.ComplianceEngine.MmiResults
import Mathlib.Algebra.Group.Int.Defs

/-! Comparisons of two values of one type, and what comparing two machine integers says of the numbers they stand for. -/
namespace Kompli

inductive TypedComparisonOperation where
  | equal
  | notEqual
  | lessThan
  | lessOrEqual
  | greaterThan
  | greaterOrEqual
  deriving DecidableEq, Repr

/-- `CompareTyped`, which has an error for no operation of the enumeration. -/
def compareTyped {α : Type} [DecidableEq α] [LT α] [DecidableLT α] [LE α] [DecidableLE α] (lhs rhs : α) :
    TypedComparisonOperation → Bool
  | .equal => lhs = rhs
  | .notEqual => lhs ≠ rhs
  | .lessThan => lhs < rhs
  | .lessOrEqual => lhs ≤ rhs
  | .greaterThan => lhs > rhs
  | .greaterOrEqual => lhs ≥ rhs

namespace TypedComparisonOperation

/-- The comparison of two integers of any size. -/
def Holds (operation : TypedComparisonOperation) (lhs rhs : Int) : Prop :=
  match operation with
  | .equal => lhs = rhs
  | .notEqual => lhs ≠ rhs
  | .lessThan => lhs < rhs
  | .lessOrEqual => lhs ≤ rhs
  | .greaterThan => rhs < lhs
  | .greaterOrEqual => rhs ≤ lhs

instance (operation : TypedComparisonOperation) (lhs rhs : Int) : Decidable (operation.Holds lhs rhs) :=
  match operation with
  | .equal => inferInstanceAs (Decidable (lhs = rhs))
  | .notEqual => inferInstanceAs (Decidable (lhs ≠ rhs))
  | .lessThan => inferInstanceAs (Decidable (lhs < rhs))
  | .lessOrEqual => inferInstanceAs (Decidable (lhs ≤ rhs))
  | .greaterThan => inferInstanceAs (Decidable (rhs < lhs))
  | .greaterOrEqual => inferInstanceAs (Decidable (rhs ≤ lhs))

/-- The integers that an `int` stands for. -/
def Fits (number : Int) : Prop := -2 ^ 31 ≤ number ∧ number < 2 ^ 31

instance (number : Int) : Decidable (Fits number) := inferInstanceAs (Decidable (_ ∧ _))

theorem compareTyped_iff (lhs rhs : Int32) (operation : TypedComparisonOperation) :
    compareTyped lhs rhs operation = true ↔ operation.Holds lhs.toInt rhs.toInt := by
  cases operation <;>
    simp only [compareTyped, Holds, decide_eq_true_eq, GT.gt, GE.ge, Int32.lt_iff_toInt_lt, Int32.le_iff_toInt_le,
      ← Int32.toInt_inj, ne_eq]

theorem toInt_of_fits {number : Int64} (h : Fits number.toInt) : number.toInt32.toInt = number.toInt := by
  obtain ⟨hlow, hhigh⟩ := h
  rw [Int64.toInt_toInt32]
  exact Int.bmod_eq_of_le (by omega) (by omega)

/-- Two numbers are compared as they are where both fit. -/
theorem compareTyped_of_fits {lhs rhs : Int64} (hlhs : Fits lhs.toInt) (hrhs : Fits rhs.toInt)
    (operation : TypedComparisonOperation) :
    compareTyped lhs.toInt32 rhs.toInt32 operation = true ↔ operation.Holds lhs.toInt rhs.toInt := by
  rw [compareTyped_iff, toInt_of_fits hlhs, toInt_of_fits hrhs]

end TypedComparisonOperation

end Kompli
