import Kompli.Foundation.Bytes
import Kompli.Foundation.Kleene

/-! Statuses and errors. NotApplicable is the unknown value of a three-valued
logic in which Compliant is true and NonCompliant is false. -/
namespace Kompli

structure Error where
  message : Bytes
  code : Int := -1
  deriving DecidableEq, Repr

def ENOENT : Int := 2
def ENOMEM : Int := 12
def EINVAL : Int := 22

inductive Status where
  | compliant
  | nonCompliant
  | notApplicable
  deriving DecidableEq, Repr

/-- `std::to_string`. -/
def Status.toBytes : Status → Bytes
  | .compliant => utf8 "Compliant"
  | .notApplicable => utf8 "NotApplicable"
  | .nonCompliant => utf8 "NonCompliant"

def combineAllOf (a b : Status) : Status :=
  if a = .nonCompliant ∨ b = .nonCompliant then .nonCompliant
  else if a = .notApplicable ∨ b = .notApplicable then .notApplicable
  else .compliant

structure AuditResult where
  status : Status
  payload : Bytes
  deriving DecidableEq, Repr

inductive Action where
  | audit
  | remediate
  deriving DecidableEq, Repr

namespace Status

/-- How much of the truth a status has. -/
def truth : Status → Nat
  | .nonCompliant => 0
  | .notApplicable => 1
  | .compliant => 2

theorem truth_injective : Function.Injective truth := by
  intro a b h
  cases a <;> cases b <;> first | rfl | (simp [truth] at h)

instance : LinearOrder Status := LinearOrder.lift' truth truth_injective

instance : BoundedOrder Status where
  top := .compliant
  le_top a := by cases a <;> decide
  bot := .nonCompliant
  bot_le a := by cases a <;> decide

def neg : Status → Status
  | .compliant => .nonCompliant
  | .nonCompliant => .compliant
  | .notApplicable => .notApplicable

/-- Negation exchanges true and false, keeps the unknown, and reverses the order. -/
def negIso : Status ≃o Statusᵒᵈ where
  toFun a := OrderDual.toDual a.neg
  invFun a := (OrderDual.ofDual a).neg
  left_inv a := by cases a <;> rfl
  right_inv a := by induction a using OrderDual.rec with | toDual a => cases a <;> rfl
  map_rel_iff' := by
    intro a b
    cases a <;> cases b <;> decide

theorem combineAllOf_eq_inf (a b : Status) : combineAllOf a b = a ⊓ b := by
  cases a <;> cases b <;> decide

end Status
end Kompli
