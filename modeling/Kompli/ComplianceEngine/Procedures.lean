import Kompli.ComplianceEngine.Indicators

/-! Procedures, seen from their callers: what a call returns, what it does to the
tree of indicators, and what it does to the system (`W`) behind its context. -/
namespace Kompli

abbrev ParameterMap := ByteMap Bytes

theorem TreeOp.depthAfter_nil : (TreeOp.depthAfter 0 []).isSome = true := rfl

/-- No procedure closes a node that it did not open. -/
structure ActionOutcome (W : Type) where
  result : Except Error Status
  ops : List TreeOp := []
  context : W
  closesOwn : (TreeOp.depthAfter 0 ops).isSome = true := by first | exact TreeOp.depthAfter_nil | decide

/-- The nodes a call opened and did not close. -/
def ActionOutcome.leaked {W : Type} (outcome : ActionOutcome W) : Nat :=
  (TreeOp.depthAfter 0 outcome.ops).get outcome.closesOwn

abbrev ActionFunc (W : Type) := ParameterMap → W → ActionOutcome W

structure ProcedureActions (W : Type) where
  audit : Option (ActionFunc W) := none
  remediate : Option (ActionFunc W) := none

abbrev ProcedureMap (W : Type) := ByteMap (ProcedureActions W)

end Kompli
