import Kompli.ComplianceEngine.Procedures
import Kompli.Foundation.StateRule

/-! The state of one evaluator, with the record of what an evaluation did. The
record is not in the source: no function below reads it. -/
namespace Kompli
open Foundation

abbrev Path := Formula.Path

inductive Event (W : Type) where
  /-- A leaf of the payload returned. -/
  | leaf (path : Path) (result : Except Error Status)
  /-- A function of a procedure was called, by a leaf or by its script. -/
  | invoked (path : Path) (procedure : Bytes) (kind : Action) (arguments : ParameterMap)
      (indicators : IndicatorsTree) (before : W) (outcome : ActionOutcome W)
  /-- A script changed the tree of indicators itself. -/
  | scriptOps (path : Path) (ops : List TreeOp) (indicators : IndicatorsTree)

/-- `LuaCallContext`: what the closures called by a script read from the Lua registry. -/
structure LuaCallContext where
  action : Action
  indicatorsDepth : Nat := 0
  deriving DecidableEq, Repr

/-- `luaGlobals` is what the scripts of one evaluator share. -/
structure EvalState (W G : Type) where
  indicators : IndicatorsTree
  context : W
  luaGlobals : G
  luaCallContext : Option LuaCallContext := none
  trace : List (Event W) := []

abbrev EvalM (W G : Type) := EStateM Error (EvalState W G)

namespace EvalState

variable {W G : Type}

def applyOps (ops : List TreeOp) (s : EvalState W G) : EvalState W G :=
  { s with indicators := TreeOp.applyAll ops s.indicators }

def record (event : Event W) (s : EvalState W G) : EvalState W G :=
  { s with trace := s.trace ++ [event] }

@[simp] theorem applyOps_trace (ops : List TreeOp) (s : EvalState W G) :
    (s.applyOps ops).trace = s.trace := rfl
@[simp] theorem applyOps_context (ops : List TreeOp) (s : EvalState W G) :
    (s.applyOps ops).context = s.context := rfl
@[simp] theorem applyOps_indicators (ops : List TreeOp) (s : EvalState W G) :
    (s.applyOps ops).indicators = TreeOp.applyAll ops s.indicators := rfl
@[simp] theorem record_trace (event : Event W) (s : EvalState W G) :
    (s.record event).trace = s.trace ++ [event] := rfl
@[simp] theorem record_context (event : Event W) (s : EvalState W G) :
    (s.record event).context = s.context := rfl
@[simp] theorem record_indicators (event : Event W) (s : EvalState W G) :
    (s.record event).indicators = s.indicators := rfl

end EvalState

/-- The state after a call of a function of a procedure. -/
def EvalState.invoked {W G : Type} (path : Path) (procedure : Bytes) (kind : Action)
    (function : ActionFunc W) (arguments : ParameterMap) (s : EvalState W G) : EvalState W G :=
  let outcome := function arguments s.context
  { s with context := outcome.context }.applyOps outcome.ops |>.record
    (.invoked path procedure kind arguments s.indicators s.context outcome)

/-- Call a function of a procedure on the evaluator's tree and context. -/
def invoke {W G : Type} (path : Path) (procedure : Bytes) (kind : Action) (function : ActionFunc W)
    (arguments : ParameterMap) : EvalM W G (Except Error Status) := fun s =>
  .ok (function arguments s.context).result (s.invoked path procedure kind function arguments)

end Kompli
