import Kompli.ComplianceEngine.LuaEvaluator
import Kompli.Parson.Value

/-! The evaluation of a payload tree. -/
namespace Kompli
open Foundation

/-- What an evaluation reads: the procedures, the rule's parameters and the interpreter. -/
structure Evaluator (W G : Type) where
  procedureMap : ProcedureMap W
  parameters : ParameterMap
  lua : LuaVm W G

inductive ListAction where
  | anyOf
  | allOf
  deriving DecidableEq, Repr

def anyOfName : Bytes := utf8 "anyOf"
def allOfName : Bytes := utf8 "allOf"
def notName : Bytes := utf8 "not"
def luaName : Bytes := utf8 "Lua"

namespace ListAction

def name : ListAction → Bytes
  | .anyOf => anyOfName
  | .allOf => allOfName

def unit : ListAction → Status
  | .anyOf => .nonCompliant
  | .allOf => .compliant

def step (i : Nat) : ListAction → Formula.Step
  | .anyOf => .anyOf i
  | .allOf => .allOf i

/-- The status that decides a list. -/
def decisive : ListAction → Status
  | .anyOf => .compliant
  | .allOf => .nonCompliant

end ListAction

namespace Evaluator

variable {W G : Type}

def ofExcept {α : Type} : Except Error α → EvalM W G α
  | .ok a => pure a
  | .error e => throw e

def insertArgument (parameters : ParameterMap) (result : ParameterMap)
    (member : Bytes × JsonValue) : Except Error ParameterMap :=
  match member.2 with
  | .string value =>
    let key := cString member.1
    -- `insert` keeps the value of a key that is there already
    let paramValue := result[key]?.getD (cString value)
    match paramValue with
    | 36 :: name =>
      match parameters[name]? with
      | some substitution => .ok (result.insert key substitution)
      | none => .error { message := utf8 "Unknown parameter", code := EINVAL }
    | _ => .ok (result.insert key paramValue)
  | _ => .error { message := utf8 "Argument type is not a string", code := EINVAL }

def getBuiltinProcedureArguments (parameters : ParameterMap) : JsonValue → Except Error ParameterMap
  | .object members => members.foldlM (insertArgument parameters) ∅
  | _ => .error { message := utf8 "invalid argument", code := EINVAL }

/-- The function an action calls: a procedure without remediation is audited instead. -/
def selectFunction (actions : ProcedureActions W) : Action → Option (Action × ActionFunc W)
  | .remediate => (actions.remediate.map (Action.remediate, ·)).or (actions.audit.map (Action.audit, ·))
  | .audit => actions.audit.map (Action.audit, ·)

def evaluateBuiltinProcedure (ev : Evaluator W G) (path : Path) (procedureName : Bytes)
    (value : JsonValue) (action : Action) : EvalM W G Status :=
  match value with
  | .object _ => do
    let arguments ← ofExcept (getBuiltinProcedureArguments ev.parameters value)
    match ev.procedureMap[procedureName]? with
    | none => throw { message := utf8 "Unknown function '" ++ procedureName ++ utf8 "'", code := ENOENT }
    | some actions =>
      match selectFunction actions action with
      | none => throw { message := utf8 "Function not found", code := ENOENT }
      | some (kind, function) => do
        let result ← invoke path procedureName kind function arguments
        ofExcept result
  | _ => throw { message := utf8 "invalid argument" }

def evaluateLua (ev : Evaluator W G) (path : Path) (value : JsonValue) (action : Action) :
    EvalM W G Status :=
  match value with
  | .object _ => do
    let arguments ← ofExcept (getBuiltinProcedureArguments ev.parameters value)
    match arguments[utf8 "script"]? with
    | none => throw { message := utf8 "No script content provided", code := EINVAL }
    | some script =>
      LuaEvaluator.evaluate ev.lua (LuaEvaluator.registerProcedures ev.procedureMap) path script action
  | _ => throw { message := utf8 "Lua value is not an object", code := EINVAL }

/-- Evaluate inside a new node. On an error the node stays open. -/
def within (name : Bytes) (body : EvalM W G Status) : EvalM W G Status := do
  modify (·.applyOps [.push name])
  let result ← body
  modify (·.applyOps [.setStatus result, .pop])
  pure result

/-- Note the result of a leaf. -/
def leaf (path : Path) (body : EvalM W G Status) : EvalM W G Status := fun s =>
  match body s with
  | .ok result s' => .ok result (s'.record (.leaf path (.ok result)))
  | .error e s' => .error e (s'.record (.leaf path (.error e)))

/-- `evaluate` is `EvaluateProcedure` on the operand, which is always audited. -/
def evaluateNot (value : JsonValue) (evaluate : EvalM W G Status) : EvalM W G Status :=
  match value with
  | .object _ => do
    match ← evaluate with
    | .notApplicable => pure .notApplicable
    | .compliant => pure .nonCompliant
    | .nonCompliant => pure .compliant
  | _ => throw { message := utf8 "not value is not an object", code := EINVAL }

mutual

/-- A value that is not an object stands for the null pointer that parson gives for it. -/
def evaluateProcedure (ev : Evaluator W G) (path : Path) (object : JsonValue) (action : Action) :
    EvalM W G Status :=
  match object with
  | .object [] => throw { message := utf8 "Rule name or value is null" }
  | .object ((key, value) :: _) =>
    let name := cString key
    if name = anyOfName then within name (evaluateList ev path value action .anyOf)
    else if name = allOfName then within name (evaluateList ev path value action .allOf)
    else if name = notName then
      within name (evaluateNot value (evaluateProcedure ev (path ++ [.not]) value .audit))
    else if name = luaName then within name (leaf path (evaluateLua ev path value action))
    else within name (leaf path (evaluateBuiltinProcedure ev path name value action))
  | _ => throw { message := utf8 "invalid json argument", code := EINVAL }

def evaluateList (ev : Evaluator W G) (path : Path) (value : JsonValue) (action : Action)
    (listAction : ListAction) : EvalM W G Status :=
  match value with
  | .array items => evaluateItems ev path action listAction 0 items listAction.unit
  | _ => throw { message := listAction.name ++ utf8 " value is not an array", code := EINVAL }

/-- The loop of `EvaluateList` from item `i` on. -/
def evaluateItems (ev : Evaluator W G) (path : Path) (action : Action) (listAction : ListAction)
    (i : Nat) (items : List JsonValue) (accumulated : Status) : EvalM W G Status :=
  match items with
  | [] => pure accumulated
  | item :: rest => do
    let result ← evaluateProcedure ev (path ++ [listAction.step i]) item action
    if result = listAction.decisive then pure listAction.decisive
    else
      evaluateItems ev path action listAction (i + 1) rest
        (if result = .notApplicable then .notApplicable else accumulated)

end

/-- A new evaluator has the rule's node open and nothing else. -/
def initialState (ev : Evaluator W G) (ruleName : Bytes) (context : W) : EvalState W G :=
  { indicators := ({} : IndicatorsTree).push ruleName, context, luaGlobals := ev.lua.initial }

abbrev PayloadFormatter := IndicatorsTree → Except Error Bytes

def formatPayload (formatter : PayloadFormatter) (indicators : IndicatorsTree) : Bytes :=
  match formatter indicators with
  | .ok payload => payload
  | .error e => utf8 "Failed to format payload: " ++ e.message

def executeAudit (ev : Evaluator W G) (json : JsonValue) (formatter : PayloadFormatter) :
    EvalM W G AuditResult := do
  let status ← evaluateProcedure ev [] json .audit
  modify (·.applyOps [.setStatus status, .pop])
  pure { status, payload := formatPayload formatter (← get).indicators }

def executeRemediation (ev : Evaluator W G) (json : JsonValue) : EvalM W G Status := do
  let status ← evaluateProcedure ev [] json .remediate
  modify (·.applyOps [.setStatus status, .pop])
  pure status

end Evaluator
end Kompli
