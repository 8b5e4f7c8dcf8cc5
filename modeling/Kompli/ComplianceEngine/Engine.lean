import Kompli.ComplianceEngine.Evaluator
import Kompli.ComplianceEngine.Procedure

/-! The engine: a database of the procedures set for rules, and the operations on it. -/
namespace Kompli
open Parson Foundation

/-- What does not change while an engine runs. -/
structure Engine (W G : Type) where
  num : NumberFormat
  procedureMap : ProcedureMap W
  lua : LuaVm W G
  formatter : Evaluator.PayloadFormatter

abbrev Database := ByteMap Procedure

structure EngineState (W : Type) where
  database : Database := ∅
  context : W

namespace Procedure

/-- `Audit` and `Remediation` give nothing for a value that is not an object. -/
def audit (procedure : Procedure) : Option JsonValue :=
  match procedure.auditRule with
  | some (.object members) => some (.object members)
  | _ => none

def remediation (procedure : Procedure) : Option JsonValue :=
  match procedure.remediationRule with
  | some (.object members) => some (.object members)
  | _ => none

/-- What is remediated: a procedure without remediation is audited instead. -/
def remediationOrAudit (procedure : Procedure) : Option JsonValue :=
  procedure.remediation.or procedure.audit

/-- The `remediate` member, which may be missing. -/
def withRemediation (members : List (Bytes × JsonValue)) (procedure : Procedure) : Except Error Procedure :=
  match JsonValue.getValue members (utf8 "remediate") with
  | none => .ok procedure
  | some (.object rule) => .ok { procedure with remediationRule := some (.object rule) }
  | some _ => .error { message := utf8 "The 'remediate' value is not an object" }

/-- The `parameters` member, which may be missing. -/
def withParameters (members : List (Bytes × JsonValue)) (procedure : Procedure) : Except Error Procedure :=
  match JsonValue.getValue members (utf8 "parameters") with
  | none => .ok procedure
  | some (.object parameters) => do
    let parameters ← ProcedureParameters.parseObject parameters
    .ok { procedure with parameters }
  | some _ => .error { message := utf8 "The 'parameters' value is not an object" }

/-- The procedure that a rule's JSON describes. -/
def ofRule : JsonValue → Except Error Procedure
  | .object members =>
    match JsonValue.getValue members (utf8 "audit") with
    | none => .error { message := utf8 "Missing 'audit' object" }
    | some (.object rule) => do
      let procedure ← withRemediation members { auditRule := some (.object rule) }
      withParameters members procedure
    | some _ => .error { message := utf8 "The 'audit' value is not an object" }
  | _ => .error { message := utf8 "Failed to parse JSON object" }

/-- A payload is base64 or plain JSON. -/
def parseRule (num : NumberFormat) (payload : Bytes) : Except Error JsonValue :=
  match JsonWrapper.fromBase64 num payload with
  | .ok json => .ok json
  | .error _ => JsonWrapper.fromString num payload

end Procedure

def emptyRuleName : Error := { message := utf8 "Rule name is empty", code := EINVAL }
def procedureNotSet : Error :=
  { message := utf8 "Out-of-order operation: procedure must be set first", code := EINVAL }

namespace Engine

variable {W G : Type}

abbrev EngineM (W : Type) := EStateM Error (EngineState W)

def ofExcept {α : Type} : Except Error α → EngineM W α
  | .ok a => pure a
  | .error e => throw e

/-- Run a new evaluator on the engine's context. -/
def runEvaluator {α : Type} (engine : Engine W G) (ruleName : Bytes) (parameters : ParameterMap)
    (run : Evaluator W G → EvalM W G α) : EngineM W α := fun s =>
  let evaluator := { procedureMap := engine.procedureMap, parameters, lua := engine.lua }
  match run evaluator (evaluator.initialState ruleName s.context) with
  | .ok result after => .ok result { s with context := after.context }
  | .error e after => .error e { s with context := after.context }

def setProcedure (engine : Engine W G) (ruleName payload : Bytes) : EngineM W Unit := do
  if ruleName = [] then throw emptyRuleName
  else
    modify fun s => { s with database := s.database.erase ruleName }
    let ruleJson ← ofExcept (Procedure.parseRule engine.num payload)
    let procedure ← ofExcept (Procedure.ofRule ruleJson)
    modify fun s => { s with database := s.database.insert ruleName procedure }

/-- Look up the procedure of a rule. -/
def withStored {α : Type} (ruleName : Bytes) (missing : Error) (use : Procedure → EngineM W α) :
    EngineM W α := do
  if ruleName = [] then throw emptyRuleName
  else
    match (← get).database[ruleName]? with
    | none => throw missing
    | some procedure => use procedure

/-- `UpdateUserParameters` of the stored procedure, where it is stored. -/
def updateStored (engine : Engine W G) (ruleName payload : Bytes) (procedure : Procedure) :
    EngineM W Procedure := fun s =>
  match Procedure.updateUserParameters engine.num payload procedure with
  | .ok _ after => .ok after { s with database := s.database.insert ruleName after }
  | .error e after => .error e { s with database := s.database.insert ruleName after }

def initAudit (engine : Engine W G) (ruleName payload : Bytes) : EngineM W Unit :=
  withStored ruleName procedureNotSet fun procedure => do
    let _ ← updateStored engine ruleName payload procedure
    pure ()

def executeRemediation (engine : Engine W G) (ruleName payload : Bytes) : EngineM W Status :=
  withStored ruleName procedureNotSet fun procedure =>
    match procedure.remediationOrAudit with
    | none => throw { message := utf8 "Failed to get 'remediate' or 'audit' object" }
    | some remediation => do
      let procedure ← updateStored engine ruleName payload procedure
      runEvaluator engine ruleName procedure.parameters (·.executeRemediation remediation)

/-- Nothing where no procedure is stored. -/
def getParameters (ruleName : Bytes) (s : EngineState W) : ParameterMap :=
  match s.database[ruleName]? with
  | none => ∅
  | some procedure => procedure.parameters

/-- The rest of an object name that starts with `name`. -/
def ruleNameAfter (name objectName : Bytes) : Option Bytes :=
  if startsWith name objectName then some (objectName.drop name.length) else none

def auditPrefix : Bytes := utf8 "audit"
def procedurePrefix : Bytes := utf8 "procedure"
def initPrefix : Bytes := utf8 "init"
def remediatePrefix : Bytes := utf8 "remediate"

def mmiGet (engine : Engine W G) (objectName : Bytes) : EngineM W AuditResult :=
  match ruleNameAfter auditPrefix (cString objectName) with
  | none => throw { message := utf8 "Invalid object name", code := EINVAL }
  | some ruleName =>
    withStored ruleName { message := utf8 "Rule not found", code := EINVAL } fun procedure =>
      match procedure.audit with
      | none => throw { message := utf8 "Failed to get 'audit' object" }
      | some audit =>
        runEvaluator engine ruleName procedure.parameters (·.executeAudit audit engine.formatter)

def mmiSet (engine : Engine W G) (objectName payload : Bytes) : EngineM W Status :=
  match ruleNameAfter procedurePrefix (cString objectName) with
  | some ruleName => do
    setProcedure engine ruleName payload
    pure .compliant
  | none =>
    match ruleNameAfter initPrefix (cString objectName) with
    | some ruleName => do
      initAudit engine ruleName payload
      pure .compliant
    | none =>
      match ruleNameAfter remediatePrefix (cString objectName) with
      | some ruleName => executeRemediation engine ruleName payload
      | none => throw { message := utf8 "Invalid object name" }

end Engine
end Kompli
