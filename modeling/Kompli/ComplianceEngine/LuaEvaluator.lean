import Kompli.ComplianceEngine.EvaluationState

/-! Scripts and the closures they can call. The interpreter is a parameter: a
script is whatever sequence of calls its program makes, each after the reply to
the one before, so an error caught with `pcall` is a program that goes on. -/
namespace Kompli
open Foundation

/-- A number is the text that Lua prints for it. -/
inductive LuaValue where
  | nil
  | boolean (b : Bool)
  | number (text : Bytes)
  | string (value : Bytes)
  | table (entries : List (LuaValue × LuaValue))
  | other

namespace LuaValue

/-- `lua_tostring`, read as a C string, where `lua_isstring` holds. -/
def toCString : LuaValue → Option Bytes
  | .number text => some text
  | .string value => some (cString value)
  | _ => none

end LuaValue

inductive LuaReply where
  | returned (values : List LuaValue)
  | raised (error : LuaValue)

def LuaReply.raise (message : Bytes) : LuaReply := .raised (.string message)

/-- `ce` is a field of the `ce` table. `host` is any other function, which may read or
change the system but has no access to the procedures and the indicators. -/
inductive LuaFunction (W : Type) where
  | ce (field : Bytes)
  | indicatorsPush
  | indicatorsPop
  | indicatorsCompliant
  | indicatorsNonCompliant
  | host (effect : List LuaValue → W → LuaReply × W)

inductive LuaProgram (W G : Type) where
  | done (values : List LuaValue) (globals : G)
  | failed (error : LuaValue) (globals : G)
  | call (function : LuaFunction W) (arguments : List LuaValue) (resume : LuaReply → LuaProgram W G)

inductive LuaChunk (W G : Type) where
  | compilationFailed (error : LuaValue)
  | withoutEnvironment
  | loaded (program : LuaProgram W G)

structure LuaVm (W G : Type) where
  initial : G
  load : Bytes → G → LuaChunk W G
  isNumeral : Bytes → Bool

/-- The upvalues of `LuaProcedureWrapper`: the name it reports, and the function it calls. -/
structure LuaClosure (W : Type) where
  procedureName : Bytes
  procedure : Bytes
  kind : Action
  function : ActionFunc W

namespace LuaEvaluator

variable {W G : Type}

def audit : Bytes := utf8 "Audit"
def remediate : Bytes := utf8 "Remediate"

def registerProcedure (ce : ByteMap (LuaClosure W)) (name : Bytes) (actions : ProcedureActions W) :
    ByteMap (LuaClosure W) :=
  let ce := match actions.audit with
    | some function =>
      ce.insert (cString (audit ++ name)) ⟨cString (audit ++ name), name, .audit, function⟩
    | none => ce
  match actions.remediate with
  | some function =>
    ce.insert (cString (remediate ++ name)) ⟨cString (remediate ++ name), name, .remediate, function⟩
  | none => ce

def registerProcedures (procedureMap : ProcedureMap W) : ByteMap (LuaClosure W) :=
  procedureMap.toList.foldl (fun ce entry => registerProcedure ce entry.1 entry.2) ∅

/-- The loop over the table of arguments. `lua_tostring` turns a number used as a key
into a string on the stack, and `lua_next` then goes on behind the entry of that string. -/
def collectArguments : Option Bytes → List (LuaValue × LuaValue) → ParameterMap →
    Except Bytes ParameterMap
  | none, [], args => .ok args
  | some _, [], _ => .error (utf8 "invalid key to 'next'")
  | some key, (.string name, _) :: entries, args =>
    if name = key then collectArguments none entries args else collectArguments (some key) entries args
  | some key, _ :: entries, args => collectArguments (some key) entries args
  | none, (key, value) :: entries, args =>
    match key.toCString, value.toCString with
    | some k, some v =>
      let behind := match key with
        | .number text => some text
        | _ => none
      collectArguments behind entries (args.insert k v)
    | k, v => .error (utf8 "Invalid key-value pair '" ++ k.getD (utf8 "NIL") ++ utf8 "':'" ++
        v.getD (utf8 "NIL") ++ utf8 "'")

/-- The arguments are a table, or there are none. -/
def procedureArguments : List LuaValue → Except Bytes ParameterMap
  | .table entries :: _ => collectArguments none entries ∅
  | _ => .ok ∅

def procedureReply (procedureName : Bytes) : Except Error Status → LuaReply
  | .ok .compliant =>
    .returned [.boolean true, .string (procedureName ++ utf8 " is compliant")]
  | .ok _ =>
    .returned [.boolean false, .string (procedureName ++ utf8 " is not compliant")]
  | .error e => .raise (cString e.message)

def luaProcedureWrapper (path : Path) (closure : LuaClosure W) (arguments : List LuaValue) :
    EvalM W G LuaReply := do
  match (← get).luaCallContext with
  | none => pure (.raise (utf8 "Failed to get call context"))
  | some callContext =>
    if callContext.action ≠ .remediate ∧ closure.procedureName.take 9 = remediate then
      pure (.raise (utf8 "Remediation not allowed in audit mode"))
    else
      match procedureArguments arguments with
      | .error message => pure (.raise (cString message))
      | .ok args => do
        let result ← invoke path closure.procedure closure.kind closure.function args
        pure (procedureReply closure.procedureName result)

def indicatorsStackLimit : Nat := 10

/-- A single string argument that is not empty. -/
def checkText (arguments : List LuaValue) (missing tooMany empty : Bytes) : Except Bytes Bytes :=
  match arguments with
  | [] | .nil :: _ => .error missing
  | _ :: _ :: _ => .error tooMany
  | [value] =>
    match value.toCString with
    | none => .error (utf8 "expected a string argument")
    | some text => if text = [] then .error empty else .ok text

/-- Apply the tree operations of a script, and note them. -/
def scriptOps (path : Path) (ops : List TreeOp) : EvalM W G Unit :=
  modify fun s => s.applyOps ops |>.record (.scriptOps path ops s.indicators)

def setIndicatorsDepth (depth : Nat) : EvalM W G Unit :=
  modify fun s => { s with luaCallContext := s.luaCallContext.map ({ · with indicatorsDepth := depth }) }

def missingCallContext : LuaReply := .raise (utf8 "internal error: missing call context")

def luaIndicatorsPush (path : Path) (arguments : List LuaValue) : EvalM W G LuaReply := do
  match (← get).luaCallContext with
  | none => pure missingCallContext
  | some view =>
    if view.indicatorsDepth = indicatorsStackLimit then
      pure (.raise (utf8 "indicators stack limit reached"))
    else
      match checkText arguments (utf8 "expected a procedure name")
          (utf8 "too many arguments passed to indicators.push")
          (utf8 "procedure name must not be empty") with
      | .error message => pure (.raise message)
      | .ok procedureName => do
        scriptOps path [.push procedureName]
        setIndicatorsDepth (view.indicatorsDepth + 1)
        pure (.returned [])

def luaIndicatorsPop (path : Path) (arguments : List LuaValue) : EvalM W G LuaReply := do
  match (← get).luaCallContext with
  | none => pure missingCallContext
  | some view =>
    if view.indicatorsDepth = 0 then pure (.raise (utf8 "indicators stack is empty"))
    else
      match arguments with
      | [] | .nil :: _ => pure (.raise (utf8 "expected a status"))
      | .boolean status :: _ => do
        scriptOps path [.setStatus (if status then .compliant else .nonCompliant), .pop]
        setIndicatorsDepth (view.indicatorsDepth - 1)
        pure (.returned [.boolean status])
      | _ => pure (.raise (utf8 "expected a boolean argument"))

def luaIndicatorsAddIndicator (path : Path) (status : Status) (arguments : List LuaValue) :
    EvalM W G LuaReply := do
  match (← get).luaCallContext with
  | none => pure missingCallContext
  | some _ =>
    match checkText arguments (utf8 "expected a message") (utf8 "expected a single argument")
        (utf8 "message must not be empty") with
    | .error message => pure (.raise message)
    | .ok message => do
      scriptOps path [.addIndicator message status]
      pure (.returned [.boolean (status = .compliant), .string message])

def callFunction (ce : ByteMap (LuaClosure W)) (path : Path) (function : LuaFunction W)
    (arguments : List LuaValue) : EvalM W G LuaReply :=
  match function with
  | .ce field =>
    match ce[field]? with
    | some closure => luaProcedureWrapper path closure arguments
    | none => pure (.raise (utf8 "attempt to call a nil value (field '" ++ field ++ utf8 "')"))
  | .indicatorsPush => luaIndicatorsPush path arguments
  | .indicatorsPop => luaIndicatorsPop path arguments
  | .indicatorsCompliant => luaIndicatorsAddIndicator path .compliant arguments
  | .indicatorsNonCompliant => luaIndicatorsAddIndicator path .nonCompliant arguments
  | .host effect => fun s => .ok (effect arguments s.context).1 { s with context := (effect arguments s.context).2 }

/-- `lua_pcall` of a loaded script. -/
def run (ce : ByteMap (LuaClosure W)) (path : Path) :
    LuaProgram W G → EvalM W G (Except LuaValue (List LuaValue))
  | .done values globals => do
    modify fun s => { s with luaGlobals := globals }
    pure (.ok values)
  | .failed error globals => do
    modify fun s => { s with luaGlobals := globals }
    pure (.error error)
  | .call function arguments resume => do
    let reply ← callFunction ce path function arguments
    run ce path (resume reply)

/-- What `Evaluate` makes of the values a script returned. -/
def conclude (vm : LuaVm W G) (values : List LuaValue) : EvalM W G Status :=
  match values with
  | [] => throw { message := utf8 "Lua script did not return a value" }
  | .boolean isCompliant :: rest => do
    if (← get).luaCallContext.any (0 < ·.indicatorsDepth) then
      throw { message := utf8 "Indicators stack not cleaned up properly" }
    else
      let message := (rest.head?.bind LuaValue.toCString).getD (utf8 "Lua script completed")
      let status := if isCompliant then Status.compliant else .nonCompliant
      modify (·.applyOps [.addIndicator message status])
      pure status
  | .string message :: rest =>
    if vm.isNumeral message then throw { message := utf8 "Invalid return type from LUA script" }
    else
      throw { message := cString message ++
        ((rest.head?.bind LuaValue.toCString).map (utf8 " : " ++ ·)).getD [] }
  | _ => throw { message := utf8 "Invalid return type from LUA script" }

def evaluate (vm : LuaVm W G) (ce : ByteMap (LuaClosure W)) (path : Path) (script : Bytes)
    (action : Action) : EvalM W G Status := do
  modify fun s => { s with luaCallContext := some { action } }
  match vm.load (cString script) (← get).luaGlobals with
  | .compilationFailed error =>
    throw { message := utf8 "Lua script compilation failed: " ++ error.toCString.getD [] }
  | .withoutEnvironment => throw { message := utf8 "Could not set restricted Lua environment" }
  | .loaded program => do
    match ← run ce path program with
    | .error error =>
      throw { message := utf8 "Lua script execution failed: " ++ error.toCString.getD [] }
    | .ok values => conclude vm values

end LuaEvaluator
end Kompli
