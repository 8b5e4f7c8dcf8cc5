import Kompli.ComplianceEngine.EvaluationContext
import Kompli.Foundation.MapEntries

/-! Scripts that only forward to a procedure, and the leaves that name it themselves. -/
namespace Kompli
open Foundation

variable {W G : Type}

/-- What of a status a script can return. -/
def Status.asBoolean : Status → Status
  | .compliant => .compliant
  | _ => .nonCompliant

theorem Status.asBoolean_of_ne {status : Status} (h : status ≠ .notApplicable) : status.asBoolean = status := by
  cases status with
  | notApplicable => exact absurd rfl h
  | _ => rfl

/-- `return ce.Audit<Procedure>(<table>)`. -/
def forwardingScript (procedureName table : Bytes) : Bytes :=
  utf8 "return ce.Audit" ++ procedureName ++ utf8 "(" ++ table ++ utf8 ")"

def forwardingProgram (procedureName : Bytes) (entries : List (Bytes × Bytes)) (globals : G) : LuaProgram W G :=
  .call (.ce (LuaEvaluator.audit ++ procedureName)) [.table (entries.map fun e => (.string e.1, .string e.2))] fun
    | .returned values => .done values globals
    | .raised error => .failed error globals

/-- A script that forwards to the audit of a procedure, and its arguments. `untouched` are
the globals in which no script has changed the `ce` table, and `entries` are what `lua_next`
finds in the table that the script makes. -/
structure Forwarder (ev : Evaluator W G) (untouched : G → Prop) where
  procedureName : Bytes
  function : ActionFunc W
  registered : ∃ actions, ev.procedureMap[procedureName]? = some actions ∧ actions.audit = some function
  names : ∀ name ∈ ev.procedureMap, NulFree name
  notOperator : procedureName ∉ [anyOfName, allOfName, notName, luaName]
  args : ParameterMap
  plain : ∀ name value, args[name]? = some value → NulFree name ∧ NulFree value ∧ value.head? ≠ some 36
  table : Bytes
  table_nulFree : NulFree table
  entries : List (Bytes × Bytes)
  perm : entries.Perm args.toList
  loads : ∀ globals, untouched globals →
    ev.lua.load (forwardingScript procedureName table) globals = .loaded (forwardingProgram procedureName entries globals)

namespace Forwarder
open Evaluator LuaEvaluator

variable {ev : Evaluator W G} {untouched : G → Prop} (fw : Forwarder ev untouched)

theorem name_nulFree : NulFree fw.procedureName := by
  obtain ⟨actions, hactions, -⟩ := fw.registered
  exact fw.names _ (Std.ExtTreeMap.mem_iff_isSome_getElem?.mpr (by rw [hactions]; rfl))

private theorem cString_name : cString fw.procedureName = fw.procedureName := cString_of_nulFree fw.name_nulFree

private theorem entries_plain : ∀ entry ∈ fw.args.toList,
    NulFree entry.1 ∧ NulFree entry.2 ∧ entry.2.head? ≠ some 36 :=
  fun entry hentry => fw.plain entry.1 entry.2 (Std.ExtTreeMap.mem_toList_iff_getElem?_eq_some.mp hentry)

def luaLeaf : Leaf where
  name := luaName
  value := .object [(utf8 "script", .string (forwardingScript fw.procedureName fw.table))]

def nativeLeaf : Leaf where
  name := fw.procedureName
  value := .object (fw.args.toList.map fun entry => (entry.1, .string entry.2))
  notAnyOf h := fw.notOperator (by rw [← fw.cString_name, h]; decide)
  notAllOf h := fw.notOperator (by rw [← fw.cString_name, h]; decide)
  notNot h := fw.notOperator (by rw [← fw.cString_name, h]; decide)

section Native

private theorem insertArgument_plain (parameters : ParameterMap) {read : ParameterMap} {name value : Bytes}
    (hplain : NulFree name ∧ NulFree value ∧ value.head? ≠ some 36) (hnew : read[name]? = none) :
    insertArgument parameters read (name, .string value) = .ok (read.insert name value) := by
  obtain ⟨hname, hvalue, hdollar⟩ := hplain
  simp only [insertArgument, cString_of_nulFree hname, cString_of_nulFree hvalue, hnew, Option.getD_none]
  cases value with
  | nil => rfl
  | cons c value =>
    have hc : c ≠ 36 := by
      rintro rfl
      exact hdollar rfl
    split
    · rename_i heq
      cases heq
      exact absurd rfl hc
    · rfl

private theorem insertArguments_plain (parameters : ParameterMap) {entries : List (Bytes × Bytes)}
    (hplain : ∀ entry ∈ entries, NulFree entry.1 ∧ NulFree entry.2 ∧ entry.2.head? ≠ some 36)
    (hnodup : (entries.map Prod.fst).Nodup) {read : ParameterMap}
    (hnew : ∀ entry ∈ entries, read[entry.1]? = none) :
    (entries.map fun entry => (entry.1, JsonValue.string entry.2)).foldlM (insertArgument parameters) read =
      .ok (read.insertMany entries) := by
  induction entries generalizing read with
  | nil => simp [pure, Except.pure]
  | cons entry entries ih =>
    rw [List.map_cons, List.nodup_cons] at hnodup
    rw [List.map_cons, List.foldlM_cons,
      insertArgument_plain parameters (hplain entry List.mem_cons_self) (hnew entry List.mem_cons_self),
      except_ok_bind, Std.ExtTreeMap.insertMany_cons]
    refine ih (fun x hx => hplain x (List.mem_cons_of_mem _ hx)) hnodup.2 fun x hx => ?_
    have hne : entry.1 ≠ x.1 := by
      intro heq
      exact hnodup.1 (heq ▸ List.mem_map_of_mem hx)
    rw [getElem?_insert_eq, if_neg hne]
    exact hnew x (List.mem_cons_of_mem _ hx)

/-- The native leaf calls the procedure with the arguments as they are. -/
theorem evaluateBuiltinProcedure_nativeLeaf (path : Path) :
    evaluateBuiltinProcedure ev path fw.procedureName fw.nativeLeaf.value .audit = (do
      let result ← invoke path fw.procedureName .audit fw.function fw.args
      Evaluator.ofExcept result) := by
  obtain ⟨actions, hactions, haudit⟩ := fw.registered
  have harguments : getBuiltinProcedureArguments ev.parameters fw.nativeLeaf.value = .ok fw.args := by
    have hrun : (fw.args.toList.map fun entry => (entry.1, JsonValue.string entry.2)).foldlM
        (insertArgument ev.parameters) ∅ = .ok ((∅ : ParameterMap).insertMany fw.args.toList) :=
      insertArguments_plain ev.parameters fw.entries_plain (nodup_keys fw.args) (by simp)
    rw [insertMany_toList] at hrun
    exact hrun
  unfold evaluateBuiltinProcedure
  split
  · rw [harguments]
    simp only [hactions, selectFunction, haudit, Option.map_some]
    rfl
  · rename_i hvalue
    exact absurd rfl (hvalue _)

end Native

section Lua

private theorem cString_audit {name : Bytes} (h : NulFree name) :
    cString (LuaEvaluator.audit ++ name) = LuaEvaluator.audit ++ name := by
  rw [cString_append (by decide), cString_of_nulFree h]

private theorem remediate_ne_audit (name procedureName : Bytes) :
    cString (remediate ++ name) ≠ LuaEvaluator.audit ++ procedureName := by
  rw [cString_append (by decide)]
  intro h
  have hhead : (remediate ++ cString name).head? = some 0x52 := rfl
  rw [h] at hhead
  cases hhead

private theorem registerProcedure_audit {ce : ByteMap (LuaClosure W)} {name procedureName : Bytes}
    (hname : NulFree name) (actions : ProcedureActions W) :
    (registerProcedure ce name actions)[LuaEvaluator.audit ++ procedureName]? =
      if name = procedureName then
        (actions.audit.map fun function => ⟨LuaEvaluator.audit ++ name, name, .audit, function⟩).or
          ce[LuaEvaluator.audit ++ procedureName]?
      else ce[LuaEvaluator.audit ++ procedureName]? := by
  have hremediate : ∀ (ce : ByteMap (LuaClosure W)) closure,
      (ce.insert (cString (remediate ++ name)) closure)[LuaEvaluator.audit ++ procedureName]? =
        ce[LuaEvaluator.audit ++ procedureName]? := by
    intro ce closure
    rw [getElem?_insert_eq, if_neg (remediate_ne_audit name procedureName)]
  have haudit : ∀ closure, (ce.insert (LuaEvaluator.audit ++ name) closure)[LuaEvaluator.audit ++ procedureName]? =
      if name = procedureName then some closure else ce[LuaEvaluator.audit ++ procedureName]? := by
    intro closure
    rw [getElem?_insert_eq]
    simp only [List.append_cancel_left_eq]
  unfold registerProcedure
  cases actions.remediate with
  | none =>
    cases actions.audit with
    | none => simp
    | some function =>
      simp only [cString_audit hname, haudit, Option.map_some, Option.some_or]
  | some function =>
    dsimp only
    rw [hremediate]
    cases actions.audit with
    | none => simp
    | some function =>
      simp only [cString_audit hname, haudit, Option.map_some, Option.some_or]

private theorem registerProcedures_other {entries : List (Bytes × ProcedureActions W)}
    (hnames : ∀ entry ∈ entries, NulFree entry.1) {procedureName : Bytes}
    (hother : procedureName ∉ entries.map Prod.fst) (ce : ByteMap (LuaClosure W)) :
    (entries.foldl (fun ce entry => registerProcedure ce entry.1 entry.2) ce)[LuaEvaluator.audit ++ procedureName]? =
      ce[LuaEvaluator.audit ++ procedureName]? := by
  induction entries generalizing ce with
  | nil => rfl
  | cons entry entries ih =>
    rw [List.map_cons, List.mem_cons, not_or] at hother
    rw [List.foldl_cons, ih (fun x hx => hnames x (List.mem_cons_of_mem _ hx)) hother.2,
      registerProcedure_audit (hnames entry List.mem_cons_self), if_neg (Ne.symm hother.1)]

private theorem registerProcedures_audit {entries : List (Bytes × ProcedureActions W)}
    (hnodup : (entries.map Prod.fst).Nodup) (hnames : ∀ entry ∈ entries, NulFree entry.1) {procedureName : Bytes}
    {actions : ProcedureActions W} {function : ActionFunc W} (hmem : (procedureName, actions) ∈ entries)
    (haudit : actions.audit = some function) (ce : ByteMap (LuaClosure W)) :
    (entries.foldl (fun ce entry => registerProcedure ce entry.1 entry.2) ce)[LuaEvaluator.audit ++ procedureName]? =
      some ⟨LuaEvaluator.audit ++ procedureName, procedureName, .audit, function⟩ := by
  induction entries generalizing ce with
  | nil => cases hmem
  | cons entry entries ih =>
    rw [List.map_cons, List.nodup_cons] at hnodup
    have hrest : ∀ x ∈ entries, NulFree x.1 := fun x hx => hnames x (List.mem_cons_of_mem _ hx)
    rw [List.foldl_cons]
    rcases List.mem_cons.mp hmem with rfl | hmem
    · rw [registerProcedures_other hrest hnodup.1, registerProcedure_audit (hnames _ List.mem_cons_self), if_pos rfl,
        haudit]
      rfl
    · exact ih hnodup.2 hrest hmem _

/-- The closure that the script calls. -/
theorem closure_registered : (registerProcedures ev.procedureMap)[LuaEvaluator.audit ++ fw.procedureName]? =
    some ⟨LuaEvaluator.audit ++ fw.procedureName, fw.procedureName, .audit, fw.function⟩ := by
  obtain ⟨actions, hactions, haudit⟩ := fw.registered
  refine registerProcedures_audit (nodup_keys ev.procedureMap) (fun entry hentry => ?_)
    (Std.ExtTreeMap.mem_toList_iff_getElem?_eq_some.mpr hactions) haudit ∅
  exact fw.names entry.1 (mem_of_mem_toList hentry)

private theorem collectArguments_strings {entries : List (Bytes × Bytes)}
    (hplain : ∀ entry ∈ entries, NulFree entry.1 ∧ NulFree entry.2) (args : ParameterMap) :
    collectArguments none (entries.map fun e => (.string e.1, .string e.2)) args = .ok (args.insertMany entries) := by
  induction entries generalizing args with
  | nil => simp [collectArguments]
  | cons entry entries ih =>
    obtain ⟨hname, hvalue⟩ := hplain entry List.mem_cons_self
    simp only [List.map_cons, collectArguments, LuaValue.toCString, cString_of_nulFree hname, cString_of_nulFree hvalue]
    rw [ih fun x hx => hplain x (List.mem_cons_of_mem _ hx), Std.ExtTreeMap.insertMany_cons]

/-- The closure is given the arguments as they are, in whatever order `lua_next` finds them. -/
private theorem procedureArguments_entries :
    procedureArguments [.table (fw.entries.map fun e => (.string e.1, .string e.2))] = .ok fw.args := by
  have hplain : ∀ entry ∈ fw.entries, NulFree entry.1 ∧ NulFree entry.2 := by
    intro entry hentry
    obtain ⟨hname, hvalue, -⟩ := fw.entries_plain entry (fw.perm.mem_iff.mp hentry)
    exact ⟨hname, hvalue⟩
  rw [procedureArguments, collectArguments_strings hplain, insertMany_of_perm fw.perm]

private theorem wrapper_forwards (path : Path) {call : LuaCallContext} {s : EvalState W G}
    (hcall : s.luaCallContext = some call) :
    callFunction (registerProcedures ev.procedureMap) path (.ce (LuaEvaluator.audit ++ fw.procedureName))
        [.table (fw.entries.map fun e => (.string e.1, .string e.2))] s =
      .ok (procedureReply (LuaEvaluator.audit ++ fw.procedureName) (fw.function fw.args s.context).result)
        (s.invoked path fw.procedureName .audit fw.function fw.args) := by
  have hname : ¬ (call.action ≠ .remediate ∧ (LuaEvaluator.audit ++ fw.procedureName).take 9 = remediate) := by
    rintro ⟨-, h⟩
    have hhead : ((LuaEvaluator.audit ++ fw.procedureName).take 9).head? = some 0x41 := rfl
    rw [h] at hhead
    cases hhead
  have hwrapper : luaProcedureWrapper path
      ⟨LuaEvaluator.audit ++ fw.procedureName, fw.procedureName, .audit, fw.function⟩
      [.table (fw.entries.map fun e => (.string e.1, .string e.2))] s =
        (do
          let result ← invoke path fw.procedureName .audit fw.function fw.args
          pure (procedureReply (LuaEvaluator.audit ++ fw.procedureName) result) : EvalM W G LuaReply) s := by
    unfold luaProcedureWrapper
    rw [bind_run_ok _ (show (get : EvalM W G (EvalState W G)) s = .ok s s from rfl)]
    simp only [hcall, if_neg hname, fw.procedureArguments_entries]
  simp only [callFunction, fw.closure_registered, hwrapper]
  rfl

private theorem script_nulFree : NulFree (forwardingScript fw.procedureName fw.table) := by
  have hname := fw.name_nulFree
  have htable := fw.table_nulFree
  unfold NulFree at hname htable ⊢
  simp only [forwardingScript, List.mem_append, hname, htable, or_false]
  decide

private theorem evaluateLua_script (path : Path) (action : Action) :
    evaluateLua ev path fw.luaLeaf.value action =
      evaluate ev.lua (registerProcedures ev.procedureMap) path (forwardingScript fw.procedureName fw.table) action := by
  have hplain : NulFree (utf8 "script") ∧ NulFree (forwardingScript fw.procedureName fw.table) ∧
      (forwardingScript fw.procedureName fw.table).head? ≠ some 36 := by
    refine ⟨by decide, fw.script_nulFree, ?_⟩
    have hhead : (forwardingScript fw.procedureName fw.table).head? = some 0x72 := rfl
    rw [hhead]
    decide
  have harguments : getBuiltinProcedureArguments ev.parameters fw.luaLeaf.value =
      .ok ((∅ : ParameterMap).insert (utf8 "script") (forwardingScript fw.procedureName fw.table)) := by
    have hnew : (∅ : ParameterMap)[utf8 "script"]? = none := by simp
    have hinsert : insertArgument ev.parameters ∅
        (utf8 "script", .string (forwardingScript fw.procedureName fw.table)) =
          .ok ((∅ : ParameterMap).insert (utf8 "script") (forwardingScript fw.procedureName fw.table)) :=
      insertArgument_plain ev.parameters hplain hnew
    simp only [luaLeaf, getBuiltinProcedureArguments, List.foldlM_cons, hinsert]
    rfl
  unfold evaluateLua
  split
  · rw [harguments]
    simp only [Evaluator.ofExcept, pure_bind, Std.ExtTreeMap.getElem?_insert_self]
  · rename_i hvalue
    exact absurd rfl (hvalue _)

private def replied : LuaReply → Except LuaValue (List LuaValue)
  | .returned values => .ok values
  | .raised error => .error error

private def concluded (vm : LuaVm W G) : Except LuaValue (List LuaValue) → EvalM W G Status
  | .error error => throw { message := utf8 "Lua script execution failed: " ++ error.toCString.getD [] }
  | .ok values => conclude vm values

/-- What the script leaf does: it calls the procedure, and returns a boolean or an error. -/
theorem evaluateLua_luaLeaf (path : Path) (action : Action) {s : EvalState W G} (h : untouched s.luaGlobals) :
    ∃ t, t.context = (fw.function fw.args s.context).context ∧ t.luaGlobals = s.luaGlobals ∧
      (∀ status, (fw.function fw.args s.context).result = .ok status →
        evaluateLua ev path fw.luaLeaf.value action s = .ok status.asBoolean t) ∧
      ∀ e, (fw.function fw.args s.context).result = .error e →
        ∃ e', evaluateLua ev path fw.luaLeaf.value action s = .error e' t := by
  let called : EvalState W G := { s with luaCallContext := some { action } }
  let after := called.invoked path fw.procedureName .audit fw.function fw.args
  have hcall := fw.wrapper_forwards path (s := called) rfl
  have hload : ev.lua.load (cString (forwardingScript fw.procedureName fw.table)) called.luaGlobals =
      .loaded (forwardingProgram fw.procedureName fw.entries s.luaGlobals) := by
    rw [cString_of_nulFree fw.script_nulFree]
    exact fw.loads _ h
  have hevaluate : evaluateLua ev path fw.luaLeaf.value action s = (run (registerProcedures ev.procedureMap) path
      (forwardingProgram fw.procedureName fw.entries s.luaGlobals) >>= concluded ev.lua) called := by
    have hset : (modify fun t => { t with luaCallContext := some { action } } : EvalM W G PUnit) s = .ok ⟨⟩ called := rfl
    rw [fw.evaluateLua_script path action, evaluate, bind_run_ok _ hset,
      bind_run_ok _ (show (get : EvalM W G (EvalState W G)) called = .ok called called from rfl)]
    rewrite [hload]
    rfl
  have hrun : ∀ result, procedureReply (LuaEvaluator.audit ++ fw.procedureName) (fw.function fw.args s.context).result =
      result → run (registerProcedures ev.procedureMap) path
        (forwardingProgram fw.procedureName fw.entries s.luaGlobals) called =
          .ok (replied result) after := by
    rintro result rfl
    rw [forwardingProgram, run, bind_run_ok _ hcall]
    cases procedureReply (LuaEvaluator.audit ++ fw.procedureName) (fw.function fw.args s.context).result <;> rfl
  rw [hevaluate]
  cases hresult : (fw.function fw.args s.context).result with
  | ok status =>
    let message := LuaEvaluator.audit ++ fw.procedureName ++
      (if status = .compliant then utf8 " is compliant" else utf8 " is not compliant")
    have hreply : procedureReply (LuaEvaluator.audit ++ fw.procedureName) (fw.function fw.args s.context).result =
        .returned [.boolean (status = .compliant), .string message] := by
      rw [hresult]
      cases status <;> rfl
    refine ⟨after.applyOps [.addIndicator (cString message) status.asBoolean], rfl, rfl, fun other hother => ?_, fun e he => ?_⟩
    · cases hother
      rw [bind_run_ok _ (hrun _ hreply)]
      cases status <;> rfl
    · cases he
  | error e =>
    have hreply : procedureReply (LuaEvaluator.audit ++ fw.procedureName) (fw.function fw.args s.context).result =
        .raise (cString e.message) := by
      rw [hresult]
      rfl
    refine ⟨after, rfl, rfl, fun status hstatus => ?_, fun _ _ => ?_⟩
    · cases hstatus
    · rw [bind_run_ok _ (hrun _ hreply)]
      exact ⟨_, rfl⟩

end Lua

section Leaves

private theorem name_ne_lua : fw.procedureName ≠ luaName := by
  intro h
  apply fw.notOperator
  rw [h]
  decide

/-- The state in which a leaf that calls the procedure ends. -/
private def afterNative (path : Path) (s : EvalState W G) : EvalState W G :=
  (s.invoked path fw.procedureName .audit fw.function fw.args).record
    (.leaf path (fw.function fw.args s.context).result)

private theorem nativeLeaf_run (path : Path) (s : EvalState W G) :
    (∀ status, (fw.function fw.args s.context).result = .ok status →
      evaluateLeaf ev path fw.nativeLeaf .audit s = .ok status (fw.afterNative path s)) ∧
      ∀ e, (fw.function fw.args s.context).result = .error e →
        evaluateLeaf ev path fw.nativeLeaf .audit s = .error e (fw.afterNative path s) := by
  have hname : cString fw.nativeLeaf.name = fw.procedureName := fw.cString_name
  have hleaf : evaluateLeaf ev path fw.nativeLeaf .audit =
      leaf path (evaluateBuiltinProcedure ev path fw.procedureName fw.nativeLeaf.value .audit) := by
    rw [evaluateLeaf, hname, if_neg fw.name_ne_lua]
  have hinvoke : invoke path fw.procedureName .audit fw.function fw.args s =
      .ok (fw.function fw.args s.context).result (s.invoked path fw.procedureName .audit fw.function fw.args) := rfl
  rw [hleaf, fw.evaluateBuiltinProcedure_nativeLeaf path]
  unfold leaf afterNative
  rw [bind_run_ok _ hinvoke]
  constructor
  · intro status hstatus
    rw [hstatus]
    rfl
  · intro e he
    rw [he]
    rfl

/-- Alike states in which no script has changed the `ce` table. -/
def Related (untouched : G → Prop) (s t : EvalState W G) : Prop := Alike s t ∧ untouched s.luaGlobals

theorem luaLeaf_agrees (path path' : Path) (action : Action) :
    Agree (Related untouched) (Related untouched) (evaluateLeaf ev path fw.luaLeaf action) (do
      let status ← evaluateLeaf ev path' fw.nativeLeaf .audit
      pure status.asBoolean) := by
  have hlua : cString fw.luaLeaf.name = luaName := rfl
  have hleaf : evaluateLeaf ev path fw.luaLeaf action = leaf path (evaluateLua ev path fw.luaLeaf.value action) := by
    rw [evaluateLeaf, if_pos hlua]
  intro s t h
  obtain ⟨⟨hcontext, hglobals⟩, huntouched⟩ := h
  obtain ⟨after, hafter, hglobals', hok, herror⟩ := fw.evaluateLua_luaLeaf path action huntouched
  obtain ⟨hok', herror'⟩ := fw.nativeLeaf_run path' t
  rw [← hcontext] at hok' herror'
  rw [hleaf]
  cases hresult : (fw.function fw.args s.context).result with
  | ok status =>
    rw [bind_run_ok _ (hok' status hresult), leaf, hok status hresult]
    refine ⟨rfl, ⟨?_, hglobals'.trans hglobals⟩, ?_⟩
    · rw [EvalState.record_context, hafter, hcontext]
      rfl
    · change untouched after.luaGlobals
      rwa [hglobals']
  | error e =>
    obtain ⟨e', he'⟩ := herror e hresult
    rw [bind_run_error _ (herror' e hresult), leaf, he']
    trivial

/-- With these arguments the procedure always applies. -/
def Applies : Prop := ∀ context, (fw.function fw.args context).result ≠ .ok .notApplicable

private theorem nativeLeaf_asBoolean (h : fw.Applies) (path : Path) : (do
      let status ← evaluateLeaf ev path fw.nativeLeaf .audit
      pure status.asBoolean) = evaluateLeaf ev path fw.nativeLeaf .audit := by
  funext s
  obtain ⟨hok, herror⟩ := fw.nativeLeaf_run path s
  cases hresult : (fw.function fw.args s.context).result with
  | ok status =>
    have hne : status ≠ .notApplicable := by
      rintro rfl
      exact h s.context hresult
    rw [bind_run_ok _ (hok status hresult), hok status hresult, Status.asBoolean_of_ne hne]
    rfl
  | error e => rw [bind_run_error _ (herror e hresult), herror e hresult]

end Leaves

section Trees

/-- A leaf that leaves the `ce` table as it is. -/
def Undisturbing (ev : Evaluator W G) (untouched : G → Prop) (l : Leaf) : Prop :=
  ∀ path action s r t, untouched s.luaGlobals → evaluateLeaf ev path l action s = .ok r t → untouched t.luaGlobals

/-- The leaves of a payload: some forward, of which `P` holds. -/
abbrev Leaves (ev : Evaluator W G) (untouched : G → Prop) (P : Forwarder ev untouched → Prop) :=
  {l : Leaf // Undisturbing ev untouched l} ⊕ {fw : Forwarder ev untouched // P fw}

variable {P : Forwarder ev untouched → Prop}

def withScripts : Leaves ev untouched P → Leaf
  | .inl l => l.val
  | .inr fw => fw.val.luaLeaf

def withoutScripts : Leaves ev untouched P → Leaf
  | .inl l => l.val
  | .inr fw => fw.val.nativeLeaf

/-- The leaves that forward are native ones, which are audited whatever the action. -/
def evaluateNative (path : Path) : Leaves ev untouched P → Action → EvalM W G Status
  | .inl l, action => within (cString l.val.name) (evaluateLeaf ev path l.val action)
  | .inr fw, _ => within fw.val.procedureName (evaluateLeaf ev path fw.val.nativeLeaf .audit)

/-- The same, with `NotApplicable` read as `NonCompliant`. -/
def evaluateAsBoolean (path : Path) : Leaves ev untouched P → Action → EvalM W G Status
  | .inl l, action => within (cString l.val.name) (evaluateLeaf ev path l.val action)
  | .inr fw, _ => within fw.val.procedureName (do
      let status ← evaluateLeaf ev path fw.val.nativeLeaf .audit
      pure status.asBoolean)

private theorem related_applyOps (s t : EvalState W G) (ops ops' : List TreeOp) (h : Related untouched s t) :
    Related untouched (s.applyOps ops) (t.applyOps ops') := h

private theorem undisturbing_agrees {l : Leaf} (h : Undisturbing ev untouched l) (path : Path) (action : Action) :
    Agree (Related untouched) (Related untouched) (evaluateLeaf ev path l action) (evaluateLeaf ev path l action) := by
  intro s t hst
  have hrun := evaluateLeaf_agrees ev path l action s t hst.1
  cases hs : evaluateLeaf ev path l action s with
  | ok r s' =>
    cases ht : evaluateLeaf ev path l action t with
    | ok r' t' =>
      rw [hs, ht] at hrun
      exact ⟨hrun.1, hrun.2, h path action s r s' hst.2 hs⟩
    | error e t' =>
      rw [hs, ht] at hrun
      exact hrun.elim
  | error e s' =>
    cases ht : evaluateLeaf ev path l action t with
    | ok r' t' =>
      rw [hs, ht] at hrun
      exact hrun.elim
    | error e' t' => trivial

private theorem within_luaLeaf_agrees (fw : Forwarder ev untouched) (path : Path) (action : Action) :
    Agree (Related untouched) (Related untouched) (within luaName (evaluateLeaf ev path fw.luaLeaf action))
      (within fw.procedureName (do
        let status ← evaluateLeaf ev path fw.nativeLeaf .audit
        pure status.asBoolean)) :=
  within_agrees related_applyOps _ _ (fw.luaLeaf_agrees path path action)

private theorem leaves_agree (path : Path) (a : Leaves ev untouched P) (action : Action) :
    Agree (Related untouched) (Related untouched)
      (within (cString (withScripts a).name) (evaluateLeaf ev path (withScripts a) action))
      (evaluateAsBoolean path a action) := by
  cases a with
  | inl l => exact within_agrees related_applyOps _ _ (undisturbing_agrees l.property path action)
  | inr fw => exact within_luaLeaf_agrees fw.val path action

private theorem evaluateAsBoolean_of_applies (hP : ∀ fw, P fw → fw.Applies) (path : Path) (a : Leaves ev untouched P)
    (action : Action) : evaluateAsBoolean path a action = evaluateNative path a action := by
  cases a with
  | inl l => rfl
  | inr fw => rw [evaluateAsBoolean, evaluateNative, fw.val.nativeLeaf_asBoolean (hP _ fw.property)]

private theorem evaluateNative_audit (path : Path) (a : Leaves ev untouched P) :
    evaluateNative path a .audit =
      within (cString (withoutScripts a).name) (evaluateLeaf ev path (withoutScripts a) .audit) := by
  cases a with
  | inl l => rfl
  | inr fw =>
    have hname : cString fw.val.nativeLeaf.name = fw.val.procedureName := fw.val.cString_name
    rw [evaluateNative, withoutScripts, hname]

/-- A script that only forwards to the audit of a procedure returns and fails as the native
leaf does that is audited, but that it returns `NonCompliant` for `NotApplicable`; and so
does every payload that it is in, whose value is the same where the procedure applies. -/
theorem script_forwards_audit (ev : Evaluator W G) (untouched : G → Prop) :
    (∀ (fw : Forwarder ev untouched) (path path' : Path) (action : Action),
      Agree (Related untouched) (Related untouched) (evaluateLeaf ev path fw.luaLeaf action) (do
        let status ← evaluateLeaf ev path' fw.nativeLeaf .audit
        pure status.asBoolean)) ∧
    (∀ (tree : Formula (Leaves ev untouched fun _ => True)) (path : Path) (action : Action),
      Agree (Related untouched) (Related untouched)
        (evaluateProcedure ev path (Payload.toJson withScripts tree) action)
        (evaluateFormula evaluateAsBoolean path tree action)) ∧
    (∀ (tree : Formula (Leaves ev untouched Applies)) (path : Path) (action : Action),
      Agree (Related untouched) (Related untouched)
        (evaluateProcedure ev path (Payload.toJson withScripts tree) action)
        (evaluateFormula evaluateNative path tree action)) ∧
    ∀ (tree : Formula (Leaves ev untouched Applies)) (path : Path),
      Agree (Related untouched) (Related untouched)
        (evaluateProcedure ev path (Payload.toJson withScripts tree) .audit)
        (evaluateProcedure ev path (Payload.toJson withoutScripts tree) .audit) := by
  refine ⟨fun fw path path' action => fw.luaLeaf_agrees path path' action, fun tree path action => ?_,
    fun tree path action => ?_, fun tree path => ?_⟩
  · rw [evaluateProcedure_toJson]
    exact evaluateFormula_agrees related_applyOps (fun path a => leaves_agree path a .audit) tree path action
      fun path a => leaves_agree path a action
  · have hleaves : ∀ path (a : Leaves ev untouched Applies) action,
        Agree (Related untouched) (Related untouched)
          (within (cString (withScripts a).name) (evaluateLeaf ev path (withScripts a) action))
          (evaluateNative path a action) := by
      intro path a action
      rw [← evaluateAsBoolean_of_applies (fun _ h => h)]
      exact leaves_agree path a action
    rw [evaluateProcedure_toJson]
    exact evaluateFormula_agrees related_applyOps (fun path a => hleaves path a .audit) tree path action
      fun path a => hleaves path a action
  · have hleaves : ∀ path (a : Leaves ev untouched Applies),
        Agree (Related untouched) (Related untouched)
          (within (cString (withScripts a).name) (evaluateLeaf ev path (withScripts a) .audit))
          (within (cString (withoutScripts a).name) (evaluateLeaf ev path (withoutScripts a) .audit)) := by
      intro path a
      rw [← evaluateNative_audit, ← evaluateAsBoolean_of_applies (fun _ h => h)]
      exact leaves_agree path a .audit
    rw [evaluateProcedure_toJson, evaluateProcedure_toJson]
    exact evaluateFormula_agrees related_applyOps hleaves tree path .audit hleaves

end Trees

section Example

/-- An interpreter that knows one script. -/
private def forwardingVm : LuaVm Unit Unit where
  initial := ()
  load script globals :=
    if script = forwardingScript (utf8 "P") (utf8 "\x7bmode='0644'\x7d") then
      .loaded (forwardingProgram (utf8 "P") [(utf8 "mode", utf8 "0644")] globals)
    else .compilationFailed .nil
  isNumeral _ := false

/-- A procedure that does not apply. -/
private def notApplicableEvaluator : Evaluator Unit Unit where
  procedureMap := (∅ : ProcedureMap Unit).insert (utf8 "P")
    { audit := some fun _ context => { result := .ok .notApplicable, context } }
  parameters := ∅
  lua := forwardingVm

private def notApplicableForwarder : Forwarder notApplicableEvaluator fun _ => True where
  procedureName := utf8 "P"
  function := fun _ context => { result := .ok .notApplicable, context }
  registered := ⟨_, Std.ExtTreeMap.getElem?_insert_self, rfl⟩
  names name h := by
    rw [notApplicableEvaluator, Std.ExtTreeMap.mem_insert] at h
    rcases h with h | h
    · rw [← Std.LawfulEqCmp.eq_of_compare h]
      decide
    · simp at h
  notOperator := by decide
  args := (∅ : ParameterMap).insert (utf8 "mode") (utf8 "0644")
  plain name value h := by
    rw [Std.ExtTreeMap.getElem?_insert] at h
    split_ifs at h with hname
    · obtain rfl := Std.LawfulEqCmp.eq_of_compare hname
      cases h
      decide
    · simp at h
  table := utf8 "\x7bmode='0644'\x7d"
  table_nulFree := by decide
  entries := [(utf8 "mode", utf8 "0644")]
  perm := List.Perm.of_eq rfl
  loads _ _ := by
    simp only [notApplicableEvaluator, forwardingVm, ↓reduceIte]

/-- The script hides that the procedure does not apply. -/
theorem script_hides_notApplicable :
    let s : EvalState Unit Unit := { indicators := {}, context := (), luaGlobals := () }
    (∃ t, evaluateLeaf notApplicableEvaluator [] notApplicableForwarder.nativeLeaf .audit s = .ok .notApplicable t) ∧
      ∃ t, evaluateLeaf notApplicableEvaluator [] notApplicableForwarder.luaLeaf .audit s = .ok .nonCompliant t := by
  intro s
  have hnative := (notApplicableForwarder.nativeLeaf_run [] s).1 .notApplicable rfl
  have hagree := notApplicableForwarder.luaLeaf_agrees [] [] .audit s s ⟨⟨rfl, rfl⟩, trivial⟩
  rw [bind_run_ok _ hnative] at hagree
  refine ⟨⟨_, hnative⟩, ?_⟩
  cases hlua : evaluateLeaf notApplicableEvaluator [] notApplicableForwarder.luaLeaf .audit s with
  | ok status t =>
    rw [hlua] at hagree
    obtain ⟨rfl, -⟩ := hagree
    exact ⟨t, rfl⟩
  | error e t =>
    rw [hlua] at hagree
    exact hagree.elim

end Example

end Forwarder
end Kompli
