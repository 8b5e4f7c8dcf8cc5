import Kompli.ComplianceEngine.Engine
import Kompli.ComplianceEngine.JsonFormatter
import Kompli.Parson.Text

/-! The module interface: sessions, and the text in which an audit is reported. The
caller reads compliance off the first letters of that text. -/
namespace Kompli.ComplianceEngineInterface
open Parson Ascii Foundation Evaluator

variable {W G : Type}

def moduleTestClientName : Bytes := utf8 "ModuleTestClient"
def nrpClientName : Bytes := utf8 "ComplianceEngine"
def componentName : Bytes := utf8 "ComplianceEngine"

/-- A failed assertion ends the process, and with it the call; among the results of the
call it stands as one more error of the formatter. -/
def asserting (format : IndicatorsTree → Option (Except Error Bytes)) : PayloadFormatter :=
  fun t => (format t).getD (.error { message := utf8 "Assertion failed" })

/-- The formatter of a session. -/
def sessionFormatter (num : NumberFormat) (clientName : Bytes) : PayloadFormatter :=
  if clientName = moduleTestClientName then asserting DebugFormatter.format
  else if clientName = nrpClientName then asserting NestedListFormatter.format
  else asserting (JsonFormatter.format num)

def mmiOpen (num : NumberFormat) (procedureMap : ProcedureMap W) (lua : LuaVm W G) (clientName : Bytes) :
    Engine W G :=
  { num, procedureMap, lua, formatter := sessionFormatter num clientName }

def criticalErrors : List Int := [ENOMEM]

def pass : Bytes := utf8 "PASS"

/-- `JsonWrapper::FromJsonString`. -/
def fromJsonString (input : Bytes) : Except Error JsonValue :=
  if 0 ∈ input then .error { message := utf8 "JSON string contains embedded NUL", code := EINVAL }
  else
    match initString input with
    | some value => .ok value
    | none => .error { message := utf8 "Failed to parse JSON-encoded string", code := EINVAL }

/-- The text of a result, or the code of an error. -/
def report (num : NumberFormat) (result : AuditResult) : Except Int Bytes :=
  let payloadString :=
    if result.status = .compliant ∨ result.status = .notApplicable then pass ++ result.payload
    else result.payload
  match fromJsonString payloadString with
  | .error _ => .error ENOMEM
  | .ok json => .ok (jsonSerializeToString num json)

def nonCritical (e : Error) : AuditResult :=
  { status := .nonCompliant, payload := utf8 "Audit failed with a non-critical error: " ++ e.message }

/-- `ComplianceEngineMmiGet`: the payload that comes with MMI_OK, or another code. -/
def mmiGet (engine : Engine W G) (component objectName : Bytes) (s : EngineState W) :
    Except Int Bytes × EngineState W :=
  if cString component ≠ componentName then (.error EINVAL, s)
  else
    match engine.mmiGet objectName s with
    | .ok result s' => (report engine.num result, s')
    | .error e s' =>
      if e.code ∈ criticalErrors then (.error e.code, s') else (report engine.num (nonCritical e), s')

section Pass

/-- The text is a JSON string that starts with PASS. -/
def ReportsPass (text : Bytes) : Prop := (quote :: pass) <+: text

/-- A text of bytes that are written as they are starts what is written exactly when it starts
what it is written for. -/
private theorem prefix_escapes {p : Bytes} (hp : ∀ c ∈ p, c ≠ backslash ∧ c ≠ quote ∧ escape c = [c])
    (s rest : Bytes) : p <+: s.flatMap escape ++ quote :: rest ↔ p <+: s := by
  induction p generalizing s with
  | nil => simp
  | cons c p ih =>
    obtain ⟨hbackslash, hquote, hescape⟩ := hp c List.mem_cons_self
    have hrest := ih fun c hc => hp c (List.mem_cons_of_mem _ hc)
    cases s with
    | nil => simp [hquote]
    | cons d s =>
      by_cases hd : c = d
      · subst hd
        simp [hescape, hrest]
      · have hfirst : ∃ e t, escape d = e :: t ∧ c ≠ e := by
          rcases escape_cases d with ⟨h, -⟩ | ⟨e, h, -⟩ | ⟨-, h⟩
          · exact ⟨d, [], h, hd⟩
          · exact ⟨backslash, [e], h, hbackslash⟩
          · exact ⟨backslash, _, h, hbackslash⟩
        obtain ⟨e, t, h, he⟩ := hfirst
        simp [h, he, hd]

/-- A text that does not start with a P. -/
private def NoPass (text : Bytes) : Prop := text.head? ≠ some 0x50

private theorem NoPass.not_prefix {text : Bytes} (h : NoPass text) : ¬ pass <+: text := by
  rintro ⟨rest, rfl⟩
  exact h rfl

private theorem NoPass.append {a : Bytes} (ha : a ≠ []) (h : NoPass a) (b : Bytes) : NoPass (a ++ b) := by
  cases a with
  | nil => exact absurd rfl ha
  | cons c a => exact h

/-- The texts of the session's formatter do not start as a passing report does. -/
private theorem nestedList_noPass {t : IndicatorsTree} {text : Bytes}
    (h : NestedListFormatter.format t = some (.ok text)) : NoPass text := by
  simp only [NestedListFormatter.format, formatRoot, Option.bind_eq_bind, Option.bind_eq_some_iff] at h
  obtain ⟨node, -, inner, -, h⟩ := h
  cases h
  have hline : ∀ status, NestedListFormatter.emoji status .no ≠ [] ∧
      NoPass (NestedListFormatter.emoji status .no) := by
    intro status
    cases status <;> exact ⟨by decide, by unfold NoPass; decide⟩
  obtain ⟨hne, hno⟩ := hline node.status
  simp only [NestedListFormatter.line, List.replicate_zero, List.nil_append, List.append_assoc]
  exact hno.append hne _

private theorem debug_noPass {t : IndicatorsTree} {text : Bytes}
    (h : DebugFormatter.format t = some (.ok text)) : NoPass text := by
  have hopen : utf8 "\x7b " ≠ [] ∧ NoPass (utf8 "\x7b ") := ⟨by decide, by unfold NoPass; decide⟩
  have hnode : ∀ node text, DebugFormatter.formatNode node = some text → NoPass text := by
    rintro ⟨name, status, children, indicators⟩ text h
    simp only [DebugFormatter.formatNode] at h
    split at h
    · simp only [Option.bind_eq_bind, Option.bind_eq_some_iff] at h
      obtain ⟨nodes, -, h⟩ := h
      cases h
      simp only [List.append_assoc]
      exact hopen.2.append hopen.1 _
    · split at h
      · simp only [Option.bind_eq_bind, Option.bind_eq_some_iff] at h
        obtain ⟨node, -, h⟩ := h
        cases h
        simp only [List.append_assoc]
        exact hopen.2.append hopen.1 _
      · cases h
        simp only [List.append_assoc]
        exact hopen.2.append hopen.1 _
  simp only [DebugFormatter.format, formatRoot, Option.bind_eq_some_iff] at h
  obtain ⟨root, -, h⟩ := h
  split at h
  · cases h
  · next node nodes hchildren =>
    obtain ⟨inner, hinner, h⟩ := Option.map_eq_some_iff.mp h
    cases h
    exact hnode _ _ hinner

private theorem json_noPass {num : NumberFormat} {t : IndicatorsTree} {text : Bytes}
    (h : JsonFormatter.format num t = some (.ok text)) : NoPass text := by
  simp only [JsonFormatter.format, JsonFormatter.formatJson, Option.map_map, Option.map_eq_some_iff,
    Function.comp_apply] at h
  obtain ⟨root, -, h⟩ := h
  cases hitems : JsonFormatter.formatNode root with
  | error e =>
    rw [hitems] at h
    cases h
  | ok items =>
    rw [hitems] at h
    cases h
    have hbracket : (0x5B : UInt8) ≠ 0x50 := by decide
    cases items with
    | nil => exact fun hfirst => hbracket (Option.some.inj hfirst)
    | cons item items => exact fun hfirst => hbracket (Option.some.inj hfirst)

private theorem sessionFormatter_noPass {num : NumberFormat} {clientName : Bytes} {t : IndicatorsTree}
    {text : Bytes} (h : sessionFormatter num clientName t = .ok text) : NoPass text := by
  have hasserting : ∀ format : IndicatorsTree → Option (Except Error Bytes),
      asserting format t = .ok text → format t = some (.ok text) := by
    intro format h
    unfold asserting at h
    cases hformat : format t with
    | none =>
      rw [hformat] at h
      cases h
    | some result =>
      rw [hformat] at h
      exact congrArg some h
  unfold sessionFormatter at h
  split at h
  · exact debug_noPass (hasserting _ h)
  · split at h
    · exact nestedList_noPass (hasserting _ h)
    · exact json_noPass (hasserting _ h)

/-- Neither what a session's formatter writes nor what is written in its place starts with PASS. -/
private theorem formatPayload_noPass (num : NumberFormat) (clientName : Bytes) (t : IndicatorsTree) :
    NoPass (formatPayload (sessionFormatter num clientName) t) := by
  unfold formatPayload
  split
  · next h => exact sessionFormatter_noPass h
  · exact NoPass.append (by decide) (by unfold NoPass; decide) _

private theorem report_pass_iff {num : NumberFormat} {result : AuditResult} (hpayload : NoPass result.payload)
    {text : Bytes} (h : report num result = .ok text) :
    ReportsPass text ↔ result.status = .compliant ∨ result.status = .notApplicable := by
  have hpass : ∀ payload : Bytes, ∀ json, fromJsonString payload = .ok json →
      (ReportsPass (jsonSerializeToString num json) ↔ pass <+: payload) := by
    intro payload json hjson
    unfold fromJsonString at hjson
    split at hjson
    · cases hjson
    · next hnul =>
      unfold initString at hjson
      split at hjson
      · next value hvalue =>
        split at hvalue
        · cases hvalue
          cases hjson
          rw [cString_of_nulFree hnul]
          have hletters : (pass.all fun c => c ≠ backslash && c ≠ quote && escape c = [c]) = true := by decide
          have hletter : ∀ c ∈ pass, c ≠ backslash ∧ c ≠ quote ∧ escape c = [c] := by
            intro c hc
            have hc := List.all_eq_true.mp hletters c hc
            simp only [Bool.and_eq_true, decide_eq_true_eq] at hc
            exact ⟨hc.1.1, hc.1.2, hc.2⟩
          rw [ReportsPass, jsonSerializeToString, serialize, serializeString, List.cons_prefix_cons]
          simp only [true_and]
          exact prefix_escapes hletter payload []
        · cases hvalue
      · cases hjson
  have hpayload' : pass <+: (if result.status = .compliant ∨ result.status = .notApplicable then
      pass ++ result.payload else result.payload) ↔
        result.status = .compliant ∨ result.status = .notApplicable := by
    split
    · next hstatus => simp [hstatus]
    · next hstatus => simp [hstatus, hpayload.not_prefix]
  rw [← hpayload']
  dsimp only [report] at h
  generalize (if result.status = .compliant ∨ result.status = .notApplicable then
    pass ++ result.payload else result.payload) = payload at h ⊢
  cases hjson : fromJsonString payload with
  | error e =>
    rw [hjson] at h
    cases h
  | ok json =>
    rw [hjson] at h
    cases h
    exact hpass payload json hjson

end Pass

section Evaluation

def ruleEvaluator (engine : Engine W G) (procedure : Procedure) : Evaluator W G :=
  { procedureMap := engine.procedureMap, parameters := procedure.parameters, lua := engine.lua }

/-- What the evaluation of the audit stored for a rule returns, where there is one. -/
def auditOutcome (engine : Engine W G) (objectName : Bytes) (s : EngineState W) : Option (Except Error Status) := do
  let ruleName ← Engine.ruleNameAfter Engine.auditPrefix (cString objectName)
  if ruleName = [] then none
  else
    let procedure ← s.database[ruleName]?
    let audit ← procedure.audit
    let evaluator := ruleEvaluator engine procedure
    match evaluator.evaluateProcedure [] audit .audit (evaluator.initialState ruleName s.context) with
    | .ok status _ => some (.ok status)
    | .error e _ => some (.error e)

/-- An answer that says what the evaluation returned. -/
def Answers (engine : Engine W G) (objectName : Bytes) (s : EngineState W) :
    EStateM.Result Error (EngineState W) AuditResult → Prop
  | .ok result _ => auditOutcome engine objectName s = some (.ok result.status) ∧
      ∃ t, result.payload = formatPayload engine.formatter t
  | .error _ _ => ∀ status, auditOutcome engine objectName s ≠ some (.ok status)

/-- An audit that returns has the status that the evaluation returned, and a text by the formatter. -/
theorem mmiGet_answers (engine : Engine W G) (objectName : Bytes) (s : EngineState W) :
    Answers engine objectName s (engine.mmiGet objectName s) := by
  have hfails : ∀ e, auditOutcome engine objectName s = none → Answers engine objectName s (.error e s) := by
    intro e h status
    rw [h]
    exact nofun
  unfold Engine.mmiGet
  cases hrule : Engine.ruleNameAfter Engine.auditPrefix (cString objectName) with
  | none => exact hfails _ (by rw [auditOutcome, hrule]; rfl)
  | some ruleName =>
    dsimp only [Engine.withStored]
    by_cases hempty : ruleName = []
    · rw [if_pos hempty]
      exact hfails _ (by simp [auditOutcome, hrule, hempty])
    · rw [if_neg hempty, bind_run_ok _ (get_run s)]
      cases hprocedure : s.database[ruleName]? with
      | none => exact hfails _ (by simp [auditOutcome, hrule, hempty, hprocedure])
      | some procedure =>
        dsimp only
        cases haudit : procedure.audit with
        | none => exact hfails _ (by simp [auditOutcome, hrule, hempty, hprocedure, haudit])
        | some audit =>
          dsimp only [Engine.runEvaluator, executeAudit]
          rw [← ruleEvaluator]
          generalize hevaluator : ruleEvaluator engine procedure = evaluator
          have houtcome : auditOutcome engine objectName s =
              match evaluator.evaluateProcedure [] audit .audit (evaluator.initialState ruleName s.context) with
              | .ok status _ => some (.ok status)
              | .error e _ => some (.error e) := by
            simp [auditOutcome, hrule, hempty, hprocedure, haudit, hevaluator]
          cases hrun : evaluator.evaluateProcedure [] audit .audit (evaluator.initialState ruleName s.context) with
          | ok status after =>
            rw [hrun] at houtcome
            rw [bind_run_ok _ hrun]
            exact ⟨houtcome, _, rfl⟩
          | error e after =>
            rw [hrun] at houtcome
            rw [bind_run_error _ hrun]
            intro status
            rw [houtcome]
            exact nofun

/-- What a session answers with MMI_OK starts with PASS exactly when the evaluation returned that the
rule is complied with or does not apply; after an error, or where there is nothing to evaluate, it does not. -/
theorem reports_pass_iff (num : NumberFormat) (procedureMap : ProcedureMap W) (lua : LuaVm W G)
    (clientName component objectName : Bytes) (s s' : EngineState W) (text : Bytes)
    (h : mmiGet (mmiOpen num procedureMap lua clientName) component objectName s = (.ok text, s')) :
    ReportsPass text ↔ ∃ status, (status = .compliant ∨ status = .notApplicable) ∧
      auditOutcome (mmiOpen num procedureMap lua clientName) objectName s = some (.ok status) := by
  generalize hengine : mmiOpen num procedureMap lua clientName = engine at h
  have hformatter : engine.formatter = sessionFormatter num clientName := by
    rw [← hengine]
    rfl
  have hanswers := mmiGet_answers engine objectName s
  unfold mmiGet at h
  split at h
  · cases h
  · cases hget : engine.mmiGet objectName s with
    | ok result after =>
      rw [hget] at h hanswers
      obtain ⟨houtcome, t, hpayload⟩ := hanswers
      rw [hformatter] at hpayload
      have hno : NoPass result.payload := hpayload ▸ formatPayload_noPass num clientName t
      rw [report_pass_iff hno (Prod.mk.inj h).1, houtcome]
      constructor
      · intro hstatus
        exact ⟨result.status, hstatus, rfl⟩
      · rintro ⟨status, hstatus, heq⟩
        cases heq
        exact hstatus
    | error e after =>
      rw [hget] at h hanswers
      dsimp only at h
      split at h
      · cases h
      · have hno : NoPass (nonCritical e).payload :=
          NoPass.append (by decide) (by unfold NoPass; decide) _
        rw [report_pass_iff hno (Prod.mk.inj h).1]
        constructor
        · rintro (hstatus | hstatus) <;> cases hstatus
        · rintro ⟨status, -, houtcome⟩
          exact absurd houtcome (hanswers status)

/-- A rule with nothing to check, in a session of the module tests: the audit passes. -/
theorem reports_pass_iff_allOf :
    ReportsPass (utf8 "\"PASS\x7b allOf: []\x7d == TRUE\"") := by
  have hpass := (reports_pass_iff ⟨fun _ => [], fun _ => none⟩ ∅
    ⟨(), fun _ _ => .compilationFailed .nil, fun _ => false⟩ moduleTestClientName componentName (utf8 "auditr")
    { database := (∅ : Database).insert (utf8 "r") { auditRule := some (.object [(allOfName, .array [])]) }
      context := () } _ (utf8 "\"PASS\x7b allOf: []\x7d == TRUE\"") rfl).mpr
  exact hpass ⟨.compliant, Or.inl rfl, rfl⟩

end Evaluation

end Kompli.ComplianceEngineInterface
