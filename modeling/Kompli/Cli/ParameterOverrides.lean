import Kompli.BenchmarkIO.Identity
import Kompli.Cli.PlanRoundTrip
import Kompli.ComplianceEngine.RuleIndependence
import Kompli.Foundation.MapEntries
import Kompli.Parson.Parsed

/-! The parameters of a plan, from the plan to the engine. -/
namespace Kompli.Cli
open BenchmarkIO BenchmarkDefinition Parson Ascii Foundation

def setProcedureParameter (parametersObject : Members) (parameter : Bytes × Bytes) : Except Error Members :=
  JsonWrapper.setString { message := utf8 "Failed to set procedure parameter '" ++ parameter.1 ++ utf8 "'", code := ENOMEM }
    parametersObject parameter.1 parameter.2

def applyParameterOverrides (num : NumberFormat) (procedureJson : Bytes) (parameters : ParameterMap) :
    Except Error Bytes :=
  match JsonWrapper.fromString num procedureJson with
  | .error e => .error { message := utf8 "Failed to parse procedure JSON: " ++ e.message, code := EINVAL }
  | .ok (.object root) => do
    -- a new object where the procedure has none, and then its members in place
    let parametersObject := (getObject root (utf8 "parameters")).getD []
    let parametersObject ← parameters.toList.foldlM setProcedureParameter parametersObject
    let root := objectSetValue root (utf8 "parameters") (.object parametersObject)
    .ok (jsonSerializeToString num (.object root))
  | .ok _ => .error { message := utf8 "Procedure JSON is not a JSON object", code := EINVAL }

section Setting

private theorem setMember_self {name : Bytes} {value : JsonValue} {members : Members}
    (h : JsonValue.getValue members name = some value) : setMember name value members = members := by
  induction members with
  | nil => cases h
  | cons m members ih =>
    obtain ⟨first, old⟩ := m
    rw [setMember]
    by_cases hname : first = name
    · subst hname
      rw [JsonValue.getValue, List.lookup_cons_self] at h
      cases h
      rw [if_pos rfl]
    · rw [JsonValue.getValue, List.lookup_cons, beq_eq_false_iff_ne.mpr (Ne.symm hname)] at h
      rw [if_neg hname, ih h]

private theorem setProcedureParameter_ok_iff {members members' : Members} {entry : Bytes × Bytes}
    (hname : NulFree entry.1) (hvalue : NulFree entry.2) :
    setProcedureParameter members entry = .ok members' ↔
      isValidUtf8 entry.2 = true ∧ members' = setMember entry.1 (.string entry.2) members := by
  rw [setProcedureParameter, JsonWrapper.setString_ok_iff, objectSetValue, cString_of_nulFree hname,
    cString_of_nulFree hvalue]

variable {entries : List (Bytes × Bytes)}

private theorem getValue_of_set (hclean : ∀ entry ∈ entries, NulFree entry.1 ∧ NulFree entry.2)
    (hnodup : (entries.map Prod.fst).Nodup) {members members' : Members}
    (h : entries.foldlM setProcedureParameter members = .ok members') (name : Bytes) :
    JsonValue.getValue members' name =
      ((entries.lookup name).map JsonValue.string).or (JsonValue.getValue members name) := by
  induction entries generalizing members with
  | nil =>
    cases h
    rfl
  | cons entry entries ih =>
    obtain ⟨first, value⟩ := entry
    obtain ⟨hname, hvalue⟩ := hclean _ List.mem_cons_self
    rw [List.map_cons, List.nodup_cons] at hnodup
    rw [List.foldlM_cons, except_bind_ok_iff] at h
    obtain ⟨next, hfirst, hrest⟩ := h
    obtain ⟨-, rfl⟩ := (setProcedureParameter_ok_iff hname hvalue).mp hfirst
    rw [ih (fun entry hentry => hclean entry (List.mem_cons_of_mem _ hentry)) hnodup.2 hrest, getValue_setMember,
      List.lookup_cons]
    by_cases heq : first = name
    · subst heq
      have hnone : entries.lookup first = none := by
        rw [List.lookup_eq_none_iff]
        intro entry hentry
        rw [bne_iff_ne]
        rintro rfl
        have hagain : entry.1 ∈ entries.map Prod.fst := List.mem_map_of_mem hentry
        exact hnodup.1 hagain
      simp [hnone]
    · simp [heq, beq_eq_false_iff_ne.mpr (Ne.symm heq)]

/-- Setting them again changes nothing. -/
private theorem set_again (hclean : ∀ entry ∈ entries, NulFree entry.1 ∧ NulFree entry.2) {members members' : Members}
    (h : entries.foldlM setProcedureParameter members = .ok members') {settled : Members}
    (hsettled : ∀ entry ∈ entries, JsonValue.getValue settled entry.1 = some (.string entry.2)) :
    entries.foldlM setProcedureParameter settled = .ok settled := by
  induction entries generalizing members with
  | nil => rfl
  | cons entry entries ih =>
    obtain ⟨hname, hvalue⟩ := hclean entry List.mem_cons_self
    rw [List.foldlM_cons, except_bind_ok_iff] at h
    obtain ⟨next, hfirst, hrest⟩ := h
    obtain ⟨hutf8, -⟩ := (setProcedureParameter_ok_iff hname hvalue).mp hfirst
    have hself : setProcedureParameter settled entry = .ok settled := by
      rw [setProcedureParameter_ok_iff hname hvalue, setMember_self (hsettled entry List.mem_cons_self)]
      exact ⟨hutf8, rfl⟩
    rw [List.foldlM_cons, hself, except_ok_bind]
    exact ih (fun entry hentry => hclean entry (List.mem_cons_of_mem _ hentry)) hrest
      fun entry hentry => hsettled entry (List.mem_cons_of_mem _ hentry)

end Setting

section Plan

private theorem readPlanString_nulFree {value : Option JsonValue} {context string : Bytes} {allowEmpty : Bool}
    (h : readPlanString value context allowEmpty = .ok string) : NulFree string := by
  unfold readPlanString at h
  split at h
  · split_ifs at h with hnul hempty
    cases h
    exact hnul
  · cases h

private theorem addPlanParameter_clean {context id : Bytes} {object : Members} {parameters parameters' : ParameterMap}
    {member : Bytes × JsonValue} (hclean : CleanParameters parameters)
    (h : addPlanParameter context id object parameters member = .ok parameters') : CleanParameters parameters' := by
  simp only [addPlanParameter] at h
  split at h
  · cases h
  · rename_i hname
    obtain ⟨value, hvalue, h⟩ := except_bind_ok_iff.mp h
    cases h
    intro name other hother
    rw [getElem?_insert_eq] at hother
    split at hother
    · rename_i heq
      cases hother
      rw [← heq]
      exact ⟨⟨hname, cString_nulFree _⟩, readPlanString_nulFree hvalue⟩
    · exact hclean name other hother

private theorem parsePlanParameters_clean {context id : Bytes} {ruleObject : Members} {parameters : ParameterMap}
    (h : parsePlanParameters context id ruleObject = .ok parameters) : CleanParameters parameters := by
  have hempty : CleanParameters ∅ := by
    intro name value hvalue
    simp at hvalue
  unfold parsePlanParameters at h
  split at h
  · cases h
    exact hempty
  · exact foldlM_ok_induction (fun _ _ _ => addPlanParameter_clean) hempty h
  · cases h

private theorem addPlanRule_clean {context : Bytes} {rules rules' : ByteMap PlanRuleMode} {member : Bytes × JsonValue}
    (hclean : CleanRules rules) (h : addPlanRule context rules member = .ok rules') : CleanRules rules' := by
  simp only [addPlanRule] at h
  split at h
  · cases h
  · rename_i hid
    split at h
    · obtain ⟨modeText, -, h⟩ := except_bind_ok_iff.mp h
      obtain ⟨mode, -, h⟩ := except_bind_ok_iff.mp h
      obtain ⟨parameters, hparameters, h⟩ := except_bind_ok_iff.mp h
      cases h
      intro id rule hrule
      rw [getElem?_insert_eq] at hrule
      split at hrule
      · rename_i heq
        cases hrule
        rw [← heq]
        exact ⟨⟨hid, cString_nulFree _⟩, parsePlanParameters_clean hparameters⟩
      · exact hclean id rule hrule
    · cases h

private theorem parsePlanBenchmark_clean {index : Nat} {value : JsonValue} {block : PlanBenchmark}
    (h : parsePlanBenchmark index value = .ok block) : CleanRules block.rules := by
  unfold parsePlanBenchmark at h
  split at h
  · obtain ⟨file, -, h⟩ := except_bind_ok_iff.mp h
    obtain ⟨name, -, h⟩ := except_bind_ok_iff.mp h
    obtain ⟨⟨version, versionConstraint⟩, -, h⟩ := except_bind_ok_iff.mp h
    dsimp only at h
    split at h
    · cases h
    · obtain ⟨rules, hrules, h⟩ := except_bind_ok_iff.mp h
      cases h
      refine foldlM_ok_induction (fun _ _ _ => addPlanRule_clean) (fun id rule hrule => ?_) hrules
      simp at hrule
  · cases h

private theorem parsePlanBenchmarks_clean {values : List JsonValue} {index : Nat} {blocks : List PlanBenchmark}
    (h : parsePlanBenchmarks index values = .ok blocks) : ∀ block ∈ blocks, CleanRules block.rules := by
  induction values generalizing index blocks with
  | nil =>
    cases h
    exact fun block hblock => absurd hblock List.not_mem_nil
  | cons value values ih =>
    rw [parsePlanBenchmarks, except_bind_ok_iff] at h
    obtain ⟨first, hfirst, h⟩ := h
    obtain ⟨rest, hrest, h⟩ := except_bind_ok_iff.mp h
    cases h
    intro block hblock
    rcases List.mem_cons.mp hblock with rfl | hblock
    · exact parsePlanBenchmark_clean hfirst
    · exact ih hrest block hblock

/-- What is read of a plan are C strings. -/
theorem parsePlan_clean {num : NumberFormat} {content : Bytes} {plan : Plan}
    (h : parsePlan num content = .ok plan) : ∀ block ∈ plan.benchmarks, CleanRules block.rules := by
  unfold parsePlan at h
  split_ifs at h
  obtain ⟨-, -, h⟩ := except_bind_ok_iff.mp h
  split at h
  · cases h
  · unfold parsePlanRoot at h
    split at h
    · cases h
    · cases h
    · obtain ⟨blocks, hblocks, h⟩ := except_bind_ok_iff.mp h
      cases h
      exact parsePlanBenchmarks_clean hblocks
  · cases h

end Plan

section Definition

variable {num : NumberFormat}

/-- The payload of a rule, in the definition and for the engine. -/
def HasPayload (num : NumberFormat) (json : Bytes) (resource : Resource) (payload : Members) : Prop :=
  ∃ root spec rules ruleObject, JsonWrapper.fromString num json = .ok (.object root) ∧
    getObject root (utf8 "spec") = some spec ∧ getArray spec (utf8 "rules") = some rules ∧
    .object ruleObject ∈ rules ∧ getObject ruleObject (utf8 "payload") = some payload ∧
    resource.procedure = jsonSerializeToString num (.object payload)

private theorem parseRule_procedure {ruleObject : Members} {index : Nat} {documentInfo : BenchmarkInfo}
    {resource : Resource} (h : BenchmarkDefinition.parseRule num ruleObject index documentInfo = .ok resource) :
    IsIdentifier resource.ruleName ∧ ∃ payload, getObject ruleObject (utf8 "payload") = some payload ∧
      resource.procedure = jsonSerializeToString num (.object payload) := by
  obtain ⟨title, -, h⟩ := except_bind_ok_iff.mp h
  obtain ⟨ruleId, -, h⟩ := except_bind_ok_iff.mp h
  obtain ⟨ruleName, hname, h⟩ := except_bind_ok_iff.mp h
  obtain ⟨procedure, hprocedure, h⟩ := except_bind_ok_iff.mp h
  obtain ⟨parameterMetadata, -, h⟩ := except_bind_ok_iff.mp h
  obtain ⟨id, -, h⟩ := except_bind_ok_iff.mp h
  obtain ⟨tags, -, h⟩ := except_bind_ok_iff.mp h
  obtain ⟨metadata, -, h⟩ := except_bind_ok_iff.mp h
  cases h
  refine ⟨requiredString_ok hname, ?_⟩
  unfold serializeProcedure at hprocedure
  split at hprocedure
  · rename_i payload hpayload
    cases hprocedure
    exact ⟨payload, by rw [getObject, hpayload], rfl⟩
  · cases hprocedure

theorem hasPayload_of_accepted {json : Bytes} {document : BenchmarkDocument}
    (h : BenchmarkDefinition.parseString num json = .ok document) {resource : Resource}
    (hresource : resource ∈ document.resources) :
    IsIdentifier resource.ruleName ∧ ∃ payload, HasPayload num json resource payload := by
  obtain ⟨root, hparse, hroot⟩ := parseString_cases h
  obtain ⟨metadata, spec, rules, -, -, hspec, hrules, -, hresources⟩ := parseRoot_cases hroot
  obtain ⟨-, parsed, hresult, hparsed⟩ := parseRules_forall₂ (by simp) hresources
  rw [List.nil_append] at hresult
  rw [hresult] at hresource
  obtain ⟨rule, hmem, ruleObject, index, rfl, hrule⟩ := forall₂_mem_right hparsed hresource
  obtain ⟨hname, payload, hpayload, hprocedure⟩ := parseRule_procedure hrule
  exact ⟨hname, payload, root, spec, rules, ruleObject, hparse, hspec, hrules, hmem, hpayload, hprocedure⟩

theorem HasPayload.wellFormed (hnum : num.RereadsItself) {json : Bytes} {resource : Resource} {payload : Members}
    (h : HasPayload num json resource payload) : WellFormed num (.object payload) := by
  obtain ⟨root, spec, rules, ruleObject, hparse, hspec, hrules, hmem, hpayload, -⟩ := h
  have hroot : WellFormed num (.object root) := by
    unfold JsonWrapper.fromString at hparse
    split at hparse
    · cases hparse
    · split at hparse
      · rename_i value hvalue
        cases hparse
        exact jsonParseString_wellFormed hnum hvalue
      · cases hparse
  have hrule : WellFormed num (.object ruleObject) := by
    unfold getArray at hrules
    split at hrules
    · rename_i hvalue
      cases hrules
      cases (hroot.getObject hspec).getValue hvalue with
      | array hitems => exact hitems _ hmem
    · cases hrules
  exact hrule.getObject hpayload

end Definition

section Overridden

variable {num : NumberFormat} {payload : Members} {parameters : ParameterMap}

private theorem fromString_serialize {v w : JsonValue} (hv : WellFormed num v)
    (h : JsonWrapper.fromString num (jsonSerializeToString num v) = .ok w) : w = v := by
  have hparse : jsonParseString num (serialize num false 0 v ++ []) =
      if nestsWithin (maxNesting + 1) v then some v else none :=
    jsonParseString_serialize hv false 0 (fun c hc => by cases hc)
  rw [List.append_nil] at hparse
  unfold JsonWrapper.fromString jsonSerializeToString at h
  rw [hparse] at h
  split_ifs at h with hnul hfits
  cases h
  rfl

private theorem entries_clean (hclean : CleanParameters parameters) :
    ∀ entry ∈ parameters.toList, NulFree entry.1 ∧ NulFree entry.2 := by
  intro entry hentry
  obtain ⟨⟨-, hname⟩, hvalue⟩ := hclean entry.1 entry.2 (mem_toList.mp hentry)
  exact ⟨hname, hvalue⟩

private theorem lookup_toList (parameters : ParameterMap) (name : Bytes) :
    parameters.toList.lookup name = parameters[name]? := by
  cases hvalue : parameters[name]? with
  | some value => exact lookup_of_mem (x := (name, value)) (nodup_keys parameters) (mem_toList.mpr hvalue)
  | none =>
    rw [List.lookup_eq_none_iff]
    intro entry hentry
    rw [bne_iff_ne]
    rintro rfl
    rw [mem_toList.mp hentry] at hvalue
    cases hvalue

/-- The payload with its parameters overridden, as it is before it is written. -/
structure Overridden (payload : Members) (parameters : ParameterMap) (result : Members) : Prop where
  others : ∀ name, name ≠ utf8 "parameters" → JsonValue.getValue result name = JsonValue.getValue payload name
  again : ∃ parametersObject, JsonValue.getValue result (utf8 "parameters") = some (.object parametersObject) ∧
    parameters.toList.foldlM setProcedureParameter parametersObject = .ok parametersObject ∧
    ∀ name, JsonValue.getValue parametersObject name = (parameters[name]?.map JsonValue.string).or
      ((getObject payload (utf8 "parameters")).bind (JsonValue.getValue · name))

theorem applyParameterOverrides_ok (hpayload : WellFormed num (.object payload)) (hclean : CleanParameters parameters)
    {procedure : Bytes}
    (h : applyParameterOverrides num (jsonSerializeToString num (.object payload)) parameters = .ok procedure) :
    ∃ result, procedure = jsonSerializeToString num (.object result) ∧ WellFormed num (.object result) ∧
      Overridden payload parameters result := by
  unfold applyParameterOverrides at h
  split at h
  · cases h
  · rename_i root hroot
    cases fromString_serialize hpayload hroot
    obtain ⟨parametersObject, hset, h⟩ := except_bind_ok_iff.mp h
    cases h
    have hown : WellFormed num (.object ((getObject payload (utf8 "parameters")).getD [])) := by
      cases hget : getObject payload (utf8 "parameters") with
      | none => exact .object (by simp) (by simp) (by simp)
      | some own => exact hpayload.getObject hget
    have hclean' := entries_clean hclean
    have hparameters : WellFormed num (.object parametersObject) := by
      refine foldlM_ok_induction (P := fun members => WellFormed num (.object members)) ?_ hown hset
      intro members entry members' hmembers hstep
      obtain ⟨-, rfl⟩ := JsonWrapper.setString_ok_iff.mp hstep
      exact hmembers.setMember (cString_nulFree _) (.string _)
    have hname : cString (utf8 "parameters") = utf8 "parameters" := by decide
    refine ⟨_, rfl, ?_, fun name hne => ?_, parametersObject, ?_, ?_, fun name => ?_⟩
    · rw [objectSetValue, hname]
      exact hpayload.setMember (by decide) hparameters
    · rw [getValue_objectSetValue, hname, if_neg (Ne.symm hne)]
    · rw [getValue_objectSetValue, hname, if_pos rfl]
    · refine set_again hclean' hset fun entry hentry => ?_
      rw [getValue_of_set hclean' (nodup_keys parameters) hset, lookup_toList, mem_toList.mp hentry]
      rfl
    · rw [getValue_of_set hclean' (nodup_keys parameters) hset, lookup_toList]
      cases getObject payload (utf8 "parameters") <;> rfl
  · cases h

/-- The same overrides again change nothing. -/
theorem applyParameterOverrides_again {result : Members} {value : JsonValue} (hresult : WellFormed num (.object result))
    (hoverridden : Overridden payload parameters result)
    (hread : JsonWrapper.fromString num (jsonSerializeToString num (.object result)) = .ok value) :
    applyParameterOverrides num (jsonSerializeToString num (.object result)) parameters =
      .ok (jsonSerializeToString num (.object result)) := by
  cases fromString_serialize hresult hread
  obtain ⟨parametersObject, hvalue, hagain, -⟩ := hoverridden.again
  have hget : getObject result (utf8 "parameters") = some parametersObject := by
    rw [getObject, hvalue]
  have hname : cString (utf8 "parameters") = utf8 "parameters" := by decide
  unfold applyParameterOverrides
  rw [hread]
  simp only [hget, Option.getD_some, hagain, except_ok_bind]
  rw [objectSetValue, hname, setMember_self hvalue]

end Overridden

section Stored

variable {W G : Type} {engine : Engine W G} {rule : CString}

private theorem getElem?_of_parseObject {members : Members} (hnul : ∀ m ∈ members, NulFree m.1)
    {read parameters : ParameterMap} (h : members.foldlM ProcedureParameters.parseMember read = .ok parameters)
    (name : Bytes) : parameters[name]? = read[name]?.or (JsonValue.getString members name) := by
  induction members generalizing read with
  | nil =>
    cases h
    simp [JsonValue.getString, JsonValue.getValue]
  | cons m members ih =>
    obtain ⟨first, value⟩ := m
    rw [List.foldlM_cons, except_bind_ok_iff] at h
    obtain ⟨next, hfirst, hrest⟩ := h
    have hrest := ih (fun m hm => hnul m (List.mem_cons_of_mem _ hm)) hrest
    unfold ProcedureParameters.parseMember at hfirst
    split at hfirst
    · rename_i string hstring
      obtain rfl : value = .string string := hstring
      cases hfirst
      rw [hrest, ProcedureParameters.emplace, cString_of_nulFree (hnul _ List.mem_cons_self),
        Std.ExtTreeMap.getElem?_insertIfNew, JsonValue.getString, JsonValue.getString, JsonValue.getValue,
        JsonValue.getValue, List.lookup_cons]
      simp only [Std.LawfulEqCmp.compare_eq_iff_eq]
      by_cases hname : first = name
      · subst hname
        by_cases hmem : first ∈ read
        · simp [hmem]
        · simp [hmem]
      · simp [hname, beq_eq_false_iff_ne.mpr (Ne.symm hname)]
    · cases hfirst

private theorem parseRule_serialize {num : NumberFormat} {members : Members} {value : JsonValue}
    (hmembers : WellFormed num (.object members))
    (h : Procedure.parseRule num (jsonSerializeToString num (.object members)) = .ok value) :
    JsonWrapper.fromString num (jsonSerializeToString num (.object members)) = .ok value ∧ value = .object members := by
  have hbase64 : ∀ json, JsonWrapper.fromBase64 num (jsonSerializeToString num (.object members)) ≠ .ok json := by
    intro json hjson
    obtain ⟨decoded, hdecoded, -⟩ := except_bind_ok_iff.mp hjson
    obtain ⟨text, htext⟩ : ∃ text, jsonSerializeToString num (.object members) = leftBrace :: text := by
      cases members with
      | nil => exact ⟨_, by rw [jsonSerializeToString, serialize]⟩
      | cons m members => exact ⟨_, by rw [jsonSerializeToString, serialize]⟩
    rw [htext] at hdecoded
    unfold Base64.decode at hdecoded
    split_ifs at hdecoded with hlength hall
    exact absurd (List.all_eq_true.mp (by simpa using hall) leftBrace List.mem_cons_self) (by decide)
  unfold Procedure.parseRule at h
  split at h
  · rename_i json hjson
    exact absurd hjson (hbase64 json)
  · exact ⟨h, fromString_serialize hmembers h⟩

private theorem ofExcept_ok {α : Type} {result : Except Error α} {a : α} {s t : EngineState W}
    (h : Engine.ofExcept result s = .ok a t) : result = .ok a := by
  cases result with
  | ok b =>
    cases h
    rfl
  | error e => cases h

private theorem ofRule_ok {members : Members} {procedure : Procedure} (h : Procedure.ofRule (.object members) = .ok procedure)
    {parametersObject : Members}
    (hparameters : JsonValue.getValue members (utf8 "parameters") = some (.object parametersObject)) :
    procedure.auditRule = JsonValue.getValue members (utf8 "audit") ∧
      procedure.remediationRule = JsonValue.getValue members (utf8 "remediate") ∧
      ProcedureParameters.parseObject parametersObject = .ok procedure.parameters := by
  unfold Procedure.ofRule at h
  dsimp only at h
  split at h
  · cases h
  · rename_i rule haudit
    obtain ⟨withRemediation, hremediation, h⟩ := except_bind_ok_iff.mp h
    unfold Procedure.withParameters at h
    rw [hparameters] at h
    obtain ⟨parameters, hparse, h⟩ := except_bind_ok_iff.mp h
    cases h
    unfold Procedure.withRemediation at hremediation
    rw [haudit]
    split at hremediation
    · rename_i hnone
      cases hremediation
      exact ⟨rfl, hnone.symm, hparse⟩
    · rename_i hsome
      cases hremediation
      exact ⟨rfl, hsome.symm, hparse⟩
    · cases hremediation
  · cases h

/-- What a procedure that is set is stored as. -/
theorem mmiSet_procedure_ok (rule : CString) {payload : Bytes} {status : Status} {s t : EngineState W}
    (h : engine.mmiSet (Engine.procedurePrefix ++ rule.val) payload s = .ok status t) :
    ∃ ruleJson procedure, Procedure.parseRule engine.num payload = .ok ruleJson ∧
      Procedure.ofRule ruleJson = .ok procedure ∧ rule.val ≠ [] ∧ t.database[rule.val]? = some procedure := by
  rw [Engine.mmiSet_procedure] at h
  obtain ⟨_, t', hset, h⟩ := bind_ok_iff.mp h
  cases h
  unfold Engine.setProcedure at hset
  split at hset
  · cases hset
  · rename_i hne
    obtain ⟨_, s₁, herase, hset⟩ := bind_ok_iff.mp hset
    obtain ⟨ruleJson, s₂, hparse, hset⟩ := bind_ok_iff.mp hset
    obtain ⟨procedure, s₃, hprocedure, hset⟩ := bind_ok_iff.mp hset
    cases hset
    refine ⟨ruleJson, procedure, ?_, ?_, hne, ?_⟩
    · exact ofExcept_ok hparse
    · exact ofExcept_ok hprocedure
    · simp

private theorem withStored_some {α : Type} {missing : Error} {use : Procedure → Engine.EngineM W α} {s : EngineState W}
    {procedure : Procedure} (hne : rule.val ≠ []) (h : s.database[rule.val]? = some procedure) :
    Engine.withStored rule.val missing use s = use procedure s := by
  unfold Engine.withStored
  rw [if_neg hne]
  have hget : (get : Engine.EngineM W (EngineState W)) s = .ok s s := rfl
  rw [Foundation.bind_run_ok _ hget]
  simp only [h]

private theorem update_with_nothing (num : NumberFormat) (procedure : Procedure) :
    Procedure.updateUserParameters num (utf8 "\x7b\x7d") procedure = .ok () procedure := by
  rfl

private theorem runEvaluator_database {α : Type} (engine : Engine W G) (ruleName : Bytes) (parameters : ParameterMap)
    (run : Evaluator W G → EvalM W G α) (s : EngineState W) :
    (leaves (Engine.runEvaluator engine ruleName parameters run) s).database = s.database := by
  unfold Engine.runEvaluator leaves
  dsimp only
  split
  · rename_i hrun
    split at hrun <;> cases hrun
    rfl
  · rename_i hrun
    split at hrun <;> cases hrun
    rfl

/-- An empty object of parameters leaves what is stored as it is. -/
theorem stored_after (engine : Engine W G) (rule : CString) {call : Bytes} (hcall : call = Engine.initPrefix ∨ call = Engine.remediatePrefix)
    {t : EngineState W} {procedure : Procedure} (hne : rule.val ≠ [])
    (h : t.database[rule.val]? = some procedure) :
    (leaves (engine.mmiSet (call ++ rule.val) (utf8 "\x7b\x7d")) t).database[rule.val]? = some procedure := by
  have hupdate : Engine.updateStored engine rule.val (utf8 "\x7b\x7d") procedure t =
      .ok procedure { t with database := t.database.insert rule.val procedure } := by
    rw [Engine.updateStored, update_with_nothing]
  rcases hcall with rfl | rfl
  · rw [Engine.mmiSet_init]
    have hrun : Engine.initAudit engine rule.val (utf8 "\x7b\x7d") t =
        .ok () { t with database := t.database.insert rule.val procedure } := by
      rw [Engine.initAudit, withStored_some hne h, bind_run_ok _ hupdate]
      rfl
    have hcall : (do
        Engine.initAudit engine rule.val (utf8 "\x7b\x7d")
        pure Status.compliant : Engine.EngineM W Status) t =
          .ok Status.compliant { t with database := t.database.insert rule.val procedure } := bind_run_ok _ hrun
    rw [leaves_of_ok hcall]
    simp
  · rw [Engine.mmiSet_remediate, Engine.executeRemediation]
    simp only [leaves, withStored_some hne h]
    cases procedure.remediationOrAudit with
    | none => exact h
    | some remediation =>
      have hrun := runEvaluator_database engine rule.val procedure.parameters (·.executeRemediation remediation)
        { t with database := t.database.insert rule.val procedure }
      simp only [bind_run_ok _ hupdate]
      rw [leaves] at hrun
      rw [hrun]
      simp

end Stored

section Planned

variable {W G : Type} (engine : Engine W G)

/-- A parameter of a payload. -/
def ownParameter (payload : Members) (name : Bytes) : Option Bytes :=
  (getObject payload (utf8 "parameters")).bind (JsonValue.getString · name)

/-- The engine has the parameters of the payload, but for those of the plan, and the rest of the payload as it is. -/
structure ReachesEngine (payload : Members) (parameters : ParameterMap) (ruleName : Bytes) (s : EngineState W) : Prop where
  parameters : ∀ name, (Engine.getParameters ruleName s)[name]? = parameters[name]?.or (ownParameter payload name)
  stored : ∃ procedure, s.database[ruleName]? = some procedure ∧
    procedure.auditRule = JsonValue.getValue payload (utf8 "audit") ∧
    procedure.remediationRule = JsonValue.getValue payload (utf8 "remediate")

/-- The parameters of a plan override those of the payload of a rule, and nothing else
changes on the way from the definition to the engine. -/
theorem parameters_reach_engine (hnum : engine.num.RereadsItself) {json content procedure : Bytes}
    {document : BenchmarkDocument} (hdocument : BenchmarkDefinition.parseString engine.num json = .ok document)
    {resource : Resource} (hresource : resource ∈ document.resources) {plan : Plan}
    (hplan : parsePlan engine.num content = .ok plan) {block : PlanBenchmark} (hblock : block ∈ plan.benchmarks)
    {id : Bytes} {rule : PlanRuleMode} (hrule : block.rules[id]? = some rule)
    (happly : applyParameterOverrides engine.num resource.procedure rule.parameters = .ok procedure)
    {status : Status} {s t : EngineState W}
    (hset : engine.mmiSet (Engine.procedurePrefix ++ resource.ruleName) procedure s = .ok status t) :
    ∃ payload, HasPayload engine.num json resource payload ∧
      (∀ call, call = Engine.initPrefix ∨ call = Engine.remediatePrefix →
        ReachesEngine payload rule.parameters resource.ruleName
          (leaves (engine.mmiSet (call ++ resource.ruleName) (utf8 "\x7b\x7d")) t)) ∧
      (∃ result, JsonWrapper.fromString engine.num procedure = .ok (.object result) ∧
        ∀ name, name ≠ utf8 "parameters" → JsonValue.getValue result name = JsonValue.getValue payload name) ∧
      applyParameterOverrides engine.num procedure rule.parameters = .ok procedure := by
  obtain ⟨⟨-, hname⟩, payload, hpayload⟩ := hasPayload_of_accepted hdocument hresource
  obtain ⟨-, hclean⟩ := parsePlan_clean hplan block hblock id rule hrule
  have hprocedure : resource.procedure = jsonSerializeToString engine.num (.object payload) := by
    obtain ⟨_, _, _, _, -, -, -, -, -, hprocedure⟩ := hpayload
    exact hprocedure
  rw [hprocedure] at happly
  obtain ⟨result, rfl, hresult, hoverridden⟩ := applyParameterOverrides_ok (hpayload.wellFormed hnum) hclean happly
  obtain ⟨ruleJson, stored, hparse, hof, hne, hstored⟩ := mmiSet_procedure_ok ⟨resource.ruleName, hname⟩ hset
  obtain ⟨hread, rfl⟩ := parseRule_serialize hresult hparse
  refine ⟨payload, hpayload, fun call hcall => ?_, ⟨result, hread, hoverridden.others⟩,
    applyParameterOverrides_again hresult hoverridden hread⟩
  have hafter := stored_after engine ⟨resource.ruleName, hname⟩ hcall hne hstored
  obtain ⟨parametersObject, hvalue, -, hget⟩ := hoverridden.again
  obtain ⟨haudit, hremediate, hparameters⟩ := ofRule_ok hof hvalue
  refine ⟨fun name => ?_, stored, hafter, ?_, ?_⟩
  · have hnul : ∀ m ∈ parametersObject, NulFree m.1 := by
      cases hresult.getValue hvalue with
      | object _ _ hnul => exact hnul
    have hread := getElem?_of_parseObject hnul hparameters name
    rw [Engine.getParameters]
    simp only [hafter]
    rw [hread, JsonValue.getString, hget name, ownParameter]
    cases hplanned : rule.parameters[name]? with
    | some value =>
      simp [cString_of_nulFree (hclean name value hplanned).2]
    | none =>
      cases hown : getObject payload (utf8 "parameters") with
      | none => simp
      | some own => simp [JsonValue.getString]
  · rw [haudit, hoverridden.others _ (by decide)]
  · rw [hremediate, hoverridden.others _ (by decide)]

private def member (name value : String) : Bytes × JsonValue := (utf8 name, .string (utf8 value))

private def overriddenRule : JsonValue :=
  .object [member "id" "r", member "title" "A rule", member "ruleId" "r1", member "ruleName" "RuleR",
    (utf8 "payload", .object [(utf8 "audit", .object [(utf8 "anyOf", .array [])]),
      (utf8 "parameters", .object [member "p" "0", member "q" "2"])]),
    (utf8 "tags", .array []), (utf8 "metadata", .object [])]

private def overriddenDefinition : JsonValue :=
  .object [member "kind" "BenchmarkDefinition", member "apiVersion" "v1",
    (utf8 "metadata", .object [member "name" "Example",
      (utf8 "labels", .object [member "framework" "cis", member "distribution" "ubuntu",
        member "distributionVersion" "22.04"]),
      (utf8 "annotations", .object [member "benchmarkVersion" "1.0.0"])]),
    (utf8 "spec", .object [member "version" "1.0.0", (utf8 "rules", .array [overriddenRule])])]

private def overridingPlan : JsonValue :=
  .object [(utf8 "benchmarks", .array [.object [member "file" "x.json", member "version" "1.0.0",
    member "versionConstraint" "^1.0.0", (utf8 "rules", .object [(utf8 "r", .object [member "mode" "audit",
      (utf8 "parameters", .object [member "p" "1"])])])]])]

private def overriddenText : Bytes := jsonSerializeToString Engine.bare.num overriddenDefinition
private def overridingText : Bytes := jsonSerializeToString Engine.bare.num overridingPlan

/-- The first rule of a definition, what a plan says of it, what becomes of its payload, and the
engine that has it. -/
private def overriddenRun (json content id : Bytes) : Option (Resource × PlanRuleMode × Bytes × EngineState Unit) := do
  let document ← (BenchmarkDefinition.parseString Engine.bare.num json).toOption
  let resource ← document.resources.head?
  let plan ← (parsePlan Engine.bare.num content).toOption
  let block ← plan.benchmarks.head?
  let rule ← block.rules[id]?
  let procedure ← (applyParameterOverrides Engine.bare.num resource.procedure rule.parameters).toOption
  match Engine.bare.mmiSet (Engine.procedurePrefix ++ resource.ruleName) procedure { context := () } with
  | .ok _ t => some (resource, rule, procedure, t)
  | .error _ _ => none

private theorem overriddenRun_some {json content id : Bytes} {resource : Resource} {rule : PlanRuleMode}
    {procedure : Bytes} {t : EngineState Unit}
    (h : overriddenRun json content id = some (resource, rule, procedure, t)) :
    ∃ document plan block status, BenchmarkDefinition.parseString Engine.bare.num json = .ok document ∧
      resource ∈ document.resources ∧ parsePlan Engine.bare.num content = .ok plan ∧ block ∈ plan.benchmarks ∧
      block.rules[id]? = some rule ∧
      applyParameterOverrides Engine.bare.num resource.procedure rule.parameters = .ok procedure ∧
      Engine.bare.mmiSet (Engine.procedurePrefix ++ resource.ruleName) procedure { context := () } = .ok status t := by
  unfold overriddenRun at h
  obtain ⟨document, hdocument, h⟩ := Option.bind_eq_some_iff.mp h
  obtain ⟨resource', hresource, h⟩ := Option.bind_eq_some_iff.mp h
  obtain ⟨plan, hplan, h⟩ := Option.bind_eq_some_iff.mp h
  obtain ⟨block, hblock, h⟩ := Option.bind_eq_some_iff.mp h
  obtain ⟨rule', hrule, h⟩ := Option.bind_eq_some_iff.mp h
  obtain ⟨procedure', happly, h⟩ := Option.bind_eq_some_iff.mp h
  split at h
  · rename_i status _ hset
    cases h
    exact ⟨document, plan, block, status, except_toOption_iff.mp hdocument, List.mem_of_mem_head? hresource,
      except_toOption_iff.mp hplan, List.mem_of_mem_head? hblock, hrule, except_toOption_iff.mp happly, hset⟩
  · cases h

/-- A plan that sets one of two parameters. -/
theorem parameters_reach_engine_example :
    ∃ resource rule procedure t payload,
      overriddenRun overriddenText overridingText (utf8 "r") = some (resource, rule, procedure, t) ∧
      ReachesEngine payload rule.parameters resource.ruleName
        (leaves (Engine.bare.mmiSet (Engine.initPrefix ++ resource.ruleName) (utf8 "\x7b\x7d")) t) ∧
      applyParameterOverrides Engine.bare.num procedure rule.parameters = .ok procedure := by
  have hnum : Engine.bare.num.RereadsItself := fun s bits length h => by cases h
  have hsome : (overriddenRun overriddenText overridingText (utf8 "r")).isSome = true := by
    decide +kernel
  obtain ⟨⟨resource, rule, procedure, t⟩, hrun⟩ := Option.isSome_iff_exists.mp hsome
  obtain ⟨document, plan, block, status, hdocument, hresource, hplan, hblock, hrule, happly, hset⟩ :=
    overriddenRun_some hrun
  obtain ⟨payload, -, hreaches, -, hagain⟩ :=
    parameters_reach_engine Engine.bare hnum hdocument hresource hplan hblock hrule happly hset
  exact ⟨resource, rule, procedure, t, payload, hrun, hreaches _ (Or.inl rfl), hagain⟩

end Planned

end Kompli.Cli
