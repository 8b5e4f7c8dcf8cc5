import Kompli.Cli.RunAccounting
import Kompli.Parson.Parsed

/-! The text that a run prints is read back as the document that it is of. -/
namespace Kompli.Cli
open BenchmarkIO BenchmarkDefinition Parson Foundation JsonWrapper

variable {num : NumberFormat}

section RuleResult

private theorem wellFormed_nil : WellFormed num (.object []) := .object (by simp) (by simp) (by simp)

private theorem wellFormed_objectSetValue {object : Members} {name : Bytes} {value : JsonValue}
    (h : WellFormed num (.object object)) (hvalue : WellFormed num value) :
    WellFormed num (.object (objectSetValue object name value)) :=
  h.setMember (cString_nulFree name) hvalue

private theorem wellFormed_setString {failed : Error} {object object' : Members} {name text : Bytes}
    (h : WellFormed num (.object object)) (hset : JsonWrapper.setString failed object name text = .ok object') :
    WellFormed num (.object object') := by
  obtain ⟨-, rfl⟩ := setString_ok_iff.mp hset
  exact wellFormed_objectSetValue h (.string _)

private theorem wellFormed_provenance {benchmarkInfo : BenchmarkInfo} {benchmark : Members}
    (h : benchmarkProvenance benchmarkInfo = .ok benchmark) : WellFormed num (.object benchmark) := by
  simp only [benchmarkProvenance, except_bind_ok_iff] at h
  obtain ⟨_, hframework, _, hdistribution, _, hversion, hbenchmark⟩ := h
  exact wellFormed_setString (wellFormed_setString (wellFormed_setString (wellFormed_setString wellFormed_nil
    hframework) hdistribution) hversion) hbenchmark

private theorem wellFormed_tag {tag : Bytes} {value : JsonValue} (h : tagValue tag = .ok value) :
    WellFormed num value := by
  rw [tagValue, initString] at h
  split at h
  · next hvalue =>
    split_ifs at hvalue
    cases hvalue
    cases h
    exact .string _
  · cases h

private theorem wellFormed_field {object object' : Members} {field : Bytes × Option Bytes}
    (h : WellFormed num (.object object)) (hset : setField object field = .ok object') :
    WellFormed num (.object object') := by
  simp only [setField] at hset
  split at hset
  · cases hset
    exact h
  · split at hset
    · cases hset
    · exact wellFormed_setString h hset

private theorem wellFormed_additional {object object' : Members} {field : Bytes × Bytes}
    (h : WellFormed num (.object object)) (hset : setAdditionalField object field = .ok object') :
    WellFormed num (.object object') := by
  simp only [setAdditionalField] at hset
  split at hset
  · cases hset
  · exact wellFormed_setString h hset

private theorem wellFormed_common {object result : Members} {entry : Resource} {parameters : ParameterMap}
    (h : WellFormed num (.object object)) (hfill : fillCommonRuleFields object entry parameters = .ok result) :
    WellFormed num (.object result) := by
  simp only [fillCommonRuleFields, except_bind_ok_iff] at hfill
  obtain ⟨benchmark, hbenchmark, _, htitle, _, hid, _, hruleId, _, hruleName, tags, htags, fields, hfields, additional,
    hadditional, values, hvalues, ⟨⟩⟩ := hfill
  have hmetadata : WellFormed num (.object additional) :=
    foldlM_ok_induction (fun _ _ _ => wellFormed_additional)
      (foldlM_ok_induction (fun _ _ _ => wellFormed_field) wellFormed_nil hfields) hadditional
  have hparameters : WellFormed num (.object values) :=
    foldlM_ok_induction (fun _ _ _ => wellFormed_setString) wellFormed_nil hvalues
  have htagValues : ∀ value ∈ tags, WellFormed num value := by
    intro value hvalue
    obtain ⟨tag, -, htag⟩ := forall₂_mem_right (mapM_ok_forall₂ htags) hvalue
    exact wellFormed_tag htag
  refine wellFormed_objectSetValue (wellFormed_objectSetValue (wellFormed_objectSetValue ?_ (.array htagValues))
    hmetadata) hparameters
  exact wellFormed_setString (wellFormed_setString (wellFormed_setString (wellFormed_setString
    (wellFormed_objectSetValue h (wellFormed_provenance hbenchmark)) htitle) hid) hruleId) hruleName

private theorem wellFormed_result (hnum : num.RereadsItself) {entry : Resource} {status : Status}
    {payload : Bytes} {parameters : ParameterMap} {action : Action} {rule : Members}
    (h : buildRuleResultJson num entry status payload parameters action = .ok rule) :
    WellFormed num (.object rule) := by
  rw [buildRuleResultJson] at h
  split at h
  · cases h
  · next indicators hparse =>
    simp only [except_bind_ok_iff] at h
    obtain ⟨_, hstatus, _, haction, hfill⟩ := h
    have hindicators := jsonParseString_wellFormed hnum hparse
    exact wellFormed_common (wellFormed_setString (wellFormed_setString
      (wellFormed_objectSetValue wellFormed_nil hindicators) hstatus) haction) hfill
  · cases h

private theorem wellFormed_skipped {entry : Resource} {parameters : ParameterMap} {rule : Members}
    (h : buildSkippedRuleResultJson entry parameters = .ok rule) : WellFormed num (.object rule) := by
  simp only [buildSkippedRuleResultJson, except_bind_ok_iff] at h
  obtain ⟨_, hstatus, hfill⟩ := h
  exact wellFormed_common (wellFormed_setString (wellFormed_objectSetValue wellFormed_nil (.array (by simp))) hstatus)
    hfill

end RuleResult

section Document

variable {W G : Type} {environment : RunEnvironment W G} {continueOnError : Bool} {plan : Plan}
  {documents : List BenchmarkDocument} {start : EngineState W} {result : RunResult}

private theorem wellFormed_begin {timestamp : Bytes} {distributionInfo : DistributionInfo}
    {formatter : BenchmarkFormatter} (h : BenchmarkFormatter.begin_ timestamp distributionInfo = .ok formatter) :
    WellFormed num (.object formatter.json) := by
  simp only [BenchmarkFormatter.begin_, except_bind_ok_iff] at h
  obtain ⟨_, htimestamp, _, harch, _, hdistribution, _, hversion, ⟨⟩⟩ := h
  have hhost : WellFormed num (.object _) :=
    wellFormed_setString (wellFormed_setString (wellFormed_setString wellFormed_nil harch) hdistribution) hversion
  exact wellFormed_objectSetValue (wellFormed_objectSetValue (wellFormed_setString wellFormed_nil htimestamp) hhost)
    (.array (by simp))

private theorem wellFormed_finish {formatter : BenchmarkFormatter} {durationMs : UInt64} {status : Status}
    {document : Members} (hjson : WellFormed num (.object formatter.json))
    (hrules : ∀ rule ∈ formatter.rules, WellFormed num rule) (hduration : num.Rereads durationMs)
    (h : formatter.finish durationMs status = .ok document) : WellFormed num (.object document) :=
  wellFormed_setString (wellFormed_objectSetValue (wellFormed_objectSetValue hjson (.array hrules))
    (.number hduration)) h

private theorem wellFormed_outcome {engine : Engine W G} (hnum : engine.num.RereadsItself) {visit : Visit W}
    {rule : Members} (h : (outcome engine visit.benchmark visit.entry visit.before).1.rule? = some rule) :
    WellFormed engine.num (.object rule) := by
  rcases outcome_rule h with hskipped | ⟨status, payload, parameters, action, hresult⟩
  · exact wellFormed_skipped hskipped
  · exact wellFormed_result hnum hresult

/-- The document of a run is one that parson can have read. -/
theorem wellFormed_document (hnum : environment.engine.num.RereadsItself)
    (hduration : environment.engine.num.Rereads environment.durationMs)
    (h : run environment continueOnError plan documents start = some result) :
    WellFormed environment.engine.num (.object result.document) := by
  obtain ⟨-, formatter, s, hbegin, hs, hfinish⟩ := run_eq_some h
  have hrules : formatter.rules = [] := BenchmarkFormatter.begin_rules hbegin
  rcases @runDocuments_cases _ _ environment.engine continueOnError (plan.benchmarks.zip documents)
    { engine := start, formatter } with ⟨hnone, -, -⟩ | ⟨s', hsome, haccounts, -, -⟩
  · rw [hnone] at hs
    cases hs
  · rw [hsome] at hs
    cases hs
    refine wellFormed_finish (haccounts.json ▸ wellFormed_begin hbegin) ?_ hduration hfinish
    rw [haccounts.rules, hrules]
    intro value hvalue
    obtain ⟨rule, hrule, rfl⟩ := List.mem_map.mp (by simpa using hvalue)
    obtain ⟨visit, hvisit, hrule⟩ := List.mem_filterMap.mp hrule
    rw [outcome_of_mem_trace hvisit] at hrule
    exact wellFormed_outcome hnum hrule

/-- What a run prints is read as its document, unless the indicators are nested too deeply. -/
theorem jsonParseString_text (hnum : environment.engine.num.RereadsItself)
    (hduration : environment.engine.num.Rereads environment.durationMs)
    (h : run environment continueOnError plan documents start = some result) :
    jsonParseString environment.engine.num (result.text environment.engine.num) =
      if nestsWithin (maxNesting + 1) (.object result.document) then some (.object result.document) else none :=
  jsonParseString_serialize (wellFormed_document hnum hduration h) true 0 (by
    intro c hc
    cases hc
    exact .inr (.inr (.inr rfl)))

end Document

end Kompli.Cli
