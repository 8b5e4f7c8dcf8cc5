import Kompli.Cli.TrailingData
import Kompli.ComplianceEngine.JsonRoundTrip
import Kompli.Foundation.MapEntries

/-! A plan that was built is read back. -/
namespace Kompli.Cli
open BenchmarkIO BenchmarkDefinition Parson Ascii Foundation

/-- What a plan can hold: C strings, under ids and names that are not empty. -/
def CleanParameters (parameters : ParameterMap) : Prop :=
  ∀ name value, parameters[name]? = some value → IsIdentifier name ∧ NulFree value

def CleanRules (rules : ByteMap PlanRuleMode) : Prop :=
  ∀ id rule, rules[id]? = some rule → IsIdentifier id ∧ CleanParameters rule.parameters

structure ParsedBenchmarkFile.Clean (parsed : ParsedBenchmarkFile) : Prop where
  file : parsed.file.val ≠ []
  name : NulFree parsed.name
  rules : CleanRules parsed.rules

section Build

def parametersJson (parameters : ParameterMap) : Members :=
  parameters.toList.map fun param => (param.1, .string param.2)

def ruleJson (rule : PlanRuleMode) : JsonValue :=
  .object [(utf8 "mode", .string (toModeString rule.mode)),
    (utf8 "parameters", .object (parametersJson rule.parameters))]

def rulesJson (rules : ByteMap PlanRuleMode) : Members := rules.toList.map fun rule => (rule.1, ruleJson rule.2)

/-- The block of a file in a plan. -/
def blockJson (parsed : ParsedBenchmarkFile) : JsonValue :=
  .object [(utf8 "file", .string parsed.file.val), (utf8 "name", .string parsed.name),
    (utf8 "version", .string parsed.version.toBytes),
    (utf8 "versionConstraint", .string (0x5E :: parsed.version.toBytes)),
    (utf8 "rules", .object (rulesJson parsed.rules))]

private theorem setString_ok {members members' : Members} {name string : Bytes} {failed : Error}
    (hstring : NulFree string) (h : setString members name string failed = .ok members') :
    members' = objectSetValue members name (.string string) := by
  rw [setString, objectSetString, initString, cString_of_nulFree hstring] at h
  split at h
  · rename_i hset
    obtain ⟨value, hvalue, rfl⟩ := Option.map_eq_some_iff.mp hset
    split at hvalue
    · cases hvalue
      cases h
      rfl
    · cases hvalue
  · cases h

/-- Members of the entries of a map, set one after the other. -/
private theorem foldl_entries {β : Type} (m : ByteMap β) (write : β → JsonValue)
    (hnul : ∀ x ∈ m.toList, NulFree x.1) :
    m.toList.foldl (fun members x => objectSetValue members x.1 (write x.2)) [] =
      m.toList.map fun x => (x.1, write x.2) := by
  have hkeys : ((m.toList.map fun x => (x.1, write x.2)).map Prod.fst) = m.toList.map Prod.fst := by
    rw [List.map_map]
    rfl
  have hnames : ∀ y ∈ m.toList.map fun x => (x.1, write x.2), NulFree y.1 := by
    intro y hy
    obtain ⟨x, hx, rfl⟩ := List.mem_map.mp hy
    exact hnul x hx
  have hset := foldl_objectSetValue [] hnames (by rw [List.nil_append, hkeys]; exact nodup_keys m)
  rwa [List.foldl_map, List.nil_append] at hset

theorem mem_toList {β : Type} {m : ByteMap β} {x : Bytes × β} : x ∈ m.toList ↔ m[x.1]? = some x.2 :=
  Std.ExtTreeMap.mem_toList_iff_getElem?_eq_some

private theorem setParameters_ok {id : Bytes} {parameters : ParameterMap} {members : Members}
    (hclean : CleanParameters parameters) (h : parameters.toList.foldlM (setParameter id) [] = .ok members) :
    members = parametersJson parameters := by
  rw [foldlM_ok_eq_foldl (fun members x => objectSetValue members x.1 (.string x.2)) ?_ h]
  · exact foldl_entries parameters _ fun x hx => (hclean x.1 x.2 (mem_toList.mp hx)).1.2
  · intro x hx s s' hstep
    exact setString_ok (hclean x.1 x.2 (mem_toList.mp hx)).2 hstep

private theorem toModeString_nulFree (mode : ToggleMode) : NulFree (toModeString mode) := by
  cases mode <;> decide

private theorem setRule_ok {rule : Bytes × PlanRuleMode} {members members' : Members}
    (hclean : CleanParameters rule.2.parameters) (h : setRule members rule = .ok members') :
    members' = objectSetValue members rule.1 (ruleJson rule.2) := by
  obtain ⟨ruleObject, hmode, h⟩ := except_bind_ok_iff.mp h
  obtain ⟨parametersObject, hparameters, h⟩ := except_bind_ok_iff.mp h
  cases h
  rw [setString_ok (toModeString_nulFree _) hmode, setParameters_ok hclean hparameters]
  rfl

private theorem setRules_ok {rules : ByteMap PlanRuleMode} {members : Members} (hclean : CleanRules rules)
    (h : rules.toList.foldlM setRule [] = .ok members) : members = rulesJson rules := by
  rw [foldlM_ok_eq_foldl (fun members x => objectSetValue members x.1 (ruleJson x.2)) ?_ h]
  · exact foldl_entries rules _ fun x hx => (hclean x.1 x.2 (mem_toList.mp hx)).1.2
  · intro x hx s s' hstep
    exact setRule_ok (hclean x.1 x.2 (mem_toList.mp hx)).2 hstep

theorem buildBenchmarkEntry_ok {parsed : ParsedBenchmarkFile} {entry : JsonValue} (hclean : parsed.Clean)
    (h : buildBenchmarkEntry parsed.file.val parsed.name parsed.version parsed.rules = .ok entry) :
    entry = blockJson parsed := by
  have hversion := parsed.version.toBytes_nulFree
  have hconstraint : NulFree (0x5E :: parsed.version.toBytes) := by
    simpa [NulFree] using hversion
  obtain ⟨withFile, hfile, h⟩ := except_bind_ok_iff.mp h
  obtain ⟨withName, hname, h⟩ := except_bind_ok_iff.mp h
  obtain ⟨withVersion, hversions, h⟩ := except_bind_ok_iff.mp h
  obtain ⟨withConstraint, hconstraints, h⟩ := except_bind_ok_iff.mp h
  obtain ⟨rulesObject, hrules, h⟩ := except_bind_ok_iff.mp h
  cases h
  rw [setRules_ok hclean.rules hrules, setString_ok hconstraint hconstraints, setString_ok hversion hversions,
    setString_ok hclean.name hname, setString_ok parsed.file.property hfile]
  rfl

end Build

section Read

/-- What a reader of the plan knows of a file. -/
def ParsedBenchmarkFile.block (parsed : ParsedBenchmarkFile) : PlanBenchmark where
  file := parsed.file.val
  name := parsed.name
  version := parsed.version
  versionConstraint := 0x5E :: parsed.version.toBytes
  rules := parsed.rules

private theorem readPlanString_string {string context : Bytes} {allowEmpty : Bool} (hstring : NulFree string)
    (hempty : allowEmpty = true ∨ string ≠ []) :
    readPlanString (some (.string string)) context allowEmpty = .ok string := by
  have hnotEmpty : ¬ (¬ allowEmpty = true ∧ string = []) := by tauto
  simp only [readPlanString, if_neg hstring, if_neg hnotEmpty]

private theorem entries_nodup {β : Type} (m : ByteMap β) (write : β → JsonValue) :
    ((m.toList.map fun x => (x.1, write x.2)).map Prod.fst).Nodup := by
  rw [List.map_map]
  exact nodup_keys m

private theorem parsePlanParameters_ruleJson {context id : Bytes} {rule : PlanRuleMode}
    (hclean : CleanParameters rule.parameters) :
    parsePlanParameters context id [(utf8 "mode", .string (toModeString rule.mode)),
      (utf8 "parameters", .object (parametersJson rule.parameters))] = .ok rule.parameters := by
  have hobject : JsonValue.getValue [(utf8 "mode", .string (toModeString rule.mode)),
      (utf8 "parameters", .object (parametersJson rule.parameters))] (utf8 "parameters") =
        some (.object (parametersJson rule.parameters)) := rfl
  simp only [parsePlanParameters, hobject]
  refine foldlM_toList rule.parameters fun read x hx => ?_
  obtain ⟨⟨hname, hnul⟩, hvalue⟩ := hclean x.1 x.2 (mem_toList.mp hx)
  have hlookup : JsonValue.getValue (parametersJson rule.parameters) x.1 = some (.string x.2) :=
    lookup_of_mem (entries_nodup rule.parameters .string) (List.mem_map_of_mem hx)
  simp only [addPlanParameter, cString_of_nulFree hnul, if_neg hname, hlookup]
  rw [readPlanString_string hvalue (Or.inl rfl)]
  rfl

private theorem addPlanRule_ruleJson {context id : Bytes} {rule : PlanRuleMode} (hid : IsIdentifier id)
    (hclean : CleanParameters rule.parameters) (rules : ByteMap PlanRuleMode) :
    addPlanRule context rules (id, ruleJson rule) = .ok (rules.insert id rule) := by
  have hmode : JsonValue.getValue [(utf8 "mode", .string (toModeString rule.mode)),
      (utf8 "parameters", .object (parametersJson rule.parameters))] (utf8 "mode") =
        some (.string (toModeString rule.mode)) := rfl
  have hne : toModeString rule.mode ≠ [] := by
    cases rule.mode <;> decide
  simp only [addPlanRule, ruleJson, cString_of_nulFree hid.2, if_neg hid.1, hmode]
  rw [readPlanString_string (toModeString_nulFree _) (Or.inr hne), parsePlanParameters_ruleJson hclean]
  simp only [except_ok_bind, fromModeString_toModeString]

theorem validateVersionConstraint_self (version : ContentVersion) :
    validateVersionConstraint version (0x5E :: version.toBytes) = .ok () := by
  simp only [validateVersionConstraint, List.head?_cons, true_or, ↓reduceIte, List.tail_cons,
    ContentVersion.parse_toBytes, ContentVersion.compare_self, ne_eq, not_true_eq_false]

private theorem parsePlanVersion_blockJson (context : Bytes) (version : ContentVersion) {members : Members}
    (hversion : JsonValue.getValue members (utf8 "version") = some (.string version.toBytes))
    (hconstraint : JsonValue.getValue members (utf8 "versionConstraint") =
      some (.string (0x5E :: version.toBytes))) :
    parsePlanVersion context members = .ok (version, 0x5E :: version.toBytes) := by
  have hnul : NulFree (0x5E :: version.toBytes) := by
    simpa [NulFree] using version.toBytes_nulFree
  simp only [parsePlanVersion, hversion, hconstraint]
  rw [readPlanString_string version.toBytes_nulFree (Or.inr version.toBytes_ne_nil),
    readPlanString_string hnul (Or.inr (by simp))]
  simp only [except_ok_bind, ContentVersion.parse_toBytes, validateVersionConstraint_self]

theorem parsePlanBenchmark_blockJson (index : Nat) {parsed : ParsedBenchmarkFile} (hclean : parsed.Clean) :
    parsePlanBenchmark index (blockJson parsed) = .ok parsed.block := by
  have hrules : ∀ context, (rulesJson parsed.rules).foldlM (addPlanRule context) ∅ = .ok parsed.rules := by
    intro context
    refine foldlM_toList parsed.rules fun read x hx => ?_
    obtain ⟨hid, hparameters⟩ := hclean.rules x.1 x.2 (mem_toList.mp hx)
    exact addPlanRule_ruleJson hid hparameters read
  rw [blockJson, parsePlanBenchmark]
  generalize hmembers : ([(utf8 "file", .string parsed.file.val), (utf8 "name", .string parsed.name),
    (utf8 "version", .string parsed.version.toBytes),
    (utf8 "versionConstraint", .string (0x5E :: parsed.version.toBytes)),
    (utf8 "rules", .object (rulesJson parsed.rules))] : Members) = members
  have hfile : JsonValue.getValue members (utf8 "file") = some (.string parsed.file.val) := by
    rw [← hmembers]
    rfl
  have hname : JsonValue.getValue members (utf8 "name") = some (.string parsed.name) := by
    rw [← hmembers]
    rfl
  have hversion : JsonValue.getValue members (utf8 "version") = some (.string parsed.version.toBytes) := by
    rw [← hmembers]
    rfl
  have hconstraint : JsonValue.getValue members (utf8 "versionConstraint") =
      some (.string (0x5E :: parsed.version.toBytes)) := by
    rw [← hmembers]
    rfl
  have hobject : getObject members (utf8 "rules") = some (rulesJson parsed.rules) := by
    rw [← hmembers]
    rfl
  simp only [hfile, parsePlanName, hname, hobject, hrules,
    parsePlanVersion_blockJson _ parsed.version hversion hconstraint,
    readPlanString_string parsed.file.property (Or.inr hclean.file), readPlanString_string hclean.name (Or.inl rfl)]
  rfl

theorem parsePlanBenchmarks_blockJson {parsedFiles : List ParsedBenchmarkFile} :
    ∀ index : Nat, (∀ parsed ∈ parsedFiles, parsed.Clean) →
      parsePlanBenchmarks index (parsedFiles.map blockJson) = .ok (parsedFiles.map ParsedBenchmarkFile.block) := by
  induction parsedFiles with
  | nil => exact fun _ _ => rfl
  | cons parsed parsedFiles ih =>
    intro index hclean
    rw [List.map_cons, parsePlanBenchmarks, parsePlanBenchmark_blockJson index (hclean parsed List.mem_cons_self),
      ih (index + 1) fun x hx => hclean x (List.mem_cons_of_mem _ hx)]
    rfl

end Read

section Text

variable {num : NumberFormat} {room : Nat}

private theorem entries_writable {β : Type} {m : ByteMap β} {write : β → JsonValue}
    (h : ∀ key value, m[key]? = some value → NulFree key ∧ Writable num room (write value)) :
    Writable num (room + 1) (.object (m.toList.map fun x => (x.1, write x.2))) := by
  refine .object (entries_nodup m write) fun y hy => ?_
  obtain ⟨x, hx, rfl⟩ := List.mem_map.mp hy
  exact h x.1 x.2 (mem_toList.mp hx)

private theorem ruleJson_writable {rule : PlanRuleMode} (hclean : CleanParameters rule.parameters) :
    Writable num (room + 3) (ruleJson rule) := by
  have hparameters : Writable num (room + 2) (.object (parametersJson rule.parameters)) :=
    entries_writable fun name value hvalue => ⟨(hclean name value hvalue).1.2, .string (hclean name value hvalue).2⟩
  refine .object (by decide : [utf8 "mode", utf8 "parameters"].Nodup) ?_
  simp only [List.forall_mem_cons, List.not_mem_nil, false_implies, implies_true, and_true]
  exact ⟨⟨by decide, .string (toModeString_nulFree _)⟩, by decide, hparameters⟩

private theorem blockJson_writable {parsed : ParsedBenchmarkFile} (hclean : parsed.Clean) :
    Writable num (room + 5) (blockJson parsed) := by
  have hrules : Writable num (room + 4) (.object (rulesJson parsed.rules)) :=
    entries_writable fun id rule hrule => ⟨(hclean.rules id rule hrule).1.2, ruleJson_writable (hclean.rules id rule hrule).2⟩
  have hconstraint : NulFree (0x5E :: parsed.version.toBytes) := by
    simpa [NulFree] using parsed.version.toBytes_nulFree
  refine .object (by decide : [utf8 "file", utf8 "name", utf8 "version", utf8 "versionConstraint",
    utf8 "rules"].Nodup) ?_
  simp only [List.forall_mem_cons, List.not_mem_nil, false_implies, implies_true, and_true]
  exact ⟨⟨by decide, .string parsed.file.property⟩, ⟨by decide, .string hclean.name⟩,
    ⟨by decide, .string parsed.version.toBytes_nulFree⟩, ⟨by decide, .string hconstraint⟩, by decide, hrules⟩

/-- The document that a plan is. -/
def planJson (parsedFiles : List ParsedBenchmarkFile) : JsonValue :=
  .object [(utf8 "benchmarks", .array (parsedFiles.map blockJson))]

private theorem planJson_writable {parsedFiles : List ParsedBenchmarkFile} (hclean : ∀ parsed ∈ parsedFiles, parsed.Clean) :
    Writable num (room + 7) (planJson parsedFiles) := by
  refine .object (by decide : [utf8 "benchmarks"].Nodup) fun m hm => ?_
  rw [List.mem_singleton.mp hm]
  refine ⟨(by decide : NulFree (utf8 "benchmarks")), .array fun entry hentry => ?_⟩
  obtain ⟨parsed, hparsed, rfl⟩ := List.mem_map.mp hentry
  exact blockJson_writable (hclean parsed hparsed)

/-- The scan for trailing data lets a serialized object and a line feed through. -/
private theorem rejectTrailingPlanData_serialize {members : Members}
    (h : Writable num room (.object members)) :
    rejectTrailingPlanData (jsonSerializeToStringPretty num (.object members) ++ [0x0A]) = .ok () := by
  have hbalanced : ∀ m ∈ members, ∀ level, Balanced (serialize num true level m.2) := by
    intro m hm level
    cases h.texts with
    | object hnames hvalues =>
      exact (balanced_rule num).serialize ((hvalues m hm).mono (fun _ _ => trivial) fun _ => id) level
  obtain ⟨s, hs, hbody⟩ := (balanced_rule num).serialize_object (fun _ _ => trivial) hbalanced 0
  rw [jsonSerializeToStringPretty, hs]
  have hstart : skipWhitespaces (leftBrace :: (s ++ [rightBrace]) ++ [0x0A]) =
      leftBrace :: (s ++ rightBrace :: [0x0A]) := by
    rw [List.cons_append, List.append_assoc]
    rfl
  rw [rejectTrailingPlanData_object hstart ⟨s, rfl, hbody⟩, if_pos (by decide)]

private theorem parsePlanRoot_planJson {parsedFiles : List ParsedBenchmarkFile} (hne : parsedFiles ≠ [])
    (hclean : ∀ parsed ∈ parsedFiles, parsed.Clean) :
    parsePlanRoot [(utf8 "benchmarks", .array (parsedFiles.map blockJson))] =
      .ok { benchmarks := parsedFiles.map ParsedBenchmarkFile.block } := by
  have hbenchmarks : getArray [(utf8 "benchmarks", .array (parsedFiles.map blockJson))] (utf8 "benchmarks") =
      some (parsedFiles.map blockJson) := rfl
  have hblocks := parsePlanBenchmarks_blockJson 0 hclean
  cases parsedFiles with
  | nil => exact absurd rfl hne
  | cons parsed parsedFiles =>
    rw [List.map_cons] at hbenchmarks hblocks
    simp only [List.map_cons, parsePlanRoot, hbenchmarks, hblocks, except_ok_bind]

/-- The text of a plan is read back, block by block. -/
theorem parsePlan_planJson {parsedFiles : List ParsedBenchmarkFile} (hne : parsedFiles ≠ [])
    (hclean : ∀ parsed ∈ parsedFiles, parsed.Clean)
    (hsize : ¬ maxPlanInputBytes < (jsonSerializeToStringPretty num (planJson parsedFiles) ++ [0x0A]).length) :
    parsePlan num (jsonSerializeToStringPretty num (planJson parsedFiles) ++ [0x0A]) =
      .ok { benchmarks := parsedFiles.map ParsedBenchmarkFile.block } := by
  have hwritable : Writable num (2042 + 7) (planJson parsedFiles) := planJson_writable hclean
  have hdelimited : Delimited [0x0A] := by simp [Delimited]
  have hfrom := Writable.fromString hwritable true 0 hdelimited (by decide) (by decide)
  have hreject := rejectTrailingPlanData_serialize hwritable
  have hnul : 0 ∉ jsonSerializeToStringPretty num (planJson parsedFiles) ++ [0x0A] := by
    rw [List.mem_append, not_or]
    exact ⟨serialize_nulFree hwritable.wellFormed 0, by decide⟩
  rw [parsePlan, if_neg hsize, if_neg hnul, planJson, hreject, except_ok_bind]
  rw [jsonSerializeToStringPretty, ← planJson, hfrom]
  exact parsePlanRoot_planJson hne hclean

/-- A plan that was built is read back. -/
theorem parsePlan_buildPlan {parsedFiles : List ParsedBenchmarkFile} {text : Bytes} (hne : parsedFiles ≠ [])
    (hclean : ∀ parsed ∈ parsedFiles, parsed.Clean) (h : buildPlan num parsedFiles = .ok text) :
    parsePlan num text = .ok { benchmarks := parsedFiles.map ParsedBenchmarkFile.block } := by
  obtain ⟨entries, hentries, h⟩ := except_bind_ok_iff.mp h
  obtain rfl := mapM_ok_eq_map (fun parsed hparsed _ => buildBenchmarkEntry_ok (hclean parsed hparsed)) hentries
  have hroot : objectSetValue [] (utf8 "benchmarks") (.array (parsedFiles.map blockJson)) =
      [(utf8 "benchmarks", .array (parsedFiles.map blockJson))] := rfl
  simp only [hroot] at h
  split at h
  · cases h
  · rename_i hsize
    cases h
    exact parsePlan_planJson hne hclean hsize

end Text

end Kompli.Cli
