import Kompli.BenchmarkIO.Identity
import Kompli.Cli.JUnitReport
import Kompli.Cli.ResultText
import Kompli.Foundation.StateRule
import Mathlib.Data.List.Nodup

/-! The test cases of a report: how many there are, and that their class names tell them apart. -/
namespace Kompli.Cli
open BenchmarkIO BenchmarkDefinition Parson Foundation

section Classnames

/-- The components of a class name are the members that it was read of. -/
theorem readComponent_ok {benchmark : Members} {key component : Bytes} (h : readComponent benchmark key = .ok component) :
    JsonValue.getValue benchmark key = some (.string component) := by
  rw [readComponent] at h
  split at h
  · next value hvalue =>
    split_ifs at h
    cases h
    exact hvalue
  · cases h

theorem testcaseClassname_ok {rule benchmark : Members} {id name : Bytes}
    (hbenchmark : JsonValue.getValue rule (utf8 "benchmark") = some (.object benchmark))
    (h : testcaseClassname rule id = .ok name) :
    ∃ components : List Bytes, benchmarkKeys.map (JsonValue.getValue benchmark) =
      components.map (fun component => some (.string component)) ∧ name = Frames.frames (components ++ [id]) := by
  simp only [testcaseClassname, hbenchmark, except_bind_ok_iff] at h
  obtain ⟨components, hcomponents, ⟨⟩⟩ := h
  refine ⟨components, ?_, by simp [Frames.frames]⟩
  rw [← List.forall₂_eq_eq_eq, List.forall₂_map_left_iff, List.forall₂_map_right_iff]
  exact (mapM_ok_forall₂ hcomponents).imp fun _ _ => readComponent_ok

/-- Equal class names are of rules with the same id whose benchmarks agree. -/
theorem testcaseClassname_inj {rule rule' benchmark benchmark' : Members} {id id' name : Bytes}
    (hbenchmark : JsonValue.getValue rule (utf8 "benchmark") = some (.object benchmark))
    (hbenchmark' : JsonValue.getValue rule' (utf8 "benchmark") = some (.object benchmark'))
    (h : testcaseClassname rule id = .ok name) (h' : testcaseClassname rule' id' = .ok name) :
    id = id' ∧ ∀ key ∈ benchmarkKeys, JsonValue.getValue benchmark key = JsonValue.getValue benchmark' key := by
  obtain ⟨components, hcomponents, rfl⟩ := testcaseClassname_ok hbenchmark h
  obtain ⟨components', hcomponents', heq⟩ := testcaseClassname_ok hbenchmark' h'
  obtain ⟨rfl, hid⟩ := List.append_inj' (Frames.frames_injective heq) rfl
  exact ⟨List.singleton_inj.mp hid, List.map_inj_left.mp (hcomponents.trans hcomponents'.symm)⟩

end Classnames

section Report

/-- An attribute of an element. -/
def XmlNode.attribute (name : Bytes) : XmlNode → Option Bytes
  | .element _ attributes _ => attributes.lookup name
  | .pcdata _ => none

private theorem addAttribute_ok {name value : Bytes} {added : Bytes × Bytes} {used used' : Nat}
    (h : addAttribute name value used = .ok added used') : added = (name, value) := by
  rw [addAttribute] at h
  split at h
  · cases h
  · obtain ⟨_, _, -, h⟩ := bind_ok_iff.mp h
    obtain ⟨_, _, -, h⟩ := bind_ok_iff.mp h
    cases h
    rfl

private theorem ofResult_ok {α : Type} {r : Except Error α} {a : α} {used used' : Nat}
    (h : ofResult r used = .ok a used') : r = .ok a := by
  cases r with
  | ok b =>
    cases h
    rfl
  | error e => cases h

/-- The status that the result of a rule has. -/
def statusOf : JsonValue → Option Bytes
  | .object rule => match JsonValue.getValue rule (utf8 "status") with
    | some (.string status) => some status
    | _ => none
  | _ => none

/-- A test case is that of a rule. -/
def IsCaseOf (value : JsonValue) (case : XmlNode) : Prop :=
  ∃ rule id classname, value = .object rule ∧ JsonValue.getValue rule (utf8 "id") = some (.string id) ∧
    testcaseClassname rule id = .ok classname ∧ case.attribute (utf8 "classname") = some classname

private theorem readTestcase_ok {rule : Members} {case : Testcase} (h : readTestcase rule = .ok case) :
    statusOf (.object rule) = some case.status ∧ ∃ id, JsonValue.getValue rule (utf8 "id") = some (.string id) ∧
      testcaseClassname rule id = .ok case.classname := by
  simp only [readTestcase, except_bind_ok_iff] at h
  obtain ⟨id, hid, title, -, status, hstatus, classname, hclassname, h⟩ := h
  split_ifs at h
  cases h
  refine ⟨?_, id, ?_, hclassname⟩
  · rw [readStatus] at hstatus
    split at hstatus
    · next value hvalue =>
      split_ifs at hstatus
      cases hstatus
      simp [statusOf, hvalue]
    · cases hstatus
  · rw [readId] at hid
    split at hid
    · next value hvalue =>
      split_ifs at hid
      cases hid
      exact hvalue
    · cases hid

private theorem addTestcase_ok {num : NumberFormat} {rule : Members} {case : XmlNode} {status : Bytes}
    {used used' : Nat} (h : addTestcase num rule used = .ok (case, status) used') :
    IsCaseOf (.object rule) case ∧ statusOf (.object rule) = some status := by
  obtain ⟨read, _, hread, h⟩ := bind_ok_iff.mp h
  obtain ⟨_, _, -, h⟩ := bind_ok_iff.mp h
  obtain ⟨classname, _, hclassname, h⟩ := bind_ok_iff.mp h
  obtain ⟨name, _, -, h⟩ := bind_ok_iff.mp h
  obtain ⟨tags, _, -, h⟩ := bind_ok_iff.mp h
  obtain ⟨verdict, _, -, h⟩ := bind_ok_iff.mp h
  cases h
  obtain ⟨hstatus, id, hid, hname⟩ := readTestcase_ok (ofResult_ok hread)
  obtain rfl := addAttribute_ok hclassname
  exact ⟨⟨rule, id, _, rfl, hid, hname, rfl⟩, hstatus⟩

/-- The rules with one of the given statuses. -/
def countStatus (statuses : List Bytes) (rules : List JsonValue) : Nat :=
  rules.countP fun rule => (statusOf rule).any fun status => decide (status ∈ statuses)

private theorem Counts.add_failures (counts : Counts) (status : Bytes) :
    (counts.add status).failures = counts.failures + if status ∈ [utf8 "NonCompliant"] then 1 else 0 := by
  simp only [Counts.add, List.mem_singleton]
  split_ifs <;> rfl

private theorem Counts.add_skipped (counts : Counts) (status : Bytes) :
    (counts.add status).skipped =
      counts.skipped + if status ∈ [utf8 "NotApplicable", utf8 "Skipped"] then 1 else 0 := by
  simp only [Counts.add, List.mem_cons, List.not_mem_nil, or_false]
  split_ifs with hfailed hskipped
  · subst hfailed
    exact absurd hskipped (by decide)
  · rfl
  · rfl
  · rfl

private theorem countStatus_cons {statuses : List Bytes} {rule : JsonValue} {rules : List JsonValue} {status : Bytes}
    (h : statusOf rule = some status) :
    countStatus statuses (rule :: rules) = countStatus statuses rules + if status ∈ statuses then 1 else 0 := by
  simp [countStatus, List.countP_cons, h]

/-- The loop adds a test case for each rule, and counts them as they are. -/
private theorem addTestcases_ok {num : NumberFormat} {rules : List JsonValue} {cases : List XmlNode}
    {counts counts' : Counts} {used used' : Nat}
    (h : addTestcases num counts rules used = .ok (cases, counts') used') :
    List.Forall₂ IsCaseOf rules cases ∧
      counts'.failures = counts.failures + countStatus [utf8 "NonCompliant"] rules ∧
      counts'.skipped = counts.skipped + countStatus [utf8 "NotApplicable", utf8 "Skipped"] rules := by
  induction rules generalizing counts cases used with
  | nil =>
    cases h
    exact ⟨.nil, rfl, rfl⟩
  | cons value rules ih =>
    cases value with
    | object rule =>
      obtain ⟨⟨case, status⟩, _, hcase, h⟩ := bind_ok_iff.mp h
      obtain ⟨⟨cases', counts''⟩, _, hrest, h⟩ := bind_ok_iff.mp h
      cases h
      obtain ⟨hcase, hstatus⟩ := addTestcase_ok hcase
      obtain ⟨hcases, hfailures, hskipped⟩ := ih hrest
      refine ⟨.cons hcase hcases, ?_, ?_⟩
      · rw [hfailures, Counts.add_failures, countStatus_cons hstatus]
        omega
      · rw [hskipped, Counts.add_skipped, countStatus_cons hstatus]
        omega
    | _ => cases h

/-- What the suite of a report says of the results: how many there are, how many failed, and how many were skipped. -/
structure Counted (rules : List JsonValue) (attributes : List (Bytes × Bytes)) (cases : List XmlNode) : Prop where
  tests : attributes.lookup (utf8 "tests") = some (decimal cases.length)
  failures : attributes.lookup (utf8 "failures") = some (decimal (countStatus [utf8 "NonCompliant"] rules))
  skipped : attributes.lookup (utf8 "skipped") =
    some (decimal (countStatus [utf8 "NotApplicable", utf8 "Skipped"] rules))

theorem buildReport_ok {num : NumberFormat} {rules : List JsonValue} {suiteName : Bytes} {document : XmlNode}
    {used used' : Nat} (h : buildReport num rules suiteName used = .ok document used') :
    ∃ attributes cases, document = .element (utf8 "testsuites") [] [.element (utf8 "testsuite") attributes cases] ∧
      List.Forall₂ IsCaseOf rules cases ∧ Counted rules attributes cases := by
  obtain ⟨_, _, -, h⟩ := bind_ok_iff.mp h
  obtain ⟨_, _, -, h⟩ := bind_ok_iff.mp h
  obtain ⟨name, _, hname, h⟩ := bind_ok_iff.mp h
  obtain ⟨⟨cases, counts⟩, _, hcases, h⟩ := bind_ok_iff.mp h
  obtain ⟨tests, _, htests, h⟩ := bind_ok_iff.mp h
  obtain ⟨failures, _, hfailures, h⟩ := bind_ok_iff.mp h
  obtain ⟨skipped, _, hskipped, h⟩ := bind_ok_iff.mp h
  cases h
  obtain rfl := addAttribute_ok hname
  obtain rfl := addAttribute_ok htests
  obtain rfl := addAttribute_ok hfailures
  obtain rfl := addAttribute_ok hskipped
  obtain ⟨hcases, hfailed, hpassed⟩ := addTestcases_ok hcases
  rw [Nat.zero_add] at hfailed hpassed
  refine ⟨_, cases, rfl, hcases, ?_, ?_, ?_⟩
  · rw [← hcases.length_eq]
    rfl
  · rw [← hfailed]
    rfl
  · rw [← hpassed]
    rfl

end Report

section Identities

private theorem map_zip_snd {α β γ : Type} {xs : List α} {ys : List β} (f : β → γ) (h : ys.length ≤ xs.length) :
    (xs.zip ys).map (fun pair => f pair.2) = ys.map f := by
  conv_rhs => rw [← List.map_snd_zip h, List.map_map]
  rfl

/-- Definitions that pass the check have different identities. -/
private theorem checkUniqueIdentities_ok {benchmarks : List (Bytes × BenchmarkInfo)} :
    ∀ {seen : List (Identity × Bytes)}, checkUniqueIdentities seen benchmarks = .ok () →
      (benchmarks.map fun benchmark => identity benchmark.2).Nodup ∧
        ∀ benchmark ∈ benchmarks, identity benchmark.2 ∉ seen.map Prod.fst := by
  induction benchmarks with
  | nil =>
    intro seen _
    exact ⟨List.nodup_nil, by simp⟩
  | cons benchmark benchmarks ih =>
    intro seen h
    obtain ⟨file, benchmarkInfo⟩ := benchmark
    rw [checkUniqueIdentities] at h
    split at h
    · cases h
    · next hlookup =>
      obtain ⟨hnodup, hnew⟩ := ih h
      have hseen : identity benchmarkInfo ∉ seen.map Prod.fst := by
        intro hmem
        obtain ⟨entry, hentry, heq⟩ := List.mem_map.mp hmem
        have hne := List.lookup_eq_none_iff.mp hlookup entry hentry
        simp [heq] at hne
      rw [List.map_cons, List.nodup_cons, List.forall_mem_cons]
      refine ⟨⟨fun hmem => ?_, hnodup⟩, hseen, fun other hother hmem => hnew other hother ?_⟩
      · obtain ⟨other, hother, heq⟩ := List.mem_map.mp hmem
        exact hnew other hother (by simp [heq])
      · rw [List.map_append]
        exact List.mem_append_left _ hmem

/-- What tells the rules of a run apart. -/
def ruleKey (rule : PlanBenchmark × Resource) : Identity × Bytes := (identity rule.2.benchmarkInfo, rule.2.id)

/-- Definitions of different identities, each with rules of its own identity and of different ids, have
different rules. -/
private theorem rulesOf_nodup {blocks : List (PlanBenchmark × BenchmarkDocument)}
    (hdocuments : (blocks.map fun block => identity block.2.benchmarkInfo).Nodup)
    (hids : ∀ block ∈ blocks, (block.2.resources.map Resource.id).Nodup)
    (hshared : ∀ block ∈ blocks, ∀ resource ∈ block.2.resources,
      resource.benchmarkInfo = block.2.benchmarkInfo) :
    ((rulesOf blocks).map ruleKey).Nodup := by
  rw [rulesOf, List.map_flatMap, List.nodup_flatMap]
  constructor
  · intro block hblock
    rw [List.map_map]
    refine List.Nodup.of_map Prod.snd ?_
    rw [List.map_map]
    exact hids block hblock
  · refine (List.pairwise_map.mp hdocuments).imp_of_mem ?_
    intro block other hblock hother hne key hkey hkey'
    obtain ⟨rule, hrule, rfl⟩ := List.mem_map.mp hkey
    obtain ⟨rule', hrule', heq⟩ := List.mem_map.mp hkey'
    obtain ⟨resource, hresource, rfl⟩ := List.mem_map.mp hrule
    obtain ⟨resource', hresource', rfl⟩ := List.mem_map.mp hrule'
    have hidentity : identity resource'.benchmarkInfo = identity resource.benchmarkInfo := congrArg Prod.fst heq
    rw [hshared block hblock resource hresource, hshared other hother resource' hresource'] at hidentity
    exact hne hidentity.symm

end Identities

section Run

variable {W G : Type}

/-- The result of a rule has its id and its provenance. -/
private theorem outcome_named {engine : Engine W G} {visit : Visit W} {rule : Members}
    (h : (outcome engine visit.benchmark visit.entry visit.before).1.rule? = some rule) :
    JsonValue.getValue rule (utf8 "id") = some (.string (cString visit.entry.id)) ∧
      ∃ benchmark, benchmarkProvenance visit.entry.benchmarkInfo = .ok benchmark ∧
        JsonValue.getValue rule (utf8 "benchmark") = some (.object benchmark) := by
  rcases outcome_rule h with hskipped | ⟨status, payload, parameters, action, hresult⟩
  · exact ⟨(buildSkippedRuleResultJson_members hskipped).1, buildSkippedRuleResultJson_benchmark hskipped⟩
  · exact ⟨(buildRuleResultJson_members hresult).1, buildRuleResultJson_benchmark hresult⟩

/-- Rules whose texts are C strings have the same key where their results have the same class name. -/
private theorem ruleKey_of_classname {engine : Engine W G} {visit visit' : Visit W} {rule rule' : Members}
    {name : Bytes} (h : (outcome engine visit.benchmark visit.entry visit.before).1.rule? = some rule)
    (h' : (outcome engine visit'.benchmark visit'.entry visit'.before).1.rule? = some rule')
    (hstrings : visit.entry.benchmarkInfo.CStrings ∧ NulFree visit.entry.id)
    (hstrings' : visit'.entry.benchmarkInfo.CStrings ∧ NulFree visit'.entry.id)
    (hname : testcaseClassname rule (cString visit.entry.id) = .ok name)
    (hname' : testcaseClassname rule' (cString visit'.entry.id) = .ok name) :
    ruleKey (visit.benchmark, visit.entry) = ruleKey (visit'.benchmark, visit'.entry) := by
  obtain ⟨-, benchmark, hprovenance, hbenchmark⟩ := outcome_named h
  obtain ⟨-, benchmark', hprovenance', hbenchmark'⟩ := outcome_named h'
  obtain ⟨hid, hkeys⟩ := testcaseClassname_inj hbenchmark hbenchmark' hname hname'
  obtain ⟨hframework, hdistribution, hversion, hbenchmarkVersion⟩ := benchmarkProvenance_members hprovenance
  obtain ⟨hframework', hdistribution', hversion', hbenchmarkVersion'⟩ := benchmarkProvenance_members hprovenance'
  simp only [benchmarkKeys, List.forall_mem_cons, List.not_mem_nil, IsEmpty.forall_iff, implies_true, and_true,
    hframework, hframework', hdistribution, hdistribution', hversion, hversion', hbenchmarkVersion,
    hbenchmarkVersion', Option.some.injEq, JsonValue.string.injEq,
    cString_of_nulFree hstrings.1.framework, cString_of_nulFree hstrings'.1.framework,
    cString_of_nulFree hstrings.1.version, cString_of_nulFree hstrings'.1.version,
    cString_of_nulFree hstrings.1.benchmarkVersion, cString_of_nulFree hstrings'.1.benchmarkVersion] at hkeys
  rw [cString_of_nulFree hstrings.2, cString_of_nulFree hstrings'.2] at hid
  obtain ⟨hframework, hdistribution, hversion, hbenchmarkVersion⟩ := hkeys
  have hdistribution := BenchmarkInfo.distribution_name_injective hdistribution
  simp only [ruleKey, identity, hframework, hdistribution, hversion, hbenchmarkVersion, hid]

/-- Results of different rules have different class names. -/
private theorem reportedRules_distinct {engine : Engine W G} {visits : List (Visit W × Outcome)}
    (houtcome : ∀ visit ∈ visits, visit.2 = (outcome engine visit.1.benchmark visit.1.entry visit.1.before).1)
    (hstrings : ∀ visit ∈ visits, visit.1.entry.benchmarkInfo.CStrings ∧ NulFree visit.1.entry.id)
    (hkeys : (visits.map fun visit => ruleKey (visit.1.benchmark, visit.1.entry)).Nodup) :
    ((reportedRules visits).map JsonValue.object).Pairwise fun value value' =>
      ∀ case case', IsCaseOf value case → IsCaseOf value' case' →
        case.attribute (utf8 "classname") ≠ case'.attribute (utf8 "classname") := by
  rw [List.pairwise_map, reportedRules, List.pairwise_filterMap]
  refine (List.pairwise_map.mp hkeys).imp_of_mem ?_
  rintro visit visit' hvisit hvisit' hne rule hrule rule' hrule' case case'
    ⟨_, id, classname, ⟨⟩, hid, hname, hcase⟩ ⟨_, id', classname', ⟨⟩, hid', hname', hcase'⟩ heq
  rw [houtcome visit hvisit] at hrule
  rw [houtcome visit' hvisit'] at hrule'
  rw [hcase, hcase', Option.some.injEq] at heq
  subst heq
  rw [(outcome_named hrule).1] at hid
  rw [(outcome_named hrule').1] at hid'
  cases hid
  cases hid'
  exact hne (ruleKey_of_classname hrule hrule' (hstrings _ hvisit) (hstrings _ hvisit') hname hname')

/-- What a run printed is a report of the rules of its document. -/
private theorem readResult_text {environment : RunEnvironment W G} {continueOnError : Bool} {plan : Plan}
    {documents : List BenchmarkDocument} {start : EngineState W} {result : RunResult} {rules : List JsonValue}
    (hnum : environment.engine.num.RereadsItself) (hduration : environment.engine.num.Rereads environment.durationMs)
    (hrun : run environment continueOnError plan documents start = some result)
    (h : readResult environment.engine.num (result.text environment.engine.num) = .ok rules) :
    getArray result.document (utf8 "rules") = some rules := by
  rw [readResult, jsonParseString_text hnum hduration hrun] at h
  split at h
  · cases h
  · split_ifs at h
    dsimp only at h
    split at h
    · cases h
    · next found hfound =>
      cases h
      exact hfound

/-- A definition that is accepted has rules of its own identity, with different ids, and all C strings. -/
private theorem accepted_rules {document : BenchmarkDocument} (h : ∃ num json, parseString num json = .ok document) :
    (document.resources.map Resource.id).Nodup ∧ ∀ resource ∈ document.resources,
      resource.benchmarkInfo = document.benchmarkInfo ∧ resource.benchmarkInfo.CStrings ∧ NulFree resource.id := by
  obtain ⟨num, json, hparse⟩ := h
  obtain ⟨hstrings, hshared⟩ := parseString_identity hparse
  obtain ⟨root, -, hroot⟩ := parseString_cases hparse
  have haccepted := parseRoot_ok hroot
  refine ⟨haccepted.ids, fun resource hmem => ⟨hshared resource hmem, ?_, (haccepted.resources resource hmem).id.2⟩⟩
  rwa [hshared resource hmem]

/-- Equal class names say that the rules are the same; so the test cases that are reported of a run of
definitions with different identities all differ in theirs, and are counted as their rules are. -/
theorem junit_testcases_distinct :
    (∀ rule rule' benchmark benchmark' id id' name,
      JsonValue.getValue rule (utf8 "benchmark") = some (.object benchmark) →
      JsonValue.getValue rule' (utf8 "benchmark") = some (.object benchmark') →
      testcaseClassname rule id = .ok name → testcaseClassname rule' id' = .ok name →
      id = id' ∧ ∀ key ∈ benchmarkKeys, JsonValue.getValue benchmark key = JsonValue.getValue benchmark' key) ∧
    ∀ (environment : RunEnvironment W G) continueOnError plan documents start result files save suiteName report,
      (∀ document ∈ documents, ∃ num json, parseString num json = .ok document) →
      checkUniqueBenchmarkIdentities ((files : List Bytes).zip (documents.map BenchmarkDocument.benchmarkInfo)) =
        .ok () → files.length = documents.length →
      environment.engine.num.RereadsItself → environment.engine.num.Rereads environment.durationMs →
      run environment continueOnError plan documents start = some result →
      renderJUnit environment.engine.num (renderReport environment.engine.num save)
        (result.text environment.engine.num) suiteName = .ok report →
      ∃ rules attributes cases, getArray result.document (utf8 "rules") = some rules ∧
        report = save (.element (utf8 "testsuites") [] [.element (utf8 "testsuite") attributes cases]) ∧
        List.Forall₂ IsCaseOf rules cases ∧ (cases.map (XmlNode.attribute (utf8 "classname"))).Nodup ∧
        Counted rules attributes cases := by
  refine ⟨fun rule rule' benchmark benchmark' id id' name => testcaseClassname_inj, ?_⟩
  intro environment continueOnError plan documents start result files save suiteName report hdocuments hunique
    hfiles hnum hduration hrun hrender
  obtain ⟨rules, hread, hrender⟩ := except_bind_ok_iff.mp hrender
  have hrules := readResult_text hnum hduration hrun hread
  obtain ⟨hreported, -, hall⟩ := run_some hrun
  obtain rfl : _ = rules := Option.some.inj (hreported.symm.trans hrules)
  rw [renderReport] at hrender
  split at hrender
  · cases hrender
  split_ifs at hrender
  rename_i document used hbuild hsize
  cases hrender
  obtain ⟨attributes, cases, rfl, hcases, hcounted⟩ := buildReport_ok hbuild
  refine ⟨_, attributes, cases, hrules, rfl, hcases, ?_, hcounted⟩
  obtain ⟨hvalid, -⟩ := run_eq_some hrun
  have haccepted : ∀ block ∈ plan.benchmarks.zip documents, (block.2.resources.map Resource.id).Nodup ∧
      ∀ resource ∈ block.2.resources, resource.benchmarkInfo = block.2.benchmarkInfo ∧
        resource.benchmarkInfo.CStrings ∧ NulFree resource.id :=
    fun block hblock => accepted_rules (hdocuments block.2 (List.of_mem_zip hblock).2)
  have hdifferent : ((plan.benchmarks.zip documents).map fun block => identity block.2.benchmarkInfo).Nodup := by
    have hnodup := (checkUniqueIdentities_ok hunique).1
    rw [map_zip_snd identity (by simp [hfiles]), List.map_map] at hnodup
    rwa [map_zip_snd (fun document => identity document.benchmarkInfo) (validatePlanForRun_length hvalid).ge]
  have hnodup := rulesOf_nodup hdifferent (fun block hblock => (haccepted block hblock).1)
    fun block hblock resource hresource => ((haccepted block hblock).2 resource hresource).1
  rw [← hall, List.map_map] at hnodup
  rw [List.Nodup, List.pairwise_map]
  refine pairwise_of_forall₂ (fun value value' case case' hne hcase hcase' => hne case case' hcase hcase') hcases
    (reportedRules_distinct (fun visit hvisit => outcome_of_mem_trace hvisit) (fun visit hvisit => ?_) hnodup)
  have hrule : (visit.1.benchmark, visit.1.entry) ∈ rulesOf (plan.benchmarks.zip documents) := by
    rw [← hall]
    exact List.mem_map_of_mem hvisit
  obtain ⟨block, hblock, hresource⟩ := List.mem_flatMap.mp hrule
  obtain ⟨resource, hresource, heq⟩ := List.mem_map.mp hresource
  obtain ⟨-, rfl⟩ := Prod.mk.inj heq
  exact ((haccepted block hblock).2 _ hresource).2

end Run

section TwoDefinitions

/-- The only number is zero. -/
private def zeros : NumberFormat where
  print _ := utf8 "0"
  read s := if s.head? = some 0x30 then some (0, 1) else none

private def labelled (name value : String) : Bytes × JsonValue := (utf8 name, .string (utf8 value))

/-- A definition of a framework, with a rule of that id. -/
private def definitionOf (framework id : String) : JsonValue :=
  .object [labelled "kind" "BenchmarkDefinition", labelled "apiVersion" "v1",
    (utf8 "metadata", .object [labelled "name" "Example",
      (utf8 "labels", .object [labelled "framework" framework, labelled "distribution" "ubuntu",
        labelled "distributionVersion" "22.04"]),
      (utf8 "annotations", .object [labelled "benchmarkVersion" "1.0.0"])]),
    (utf8 "spec", .object [labelled "version" "1.0.0", (utf8 "rules", .array [.object [labelled "id" id,
      labelled "title" "A rule", labelled "ruleId" "r1", labelled "ruleName" "RuleR",
      (utf8 "payload", .object [(utf8 "audit", .object [(utf8 "anyOf", .array [])])]), (utf8 "tags", .array []),
      (utf8 "metadata", .object [])]])])]

private def blockOf (version : ContentVersion) (file : String) : PlanBenchmark where
  file := utf8 file
  name := utf8 "Example"
  version
  versionConstraint := utf8 "^1.0.0"
  rules := (∅ : ByteMap PlanRuleMode).insert (utf8 "r") {}

private def twoEnvironment : RunEnvironment Unit Unit where
  engine := { Engine.bare with num := zeros, formatter := fun _ => .ok (utf8 "[]") }
  host := { num := zeros, regexMatch := fun _ _ => some true, fnmatch := fun _ _ => true, realpath := some,
            openVerified := fun _ => .error { message := utf8 "No such file or directory" }
            openVerified_nil := by simp }
  distributionInfo := { version := utf8 "22.04" }
  timestamp := utf8 "2024-01-01T00:00:00Z"
  durationMs := 0

private structure TwoRun where
  documents : List BenchmarkDocument
  plan : Plan
  result : RunResult
  report : Bytes

/-- A rule that is audited, and one of the same id in another framework. -/
private def twoRun : Option TwoRun := do
  let first ← (parseString zeros (jsonSerializeToString zeros (definitionOf "cis" "r"))).toOption
  let second ← (parseString zeros (jsonSerializeToString zeros (definitionOf "stig" "r"))).toOption
  let plan : Plan := { benchmarks := [blockOf first.version "a.json", blockOf second.version "b.json"] }
  (checkUniqueBenchmarkIdentities
    [(utf8 "a.json", first.benchmarkInfo), (utf8 "b.json", second.benchmarkInfo)]).toOption
  let result ← run twoEnvironment false plan [first, second] { context := () }
  let report ← (renderJUnit zeros (renderReport zeros fun _ => []) (result.text zeros) (utf8 "suite")).toOption
  some { documents := [first, second], plan, result, report }

private theorem twoRun_reports :
    (twoRun.bind fun two => getArray two.result.document (utf8 "rules")).map List.length = some 2 := by
  decide +kernel

private theorem twoRun_some {two : TwoRun} (h : twoRun = some two) :
    (∀ document ∈ two.documents, ∃ num json, parseString num json = .ok document) ∧
      checkUniqueBenchmarkIdentities
        ([utf8 "a.json", utf8 "b.json"].zip (two.documents.map BenchmarkDocument.benchmarkInfo)) = .ok () ∧
      two.documents.length = 2 ∧ run twoEnvironment false two.plan two.documents { context := () } = some two.result ∧
      renderJUnit zeros (renderReport zeros fun _ => []) (two.result.text zeros) (utf8 "suite") = .ok two.report := by
  unfold twoRun at h
  obtain ⟨first, hfirst, h⟩ := Option.bind_eq_some_iff.mp h
  obtain ⟨second, hsecond, h⟩ := Option.bind_eq_some_iff.mp h
  obtain ⟨_, hunique, h⟩ := Option.bind_eq_some_iff.mp h
  obtain ⟨result, hresult, h⟩ := Option.bind_eq_some_iff.mp h
  obtain ⟨report, hreport, h⟩ := Option.bind_eq_some_iff.mp h
  cases h
  refine ⟨?_, except_toOption_iff.mp hunique, rfl, hresult, except_toOption_iff.mp hreport⟩
  simp only [List.forall_mem_cons]
  exact ⟨⟨_, _, except_toOption_iff.mp hfirst⟩, ⟨_, _, except_toOption_iff.mp hsecond⟩, nofun⟩

/-- Two rules of the same id, in definitions of different frameworks, are two test cases. -/
theorem junit_testcases_distinct_two : ∃ two rules attributes cases, twoRun = some two ∧
    getArray two.result.document (utf8 "rules") = some rules ∧ rules.length = 2 ∧ List.Forall₂ IsCaseOf rules cases ∧
      (cases.map (XmlNode.attribute (utf8 "classname"))).Nodup ∧ Counted rules attributes cases := by
  obtain ⟨reported, hreported, hlength⟩ := Option.map_eq_some_iff.mp twoRun_reports
  obtain ⟨two, htwo, hrules⟩ := Option.bind_eq_some_iff.mp hreported
  obtain ⟨hdocuments, hunique, hfiles, hrun, hrender⟩ := twoRun_some htwo
  have hzero : zeros.Rereads 0 := by
    refine ⟨⟨0x30, [], rfl, .inr rfl⟩, by decide, rfl, rfl, fun rest _ => rfl⟩
  have hnum : zeros.RereadsItself := by
    intro s bits length hread _
    have hread : (if s.head? = some 0x30 then some ((0 : UInt64), 1) else none) = some (bits, length) := hread
    split_ifs at hread
    cases hread
    exact hzero
  obtain ⟨rules, attributes, cases, hread, -, hcases, hnodup, hcounted⟩ :=
    junit_testcases_distinct.2 twoEnvironment false two.plan two.documents { context := () } two.result
      [utf8 "a.json", utf8 "b.json"] (fun _ => []) (utf8 "suite") two.report hdocuments hunique hfiles.symm hnum hzero
      hrun
      hrender
  rw [hrules] at hread
  cases hread
  exact ⟨two, reported, attributes, cases, htwo, hrules, hlength, hcases, hnodup, hcounted⟩

end TwoDefinitions

end Kompli.Cli
