import Kompli.Cli.PlanRoundTrip
import Kompli.Cli.Requests
import Mathlib.Data.List.Forall2

/-! A plan that was generated is read back as what was asked for, and accepted for a run. -/
namespace Kompli.Cli
open BenchmarkIO BenchmarkDefinition Parson Ascii Foundation

/-- The block of a plan for the file at `index`: its rules are those of its document, each as asked for. -/
structure RequestedBlock (parsedFiles : List ParsedBenchmarkFile) (toggles : List Toggle)
    (paramOverrides : List ParamOverride) (index : Nat) (file : CString) (document : BenchmarkDocument)
    (block : PlanBenchmark) : Prop where
  file : block.file = file.val
  name : block.name = document.name
  version : block.version = document.version
  versionConstraint : block.versionConstraint = 0x5E :: document.version.toBytes
  rules : ∀ id, block.rules[id]? =
    (document.resources.find? (·.id = id)).map (requestedRule parsedFiles toggles paramOverrides index)

/-- A plan with one block for each file, in order. -/
structure Reproduces (benchmarkFiles : List CString) (documents : List BenchmarkDocument) (toggles : List Toggle)
    (paramOverrides : List ParamOverride) (plan : Plan) : Prop where
  length : plan.benchmarks.length = benchmarkFiles.length
  blocks : ∀ (index : Nat) (file : CString) (document : BenchmarkDocument) (block : PlanBenchmark),
    benchmarkFiles[index]? = some file → documents[index]? = some document → plan.benchmarks[index]? = some block →
      RequestedBlock (benchmarkFiles.zipWith ParsedBenchmarkFile.ofDocument documents) toggles paramOverrides
        index file document block

section Rules

variable {parsedFiles toggled overridden : List ParsedBenchmarkFile} {toggles : List Toggle}
  {paramOverrides : List ParamOverride}

/-- The rules after all toggles and overrides, from those before. -/
theorem rules_requested (htoggles : toggles.foldlM applyToggle parsedFiles = .ok toggled)
    (hoverrides : paramOverrides.foldlM applyOverride toggled = .ok overridden) {index : Nat} {resource : Resource}
    (hseed : ruleAt parsedFiles { file := index, id := resource.id } =
      some (ParsedBenchmarkFile.seed resource.parameterMetadata))
    (hmetadata : ∀ parsed, parsedFiles[index]? = some parsed →
      parsed.parameterMetadata[resource.id]? = some resource.parameterMetadata) :
    ruleAt overridden { file := index, id := resource.id } =
      some (requestedRule parsedFiles toggles paramOverrides index resource) := by
  obtain ⟨hheaders, hmodes⟩ := applyToggles_ok htoggles
  obtain ⟨-, hmode, hvalues⟩ := applyOverrides_ok hoverrides
  have htoggled : ruleAt toggled { file := index, id := resource.id } =
      some { ParsedBenchmarkFile.seed resource.parameterMetadata with
        mode := requestedMode parsedFiles toggles { file := index, id := resource.id } } := by
    rw [hmodes, hseed, requestedMode]
    cases toggles.reverse.find? (Toggle.names parsedFiles { file := index, id := resource.id }) with
    | none => rfl
    | some toggle => rfl
  obtain ⟨rule, hrule, hruleMode⟩ : ∃ rule, ruleAt overridden { file := index, id := resource.id } = some rule ∧
      rule.mode = requestedMode parsedFiles toggles { file := index, id := resource.id } := by
    have hmodeAt := congrFun hmode { file := index, id := resource.id }
    rw [modeAt, modeAt, htoggled] at hmodeAt
    exact Option.map_eq_some_iff.mp hmodeAt
  have hparameters : rule.parameters =
      (requestedRule parsedFiles toggles paramOverrides index resource).parameters := by
    apply Std.ExtTreeMap.ext_getElem?
    intro name
    have hvalue := hvalues { file := index, id := resource.id, name }
    rw [valueAt, valueAt, hrule, htoggled, Option.map_some, Option.map_some,
      show ParamOverride.names toggled { file := index, id := resource.id, name } =
        ParamOverride.names parsedFiles { file := index, id := resource.id, name } from
        funext fun paramOverride => ParamOverride.names_congr hheaders _ paramOverride] at hvalue
    rw [requestedRule, Std.ExtTreeMap.getElem?_map]
    simp only [requestedValue]
    cases hlast : paramOverrides.reverse.find?
        (ParamOverride.names parsedFiles { file := index, id := resource.id, name }) with
    | none =>
      rw [hlast, Option.elim_none, ParsedBenchmarkFile.seed, Option.some.injEq,
        Std.ExtTreeMap.getElem?_map] at hvalue
      exact hvalue
    | some paramOverride =>
      rw [hlast, Option.elim_some, Option.map_some, Option.some.injEq] at hvalue
      have hdeclared : name ∈ resource.parameterMetadata := by
        have hnames := List.find?_some hlast
        rw [ParamOverride.names] at hnames
        split at hnames
        · rename_i found hfound
          rw [decide_eq_true_eq] at hnames
          subst hnames
          obtain ⟨⟨parsed, metadata, hparsed, hid, hname⟩, -⟩ := selects_ok hfound
          rw [hmetadata parsed hparsed] at hid
          cases hid
          exact hname
        · cases hnames
      rw [hvalue, Std.ExtTreeMap.getElem?_eq_some_getElem hdeclared]
      rfl
  rw [hrule]
  congr 1
  cases rule
  cases hruleMode
  cases hparameters
  rfl

/-- No toggle and no override brings in a rule. -/
theorem rules_absent (htoggles : toggles.foldlM applyToggle parsedFiles = .ok toggled)
    (hoverrides : paramOverrides.foldlM applyOverride toggled = .ok overridden) {rule : ResolvedRuleRef}
    (habsent : ruleAt parsedFiles rule = none) : ruleAt overridden rule = none := by
  have htoggled := (applyToggles_ok htoggles).2 rule
  have hmode := congrFun (applyOverrides_ok hoverrides).2.1 rule
  have hnone : ruleAt toggled rule = none := by
    rw [htoggled, habsent]
    cases toggles.reverse.find? (Toggle.names parsedFiles rule) <;> rfl
  rw [modeAt, modeAt, hnone] at hmode
  exact Option.map_eq_none_iff.mp hmode

end Rules

section Run

variable {host : Host} {benchmarkFiles : List CString} {documents : List BenchmarkDocument}
  {toggles : List Toggle} {paramOverrides : List ParamOverride} {toggled overridden : List ParsedBenchmarkFile}

private theorem accepted_at (hparse : List.Forall₂
    (fun file document => parseFile host.num host.openVerified file.val = .ok document) benchmarkFiles documents)
    {index : Nat} {file : CString} {document : BenchmarkDocument} (hfile : benchmarkFiles[index]? = some file)
    (hdocument : documents[index]? = some document) : document.Accepted ∧ file.val ≠ [] := by
  obtain ⟨hlt, rfl⟩ := List.getElem?_eq_some_iff.mp hfile
  obtain ⟨hlt', rfl⟩ := List.getElem?_eq_some_iff.mp hdocument
  have h := hparse.get hlt hlt'
  refine ⟨parseFile_ok h, fun hempty => ?_⟩
  obtain ⟨content, hcontent, -⟩ := except_bind_ok_iff.mp h
  rw [List.get_eq_getElem, hempty] at hcontent
  exact host.openVerified_nil content hcontent

/-- What is said of a file after all toggles and overrides. -/
private theorem overridden_spec (hparse : List.Forall₂
    (fun file document => parseFile host.num host.openVerified file.val = .ok document) benchmarkFiles documents)
    (htoggles : toggles.foldlM applyToggle (benchmarkFiles.zipWith ParsedBenchmarkFile.ofDocument documents) =
      .ok toggled)
    (hoverrides : paramOverrides.foldlM applyOverride toggled = .ok overridden) {index : Nat}
    {parsed : ParsedBenchmarkFile} (hparsed : overridden[index]? = some parsed) :
    ∃ file document, benchmarkFiles[index]? = some file ∧ documents[index]? = some document ∧
      RequestedBlock (benchmarkFiles.zipWith ParsedBenchmarkFile.ofDocument documents) toggles paramOverrides index
        file document parsed.block ∧
      ∀ id, parsed.parameterMetadata[id]? =
        (document.resources.find? (·.id = id)).map Resource.parameterMetadata := by
  have hheaders := (applyOverrides_ok hoverrides).1.trans (applyToggles_ok htoggles).1
  obtain ⟨original, horiginal, hheader⟩ : ∃ original,
      (benchmarkFiles.zipWith ParsedBenchmarkFile.ofDocument documents)[index]? = some original ∧
        original.header = parsed.header := by
    have h := congrArg (·[index]?) hheaders
    simp only [headers, List.getElem?_map, hparsed, Option.map_some] at h
    exact Option.map_eq_some_iff.mp h.symm
  obtain ⟨file, document, hfile, hdocument, rfl⟩ := List.getElem?_zipWith_eq_some.mp horiginal
  obtain ⟨haccepted, -⟩ := accepted_at hparse hfile hdocument
  obtain ⟨hrules, hmetadata, hofFile, hofName, hofVersion⟩ := ofDocument_spec file haccepted.ids
  refine ⟨file, document, hfile, hdocument, ⟨?_, ?_, ?_, ?_, fun id => ?_⟩, fun id => ?_⟩
  · exact congrArg (·.file.val) hheader.symm |>.trans (congrArg Subtype.val hofFile)
  · exact (congrArg FileHeader.name hheader.symm).trans hofName
  · exact (congrArg FileHeader.version hheader.symm).trans hofVersion
  · exact congrArg (fun version => 0x5E :: version.toBytes)
      ((congrArg FileHeader.version hheader.symm).trans hofVersion)
  · have hat : parsed.block.rules[id]? = ruleAt overridden { file := index, id } := by
      rw [ruleAt, hparsed]
      rfl
    rw [hat]
    cases hfind : document.resources.find? (·.id = id) with
    | none =>
      refine rules_absent htoggles hoverrides ?_
      rw [ruleAt, horiginal, Option.bind_some, hrules, hfind]
      rfl
    | some resource =>
      obtain rfl : resource.id = id := by simpa using List.find?_some hfind
      refine rules_requested htoggles hoverrides ?_ fun other hother => ?_
      · rw [ruleAt, horiginal, Option.bind_some, hrules, hfind]
        rfl
      · rw [horiginal] at hother
        cases hother
        rw [hmetadata, hfind]
        rfl
  · rw [← hmetadata]
    exact congrArg (fun header : FileHeader => header.parameterMetadata[id]?) hheader.symm

/-- What was asked for can be written in a plan. -/
private theorem requestedRule_clean {parsedFiles : List ParsedBenchmarkFile} {index : Nat} {resource : Resource}
    (haccepted : resource.Accepted) :
    CleanParameters (requestedRule parsedFiles toggles paramOverrides index resource).parameters := by
  intro name value hvalue
  rw [requestedRule, Std.ExtTreeMap.getElem?_map] at hvalue
  obtain ⟨metadata, hmetadata, rfl⟩ := Option.map_eq_some_iff.mp hvalue
  obtain ⟨hname, hdefault⟩ := haccepted.parameters name metadata hmetadata
  refine ⟨hname, ?_⟩
  rw [requestedValue]
  cases paramOverrides.reverse.find? (ParamOverride.names parsedFiles { file := index, id := resource.id, name }) with
  | none => exact hdefault
  | some paramOverride => exact paramOverride.value.property

private theorem requestedBlock_clean {parsedFiles : List ParsedBenchmarkFile} {index : Nat} {file : CString}
    {document : BenchmarkDocument} {parsed : ParsedBenchmarkFile} (haccepted : document.Accepted)
    (hne : file.val ≠ [])
    (h : RequestedBlock parsedFiles toggles paramOverrides index file document parsed.block) : parsed.Clean where
  file := by
    have hfile : parsed.file.val = file.val := h.file
    rwa [hfile]
  name := by
    have hname : parsed.name = document.name := h.name
    rw [hname]
    exact haccepted.name.2
  rules id rule hrule := by
    have hrules : parsed.rules[id]? = _ := h.rules id
    rw [hrules] at hrule
    obtain ⟨resource, hresource, rfl⟩ := Option.map_eq_some_iff.mp hrule
    obtain rfl : resource.id = id := by simpa using List.find?_some hresource
    have hresourceAccepted := haccepted.resources resource (List.mem_of_find?_eq_some hresource)
    exact ⟨hresourceAccepted.id, requestedRule_clean hresourceAccepted⟩

private theorem satisfiesConstraint_self {version : ContentVersion} {block : PlanBenchmark}
    (hversion : block.version = version) (hconstraint : block.versionConstraint = 0x5E :: version.toBytes) :
    satisfiesConstraint version block = true := by
  simp [satisfiesConstraint, hversion, hconstraint, ContentVersion.compare_self]

/-- The block of a file is accepted with the document that it was made from. -/
private theorem validateBenchmark_requested {parsedFiles : List ParsedBenchmarkFile} {index : Nat} {file : CString}
    {document : BenchmarkDocument} {parsed : ParsedBenchmarkFile}
    (h : RequestedBlock parsedFiles toggles paramOverrides index file document parsed.block)
    (hmetadata : ∀ id, parsed.parameterMetadata[id]? =
      (document.resources.find? (·.id = id)).map Resource.parameterMetadata)
    (hvalid : validateFile host parsed = .ok ()) {distributionInfo : DistributionInfo}
    (hmatch : document.benchmarkInfo.isMatch host.fnmatch distributionInfo = true) :
    validateBenchmark host distributionInfo (parsed.block, document) = .ok () := by
  have hrules : parsed.block.rules.toList.forM (validateRule host parsed.block document) = .ok () := by
    refine forM_ok_iff.mpr fun rule hrule => ?_
    have hat := h.rules rule.1
    rw [mem_toList.mp hrule] at hat
    obtain ⟨resource, hresource, -⟩ := Option.map_eq_some_iff.mp hat.symm
    have hparameters := forM_ok_iff.mp hvalid rule hrule
    rw [hmetadata, hresource, Option.map_some, Option.getD_some] at hparameters
    rw [validateRule, hresource]
    exact hparameters
  have hconstraint : validateVersionConstraint parsed.block.version parsed.block.versionConstraint = .ok () :=
    validateVersionConstraint_self parsed.version
  rw [validateBenchmark]
  simp only [hmatch, not_true_eq_false, ↓reduceIte, hconstraint, except_ok_bind,
    satisfiesConstraint_self h.version h.versionConstraint, hrules]

/-- A plan that was generated is read back with the rules of each file as the toggles and overrides ask
for them, and a run accepts it wherever the definitions match. -/
theorem generated_plan_reproduces (host : Host) (benchmarkFiles : List CString) (toggles : List Toggle)
    (paramOverrides : List ParamOverride) (text : Bytes)
    (h : generatePlan host benchmarkFiles toggles paramOverrides = .ok text) :
    ∃ documents plan,
      List.Forall₂ (fun file document => parseFile host.num host.openVerified file.val = .ok document)
        benchmarkFiles documents ∧
      parsePlan host.num text = .ok plan ∧
      Reproduces benchmarkFiles documents toggles paramOverrides plan ∧
      ∀ distributionInfo,
        (∀ document ∈ documents, document.benchmarkInfo.isMatch host.fnmatch distributionInfo = true) →
        validatePlanForRun host plan documents distributionInfo = .ok () := by
  rw [generatePlan] at h
  split at h
  · cases h
  · rename_i hne
    obtain ⟨_, -, h⟩ := except_bind_ok_iff.mp h
    obtain ⟨documents, hdocuments, h⟩ := except_bind_ok_iff.mp h
    obtain ⟨_, -, h⟩ := except_bind_ok_iff.mp h
    obtain ⟨toggled, htoggles, h⟩ := except_bind_ok_iff.mp h
    obtain ⟨overridden, hoverrides, h⟩ := except_bind_ok_iff.mp h
    obtain ⟨⟨⟩, hvalid, hbuild⟩ := except_bind_ok_iff.mp h
    have hparse := mapM_ok_forall₂ hdocuments
    have hlength := hparse.length_eq
    have hlength' : overridden.length = benchmarkFiles.length := by
      have hheaders := (applyOverrides_ok hoverrides).1.trans (applyToggles_ok htoggles).1
      have hlen := congrArg List.length hheaders
      simp only [headers, List.length_map, List.length_zipWith] at hlen
      omega
    have hspec := fun (index : Nat) (parsed : ParsedBenchmarkFile) (hparsed : overridden[index]? = some parsed) =>
      overridden_spec hparse htoggles hoverrides hparsed
    have hclean : ∀ parsed ∈ overridden, parsed.Clean := by
      intro parsed hmem
      obtain ⟨index, hparsed⟩ := List.getElem?_of_mem hmem
      obtain ⟨file, document, hfile, hdocument, hblock, -⟩ := hspec index parsed hparsed
      obtain ⟨haccepted, hne⟩ := accepted_at hparse hfile hdocument
      exact requestedBlock_clean haccepted hne hblock
    have hne' : overridden ≠ [] := by
      rintro rfl
      exact hne (List.length_eq_zero_iff.mp hlength'.symm)
    refine ⟨documents, _, hparse, parsePlan_buildPlan hne' hclean hbuild, ⟨?_, ?_⟩, ?_⟩
    · rw [List.length_map, hlength']
    · intro index file document block hfile hdocument hblock
      rw [List.getElem?_map] at hblock
      obtain ⟨parsed, hparsed, rfl⟩ := Option.map_eq_some_iff.mp hblock
      obtain ⟨file', document', hfile', hdocument', hrequested, -⟩ := hspec index parsed hparsed
      rw [hfile] at hfile'
      rw [hdocument] at hdocument'
      cases hfile'
      cases hdocument'
      exact hrequested
    · intro distributionInfo hmatch
      rw [validatePlanForRun, if_neg (by rw [List.length_map]; omega)]
      refine forM_ok_iff.mpr fun pair hpair => ?_
      obtain ⟨index, hat⟩ := List.getElem?_of_mem hpair
      obtain ⟨hblock, hdocument⟩ := List.getElem?_zip_eq_some.mp hat
      rw [List.getElem?_map] at hblock
      obtain ⟨parsed, hparsed, hparsedBlock⟩ := Option.map_eq_some_iff.mp hblock
      obtain ⟨file, document, -, hdocument', hrequested, hmetadata⟩ := hspec index parsed hparsed
      rw [hdocument] at hdocument'
      cases hdocument'
      have hvalidFile := forM_ok_iff.mp hvalid parsed (List.mem_of_getElem? hparsed)
      have hmatches := hmatch pair.2 (List.mem_of_getElem? hdocument)
      have hbenchmark := validateBenchmark_requested hrequested hmetadata hvalidFile hmatches
      rwa [hparsedBlock] at hbenchmark

private def text (string : String) : JsonValue := .string (utf8 string)

private def exampleRule : JsonValue :=
  .object [(utf8 "id", text "r"), (utf8 "title", text "A rule"), (utf8 "ruleId", text "r1"),
    (utf8 "ruleName", text "RuleR"), (utf8 "payload", .object []), (utf8 "tags", .array []),
    (utf8 "metadata", .object []),
    (utf8 "parameterMetadata", .object [(utf8 "p", .object [(utf8 "default", text "0"), (utf8 "type", text "string")])])]

private def exampleDefinition : JsonValue :=
  .object [(utf8 "kind", text "BenchmarkDefinition"), (utf8 "apiVersion", text "v1"),
    (utf8 "metadata", .object [(utf8 "name", text "Example"),
      (utf8 "labels", .object [(utf8 "framework", text "cis"), (utf8 "distribution", text "ubuntu"),
        (utf8 "distributionVersion", text "22.04")]),
      (utf8 "annotations", .object [(utf8 "benchmarkVersion", text "1.0.0")])]),
    (utf8 "spec", .object [(utf8 "version", text "1.0.0"), (utf8 "rules", .array [exampleRule])])]

private def exampleFile : CString := ⟨utf8 "/etc/x.json", by decide⟩

/-- A host with one definition, and no number anywhere. -/
private def exampleHost : Host where
  num := { print := fun _ => [], read := fun _ => none }
  regexMatch _ _ := some true
  fnmatch pattern string := pattern = string
  realpath path := some path
  openVerified path :=
    if path = exampleFile.val then .ok (jsonSerializeToString { print := fun _ => [], read := fun _ => none } exampleDefinition)
    else .error { message := utf8 "No such file or directory", code := 2 }
  openVerified_nil content := by simp [exampleFile, utf8]

/-- A plan that sets a rule to be remediated, with a value for its parameter. -/
theorem generated_plan_reproduces_example :
    ∃ text documents plan,
      generatePlan exampleHost [exampleFile] [{ section_ := utf8 "r", mode := .remediate }]
          [{ selector := utf8 "r.p", value := ⟨utf8 "1", by decide⟩ }] = .ok text ∧
        parsePlan exampleHost.num text = .ok plan ∧
        Reproduces [exampleFile] documents [{ section_ := utf8 "r", mode := .remediate }]
          [{ selector := utf8 "r.p", value := ⟨utf8 "1", by decide⟩ }] plan := by
  have hok : (generatePlan exampleHost [exampleFile] [{ section_ := utf8 "r", mode := .remediate }]
      [{ selector := utf8 "r.p", value := ⟨utf8 "1", by decide⟩ }]).isOk = true := by
    decide +kernel
  cases hgenerate : generatePlan exampleHost [exampleFile] [{ section_ := utf8 "r", mode := .remediate }]
      [{ selector := utf8 "r.p", value := ⟨utf8 "1", by decide⟩ }] with
  | error e =>
    rw [hgenerate] at hok
    cases hok
  | ok text =>
    obtain ⟨documents, plan, -, hparse, hreproduces, -⟩ := generated_plan_reproduces _ _ _ _ _ hgenerate
    exact ⟨text, documents, plan, rfl, hparse, hreproduces⟩

end Run

end Kompli.Cli
