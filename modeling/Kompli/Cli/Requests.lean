import Kompli.Cli.Selectors
import Kompli.Foundation.MapEntries

/-! What a list of toggles and overrides asks for each rule, and that it is what they do. -/
namespace Kompli.Cli
open BenchmarkIO BenchmarkDefinition Parson Ascii Foundation

section Requested

variable (parsedFiles : List ParsedBenchmarkFile)

/-- Whether a toggle names a rule, and an override a parameter. -/
def Toggle.names (rule : ResolvedRuleRef) (toggle : Toggle) : Bool :=
  match resolveRuleRef parsedFiles toggle.section_ (multiFile parsedFiles) with
  | .ok ref => ref = rule
  | .error _ => false

def ParamOverride.names (parameter : ResolvedParameterOverride) (paramOverride : ParamOverride) : Bool :=
  match Selects parsedFiles paramOverride.selector with
  | .ok found => found = parameter
  | .error _ => false

/-- Of the toggles that name a rule the last decides. -/
def requestedMode (toggles : List Toggle) (rule : ResolvedRuleRef) : ToggleMode :=
  (toggles.reverse.find? (Toggle.names parsedFiles rule)).elim .audit Toggle.mode

def requestedValue (paramOverrides : List ParamOverride) (parameter : ResolvedParameterOverride)
    (defaultValue : Bytes) : Bytes :=
  (paramOverrides.reverse.find? (ParamOverride.names parsedFiles parameter)).elim defaultValue (·.value.val)

/-- What is asked for a rule of the file at `file`. -/
def requestedRule (toggles : List Toggle) (paramOverrides : List ParamOverride) (file : Nat)
    (resource : Resource) : PlanRuleMode where
  mode := requestedMode parsedFiles toggles { file, id := resource.id }
  parameters := resource.parameterMetadata.map fun name metadata =>
    requestedValue parsedFiles paramOverrides { file, id := resource.id, name } metadata.defaultValue

end Requested

section Headers

/-- What toggles and overrides leave of a file. -/
structure FileHeader where
  file : CString
  name : Bytes
  version : ContentVersion
  parameterMetadata : ByteMap (ByteMap ParameterMetadata)

def ParsedBenchmarkFile.header (parsed : ParsedBenchmarkFile) : FileHeader where
  file := parsed.file
  name := parsed.name
  version := parsed.version
  parameterMetadata := parsed.parameterMetadata

def headers (parsedFiles : List ParsedBenchmarkFile) : List FileHeader := parsedFiles.map ParsedBenchmarkFile.header

variable {parsedFiles parsedFiles' : List ParsedBenchmarkFile}

theorem multiFile_congr (h : headers parsedFiles' = headers parsedFiles) :
    multiFile parsedFiles' = multiFile parsedFiles := by
  have hlength := congrArg List.length h
  rw [headers, headers, List.length_map, List.length_map] at hlength
  rw [multiFile, multiFile, hlength]

private theorem filesNamed_eq (parsedFiles : List ParsedBenchmarkFile) (basename : Bytes) :
    filesNamed parsedFiles basename =
      ((headers parsedFiles).zipIdx.filter fun (header, _) => baseName header.file.val = basename).map Prod.snd := by
  rw [filesNamed, headers, List.zipIdx_map, List.filter_map, List.map_map]
  rfl

/-- References and selectors are resolved by what toggles and overrides leave. -/
theorem resolveRuleRef_congr (h : headers parsedFiles' = headers parsedFiles) (ref : Bytes) :
    resolveRuleRef parsedFiles' ref (multiFile parsedFiles') =
      resolveRuleRef parsedFiles ref (multiFile parsedFiles) := by
  rw [resolveRuleRef, resolveRuleRef, multiFile_congr h]
  simp only [filesNamed_eq, h]

private theorem parameterSelectors_eq (parsedFiles : List ParsedBenchmarkFile) (multiFile : Bool) :
    parameterSelectors parsedFiles multiFile = (headers parsedFiles).zipIdx.flatMap fun (header, file) =>
      let qualifier := if multiFile then baseName header.file.val ++ [colon] else []
      header.parameterMetadata.toList.flatMap fun rule =>
        rule.2.toList.map fun parameter =>
          (qualifier ++ rule.1 ++ [dot] ++ parameter.1, { file, id := rule.1, name := parameter.1 }) := by
  rw [parameterSelectors, headers, List.zipIdx_map, List.flatMap_map]
  rfl

theorem selects_congr (h : headers parsedFiles' = headers parsedFiles) (selector : Bytes) :
    Selects parsedFiles' selector = Selects parsedFiles selector := by
  rw [Selects, Selects, resolveParameterOverride, resolveParameterOverride, multiFile_congr h,
    parameterSelectors_eq, parameterSelectors_eq, h]

end Headers

section Update

/-- What is said of a rule. -/
def ruleAt (parsedFiles : List ParsedBenchmarkFile) (rule : ResolvedRuleRef) : Option PlanRuleMode :=
  parsedFiles[rule.file]?.bind fun parsed => parsed.rules[rule.id]?

variable {parsedFiles parsedFiles' : List ParsedBenchmarkFile}

private theorem set_headers {i : Nat} {parsed parsed' : ParsedBenchmarkFile} (hparsed : parsedFiles[i]? = some parsed)
    (h : parsed'.header = parsed.header) : headers (parsedFiles.set i parsed') = headers parsedFiles := by
  apply List.ext_getElem?
  intro j
  rw [headers, headers, List.getElem?_map, List.getElem?_map, List.getElem?_set]
  split
  · rename_i hij
    subst hij
    split
    · rw [hparsed, Option.map_some, Option.map_some, h]
    · rename_i hlt
      rw [List.getElem?_eq_none (by omega)] at hparsed
      cases hparsed
  · rfl

private theorem getElem?_setRule (parsed : ParsedBenchmarkFile) {id : Bytes} (mode : PlanRuleMode)
    (h : id ∈ parsed.rules) (other : Bytes) :
    (parsed.setRule id mode h).rules[other]? = if id = other then some mode else parsed.rules[other]? := by
  rw [ParsedBenchmarkFile.setRule, Std.ExtTreeMap.getElem?_insert]
  simp only [Std.LawfulEqCmp.compare_eq_iff_eq]

/-- An update is of one rule, and of nothing that references are resolved by. -/
theorem updateRule_ok {ref : ResolvedRuleRef} {unknown : Bytes → Error} {update : PlanRuleMode → PlanRuleMode}
    (h : updateRule parsedFiles ref unknown update = .ok parsedFiles') :
    headers parsedFiles' = headers parsedFiles ∧
      ∀ rule, ruleAt parsedFiles' rule =
        if ref = rule then (ruleAt parsedFiles rule).map update else ruleAt parsedFiles rule := by
  rw [updateRule] at h
  split at h
  · rename_i hnone
    cases h
    refine ⟨rfl, fun rule => ?_⟩
    split
    · rename_i heq
      subst heq
      rw [ruleAt, hnone]
      rfl
    · rfl
  · rename_i parsed hparsed
    split at h
    · rename_i hid
      cases h
      refine ⟨set_headers hparsed rfl, fun rule => ?_⟩
      have hlt := (List.getElem?_eq_some_iff.mp hparsed).1
      by_cases hfile : ref.file = rule.file
      · have hset : (parsedFiles.set ref.file (parsed.setRule ref.id (update parsed.rules[ref.id]) hid))[rule.file]? =
            some (parsed.setRule ref.id (update parsed.rules[ref.id]) hid) := by
          rw [← hfile, List.getElem?_set_self hlt]
        have heq : ref = rule ↔ ref.id = rule.id :=
          ⟨congrArg ResolvedRuleRef.id, fun hrule => by cases ref; cases rule; cases hfile; cases hrule; rfl⟩
        rw [hfile] at hparsed
        rw [ruleAt, ruleAt, hset, hparsed, Option.bind_some, Option.bind_some, getElem?_setRule]
        simp only [heq]
        split
        · rename_i hrule
          rw [← hrule, Std.ExtTreeMap.getElem?_eq_some_getElem hid]
          rfl
        · rfl
      · simp only [ruleAt, List.getElem?_set_ne hfile]
        rw [if_neg fun heq => hfile (congrArg ResolvedRuleRef.file heq)]
    · cases h

theorem Toggle.names_congr (h : headers parsedFiles' = headers parsedFiles) (rule : ResolvedRuleRef)
    (toggle : Toggle) : toggle.names parsedFiles' rule = toggle.names parsedFiles rule := by
  rw [Toggle.names, Toggle.names, resolveRuleRef_congr h]

theorem ParamOverride.names_congr (h : headers parsedFiles' = headers parsedFiles)
    (parameter : ResolvedParameterOverride) (paramOverride : ParamOverride) :
    paramOverride.names parsedFiles' parameter = paramOverride.names parsedFiles parameter := by
  rw [ParamOverride.names, ParamOverride.names, selects_congr h]

private def withMode (toggle : Toggle) (rule : PlanRuleMode) : PlanRuleMode := { rule with mode := toggle.mode }

theorem applyToggle_ok {toggle : Toggle} (h : applyToggle parsedFiles toggle = .ok parsedFiles') :
    headers parsedFiles' = headers parsedFiles ∧
      ∀ rule, ruleAt parsedFiles' rule =
        if toggle.names parsedFiles rule then (ruleAt parsedFiles rule).map (withMode toggle)
        else ruleAt parsedFiles rule := by
  obtain ⟨ref, href, hupdate⟩ := except_bind_ok_iff.mp h
  obtain ⟨hheaders, hrules⟩ := updateRule_ok hupdate
  refine ⟨hheaders, fun rule => ?_⟩
  simp only [hrules rule, Toggle.names, href, decide_eq_true_eq]
  rfl

/-- The value that a rule has for a parameter, if the rule is there. -/
def valueAt (parsedFiles : List ParsedBenchmarkFile) (parameter : ResolvedParameterOverride) :
    Option (Option Bytes) :=
  (ruleAt parsedFiles { file := parameter.file, id := parameter.id }).map fun rule => rule.parameters[parameter.name]?

def modeAt (parsedFiles : List ParsedBenchmarkFile) (rule : ResolvedRuleRef) : Option ToggleMode :=
  (ruleAt parsedFiles rule).map PlanRuleMode.mode

theorem applyOverride_ok {paramOverride : ParamOverride}
    (h : applyOverride parsedFiles paramOverride = .ok parsedFiles') :
    headers parsedFiles' = headers parsedFiles ∧ modeAt parsedFiles' = modeAt parsedFiles ∧
      ∀ parameter, valueAt parsedFiles' parameter =
        if paramOverride.names parsedFiles parameter then
          (valueAt parsedFiles parameter).map fun _ => some paramOverride.value.val
        else valueAt parsedFiles parameter := by
  obtain ⟨ref, href, hupdate⟩ := except_bind_ok_iff.mp h
  obtain ⟨hheaders, hrules⟩ := updateRule_ok hupdate
  refine ⟨hheaders, funext fun rule => ?_, fun parameter => ?_⟩
  · rw [modeAt, modeAt, hrules rule]
    split
    · rw [Option.map_map]
      rfl
    · rfl
  · simp only [ParamOverride.names, Selects, href, decide_eq_true_eq]
    rw [valueAt, valueAt, hrules, Option.map_map]
    by_cases hrule : (⟨ref.file, ref.id⟩ : ResolvedRuleRef) = ⟨parameter.file, parameter.id⟩
    · rw [if_pos hrule, Option.map_map]
      by_cases hname : ref.name = parameter.name
      · have heq : ref = parameter := by
          cases ref
          cases parameter
          cases hrule
          cases hname
          rfl
        rw [if_pos heq]
        congr 1
        funext rule
        simp [hname]
      · rw [if_neg fun heq => hname (congrArg ResolvedParameterOverride.name heq)]
        congr 1
        funext rule
        simp only [Function.comp_apply, Std.ExtTreeMap.getElem?_insert, Std.LawfulEqCmp.compare_eq_iff_eq, hname,
          ↓reduceIte]
    · have hne : ref ≠ parameter := by
        rintro rfl
        exact hrule rfl
      rw [if_neg hrule, if_neg hne]

variable {toggles : List Toggle} {paramOverrides : List ParamOverride}

/-- After all toggles a rule has the mode of the last that names it. -/
theorem applyToggles_ok (h : toggles.foldlM applyToggle parsedFiles = .ok parsedFiles') :
    headers parsedFiles' = headers parsedFiles ∧
      ∀ rule, ruleAt parsedFiles' rule =
        (toggles.reverse.find? (Toggle.names parsedFiles rule)).elim (ruleAt parsedFiles rule) fun toggle =>
          (ruleAt parsedFiles rule).map (withMode toggle) := by
  constructor
  · exact foldlM_ok_induction (P := fun files => headers files = headers parsedFiles)
      (fun _ _ _ hfiles hstep => (applyToggle_ok hstep).1.trans hfiles) rfl h
  · refine foldlM_ok_last (I := fun files => headers files = headers parsedFiles) (fun toggle other rule => ?_)
      (fun files toggle files' hfiles hstep => ?_) rfl h
    · rw [Option.map_map]
      rfl
    · obtain ⟨hheaders, hrules⟩ := applyToggle_ok hstep
      refine ⟨hheaders.trans hfiles, fun rule => ?_⟩
      rw [hrules rule, Toggle.names_congr hfiles]

/-- After all overrides a parameter has the value of the last that names it. -/
theorem applyOverrides_ok (h : paramOverrides.foldlM applyOverride parsedFiles = .ok parsedFiles') :
    headers parsedFiles' = headers parsedFiles ∧ modeAt parsedFiles' = modeAt parsedFiles ∧
      ∀ parameter, valueAt parsedFiles' parameter =
        (paramOverrides.reverse.find? (ParamOverride.names parsedFiles parameter)).elim (valueAt parsedFiles parameter)
          fun paramOverride => (valueAt parsedFiles parameter).map fun _ => some paramOverride.value.val := by
  refine ⟨?_, ?_, ?_⟩
  · exact foldlM_ok_induction (P := fun files => headers files = headers parsedFiles)
      (fun _ _ _ hfiles hstep => (applyOverride_ok hstep).1.trans hfiles) rfl h
  · exact foldlM_ok_induction (P := fun files => modeAt files = modeAt parsedFiles)
      (fun _ _ _ hfiles hstep => (applyOverride_ok hstep).2.1.trans hfiles) rfl h
  · refine foldlM_ok_last (I := fun files => headers files = headers parsedFiles) (fun paramOverride other value => ?_)
      (fun files paramOverride files' hfiles hstep => ?_) rfl h
    · rw [Option.map_map]
      rfl
    · obtain ⟨hheaders, -, hvalues⟩ := applyOverride_ok hstep
      refine ⟨hheaders.trans hfiles, fun parameter => ?_⟩
      rw [hvalues parameter, ParamOverride.names_congr hfiles]

end Update

section Documents

private theorem foldl_addResource (resources : List Resource) (parsed : ParsedBenchmarkFile) :
    (resources.foldl ParsedBenchmarkFile.addResource parsed).rules =
        resources.foldl (fun rules resource =>
          rules.insert resource.id (ParsedBenchmarkFile.seed resource.parameterMetadata)) parsed.rules ∧
      (resources.foldl ParsedBenchmarkFile.addResource parsed).parameterMetadata =
        resources.foldl (fun metadata resource => metadata.insert resource.id resource.parameterMetadata)
          parsed.parameterMetadata ∧
      (resources.foldl ParsedBenchmarkFile.addResource parsed).file = parsed.file ∧
      (resources.foldl ParsedBenchmarkFile.addResource parsed).name = parsed.name ∧
      (resources.foldl ParsedBenchmarkFile.addResource parsed).version = parsed.version := by
  induction resources generalizing parsed with
  | nil => exact ⟨rfl, rfl, rfl, rfl, rfl⟩
  | cons resource resources ih => exact ih (parsed.addResource resource)

/-- What a file starts out with: its document's rules, each in audit mode and with its defaults. -/
theorem ofDocument_spec (file : CString) {document : BenchmarkDocument}
    (hids : (document.resources.map Resource.id).Nodup) :
    (∀ id, (ParsedBenchmarkFile.ofDocument file document).rules[id]? =
        (document.resources.find? (·.id = id)).map fun resource =>
          ParsedBenchmarkFile.seed resource.parameterMetadata) ∧
      (∀ id, (ParsedBenchmarkFile.ofDocument file document).parameterMetadata[id]? =
        (document.resources.find? (·.id = id)).map Resource.parameterMetadata) ∧
      (ParsedBenchmarkFile.ofDocument file document).file = file ∧
      (ParsedBenchmarkFile.ofDocument file document).name = document.name ∧
      (ParsedBenchmarkFile.ofDocument file document).version = document.version := by
  obtain ⟨hrules, hmetadata, hfile, hname, hversion⟩ := foldl_addResource document.resources
    { file, name := document.name, version := document.version }
  refine ⟨fun id => ?_, fun id => ?_, hfile, hname, hversion⟩
  · rw [ParsedBenchmarkFile.ofDocument, hrules, getElem?_foldl_insert hids]
    simp
  · rw [ParsedBenchmarkFile.ofDocument, hmetadata, getElem?_foldl_insert hids]
    simp

end Documents

end Kompli.Cli
