import Kompli.BenchmarkIO.BenchmarkDefinition
import Kompli.Foundation.ExceptRule

/-! What every definition that is accepted has: names, ids and defaults that are C
strings, and ids that tell the rules apart. -/
namespace Kompli
open Foundation Parson

namespace BenchmarkIO

/-- An identifier is a C string that is not empty. -/
def IsIdentifier (b : Bytes) : Prop := b ≠ [] ∧ NulFree b

def AcceptedParameters (parameterMetadata : ByteMap ParameterMetadata) : Prop :=
  ∀ (name : Bytes) (metadata : ParameterMetadata), parameterMetadata[name]? = some metadata →
    IsIdentifier name ∧ NulFree metadata.defaultValue

structure Resource.Accepted (resource : Resource) : Prop where
  id : IsIdentifier resource.id
  parameters : AcceptedParameters resource.parameterMetadata

end BenchmarkIO

namespace BenchmarkDefinition
open BenchmarkIO

structure BenchmarkDocument.Accepted (document : BenchmarkDocument) : Prop where
  name : IsIdentifier document.name
  resources : ∀ resource ∈ document.resources, resource.Accepted
  ids : (document.resources.map Resource.id).Nodup

theorem readStringValue_ok {value key context result : Bytes}
    (h : readStringValue value key context = .ok result) : NulFree result := by
  unfold readStringValue at h
  split at h
  · cases h
  · cases h
    assumption

theorem requiredStringAllowEmpty_ok {object : Members} {key context result : Bytes}
    (h : requiredStringAllowEmpty object key context = .ok result) : NulFree result := by
  unfold requiredStringAllowEmpty at h
  split at h
  · exact readStringValue_ok h
  · cases h

theorem requiredString_ok {object : Members} {key context result : Bytes}
    (h : requiredString object key context = .ok result) : IsIdentifier result := by
  rw [requiredString, except_bind_ok_iff] at h
  obtain ⟨value, hvalue, h⟩ := h
  split at h
  · cases h
  · rename_i hne
    cases h
    exact ⟨hne, requiredStringAllowEmpty_ok hvalue⟩

theorem parseParameterEntry_ok {entry : Members} {context : Bytes} {metadata : ParameterMetadata}
    (h : parseParameterEntry entry context = .ok metadata) : NulFree metadata.defaultValue := by
  rw [parseParameterEntry, except_bind_ok_iff] at h
  obtain ⟨defaultValue, hdefault, h⟩ := h
  obtain ⟨type, -, h⟩ := except_bind_ok_iff.mp h
  split at h
  · cases h
  · obtain ⟨displayName, -, h⟩ := except_bind_ok_iff.mp h
    obtain ⟨validationRegex, -, h⟩ := except_bind_ok_iff.mp h
    obtain ⟨validationFailedMessage, -, h⟩ := except_bind_ok_iff.mp h
    have hnul := requiredStringAllowEmpty_ok hdefault
    split at h <;> cases h <;> exact hnul

theorem addParameterEntry_ok {context : Bytes} {result result' : ByteMap ParameterMetadata}
    {member : Bytes × JsonValue} (hresult : AcceptedParameters result)
    (h : addParameterEntry context result member = .ok result') : AcceptedParameters result' := by
  simp only [addParameterEntry] at h
  split at h
  · cases h
  · rename_i hne
    split at h
    · obtain ⟨metadata, hentry, hinsert⟩ := except_bind_ok_iff.mp h
      cases hinsert
      intro name found hfound
      rw [Std.ExtTreeMap.getElem?_insert] at hfound
      split at hfound
      · rename_i heq
        obtain rfl := Std.LawfulEqCmp.eq_of_compare heq
        cases hfound
        exact ⟨⟨hne, cString_nulFree _⟩, parseParameterEntry_ok hentry⟩
      · exact hresult name found hfound
    · cases h

theorem parseParameterMetadata_ok {ruleObject : Members} {context : Bytes}
    {parameterMetadata : ByteMap ParameterMetadata}
    (h : parseParameterMetadata ruleObject context = .ok parameterMetadata) :
    AcceptedParameters parameterMetadata := by
  have hempty : AcceptedParameters ∅ := by
    intro name metadata hmem
    simp at hmem
  unfold parseParameterMetadata at h
  split at h
  · cases h
    exact hempty
  · exact foldlM_ok_induction (fun _ _ _ => addParameterEntry_ok) hempty h
  · cases h

theorem parseLegacyId_ok {ruleObject : Members} {documentInfo : BenchmarkInfo} {context id : Bytes}
    (h : parseLegacyId ruleObject documentInfo context = .ok id) : IsIdentifier id := by
  rw [parseLegacyId, except_bind_ok_iff] at h
  obtain ⟨section_, hsection, h⟩ := h
  obtain ⟨payloadKey, -, h⟩ := except_bind_ok_iff.mp h
  split at h
  · cases h
  · obtain ⟨_, -, h⟩ := except_bind_ok_iff.mp h
    dsimp only at h
    split at h
    · cases h
    · cases h
      exact requiredString_ok hsection

theorem parseRuleIdentity_ok {ruleObject : Members} {documentInfo : BenchmarkInfo} {context id : Bytes}
    (h : parseRuleIdentity ruleObject documentInfo context = .ok id) : IsIdentifier id := by
  simp only [parseRuleIdentity] at h
  split at h
  · split at h
    · cases h
    · exact requiredString_ok h
  · split at h
    · cases h
    · exact parseLegacyId_ok h

theorem parseRule_ok {num : NumberFormat} {ruleObject : Members} {index : Nat} {documentInfo : BenchmarkInfo}
    {resource : Resource} (h : parseRule num ruleObject index documentInfo = .ok resource) :
    resource.Accepted := by
  rw [parseRule, except_bind_ok_iff] at h
  obtain ⟨title, -, h⟩ := h
  obtain ⟨ruleId, -, h⟩ := except_bind_ok_iff.mp h
  obtain ⟨ruleName, -, h⟩ := except_bind_ok_iff.mp h
  obtain ⟨procedure, -, h⟩ := except_bind_ok_iff.mp h
  obtain ⟨parameterMetadata, hparameters, h⟩ := except_bind_ok_iff.mp h
  obtain ⟨id, hid, h⟩ := except_bind_ok_iff.mp h
  obtain ⟨tags, -, h⟩ := except_bind_ok_iff.mp h
  obtain ⟨metadata, -, h⟩ := except_bind_ok_iff.mp h
  cases h
  exact ⟨parseRuleIdentity_ok hid, parseParameterMetadata_ok hparameters⟩

/-- The rules that are accepted, one resource for each, of different ids. -/
theorem parseRules_forall₂ {num : NumberFormat} {documentInfo : BenchmarkInfo} {rules : List JsonValue} :
    ∀ {index : Nat} {resources result : List Resource}, (resources.map Resource.id).Nodup →
      parseRules num documentInfo index resources rules = .ok result →
      (result.map Resource.id).Nodup ∧ ∃ parsed, result = resources ++ parsed ∧
        List.Forall₂ (fun rule resource => ∃ ruleObject index, rule = .object ruleObject ∧
          parseRule num ruleObject index documentInfo = .ok resource) rules parsed := by
  induction rules with
  | nil =>
    intro index resources result hnodup h
    cases h
    exact ⟨hnodup, [], (List.append_nil _).symm, .nil⟩
  | cons rule rules ih =>
    intro index resources result hnodup h
    cases rule with
    | object ruleObject =>
      rw [parseRules, except_bind_ok_iff] at h
      obtain ⟨resource, hrule, h⟩ := h
      split at h
      · cases h
      · rename_i hnew
        have hnodup' : ((resources ++ [resource]).map Resource.id).Nodup := by
          rw [List.map_append, List.nodup_append]
          refine ⟨hnodup, by simp, fun a ha b hb => ?_⟩
          rw [List.mem_singleton.mp hb]
          rintro rfl
          exact hnew ha
        obtain ⟨hresult, parsed, rfl, hparsed⟩ := ih hnodup' h
        refine ⟨hresult, resource :: parsed, by simp, .cons ⟨ruleObject, index, rfl, hrule⟩ hparsed⟩
    | _ => simp [parseRules] at h

/-- What there is in a document that is accepted. -/
theorem parseRoot_cases {num : NumberFormat} {root : Members} {document : BenchmarkDocument}
    (h : parseRoot num root = .ok document) :
    ∃ metadata spec rules, getObject root (utf8 "metadata") = some metadata ∧
      requiredString metadata (utf8 "name") (utf8 "metadata") = .ok document.name ∧
      getObject root (utf8 "spec") = some spec ∧ getArray spec (utf8 "rules") = some rules ∧
      parseIdentity metadata rules = .ok document.benchmarkInfo ∧
      parseRules num document.benchmarkInfo 0 [] rules = .ok document.resources := by
  rw [parseRoot, except_bind_ok_iff] at h
  obtain ⟨_, -, h⟩ := h
  obtain ⟨apiVersion, -, h⟩ := except_bind_ok_iff.mp h
  split at h
  · cases h
  split at h
  · cases h
  rename_i metadata hmetadata
  obtain ⟨name, hname, h⟩ := except_bind_ok_iff.mp h
  split at h
  · cases h
  rename_i spec hspec
  obtain ⟨versionText, -, h⟩ := except_bind_ok_iff.mp h
  obtain ⟨version, -, h⟩ := except_bind_ok_iff.mp h
  split at h
  · cases h
  rename_i rules hrules
  split at h
  · cases h
  split at h
  · cases h
  obtain ⟨benchmarkInfo, hidentity, h⟩ := except_bind_ok_iff.mp h
  obtain ⟨resources, hresources, h⟩ := except_bind_ok_iff.mp h
  cases h
  exact ⟨metadata, spec, rules, hmetadata, hname, hspec, hrules, hidentity, hresources⟩

theorem parseRoot_ok {num : NumberFormat} {root : Members} {document : BenchmarkDocument}
    (h : parseRoot num root = .ok document) : document.Accepted := by
  obtain ⟨metadata, spec, rules, -, hname, -, -, -, hresources⟩ := parseRoot_cases h
  obtain ⟨hids, parsed, hresult, hparsed⟩ := parseRules_forall₂ (by simp) hresources
  rw [List.nil_append] at hresult
  refine ⟨requiredString_ok hname, fun resource hmem => ?_, hids⟩
  rw [hresult] at hmem
  obtain ⟨rule, -, ruleObject, index, -, hrule⟩ := forall₂_mem_right hparsed hmem
  exact parseRule_ok hrule

/-- A definition that is accepted is an object that is. -/
theorem parseString_cases {num : NumberFormat} {json : Bytes} {document : BenchmarkDocument}
    (h : parseString num json = .ok document) :
    ∃ root, JsonWrapper.fromString num json = .ok (.object root) ∧ parseRoot num root = .ok document := by
  unfold parseString at h
  split at h
  · cases h
  · split at h
    · cases h
    · rename_i root hparse
      exact ⟨root, hparse, h⟩
    · cases h

/-- What is read of a definition is as the readers of its data expect it. -/
theorem parseFile_ok {num : NumberFormat} {openVerified : Bytes → Except Error Bytes} {path : Bytes}
    {document : BenchmarkDocument} (h : parseFile num openVerified path = .ok document) :
    document.Accepted := by
  rw [parseFile, except_bind_ok_iff] at h
  obtain ⟨content, -, h⟩ := h
  unfold parseStream at h
  split at h
  · cases h
  · obtain ⟨root, -, hroot⟩ := parseString_cases h
    exact parseRoot_ok hroot

end BenchmarkDefinition
end Kompli
