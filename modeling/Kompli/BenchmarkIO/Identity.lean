import Kompli.BenchmarkIO.Accepted
import Kompli.ComplianceEngine.PayloadKeys
import Mathlib.Data.List.Forall2

/-! The identity of a definition, and how those of its rules go with it. -/
namespace Kompli
open Foundation Parson Ascii

namespace BenchmarkDefinition
open BenchmarkIO

/-- A rule with an id of its own, and nothing of the other form. -/
structure HoistedRule (ruleObject : Members) (resource : Resource) : Prop where
  id : JsonValue.getValue ruleObject (utf8 "id") = some (.string resource.id)
  noSection : hasValue ruleObject (utf8 "section") = false
  noPayloadKey : hasValue ruleObject (utf8 "payloadKey") = false

/-- Two versions of which one may have a `v` that the other lacks. -/
def EqualUpToPrefix (a b : Bytes) : Prop := a = b ∨ a = 0x76 :: b ∨ b = 0x76 :: a

/-- A rule that its payload key identifies, as the document does. -/
structure LegacyRule (documentInfo : BenchmarkInfo) (ruleObject : Members) (resource : Resource) : Prop where
  noId : hasValue ruleObject (utf8 "id") = false
  section_ : JsonValue.getValue ruleObject (utf8 "section") = some (.string resource.id)
  payloadKey : ∃ payloadKey info, JsonValue.getValue ruleObject (utf8 "payloadKey") = some (.string payloadKey) ∧
    BenchmarkInfo.parse payloadKey = .ok info ∧ info.framework = documentInfo.framework ∧
    info.distribution = documentInfo.distribution ∧ info.version = documentInfo.version ∧
    EqualUpToPrefix info.benchmarkVersion documentInfo.benchmarkVersion ∧
    resource.id = info.section_.map fun c => if c = slash then dot else c

/-- Every rule is of one of the two forms, and of the second where the document has no identity itself. -/
structure ConsistentIdentity (metadata : Members) (rules : List JsonValue) (document : BenchmarkDocument) :
    Prop where
  identifiers : ∀ resource ∈ document.resources, IsIdentifier resource.id
  distinct : (document.resources.map Resource.id).Nodup
  shared : ∀ resource ∈ document.resources, resource.benchmarkInfo = document.benchmarkInfo
  forms : List.Forall₂ (fun rule resource => ∃ ruleObject, rule = .object ruleObject ∧
    (HoistedRule ruleObject resource ∨ LegacyRule document.benchmarkInfo ruleObject resource))
    rules document.resources
  legacy : hasValue metadata (utf8 "labels") = false → hasValue metadata (utf8 "annotations") = false →
    List.Forall₂ (fun rule resource => ∃ ruleObject, rule = .object ruleObject ∧
      LegacyRule document.benchmarkInfo ruleObject resource) rules document.resources

theorem requiredString_value {object : Members} {key context result : Bytes}
    (h : requiredString object key context = .ok result) : JsonValue.getValue object key = some (.string result) := by
  obtain ⟨value, hvalue, h⟩ := except_bind_ok_iff.mp h
  split at h
  · cases h
  · cases h
    rw [requiredStringAllowEmpty] at hvalue
    split at hvalue
    · rename_i string hstring
      rw [readStringValue] at hvalue
      split at hvalue
      · cases hvalue
      · cases hvalue
        exact hstring
    · cases hvalue

theorem equalUpToPrefix_of_withoutPrefix {a b : Bytes}
    (h : BenchmarkInfo.versionWithoutPrefix a = BenchmarkInfo.versionWithoutPrefix b) : EqualUpToPrefix a b := by
  have hsplit : ∀ c : Bytes, BenchmarkInfo.versionWithoutPrefix c = c ∨
      c = 0x76 :: BenchmarkInfo.versionWithoutPrefix c := by
    intro c
    rw [BenchmarkInfo.versionWithoutPrefix]
    split
    · rename_i hhead
      exact Or.inr (List.eq_cons_of_mem_head? hhead)
    · exact Or.inl rfl
  rcases hsplit a with ha | ha <;> rcases hsplit b with hb | hb
  · exact Or.inl (ha.symm.trans (h.trans hb))
  · exact Or.inr (Or.inr (by rw [hb, ← h, ha]))
  · exact Or.inr (Or.inl (by rw [ha, h, hb]))
  · exact Or.inl (by rw [ha, hb, h])

theorem validateLegacyPayloadKeyPrefix_ok {payloadKeyInfo documentInfo : BenchmarkInfo} {context : Bytes}
    (h : validateLegacyPayloadKeyPrefix payloadKeyInfo documentInfo context = .ok ()) :
    payloadKeyInfo.framework = documentInfo.framework ∧
      payloadKeyInfo.distribution = documentInfo.distribution ∧ payloadKeyInfo.version = documentInfo.version ∧
      EqualUpToPrefix payloadKeyInfo.benchmarkVersion documentInfo.benchmarkVersion := by
  simp only [validateLegacyPayloadKeyPrefix, ne_eq] at h
  split at h
  · cases h
  split at h
  · cases h
  split at h
  · cases h
  split at h
  · cases h
  rename_i hframework hdistribution hversion hbenchmark
  exact ⟨Decidable.not_not.mp hframework, Decidable.not_not.mp hdistribution, Decidable.not_not.mp hversion,
    equalUpToPrefix_of_withoutPrefix (Decidable.not_not.mp hbenchmark)⟩

private theorem parseLegacyId_rule {ruleObject : Members} {documentInfo : BenchmarkInfo} {context : Bytes}
    {resource : Resource} (hid : hasValue ruleObject (utf8 "id") = false)
    (h : parseLegacyId ruleObject documentInfo context = .ok resource.id) :
    LegacyRule documentInfo ruleObject resource := by
  obtain ⟨section_, hsection, h⟩ := except_bind_ok_iff.mp h
  obtain ⟨payloadKey, hpayloadKey, h⟩ := except_bind_ok_iff.mp h
  split at h
  · cases h
  · rename_i info hinfo
    obtain ⟨⟨⟩, hstarts, h⟩ := except_bind_ok_iff.mp h
    dsimp only at h
    split at h
    · cases h
    · rename_i heq
      rw [ne_eq, Decidable.not_not] at heq
      obtain rfl : section_ = resource.id := Except.ok.inj h
      obtain ⟨hframework, hdistribution, hversion, hbenchmark⟩ := validateLegacyPayloadKeyPrefix_ok hstarts
      exact ⟨hid, requiredString_value hsection, payloadKey, info, requiredString_value hpayloadKey, hinfo,
        hframework, hdistribution, hversion, hbenchmark, heq⟩

/-- A rule is of one of the two forms. -/
theorem parseRuleIdentity_rule {ruleObject : Members} {documentInfo : BenchmarkInfo} {context : Bytes}
    {resource : Resource} (h : parseRuleIdentity ruleObject documentInfo context = .ok resource.id) :
    HoistedRule ruleObject resource ∨ LegacyRule documentInfo ruleObject resource := by
  simp only [parseRuleIdentity] at h
  split at h
  · split at h
    · cases h
    · rename_i hmixed
      rw [not_or, Bool.not_eq_true, Bool.not_eq_true] at hmixed
      exact Or.inl ⟨requiredString_value h, hmixed.1, hmixed.2⟩
  · rename_i hid
    split at h
    · cases h
    · exact Or.inr (parseLegacyId_rule (by simpa using hid) h)

theorem parseRule_cases {num : NumberFormat} {ruleObject : Members} {index : Nat} {documentInfo : BenchmarkInfo}
    {resource : Resource} (h : parseRule num ruleObject index documentInfo = .ok resource) :
    resource.benchmarkInfo = documentInfo ∧
      ∃ context, parseRuleIdentity ruleObject documentInfo context = .ok resource.id := by
  obtain ⟨title, -, h⟩ := except_bind_ok_iff.mp h
  obtain ⟨ruleId, -, h⟩ := except_bind_ok_iff.mp h
  obtain ⟨ruleName, -, h⟩ := except_bind_ok_iff.mp h
  obtain ⟨procedure, -, h⟩ := except_bind_ok_iff.mp h
  obtain ⟨parameterMetadata, -, h⟩ := except_bind_ok_iff.mp h
  obtain ⟨id, hid, h⟩ := except_bind_ok_iff.mp h
  obtain ⟨tags, -, h⟩ := except_bind_ok_iff.mp h
  obtain ⟨metadata, -, h⟩ := except_bind_ok_iff.mp h
  cases h
  exact ⟨rfl, _, hid⟩

/-- Where the rules identify the document none of them has an id. -/
theorem checkLegacyRules_ok {rules : List JsonValue} :
    ∀ {index : Nat}, checkLegacyRules index rules = .ok () →
      ∀ ruleObject, .object ruleObject ∈ rules → hasValue ruleObject (utf8 "id") = false := by
  induction rules with
  | nil =>
    intro index _ ruleObject hmem
    exact absurd hmem List.not_mem_nil
  | cons rule rules ih =>
    intro index h ruleObject hmem
    cases rule with
    | object first =>
      rw [checkLegacyRules] at h
      split at h
      · cases h
      · rename_i hcomplete
        rcases List.mem_cons.mp hmem with heq | hmem
        · cases heq
          rw [not_or, Bool.not_eq_true] at hcomplete
          exact hcomplete.1
        · exact ih h ruleObject hmem
    | _ => simp [checkLegacyRules] at h

theorem parseIdentity_legacy {metadata : Members} {rules : List JsonValue} {documentInfo : BenchmarkInfo}
    (h : parseIdentity metadata rules = .ok documentInfo) (hlabels : hasValue metadata (utf8 "labels") = false)
    (hannotations : hasValue metadata (utf8 "annotations") = false) :
    ∀ ruleObject, .object ruleObject ∈ rules → hasValue ruleObject (utf8 "id") = false := by
  rw [hasValue, Option.isSome_eq_false_iff, Option.isNone_iff_eq_none] at hlabels hannotations
  rw [parseIdentity, hlabels, hannotations] at h
  obtain ⟨⟨⟩, hlegacy, -⟩ := except_bind_ok_iff.mp h
  exact checkLegacyRules_ok hlegacy

private theorem forms_of_parsed {num : NumberFormat} {documentInfo : BenchmarkInfo} {rules : List JsonValue}
    {resources : List Resource}
    (h : List.Forall₂ (fun rule resource => ∃ ruleObject index, rule = .object ruleObject ∧
      parseRule num ruleObject index documentInfo = .ok resource) rules resources) :
    List.Forall₂ (fun rule resource => ∃ ruleObject, rule = .object ruleObject ∧
      (HoistedRule ruleObject resource ∨ LegacyRule documentInfo ruleObject resource)) rules resources := by
  refine h.imp ?_
  rintro rule resource ⟨ruleObject, index, rfl, hrule⟩
  obtain ⟨-, context, hidentity⟩ := parseRule_cases hrule
  exact ⟨ruleObject, rfl, parseRuleIdentity_rule hidentity⟩

private theorem legacy_of_forms {documentInfo : BenchmarkInfo} {rules : List JsonValue} {resources : List Resource}
    (h : List.Forall₂ (fun rule resource => ∃ ruleObject, rule = .object ruleObject ∧
      (HoistedRule ruleObject resource ∨ LegacyRule documentInfo ruleObject resource)) rules resources)
    (hnoId : ∀ ruleObject, .object ruleObject ∈ rules → hasValue ruleObject (utf8 "id") = false) :
    List.Forall₂ (fun rule resource => ∃ ruleObject, rule = .object ruleObject ∧
      LegacyRule documentInfo ruleObject resource) rules resources := by
  induction h with
  | nil => exact .nil
  | cons hrule _ ih =>
    obtain ⟨ruleObject, rfl, hform⟩ := hrule
    refine .cons ⟨ruleObject, rfl, ?_⟩ (ih fun other hother => hnoId other (List.mem_cons_of_mem _ hother))
    rcases hform with hhoisted | hlegacy
    · have hnone := hnoId ruleObject List.mem_cons_self
      rw [hasValue, hhoisted.id] at hnone
      cases hnone
    · exact hlegacy

private theorem fromMetadata_ok {framework distribution distributionVersion benchmarkVersion : Bytes}
    {documentInfo : BenchmarkInfo}
    (h : BenchmarkInfo.fromMetadata framework distribution distributionVersion benchmarkVersion = .ok documentInfo) :
    documentInfo.framework = framework ∧ documentInfo.version = distributionVersion ∧
      documentInfo.benchmarkVersion = benchmarkVersion := by
  rw [BenchmarkInfo.fromMetadata] at h
  split_ifs at h
  · obtain ⟨_, -, h⟩ := except_bind_ok_iff.mp h
    cases h
  · obtain ⟨_, -, h⟩ := except_bind_ok_iff.mp h
    obtain ⟨_, -, h⟩ := except_bind_ok_iff.mp h
    cases h
  · obtain ⟨_, -, h⟩ := except_bind_ok_iff.mp h
    obtain ⟨_, -, h⟩ := except_bind_ok_iff.mp h
    cases h
    exact ⟨rfl, rfl, rfl⟩

/-- The identity of a document is made of C strings. -/
theorem parseIdentity_cStrings {metadata : Members} {rules : List JsonValue} {documentInfo : BenchmarkInfo}
    (h : parseIdentity metadata rules = .ok documentInfo) : documentInfo.CStrings := by
  rw [parseIdentity] at h
  split at h
  · obtain ⟨_, -, h⟩ := except_bind_ok_iff.mp h
    split at h
    · obtain ⟨payloadKey, hkey, h⟩ := except_bind_ok_iff.mp h
      split at h
      · next info hparse =>
        cases h
        obtain ⟨hframework, hversion, hbenchmark⟩ := BenchmarkInfo.parse_cStrings (requiredString_ok hkey).2 hparse
        exact ⟨hframework, hversion, hbenchmark⟩
      · cases h
    · cases h
  · obtain ⟨framework, hframework, h⟩ := except_bind_ok_iff.mp h
    obtain ⟨distribution, -, h⟩ := except_bind_ok_iff.mp h
    obtain ⟨version, hversion, h⟩ := except_bind_ok_iff.mp h
    obtain ⟨benchmarkVersion, hbenchmark, h⟩ := except_bind_ok_iff.mp h
    split at h
    · next info hmetadata =>
      cases h
      obtain ⟨rfl, rfl, rfl⟩ := fromMetadata_ok hmetadata
      exact ⟨(requiredString_ok hframework).2, (requiredString_ok hversion).2, (requiredString_ok hbenchmark).2⟩
    · cases h
  all_goals cases h

/-- What the identity of a definition is made of, and that its rules share it. -/
theorem parseString_identity {num : NumberFormat} {json : Bytes} {document : BenchmarkDocument}
    (h : parseString num json = .ok document) :
    document.benchmarkInfo.CStrings ∧ ∀ resource ∈ document.resources, resource.benchmarkInfo = document.benchmarkInfo := by
  obtain ⟨root, -, hroot⟩ := parseString_cases h
  obtain ⟨metadata, spec, rules, -, -, -, -, hidentity, hresources⟩ := parseRoot_cases hroot
  refine ⟨parseIdentity_cStrings hidentity, fun resource hmem => ?_⟩
  obtain ⟨-, parsed, hresult, hparsed⟩ := parseRules_forall₂ (by simp) hresources
  rw [hresult, List.nil_append] at hmem
  obtain ⟨rule, -, ruleObject, index, -, hrule⟩ := forall₂_mem_right hparsed hmem
  exact (parseRule_cases hrule).1

/-- Every definition that is accepted is identified consistently. -/
theorem identity_is_consistent (num : NumberFormat) (json : Bytes) (document : BenchmarkDocument)
    (h : parseString num json = .ok document) :
    ∃ root metadata spec rules, JsonWrapper.fromString num json = .ok (.object root) ∧
      getObject root (utf8 "metadata") = some metadata ∧ getObject root (utf8 "spec") = some spec ∧
      getArray spec (utf8 "rules") = some rules ∧ ConsistentIdentity metadata rules document := by
  obtain ⟨root, hparse, hroot⟩ := parseString_cases h
  have haccepted := parseRoot_ok hroot
  obtain ⟨metadata, spec, rules, hmetadata, -, hspec, hrules, hidentity, hresources⟩ := parseRoot_cases hroot
  obtain ⟨-, parsed, hresult, hparsed⟩ := parseRules_forall₂ (by simp) hresources
  rw [List.nil_append] at hresult
  rw [← hresult] at hparsed
  have hforms := forms_of_parsed hparsed
  refine ⟨root, metadata, spec, rules, hparse, hmetadata, hspec, hrules,
    fun resource hmem => (haccepted.resources resource hmem).id, haccepted.ids, fun resource hmem => ?_, hforms,
    fun hlabels hannotations => legacy_of_forms hforms (parseIdentity_legacy hidentity hlabels hannotations)⟩
  obtain ⟨rule, -, ruleObject, index, -, hrule⟩ := forall₂_mem_right hparsed hmem
  exact (parseRule_cases hrule).1

private def string (s : String) : JsonValue := .string (utf8 s)

private def legacyDefinition : JsonValue :=
  .object [(utf8 "kind", string "BenchmarkDefinition"), (utf8 "apiVersion", string "v1"),
    (utf8 "metadata", .object [(utf8 "name", string "Example")]),
    (utf8 "spec", .object [(utf8 "version", string "1.0.0"), (utf8 "rules", .array [
      .object [(utf8 "section", string "1.2"), (utf8 "payloadKey", string "/cis/ubuntu/22.04/v1.0.0/1/2"),
        (utf8 "title", string "A rule"), (utf8 "ruleId", string "r1"), (utf8 "ruleName", string "RuleR"),
        (utf8 "payload", .object []), (utf8 "tags", .array []), (utf8 "metadata", .object [])]])])]

private def noNumbers : NumberFormat := { print := fun _ => [], read := fun _ => none }

/-- A definition that its only rule identifies. -/
theorem identity_is_consistent_legacy :
    ∃ document, parseString noNumbers (jsonSerializeToString noNumbers legacyDefinition) = .ok document ∧
      ∃ metadata rules, ConsistentIdentity metadata rules document := by
  have hok : (parseString noNumbers (jsonSerializeToString noNumbers legacyDefinition)).isOk = true := by
    decide +kernel
  cases hparse : parseString noNumbers (jsonSerializeToString noNumbers legacyDefinition) with
  | error e =>
    rw [hparse] at hok
    cases hok
  | ok document =>
    obtain ⟨root, metadata, spec, rules, -, -, -, -, hidentity⟩ := identity_is_consistent _ _ _ hparse
    exact ⟨document, rfl, metadata, rules, hidentity⟩

end BenchmarkDefinition
end Kompli
