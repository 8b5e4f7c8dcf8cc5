import Kompli.ComplianceEngine.BenchmarkInfo
import Kompli.Foundation.ExceptRule
import Kompli.Foundation.Split

/-! Payload keys: what their reader keeps of them, and what is read back of the ones that are written. -/
namespace Kompli
open Parson Ascii Foundation

namespace BenchmarkInfo

abbrev newline : UInt8 := 0x0A

/-- What comes after the first slash. -/
def afterSlash (s : Bytes) : Bytes := (s.dropWhile (· ≠ slash)).tail

/-- The fields that a payload key can be written with. -/
structure Writable (info : BenchmarkInfo) : Prop where
  framework : info.framework ≠ [] ∧ slash ∉ info.framework
  version : info.version ≠ [] ∧ slash ∉ info.version
  globbing : ∀ c ∈ info.version, c ∉ [leftBracket, rightBracket, leftBrace, rightBrace]
  benchmarkVersion : info.benchmarkVersion ≠ [] ∧ slash ∉ info.benchmarkVersion
  section_ : info.section_ ≠ []

/-- Texts that are C strings. -/
structure CStrings (info : BenchmarkInfo) : Prop where
  framework : NulFree info.framework
  version : NulFree info.version
  benchmarkVersion : NulFree info.benchmarkVersion

section Lines

variable {delimiter : UInt8}

theorem getLine_append {line : Bytes} (h : delimiter ∉ line) (rest : Bytes) :
    getLine delimiter (line ++ delimiter :: rest) = some (line, rest) := by
  rw [getLine, if_neg (by simp), takeWhile_cut h, dropWhile_cut h]
  rfl

/-- A line that something comes after ends at the delimiter. -/
theorem getLine_some {s line rest : Bytes} (h : getLine delimiter s = some (line, rest)) (hrest : rest ≠ []) :
    s = line ++ delimiter :: rest ∧ delimiter ∉ line := by
  rw [getLine] at h
  split_ifs at h with hnil
  obtain ⟨rfl, rfl⟩ := Prod.mk.inj (Option.some.inj h)
  have hmem : delimiter ∈ s := by
    by_contra hmem
    refine hrest ?_
    rw [List.dropWhile_eq_nil_iff.mpr fun c hc => by
      simpa using ne_of_mem_of_not_mem hc hmem]
    rfl
  exact ⟨(cut_append hmem).symm, not_mem_takeWhile s⟩

theorem requiredLine_ok {missing s line rest : Bytes} (h : requiredLine delimiter missing s = .ok (line, rest)) :
    getLine delimiter s = some (line, rest) ∧ line ≠ [] := by
  rw [requiredLine] at h
  rcases hline : getLine delimiter s with _ | ⟨line', rest'⟩ <;> rw [hline] at h
  · cases h
  · simp only at h
    split_ifs at h with hnil
    cases h
    exact ⟨rfl, hnil⟩

theorem requiredLine_append {line : Bytes} (hne : line ≠ []) (h : delimiter ∉ line) (missing rest : Bytes) :
    requiredLine delimiter missing (line ++ delimiter :: rest) = .ok (line, rest) := by
  rw [requiredLine, getLine_append h]
  exact if_neg hne

theorem getLine_ne_nil {s line rest : Bytes} (h : getLine delimiter s = some (line, rest)) : s ≠ [] := by
  rintro rfl
  simp [getLine] at h

theorem afterSlash_append {line : Bytes} (h : slash ∉ line) (rest : Bytes) :
    afterSlash (line ++ slash :: rest) = rest := by
  rw [afterSlash, dropWhile_cut h]
  rfl

end Lines

section Parse

private theorem parse_distribution_ok {token : Bytes} {distribution : LinuxDistribution}
    (h : LinuxDistribution.parse token = .ok distribution) : distribution.name = token := by
  rw [LinuxDistribution.parse] at h
  rcases hfind : LinuxDistribution.all.find? (·.name = token) with _ | found <;> rw [hfind] at h
  · cases h
  · cases h
    simpa using List.find?_some hfind

/-- The five slashes of a key that is accepted, and the section up to the end of its line. -/
private theorem parse_ok {key : Bytes} {info : BenchmarkInfo} (h : parse key = .ok info) :
    ∃ rest, key = [] ++ slash :: (info.framework ++ slash :: (info.distribution.name ++
        slash :: (info.version ++ slash :: (info.benchmarkVersion ++ slash :: rest)))) ∧
      slash ∉ info.framework ∧ slash ∉ info.distribution.name ∧ slash ∉ info.version ∧
      slash ∉ info.benchmarkVersion ∧ info.section_ = rest.takeWhile (· ≠ newline) := by
  rw [parse] at h
  split at h
  · rename_i rest₀ hstart
    obtain ⟨⟨framework, rest₁⟩, hframework, h⟩ := except_bind_ok_iff.mp h
    obtain ⟨hline₁, -⟩ := requiredLine_ok hframework
    simp only at h
    split at h
    · cases h
    · rename_i token rest₂ hline₂
      obtain ⟨distribution, hdistribution, h⟩ := except_bind_ok_iff.mp h
      obtain ⟨⟨version, rest₃⟩, hversion, h⟩ := except_bind_ok_iff.mp h
      obtain ⟨hline₃, -⟩ := requiredLine_ok hversion
      obtain ⟨-, -, h⟩ := except_bind_ok_iff.mp h
      obtain ⟨⟨benchmarkVersion, rest₄⟩, hbenchmark, h⟩ := except_bind_ok_iff.mp h
      obtain ⟨hline₄, -⟩ := requiredLine_ok hbenchmark
      obtain ⟨⟨section_, rest₅⟩, hsection, h⟩ := except_bind_ok_iff.mp h
      obtain ⟨hline₅, -⟩ := requiredLine_ok hsection
      obtain rfl := Except.ok.inj h
      obtain rfl := parse_distribution_ok hdistribution
      -- each line is followed by another, so that it ends at a slash
      obtain ⟨rfl, hslash₄⟩ := getLine_some hline₄ (getLine_ne_nil hline₅)
      obtain ⟨rfl, hslash₃⟩ := getLine_some hline₃ (by simp)
      obtain ⟨rfl, hslash₂⟩ := getLine_some hline₂ (by simp)
      obtain ⟨rfl, hslash₁⟩ := getLine_some hline₁ (by simp)
      obtain ⟨rfl, -⟩ := getLine_some hstart (by simp)
      refine ⟨rest₄, rfl, hslash₁, hslash₂, hslash₃, hslash₄, ?_⟩
      rw [getLine, if_neg (getLine_ne_nil hline₅)] at hline₅
      exact (Prod.mk.inj (Option.some.inj hline₅)).1.symm
  · cases h

private theorem afterSlash_key {framework name version benchmarkVersion : Bytes} (h₁ : slash ∉ framework)
    (h₂ : slash ∉ name) (h₃ : slash ∉ version) (h₄ : slash ∉ benchmarkVersion) (rest : Bytes) :
    afterSlash^[5] ([] ++ slash :: (framework ++ slash :: (name ++ slash :: (version ++
      slash :: (benchmarkVersion ++ slash :: rest))))) = rest := by
  simp only [Function.iterate_succ, Function.comp_apply, Function.iterate_zero, id_eq,
    afterSlash_append List.not_mem_nil, afterSlash_append h₁, afterSlash_append h₂, afterSlash_append h₃,
    afterSlash_append h₄]

private theorem takeWhile_line_iff {rest : Bytes} : rest.takeWhile (· ≠ newline) = rest ↔ newline ∉ rest := by
  rw [List.takeWhile_eq_self_iff]
  simp only [ne_eq, decide_not, Bool.not_eq_eq_eq_not, Bool.not_true, decide_eq_false_iff_not]
  exact ⟨fun h hmem => h _ hmem rfl, fun h c hc heq => h (heq ▸ hc)⟩

/-- A key that is accepted is written back when its section is one line. -/
theorem toBytes_of_parse_iff {key : Bytes} {info : BenchmarkInfo} (h : parse key = .ok info) :
    info.toBytes = key ↔ newline ∉ afterSlash^[5] key := by
  obtain ⟨rest, rfl, h₁, h₂, h₃, h₄, hsection⟩ := parse_ok h
  rw [afterSlash_key h₁ h₂ h₃ h₄, ← takeWhile_line_iff, ← hsection]
  simp [toBytes]

/-- What is read of a C string is C strings. -/
theorem parse_cStrings {key : Bytes} {info : BenchmarkInfo} (hkey : NulFree key) (h : parse key = .ok info) :
    info.CStrings := by
  obtain ⟨rest, rfl, -⟩ := parse_ok h
  simp only [NulFree, List.mem_append, List.mem_cons, not_or] at hkey
  exact ⟨hkey.2.2.1, hkey.2.2.2.2.2.2.1, hkey.2.2.2.2.2.2.2.2.1⟩

end Parse

section Write

private theorem parse_distribution_name (distribution : LinuxDistribution) :
    LinuxDistribution.parse distribution.name = .ok distribution := by
  cases distribution <;> rfl

theorem distribution_name_injective : Function.Injective LinuxDistribution.name := by
  intro distribution other h
  have hparse := parse_distribution_name distribution
  rw [h, parse_distribution_name] at hparse
  exact (Except.ok.inj hparse).symm

private theorem slash_not_mem_name (distribution : LinuxDistribution) : slash ∉ distribution.name := by
  cases distribution <;> decide

private theorem validateGlobbing_ok_iff {version : Bytes}
    (h : ∀ c ∈ version, c ∉ [leftBracket, rightBracket, leftBrace, rightBrace]) :
    validateGlobbing version = .ok () ↔ 0 ∉ version := by
  have hany : version.any (· ∈ [leftBracket, rightBracket, leftBrace, rightBrace, 0]) = true ↔ 0 ∈ version := by
    rw [List.any_eq_true]
    constructor
    · rintro ⟨c, hc, hmem⟩
      have hbad := h c hc
      simp only [List.mem_cons, List.not_mem_nil, or_false, decide_eq_true_eq, not_or] at hmem hbad
      obtain rfl : c = 0 := by tauto
      exact hc
    · exact fun hzero => ⟨0, hzero, by decide⟩
  rw [validateGlobbing, ← hany]
  split_ifs with hbad
  · exact iff_of_false (by simp) (not_not_intro hbad)
  · exact iff_of_true rfl hbad

/-- What is written of an information is read up to its section, which is read up to the end of its line. -/
private theorem parse_toBytes {info : BenchmarkInfo} (h : info.Writable) :
    parse info.toBytes = (do
      validateGlobbing info.version
      let (section_, _) ← requiredLine newline
        (utf8 "Invalid benchmark payload key format: missing benchmark section") info.section_
      .ok { info with section_ }) := by
  have htoBytes : info.toBytes = [] ++ slash :: (info.framework ++ slash :: (info.distribution.name ++
      slash :: (info.version ++ slash :: (info.benchmarkVersion ++ slash :: info.section_)))) := by
    simp [toBytes]
  rw [parse, htoBytes, getLine_append List.not_mem_nil]
  simp only [requiredLine_append h.framework.1 h.framework.2, except_ok_bind,
    getLine_append (slash_not_mem_name _), parse_distribution_name, requiredLine_append h.version.1 h.version.2,
    requiredLine_append h.benchmarkVersion.1 h.benchmarkVersion.2]

/-- An information is read back when its section is one line and its version has no NUL. -/
theorem parse_toBytes_iff {info : BenchmarkInfo} (h : info.Writable) :
    parse info.toBytes = .ok info ↔ newline ∉ info.section_ ∧ 0 ∉ info.version := by
  rw [parse_toBytes h, ← validateGlobbing_ok_iff h.globbing]
  constructor
  · intro hparse
    obtain ⟨⟨⟩, hglobbing, hparse⟩ := except_bind_ok_iff.mp hparse
    obtain ⟨⟨section_, rest⟩, hline, hparse⟩ := except_bind_ok_iff.mp hparse
    obtain ⟨hline, -⟩ := requiredLine_ok hline
    have hsection : section_ = info.section_ := congrArg BenchmarkInfo.section_ (Except.ok.inj hparse)
    rw [getLine, if_neg h.section_] at hline
    have htake := (Prod.mk.inj (Option.some.inj hline)).1
    exact ⟨takeWhile_line_iff.mp (htake.trans hsection), hglobbing⟩
  · rintro ⟨hsection, hglobbing⟩
    have hline := takeWhile_line_iff.mpr hsection
    rw [hglobbing, requiredLine, getLine, if_neg h.section_, hline]
    simp only [h.section_, ↓reduceIte, except_ok_bind]

end Write

/-- Payload keys and what is read of them round-trip when the section is one line and the version
has no NUL, and only then. -/
theorem payload_keys_round_trip_iff (key : Bytes) (info : BenchmarkInfo) :
    (∀ parsed, parse key = .ok parsed → (parsed.toBytes = key ↔ newline ∉ afterSlash^[5] key)) ∧
      (info.Writable → (parse info.toBytes = .ok info ↔ newline ∉ info.section_ ∧ 0 ∉ info.version)) :=
  ⟨fun _ h => toBytes_of_parse_iff h, parse_toBytes_iff⟩

/-- The second line of a section is dropped. -/
theorem parse_drops_second_line :
    ¬ ∀ key info, parse key = .ok info → info.toBytes = key := by
  intro h
  have hparse : parse (utf8 "/cis/ubuntu/22.04/v1.0.0/a\nb") =
      .ok { framework := utf8 "cis", distribution := .ubuntu, version := utf8 "22.04"
            benchmarkVersion := utf8 "v1.0.0", section_ := utf8 "a" } := by decide +kernel
  exact absurd (h _ _ hparse) (by decide +kernel)

end BenchmarkInfo
end Kompli
