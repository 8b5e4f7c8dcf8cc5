import Kompli.ComplianceEngine.DistributionInfo
import Kompli.Foundation.Glob
import Kompli.Foundation.MapEntries

/-! The override that is suggested for a benchmark which does not apply to the host. -/
namespace Kompli
open Parson Ascii Foundation

/-- The override that makes the host one that the benchmark is for. -/
def suggestedOverride (detected : DistributionInfo) (benchmark : BenchmarkInfo) : DistributionInfo :=
  { detected with distribution := benchmark.distribution, version := benchmark.sanitizedVersion }

/-- `ComplianceEngineCheckApplicability`: its result, and the line it suggests for the override file. -/
def checkApplicability (fnmatch : Bytes → Bytes → Bool) (detected : DistributionInfo) (payloadKey : Bytes) :
    Int × Option Bytes :=
  match BenchmarkInfo.parse payloadKey with
  | .error _ => (EINVAL, none)
  | .ok benchmark =>
    if benchmark.isMatch fnmatch detected then (0, none)
    else (EINVAL, some (suggestedOverride detected benchmark).toBytes)

namespace DistributionInfo

/-- A byte of a value that the parser of the file gives back as it is. -/
def isClean (c : UInt8) : Bool := c ≠ quote && !isSpace c

def Clean (value : Bytes) : Prop := value.all isClean = true

theorem clean_iff {value : Bytes} : Clean value ↔ ∀ c ∈ value, c ≠ quote ∧ isSpace c = false := by
  simp [Clean, isClean]

/-- A byte of a key that the parser takes as it is. -/
private def isKeyByte (c : UInt8) : Bool := c ≠ equals && c ≠ hash && !isSpace c

section Printed

private theorem parseKey_plain {key : Bytes} (h : key.all isKeyByte = true)
    (result rest : Bytes) (hne : result ++ key ≠ []) :
    parseKey result false false (key ++ equals :: rest) = .ok (result ++ key, rest) := by
  induction key generalizing result with
  | nil =>
    rw [List.append_nil] at hne ⊢
    cases result with
    | nil => exact absurd rfl hne
    | cons c result => simp [parseKey]
  | cons c key ih =>
    simp only [List.all_cons, isKeyByte, Bool.and_eq_true, decide_eq_true_eq, Bool.not_eq_true', and_assoc] at h
    obtain ⟨hequals, hhash, hspace, hkey⟩ := h
    have hrest := ih (by simpa only [isKeyByte] using hkey) (result ++ [c]) (by simp)
    rw [List.append_assoc] at hrest
    rw [List.cons_append, parseKey.eq_def]
    simp only [hequals, hhash, hspace, ↓reduceIte, Bool.false_eq_true]
    exact hrest

private theorem parseValue_clean {value : Bytes} (h : Clean value) (result rest : Bytes) :
    parseValue result true (value ++ quote :: rest) = .ok (result ++ value, rest) := by
  induction value generalizing result with
  | nil => simp [parseValue]
  | cons c value ih =>
    obtain ⟨⟨hquote, hspace⟩, hvalue⟩ := List.forall_mem_cons.mp (clean_iff.mp h)
    have hrest := ih (clean_iff.mpr hvalue) (result ++ [c])
    rw [List.append_assoc] at hrest
    rw [List.cons_append, parseValue.eq_def]
    simp only [hquote, hspace, ↓reduceIte, Bool.false_eq_true, not_true_eq_false, and_false]
    exact hrest

private theorem parseEntries_cons {input input₁ input₂ key value : Bytes} (fields : ByteMap Bytes)
    (hkey : parseKey [] false false input = .ok (key, input₁)) (hempty : key ≠ [])
    (hvalue : parseValue [] false input₁ = .ok (value, input₂)) :
    parseEntries input fields = parseEntries input₂ (fields.insert key value) := by
  have hinput : input ≠ [] := by
    rintro rfl
    cases hkey
    exact hempty rfl
  rw [parseEntries, if_neg hinput]
  split
  · next e he => rw [hkey] at he; cases he
  · next key' input₁' hkey' =>
    rw [hkey] at hkey'
    cases hkey'
    rw [dif_neg hempty]
    split
    · next e he => rw [hvalue] at he; cases he
    · next value' input₂' hvalue' =>
      rw [hvalue] at hvalue'
      cases hvalue'
      rfl

/-- A field as it is printed, with a blank before it or not. -/
private theorem parseEntries_field {key value : Bytes} (hne : key ≠ [])
    (hkey : key.all isKeyByte = true) (hvalue : Clean value)
    (blank : Bool) (fields : ByteMap Bytes) (rest : Bytes) :
    parseEntries ((if blank then utf8 " " else []) ++ (key ++ equals :: quote :: (value ++ quote :: rest))) fields =
      parseEntries rest (fields.insert key value) := by
  have hplain := parseKey_plain hkey [] (quote :: (value ++ quote :: rest)) hne
  have hkey' : parseKey [] false false
      ((if blank then utf8 " " else []) ++ (key ++ equals :: quote :: (value ++ quote :: rest))) =
        .ok (key, quote :: (value ++ quote :: rest)) := by
    cases blank
    · exact hplain
    · exact hplain
  have hvalue' : parseValue [] false (quote :: (value ++ quote :: rest)) = .ok (value, rest) := by
    simpa [parseValue] using parseValue_clean hvalue [] rest
  exact parseEntries_cons fields hkey' hne hvalue'

private theorem osType_clean (osType : OSType) : Clean osType.name := by
  cases osType
  rfl

private theorem architecture_clean (architecture : Architecture) : Clean architecture.name := by
  cases architecture <;> rfl

private theorem distribution_clean (distribution : LinuxDistribution) : Clean distribution.name := by
  cases distribution <;> rfl

private theorem parse_name (info : DistributionInfo) : OSType.parse info.osType.name = .ok info.osType ∧
    Architecture.parse info.architecture.name = .ok info.architecture ∧
      LinuxDistribution.parse info.distribution.name = .ok info.distribution := by
  obtain ⟨osType, architecture, distribution, version⟩ := info
  refine ⟨?_, ?_, ?_⟩
  · cases osType
    rfl
  · cases architecture <;> rfl
  · cases distribution <;> rfl

/-- What is printed for a clean version is read back, with or without the end of the line. -/
theorem parseOverrideFile_toBytes (path : Bytes) {info : DistributionInfo} (h : Clean info.version) {eol : Bytes}
    (heol : eol = [] ∨ eol = [newline]) : parseOverrideFile path (info.toBytes ++ eol) = .ok info := by
  obtain ⟨hos, harch, hdistro⟩ := parse_name info
  have hend : ∀ fields, parseEntries eol fields = .ok fields := by
    intro fields
    rcases heol with rfl | rfl
    · rw [parseEntries, if_pos rfl]
    · rw [parseEntries, if_neg (by simp)]
      rfl
  have hline : info.toBytes ++ eol =
      (if false then utf8 " " else []) ++ (utf8 "OS" ++ equals :: quote :: (info.osType.name ++ quote ::
        ((if true then utf8 " " else []) ++ (utf8 "ARCH" ++ equals :: quote :: (info.architecture.name ++ quote ::
          ((if true then utf8 " " else []) ++ (utf8 "DISTRO" ++ equals :: quote :: (info.distribution.name ++ quote ::
            ((if true then utf8 " " else []) ++ (utf8 "VERSION" ++ equals :: quote ::
              (info.version ++ quote :: eol))))))))))) := by
    have hopen : utf8 "OS=\"" = utf8 "OS" ++ [equals, quote] ∧ utf8 " ARCH=\"" = utf8 " " ++ utf8 "ARCH" ++ [equals, quote] ∧
        utf8 " DISTRO=\"" = utf8 " " ++ utf8 "DISTRO" ++ [equals, quote] ∧
        utf8 " VERSION=\"" = utf8 " " ++ utf8 "VERSION" ++ [equals, quote] ∧ utf8 "\"" = [quote] := by decide
    rw [toBytes, hopen.1, hopen.2.1, hopen.2.2.1, hopen.2.2.2.1, hopen.2.2.2.2]
    simp
  have hentries : parseEntries (info.toBytes ++ eol) ∅ = .ok
      ((((((∅ : ByteMap Bytes).insert (utf8 "OS") info.osType.name).insert (utf8 "ARCH") info.architecture.name).insert
        (utf8 "DISTRO") info.distribution.name).insert (utf8 "VERSION") info.version)) := by
    rw [hline, parseEntries_field (by decide) (by decide) (osType_clean _),
      parseEntries_field (by decide) (by decide) (architecture_clean _),
      parseEntries_field (by decide) (by decide) (distribution_clean _),
      parseEntries_field (by decide) (by decide) h, hend]
  have hnames : utf8 "VERSION" ≠ utf8 "OS" ∧ utf8 "DISTRO" ≠ utf8 "OS" ∧ utf8 "ARCH" ≠ utf8 "OS" ∧
      utf8 "VERSION" ≠ utf8 "ARCH" ∧ utf8 "DISTRO" ≠ utf8 "ARCH" ∧ utf8 "VERSION" ≠ utf8 "DISTRO" := by decide
  rw [parseOverrideFile, hentries]
  simp only [except_ok_bind, requiredField, getElem?_insert_eq, hnames, ↓reduceIte, hos, harch, hdistro]

end Printed

section Read

/-- No value that the parser returns has a quote or white space in it. -/
private theorem parseValue_result {result : Bytes} {quoted : Bool} {input value rest : Bytes}
    (h : parseValue result quoted input = .ok (value, rest)) (hresult : Clean result) : Clean value := by
  fun_induction parseValue result quoted input with
  | case1 => cases h
  | case2 =>
    cases h
    exact hresult
  | case3 =>
    cases h
    exact hresult
  | case4 => cases h
  | case5 _ _ _ _ _ ih => exact ih h hresult
  | case6 =>
    cases h
    exact hresult
  | case7 _ _ _ _ _ _ ih => exact ih h hresult
  | case8 =>
    cases h
    exact hresult
  | case9 result _ c _ hquote _ hspace ih =>
    refine ih h ?_
    rw [Clean, List.all_append, hresult]
    simp [isClean, hquote, hspace]

private theorem parseEntries_values {input : Bytes} {fields fields' : ByteMap Bytes}
    (h : parseEntries input fields = .ok fields') (hfields : ∀ (key value : Bytes), fields[key]? = some value → Clean value) :
    ∀ (key value : Bytes), fields'[key]? = some value → Clean value := by
  fun_induction parseEntries input fields with
  | case1 =>
    cases h
    exact hfields
  | case2 => cases h
  | case3 =>
    cases h
    exact hfields
  | case4 => cases h
  | case5 input fields _ key input₁ _ _ value input₂ hvalue ih =>
    refine ih h fun other found hfound => ?_
    rw [getElem?_insert_eq] at hfound
    split at hfound
    · cases hfound
      exact parseValue_result hvalue (by rfl)
    · exact hfields other found hfound

/-- The version of an override file has no quote and no white space in it. -/
theorem parseOverrideFile_version {path content : Bytes} {info : DistributionInfo}
    (h : parseOverrideFile path content = .ok info) : Clean info.version := by
  simp only [parseOverrideFile, except_bind_ok_iff] at h
  obtain ⟨fields, hentries, _, -, _, -, _, -, _, -, _, -, _, -, version, hversion, h⟩ := h
  cases h
  unfold requiredField at hversion
  split at hversion
  · next value hvalue =>
    cases hversion
    exact parseEntries_values hentries (by simp) _ _ hvalue
  · cases hversion

end Read

end DistributionInfo

section Suggestion
open DistributionInfo BenchmarkInfo

/-- The special characters of `fnmatch`, without those of bracket expressions. -/
def globs : Glob UInt8 := ⟨asterisk, questionMark, backslash⟩

/-- `fnmatch` without flags, as POSIX has it: on a pattern without bracket expressions it returns
whether the text is one that the pattern matches. -/
def PosixFnmatch (fnmatch : Bytes → Bytes → Bool) : Prop :=
  ∀ pattern string, leftBracket ∉ pattern → (fnmatch pattern string = true ↔ string ∈ globs.language pattern)

private theorem sanitize_eq_sample (escaped : Bool) (version : Bytes) :
    sanitize escaped version = globs.sample letterX escaped version := by
  induction version generalizing escaped with
  | nil => cases escaped <;> rfl
  | cons c version ih =>
    cases escaped with
    | true => rw [sanitize, Glob.sample, ih]
    | false =>
      rw [sanitize, Glob.sample, ih, ih]
      rfl

/-- The version of a key has no bracket expression and no NUL. -/
theorem parse_version {payloadKey : Bytes} {benchmark : BenchmarkInfo}
    (h : BenchmarkInfo.parse payloadKey = .ok benchmark) :
    leftBracket ∉ benchmark.version ∧ NulFree benchmark.version := by
  unfold BenchmarkInfo.parse at h
  split at h
  · simp only [except_bind_ok_iff] at h
    obtain ⟨⟨framework, rest⟩, -, h⟩ := h
    dsimp only at h
    split at h
    · cases h
    · simp only [except_bind_ok_iff] at h
      obtain ⟨distribution, -, ⟨version, rest⟩, -, _, hglobbing, ⟨benchmarkVersion, rest⟩, -, ⟨section_, rest⟩, -, h⟩ := h
      cases h
      unfold validateGlobbing at hglobbing
      split at hglobbing
      · cases hglobbing
      · next hnone =>
        rw [List.any_eq_true, not_exists] at hnone
        refine ⟨fun hmem => hnone _ ⟨hmem, ?_⟩, fun hmem => hnone _ ⟨hmem, ?_⟩⟩ <;> decide
  · cases h

/-- The suggested line, put alone into the override file, makes the benchmark apply. -/
def Applies (fnmatch : Bytes → Bytes → Bool) (detected : DistributionInfo) (benchmark : BenchmarkInfo)
    (path eol : Bytes) : Prop :=
  ∃ info, parseOverrideFile path ((suggestedOverride detected benchmark).toBytes ++ eol) = .ok info ∧
    benchmark.isMatch fnmatch info = true

private theorem applies_iff {fnmatch : Bytes → Bytes → Bool} (hfnmatch : PosixFnmatch fnmatch)
    {benchmark : BenchmarkInfo} (hbracket : leftBracket ∉ benchmark.version) (hnul : NulFree benchmark.version)
    (detected : DistributionInfo) (path : Bytes) {eol : Bytes} (heol : eol = [] ∨ eol = [newline]) :
    Applies fnmatch detected benchmark path eol ↔
      Clean benchmark.version ∧ globs.endsInEscape false benchmark.version = false := by
  have hmatches : ∀ info : DistributionInfo, benchmark.isMatch fnmatch info = true ↔
      info.distribution = benchmark.distribution ∧ cString info.version ∈ globs.language benchmark.version := by
    intro info
    rw [BenchmarkInfo.isMatch, cString_of_nulFree hnul, Bool.and_eq_true, decide_eq_true_eq,
      hfnmatch _ _ hbracket]
  constructor
  · rintro ⟨info, hinfo, hmatch⟩
    obtain ⟨tokens, htokens, hmem⟩ := ((hmatches info).mp hmatch).2
    have hclean := clean_iff.mp (parseOverrideFile_version hinfo)
    refine ⟨clean_iff.mpr fun c hc => ?_, ?_⟩
    · have hversion : c = quote ∨ isSpace c = true → c ∈ info.version := by
        intro hspecial
        have hliteral : c ≠ asterisk ∧ c ≠ questionMark ∧ c ≠ backslash := by
          refine ⟨?_, ?_, ?_⟩ <;> rintro rfl <;> revert hspecial <;> decide
        have hchar := Glob.char_mem_tokens globs htokens hc hliteral.1 hliteral.2.1 hliteral.2.2
        exact (List.takeWhile_prefix _).subset (Glob.Token.mem_of_mem_languageOf hmem hchar)
      refine ⟨fun hquote => ?_, ?_⟩
      · exact (hclean c (hversion (Or.inl hquote))).1 hquote
      · by_contra hspace
        rw [Bool.not_eq_false] at hspace
        rw [(hclean c (hversion (Or.inr hspace))).2] at hspace
        cases hspace
    · rw [← Bool.not_eq_true, ← Glob.tokens_eq_none_iff, htokens]
      exact nofun
  · rintro ⟨hclean, hends⟩
    have hchars : ∀ c ∈ benchmark.sanitizedVersion, c ∈ benchmark.version ∨ c = letterX := by
      intro c hc
      rw [BenchmarkInfo.sanitizedVersion, sanitize_eq_sample] at hc
      exact Glob.mem_of_mem_sample globs hc
    have hsanitized : Clean benchmark.sanitizedVersion := by
      refine clean_iff.mpr fun c hc => ?_
      rcases hchars c hc with hc | rfl
      · exact clean_iff.mp hclean c hc
      · decide
    have hnul' : NulFree benchmark.sanitizedVersion := by
      intro hzero
      rcases hchars 0 hzero with hzero | hzero
      · exact hnul hzero
      · exact absurd hzero (by decide)
    refine ⟨suggestedOverride detected benchmark, parseOverrideFile_toBytes path hsanitized heol,
      (hmatches _).mpr ⟨rfl, ?_⟩⟩
    obtain ⟨tokens, htokens⟩ := Option.ne_none_iff_exists'.mp
      (fun hnone => absurd ((globs.tokens_eq_none_iff false benchmark.version).mp hnone) (by simp [hends]))
    refine ⟨tokens, htokens, ?_⟩
    change cString benchmark.sanitizedVersion ∈ _
    rw [cString_of_nulFree hnul', BenchmarkInfo.sanitizedVersion, sanitize_eq_sample]
    exact Glob.sample_mem_languageOf globs letterX htokens

/-- The line that is suggested for a key makes its benchmark apply exactly when the version in the key
has no quote and no white space, which the file's parser drops, and ends in no lone backslash, with
which nothing matches it. -/
theorem suggested_override_applies_iff {fnmatch : Bytes → Bytes → Bool} (hfnmatch : PosixFnmatch fnmatch)
    {payloadKey : Bytes} {benchmark : BenchmarkInfo} (h : BenchmarkInfo.parse payloadKey = .ok benchmark)
    (detected : DistributionInfo) (path : Bytes) {eol : Bytes} (heol : eol = [] ∨ eol = [newline]) :
    (checkApplicability fnmatch detected payloadKey).2 =
        (if benchmark.isMatch fnmatch detected then none else some (suggestedOverride detected benchmark).toBytes) ∧
      (Applies fnmatch detected benchmark path eol ↔
        Clean benchmark.version ∧ globs.endsInEscape false benchmark.version = false) := by
  obtain ⟨hbracket, hnul⟩ := parse_version h
  refine ⟨?_, applies_iff hfnmatch hbracket hnul detected path heol⟩
  rw [checkApplicability, h]
  dsimp only
  split <;> rfl

def escapedDot : BenchmarkInfo :=
  { framework := utf8 "cis", distribution := .rhel, version := utf8 "8\\.*", benchmarkVersion := utf8 "v3.0.0"
    section_ := utf8 "1/1" }

/-- A version with an escaped dot and a star. -/
theorem suggested_override_applies_iff_escapedDot :
    Applies globs.isMatch { version := utf8 "0.0" } escapedDot [] [] :=
  (suggested_override_applies_iff (fun pattern string _ => globs.isMatch_iff pattern string)
    (show BenchmarkInfo.parse (utf8 "/cis/rhel/8\\.*/v3.0.0/1/1") = .ok escapedDot by rfl)
    { version := utf8 "0.0" } [] (Or.inl rfl)).2.mpr ⟨rfl, rfl⟩

def blankInVersion : BenchmarkInfo :=
  { framework := utf8 "cis", distribution := .rhel, version := utf8 "8 beta", benchmarkVersion := utf8 "v1.0.0"
    section_ := utf8 "1" }

/-- The blank of a version is lost in the override file. -/
theorem suggested_override_misses_blank :
    BenchmarkInfo.parse (utf8 "/cis/rhel/8 beta/v1.0.0/1") = .ok blankInVersion ∧
      ¬ Applies globs.isMatch { version := utf8 "0.0" } blankInVersion [] [] := by
  refine ⟨rfl, ?_⟩
  rw [applies_iff (fun pattern string _ => globs.isMatch_iff pattern string) (by decide) (by decide) _ _ (Or.inl rfl)]
  rintro ⟨hclean, -⟩
  cases hclean

end Suggestion

end Kompli
