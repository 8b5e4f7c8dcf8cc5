import Kompli.BenchmarkIO.VersionOrder
import Kompli.Cli.PlanFile

/-! Which versions of a definition a plan accepts. -/
namespace Kompli.Cli
open BenchmarkIO BenchmarkDefinition Parson Ascii
open Foundation (Decimal.value)

/-- What the constraints of a plan mean: `^` keeps the major number, `~` the minor as well,
and without either the version is the plan's own. -/
structure Compatible (constraint : Bytes) (document version : ContentVersion) : Prop where
  atLeast : version.numbers ≤ document.numbers
  caret : constraint.head? = some 0x5E → Decimal.value document.major = Decimal.value version.major
  tilde : constraint.head? = some 0x7E → Decimal.value document.major = Decimal.value version.major ∧
    Decimal.value document.minor = Decimal.value version.minor
  same : constraint.head? ≠ some 0x5E → constraint.head? ≠ some 0x7E → document = version

private theorem compare_ne_lt {left right : ContentVersion} :
    left.compare right ≠ .lt ↔ right.numbers ≤ left.numbers := by
  rw [ContentVersion.compare_eq_numbers, ne_eq, compare_lt_iff_lt, not_lt]

private theorem component_inj {left right : Bytes} (hleft : validComponent left) (hright : validComponent right) :
    left = right ↔ Decimal.value left = Decimal.value right :=
  ⟨congrArg _, Foundation.Decimal.value_injective (ContentVersion.validComponent_iff.mp hleft)
    (ContentVersion.validComponent_iff.mp hright)⟩

/-- The check of versions is the meaning of the constraint. -/
theorem satisfiesConstraint_iff (document : ContentVersion) (benchmark : PlanBenchmark) :
    satisfiesConstraint document benchmark = true ↔
      Compatible benchmark.versionConstraint document benchmark.version := by
  have hmajor := component_inj document.valid.1 benchmark.version.valid.1
  have hminor := component_inj document.valid.2.1 benchmark.version.valid.2.1
  have heq : document.compare benchmark.version = .eq ↔ document = benchmark.version :=
    Std.LawfulEqCmp.compare_eq_iff_eq
  simp only [satisfiesConstraint, ne_eq, decide_not, Bool.and_eq_true, Bool.not_eq_eq_eq_not, Bool.not_true,
    decide_eq_false_iff_not, Bool.and_eq_false_iff, Bool.or_eq_false_iff, Bool.not_false, decide_eq_true_eq,
    hmajor, hminor, heq]
  constructor
  · rintro ⟨⟨⟨hle, hcaret⟩, htilde⟩, hsame⟩
    refine ⟨compare_ne_lt.mp hle, fun h => ?_, fun h => ?_, fun h h' => ?_⟩
    · exact hcaret.resolve_left (by simp [h])
    · exact htilde.resolve_left (by simp [h])
    · exact hsame.resolve_left (by simp [h, h'])
  · rintro ⟨hle, hcaret, htilde, hsame⟩
    refine ⟨⟨⟨compare_ne_lt.mpr hle, ?_⟩, ?_⟩, ?_⟩
    · exact or_iff_not_imp_left.mpr fun h => hcaret (not_not.mp h)
    · exact or_iff_not_imp_left.mpr fun h => htilde (not_not.mp h)
    · by_cases hc : benchmark.versionConstraint.head? = some 0x5E
      · simp [hc]
      · by_cases ht : benchmark.versionConstraint.head? = some 0x7E
        · simp [ht]
        · exact .inr (hsame hc ht)

section Validate

variable {host : Host} {distributionInfo : DistributionInfo} {benchmark : PlanBenchmark} {document : BenchmarkDocument}

/-- For a benchmark of the distribution and a valid constraint, the rules are checked when the
version is compatible. -/
private theorem validateBenchmark_compatible (hmatch : document.benchmarkInfo.isMatch host.fnmatch distributionInfo)
    (hconstraint : validateVersionConstraint benchmark.version benchmark.versionConstraint = .ok ())
    (h : Compatible benchmark.versionConstraint document.version benchmark.version) :
    validateBenchmark host distributionInfo (benchmark, document) =
      benchmark.rules.toList.forM (validateRule host benchmark document) := by
  simp only [validateBenchmark, hmatch, not_true_eq_false, ↓reduceIte, hconstraint,
    (satisfiesConstraint_iff _ _).mpr h]
  rfl

private theorem validateBenchmark_incompatible
    (hmatch : document.benchmarkInfo.isMatch host.fnmatch distributionInfo)
    (hconstraint : validateVersionConstraint benchmark.version benchmark.versionConstraint = .ok ())
    (h : ¬ Compatible benchmark.versionConstraint document.version benchmark.version) :
    validateBenchmark host distributionInfo (benchmark, document) =
      .error (invalidPlan (utf8 "Benchmark definition '" ++ benchmark.file ++ utf8 "' version '" ++
        document.version.toBytes ++ utf8 "' does not satisfy plan constraint '" ++ benchmark.versionConstraint ++
        utf8 "'; definition upgraded incompatibly or changed: review and regenerate your plan")) := by
  have hchecked : ¬ satisfiesConstraint document.version benchmark = true :=
    fun hchecked => h ((satisfiesConstraint_iff _ _).mp hchecked)
  simp only [validateBenchmark, hmatch, not_true_eq_false, ↓reduceIte, hconstraint, hchecked,
    Bool.false_eq_true, not_false_eq_true]
  rfl

end Validate

/-- A version is three numbers of any size, it is written as it was read, versions are ordered as
these numbers are, and a plan accepts the versions that its constraint means. -/
theorem content_versions_exact :
    (∀ text, (∃ version, ContentVersion.parse text = .ok version) ↔
      ∃ major minor patch : Nat, text = decimal major ++ dot :: (decimal minor ++ dot :: decimal patch)) ∧
    (∀ text version, ContentVersion.parse text = .ok version → version.toBytes = text) ∧
    Std.TransCmp ContentVersion.compare ∧ Std.LawfulEqCmp ContentVersion.compare ∧
    (∀ left right, ContentVersion.compare left right = compare left.numbers right.numbers) ∧
    ∀ (host : Host) (distributionInfo : DistributionInfo) (benchmark : PlanBenchmark) (document : BenchmarkDocument),
      validateVersionConstraint benchmark.version benchmark.versionConstraint = .ok () →
      (satisfiesConstraint document.version benchmark = true ↔
        Compatible benchmark.versionConstraint document.version benchmark.version) ∧
      (document.benchmarkInfo.isMatch host.fnmatch distributionInfo →
        (Compatible benchmark.versionConstraint document.version benchmark.version →
          validateBenchmark host distributionInfo (benchmark, document) =
            benchmark.rules.toList.forM (validateRule host benchmark document)) ∧
        (¬ Compatible benchmark.versionConstraint document.version benchmark.version →
          validateBenchmark host distributionInfo (benchmark, document) =
            .error (invalidPlan (utf8 "Benchmark definition '" ++ benchmark.file ++ utf8 "' version '" ++
              document.version.toBytes ++ utf8 "' does not satisfy plan constraint '" ++
              benchmark.versionConstraint ++
              utf8 "'; definition upgraded incompatibly or changed: review and regenerate your plan")))) :=
  ⟨ContentVersion.parse_accepts_iff, fun _ _ h => ContentVersion.toBytes_of_parse h, inferInstance, inferInstance,
    ContentVersion.compare_eq_numbers, fun _ _ _ _ hconstraint => ⟨satisfiesConstraint_iff _ _, fun hmatch =>
      ⟨validateBenchmark_compatible hmatch hconstraint, validateBenchmark_incompatible hmatch hconstraint⟩⟩⟩

end Kompli.Cli
