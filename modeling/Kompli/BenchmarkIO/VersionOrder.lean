import Kompli.BenchmarkIO.ContentVersion
import Kompli.BenchmarkIO.BenchmarkDefinition
import Kompli.Foundation.Decimal
import Kompli.Foundation.Split
import Mathlib.Data.Prod.Lex

/-! Versions as the numbers they are written with: what texts are versions, and their order. -/
namespace Kompli
open Parson Ascii BenchmarkIO BenchmarkDefinition
open Foundation (Decimal.Canonical Decimal.value Decimal.print_canonical Decimal.print_value Decimal.value_injective
  Decimal.compare_canonical)

namespace ContentVersion

private theorem isDigit_iff {c : UInt8} : isDigit c = true ↔ 0x30 ≤ c ∧ c ≤ 0x39 := by
  simp [isDigit]

theorem validComponent_iff {component : Bytes} : validComponent component = true ↔ Decimal.Canonical component := by
  simp only [validComponent, ne_eq, decide_not, Bool.and_eq_true, Bool.not_eq_eq_eq_not, Bool.not_true,
    decide_eq_false_iff_not, Bool.or_eq_true, decide_eq_true_eq, List.all_eq_true, isDigit_iff]
  constructor
  · rintro ⟨⟨hne, hleading⟩, hdigits⟩
    exact ⟨hdigits, hne, hleading⟩
  · exact fun h => ⟨⟨h.ne_nil, h.leading⟩, h.digits⟩

section Accepted

private theorem splitAtDot_some {text component rest : Bytes} (h : splitAtDot text = some (component, rest)) :
    text = component ++ dot :: rest := by
  rw [splitAtDot] at h
  split_ifs at h with hdot
  obtain ⟨rfl, rfl⟩ := Prod.mk.inj (Option.some.inj h)
  exact (Foundation.cut_append hdot).symm

theorem toBytes_of_parse {text : Bytes} {version : ContentVersion} (h : parse text = .ok version) :
    version.toBytes = text := by
  rw [parse] at h
  rcases hparts : parts text with _ | ⟨major, minor, patch⟩ <;> rw [hparts] at h
  · cases h
  · simp only at h
    split_ifs at h with hvalid
    cases h
    simp only [parts, Option.bind_eq_bind, Option.bind_eq_some_iff] at hparts
    obtain ⟨⟨first, rest⟩, hfirst, ⟨second, last⟩, hsecond, hresult⟩ := hparts
    cases hresult
    rw [splitAtDot_some hfirst]
    exact congrArg (first ++ dot :: ·) (splitAtDot_some hsecond).symm

/-- A text is a version when it is three numbers, printed with dots between them. -/
theorem parse_accepts_iff (text : Bytes) :
    (∃ version, parse text = .ok version) ↔
      ∃ major minor patch : Nat, text = decimal major ++ dot :: (decimal minor ++ dot :: decimal patch) := by
  constructor
  · rintro ⟨version, h⟩
    obtain ⟨hmajor, hminor, hpatch⟩ := version.valid
    refine ⟨Decimal.value version.major, Decimal.value version.minor, Decimal.value version.patch, ?_⟩
    rw [decimal, decimal, decimal, Decimal.print_value (validComponent_iff.mp hmajor),
      Decimal.print_value (validComponent_iff.mp hminor), Decimal.print_value (validComponent_iff.mp hpatch)]
    exact (toBytes_of_parse h).symm
  · rintro ⟨major, minor, patch, rfl⟩
    have hvalid (n : Nat) : validComponent (decimal n) := validComponent_iff.mpr (Decimal.print_canonical n)
    exact ⟨_, parse_toBytes ⟨decimal major, decimal minor, decimal patch, hvalid _, hvalid _, hvalid _⟩⟩

end Accepted

section Order

/-- The numbers of a version, the first the most significant. -/
def numbers (version : ContentVersion) : Nat ×ₗ Nat ×ₗ Nat :=
  toLex (Decimal.value version.major, toLex (Decimal.value version.minor, Decimal.value version.patch))

theorem numbers_injective : Function.Injective numbers := by
  rintro ⟨major, minor, patch, hvalid⟩ ⟨major', minor', patch', hvalid'⟩ h
  simp only [numbers, EmbeddingLike.apply_eq_iff_eq, Prod.mk.injEq] at h
  obtain rfl := Decimal.value_injective (validComponent_iff.mp hvalid.1) (validComponent_iff.mp hvalid'.1) h.1
  obtain rfl := Decimal.value_injective (validComponent_iff.mp hvalid.2.1) (validComponent_iff.mp hvalid'.2.1) h.2.1
  obtain rfl := Decimal.value_injective (validComponent_iff.mp hvalid.2.2) (validComponent_iff.mp hvalid'.2.2) h.2.2
  rfl

private theorem compareDecimal_eq {left right : Bytes} (hleft : validComponent left) (hright : validComponent right) :
    compareDecimal left right = Ord.compare (Decimal.value left) (Decimal.value right) :=
  Decimal.compare_canonical (validComponent_iff.mp hleft) (validComponent_iff.mp hright)

private theorem compare_toLex {α β : Type} [LinearOrder α] [LinearOrder β] (a a' : α) (b b' : β) :
    (Ord.compare a a').then (Ord.compare b b') = Ord.compare (toLex (a, b)) (toLex (a', b')) := by
  symm
  rcases lt_trichotomy a a' with h | rfl | h
  · rw [compare_lt_iff_lt.mpr h]
    exact compare_lt_iff_lt.mpr (Prod.Lex.toLex_lt_toLex.mpr (.inl h))
  · rw [compare_eq_iff_eq.mpr (rfl : a = a), Ordering.eq_then]
    rcases lt_trichotomy b b' with h | rfl | h
    · rw [compare_lt_iff_lt.mpr h]
      exact compare_lt_iff_lt.mpr (Prod.Lex.toLex_lt_toLex.mpr (.inr ⟨rfl, h⟩))
    · rw [compare_eq_iff_eq.mpr (rfl : b = b)]
      exact compare_eq_iff_eq.mpr rfl
    · rw [compare_gt_iff_gt.mpr h]
      exact compare_gt_iff_gt.mpr (Prod.Lex.toLex_lt_toLex.mpr (.inr ⟨rfl, h⟩))
  · rw [compare_gt_iff_gt.mpr h]
    exact compare_gt_iff_gt.mpr (Prod.Lex.toLex_lt_toLex.mpr (.inl h))

/-- Versions are compared by their numbers. -/
theorem compare_eq_numbers (left right : ContentVersion) :
    compare left right = Ord.compare left.numbers right.numbers := by
  obtain ⟨hmajor, hminor, hpatch⟩ := left.valid
  obtain ⟨hmajor', hminor', hpatch'⟩ := right.valid
  rw [compare, compareDecimal_eq hmajor hmajor', compareDecimal_eq hminor hminor', compareDecimal_eq hpatch hpatch',
    compare_toLex, compare_toLex]
  rfl

instance : Std.TransCmp compare where
  eq_swap := by
    intro left right
    rw [compare_eq_numbers, compare_eq_numbers]
    exact Std.OrientedCmp.eq_swap
  isLE_trans := by
    intro first second third
    rw [compare_eq_numbers, compare_eq_numbers, compare_eq_numbers]
    exact Std.TransCmp.isLE_trans

instance : Std.LawfulEqCmp compare where
  compare_self := compare_self _
  eq_of_compare := by
    intro left right h
    rw [compare_eq_numbers] at h
    exact numbers_injective (compare_eq_iff_eq.mp h)

end Order

end ContentVersion
end Kompli
