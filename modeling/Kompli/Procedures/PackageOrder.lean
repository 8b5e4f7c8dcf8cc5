import Kompli.Procedures.PackageVersions

/-! Versions by the values of their numbers: a total preorder, and where the code's comparison is that one. -/
namespace Kompli.PackageInstalled
open Parson Ascii Foundation

section Order

/-- What counts of a part: the bytes of a text, the value of a number. -/
inductive Part where
  | text (bytes : Bytes)
  | number (value : Nat)
  deriving DecidableEq

namespace Part

/-- Texts come before numbers. -/
def order : Part → Part → Ordering
  | text left, text right => Ord.compare left right
  | text _, number _ => .lt
  | number _, text _ => .gt
  | number left, number right => Ord.compare left right

instance : Std.TransCmp order where
  eq_swap {left right} := by
    cases left <;> cases right <;> first | rfl | exact Std.OrientedOrd.eq_swap
  isLE_trans {left middle right} := by
    cases left <;> cases middle <;> cases right <;> simp only [order] <;>
      first | exact Std.TransOrd.isLE_trans | simp

instance : Std.LawfulEqCmp order where
  eq_of_compare {left right} h := by
    cases left <;> cases right <;> simp only [order, reduceCtorEq, Std.LawfulEqOrd.compare_eq_iff_eq] at h <;> rw [h]

end Part

def partOf (part : Bytes) : Part := if startsWithDigit part then .number (Decimal.value part) else .text part

/-- The parts of the epoch, of the version and of the release. -/
def partsOf (ver : Bytes) : List Part × List Part × List Part :=
  ((split (evrSplit ver).epoch).map partOf, (split (evrSplit ver).version).map partOf,
    (split (evrSplit ver).release).map partOf)

/-- The first part that differs decides, and where there is none the end comes first. -/
def partsOrder : List Part → List Part → Ordering := List.compareLex Part.order

def versionOrder (v1 v2 : Bytes) : Ordering :=
  (partsOrder (partsOf v1).1 (partsOf v2).1).then
    ((partsOrder (partsOf v1).2.1 (partsOf v2).2.1).then (partsOrder (partsOf v1).2.2 (partsOf v2).2.2))

instance : Std.TransCmp partsOrder := inferInstanceAs (Std.TransCmp (List.compareLex Part.order))

instance : Std.LawfulEqCmp partsOrder := inferInstanceAs (Std.LawfulEqCmp (List.compareLex Part.order))

instance : Std.TransCmp versionOrder :=
  have component (f : Bytes → List Part) : Std.TransCmp fun v1 v2 => partsOrder (f v1) (f v2) :=
    { eq_swap := @fun _ _ => @Std.OrientedCmp.eq_swap _ partsOrder _ _ _
      isLE_trans := @fun _ _ _ => @Std.TransCmp.isLE_trans _ partsOrder _ _ _ _ }
  have := component fun ver => (partsOf ver).1
  have := component fun ver => (partsOf ver).2.1
  have := component fun ver => (partsOf ver).2.2
  inferInstanceAs (Std.TransCmp (compareLex (fun v1 v2 => partsOrder (partsOf v1).1 (partsOf v2).1)
    (compareLex (fun v1 v2 => partsOrder (partsOf v1).2.1 (partsOf v2).2.1)
      fun v1 v2 => partsOrder (partsOf v1).2.2 (partsOf v2).2.2)))

end Order

section Parts
open Decimal

/-- A run of digits, or a text that starts with something else. -/
structure IsPart (part : Bytes) : Prop where
  ne_nil : part ≠ []
  digits : startsWithDigit part = true → Digits part

theorem isPart_of_mem_split {ver part : Bytes} (h : part ∈ split ver) : IsPart part := by
  induction ver using split.induct with
  | case1 =>
    rw [split] at h
    cases h
  | case2 c cs hc ih =>
    rw [split, if_pos hc] at h
    exact ih h
  | case3 c cs hc hdigit ih =>
    rw [split, if_neg hc, if_pos hdigit, List.mem_cons] at h
    rcases h with rfl | h
    · have hall : ∀ d ∈ c :: cs.takeWhile isDigit, isDigit d = true :=
        List.forall_mem_cons.mpr ⟨hdigit, fun d hd => List.mem_takeWhile_imp hd⟩
      exact ⟨List.cons_ne_nil _ _, fun _ => digits_of hall⟩
    · exact ih h
  | case4 c cs hc hdigit ih =>
    rw [split, if_neg hc, if_neg hdigit, List.mem_cons] at h
    rcases h with rfl | h
    · refine ⟨List.cons_ne_nil _ _, fun hstart => ?_⟩
      rw [startsWithDigit, List.head?_cons, Option.any_some] at hstart
      exact absurd hstart hdigit
    · exact ih h

/-- How many digits of each number count, as far as the `int` of their difference can tell. -/
structure CountsFit (left right : Bytes) : Prop where
  shorter : left.length < right.length → sizeDifference left.length right.length < 0 ∨
    sizeDifference left.length right.length = 0 ∧ Ord.compare left right = .lt
  longer : right.length < left.length → 0 < sizeDifference left.length right.length ∨
    sizeDifference left.length right.length = 0 ∧ Ord.compare left right = .gt

def PartFits (part other : Bytes) : Prop :=
  startsWithDigit part = true → startsWithDigit other = true → CountsFit (stripZeroes part) (stripZeroes other)

/-- What decides is the first part that differs, and there the numbers of digits fit. -/
def PartsFit : List Bytes → List Bytes → Prop
  | part :: parts, other :: others => PartFits part other ∧ (partOf part = partOf other → PartsFit parts others)
  | _, _ => True

def VersionsFit (v1 v2 : Bytes) : Prop :=
  PartsFit (split (evrSplit v1).epoch) (split (evrSplit v2).epoch) ∧
    ((partsOf v1).1 = (partsOf v2).1 →
      PartsFit (split (evrSplit v1).version) (split (evrSplit v2).version) ∧
        ((partsOf v1).2.1 = (partsOf v2).2.1 →
          PartsFit (split (evrSplit v1).release) (split (evrSplit v2).release)))

variable {part other : Bytes}

theorem sizeDifference_self (n : Nat) : sizeDifference n n = 0 := by
  rw [sizeDifference, sub_self]
  rfl

theorem compareNumbers_eq_iff (h : Digits part) (hne : part ≠ []) (h' : Digits other) (hne' : other ≠ []) :
    compareNumbers part other = .eq ↔ value part = value other := by
  obtain ⟨hcanonical, hvalue⟩ := stripZeroes_spec h hne
  obtain ⟨hcanonical', hvalue'⟩ := stripZeroes_spec h' hne'
  rw [← hvalue, ← hvalue', compareNumbers]
  constructor
  · intro heq
    split_ifs at heq
    rw [Std.LawfulEqOrd.compare_eq_iff_eq.mp heq]
  · intro heq
    rw [value_injective hcanonical hcanonical' heq, sizeDifference_self]
    simp only [lt_self_iff_false, if_false]
    exact Std.ReflOrd.compare_self

theorem compareNumbers_iff (h : Digits part) (hne : part ≠ []) (h' : Digits other) (hne' : other ≠ []) :
    compareNumbers part other = Ord.compare (value part) (value other) ↔
      CountsFit (stripZeroes part) (stripZeroes other) := by
  obtain ⟨hcanonical, hvalue⟩ := stripZeroes_spec h hne
  obtain ⟨hcanonical', hvalue'⟩ := stripZeroes_spec h' hne'
  rw [← hvalue, ← hvalue', compareNumbers, ← compare_canonical hcanonical hcanonical']
  generalize stripZeroes part = left
  generalize stripZeroes other = right
  -- the case of the counts, and in each that of the `int`
  rcases lt_trichotomy left.length right.length with hlt | heq | hgt
  · rw [compare_lt_iff_lt.mpr hlt, Ordering.lt_then]
    constructor
    · intro hright
      refine ⟨fun _ => ?_, fun hlonger => absurd hlt (by omega)⟩
      rcases lt_trichotomy (sizeDifference left.length right.length) 0 with hneg | hzero | hpos
      · exact .inl hneg
      · rw [if_neg (by omega), if_neg (by omega)] at hright
        exact .inr ⟨hzero, hright⟩
      · rw [if_neg (by omega), if_pos hpos] at hright
        cases hright
    · intro hfit
      rcases hfit.shorter hlt with hneg | ⟨hzero, htext⟩
      · rw [if_pos hneg]
      · rw [hzero, if_neg (by omega), if_neg (by omega), htext]
  · rw [heq, sizeDifference_self, compare_eq_iff_eq.mpr (rfl : right.length = right.length)]
    exact ⟨fun _ => ⟨fun h => absurd heq (by omega), fun h => absurd heq (by omega)⟩, fun _ => rfl⟩
  · rw [compare_gt_iff_gt.mpr hgt, Ordering.gt_then]
    constructor
    · intro hright
      refine ⟨fun hshorter => absurd hgt (by omega), fun _ => ?_⟩
      rcases lt_trichotomy (sizeDifference left.length right.length) 0 with hneg | hzero | hpos
      · rw [if_pos hneg] at hright
        cases hright
      · rw [if_neg (by omega), if_neg (by omega)] at hright
        exact .inr ⟨hzero, hright⟩
      · exact .inl hpos
    · intro hfit
      rcases hfit.longer hgt with hpos | ⟨hzero, htext⟩
      · rw [if_neg (by omega), if_pos hpos]
      · rw [hzero, if_neg (by omega), if_neg (by omega), htext]

end Parts

section Lists

variable {part other : Bytes} {parts others : List Bytes}

theorem comparePart_eq_iff (h : IsPart part) (h' : IsPart other) :
    comparePart part other = .eq ↔ partOf part = partOf other := by
  rw [comparePart, partOf, partOf]
  by_cases hdigit : startsWithDigit part = true <;> by_cases hdigit' : startsWithDigit other = true
  · simp [hdigit, hdigit', compareNumbers_eq_iff (h.digits hdigit) h.ne_nil (h'.digits hdigit') h'.ne_nil]
  · simp [hdigit, hdigit']
  · simp [hdigit, hdigit']
  · simp [hdigit, hdigit']

/-- Of two parts the numbers alone can be compared wrongly. -/
theorem comparePart_iff (h : IsPart part) (h' : IsPart other) :
    comparePart part other = (partOf part).order (partOf other) ↔ PartFits part other := by
  rw [comparePart, partOf, partOf, PartFits]
  by_cases hdigit : startsWithDigit part = true <;> by_cases hdigit' : startsWithDigit other = true
  · simp [hdigit, hdigit', Part.order, compareNumbers_iff (h.digits hdigit) h.ne_nil (h'.digits hdigit') h'.ne_nil]
  · simp [hdigit, hdigit', Part.order]
  · simp [hdigit, hdigit', Part.order]
  · simp [hdigit, hdigit', Part.order]

/-- Where two orders agree on what is equal, they agree on the first that is not, and from there on nothing counts. -/
private theorem then_eq_then_iff : ∀ {first first' rest rest' : Ordering}, (first = .eq ↔ first' = .eq) →
    (first.then rest = first'.then rest' ↔ first = first' ∧ (first = .eq → rest = rest')) := by
  decide

theorem compareLists_eq_iff (h : ∀ part ∈ parts, IsPart part) (h' : ∀ other ∈ others, IsPart other) :
    compareLists parts others = .eq ↔ parts.map partOf = others.map partOf := by
  induction parts generalizing others with
  | nil => cases others <;> simp [compareLists]
  | cons part parts ih =>
    rcases others with _ | ⟨other, others⟩
    · simp [compareLists]
    · rw [List.forall_mem_cons] at h h'
      rw [compareLists, Ordering.then_eq_eq, comparePart_eq_iff h.1 h'.1, ih h.2 h'.2, List.map_cons, List.map_cons,
        List.cons.injEq]

theorem compareLists_iff (h : ∀ part ∈ parts, IsPart part) (h' : ∀ other ∈ others, IsPart other) :
    compareLists parts others = partsOrder (parts.map partOf) (others.map partOf) ↔ PartsFit parts others := by
  rw [partsOrder]
  induction parts generalizing others with
  | nil => cases others <;> simp [compareLists, PartsFit, List.compareLex_nil_nil, List.compareLex_nil_cons]
  | cons part parts ih =>
    rcases others with _ | ⟨other, others⟩
    · simp [compareLists, PartsFit, List.compareLex_cons_nil]
    · rw [List.forall_mem_cons] at h h'
      have heq := comparePart_eq_iff h.1 h'.1
      rw [compareLists, List.map_cons, List.map_cons, List.compareLex_cons_cons, PartsFit,
        then_eq_then_iff (heq.trans Std.LawfulEqCmp.compare_eq_iff_eq.symm), comparePart_iff h.1 h'.1, heq, ih h.2 h'.2]

theorem compareParts_eq_iff (p1 p2 : Bytes) :
    compareParts p1 p2 = .eq ↔ (split p1).map partOf = (split p2).map partOf :=
  compareLists_eq_iff (fun _ => isPart_of_mem_split) fun _ => isPart_of_mem_split

theorem compareParts_iff (p1 p2 : Bytes) :
    compareParts p1 p2 = partsOrder ((split p1).map partOf) ((split p2).map partOf) ↔ PartsFit (split p1) (split p2) :=
  compareLists_iff (fun _ => isPart_of_mem_split) fun _ => isPart_of_mem_split

/-- The code's comparison is the order by value exactly where the counts of digits fit. -/
theorem versionCompare_eq_iff (v1 v2 : Bytes) : versionCompare v1 v2 = versionOrder v1 v2 ↔ VersionsFit v1 v2 := by
  have hsame {left right : List Part} : partsOrder left right = .eq ↔ left = right :=
    Std.LawfulEqCmp.compare_eq_iff_eq
  have hparts (p1 p2 : Bytes) := (compareParts_eq_iff p1 p2).trans hsame.symm
  rw [versionCompare, versionOrder, VersionsFit]
  simp only [partsOf]
  rw [then_eq_then_iff (hparts _ _), then_eq_then_iff (hparts _ _), compareParts_iff, compareParts_iff, compareParts_iff,
    compareParts_eq_iff, compareParts_eq_iff]

end Lists

section Preorder

/-- A total preorder, as far as three versions tell, and the one of the values. -/
structure PreorderOn (a b c : Bytes) : Prop where
  refl : versionCompare a a = .eq
  swap : versionCompare a b = (versionCompare b a).swap
  trans : versionCompare a b ≠ .gt → versionCompare b c ≠ .gt → versionCompare a c ≠ .gt
  byValue : ∀ v1 ∈ [a, b, c], ∀ v2 ∈ [a, b, c], versionCompare v1 v2 = versionOrder v1 v2

/-- The comparison is a total preorder on the versions whose numbers differ by counts of digits that an `int` can tell. -/
theorem versionCompare_preorder_iff (a b c : Bytes) :
    PreorderOn a b c ↔ ∀ v1 ∈ [a, b, c], ∀ v2 ∈ [a, b, c], VersionsFit v1 v2 := by
  constructor
  · intro h v1 hv1 v2 hv2
    exact (versionCompare_eq_iff v1 v2).mp (h.byValue v1 hv1 v2 hv2)
  · intro h
    have hvalue : ∀ v1 ∈ [a, b, c], ∀ v2 ∈ [a, b, c], versionCompare v1 v2 = versionOrder v1 v2 :=
      fun v1 hv1 v2 hv2 => (versionCompare_eq_iff v1 v2).mpr (h v1 hv1 v2 hv2)
    have ha : a ∈ [a, b, c] := by simp
    have hb : b ∈ [a, b, c] := by simp
    have hc : c ∈ [a, b, c] := by simp
    refine ⟨?_, ?_, ?_, hvalue⟩
    · rw [hvalue a ha a ha]
      exact Std.ReflCmp.compare_self
    · rw [hvalue a ha b hb, hvalue b hb a ha]
      exact Std.OrientedCmp.eq_swap
    · rw [hvalue a ha b hb, hvalue b hb c hc, hvalue a ha c hc]
      simp only [← Ordering.isLE_iff_ne_gt]
      exact Std.TransCmp.isLE_trans

private theorem length_of_mem_split {ver part : Bytes} (h : part ∈ split ver) : part.length ≤ ver.length := by
  induction ver using split.induct with
  | case1 =>
    rw [split] at h
    cases h
  | case2 c cs hc ih =>
    rw [split, if_pos hc] at h
    exact (ih h).trans (Nat.le_succ _)
  | case3 c cs hc hdigit ih =>
    rw [split, if_neg hc, if_pos hdigit, List.mem_cons] at h
    rcases h with rfl | h
    · exact Nat.succ_le_succ (List.takeWhile_prefix _).length_le
    · exact (ih h).trans ((List.length_dropWhile_le _ _).trans (Nat.le_succ _))
  | case4 c cs hc hdigit ih =>
    rw [split, if_neg hc, if_neg hdigit, List.mem_cons] at h
    rcases h with rfl | h
    · exact Nat.succ_le_succ (List.takeWhile_prefix _).length_le
    · exact (ih h).trans ((List.length_dropWhile_le _ _).trans (Nat.le_succ _))

private theorem partsFit_of_short {parts others : List Bytes} (h : ∀ part ∈ parts, part.length < 2 ^ 31)
    (h' : ∀ other ∈ others, other.length < 2 ^ 31) : PartsFit parts others := by
  induction parts generalizing others with
  | nil => trivial
  | cons part parts ih =>
    rcases others with _ | ⟨other, others⟩
    · trivial
    · rw [List.forall_mem_cons] at h h'
      have hsize := sizeDifference_short h.1 h'.1
      refine ⟨fun _ _ => ⟨fun hlt => .inl ?_, fun hgt => .inl ?_⟩, fun _ => ih h.2 h'.2⟩ <;> omega

/-- No count of digits is too much for an `int` in less than two gigabytes. -/
theorem versionsFit_of_short {v1 v2 : Bytes} (h : v1.length < 2 ^ 31) (h' : v2.length < 2 ^ 31) : VersionsFit v1 v2 := by
  have hzero : (utf8 "0").length < 2 ^ 31 := by decide
  have hrelease {rest : Bytes} (h : rest.length < 2 ^ 31) :
      (splitRelease rest).1.length < 2 ^ 31 ∧ (splitRelease rest).2.length < 2 ^ 31 := by
    have htake := (List.takeWhile_prefix (· ≠ dash) (l := rest.reverse)).length_le
    rw [List.length_reverse] at htake
    rw [splitRelease]
    split_ifs
    · rw [List.length_take, List.length_reverse]
      omega
    · exact ⟨h, hzero⟩
  have hevr {ver : Bytes} (h : ver.length < 2 ^ 31) : (evrSplit ver).epoch.length < 2 ^ 31 ∧
      (evrSplit ver).version.length < 2 ^ 31 ∧ (evrSplit ver).release.length < 2 ^ 31 := by
    rw [evrSplit]
    split_ifs
    · have htake := (List.takeWhile_prefix (· ≠ colon) (l := ver)).length_le
      have hdrop := List.length_dropWhile_le (· ≠ colon) ver
      refine ⟨htake.trans_lt h, hrelease ?_⟩
      rw [List.length_tail]
      omega
    · exact ⟨hzero, hrelease h⟩
  have hparts {ver : Bytes} (h : ver.length < 2 ^ 31) : ∀ part ∈ split ver, part.length < 2 ^ 31 :=
    fun part hpart => (length_of_mem_split hpart).trans_lt h
  obtain ⟨hepoch, hversion, hrelease⟩ := hevr h
  obtain ⟨hepoch', hversion', hrelease'⟩ := hevr h'
  exact ⟨partsFit_of_short (hparts hepoch) (hparts hepoch'), fun _ =>
    ⟨partsFit_of_short (hparts hversion) (hparts hversion'), fun _ =>
      partsFit_of_short (hparts hrelease) (hparts hrelease')⟩⟩

theorem versionCompare_numbers {part other : Bytes} (h : part ≠ [] ∧ ∀ c ∈ part, isDigit c = true)
    (h' : other ≠ [] ∧ ∀ c ∈ other, isDigit c = true) : versionCompare part other = compareNumbers part other := by
  have hevr {part : Bytes} (h : ∀ c ∈ part, isDigit c = true) :
      (evrSplit part).epoch = utf8 "0" ∧ (evrSplit part).version = part ∧ (evrSplit part).release = utf8 "0" := by
    have hcolon : colon ∉ part := fun hmem => absurd (h _ hmem) (by decide)
    have hdash : dash ∉ part := fun hmem => absurd (h _ hmem) (by decide)
    simp [evrSplit, splitRelease, hcolon, hdash]
  obtain ⟨hepoch, hversion, hrelease⟩ := hevr h.2
  obtain ⟨hepoch', hversion', hrelease'⟩ := hevr h'.2
  have hself : compareParts (utf8 "0") (utf8 "0") = .eq := by decide +kernel
  rw [versionCompare]
  simp only [hepoch, hversion, hrelease, hepoch', hversion', hrelease', hself, Ordering.eq_then, Ordering.then_eq]
  rw [compareParts, split_number h, split_number h', compareLists, comparePart, startsWithDigit_digits h.2 h.1,
    startsWithDigit_digits h'.2 h'.1, compareLists, Ordering.then_eq]
  rfl

/-- A number with two to the power of 31 digits more is less than the other one, and so is the other. -/
theorem versionCompare_not_oriented :
    versionCompare (List.replicate (2 ^ 31 + 1) 0x31) (utf8 "1") = .lt ∧
      versionCompare (utf8 "1") (List.replicate (2 ^ 31 + 1) 0x31) = .lt := by
  have hne : ∀ {n : Nat}, List.replicate (n + 1) (0x31 : UInt8) ≠ [] := by simp
  have hdigits : ∀ {n : Nat}, ∀ c ∈ List.replicate (n + 1) (0x31 : UInt8), isDigit c = true := by
    intro n c hc
    rw [List.eq_of_mem_replicate hc]
    rfl
  have hstrip : ∀ {n : Nat}, stripZeroes (List.replicate (n + 1) 0x31) = List.replicate (n + 1) 0x31 := by
    intro n
    rw [stripZeroes, List.replicate_succ]
    rfl
  have hone : utf8 "1" = List.replicate (0 + 1) 0x31 := rfl
  have hshort : sizeDifference (2 ^ 31 + 1) (0 + 1) < 0 := by decide
  have hlong : sizeDifference (0 + 1) (2 ^ 31 + 1) < 0 := by decide
  rw [hone]
  constructor
  · rw [versionCompare_numbers ⟨hne, hdigits⟩ ⟨hne, hdigits⟩, compareNumbers, hstrip, hstrip, List.length_replicate,
      List.length_replicate, if_pos hshort]
  · rw [versionCompare_numbers ⟨hne, hdigits⟩ ⟨hne, hdigits⟩, compareNumbers, hstrip, hstrip, List.length_replicate,
      List.length_replicate, if_pos hlong]

end Preorder

end Kompli.PackageInstalled
