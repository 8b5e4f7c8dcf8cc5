import Kompli.Foundation.Bytes
import Mathlib.Data.List.Basic
import Mathlib.Tactic.IntervalCases
import Mathlib.Tactic.Ring

/-! Decimals of any length as texts: what number one is, when the text of a number is unique,
and how two of them compare. -/
namespace Kompli.Foundation.Decimal

/-- Digits only. -/
def Digits (text : Bytes) : Prop := ∀ c ∈ text, 0x30 ≤ c ∧ c ≤ 0x39

/-- One digit more at the end of a number. -/
def push (number : Nat) (digit : UInt8) : Nat := 10 * number + (digit.toNat - 0x30)

def value (text : Bytes) : Nat := text.foldl push 0

/-- No zeros before the first digit that counts. -/
structure Canonical (text : Bytes) : Prop where
  digits : Digits text
  ne_nil : text ≠ []
  leading : text.length = 1 ∨ text.head? ≠ some 0x30

theorem digits_cons {c : UInt8} {text : Bytes} : Digits (c :: text) ↔ (0x30 ≤ c ∧ c ≤ 0x39) ∧ Digits text := by
  simp [Digits]

theorem digits_append {text rest : Bytes} : Digits (text ++ rest) ↔ Digits text ∧ Digits rest := by
  simp only [Digits, List.mem_append]
  exact ⟨fun h => ⟨fun c hc => h c (.inl hc), fun c hc => h c (.inr hc)⟩, fun h c hc => hc.elim (h.1 c) (h.2 c)⟩

private theorem digit_bounds {c : UInt8} (h : 0x30 ≤ c ∧ c ≤ 0x39) : 0x30 ≤ c.toNat ∧ c.toNat ≤ 0x39 :=
  ⟨UInt8.le_iff_toNat_le.mp h.1, UInt8.le_iff_toNat_le.mp h.2⟩

section Order

private theorem compare_byte (c d : UInt8) : compare c d = compare c.toNat d.toNat := by
  simp only [compare, compareOfLessAndEq, UInt8.lt_iff_toNat_lt, ← UInt8.toNat_inj]

private theorem compare_push (m n : Nat) {c d : UInt8} (hc : 0x30 ≤ c ∧ c ≤ 0x39) (hd : 0x30 ≤ d ∧ d ≤ 0x39) :
    compare (push m c) (push n d) = (compare m n).then (compare c d) := by
  have hc' := digit_bounds hc
  have hd' := digit_bounds hd
  rw [push, push, compare_byte]
  rcases lt_trichotomy m n with h | rfl | h
  · rw [compare_lt_iff_lt.mpr h, compare_lt_iff_lt.mpr (by omega)]
    rfl
  · rw [compare_eq_iff_eq.mpr (rfl : m = m)]
    simp only [Nat.compare_eq_ite_lt, Ordering.then]
    split_ifs <;> first | rfl | omega
  · rw [compare_gt_iff_gt.mpr h, compare_gt_iff_gt.mpr (by omega)]
    rfl

private theorem compare_foldl {left right : Bytes} (hleft : Digits left) (hright : Digits right)
    (hlength : left.length = right.length) (m n : Nat) :
    compare (left.foldl push m) (right.foldl push n) = (compare m n).then (compare left right) := by
  induction left generalizing right m n with
  | nil =>
    obtain rfl : right = [] := List.eq_nil_of_length_eq_zero hlength.symm
    rw [List.compare_nil_nil, Ordering.then_eq]
    rfl
  | cons c left ih =>
    rcases right with _ | ⟨d, right⟩
    · exact absurd hlength (by simp)
    · rw [digits_cons] at hleft hright
      rw [List.foldl_cons, List.foldl_cons, ih hleft.2 hright.2 (by simpa using hlength),
        compare_push m n hleft.1 hright.1, List.compare_cons_cons, Ordering.then_assoc]

/-- Among decimals of one length the numbers are ordered as the texts are. -/
theorem compare_value {left right : Bytes} (hleft : Digits left) (hright : Digits right)
    (hlength : left.length = right.length) : compare (value left) (value right) = compare left right := by
  rw [value, value, compare_foldl hleft hright hlength, compare_eq_iff_eq.mpr (rfl : (0 : Nat) = 0)]
  rfl

private theorem foldl_bounds {text : Bytes} (h : Digits text) (n : Nat) :
    n * 10 ^ text.length ≤ text.foldl push n ∧ text.foldl push n < (n + 1) * 10 ^ text.length := by
  induction text generalizing n with
  | nil => simp
  | cons c text ih =>
    rw [digits_cons] at h
    have hc := digit_bounds h.1
    have hpush : push n c = 10 * n + (c.toNat - 0x30) := rfl
    obtain ⟨hlow, hhigh⟩ := ih h.2 (push n c)
    rw [List.foldl_cons, List.length_cons, pow_succ]
    constructor
    · calc n * (10 ^ text.length * 10) = 10 * n * 10 ^ text.length := by ring
        _ ≤ push n c * 10 ^ text.length := Nat.mul_le_mul_right _ (by omega)
        _ ≤ _ := hlow
    · calc text.foldl push (push n c) < (push n c + 1) * 10 ^ text.length := hhigh
        _ ≤ (10 * (n + 1)) * 10 ^ text.length := Nat.mul_le_mul_right _ (by omega)
        _ = (n + 1) * (10 ^ text.length * 10) := by ring

theorem value_lt {text : Bytes} (h : Digits text) : value text < 10 ^ text.length := by
  simpa [value] using (foldl_bounds h 0).2

private theorem le_value {c : UInt8} {text : Bytes} (h : Digits (c :: text)) (hc : c ≠ 0x30) :
    10 ^ text.length ≤ value (c :: text) := by
  rw [digits_cons] at h
  have hpos : 1 ≤ push 0 c := by
    have hbounds := digit_bounds h.1
    have hne : c.toNat ≠ 0x30 := fun hn => hc (UInt8.toNat_inj.mp hn)
    simp only [push]
    omega
  calc 10 ^ text.length = 1 * 10 ^ text.length := (one_mul _).symm
    _ ≤ push 0 c * 10 ^ text.length := Nat.mul_le_mul_right _ hpos
    _ ≤ _ := (foldl_bounds h.2 _).1

/-- Without leading zeros the shorter is the smaller. -/
theorem value_lt_of_length_lt {left right : Bytes} (hleft : Canonical left) (hright : Canonical right)
    (h : left.length < right.length) : value left < value right := by
  rcases right with _ | ⟨c, right⟩
  · exact absurd h (by simp)
  · have hpos := List.length_pos_iff.mpr hleft.ne_nil
    have hc : c ≠ 0x30 := by
      have hleading := hright.leading
      simp only [List.length_cons, List.head?_cons, ne_eq, Option.some.injEq] at h hleading
      rcases hleading with hone | hne
      · omega
      · exact hne
    calc value left < 10 ^ left.length := value_lt hleft.digits
      _ ≤ 10 ^ right.length := Nat.pow_le_pow_right (by omega) (by simp only [List.length_cons] at h; omega)
      _ ≤ _ := le_value hright.digits hc

/-- Of two decimals without leading zeros the longer is the greater. -/
theorem compare_canonical {left right : Bytes} (hleft : Canonical left) (hright : Canonical right) :
    (compare left.length right.length).then (compare left right) = compare (value left) (value right) := by
  rcases lt_trichotomy left.length right.length with h | h | h
  · rw [compare_lt_iff_lt.mpr h, compare_lt_iff_lt.mpr (value_lt_of_length_lt hleft hright h)]
    rfl
  · rw [compare_eq_iff_eq.mpr h, compare_value hleft.digits hright.digits h]
    rfl
  · rw [compare_gt_iff_gt.mpr h, compare_gt_iff_gt.mpr (value_lt_of_length_lt hright hleft h)]
    rfl

theorem value_injective {left right : Bytes} (hleft : Canonical left) (hright : Canonical right)
    (h : value left = value right) : left = right := by
  have hcompare := compare_canonical hleft hright
  rw [compare_eq_iff_eq.mpr h, Ordering.then_eq_eq] at hcompare
  exact Std.LawfulEqOrd.compare_eq_iff_eq.mp hcompare.2

end Order

section Print

private theorem utf8_digit {d : Nat} (h : d < 10) : String.utf8EncodeChar d.digitChar = [UInt8.ofNat (0x30 + d)] := by
  interval_cases d <;> rfl

private theorem print_of_lt {n : Nat} (h : n < 10) : utf8 (toString n) = [UInt8.ofNat (0x30 + n)] := by
  rw [utf8, Nat.toString_eq_repr, Nat.toList_repr, Nat.toDigits_of_lt_base h, List.flatMap_singleton, utf8_digit h]

private theorem print_of_ge {n : Nat} (h : 10 ≤ n) :
    utf8 (toString n) = utf8 (toString (n / 10)) ++ [UInt8.ofNat (0x30 + n % 10)] := by
  rw [utf8, Nat.toString_eq_repr, Nat.toList_repr, Nat.toDigits_of_base_le (by omega) h, List.flatMap_append,
    List.flatMap_singleton, utf8_digit (Nat.mod_lt n (by omega)), ← Nat.toList_repr, ← Nat.toString_eq_repr]
  rfl

private theorem push_digit (m : Nat) {d : Nat} (h : d < 10) : push m (UInt8.ofNat (0x30 + d)) = 10 * m + d := by
  rw [push, UInt8.toNat_ofNat_of_lt' (by show _ < 256; omega)]
  omega

private theorem digits_digit {d : Nat} (h : d < 10) : Digits [UInt8.ofNat (0x30 + d)] := by
  interval_cases d <;> simp [Digits]

/-- A number is printed without leading zeros, so that it is read back. -/
theorem print (n : Nat) : Canonical (utf8 (toString n)) ∧ value (utf8 (toString n)) = n ∧
    (n ≠ 0 → (utf8 (toString n)).head? ≠ some 0x30) := by
  induction n using Nat.strong_induction_on with
  | h n ih =>
    rcases Nat.lt_or_ge n 10 with h | h
    · rw [print_of_lt h]
      refine ⟨⟨digits_digit h, by simp, .inl rfl⟩, by rw [value, List.foldl_cons, push_digit 0 h]; simp, ?_⟩
      interval_cases n <;> decide
    · obtain ⟨hcanonical, hvalue, hhead⟩ := ih (n / 10) (by omega)
      have hmod := Nat.mod_lt n (show 10 > 0 by omega)
      have hne : (utf8 (toString (n / 10)) ++ [UInt8.ofNat (0x30 + n % 10)]).head? ≠ some 0x30 := by
        rw [List.head?_append_of_ne_nil _ hcanonical.ne_nil]
        exact hhead (by omega)
      rw [print_of_ge h]
      refine ⟨⟨digits_append.mpr ⟨hcanonical.digits, digits_digit hmod⟩, by simp, .inr hne⟩, ?_, fun _ => hne⟩
      rw [value, List.foldl_append, List.foldl_cons, List.foldl_nil, ← value, hvalue, push_digit _ hmod]
      omega

theorem print_canonical (n : Nat) : Canonical (utf8 (toString n)) := (print n).1

theorem value_print (n : Nat) : value (utf8 (toString n)) = n := (print n).2.1

/-- The text of a number is its canonical decimal. -/
theorem print_value {text : Bytes} (h : Canonical text) : utf8 (toString (value text)) = text :=
  value_injective (print_canonical _) h (value_print _)

theorem print_injective {m n : Nat} (h : utf8 (toString m) = utf8 (toString n)) : m = n := by
  rw [← value_print m, h, value_print]

end Print

end Kompli.Foundation.Decimal
