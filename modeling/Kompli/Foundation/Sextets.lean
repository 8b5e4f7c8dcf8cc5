import Kompli.Foundation.Bytes
import Mathlib.Tactic.IntervalCases

/-! Three bytes as four numbers of six bits, and the base64 text that writes them. -/
namespace Kompli.Foundation

namespace Sextets

abbrev IsSextet (v : UInt8) : Prop := v < 64

section Split

/-- The four sextets of three bytes. -/
def first (a : UInt8) : UInt8 := a >>> 2
def second (a b : UInt8) : UInt8 := (a &&& 0x03) <<< 4 ||| b >>> 4
def third (b c : UInt8) : UInt8 := (b &&& 0x0F) <<< 2 ||| c >>> 6
def fourth (c : UInt8) : UInt8 := c &&& 0x3F

/-- The three bytes of four sextets. -/
def byte₀ (x y : UInt8) : UInt8 := x <<< 2 ||| y >>> 4
def byte₁ (y z : UInt8) : UInt8 := (y &&& 0x0F) <<< 4 ||| z >>> 2
def byte₂ (z w : UInt8) : UInt8 := (z &&& 0x03) <<< 6 ||| w

private theorem high_bits {v : UInt8} (h : IsSextet v) : v.toBitVec[6] = false ∧ v.toBitVec[7] = false := by
  have hmod : v.toNat < 64 := UInt8.lt_iff_toNat_lt.mp h
  simp only [BitVec.getElem_eq_testBit_toNat, UInt8.toNat_toBitVec]
  exact ⟨Nat.testBit_lt_two_pow (by omega), Nat.testBit_lt_two_pow (by omega)⟩

theorem byte₀_split (a b : UInt8) : byte₀ (first a) (second a b) = a := by
  apply UInt8.toBitVec_inj.mp
  ext i hi
  interval_cases i <;> simp [byte₀, first, second]

theorem byte₁_split (a b c : UInt8) : byte₁ (second a b) (third b c) = b := by
  apply UInt8.toBitVec_inj.mp
  ext i hi
  interval_cases i <;> simp [byte₁, second, third]

theorem byte₂_split (b c : UInt8) : byte₂ (third b c) (fourth c) = c := by
  apply UInt8.toBitVec_inj.mp
  ext i hi
  interval_cases i <;> simp [byte₂, third, fourth]

theorem first_join {x y : UInt8} (hx : IsSextet x) (hy : IsSextet y) : first (byte₀ x y) = x := by
  obtain ⟨hx₆, hx₇⟩ := high_bits hx
  obtain ⟨hy₆, hy₇⟩ := high_bits hy
  apply UInt8.toBitVec_inj.mp
  ext i hi
  interval_cases i <;> simp [first, byte₀, hx₆, hx₇, hy₆, hy₇]

theorem second_join {x y z : UInt8} (hy : IsSextet y) (hz : IsSextet z) :
    second (byte₀ x y) (byte₁ y z) = y := by
  obtain ⟨hy₆, hy₇⟩ := high_bits hy
  obtain ⟨hz₆, hz₇⟩ := high_bits hz
  apply UInt8.toBitVec_inj.mp
  ext i hi
  interval_cases i <;> simp [second, byte₀, byte₁, hy₆, hy₇, hz₆, hz₇]

theorem third_join {y z w : UInt8} (hz : IsSextet z) (hw : IsSextet w) : third (byte₁ y z) (byte₂ z w) = z := by
  obtain ⟨hz₆, hz₇⟩ := high_bits hz
  obtain ⟨hw₆, hw₇⟩ := high_bits hw
  apply UInt8.toBitVec_inj.mp
  ext i hi
  interval_cases i <;> simp [third, byte₁, byte₂, hz₆, hz₇, hw₆, hw₇]

theorem fourth_join {z w : UInt8} (hw : IsSextet w) : fourth (byte₂ z w) = w := by
  obtain ⟨hw₆, hw₇⟩ := high_bits hw
  apply UInt8.toBitVec_inj.mp
  ext i hi
  interval_cases i <;> simp [fourth, byte₂, hw₆, hw₇]

private theorem sextet_cases {P : UInt8 → Prop} (h : ∀ i : Fin 64, P (UInt8.ofNat i)) {v : UInt8} (hv : IsSextet v) :
    P v := by
  have hP := h ⟨v.toNat, UInt8.lt_iff_toNat_lt.mp hv⟩
  rwa [UInt8.ofNat_toNat] at hP

/-- A group that ends with its second sextet leaves four bits over. -/
theorem second_last_iff {x y : UInt8} (hy : IsSextet y) : second (byte₀ x y) 0 = y ↔ y &&& 0x0F = 0 := by
  have hlast : second (byte₀ x y) 0 = y &&& 0x30 := by
    obtain ⟨hy₆, hy₇⟩ := high_bits hy
    apply UInt8.toBitVec_inj.mp
    ext i hi
    interval_cases i <;> simp [second, byte₀, hy₆, hy₇]
  rw [hlast]
  exact sextet_cases (P := fun y => y &&& 0x30 = y ↔ y &&& 0x0F = 0) (by decide) hy

/-- A group that ends with its third sextet leaves two bits over. -/
theorem third_last_iff {y z : UInt8} (hz : IsSextet z) : third (byte₁ y z) 0 = z ↔ z &&& 0x03 = 0 := by
  have hlast : third (byte₁ y z) 0 = z &&& 0x3C := by
    obtain ⟨hz₆, hz₇⟩ := high_bits hz
    apply UInt8.toBitVec_inj.mp
    ext i hi
    interval_cases i <;> simp [third, byte₁, hz₆, hz₇]
  rw [hlast]
  exact sextet_cases (P := fun z => z &&& 0x3C = z ↔ z &&& 0x03 = 0) (by decide) hz

private theorem isSextet_of_mask {v : UInt8} (h : v &&& 0xC0 = 0) : IsSextet v := by
  have hall : ∀ i : Fin 256, UInt8.ofNat i &&& 0xC0 = 0 → IsSextet (UInt8.ofNat i) := by decide +kernel
  have hv := hall ⟨v.toNat, v.toNat_lt⟩
  rw [UInt8.ofNat_toNat] at hv
  exact hv h

theorem first_isSextet (a : UInt8) : IsSextet (first a) := by
  apply isSextet_of_mask
  apply UInt8.toBitVec_inj.mp
  ext i hi
  interval_cases i <;> simp [first]

theorem second_isSextet (a b : UInt8) : IsSextet (second a b) := by
  apply isSextet_of_mask
  apply UInt8.toBitVec_inj.mp
  ext i hi
  interval_cases i <;> simp [second]

theorem third_isSextet (b c : UInt8) : IsSextet (third b c) := by
  apply isSextet_of_mask
  apply UInt8.toBitVec_inj.mp
  ext i hi
  interval_cases i <;> simp [third]

theorem fourth_isSextet (c : UInt8) : IsSextet (fourth c) := by
  apply isSextet_of_mask
  apply UInt8.toBitVec_inj.mp
  ext i hi
  interval_cases i <;> simp [fourth]

end Split

section Text

/-- The character of a sextet. -/
def char (v : UInt8) : UInt8 :=
  if v < 26 then v + 0x41
  else if v < 52 then v - 26 + 0x61
  else if v < 62 then v - 52 + 0x30
  else if v = 62 then 0x2B
  else 0x2F

/-- The standard base64 text of bytes, padded to whole groups of four. -/
def encode : Bytes → Bytes
  | a :: b :: c :: rest =>
    char (first a) :: char (second a b) :: char (third b c) :: char (fourth c) :: encode rest
  | [a, b] => [char (first a), char (second a b), char (third b 0), 0x3D]
  | [a] => [char (first a), char (second a 0), 0x3D, 0x3D]
  | [] => []

theorem encode_length (bytes : Bytes) : (encode bytes).length % 4 = 0 := by
  induction bytes using encode.induct with
  | case1 a b c rest ih =>
    simp only [encode, List.length_cons]
    omega
  | case2 a b => simp [encode]
  | case3 a => simp [encode]
  | case4 => simp [encode]

end Text

end Sextets

end Kompli.Foundation
