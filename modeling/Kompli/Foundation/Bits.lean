import Mathlib.Logic.Basic

/-! Sets of bits as fixed-width words: which bits an operation leaves, and when one word covers another. -/
namespace Kompli.Foundation.Bits

def Bit16 (x : UInt16) (i : Nat) : Prop := x.toBitVec.getLsbD i = true

def Bit32 (x : UInt32) (i : Nat) : Prop := x.toBitVec.getLsbD i = true

section Words

variable (x y : UInt16) (i : Nat)

@[simp] theorem bit16_zero : ¬ Bit16 0 i := by simp [Bit16]

@[simp] theorem bit16_and : Bit16 (x &&& y) i ↔ Bit16 x i ∧ Bit16 y i := by simp [Bit16]

@[simp] theorem bit16_or : Bit16 (x ||| y) i ↔ Bit16 x i ∨ Bit16 y i := by simp [Bit16]

@[simp] theorem bit16_not : Bit16 (~~~x) i ↔ i < 16 ∧ ¬ Bit16 x i := by simp [Bit16]

theorem bit16_lt {x : UInt16} {i : Nat} (h : Bit16 x i) : i < 16 := BitVec.lt_of_getLsbD h

theorem eq_iff_bit16 {x y : UInt16} : x = y ↔ ∀ i, Bit16 x i ↔ Bit16 y i := by
  constructor
  · rintro rfl i
    rfl
  · intro h
    refine UInt16.toBitVec_inj.mp (BitVec.eq_of_getLsbD_eq fun i _ => ?_)
    exact Bool.eq_iff_iff.mpr (h i)

end Words

section DoubleWords

variable (x y : UInt32) (i : Nat)

@[simp] theorem bit32_and : Bit32 (x &&& y) i ↔ Bit32 x i ∧ Bit32 y i := by simp [Bit32]

@[simp] theorem bit32_not : Bit32 (~~~x) i ↔ i < 32 ∧ ¬ Bit32 x i := by simp [Bit32]

theorem bit32_lt {x : UInt32} {i : Nat} (h : Bit32 x i) : i < 32 := BitVec.lt_of_getLsbD h

@[simp] theorem bit16_toUInt16 : Bit16 x.toUInt16 i ↔ i < 16 ∧ Bit32 x i := by simp [Bit16, Bit32]

@[simp] theorem bit32_toUInt32 (x : UInt16) : Bit32 x.toUInt32 i ↔ Bit16 x i := by
  simp only [Bit16, Bit32, UInt16.toBitVec_toUInt32, BitVec.getLsbD_setWidth, Bool.and_eq_true, decide_eq_true_eq]
  refine and_iff_right_of_imp fun h => ?_
  exact Nat.lt_trans (BitVec.lt_of_getLsbD h) (by decide)

theorem eq_zero_iff_bit32 {x : UInt32} : x = 0 ↔ ∀ i, ¬ Bit32 x i := by
  constructor
  · rintro rfl i
    simp [Bit32]
  · intro h
    refine UInt32.toBitVec_inj.mp (BitVec.eq_of_getLsbD_eq fun i _ => ?_)
    simpa [Bit32] using h i

theorem eq_and_self_iff_bit32 {x y : UInt32} : x = y &&& x ↔ ∀ i, Bit32 x i → Bit32 y i := by
  constructor
  · intro h i hx
    rw [h, bit32_and] at hx
    exact hx.1
  · intro h
    refine UInt32.toBitVec_inj.mp (BitVec.eq_of_getLsbD_eq fun i _ => Bool.eq_iff_iff.mpr ?_)
    exact ⟨fun hx => (bit32_and y x i).mpr ⟨h i hx, hx⟩, fun hyx => ((bit32_and y x i).mp hyx).2⟩

end DoubleWords

end Kompli.Foundation.Bits
