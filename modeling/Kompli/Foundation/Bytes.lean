import Std.Data.ExtTreeMap
import Mathlib.Data.List.TakeWhile
import Mathlib.Order.Defs.LinearOrder

/-! Byte strings as `std::string` keeps them, the part of them that a C string
shows, and maps ordered by their keys' bytes. -/
namespace Kompli

abbrev Bytes := List UInt8

instance : LawfulBEq Bytes := inferInstance

/-- A decidable fact about small bytes is checked at each of them. -/
theorem of_toNat_lt {n : Nat} {P : UInt8 → Prop} (h : ∀ i : Fin n, P (UInt8.ofNat i)) {c : UInt8}
    (hc : c.toNat < n) : P c := by
  have hP := h ⟨c.toNat, hc⟩
  rwa [UInt8.ofNat_toNat] at hP

theorem forall_byte {P : UInt8 → Prop} (h : ∀ i : Fin 256, P (UInt8.ofNat i)) (c : UInt8) : P c :=
  of_toNat_lt h c.toNat_lt

/-- A text of the source as its compiler stores it. -/
def utf8 (s : String) : Bytes := s.toList.flatMap String.utf8EncodeChar

/-- A text is the quickest to evaluate as its characters. -/
theorem utf8_ofList (chars : List Char) : utf8 (String.ofList chars) = chars.flatMap String.utf8EncodeChar := by
  rw [utf8, String.toList_ofList]

/-- What a reader of `c_str()` or of a `const char*` sees: the bytes before the first NUL. -/
def cString (b : Bytes) : Bytes := b.takeWhile (· != 0)

def NulFree (b : Bytes) : Prop := 0 ∉ b

instance (b : Bytes) : Decidable (NulFree b) := inferInstanceAs (Decidable (0 ∉ b))

/-- What a `const char*` stands for. -/
abbrev CString := {b : Bytes // NulFree b}

theorem cString_nulFree (b : Bytes) : NulFree (cString b) := by
  intro h
  simpa using List.mem_takeWhile_imp h

theorem cString_of_nulFree {b : Bytes} (h : NulFree b) : cString b = b := by
  refine List.takeWhile_eq_self_iff.mpr fun c hc => ?_
  simp only [bne_iff_ne, ne_eq]
  rintro rfl
  exact h hc

@[simp] theorem cString_cString (b : Bytes) : cString (cString b) = cString b :=
  cString_of_nulFree (cString_nulFree b)

theorem cString_append {a : Bytes} (h : NulFree a) (b : Bytes) : cString (a ++ b) = a ++ cString b := by
  induction a with
  | nil => rfl
  | cons c a ih =>
    have hc : c ≠ 0 := fun hc => h (hc ▸ List.mem_cons_self)
    have ha : NulFree a := fun ha => h (List.mem_cons_of_mem c ha)
    rw [List.cons_append, cString, List.takeWhile_cons_of_pos (by simpa using hc), ← cString, ih ha,
      List.cons_append]

/-- `std::map` keyed by strings: sorted by the keys' unsigned bytes. -/
abbrev ByteMap (β : Type) := Std.ExtTreeMap Bytes β compare

end Kompli
