import Kompli.Foundation.Decimal
import Kompli.Foundation.Split

/-! Texts of any contents, each after its length, so that a concatenation of them can be taken apart. -/
namespace Kompli.Foundation.Frames

/-- The length in decimal, a colon, and the text. -/
def frame (text : Bytes) : Bytes := utf8 (toString text.length) ++ 0x3A :: text

def frames (texts : List Bytes) : Bytes := texts.flatMap frame

private theorem colon_not_digit (n : Nat) : (0x3A : UInt8) ∉ utf8 (toString n) := by
  intro h
  exact absurd ((Decimal.print_canonical n).digits _ h) (by decide)

/-- The first frame ends where its length says. -/
theorem frame_append_inj {text other rest otherRest : Bytes} (h : frame text ++ rest = frame other ++ otherRest) :
    text = other ∧ rest = otherRest := by
  simp only [frame, List.append_assoc, List.cons_append] at h
  have hdigits : utf8 (toString text.length) = utf8 (toString other.length) := by
    rw [← takeWhile_cut (colon_not_digit text.length) (text ++ rest), h, takeWhile_cut (colon_not_digit other.length)]
  have hlength := Decimal.print_injective hdigits
  rw [hdigits] at h
  exact List.append_inj (List.cons.inj (List.append_cancel_left h)).2 hlength

private theorem frame_ne_nil (text : Bytes) : frame text ≠ [] := by
  simp [frame]

theorem frames_injective : Function.Injective frames := by
  intro texts
  induction texts with
  | nil =>
    intro others h
    cases others with
    | nil => rfl
    | cons other others =>
      exact absurd (List.append_eq_nil_iff.mp h.symm).1 (frame_ne_nil other)
  | cons text texts ih =>
    intro others h
    cases others with
    | nil => exact absurd (List.append_eq_nil_iff.mp h).1 (frame_ne_nil text)
    | cons other others =>
      obtain ⟨rfl, hrest⟩ := frame_append_inj h
      rw [ih hrest]

end Kompli.Foundation.Frames
