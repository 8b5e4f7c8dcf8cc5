import Kompli.Foundation.Bytes
import Mathlib.Data.List.Infix
import Mathlib.Tactic.SplitIfs

/-! The first place where a pattern is found in a list. -/
namespace Kompli.Foundation

variable {α : Type} [DecidableEq α]

/-- `std::string::find`: what is before and after the first place where the pattern is found. -/
def cutAt (pattern : List α) : List α → Option (List α × List α)
  | [] => if pattern = [] then some ([], []) else none
  | c :: cs =>
    if pattern.isPrefixOf (c :: cs) then some ([], (c :: cs).drop pattern.length)
    else (cutAt pattern cs).map fun (before, after) => (c :: before, after)

variable {pattern before after s : List α}

theorem cutAt_cons {c : α} (h : ¬ pattern <+: c :: s) :
    cutAt pattern (c :: s) = (cutAt pattern s).map fun (before, after) => (c :: before, after) := by
  rw [cutAt, if_neg (mt List.isPrefixOf_iff_prefix.mp h)]

/-- The pattern is where the list is cut. -/
theorem cutAt_some (h : cutAt pattern s = some (before, after)) : s = before ++ (pattern ++ after) := by
  induction s generalizing before with
  | nil =>
    rw [cutAt] at h
    split_ifs at h with hpattern
    cases h
    simp [hpattern]
  | cons c s ih =>
    rw [cutAt] at h
    split_ifs at h with hstarts
    · cases h
      obtain ⟨rest, hrest⟩ := List.isPrefixOf_iff_prefix.mp hstarts
      rw [← hrest, List.drop_left]
      rfl
    · obtain ⟨⟨before', after'⟩, hcut, heq⟩ := Option.map_eq_some_iff.mp h
      cases heq
      rw [List.cons_append, ← ih hcut]

theorem length_cutAt (h : cutAt pattern s = some (before, after)) :
    before.length + pattern.length + after.length = s.length := by
  have hlength := congrArg List.length (cutAt_some h)
  rw [List.length_append, List.length_append] at hlength
  omega

/-- It is not in the list before that. -/
theorem cutAt_first (h : cutAt pattern s = some (before, after)) {front back : List α}
    (hs : s = front ++ (pattern ++ back)) : before.length ≤ front.length := by
  induction s generalizing before front with
  | nil =>
    obtain ⟨rfl, -⟩ := List.append_eq_nil_iff.mp (cutAt_some h).symm
    exact Nat.zero_le _
  | cons c s ih =>
    rw [cutAt] at h
    split_ifs at h with hstarts
    · cases h
      exact Nat.zero_le _
    · obtain ⟨⟨before', after'⟩, hcut, heq⟩ := Option.map_eq_some_iff.mp h
      cases heq
      cases front with
      | nil => exact absurd (List.isPrefixOf_iff_prefix.mpr ⟨back, hs.symm⟩) hstarts
      | cons d front => exact Nat.succ_le_succ (ih hcut (List.cons.inj hs).2)

theorem cutAt_eq_none_iff : cutAt pattern s = none ↔ ¬ pattern <:+: s := by
  induction s with
  | nil =>
    rw [cutAt, List.infix_nil]
    split_ifs with hpattern
    · simp [hpattern]
    · simp [hpattern]
  | cons c s ih =>
    rw [List.infix_cons_iff, not_or, ← ih]
    by_cases hstarts : pattern <+: c :: s
    · rw [cutAt, if_pos (List.isPrefixOf_iff_prefix.mpr hstarts)]
      simp [hstarts]
    · rw [cutAt_cons hstarts, Option.map_eq_none_iff]
      exact ⟨fun h => ⟨hstarts, h⟩, And.right⟩

theorem cutAt_prefix (pattern s : List α) : cutAt pattern (pattern ++ s) = some ([], s) := by
  cases hlist : pattern ++ s with
  | nil =>
    obtain ⟨rfl, rfl⟩ := List.append_eq_nil_iff.mp hlist
    rfl
  | cons c cs =>
    rw [cutAt, ← hlist, if_pos (List.isPrefixOf_iff_prefix.mpr (List.prefix_append _ _)), List.drop_left]

/-- A part that the pattern does not start in is passed over. -/
theorem cutAt_append {skipped : List α} (h : ∀ u v, skipped = u ++ v → v ≠ [] → ¬ pattern <+: v ++ s) :
    cutAt pattern (skipped ++ s) = (cutAt pattern s).map fun (before, after) => (skipped ++ before, after) := by
  induction skipped with
  | nil => simp
  | cons c skipped ih =>
    have htail : ∀ u v, skipped = u ++ v → v ≠ [] → ¬ pattern <+: v ++ s := by
      rintro u v rfl hv
      exact h (c :: u) v rfl hv
    have hstart : ¬ pattern <+: c :: (skipped ++ s) := h [] (c :: skipped) rfl (List.cons_ne_nil c skipped)
    rw [List.cons_append, cutAt_cons hstart, ih htail, Option.map_map]
    rfl

/-- A part without the pattern's first element is passed over. -/
theorem cutAt_append_of_not_mem {c : α} {skipped : List α} (h : c ∉ skipped) (s : List α) :
    cutAt (c :: pattern) (skipped ++ s) =
      (cutAt (c :: pattern) s).map fun (before, after) => (skipped ++ before, after) := by
  apply cutAt_append
  rintro u v rfl hv hstarts
  cases v with
  | nil => exact hv rfl
  | cons d v =>
    rw [List.cons_append, List.cons_prefix_cons] at hstarts
    rw [hstarts.1] at h
    exact h (List.mem_append_right u List.mem_cons_self)

omit [DecidableEq α] in
/-- An element that is not in the pattern does not end a place where it is found. -/
theorem infix_of_infix_concat {d : α} (hd : d ∉ pattern) (h : pattern <:+: s ++ [d]) : pattern <:+: s := by
  obtain ⟨before, after, heq⟩ := h
  cases after using List.reverseRecOn with
  | nil =>
    cases pattern using List.reverseRecOn with
    | nil => exact List.nil_infix
    | append_singleton pattern c =>
      rw [List.append_nil, ← List.append_assoc] at heq
      obtain ⟨-, hc⟩ := List.append_inj' heq rfl
      exact absurd (List.mem_append_right pattern (List.mem_singleton.mpr (List.singleton_inj.mp hc).symm)) hd
  | append_singleton after c =>
    rw [← List.append_assoc] at heq
    obtain ⟨hs, -⟩ := List.append_inj' heq rfl
    exact ⟨before, after, hs⟩

/-- How often the pattern is met from left to right, no two places overlapping; first some elements are passed over. -/
def occurrencesAfter (pattern : List α) : Nat → List α → Nat
  | _, [] => 0
  | skipped + 1, _ :: cs => occurrencesAfter pattern skipped cs
  | 0, c :: cs =>
    if pattern.isPrefixOf (c :: cs) then occurrencesAfter pattern (pattern.length - 1) cs + 1
    else occurrencesAfter pattern 0 cs

def occurrences (pattern s : List α) : Nat := occurrencesAfter pattern 0 s

theorem occurrencesAfter_eq (pattern : List α) (skipped : Nat) (s : List α) :
    occurrencesAfter pattern skipped s = occurrences pattern (s.drop skipped) := by
  induction skipped generalizing s with
  | zero => rfl
  | succ skipped ih =>
    cases s with
    | nil => rfl
    | cons c s => exact ih s

/-- The first place is one of them, and the others are after it. -/
theorem occurrences_cutAt (hpattern : pattern ≠ []) (h : cutAt pattern s = some (before, after)) :
    occurrences pattern s = occurrences pattern after + 1 := by
  induction s generalizing before with
  | nil =>
    rw [cutAt, if_neg hpattern] at h
    cases h
  | cons c s ih =>
    rw [cutAt] at h
    rw [occurrences, occurrencesAfter]
    split_ifs at h ⊢ with hstarts
    · cases h
      have hlength := Nat.succ_pred_eq_of_pos (List.length_pos_of_ne_nil hpattern)
      rw [occurrencesAfter_eq, ← hlength]
      rfl
    · obtain ⟨⟨before', after'⟩, hcut, heq⟩ := Option.map_eq_some_iff.mp h
      cases heq
      exact ih hcut

theorem occurrences_of_none (h : cutAt pattern s = none) : occurrences pattern s = 0 := by
  induction s with
  | nil => rfl
  | cons c s ih =>
    rw [cutAt] at h
    rw [occurrences, occurrencesAfter]
    split_ifs at h ⊢
    exact ih (Option.map_eq_none_iff.mp h)

theorem not_infix_before (hpattern : pattern ≠ []) (h : cutAt pattern s = some (before, after)) : ¬ pattern <:+: before := by
  rintro ⟨front, back, rfl⟩
  have hs := cutAt_some h
  rw [List.append_assoc, List.append_assoc] at hs
  have hfirst := cutAt_first h hs
  have hlength := List.length_pos_of_ne_nil hpattern
  simp only [List.length_append] at hfirst
  omega

end Kompli.Foundation
