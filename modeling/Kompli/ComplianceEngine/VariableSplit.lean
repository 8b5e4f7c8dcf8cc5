import Kompli.ComplianceEngine.Procedure
import Kompli.Foundation.Loop
import Kompli.Foundation.Substring

/-! Values split at a delimiter. -/
namespace Kompli.VariableResolution
open Foundation
open Foundation.Loop (Turn run run_total)

section Split

variable (delimiter value : Bytes)

/-- `std::string::find` from a position on. -/
def findFrom (start : Nat) : Option Nat :=
  if value.length < start then none
  else (cutAt delimiter (value.drop start)).map fun (before, _) => start + before.length

structure SplitLoop where
  parts : List Bytes
  start : Nat
  stop : Option Nat

def splitTurn (loop : SplitLoop) : Turn (List Bytes) SplitLoop :=
  match loop.stop with
  | none => .leave (loop.parts ++ [value.drop loop.start])
  | some stop =>
    let start := stop + delimiter.length
    .again { parts := loop.parts ++ [(value.drop loop.start).take (stop - loop.start)]
             start := start
             stop := findFrom delimiter value start }

/-- `Split`. Nothing where a value is not split in as many turns. -/
def split (fuel : Nat) (values : List Bytes) : Option (Except Error (List Bytes)) :=
  if delimiter = [] then some (.error { message := utf8 "Empty variable split delimiter", code := EINVAL })
  else (values.foldlM (fun parts value =>
    run (splitTurn delimiter value) fuel { parts := parts, start := 0, stop := findFrom delimiter value 0 }) []).map .ok

/-- The parts of a value, at every delimiter that is met from left to right. -/
structure PartsOf (parts : List Bytes) : Prop where
  joined : delimiter.intercalate parts = value
  without : ∀ part ∈ parts, ¬ delimiter <:+: part
  count : parts.length = occurrences delimiter value + 1

end Split

section Parts

variable {delimiter value : Bytes}

/-- What the loop has split off before a position, after the parts of other values. -/
structure Splitting (delimiter value : Bytes) (earlier : List Bytes) (loop : SplitLoop) : Prop where
  start_le : loop.start ≤ value.length
  stop_eq : loop.stop = findFrom delimiter value loop.start
  done : ∃ parts, loop.parts = earlier ++ parts ∧
    parts.flatMap (· ++ delimiter) ++ value.drop loop.start = value ∧
    (∀ part ∈ parts, ¬ delimiter <:+: part) ∧
    parts.length + occurrences delimiter (value.drop loop.start) = occurrences delimiter value

theorem intercalate_concat (parts : List Bytes) (last : Bytes) :
    delimiter.intercalate (parts ++ [last]) = parts.flatMap (· ++ delimiter) ++ last := by
  induction parts with
  | nil => exact List.intercalate_singleton
  | cons part parts ih =>
    rw [List.cons_append, List.intercalate_cons_of_ne_nil (by simp), ih, List.flatMap_cons]
    simp only [List.append_assoc]

theorem splitting_again (hdelimiter : delimiter ≠ []) {earlier : List Bytes} {loop next : SplitLoop}
    (h : Splitting delimiter value earlier loop) (hturn : splitTurn delimiter value loop = .again next) :
    Splitting delimiter value earlier next ∧ value.length - next.start < value.length - loop.start := by
  obtain ⟨hstart, hstop, parts, hparts, hjoined, hwithout, hcount⟩ := h
  rw [findFrom, if_neg (Nat.not_lt.mpr hstart)] at hstop
  cases hcut : cutAt delimiter (value.drop loop.start) with
  | none =>
    rw [hcut] at hstop
    rw [splitTurn, hstop] at hturn
    cases hturn
  | some found =>
    obtain ⟨before, after⟩ := found
    rw [hcut] at hstop
    rw [splitTurn, hstop] at hturn
    cases hturn
    have hlength := length_cutAt hcut
    have hpositive := List.length_pos_of_ne_nil hdelimiter
    rw [List.length_drop] at hlength
    have hafter : value.drop (loop.start + before.length + delimiter.length) = after := by
      rw [Nat.add_assoc, ← List.drop_drop, cutAt_some hcut, ← List.append_assoc, ← List.length_append, List.drop_left]
    have hbefore : (value.drop loop.start).take (loop.start + before.length - loop.start) = before := by
      rw [cutAt_some hcut, Nat.add_sub_cancel_left, List.take_left]
    refine ⟨⟨?_, rfl, parts ++ [before], ?_, ?_, ?_, ?_⟩, ?_⟩
    · dsimp only
      omega
    · dsimp only
      rw [hbefore, hparts, List.append_assoc]
    · dsimp only
      rw [hafter, List.flatMap_append, List.flatMap_singleton, List.append_assoc, List.append_assoc, ← cutAt_some hcut, hjoined]
    · intro part hpart
      rcases List.mem_append.mp hpart with hpart | hpart
      · exact hwithout part hpart
      · rw [List.mem_singleton.mp hpart]
        exact not_infix_before hdelimiter hcut
    · dsimp only
      rw [hafter, List.length_append, List.length_singleton, ← hcount, occurrences_cutAt hdelimiter hcut]
      omega
    · dsimp only
      omega

theorem splitting_leave {earlier result : List Bytes} {loop : SplitLoop}
    (h : Splitting delimiter value earlier loop) (hturn : splitTurn delimiter value loop = .leave result) :
    ∃ parts, result = earlier ++ parts ∧ PartsOf delimiter value parts := by
  obtain ⟨hstart, hstop, parts, hparts, hjoined, hwithout, hcount⟩ := h
  rw [findFrom, if_neg (Nat.not_lt.mpr hstart)] at hstop
  cases hcut : cutAt delimiter (value.drop loop.start) with
  | some found =>
    rw [hcut] at hstop
    rw [splitTurn, hstop] at hturn
    cases hturn
  | none =>
    rw [hcut] at hstop
    rw [splitTurn, hstop] at hturn
    cases hturn
    rw [occurrences_of_none hcut, Nat.add_zero] at hcount
    refine ⟨parts ++ [value.drop loop.start], by rw [hparts, List.append_assoc], ?_, ?_, ?_⟩
    · rw [intercalate_concat, hjoined]
    · intro part hpart
      rcases List.mem_append.mp hpart with hpart | hpart
      · exact hwithout part hpart
      · rw [List.mem_singleton.mp hpart]
        exact cutAt_eq_none_iff.mp hcut
    · rw [List.length_append, List.length_singleton, hcount]

/-- One value is split in no more turns than it is long. -/
theorem splitValue_spec (hdelimiter : delimiter ≠ []) {fuel : Nat} (hfuel : value.length < fuel) (earlier : List Bytes) :
    ∃ parts, run (splitTurn delimiter value) fuel
        { parts := earlier, start := 0, stop := findFrom delimiter value 0 } = some (earlier ++ parts) ∧
      PartsOf delimiter value parts := by
  have hfirst : Splitting delimiter value earlier { parts := earlier, start := 0, stop := findFrom delimiter value 0 } :=
    ⟨Nat.zero_le _, rfl, [], (List.append_nil _).symm, rfl, nofun, Nat.zero_add _⟩
  obtain ⟨result, hrun, parts, rfl, hparts⟩ := run_total (Splitting delimiter value earlier) _
    (fun loop => value.length - loop.start) (fun _ _ h hturn => splitting_again hdelimiter h hturn)
    (fun _ _ h hturn => splitting_leave h hturn) hfirst (by simpa using hfuel)
  exact ⟨parts, hrun, hparts⟩

/-- The parts of all values in their order, and those of each value as they are in it. -/
theorem split_parts (hdelimiter : delimiter ≠ []) {values : List Bytes} {fuel : Nat}
    (hfuel : ∀ value ∈ values, value.length < fuel) : ∃ pieces : List (List Bytes),
      split delimiter fuel values = some (.ok pieces.flatten) ∧ List.Forall₂ (PartsOf delimiter) values pieces := by
  rw [split, if_neg hdelimiter]
  suffices h : ∀ earlier, ∃ pieces : List (List Bytes), values.foldlM (fun parts value => run (splitTurn delimiter value) fuel
      { parts := parts, start := 0, stop := findFrom delimiter value 0 }) earlier = some (earlier ++ pieces.flatten) ∧
        List.Forall₂ (PartsOf delimiter) values pieces by
    obtain ⟨pieces, hfold, hpieces⟩ := h []
    exact ⟨pieces, by rw [hfold]; rfl, hpieces⟩
  induction values with
  | nil => exact fun earlier => ⟨[], by simp, .nil⟩
  | cons value values ih =>
    intro earlier
    obtain ⟨parts, hrun, hparts⟩ := splitValue_spec hdelimiter (hfuel value List.mem_cons_self) earlier
    obtain ⟨pieces, hfold, hpieces⟩ := ih (fun other hother => hfuel other (List.mem_cons_of_mem value hother)) (earlier ++ parts)
    refine ⟨parts :: pieces, ?_, .cons hparts hpieces⟩
    rw [List.foldlM_cons, hrun, List.flatten_cons, ← List.append_assoc]
    exact hfold

/-- A delimiter that overlaps itself is met once in three of its letters. -/
theorem split_parts_overlap : ∃ pieces : List (List Bytes),
    split (utf8 "aa") 10 [utf8 "aaa", utf8 "b"] = some (.ok pieces.flatten) ∧
      List.Forall₂ (PartsOf (utf8 "aa")) [utf8 "aaa", utf8 "b"] pieces :=
  split_parts (by decide) (by decide)

end Parts
end Kompli.VariableResolution
