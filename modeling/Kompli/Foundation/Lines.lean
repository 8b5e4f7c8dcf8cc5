import Kompli.Foundation.Split
import Kompli.Foundation.Streams

/-! A list as the pieces between separators, and induction on these. -/
namespace Kompli.Foundation

variable {α : Type} [DecidableEq α] {d : α}

/-- A list is one piece, or a piece, a separator and a list. -/
@[elab_as_elim]
theorem lines_induction (d : α) {P : List α → Prop} (last : ∀ line, d ∉ line → P line)
    (cons : ∀ line rest, d ∉ line → P rest → P (line ++ d :: rest)) (xs : List α) : P xs := by
  induction hlength : xs.length using Nat.strong_induction_on generalizing xs with
  | _ length ih =>
    by_cases hmem : d ∈ xs
    · have hcut := cut_append hmem
      have hshorter : (xs.dropWhile (· ≠ d)).tail.length < length := by
        have hlengths := congrArg List.length hcut
        rw [List.length_append, List.length_cons] at hlengths
        omega
      rw [← hcut]
      exact cons _ _ (not_mem_takeWhile xs) (ih _ hshorter _ rfl)
    · exact last xs hmem

theorem splitOn_append_cons {line : List α} (h : d ∉ line) (rest : List α) :
    (line ++ d :: rest).splitOn d = line :: rest.splitOn d := by
  rw [List.splitOn_append_cons_self, List.splitOn_eq_singleton h]
  rfl

theorem not_mem_of_mem_splitOn {line xs : List α} (h : line ∈ xs.splitOn d) : d ∉ line := by
  induction xs using lines_induction d with
  | last xs hxs =>
    rw [List.splitOn_eq_singleton hxs, List.mem_singleton] at h
    rwa [h]
  | cons first rest hfirst ih =>
    rw [splitOn_append_cons hfirst] at h
    rcases List.mem_cons.mp h with rfl | hrest
    · exact hfirst
    · exact ih hrest

/-- What is in a list is a separator or in a piece. -/
theorem mem_iff_splitOn {c : α} {xs : List α} (hc : c ≠ d) : c ∈ xs ↔ ∃ line ∈ xs.splitOn d, c ∈ line := by
  induction xs using lines_induction d with
  | last xs hxs =>
    rw [List.splitOn_eq_singleton hxs]
    simp
  | cons first rest hfirst ih =>
    rw [splitOn_append_cons hfirst, List.mem_append, List.mem_cons, ih]
    simp [hc]

/-- The pieces of a list with a separator at its end. -/
theorem splitOn_concat (xs : List α) : (xs ++ [d]).splitOn d = xs.splitOn d ++ [[]] := by
  rw [List.splitOn_append_cons_self, List.splitOn_nil]

omit [DecidableEq α] in
/-- A separator at the end is before an empty piece. -/
theorem intercalate_closed {ls : List (List α)} (hne : ls ≠ []) :
    [d].intercalate (ls ++ [[]]) = [d].intercalate ls ++ [d] := by
  induction ls with
  | nil => exact absurd rfl hne
  | cons line ls ih =>
    by_cases hls : ls = []
    · subst hls
      simp
    · have hmore : ls ++ [[]] ≠ [] := by simp
      rw [List.cons_append, List.intercalate_cons_of_ne_nil hmore, List.intercalate_cons_of_ne_nil hls, ih hls]
      simp only [List.append_assoc]

/-- The last piece is empty where a separator, or nothing, ends the list. -/
theorem getLast?_splitOn {xs : List α} (hne : xs ≠ []) :
    (xs.splitOn d).getLast? = some [] ↔ xs.getLast? = some d := by
  induction xs using lines_induction d with
  | last xs hxs =>
    rw [List.splitOn_eq_singleton hxs, List.getLast?_singleton, Option.some.injEq]
    exact iff_of_false hne fun h => hxs (List.mem_of_getLast? h)
  | cons line rest hline ih =>
    rw [splitOn_append_cons hline, List.getLast?_append_of_ne_nil _ (List.cons_ne_nil d rest)]
    by_cases hrest : rest = []
    · subst hrest
      simp
    · rw [List.getLast?_cons_of_ne_nil (List.splitOn_ne_nil d rest), List.getLast?_cons_of_ne_nil hrest, ih hrest]

section Tokens

/-- `std::getline` with a delimiter: the text before it and what is left. At the end nothing is read. -/
def token (d : α) : List α → Option (List α × List α)
  | [] => none
  | c :: s => some ((c :: s).takeWhile (· ≠ d), ((c :: s).dropWhile (· ≠ d)).tail)

/-- The token that the last of so many further reads gives, if all of them succeed. -/
def nthToken (d : α) : Nat → List α → Option (List α)
  | 0, s => (token d s).map Prod.fst
  | n + 1, s => (token d s).bind fun read => nthToken d n read.2

@[simp] theorem nthToken_nil (n : Nat) : nthToken d n [] = none := by
  cases n <;> rfl

theorem token_of_not_mem {s : List α} (h : d ∉ s) (hne : s ≠ []) : token d s = some (s, []) := by
  obtain ⟨c, s, rfl⟩ := List.exists_cons_of_ne_nil hne
  have hall : ∀ c' ∈ c :: s, decide (c' ≠ d) = true := by
    intro c' hc'
    rw [decide_eq_true_eq]
    rintro rfl
    exact h hc'
  rw [token, List.takeWhile_eq_self_iff.mpr hall, List.dropWhile_eq_nil_iff.mpr hall, List.tail_nil]

theorem token_cut {line : List α} (h : d ∉ line) (rest : List α) : token d (line ++ d :: rest) = some (line, rest) := by
  have htoken : token d (line ++ d :: rest) =
      some ((line ++ d :: rest).takeWhile (· ≠ d), ((line ++ d :: rest).dropWhile (· ≠ d)).tail) := by
    cases line <;> rfl
  rw [htoken, takeWhile_cut h, dropWhile_cut h, List.tail_cons]

/-- The tokens are the pieces, but for an empty one at the end. -/
theorem nthToken_eq (n : Nat) {s : List α} (hne : s ≠ []) : nthToken d n s =
    if s.getLast? = some d then (s.splitOn d).dropLast[n]? else (s.splitOn d)[n]? := by
  induction s using lines_induction d generalizing n with
  | last s hs =>
    have hlast : s.getLast? ≠ some d := fun h => hs (List.mem_of_getLast? h)
    rw [if_neg hlast, List.splitOn_eq_singleton hs]
    cases n with
    | zero => rw [nthToken, token_of_not_mem hs hne, Option.map_some, List.getElem?_cons_zero]
    | succ n => rw [nthToken, token_of_not_mem hs hne, Option.bind_some, nthToken_nil, List.getElem?_cons_succ,
        List.getElem?_nil]
  | cons line rest hline ih =>
    have hsplit : rest.splitOn d ≠ [] := List.splitOn_ne_nil d rest
    rw [splitOn_append_cons hline, List.dropLast_cons_of_ne_nil hsplit]
    cases n with
    | zero => rw [nthToken, token_cut hline, Option.map_some, List.getElem?_cons_zero, List.getElem?_cons_zero, ite_self]
    | succ n =>
      rw [nthToken, token_cut hline, Option.bind_some, List.getElem?_cons_succ, List.getElem?_cons_succ]
      by_cases hrest : rest = []
      · subst hrest
        simp
      · rw [ih n hrest, List.getLast?_append_of_ne_nil _ (List.cons_ne_nil d rest)]
        obtain ⟨c, rest, rfl⟩ := List.exists_cons_of_ne_nil hrest
        rw [List.getLast?_cons_cons]

end Tokens

section Lines

open Streams

theorem lines_of_not_mem {line : Bytes} (h : newline ∉ line) (hne : line ≠ []) : lines line = [line] := by
  induction line with
  | nil => exact absurd rfl hne
  | cons c line ih =>
    rw [List.mem_cons, not_or] at h
    rw [lines, if_neg (Ne.symm h.1)]
    cases line with
    | nil => rfl
    | cons d line => rw [ih h.2 (List.cons_ne_nil d line)]

/-- A newline ends the last of the pieces before it. -/
theorem lines_append_newline (s t : Bytes) : lines (s ++ newline :: t) = s.splitOn newline ++ lines t := by
  induction s using lines_induction newline with
  | last line hline =>
    rw [lines_append hline, List.splitOn_eq_singleton hline]
    rfl
  | cons line rest hline ih =>
    rw [List.append_assoc, List.cons_append, lines_append hline, ih, splitOn_append_cons hline]
    rfl

/-- Where no newline is missing or at the end, the lines are the pieces. -/
theorem lines_eq_splitOn {s : Bytes} (hne : s ≠ []) (hlast : s.getLast? ≠ some newline) : lines s = s.splitOn newline := by
  induction s using lines_induction newline with
  | last line hline => rw [lines_of_not_mem hline hne, List.splitOn_eq_singleton hline]
  | cons line rest hline ih =>
    have hrest : rest ≠ [] := by
      rintro rfl
      simp at hlast
    have hsame : (line ++ newline :: rest).getLast? = rest.getLast? := by
      rw [List.getLast?_append_of_ne_nil _ (List.cons_ne_nil _ _), List.getLast?_cons_of_ne_nil hrest]
    rw [lines_append hline, splitOn_append_cons hline, ih hrest (hsame ▸ hlast)]

theorem mem_lines {line s : Bytes} : line ∈ lines s → line ∈ s.splitOn newline := by
  induction s using lines_induction newline with
  | last text htext =>
    rw [List.splitOn_eq_singleton htext]
    by_cases hne : text = []
    · rw [hne]
      exact fun h => (nomatch h)
    · rw [lines_of_not_mem htext hne]
      exact id
  | cons first rest hfirst ih =>
    rw [lines_append hfirst, splitOn_append_cons hfirst, List.mem_cons, List.mem_cons]
    exact Or.imp_right ih

theorem mem_lines_of_splitOn {line s : Bytes} (hne : line ≠ []) : line ∈ s.splitOn newline → line ∈ lines s := by
  induction s using lines_induction newline with
  | last text htext =>
    rw [List.splitOn_eq_singleton htext, List.mem_singleton]
    rintro rfl
    rw [lines_of_not_mem htext hne, List.mem_singleton]
  | cons first rest hfirst ih =>
    rw [lines_append hfirst, splitOn_append_cons hfirst, List.mem_cons, List.mem_cons]
    exact Or.imp_right ih

/-- The pieces changed one by one are the lines changed one by one. -/
theorem lines_intercalate_map {f : Bytes → Bytes} (hnil : ∀ line, f line = [] ↔ line = []) (s : Bytes)
    (h : ∀ line ∈ s.splitOn newline, newline ∉ f line) :
    lines ([newline].intercalate ((s.splitOn newline).map f)) = (lines s).map f := by
  induction s using lines_induction newline with
  | last line hline =>
    rw [List.splitOn_eq_singleton hline] at h ⊢
    rw [List.map_singleton, List.intercalate_singleton]
    by_cases hne : line = []
    · rw [hne, (hnil []).mpr rfl]
      rfl
    · rw [lines_of_not_mem hline hne, lines_of_not_mem (h line (List.mem_singleton_self line)) (mt (hnil line).mp hne)]
      rfl
  | cons line rest hline ih =>
    rw [splitOn_append_cons hline, List.forall_mem_cons] at h
    have hrest : (rest.splitOn newline).map f ≠ [] := by simp
    rw [splitOn_append_cons hline, List.map_cons, List.intercalate_cons_of_ne_nil hrest, List.append_assoc,
      List.singleton_append, lines_append h.1, ih h.2, lines_append hline, List.map_cons]

end Lines

end Kompli.Foundation
