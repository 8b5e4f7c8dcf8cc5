import Mathlib.Data.List.TakeWhile

/-! Regular expressions with assertions about what is around a match: what they match, a matcher, and rules for both. -/
namespace Kompli.Foundation

inductive Regex (α : Type) where
  | empty
  | char (p : α → Bool)
  | seq (first second : Regex α)
  | alt (left right : Regex α)
  | star (body : Regex α)
  /-- Nothing is before. -/
  | start
  /-- Nothing is after. -/
  | stop
  /-- On one side only there is a part of a word. -/
  | boundary (word : α → Bool)

namespace Regex

variable {α : Type}

def plus (r : Regex α) : Regex α := seq r (star r)

def optional (r : Regex α) : Regex α := alt r empty

/-- So many times or fewer. -/
def atMost (r : Regex α) : Nat → Regex α
  | 0 => empty
  | n + 1 => optional (seq r (atMost r n))

/-- One after the other. -/
def seqs : List (Regex α) → Regex α
  | [] => empty
  | r :: rs => seq r (seqs rs)

def literal [DecidableEq α] (text : List α) : List (Regex α) := text.map fun c => char fun d => d = c

section Semantics

/-- Any number of matches, none of which is empty. -/
inductive Repeats (matchesBody : List α → List α → List α → Prop) : List α → List α → List α → Prop
  | nil {before after} : Repeats matchesBody before [] after
  | cons {before first rest after} (hne : first ≠ []) (hfirst : matchesBody before first (rest ++ after))
    (hrest : Repeats matchesBody (before ++ first) rest after) : Repeats matchesBody before (first ++ rest) after

def atBoundary (word : α → Bool) (before after : List α) : Bool := before.getLast?.any word != after.head?.any word

/-- `s` is matched between `before` and `after`. -/
def Matches : Regex α → (before s after : List α) → Prop
  | empty, _, s, _ => s = []
  | char p, _, s, _ => ∃ c, s = [c] ∧ p c = true
  | seq r t, before, s, after =>
    ∃ first second, s = first ++ second ∧ r.Matches before first (second ++ after) ∧
      t.Matches (before ++ first) second after
  | alt r t, before, s, after => r.Matches before s after ∨ t.Matches before s after
  | star r, before, s, after => Repeats r.Matches before s after
  | start, before, s, _ => s = [] ∧ before = []
  | stop, _, s, after => s = [] ∧ after = []
  | boundary word, before, s, after => s = [] ∧ atBoundary word before after = true

/-- A part of the text is matched. -/
def Finds (r : Regex α) (text : List α) : Prop :=
  ∃ before s after, text = before ++ (s ++ after) ∧ r.Matches before s after

end Semantics

section Matcher

/-- Nothing, or one more match that is not empty. -/
def repeatEnds (ends : List α → List α → List (List α × List α)) : Nat → List α → List α → List (List α × List α)
  | 0, before, text => [(before, text)]
  | fuel + 1, before, text =>
    (before, text) ::
      ((ends before text).filter fun rest => rest.2.length < text.length).flatMap fun rest =>
        repeatEnds ends fuel rest.1 rest.2

/-- Where a match at the start of the text can end: what is then before, and what is left. -/
def ends : Regex α → List α → List α → List (List α × List α)
  | empty, before, text => [(before, text)]
  | char _, _, [] => []
  | char p, before, c :: text => if p c then [(before ++ [c], text)] else []
  | seq r t, before, text => (r.ends before text).flatMap fun rest => t.ends rest.1 rest.2
  | alt r t, before, text => r.ends before text ++ t.ends before text
  | star r, before, text => repeatEnds r.ends text.length before text
  | start, before, text => if before.isEmpty then [(before, text)] else []
  | stop, before, text => if text.isEmpty then [(before, text)] else []
  | boundary word, before, text => if atBoundary word before text then [(before, text)] else []

/-- `std::regex_search`. -/
def search (r : Regex α) (text : List α) : Bool :=
  (List.range (text.length + 1)).any fun i => !(r.ends (text.take i) (text.drop i)).isEmpty

/-- `std::regex_match`. -/
def isMatch (r : Regex α) (text : List α) : Bool := (r.ends [] text).any fun rest => rest.2.isEmpty

/-- The matcher finds the ends of the matches. -/
def Sound (matchesBody : List α → List α → List α → Prop) (ends : List α → List α → List (List α × List α)) : Prop :=
  ∀ before text before' text', (before', text') ∈ ends before text ↔
    ∃ s, before' = before ++ s ∧ text = s ++ text' ∧ matchesBody before s text'

theorem mem_repeatEnds {matchesBody : List α → List α → List α → Prop}
    {ends : List α → List α → List (List α × List α)} (hends : Sound matchesBody ends) {fuel : Nat}
    {before text before' text' : List α} (hfuel : text.length ≤ fuel) :
    (before', text') ∈ repeatEnds ends fuel before text ↔
      ∃ s, before' = before ++ s ∧ text = s ++ text' ∧ Repeats matchesBody before s text' := by
  induction fuel generalizing before text with
  | zero =>
    obtain rfl : text = [] := List.eq_nil_of_length_eq_zero (by omega)
    rw [repeatEnds, List.mem_singleton, Prod.mk.injEq]
    constructor
    · rintro ⟨rfl, rfl⟩
      exact ⟨[], by simp, rfl, .nil⟩
    · rintro ⟨s, rfl, hs, -⟩
      obtain ⟨rfl, rfl⟩ := List.append_eq_nil_iff.mp hs.symm
      exact ⟨by simp, rfl⟩
  | succ fuel ih =>
    rw [repeatEnds, List.mem_cons, Prod.mk.injEq, List.mem_flatMap]
    constructor
    · rintro (⟨rfl, rfl⟩ | ⟨⟨middle, rest⟩, hmem, hlater⟩)
      · exact ⟨[], by simp, rfl, .nil⟩
      · rw [List.mem_filter, decide_eq_true_eq] at hmem
        obtain ⟨first, rfl, rfl, hfirst⟩ := (hends _ _ _ _).mp hmem.1
        have hshorter := hmem.2
        rw [List.length_append] at hshorter hfuel
        obtain ⟨s, rfl, rfl, hrest⟩ := (ih (by omega)).mp hlater
        have hne : first ≠ [] := by
          rintro rfl
          simp at hshorter
        exact ⟨first ++ s, by simp, by simp, .cons hne hfirst hrest⟩
    · rintro ⟨s, rfl, rfl, hrepeats⟩
      cases hrepeats with
      | nil => exact .inl ⟨by simp, rfl⟩
      | @cons _ first rest _ hne hfirst hrest =>
        have hpos := List.length_pos_iff.mpr hne
        rw [List.length_append, List.length_append] at hfuel
        refine .inr ⟨(before ++ first, rest ++ text'), ?_, ?_⟩
        · rw [List.mem_filter, decide_eq_true_eq]
          refine ⟨(hends _ _ _ _).mpr ⟨first, rfl, by simp, hfirst⟩, ?_⟩
          simp only [List.length_append]
          omega
        · exact (ih (by simp only [List.length_append]; omega)).mpr ⟨rest, by simp, rfl, hrest⟩

theorem mem_ends (r : Regex α) : Sound r.Matches r.ends := by
  induction r with
  | empty =>
    intro before text before' text'
    rw [ends, List.mem_singleton, Prod.mk.injEq]
    constructor
    · rintro ⟨rfl, rfl⟩
      exact ⟨[], by simp, rfl, rfl⟩
    · rintro ⟨s, rfl, rfl, rfl⟩
      simp
  | char p =>
    intro before text before' text'
    cases text with
    | nil =>
      rw [ends]
      constructor
      · exact fun h => absurd h List.not_mem_nil
      · rintro ⟨s, -, hs, c, rfl, -⟩
        cases hs
    | cons d text =>
      rw [ends]
      constructor
      · intro h
        split_ifs at h with hp
        · cases List.mem_singleton.mp h
          exact ⟨[d], rfl, rfl, d, rfl, hp⟩
        · exact absurd h List.not_mem_nil
      · rintro ⟨s, rfl, hs, c, rfl, hp⟩
        cases hs
        rw [if_pos hp]
        exact List.mem_singleton_self _
  | seq r t ihr iht =>
    intro before text before' text'
    rw [ends, List.mem_flatMap]
    constructor
    · rintro ⟨⟨middle, rest⟩, hfirst, hsecond⟩
      obtain ⟨first, rfl, rfl, hr⟩ := (ihr _ _ _ _).mp hfirst
      obtain ⟨second, rfl, rfl, ht⟩ := (iht _ _ _ _).mp hsecond
      exact ⟨first ++ second, by simp, by simp, first, second, rfl, hr, ht⟩
    · rintro ⟨s, rfl, rfl, first, second, rfl, hr, ht⟩
      exact ⟨(before ++ first, second ++ text'), (ihr _ _ _ _).mpr ⟨first, rfl, by simp, hr⟩,
        (iht _ _ _ _).mpr ⟨second, by simp, rfl, ht⟩⟩
  | alt r t ihr iht =>
    intro before text before' text'
    rw [ends, List.mem_append, ihr, iht]
    constructor
    · rintro (⟨s, hbefore, htext, hr⟩ | ⟨s, hbefore, htext, ht⟩)
      · exact ⟨s, hbefore, htext, .inl hr⟩
      · exact ⟨s, hbefore, htext, .inr ht⟩
    · rintro ⟨s, hbefore, htext, hr | ht⟩
      · exact .inl ⟨s, hbefore, htext, hr⟩
      · exact .inr ⟨s, hbefore, htext, ht⟩
  | star r ih => exact fun before text before' text' => mem_repeatEnds ih le_rfl
  | start =>
    intro before text before' text'
    rw [ends]
    constructor
    · intro h
      split_ifs at h with hempty
      · cases List.mem_singleton.mp h
        exact ⟨[], by simp, rfl, rfl, List.isEmpty_iff.mp hempty⟩
      · exact absurd h List.not_mem_nil
    · rintro ⟨s, rfl, rfl, rfl, rfl⟩
      simp
  | stop =>
    intro before text before' text'
    rw [ends]
    constructor
    · intro h
      split_ifs at h with hempty
      · cases List.mem_singleton.mp h
        exact ⟨[], by simp, rfl, rfl, List.isEmpty_iff.mp hempty⟩
      · exact absurd h List.not_mem_nil
    · rintro ⟨s, rfl, rfl, rfl, rfl⟩
      simp
  | boundary word =>
    intro before text before' text'
    rw [ends]
    constructor
    · intro h
      split_ifs at h with hboundary
      · cases List.mem_singleton.mp h
        exact ⟨[], by simp, rfl, rfl, hboundary⟩
      · exact absurd h List.not_mem_nil
    · rintro ⟨s, rfl, rfl, rfl, hboundary⟩
      rw [List.nil_append, List.append_nil, if_pos hboundary]
      exact List.mem_singleton_self _

theorem search_iff (r : Regex α) (text : List α) : r.search text = true ↔ r.Finds text := by
  rw [search, List.any_eq_true]
  constructor
  · rintro ⟨i, -, hends⟩
    rw [Bool.not_eq_true', List.isEmpty_eq_false_iff_exists_mem] at hends
    obtain ⟨⟨before', after⟩, hmem⟩ := hends
    obtain ⟨s, -, hs, hmatches⟩ := (mem_ends r _ _ _ _).mp hmem
    exact ⟨text.take i, s, after, by rw [← hs, List.take_append_drop], hmatches⟩
  · rintro ⟨before, s, after, rfl, hmatches⟩
    refine ⟨before.length, ?_, ?_⟩
    · rw [List.mem_range]
      simp only [List.length_append]
      omega
    rw [Bool.not_eq_true', List.isEmpty_eq_false_iff_exists_mem, List.take_left, List.drop_left]
    exact ⟨_, (mem_ends r _ _ _ _).mpr ⟨s, rfl, rfl, hmatches⟩⟩

theorem isMatch_iff (r : Regex α) (text : List α) : r.isMatch text = true ↔ r.Matches [] text [] := by
  rw [isMatch, List.any_eq_true]
  constructor
  · rintro ⟨⟨before, after⟩, hmem, hafter⟩
    obtain rfl : after = [] := List.isEmpty_iff.mp hafter
    obtain ⟨s, -, rfl, hmatches⟩ := (mem_ends r _ _ _ _).mp hmem
    rwa [List.append_nil]
  · intro hmatches
    exact ⟨(text, []), (mem_ends r _ _ _ _).mpr ⟨text, rfl, (List.append_nil text).symm, hmatches⟩, rfl⟩

end Matcher

section Rules

variable {before s after : List α}

theorem matches_seqs_cons {r : Regex α} {rs : List (Regex α)} :
    (seqs (r :: rs)).Matches before s after ↔
      ∃ first rest, s = first ++ rest ∧ r.Matches before first (rest ++ after) ∧
        (seqs rs).Matches (before ++ first) rest after := Iff.rfl

@[simp] theorem matches_seqs_nil : (seqs ([] : List (Regex α))).Matches before s after ↔ s = [] := Iff.rfl

theorem matches_seqs_append {rs ts : List (Regex α)} :
    (seqs (rs ++ ts)).Matches before s after ↔
      ∃ first rest, s = first ++ rest ∧ (seqs rs).Matches before first (rest ++ after) ∧
        (seqs ts).Matches (before ++ first) rest after := by
  induction rs generalizing before s with
  | nil =>
    constructor
    · intro h
      exact ⟨[], s, rfl, rfl, by simpa using h⟩
    · rintro ⟨first, rest, rfl, rfl, h⟩
      simpa using h
  | cons r rs ih =>
    rw [List.cons_append, matches_seqs_cons]
    constructor
    · rintro ⟨u, v, rfl, hr, hv⟩
      obtain ⟨first, rest, rfl, hfirst, hrest⟩ := ih.mp hv
      refine ⟨u ++ first, rest, by simp, matches_seqs_cons.mpr ⟨u, first, rfl, by simpa using hr, hfirst⟩, by simpa using hrest⟩
    · rintro ⟨first, rest, rfl, hfirst, hrest⟩
      obtain ⟨u, v, rfl, hr, hv⟩ := matches_seqs_cons.mp hfirst
      exact ⟨u, v ++ rest, by simp, by simpa using hr, ih.mpr ⟨v, rest, rfl, hv, by simpa using hrest⟩⟩

theorem matches_literal [DecidableEq α] {text : List α} : (seqs (literal text)).Matches before s after ↔ s = text := by
  induction text generalizing before s with
  | nil => rfl
  | cons c text ih =>
    rw [literal, List.map_cons, matches_seqs_cons]
    constructor
    · rintro ⟨first, rest, rfl, ⟨d, rfl, hd⟩, hrest⟩
      rw [decide_eq_true_eq] at hd
      rw [hd, ih.mp hrest]
      rfl
    · rintro rfl
      exact ⟨[c], text, rfl, ⟨c, rfl, decide_eq_true rfl⟩, ih.mpr rfl⟩

theorem matches_star_char {p : α → Bool} : (star (char p)).Matches before s after ↔ ∀ c ∈ s, p c = true := by
  constructor
  · intro h
    change Repeats _ _ _ _ at h
    induction h with
    | nil => simp
    | cons hne hfirst hrest ih =>
      obtain ⟨c, rfl, hc⟩ := hfirst
      exact List.forall_mem_cons.mpr ⟨hc, ih⟩
  · intro h
    change Repeats _ _ _ _
    induction s generalizing before with
    | nil => exact .nil
    | cons c s ih =>
      rw [List.forall_mem_cons] at h
      exact Repeats.cons (List.cons_ne_nil c []) ⟨c, rfl, h.1⟩ (ih h.2)

theorem matches_plus_char {p : α → Bool} : (plus (char p)).Matches before s after ↔ s ≠ [] ∧ ∀ c ∈ s, p c = true := by
  constructor
  · rintro ⟨first, rest, rfl, ⟨c, rfl, hc⟩, hrest⟩
    exact ⟨List.cons_ne_nil c rest, List.forall_mem_cons.mpr ⟨hc, matches_star_char.mp hrest⟩⟩
  · rintro ⟨hne, hall⟩
    obtain ⟨c, rest, rfl⟩ := List.exists_cons_of_ne_nil hne
    rw [List.forall_mem_cons] at hall
    exact ⟨[c], rest, rfl, ⟨c, rfl, hall.1⟩, matches_star_char.mpr hall.2⟩

theorem matches_optional {r : Regex α} : (optional r).Matches before s after ↔ r.Matches before s after ∨ s = [] := Iff.rfl

theorem matches_atMost_char {p : α → Bool} {n : Nat} :
    (atMost (char p) n).Matches before s after ↔ s.length ≤ n ∧ ∀ c ∈ s, p c = true := by
  induction n generalizing before s with
  | zero =>
    rw [atMost, Nat.le_zero, List.length_eq_zero_iff]
    constructor
    · rintro rfl
      exact ⟨rfl, fun c hc => absurd hc List.not_mem_nil⟩
    · exact And.left
  | succ n ih =>
    rw [atMost, matches_optional]
    constructor
    · rintro (⟨first, rest, rfl, ⟨c, rfl, hc⟩, hrest⟩ | rfl)
      · obtain ⟨hlength, hall⟩ := ih.mp hrest
        exact ⟨Nat.succ_le_succ hlength, List.forall_mem_cons.mpr ⟨hc, hall⟩⟩
      · exact ⟨Nat.zero_le _, fun c hc => absurd hc List.not_mem_nil⟩
    · rintro ⟨hlength, hall⟩
      cases s with
      | nil => exact Or.inr rfl
      | cons c s =>
        rw [List.forall_mem_cons] at hall
        exact Or.inl ⟨[c], s, rfl, ⟨c, rfl, hall.1⟩, ih.mpr ⟨Nat.le_of_succ_le_succ hlength, hall.2⟩⟩

/-- What has to be at the start is not searched for elsewhere. -/
theorem finds_start {rs : List (Regex α)} {text : List α} :
    (seqs (start :: rs)).Finds text ↔ ∃ s after, text = s ++ after ∧ (seqs rs).Matches [] s after := by
  constructor
  · rintro ⟨before, s, after, rfl, first, rest, rfl, ⟨rfl, rfl⟩, hrest⟩
    exact ⟨rest, after, rfl, hrest⟩
  · rintro ⟨s, after, rfl, hs⟩
    exact ⟨[], s, after, rfl, [], s, rfl, ⟨rfl, rfl⟩, hs⟩

end Rules

end Regex

end Kompli.Foundation
