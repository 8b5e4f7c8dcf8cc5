import Kompli.Foundation.RegexSearch

/-! Expressions that are matched by backtracking: the ways to match, in the order in which they are tried. A repetition
tries to go on before it ends. -/
namespace Kompli.Foundation

open RegexSearch

inductive Backtracking (α : Type) where
  | empty
  | char (p : α → Bool)
  | seq (first second : Backtracking α)
  | star (body : Backtracking α)
  | group (body : Backtracking α)
  /-- At the start of a line. -/
  | lineStart (newline : α)
  /-- At the end of a line. -/
  | lineEnd (newline : α)

namespace Backtracking

variable {α : Type} [DecidableEq α]

def plus (r : Backtracking α) : Backtracking α := seq r (star r)

/-- One element after the other. -/
def literal : List α → Backtracking α
  | [] => empty
  | c :: text => seq (char fun d => d = c) (literal text)

/-- How far a way to match has come, and the group it has found. -/
structure Thread where
  place : Nat
  group : Option (Nat × Nat) := none
  deriving DecidableEq

section Threads

/-- One more round that takes something, or the end. -/
def rounds (body : Thread → List Thread) : Nat → Thread → List Thread
  | 0, t => [t]
  | fuel + 1, t => ((body t).filter fun u => t.place < u.place).flatMap (rounds body fuel) ++ [t]

/-- `unseen` is a place before which nothing is looked at. -/
def threads (text : List α) (unseen : Option Nat) : Backtracking α → Thread → List Thread
  | empty, t => [t]
  | char p, t => if text[t.place]?.any p then [{ t with place := t.place + 1 }] else []
  | seq r s, t => (threads text unseen r t).flatMap (threads text unseen s)
  | star r, t => rounds (threads text unseen r) text.length t
  | group r, t => (threads text unseen r t).map fun u => { u with group := some (t.place, u.place - t.place) }
  | lineStart newline, t => if unseen = some t.place ∨ LineStart newline text t.place then [t] else []
  | lineEnd newline, t => if t.place = text.length ∨ text[t.place]? = some newline then [t] else []

variable {text : List α} {unseen : Option Nat} {r s : Backtracking α} {t u v : Thread}

theorem rounds_place {body : Thread → List Thread} {fuel : Nat} {limit : Nat}
    (hbody : ∀ t u, u ∈ body t → t.place ≤ limit → u.place ≤ limit) (h : u ∈ rounds body fuel t)
    (ht : t.place ≤ limit) : t.place ≤ u.place ∧ u.place ≤ limit := by
  induction fuel generalizing t with
  | zero =>
    rw [rounds, List.mem_singleton] at h
    subst h
    exact ⟨le_rfl, ht⟩
  | succ fuel ih =>
    rw [rounds, List.mem_append, List.mem_singleton] at h
    rcases h with h | rfl
    · obtain ⟨v, hv, hu⟩ := List.mem_flatMap.mp h
      obtain ⟨hv, hless⟩ := List.mem_filter.mp hv
      have hrest := ih hu (hbody t v hv ht)
      have hlt := of_decide_eq_true hless
      omega
    · exact ⟨le_rfl, ht⟩

/-- A way to match goes forward, and stays in the text. -/
theorem threads_place (h : u ∈ threads text unseen r t) (ht : t.place ≤ text.length) :
    t.place ≤ u.place ∧ u.place ≤ text.length := by
  induction r generalizing t u with
  | empty =>
    rw [threads, List.mem_singleton] at h
    subst h
    exact ⟨le_rfl, ht⟩
  | char p =>
    rw [threads] at h
    split_ifs at h with hchar
    · obtain ⟨c, hc, -⟩ := (Option.any_eq_true _ _).mp hchar
      have hlt := (List.getElem?_eq_some_iff.mp hc).1
      rw [List.mem_singleton.mp h]
      exact ⟨Nat.le_succ _, hlt⟩
    · cases h
  | seq r s ihr ihs =>
    obtain ⟨v, hv, hu⟩ := List.mem_flatMap.mp h
    have hfirst := ihr hv ht
    have hsecond := ihs hu hfirst.2
    omega
  | star r ih => exact rounds_place (fun t u hu ht => (ih hu ht).2) h ht
  | group r ih =>
    obtain ⟨v, hv, rfl⟩ := List.mem_map.mp h
    have hplace := ih hv ht
    exact hplace
  | lineStart newline =>
    rw [threads] at h
    split_ifs at h with hstart
    · obtain rfl := List.mem_singleton.mp h
      exact ⟨le_rfl, ht⟩
    · cases h
  | lineEnd newline =>
    rw [threads] at h
    split_ifs at h with hend
    · obtain rfl := List.mem_singleton.mp h
      exact ⟨le_rfl, ht⟩
    · cases h

end Threads

/-- What is found at a place is the first way to match there. -/
def expression (r : Backtracking α) (text : List α) : Expression text.length where
  matchAt prevAvail notNull place :=
    if place ≤ text.length then
      ((threads text (if prevAvail then none else some place) r { place }).find? fun t => ! notNull || place < t.place).map
        fun t => { length := t.place - place, group := t.group }
    else none
  within := by
    intro prevAvail notNull place found h
    by_cases hplace : place ≤ text.length
    · rw [if_pos hplace] at h
      obtain ⟨t, ht, rfl⟩ := Option.map_eq_some_iff.mp h
      have hbounds := threads_place (List.mem_of_find?_eq_some ht) hplace
      dsimp only at hbounds ⊢
      omega
    · rw [if_neg hplace] at h
      cases h
  not_null := by
    intro prevAvail place found h
    by_cases hplace : place ≤ text.length
    · rw [if_pos hplace] at h
      obtain ⟨t, ht, rfl⟩ := Option.map_eq_some_iff.mp h
      have hless := List.find?_some ht
      rw [Bool.not_true, Bool.false_or, decide_eq_true_eq] at hless
      dsimp only
      omega
    · rw [if_neg hplace] at h
      cases h

section First

variable {text : List α} {unseen : Option Nat} {r s : Backtracking α} {t u v : Thread}

/-- The first way to match from a thread on. -/
def First (text : List α) (unseen : Option Nat) (r : Backtracking α) (t u : Thread) : Prop :=
  (threads text unseen r t).head? = some u

/-- There is no way to match. -/
def Fails (text : List α) (unseen : Option Nat) (r : Backtracking α) (t : Thread) : Prop :=
  threads text unseen r t = []

theorem First.seq (hr : First text unseen r t u) (hs : First text unseen s u v) :
    First text unseen (seq r s) t v := by
  obtain ⟨rest, hrest⟩ := List.head?_eq_some_iff.mp hr
  obtain ⟨more, hmore⟩ := List.head?_eq_some_iff.mp hs
  rw [First, threads, hrest, List.flatMap_cons, hmore]
  rfl

theorem Fails.seq (h : Fails text unseen r t) : Fails text unseen (seq r s) t := by
  rw [Fails, threads, h, List.flatMap_nil]

/-- The one way to match before it fails. -/
theorem Fails.seq_of_single (hr : threads text unseen r t = [u]) (h : Fails text unseen s u) :
    Fails text unseen (Backtracking.seq r s) t := by
  rw [Fails, threads, hr, List.flatMap_singleton]
  exact h

theorem First.group (h : First text unseen r t u) :
    First text unseen (group r) t { u with group := some (t.place, u.place - t.place) } := by
  rw [First, threads, List.head?_map, h]
  rfl

/-- A literal is matched in one way or in none. -/
theorem threads_literal (text : List α) (unseen : Option Nat) (word : List α) (t : Thread) :
    threads text unseen (literal word) t =
      if word <+: text.drop t.place then [{ t with place := t.place + word.length }] else [] := by
  induction word generalizing t with
  | nil => rw [literal, threads, if_pos (List.nil_prefix)]; rfl
  | cons c word ih =>
    rw [literal, threads, threads]
    cases hdrop : text.drop t.place with
    | nil =>
      have hnone : text[t.place]? = none := by simpa using hdrop
      rw [hnone]
      simp
    | cons d rest =>
      have hget : text[t.place]? = some d := by rw [← List.head?_drop, hdrop]; rfl
      have hrest : text.drop (t.place + 1) = rest := by rw [← List.tail_drop, hdrop]; rfl
      rw [hget]
      by_cases heq : d = c
      · subst heq
        simp only [Option.any_some, decide_true, if_true, List.flatMap_singleton, ih, hrest, List.cons_prefix_cons,
          true_and]
        split_ifs
        · simp only [List.length_cons, List.cons.injEq, Thread.mk.injEq, and_true]
          omega
        · rfl
      · simp [heq, Ne.symm heq]

/-- A repetition first takes all that it can. -/
theorem first_star_char (text : List α) (unseen : Option Nat) (p : α → Bool) (t : Thread) :
    First text unseen (star (char p)) t
      { t with place := t.place + ((text.drop t.place).takeWhile p).length } := by
  have hrounds : ∀ fuel (t : Thread), (text.drop t.place).length ≤ fuel →
      (rounds (threads text unseen (char p)) fuel t).head? =
        some { t with place := t.place + ((text.drop t.place).takeWhile p).length } := by
    intro fuel
    induction fuel with
    | zero =>
      intro t hlength
      rw [List.eq_nil_of_length_eq_zero (Nat.le_zero.mp hlength)]
      rfl
    | succ fuel ih =>
      intro t hlength
      rw [rounds, threads]
      cases hdrop : text.drop t.place with
      | nil =>
        have hnone : text[t.place]? = none := by simpa using hdrop
        rw [hnone]
        simp
      | cons d rest =>
        have hget : text[t.place]? = some d := by rw [← List.head?_drop, hdrop]; rfl
        have hrest : text.drop (t.place + 1) = rest := by rw [← List.tail_drop, hdrop]; rfl
        have hnext := ih { t with place := t.place + 1 } (by
          rw [hdrop, List.length_cons] at hlength
          rw [hrest]
          omega)
        rw [hrest] at hnext
        rw [hget, Option.any_some]
        by_cases hp : p d = true
        · rw [if_pos hp, List.takeWhile_cons_of_pos hp, List.filter_cons_of_pos (by simp), List.filter_nil,
            List.flatMap_singleton, List.head?_append, hnext]
          simp only [Option.some_or, List.length_cons, Option.some.injEq, Thread.mk.injEq, and_true]
          omega
        · rw [if_neg hp, List.takeWhile_cons_of_neg hp]
          rfl
  rw [First, threads]
  exact hrounds _ t (by rw [List.length_drop]; omega)

/-- What is before a place other than the first is looked at. -/
theorem occursAt_expression (r : Backtracking α) (text : List α) (place : Nat) : occursAt (r.expression text) place =
    if place ≤ text.length then
      (threads text (if place = 0 then some 0 else none) r { place }).head?.map fun t =>
        { position := place, length := t.place - place, group := t.group }
    else none := by
  have hfind : ∀ ts : List Thread, (ts.find? fun t => ! false || decide (place < t.place)) = ts.head? := by
    intro ts
    cases ts <;> rfl
  rw [occursAt, matchFrom, expression]
  dsimp only
  by_cases hplace : place ≤ text.length
  · rw [if_pos hplace, if_pos hplace, hfind, Option.map_map]
    rcases Nat.eq_zero_or_pos place with rfl | hpos
    · rfl
    · rw [if_pos (by simpa using hpos.ne'), if_neg hpos.ne']
      rfl
  · rw [if_neg hplace, if_neg hplace]
    rfl

end First

end Backtracking

end Kompli.Foundation
