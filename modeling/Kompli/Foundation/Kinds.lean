import Mathlib.Data.List.Basic

/-! Lists of things of several kinds, in which only the order within a kind matters. -/
namespace Kompli.Foundation.Kinds

variable {α κ σ : Type} [DecidableEq κ] (kind : α → κ)

def ofKind (k : κ) (xs : List α) : List α := xs.filter (kind · = k)

/-- The one list is the other with things of different kinds permuted. -/
def SameByKind (xs ys : List α) : Prop := ∀ k, ofKind kind k xs = ofKind kind k ys

variable {kind} {k : κ} {x : α} {xs ys : List α}

theorem ofKind_append : ofKind kind k (xs ++ ys) = ofKind kind k xs ++ ofKind kind k ys := List.filter_append ..

theorem ofKind_cons_self (h : kind x = k) : ofKind kind k (x :: xs) = x :: ofKind kind k xs :=
  List.filter_cons_of_pos (p := fun y => kind y = k) (decide_eq_true h)

theorem ofKind_cons_of_ne (h : kind x ≠ k) : ofKind kind k (x :: xs) = ofKind kind k xs :=
  List.filter_cons_of_neg (p := fun y => kind y = k) (by simpa using h)

theorem ofKind_eq_nil (h : ∀ x ∈ xs, kind x ≠ k) : ofKind kind k xs = [] := by
  induction xs with
  | nil => rfl
  | cons x xs ih =>
    rw [ofKind_cons_of_ne (h x List.mem_cons_self)]
    exact ih fun y hy => h y (List.mem_cons_of_mem x hy)

theorem mem_ofKind : x ∈ ofKind kind (kind x) xs ↔ x ∈ xs := by
  rw [ofKind, List.mem_filter]
  exact and_iff_left (decide_eq_true rfl)

theorem SameByKind.mem_iff (h : SameByKind kind xs ys) (x : α) : x ∈ xs ↔ x ∈ ys := by
  have hmem : x ∈ ofKind kind (kind x) xs ↔ x ∈ ofKind kind (kind x) ys := by rw [h (kind x)]
  rwa [mem_ofKind, mem_ofKind] at hmem

theorem SameByKind.eq_nil (h : SameByKind kind [] ys) : ys = [] := by
  apply List.eq_nil_iff_forall_not_mem.mpr
  intro y hy
  exact List.not_mem_nil ((h.mem_iff y).mpr hy)

/-- Where the first of the one list stands in the other: nothing of its kind comes before it. -/
theorem SameByKind.exists_first (h : SameByKind kind (x :: xs) ys) :
    ∃ before after, ys = before ++ x :: after ∧ (∀ y ∈ before, kind y ≠ kind x) ∧
      SameByKind kind xs (before ++ after) := by
  have hfirst : ys.filter (kind · = kind x) = x :: ofKind kind (kind x) xs :=
    (h (kind x)).symm.trans (ofKind_cons_self rfl)
  obtain ⟨before, after, rfl, hbefore, -, -⟩ := List.filter_eq_cons_iff.mp hfirst
  have hother : ∀ y ∈ before, kind y ≠ kind x := by
    intro y hy hkind
    exact hbefore y hy (decide_eq_true hkind)
  refine ⟨before, after, rfl, hother, ?_⟩
  intro k
  have hk := h k
  rw [ofKind_append] at hk ⊢
  by_cases hx : kind x = k
  · subst hx
    rw [ofKind_eq_nil hother, ofKind_cons_self rfl, ofKind_cons_self rfl] at hk
    rw [ofKind_eq_nil hother]
    exact List.tail_eq_of_cons_eq hk
  · rwa [ofKind_cons_of_ne hx, ofKind_cons_of_ne hx] at hk

omit [DecidableEq κ] in
/-- A thing may be taken before all those of other kinds that come before it. -/
private theorem foldl_move {step : σ → α → σ}
    (hcomm : ∀ s a b, kind a ≠ kind b → step (step s a) b = step (step s b) a)
    {before : List α} (h : ∀ y ∈ before, kind y ≠ kind x) (s : σ) :
    step (before.foldl step s) x = before.foldl step (step s x) := by
  induction before generalizing s with
  | nil => rfl
  | cons y before ih =>
    rw [List.foldl_cons, List.foldl_cons, ih fun z hz => h z (List.mem_cons_of_mem y hz),
      hcomm s y x (h y List.mem_cons_self)]

/-- Where steps for things of different kinds commute, permuting such things does not change where a
fold ends. -/
theorem foldl_sameByKind {step : σ → α → σ}
    (hcomm : ∀ s a b, kind a ≠ kind b → step (step s a) b = step (step s b) a)
    (h : SameByKind kind xs ys) (s : σ) : xs.foldl step s = ys.foldl step s := by
  induction xs generalizing ys s with
  | nil => rw [h.eq_nil]
  | cons x xs ih =>
    obtain ⟨before, after, rfl, hother, hrest⟩ := h.exists_first
    calc (x :: xs).foldl step s
        = (before ++ after).foldl step (step s x) := ih hrest (step s x)
      _ = after.foldl step (step (before.foldl step s) x) := by rw [List.foldl_append, foldl_move hcomm hother]
      _ = (before ++ x :: after).foldl step s := by rw [List.foldl_append, List.foldl_cons]

section Collecting

omit [DecidableEq κ]

variable {β : Type} {step : σ → α → σ}

/-- What some things set and none clears holds after a fold if it did before or one of these came. -/
theorem foldl_sets (flag : σ → Prop) {sets : α → Prop}
    (hstep : ∀ a ∈ xs, ∀ s, flag (step s a) ↔ flag s ∨ sets a) (s : σ) :
    flag (xs.foldl step s) ↔ flag s ∨ ∃ a ∈ xs, sets a := by
  induction xs generalizing s with
  | nil => simp
  | cons x xs ih =>
    rw [List.foldl_cons, ih fun a ha => hstep a (List.mem_cons_of_mem x ha), hstep x List.mem_cons_self, or_assoc,
      List.exists_mem_cons_iff]

/-- What is added at the end for each thing stands in the things' order after a fold. -/
theorem foldl_appends (get : σ → List β) {adds : α → Option β}
    (hstep : ∀ a ∈ xs, ∀ s, get (step s a) = get s ++ (adds a).toList) (s : σ) :
    get (xs.foldl step s) = get s ++ xs.filterMap adds := by
  induction xs generalizing s with
  | nil => exact (List.append_nil _).symm
  | cons x xs ih =>
    rw [List.foldl_cons, ih fun a ha => hstep a (List.mem_cons_of_mem x ha), hstep x List.mem_cons_self,
      List.append_assoc]
    cases hx : adds x with
    | none => rw [List.filterMap_cons_none hx, Option.toList_none, List.nil_append]
    | some b => rw [List.filterMap_cons_some hx, Option.toList_some, List.singleton_append]

end Collecting

end Kompli.Foundation.Kinds
