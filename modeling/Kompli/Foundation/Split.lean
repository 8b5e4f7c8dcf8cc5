import Mathlib.Data.List.TakeWhile

/-! A list cut at the first element of a kind, and at the last. -/
namespace Kompli.Foundation

section Spans

variable {α : Type} {p : α → Bool} {span rest : List α}

/-- A span of a kind ends where an element of another kind follows, or none. -/
def EndsSpan (p : α → Bool) (rest : List α) : Prop := ∀ c ∈ rest.head?, p c = false

@[simp] theorem endsSpan_nil : EndsSpan p [] := by
  intro c hc
  cases hc

@[simp] theorem endsSpan_cons {c : α} : EndsSpan p (c :: rest) ↔ p c = false := by
  simp [EndsSpan]

theorem endsSpan_append (hspan : EndsSpan p span) (hne : span ≠ []) : EndsSpan p (span ++ rest) := by
  cases span with
  | nil => exact absurd rfl hne
  | cons c span => exact endsSpan_cons.mpr (endsSpan_cons.mp hspan)

theorem endsSpan_dropWhile (xs : List α) : EndsSpan p (xs.dropWhile p) := by
  intro c hc
  have hhead := List.head?_dropWhile_not p xs
  rw [Option.mem_def.mp hc] at hhead
  simpa using hhead

theorem takeWhile_span (hspan : ∀ c ∈ span, p c = true) (hrest : EndsSpan p rest) :
    (span ++ rest).takeWhile p = span := by
  rw [List.takeWhile_append_of_pos hspan]
  cases rest with
  | nil => simp
  | cons c rest => simp [endsSpan_cons.mp hrest]

theorem dropWhile_span (hspan : ∀ c ∈ span, p c = true) (hrest : EndsSpan p rest) :
    (span ++ rest).dropWhile p = rest := by
  rw [List.dropWhile_append_of_pos hspan]
  cases rest with
  | nil => rfl
  | cons c rest => simp [endsSpan_cons.mp hrest]

theorem dropWhile_of_endsSpan (hrest : EndsSpan p rest) : rest.dropWhile p = rest :=
  @dropWhile_span α p [] rest (by simp) hrest

/-- What is a span, and what follows it, is one way to cut a list. -/
theorem span_unique {span' rest' : List α} (hspan : ∀ c ∈ span, p c = true) (hrest : EndsSpan p rest)
    (hspan' : ∀ c ∈ span', p c = true) (hrest' : EndsSpan p rest') (h : span ++ rest = span' ++ rest') :
    span = span' ∧ rest = rest' := by
  have hsame := congrArg (List.takeWhile p) h
  rw [takeWhile_span hspan hrest, takeWhile_span hspan' hrest'] at hsame
  subst hsame
  exact ⟨rfl, List.append_cancel_left h⟩

theorem drop_length_takeWhile (p : α → Bool) (xs : List α) : xs.drop (xs.takeWhile p).length = xs.dropWhile p := by
  calc xs.drop (xs.takeWhile p).length
      = (xs.takeWhile p ++ xs.dropWhile p).drop (xs.takeWhile p).length := by rw [List.takeWhile_append_dropWhile]
    _ = xs.dropWhile p := List.drop_left

/-- A list ends in a span, and before it in an element of another kind. -/
theorem exists_last_span (p : α → Bool) (xs : List α) :
    ∃ front, xs = front ++ (xs.reverse.takeWhile p).reverse ∧ EndsSpan p front.reverse := by
  refine ⟨(xs.reverse.dropWhile p).reverse, ?_, ?_⟩
  · rw [← List.reverse_append, List.takeWhile_append_dropWhile, List.reverse_reverse]
  · rw [List.reverse_reverse]
    exact endsSpan_dropWhile _

end Spans

variable {α : Type} [DecidableEq α] {d : α} {s rest : List α}

theorem takeWhile_cut (h : d ∉ s) (rest : List α) : (s ++ d :: rest).takeWhile (· ≠ d) = s := by
  have hs : ∀ c ∈ s, decide (c ≠ d) = true := by
    intro c hc
    simp only [ne_eq, decide_not, Bool.not_eq_eq_eq_not, Bool.not_true, decide_eq_false_iff_not]
    rintro rfl
    exact h hc
  rw [List.takeWhile_append_of_pos hs]
  simp

theorem dropWhile_cut (h : d ∉ s) (rest : List α) : (s ++ d :: rest).dropWhile (· ≠ d) = d :: rest := by
  have hs : ∀ c ∈ s, decide (c ≠ d) = true := by
    intro c hc
    simp only [ne_eq, decide_not, Bool.not_eq_eq_eq_not, Bool.not_true, decide_eq_false_iff_not]
    rintro rfl
    exact h hc
  rw [List.dropWhile_append_of_pos hs]
  simp

/-- What is before the first `d` and after it is told by the list. -/
theorem cut_inj {other more : List α} (h : d ∉ s) (h' : d ∉ other) (heq : s ++ d :: rest = other ++ d :: more) :
    s = other ∧ rest = more := by
  have hsame : s = other := by rw [← takeWhile_cut h rest, heq, takeWhile_cut h' more]
  subst hsame
  exact ⟨rfl, (List.cons.inj (List.append_cancel_left heq)).2⟩

theorem not_mem_takeWhile (s : List α) : d ∉ s.takeWhile (· ≠ d) := by
  intro hmem
  simpa using List.mem_takeWhile_imp hmem

/-- What is before the first `d`, that `d`, and what comes after it. -/
theorem cut_append (h : d ∈ s) : s.takeWhile (· ≠ d) ++ d :: (s.dropWhile (· ≠ d)).tail = s := by
  have hne : s.dropWhile (· ≠ d) ≠ [] := by
    intro hnil
    have hall := List.dropWhile_eq_nil_iff.mp hnil d h
    simp at hall
  have hhead := List.head_dropWhile_not (· ≠ d) hne
  simp only [ne_eq, decide_not, Bool.not_eq_eq_eq_not, Bool.not_false, decide_eq_true_eq] at hhead
  calc s.takeWhile (· ≠ d) ++ d :: (s.dropWhile (· ≠ d)).tail
      = s.takeWhile (· ≠ d) ++ s.dropWhile (· ≠ d) := by
        rw [← List.cons_head_tail hne]
        simp [hhead]
    _ = s := List.takeWhile_append_dropWhile

/-- What is before and after the last `d`. -/
def cutLast (d : α) (s : List α) : Option (List α × List α) :=
  match s.reverse.dropWhile (· ≠ d) with
  | [] => none
  | _ :: before => some (before.reverse, (s.reverse.takeWhile (· ≠ d)).reverse)

theorem cutLast_append {after : List α} (h : d ∉ after) (before : List α) :
    cutLast d (before ++ d :: after) = some (before, after) := by
  have hreverse : (before ++ d :: after).reverse = after.reverse ++ d :: before.reverse := by simp
  have hnot : d ∉ after.reverse := by simpa using h
  rw [cutLast, hreverse, dropWhile_cut hnot, takeWhile_cut hnot]
  simp

theorem cutLast_cases (d : α) (s : List α) : cutLast d s = none ∧ d ∉ s ∨
    ∃ before after, d ∉ after ∧ s = before ++ d :: after ∧ cutLast d s = some (before, after) := by
  by_cases hd : d ∈ s
  · obtain ⟨after, before, hsplit, hafter⟩ := List.eq_append_cons_of_mem (List.mem_reverse.mpr hd)
    have hs : s = before.reverse ++ d :: after.reverse := by
      rw [← List.reverse_reverse s, hsplit]
      simp
    have hnot : d ∉ after.reverse := fun hmem => hafter (List.mem_reverse.mp hmem)
    refine .inr ⟨before.reverse, after.reverse, hnot, hs, ?_⟩
    rw [hs, cutLast_append hnot]
  · have hnone : s.reverse.dropWhile (· ≠ d) = [] := by
      rw [List.dropWhile_eq_nil_iff]
      rintro c hc
      rw [decide_eq_true_eq]
      rintro rfl
      exact hd (List.mem_reverse.mp hc)
    refine .inl ⟨?_, hd⟩
    rw [cutLast, hnone]

section Last

variable {α β : Type} {R : α → β → Prop} {xs : List α} {x : α} {b c : β}

/-- What a relation gives to the last of the elements to which it gives something. -/
def LastOf (R : α → β → Prop) (xs : List α) (b : β) : Prop :=
  ∃ before x after, xs = before ++ x :: after ∧ R x b ∧ ∀ y ∈ after, ∀ c, ¬ R y c

theorem LastOf.exists_mem (h : LastOf R xs b) : ∃ x ∈ xs, R x b := by
  obtain ⟨before, x, after, rfl, hx, -⟩ := h
  exact ⟨x, List.mem_append_right _ List.mem_cons_self, hx⟩

theorem exists_lastOf (h : ∃ x ∈ xs, ∃ b, R x b) : ∃ b, LastOf R xs b := by
  induction xs with
  | nil =>
    obtain ⟨x, hx, -⟩ := h
    cases hx
  | cons y xs ih =>
    by_cases hlater : ∃ x ∈ xs, ∃ b, R x b
    · obtain ⟨b, before, x, after, rfl, hx, hnone⟩ := ih hlater
      exact ⟨b, y :: before, x, after, rfl, hx, hnone⟩
    · obtain ⟨x, hx, b, hb⟩ := h
      rcases List.mem_cons.mp hx with rfl | hx
      · exact ⟨b, [], x, xs, rfl, hb, fun z hz c hc => hlater ⟨z, hz, c, hc⟩⟩
      · exact absurd ⟨x, hx, b, hb⟩ hlater

/-- The last element decides where it is given something. -/
theorem lastOf_concat : LastOf R (xs ++ [x]) b ↔ R x b ∨ (∀ c, ¬ R x c) ∧ LastOf R xs b := by
  constructor
  · rintro ⟨before, y, after, heq, hy, hnone⟩
    rcases List.eq_nil_or_concat after with rfl | ⟨after, z, rfl⟩
    · obtain ⟨rfl, hsame⟩ := List.append_inj' heq rfl
      cases hsame
      exact .inl hy
    · rw [List.concat_eq_append, ← List.cons_append, ← List.append_assoc] at heq
      obtain ⟨rfl, hsame⟩ := List.append_inj' heq rfl
      cases hsame
      refine .inr ⟨hnone x ?_, before, y, after, rfl, hy, fun v hv => hnone v ?_⟩
      · simp
      · simp [hv]
  · rintro (hx | ⟨hx, before, y, after, rfl, hy, hnone⟩)
    · exact ⟨xs, x, [], rfl, hx, fun y hy => nomatch hy⟩
    · refine ⟨before, y, after ++ [x], by simp, hy, fun v hv => ?_⟩
      rcases List.mem_append.mp hv with hv | hv
      · exact hnone v hv
      · rw [List.mem_singleton.mp hv]
        exact hx

/-- There is one last element. -/
theorem LastOf.unique (hunique : ∀ x b c, R x b → R x c → b = c) (h : LastOf R xs b) (h' : LastOf R xs c) : b = c := by
  obtain ⟨before, x, after, rfl, hx, hnone⟩ := h
  obtain ⟨before', x', after', heq, hx', hnone'⟩ := h'
  rcases List.append_eq_append_iff.mp heq with ⟨more, rfl, hmore⟩ | ⟨more, rfl, hmore⟩
  · cases more with
    | nil =>
      cases hmore
      exact hunique _ b c hx hx'
    | cons y more =>
      rw [List.cons_append] at hmore
      cases hmore
      exact absurd hx' (hnone x' (List.mem_append_right _ List.mem_cons_self) c)
  · cases more with
    | nil =>
      cases hmore
      exact hunique _ b c hx hx'
    | cons y more =>
      rw [List.cons_append] at hmore
      cases hmore
      exact absurd hx (hnone' x (List.mem_append_right _ List.mem_cons_self) b)

end Last

end Kompli.Foundation
