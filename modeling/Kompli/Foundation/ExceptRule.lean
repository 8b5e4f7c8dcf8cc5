import Mathlib.Data.List.Basic

/-! Rules for computations that return a value or an error. -/
namespace Kompli.Foundation

variable {ε α β : Type}

@[simp] theorem except_ok_bind (a : α) (f : α → Except ε β) : (Except.ok a >>= f) = f a := rfl

theorem except_bind_ok_iff {m : Except ε α} {f : α → Except ε β} {b : β} :
    (m >>= f) = .ok b ↔ ∃ a, m = .ok a ∧ f a = .ok b := by
  cases m with
  | ok a => simp [bind, Except.bind]
  | error e => simp [bind, Except.bind]

theorem except_toOption_iff {m : Except ε α} {a : α} : m.toOption = some a ↔ m = .ok a := by
  cases m <;> simp [Except.toOption]

theorem except_mapError_ok_iff {m : Except ε α} {f : ε → β} {a : α} : m.mapError f = .ok a ↔ m = .ok a := by
  cases m <;> simp [Except.mapError]

/-- What each step of a fold preserves, the fold preserves. -/
theorem foldlM_ok_induction {σ : Type} {step : σ → α → Except ε σ} {P : σ → Prop}
    (hstep : ∀ s a s', P s → step s a = .ok s' → P s') {xs : List α} {s s' : σ} (h : P s)
    (hrun : xs.foldlM step s = .ok s') : P s' := by
  induction xs generalizing s with
  | nil =>
    cases hrun
    exact h
  | cons x xs ih =>
    rw [List.foldlM_cons, except_bind_ok_iff] at hrun
    obtain ⟨t, hfirst, hrest⟩ := hrun
    exact ih (hstep s x t h hfirst) hrest

/-- A fold in which it does not depend on the state whether a step succeeds. -/
theorem foldlM_succeeds_iff {σ : Type} {step : σ → α → Except ε σ} {P : α → Prop}
    (hstep : ∀ s a, (∃ s', step s a = .ok s') ↔ P a) {xs : List α} {s : σ} :
    (∃ s', xs.foldlM step s = .ok s') ↔ ∀ a ∈ xs, P a := by
  induction xs generalizing s with
  | nil => simp [pure, Except.pure]
  | cons x xs ih =>
    simp only [List.foldlM_cons, except_bind_ok_iff, List.forall_mem_cons]
    constructor
    · rintro ⟨s', t, hfirst, hrest⟩
      exact ⟨(hstep s x).mp ⟨t, hfirst⟩, ih.mp ⟨s', hrest⟩⟩
    · rintro ⟨hx, hxs⟩
      obtain ⟨t, hfirst⟩ := (hstep s x).mpr hx
      obtain ⟨s', hrest⟩ := ih.mpr hxs
      exact ⟨s', t, hfirst, hrest⟩

/-- A check of a list passes when each of its items does. -/
theorem forM_ok_iff {check : α → Except ε Unit} {xs : List α} :
    xs.forM check = .ok () ↔ ∀ x ∈ xs, check x = .ok () := by
  induction xs with
  | nil => simp [pure, Except.pure]
  | cons x xs ih =>
    rw [List.forM_eq_forM, List.forM_cons, except_bind_ok_iff, List.forall_mem_cons, ← ih]
    constructor
    · rintro ⟨⟨⟩, hx, hxs⟩
      exact ⟨hx, hxs⟩
    · rintro ⟨hx, hxs⟩
      exact ⟨(), hx, hxs⟩

theorem mapM_ok_forall₂ {f : α → Except ε β} {xs : List α} {ys : List β} (h : xs.mapM f = .ok ys) :
    List.Forall₂ (fun x y => f x = .ok y) xs ys := by
  induction xs generalizing ys with
  | nil =>
    cases h
    exact .nil
  | cons x xs ih =>
    rw [List.mapM_cons, except_bind_ok_iff] at h
    obtain ⟨y, hy, h⟩ := h
    obtain ⟨ys', hys, h⟩ := except_bind_ok_iff.mp h
    cases h
    exact .cons hy (ih hys)

theorem forall₂_mem_right {R : α → β → Prop} {xs : List α} {ys : List β} (h : List.Forall₂ R xs ys)
    {y : β} (hy : y ∈ ys) : ∃ x ∈ xs, R x y := by
  induction h with
  | nil => exact absurd hy List.not_mem_nil
  | cons hxy _ ih =>
    rcases List.mem_cons.mp hy with rfl | hy
    · exact ⟨_, List.mem_cons_self, hxy⟩
    · obtain ⟨x, hx, hR⟩ := ih hy
      exact ⟨x, List.mem_cons_of_mem _ hx, hR⟩

/-- What holds between any two of a list holds between what they are related to. -/
theorem pairwise_of_forall₂ {R : α → β → Prop} {S : α → α → Prop} {T : β → β → Prop} {xs : List α} {ys : List β}
    (hrel : ∀ x x' y y', S x x' → R x y → R x' y' → T y y') (h : List.Forall₂ R xs ys) (hxs : xs.Pairwise S) :
    ys.Pairwise T := by
  induction h with
  | nil => exact .nil
  | cons hxy hrest ih =>
    obtain ⟨hx, hxs⟩ := List.pairwise_cons.mp hxs
    refine List.pairwise_cons.mpr ⟨fun y' hy' => ?_, ih hxs⟩
    obtain ⟨x', hx', hxy'⟩ := forall₂_mem_right hrest hy'
    exact hrel _ _ _ _ (hx x' hx') hxy hxy'

theorem mapM_ok_eq_map {f : α → Except ε β} {g : α → β} {xs : List α} {ys : List β}
    (hf : ∀ x ∈ xs, ∀ y, f x = .ok y → y = g x) (h : xs.mapM f = .ok ys) : ys = xs.map g := by
  have hall := mapM_ok_forall₂ h
  clear h
  induction hall with
  | nil => rfl
  | cons hx _ ih =>
    rw [List.map_cons, hf _ List.mem_cons_self _ hx, ih fun x hx => hf x (List.mem_cons_of_mem _ hx)]

/-- A list is mapped when each of its items is. -/
theorem mapM_ok_iff_map {f : α → Except ε β} {P : α → Prop} {g : α → β} {xs : List α}
    (hf : ∀ x ∈ xs, ∀ y, f x = .ok y ↔ P x ∧ y = g x) {ys : List β} :
    xs.mapM f = .ok ys ↔ (∀ x ∈ xs, P x) ∧ ys = xs.map g := by
  induction xs generalizing ys with
  | nil => simp [pure, Except.pure, eq_comm]
  | cons x xs ih =>
    have hrest := @ih fun x hx => hf x (List.mem_cons_of_mem _ hx)
    rw [List.mapM_cons, except_bind_ok_iff, List.forall_mem_cons, List.map_cons]
    constructor
    · rintro ⟨y, hy, h⟩
      obtain ⟨ys', hys, h⟩ := except_bind_ok_iff.mp h
      cases h
      obtain ⟨hP, rfl⟩ := (hf x List.mem_cons_self y).mp hy
      obtain ⟨hall, rfl⟩ := hrest.mp hys
      exact ⟨⟨hP, hall⟩, rfl⟩
    · rintro ⟨⟨hP, hall⟩, rfl⟩
      refine ⟨g x, (hf x List.mem_cons_self _).mpr ⟨hP, rfl⟩, ?_⟩
      rw [hrest.mpr ⟨hall, rfl⟩]
      rfl

/-- A fold whose steps, where they do not fail, are those of another. -/
theorem foldlM_ok_eq_foldl {σ : Type} {step : σ → α → Except ε σ} (next : σ → α → σ) {xs : List α}
    (hstep : ∀ a ∈ xs, ∀ s s', step s a = .ok s' → s' = next s a) {s s' : σ}
    (hrun : xs.foldlM step s = .ok s') : s' = xs.foldl next s := by
  induction xs generalizing s with
  | nil =>
    cases hrun
    rfl
  | cons x xs ih =>
    rw [List.foldlM_cons, except_bind_ok_iff] at hrun
    obtain ⟨t, hfirst, hrest⟩ := hrun
    rw [List.foldl_cons, ← hstep x List.mem_cons_self s t hfirst]
    exact ih (fun a ha => hstep a (List.mem_cons_of_mem x ha)) hrest

/-- Where each step sets what is kept under the keys it touches, the last one that touches a key
says what is kept under it in the end. -/
theorem foldlM_ok_last {σ κ γ : Type} {step : σ → α → Except ε σ} {get : σ → κ → γ}
    {touches : α → κ → Bool} {set : α → γ → γ} {I : σ → Prop}
    (hset : ∀ a b c, set a (set b c) = set a c)
    (hstep : ∀ s a s', I s → step s a = .ok s' →
      I s' ∧ ∀ k, get s' k = if touches a k then set a (get s k) else get s k)
    {xs : List α} {s s' : σ} (h : I s) (hrun : xs.foldlM step s = .ok s') (k : κ) :
    get s' k = (xs.reverse.find? (touches · k)).elim (get s k) fun a => set a (get s k) := by
  induction xs generalizing s with
  | nil =>
    cases hrun
    rfl
  | cons x xs ih =>
    rw [List.foldlM_cons, except_bind_ok_iff] at hrun
    obtain ⟨t, hfirst, hrest⟩ := hrun
    obtain ⟨ht, hget⟩ := hstep s x t h hfirst
    rw [ih ht hrest, hget k, List.reverse_cons, List.find?_append]
    cases hlast : xs.reverse.find? (touches · k) with
    | none => cases htouch : touches x k <;> simp [htouch]
    | some a => cases htouch : touches x k <;> simp [hset]

end Kompli.Foundation
