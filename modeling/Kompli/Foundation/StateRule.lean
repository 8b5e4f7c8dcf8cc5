import Mathlib.Order.Basic

/-! Rules for computations that fail but keep their state, as C++ code does that
returns early and leaves its side effects behind. -/
namespace Kompli.Foundation

variable {ε σ α β : Type}

/-- The state a computation leaves behind, whether it returns or fails. -/
def leaves (m : EStateM ε σ α) (s : σ) : σ :=
  match m s with
  | .ok _ s' => s'
  | .error _ s' => s'

theorem leaves_of_ok {m : EStateM ε σ α} {s s' : σ} {a : α} (h : m s = .ok a s') : leaves m s = s' := by
  simp only [leaves, h]

theorem leaves_of_error {m : EStateM ε σ α} {s s' : σ} {e : ε} (h : m s = .error e s') :
    leaves m s = s' := by
  simp only [leaves, h]

@[simp] theorem pure_run (a : α) (s : σ) : (pure a : EStateM ε σ α) s = .ok a s := rfl

@[simp] theorem throw_run (e : ε) (s : σ) : (throw e : EStateM ε σ α) s = .error e s := rfl

@[simp] theorem modify_run (f : σ → σ) (s : σ) :
    (modify f : EStateM ε σ PUnit) s = .ok ⟨⟩ (f s) := rfl

@[simp] theorem get_run (s : σ) : (get : EStateM ε σ σ) s = .ok s s := rfl

theorem bind_run_ok {m : EStateM ε σ α} {s s' : σ} {a : α} (f : α → EStateM ε σ β)
    (h : m s = .ok a s') : (m >>= f) s = f a s' := by
  change EStateM.bind m f s = _
  rw [EStateM.bind, h]

theorem bind_run_error {m : EStateM ε σ α} {s s' : σ} {e : ε} (f : α → EStateM ε σ β)
    (h : m s = .error e s') : (m >>= f) s = .error e s' := by
  change EStateM.bind m f s = _
  rw [EStateM.bind, h]

theorem bind_ok_iff {m : EStateM ε σ α} {f : α → EStateM ε σ β} {s t : σ} {b : β} :
    (m >>= f) s = .ok b t ↔ ∃ a s', m s = .ok a s' ∧ f a s' = .ok b t := by
  cases h : m s with
  | ok a s' =>
    rw [bind_run_ok f h]
    constructor
    · intro hf
      exact ⟨a, s', rfl, hf⟩
    · rintro ⟨_, _, hm, hf⟩
      cases hm
      exact hf
  | error e s' => simp [bind_run_error f h]

@[simp] theorem leaves_pure (a : α) (s : σ) : leaves (pure a : EStateM ε σ α) s = s := rfl

@[simp] theorem leaves_throw (e : ε) (s : σ) : leaves (throw e : EStateM ε σ α) s = s := rfl

@[simp] theorem leaves_modify (f : σ → σ) (s : σ) :
    leaves (modify f : EStateM ε σ PUnit) s = f s := rfl

@[simp] theorem leaves_get_bind (f : σ → EStateM ε σ β) (s : σ) :
    leaves (get >>= f) s = leaves (f s) s := rfl

/-- A relation that holds of the first part of a computation, and of the second part
wherever the first returns, holds of both together. -/
theorem leaves_bind {R : σ → σ → Prop} (trans : ∀ s t u, R s t → R t u → R s u)
    {m : EStateM ε σ α} {f : α → EStateM ε σ β} {s : σ} (first : R s (leaves m s))
    (second : ∀ a s', m s = .ok a s' → R s' (leaves (f a) s')) : R s (leaves (m >>= f) s) := by
  cases h : m s with
  | ok a s' =>
    have then_ := second a s' h
    rw [leaves_of_ok h] at first
    simp only [leaves] at then_ ⊢
    rw [bind_run_ok f h]
    exact trans _ _ _ first then_
  | error e s' =>
    rw [leaves_of_error h] at first
    rw [leaves_of_error (bind_run_error f h)]
    exact first

/-- `m` relates the state it starts in to the state it leaves behind. -/
def Evolves (R : σ → σ → Prop) (m : EStateM ε σ α) : Prop :=
  ∀ s, R s (leaves m s)

theorem Evolves.of_ok {R : σ → σ → Prop} {m : EStateM ε σ α} (h : Evolves R m) {s s' : σ} {a : α}
    (hrun : m s = .ok a s') : R s s' := by
  have := h s
  rwa [leaves_of_ok hrun] at this

theorem Evolves.mono {R S : σ → σ → Prop} (hRS : ∀ s t, R s t → S s t) {m : EStateM ε σ α}
    (h : Evolves R m) : Evolves S m :=
  fun s => hRS _ _ (h s)

/-- A reflexive and transitive relation holds of a computation when it holds of its parts. -/
theorem Evolves.bind {R : σ → σ → Prop} (trans : ∀ s t u, R s t → R t u → R s u)
    {m : EStateM ε σ α} {f : α → EStateM ε σ β} (first : Evolves R m)
    (second : ∀ a, Evolves R (f a)) : Evolves R (m >>= f) :=
  fun s => leaves_bind trans (first s) fun a s' _ => second a s'

theorem Evolves.foldlM {R : σ → σ → Prop} (refl : ∀ s, R s s)
    (trans : ∀ s t u, R s t → R t u → R s u) {f : α → β → EStateM ε σ α}
    (step : ∀ a b, Evolves R (f a b)) (bs : List β) (a : α) : Evolves R (bs.foldlM f a) := by
  induction bs generalizing a with
  | nil =>
    rw [List.foldlM_nil]
    exact refl
  | cons b bs ih =>
    rw [List.foldlM_cons]
    exact Evolves.bind trans (step a b) ih

end Kompli.Foundation
