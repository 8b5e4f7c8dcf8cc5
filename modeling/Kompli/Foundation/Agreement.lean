import Kompli.Foundation.StateRule

/-! Two computations that return the same from related states, or both fail. -/
namespace Kompli.Foundation

variable {ε σ τ α β : Type}

/-- What two computations end in: related states, where they do not fail. -/
def SameOutcome (S : σ → τ → Prop) : EStateM.Result ε σ α → EStateM.Result ε τ α → Prop
  | .ok a s, .ok b t => a = b ∧ S s t
  | .error _ _, .error _ _ => True
  | _, _ => False

def Agree (R S : σ → τ → Prop) (m : EStateM ε σ α) (n : EStateM ε τ α) : Prop :=
  ∀ s t, R s t → SameOutcome S (m s) (n t)

namespace Agree

variable {R S T : σ → τ → Prop}

theorem pure (a : α) : Agree R R (Pure.pure a : EStateM ε σ α) (Pure.pure a : EStateM ε τ α) :=
  fun _ _ h => ⟨rfl, h⟩

theorem throw (e e' : ε) : Agree R S (MonadExcept.throw e : EStateM ε σ α) (MonadExcept.throw e' : EStateM ε τ α) :=
  fun _ _ _ => trivial

theorem modifyState {f : σ → σ} {g : τ → τ} (h : ∀ s t, R s t → S (f s) (g t)) :
    Agree R S (modify f : EStateM ε σ PUnit) (modify g : EStateM ε τ PUnit) :=
  fun s t hst => ⟨rfl, h s t hst⟩

theorem bind {m : EStateM ε σ α} {n : EStateM ε τ α} {f : α → EStateM ε σ β} {g : α → EStateM ε τ β}
    (first : Agree R S m n) (second : ∀ a, Agree S T (f a) (g a)) : Agree R T (m >>= f) (n >>= g) := by
  intro s t hst
  have hfirst := first s t hst
  cases hm : m s with
  | ok a s' =>
    cases hn : n t with
    | ok b t' =>
      rw [hm, hn] at hfirst
      obtain ⟨rfl, hafter⟩ := hfirst
      rw [bind_run_ok f hm, bind_run_ok g hn]
      exact second a s' t' hafter
    | error e t' =>
      rw [hm, hn] at hfirst
      exact hfirst.elim
  | error e s' =>
    cases hn : n t with
    | ok b t' =>
      rw [hm, hn] at hfirst
      exact hfirst.elim
    | error e' t' =>
      rw [bind_run_error f hm, bind_run_error g hn]
      trivial

/-- Reading the state first. -/
theorem get_bind {f : σ → EStateM ε σ β} {g : τ → EStateM ε τ β}
    (h : ∀ s t, R s t → Agree R S (f s) (g t)) : Agree R S (get >>= f) (get >>= g) :=
  fun s t hst => h s t hst s t hst

theorem mono {R' S' : σ → τ → Prop} (hR : ∀ s t, R' s t → R s t) (hS : ∀ s t, S s t → S' s t)
    {m : EStateM ε σ α} {n : EStateM ε τ α} (h : Agree R S m n) : Agree R' S' m n := by
  intro s t hst
  have hrun := h s t (hR s t hst)
  unfold SameOutcome at hrun ⊢
  split at hrun
  · exact ⟨hrun.1, hS _ _ hrun.2⟩
  · trivial
  · exact hrun.elim

end Agree

end Kompli.Foundation
