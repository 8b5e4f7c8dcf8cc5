import Kompli.Foundation.StateRule

/-! Pre- and postconditions of computations that fail but keep their state. -/
namespace Kompli.Foundation

variable {ε σ α β : Type}

/-- From a state in `P` the computation returns into `Q` or fails into `E`. -/
def Triple (P : σ → Prop) (m : EStateM ε σ α) (Q : α → σ → Prop) (E : ε → σ → Prop) : Prop :=
  ∀ s, P s →
    match m s with
    | .ok a t => Q a t
    | .error e t => E e t

namespace Triple

variable {P P' : σ → Prop} {Q Q' : α → σ → Prop} {E E' : ε → σ → Prop} {m : EStateM ε σ α}

theorem pure {a : α} (h : ∀ s, P s → Q a s) : Triple P (Pure.pure a) Q E := h

theorem throw {e : ε} (h : ∀ s, P s → E e s) : Triple P (MonadExcept.throw e) Q E := h

theorem modify {f : σ → σ} {Q : PUnit → σ → Prop} (h : ∀ s, P s → Q ⟨⟩ (f s)) :
    Triple P (modify f) Q E := h

theorem bind {f : α → EStateM ε σ β} {R : β → σ → Prop} (first : Triple P m Q E)
    (second : ∀ a, Triple (Q a) (f a) R E) : Triple P (m >>= f) R E := by
  intro s hs
  have hfirst := first s hs
  cases hm : m s with
  | ok a t =>
    rw [hm] at hfirst
    rw [bind_run_ok f hm]
    exact second a t hfirst
  | error e t =>
    rw [hm] at hfirst
    rw [bind_run_error f hm]
    exact hfirst

/-- Reading the state first. -/
theorem get_bind {f : σ → EStateM ε σ α} (h : ∀ s, Triple (fun t => t = s ∧ P s) (f s) Q E) :
    Triple P (get >>= f) Q E :=
  fun s hs => h s s ⟨rfl, hs⟩

theorem mono (h : Triple P m Q E) (hP : ∀ s, P' s → P s) (hQ : ∀ a s, Q a s → Q' a s)
    (hE : ∀ e s, E e s → E' e s) : Triple P' m Q' E' := by
  intro s hs
  have hrun := h s (hP s hs)
  split at hrun
  · exact hQ _ _ hrun
  · exact hE _ _ hrun

theorem strengthen (h : Triple P m Q E) (hP : ∀ s, P' s → P s) : Triple P' m Q E :=
  h.mono hP (fun _ _ hq => hq) (fun _ _ he => he)

/-- What does not depend on the state can be taken out of a precondition. -/
theorem of_and {p : Prop} (h : p → Triple P m Q E) : Triple (fun s => p ∧ P s) m Q E :=
  fun s hs => h hs.1 s hs.2

theorem of_exists {γ : Type} {P : γ → σ → Prop} (h : ∀ x, Triple (P x) m Q E) :
    Triple (fun s => ∃ x, P x s) m Q E :=
  fun s ⟨x, hs⟩ => h x s hs

end Triple
end Kompli.Foundation
