import Kompli.Foundation.Triple

/-! Objects that are destroyed when their scope is left, whether it returns or fails. -/
namespace Kompli.Foundation

variable {ε ε' σ δ α : Type}

/-- The body runs beside an object of its own, which is destroyed where the body ends. -/
def inScope (object : δ) (destroy : δ → σ → σ) (body : EStateM ε (δ × σ) α) : EStateM ε σ α := fun s =>
  match body (object, s) with
  | .ok a t => .ok a (destroy t.1 t.2)
  | .error e t => .error e (destroy t.1 t.2)

/-- A computation that leaves the object of the scope as it is. -/
def aside (m : EStateM ε σ α) : EStateM ε (δ × σ) α := fun s =>
  match m s.2 with
  | .ok a t => .ok a (s.1, t)
  | .error e t => .error e (s.1, t)

/-- A failure becomes another one; what was done stays done. -/
def caught (handler : ε → ε') (m : EStateM ε σ α) : EStateM ε' σ α := fun s =>
  match m s with
  | .ok a t => .ok a t
  | .error e t => .error (handler e) t

namespace Triple

variable {P : σ → Prop} {Q : α → σ → Prop} {E : ε → σ → Prop}

theorem inScope {object : δ} {destroy : δ → σ → σ} {body : EStateM ε (δ × σ) α}
    (h : Triple (fun s => ∃ t, s = (object, t) ∧ P t) body (fun a s => Q a (destroy s.1 s.2))
      fun e s => E e (destroy s.1 s.2)) :
    Triple P (inScope object destroy body) Q E := by
  intro s hs
  have hbody := h (object, s) ⟨s, rfl, hs⟩
  rw [Foundation.inScope]
  cases hrun : body (object, s) with
  | ok a t =>
    rw [hrun] at hbody
    exact hbody
  | error e t =>
    rw [hrun] at hbody
    exact hbody

theorem aside {P : δ × σ → Prop} {Q : α → δ × σ → Prop} {E : ε → δ × σ → Prop} {m : EStateM ε σ α}
    (h : ∀ d, Triple (fun s => P (d, s)) m (fun a s => Q a (d, s)) fun e s => E e (d, s)) :
    Triple P (aside m) Q E := by
  rintro ⟨d, s⟩ hs
  have hrun := h d s hs
  rw [Foundation.aside]
  cases hm : m s with
  | ok a t =>
    rw [hm] at hrun
    exact hrun
  | error e t =>
    rw [hm] at hrun
    exact hrun

/-- The object is as before, whatever comes of the rest. -/
theorem aside_at {s : σ} {m : EStateM ε σ α} (h : Triple (fun t => t = s) m Q E) (d : δ) :
    Triple (fun t => t = (d, s)) (Foundation.aside m) (fun a t => ∃ u, t = (d, u) ∧ Q a u)
      fun e t => ∃ u, t = (d, u) ∧ E e u := by
  rintro _ rfl
  have hrun := h s rfl
  rw [Foundation.aside]
  cases hm : m s with
  | ok a t =>
    rw [hm] at hrun
    exact ⟨t, rfl, hrun⟩
  | error e t =>
    rw [hm] at hrun
    exact ⟨t, rfl, hrun⟩

theorem caught {handler : ε → ε'} {m : EStateM ε σ α} {E : ε' → σ → Prop}
    (h : Triple P m Q fun e s => E (handler e) s) : Triple P (caught handler m) Q E := by
  intro s hs
  have hrun := h s hs
  rw [Foundation.caught]
  cases hm : m s with
  | ok a t =>
    rw [hm] at hrun
    exact hrun
  | error e t =>
    rw [hm] at hrun
    exact hrun

/-- Where the precondition holds of one state only. -/
theorem at_state {m : EStateM ε σ α} (h : ∀ s, P s → Triple (fun t => t = s) m Q E) : Triple P m Q E :=
  fun s hs => h s hs s rfl

end Triple
end Kompli.Foundation
