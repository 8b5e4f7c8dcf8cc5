import Kompli.Foundation.StateRule

/-! Computations that count what they use, and stop with an error before they would use more than a limit. -/
namespace Kompli.Foundation

variable {ε α β : Type}

/-- Count some units, or stop where they are more than what is left. -/
def spend (limit : Nat) (full : ε) (units : Nat) : EStateM ε Nat Unit := fun used =>
  if limit - used < units then .error full used else .ok () (used + units)

/-- What a computation counts where no limit stops it, and what it returns if nothing else does; where the limit stops
it, that would have been too much. -/
structure Meters (limit : Nat) (full : ε) (m : EStateM ε Nat α) (cost : Nat) (value : Option α) : Prop where
  ok : ∀ {used a used'}, m used = .ok a used' → value = some a ∧ used' = used + cost
  full : ∀ {used used'}, m used = .error full used' → limit < used + cost
  within : ∀ {used}, used ≤ limit → leaves m used ≤ limit

namespace Meters

variable {limit cost cost' : Nat} {full : ε} {m : EStateM ε Nat α} {f : α → EStateM ε Nat β} {a : α}
  {value : Option α} {value' : Option β}

theorem pure (a : α) : Meters limit full (Pure.pure a : EStateM ε Nat α) 0 (some a) where
  ok h := by
    cases h
    exact ⟨rfl, rfl⟩
  full h := by cases h
  within h := h

theorem throw {e : ε} (h : e ≠ full) : Meters limit full (MonadExcept.throw e : EStateM ε Nat α) cost value where
  ok h := by cases h
  full heq := by
    cases heq
    exact absurd rfl h
  within h := h

/-- The limit was seen to be passed by what is yet to be counted. -/
theorem throw_full (h : limit < cost) : Meters limit full (MonadExcept.throw full : EStateM ε Nat α) cost value where
  ok h := by cases h
  full _ := by omega
  within h := h

theorem spend (units : Nat) : Meters limit full (Foundation.spend limit full units) units (some ()) where
  ok h := by
    rw [Foundation.spend] at h
    split_ifs at h
    cases h
    exact ⟨rfl, rfl⟩
  full h := by
    rw [Foundation.spend] at h
    split_ifs at h with hunits
    cases h
    omega
  within {used} h := by
    rw [leaves, Foundation.spend]
    split_ifs with hunits
    · exact h
    · simp only
      omega

/-- Both are counted, and the limit may stop either. -/
theorem bind (hm : Meters limit full m cost (some a)) (hf : Meters limit full (f a) cost' value') :
    Meters limit full (m >>= f) (cost + cost') value' where
  ok {used b used'} h := by
    obtain ⟨a', middle, hfirst, hrest⟩ := bind_ok_iff.mp h
    obtain ⟨heq, hmiddle⟩ := hm.ok hfirst
    cases heq
    obtain ⟨hvalue, hused⟩ := hf.ok hrest
    exact ⟨hvalue, by omega⟩
  full {used used'} h := by
    cases hfirst : m used with
    | ok a' middle =>
      obtain ⟨heq, hmiddle⟩ := hm.ok hfirst
      cases heq
      rw [bind_run_ok _ hfirst] at h
      have hfull := hf.full h
      omega
    | error e middle =>
      rw [bind_run_error _ hfirst] at h
      cases h
      have hfull := hm.full hfirst
      omega
  within {used} h := by
    have hwithin := hm.within h
    cases hfirst : m used with
    | ok a' middle =>
      obtain ⟨heq, hmiddle⟩ := hm.ok hfirst
      cases heq
      rw [leaves_of_ok hfirst] at hwithin
      have hrest := hf.within hwithin
      rwa [leaves, bind_run_ok _ hfirst, ← leaves]
    | error e middle =>
      rw [leaves_of_error hfirst] at hwithin
      rwa [leaves_of_error (bind_run_error f hfirst)]

/-- What does not return has nothing after it. -/
theorem bind_none (hm : Meters limit full m cost none) : Meters limit full (m >>= f) cost value' where
  ok h := by
    obtain ⟨a', middle, hfirst, -⟩ := bind_ok_iff.mp h
    exact absurd (hm.ok hfirst).1 (by simp)
  full {used used'} h := by
    cases hfirst : m used with
    | ok a' middle => exact absurd (hm.ok hfirst).1 (by simp)
    | error e middle =>
      rw [bind_run_error _ hfirst] at h
      cases h
      exact hm.full hfirst
  within {used} h := by
    have hwithin := hm.within h
    cases hfirst : m used with
    | ok a' middle => exact absurd (hm.ok hfirst).1 (by simp)
    | error e middle =>
      rw [leaves_of_error hfirst] at hwithin
      rwa [leaves_of_error (bind_run_error f hfirst)]

theorem of_eq (h : Meters limit full m cost value) {value' : Option α} (hcost : cost = cost') (hvalue : value = value') :
    Meters limit full m cost' value' := by
  rwa [← hcost, ← hvalue]

theorem map (hm : Meters limit full m cost value) (g : α → β) :
    Meters limit full (m >>= fun a => Pure.pure (g a)) cost (value.map g) := by
  cases value with
  | none => exact hm.bind_none
  | some a =>
    refine of_eq (hm.bind ?_) (Nat.add_zero cost) rfl
    exact .pure (g a)

end Meters

end Kompli.Foundation
