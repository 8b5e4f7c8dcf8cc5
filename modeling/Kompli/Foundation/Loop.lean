import Mathlib.Logic.Relation

/-! Loops that are left from inside: when they are left, and what holds of the result. -/
namespace Kompli.Foundation.Loop

open Relation

variable {ρ σ : Type}

/-- A turn leaves the loop with a result, or gives the state of the next turn. -/
inductive Turn (ρ σ : Type) where
  | leave (result : ρ)
  | again (state : σ)

/-- Nothing where the loop is not left in as many turns. -/
def run (turn : σ → Turn ρ σ) : Nat → σ → Option ρ
  | 0, _ => none
  | fuel + 1, state =>
    match turn state with
    | .leave result => some result
    | .again next => run turn fuel next

/-- The loop comes from the one state to the other. -/
def Comes (turn : σ → Turn ρ σ) : σ → σ → Prop := ReflTransGen fun state next => turn state = .again next

variable {turn : σ → Turn ρ σ} {state next : σ} {result other : ρ} {fuel more : Nat}

theorem run_leave (h : turn state = .leave result) : run turn (fuel + 1) state = some result := by
  rw [run, h]

theorem run_again (h : turn state = .again next) : run turn (fuel + 1) state = run turn fuel next := by
  rw [run, h]

/-- What falls in every turn ends the loop. -/
theorem run_total (Inv : σ → Prop) (Post : ρ → Prop) (measure : σ → Nat)
    (keep : ∀ state next, Inv state → turn state = .again next → Inv next ∧ measure next < measure state)
    (leave : ∀ state result, Inv state → turn state = .leave result → Post result) (h : Inv state)
    (hfuel : measure state < fuel) : ∃ result, run turn fuel state = some result ∧ Post result := by
  induction fuel generalizing state with
  | zero => omega
  | succ fuel ih =>
    cases hturn : turn state with
    | leave result => exact ⟨result, run_leave hturn, leave state result h hturn⟩
    | again next =>
      obtain ⟨hnext, hless⟩ := keep state next h hturn
      obtain ⟨result, hrun, hresult⟩ := ih hnext (by omega)
      exact ⟨result, by rw [run_again hturn, hrun], hresult⟩

/-- What holds at first and is kept by every turn holds where the loop is left. -/
theorem run_rule (Inv : σ → Prop) (Post : ρ → Prop)
    (keep : ∀ state next, Inv state → turn state = .again next → Inv next)
    (leave : ∀ state result, Inv state → turn state = .leave result → Post result) (h : Inv state)
    (hrun : run turn fuel state = some result) : Post result := by
  induction fuel generalizing state with
  | zero => cases hrun
  | succ fuel ih =>
    cases hturn : turn state with
    | leave other =>
      rw [run_leave hturn] at hrun
      cases hrun
      exact leave state _ h hturn
    | again next =>
      rw [run_again hturn] at hrun
      exact ih (keep state next h hturn) hrun

/-- A state that the loop comes to has the same result. -/
theorem run_of_comes (h : Comes turn state next) (hrun : run turn fuel state = some result) :
    ∃ fuel, run turn fuel next = some result := by
  induction h with
  | refl => exact ⟨fuel, hrun⟩
  | tail _ hturn ih =>
    obtain ⟨fuel, hrun⟩ := ih
    cases fuel with
    | zero => cases hrun
    | succ fuel => exact ⟨fuel, by rw [← run_again hturn, hrun]⟩

theorem run_unique (hrun : run turn fuel state = some result) (hother : run turn more state = some other) :
    result = other := by
  induction fuel generalizing state more with
  | zero => cases hrun
  | succ fuel ih =>
    cases more with
    | zero => cases hother
    | succ more =>
      cases hturn : turn state with
      | leave left =>
        rw [run_leave hturn] at hrun hother
        exact Option.some.inj (hrun.symm.trans hother)
      | again next =>
        rw [run_again hturn] at hrun hother
        exact ih hrun hother

end Kompli.Foundation.Loop
