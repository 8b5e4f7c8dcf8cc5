import Mathlib.Logic.Function.Basic
import Mathlib.Data.List.Basic

/-! Machines that share a store, one machine for each key: what a run answers for a
key, and what it leaves there, is what the key's own machine does with its own operations. -/
namespace Kompli.Foundation.KeyedMachines

variable {K Op S Out C : Type} [DecidableEq K]

/-- What concerns a key. -/
def ofKey (k : K) {X : Type} (xs : List (K × X)) : List X :=
  xs.filterMap fun x => if x.1 = k then some x.2 else none

section

variable {X : Type} (k : K)

@[simp] theorem ofKey_nil : ofKey k ([] : List (K × X)) = [] := rfl

theorem ofKey_cons_self (x : X) (xs : List (K × X)) : ofKey k ((k, x) :: xs) = x :: ofKey k xs := by
  simp [ofKey]

theorem ofKey_cons_of_ne {k' : K} (h : k' ≠ k) (x : X) (xs : List (K × X)) :
    ofKey k ((k', x) :: xs) = ofKey k xs := by
  simp [ofKey, h]

end

/-- A run of one machine. -/
def runOne (step : Op → S → Out × S) : List Op → S → List Out × S
  | [], s => ([], s)
  | op :: ops, s =>
    let (out, s) := step op s
    let (outs, s) := runOne step ops s
    (out :: outs, s)

/-- A run of the store. -/
def runAll (step : K → Op → C → Out × C) : List (K × Op) → C → List (K × Out) × C
  | [], c => ([], c)
  | (k, op) :: ops, c =>
    let (out, c) := step k op c
    let (outs, c) := runAll step ops c
    ((k, out) :: outs, c)

/-- The store behaves as a machine for each key, whose states `view` shows. -/
structure Refines (step : K → Op → C → Out × C) (machine : K → Op → S → Out × S) (view : C → K → S) :
    Prop where
  out : ∀ k op c, (step k op c).1 = (machine k op (view c k)).1
  state : ∀ k op c, view (step k op c).2 = Function.update (view c) k (machine k op (view c k)).2

variable {step : K → Op → C → Out × C} {machine : K → Op → S → Out × S} {view : C → K → S}

theorem Refines.state_self (h : Refines step machine view) (k : K) (op : Op) (c : C) :
    view (step k op c).2 k = (machine k op (view c k)).2 := by
  rw [h.state, Function.update_self]

theorem Refines.state_of_ne (h : Refines step machine view) {k k' : K} (hk : k' ≠ k) (op : Op) (c : C) :
    view (step k op c).2 k' = view c k' := by
  rw [h.state, Function.update_of_ne hk]

theorem Refines.runAll_ofKey (h : Refines step machine view) (ops : List (K × Op)) (c : C) (k : K) :
    (ofKey k (runAll step ops c).1, view (runAll step ops c).2 k) =
      runOne (machine k) (ofKey k ops) (view c k) := by
  induction ops generalizing c with
  | nil => rfl
  | cons x ops ih =>
    obtain ⟨k', op⟩ := x
    have hrest := ih (step k' op c).2
    simp only [runAll]
    by_cases hk : k' = k
    · subst hk
      rw [h.state_self] at hrest
      rw [ofKey_cons_self, ofKey_cons_self]
      simp only [runOne, ← hrest, h.out]
    · rw [h.state_of_ne (Ne.symm hk)] at hrest
      rw [ofKey_cons_of_ne k hk, ofKey_cons_of_ne k hk, hrest]

end Kompli.Foundation.KeyedMachines
