import Kompli.Foundation.Loop
import Mathlib.Data.List.Range

/-! Loops that are left with a result and entered again where they were left. -/
namespace Kompli.Foundation.Resumption

open Loop

variable {ω σ : Type}

/-- One call after the other, each of which comes to its end. -/
inductive Calls (turn : σ → Turn (ω × σ) σ) : σ → List ω → σ → Prop
  | nil (state : σ) : Calls turn state [] state
  | cons {state next last : σ} {fuel : Nat} {result : ω} {results : List ω}
      (hrun : run turn fuel state = some (result, next)) (hrest : Calls turn next results last) :
      Calls turn state (result :: results) last

/-- Turn after turn, with what is returned on the way; the last call may not have come to its end. -/
inductive Emits (turn : σ → Turn (ω × σ) σ) : σ → List ω → σ → Prop
  | refl (state : σ) : Emits turn state [] state
  | again {state next last : σ} {results : List ω} (hturn : turn state = .again next)
      (hrest : Emits turn next results last) : Emits turn state results last
  | leave {state next last : σ} {result : ω} {results : List ω} (hturn : turn state = .leave (result, next))
      (hrest : Emits turn next results last) : Emits turn state (result :: results) last

variable {turn : σ → Turn (ω × σ) σ} {state next last other : σ} {results more : List ω} {result : ω}

theorem Emits.trans (h : Emits turn state results next) (h' : Emits turn next more last) :
    Emits turn state (results ++ more) last := by
  induction h with
  | refl state => exact h'
  | again hturn _ ih => exact .again hturn (ih h')
  | leave hturn _ ih => exact .leave hturn (ih h')

/-- A turn is the first one of the call that it belongs to. -/
theorem Calls.again (hturn : turn state = .again next) (h : Calls turn next results last) (hne : results ≠ []) :
    Calls turn state results last := by
  cases h with
  | nil => exact absurd rfl hne
  | cons hrun hrest => exact .cons (by rw [run_again hturn, hrun]) hrest

theorem Calls.unique (h : Calls turn state results last) (h' : Calls turn state more other)
    (hlength : results.length = more.length) : results = more ∧ last = other := by
  induction h generalizing more with
  | nil state =>
    cases h' with
    | nil => exact ⟨rfl, rfl⟩
    | cons _ _ => cases hlength
  | cons hrun _ ih =>
    cases h' with
    | nil => cases hlength
    | cons hrun' hrest' =>
      obtain ⟨rfl, rfl⟩ := Prod.mk.inj (run_unique hrun hrun')
      obtain ⟨rfl, rfl⟩ := ih hrest' (Nat.succ.inj hlength)
      exact ⟨rfl, rfl⟩

/-- What so many calls return where the results come one after the other, and then nothing but the end. -/
def expected (results : List ω) (finished : ω) (calls : Nat) : List ω :=
  (List.range calls).map fun i => results[i]?.getD finished

theorem expected_cons (finished : ω) (calls : Nat) :
    expected (result :: results) finished (calls + 1) = result :: expected results finished calls := by
  rw [expected, List.range_succ_eq_map, List.map_cons, List.map_map]
  rfl

theorem length_expected (finished : ω) (calls : Nat) : (expected results finished calls).length = calls := by
  rw [expected, List.length_map, List.length_range]

/-- A state that a call leaves as it finds it. -/
private theorem calls_finished {finished : ω} (hend : turn state = .leave (finished, state)) (calls : Nat) :
    Calls turn state (expected [] finished calls) state := by
  induction calls with
  | zero => exact .nil state
  | succ calls ih =>
    have hrun : run turn 1 state = some (finished, state) := run_leave hend
    rw [expected, List.range_succ_eq_map, List.map_cons, List.map_map]
    exact .cons hrun ih

/-- The loop that emits results and then stays at its end returns them call by call. -/
theorem Emits.calls {finished : ω} (h : Emits turn state results last) (hend : turn last = .leave (finished, last))
    (calls : Nat) : ∃ final, Calls turn state (expected results finished calls) final := by
  induction h generalizing calls with
  | refl state => exact ⟨state, calls_finished hend calls⟩
  | again hturn _ ih =>
    cases calls with
    | zero => exact ⟨_, .nil _⟩
    | succ calls =>
      obtain ⟨final, hcalls⟩ := ih hend (calls + 1)
      refine ⟨final, hcalls.again hturn ?_⟩
      rw [← List.length_pos_iff, length_expected]
      exact Nat.succ_pos calls
  | @leave state next last result results hturn _ ih =>
    cases calls with
    | zero => exact ⟨_, .nil _⟩
    | succ calls =>
      obtain ⟨final, hcalls⟩ := ih hend calls
      have hrun : run turn 1 state = some (result, next) := run_leave hturn
      rw [expected_cons]
      exact ⟨final, .cons hrun hcalls⟩

end Kompli.Foundation.Resumption
