import Kompli.ComplianceEngine.Trace

/-! Payload trees, and how an audit of one is decided by what its leaves return. -/
namespace Kompli
open Foundation

/-- A procedure with its arguments: any name that is not an operator. -/
structure Leaf where
  name : Bytes
  value : JsonValue
  notAnyOf : cString name ≠ anyOfName := by decide
  notAllOf : cString name ≠ allOfName := by decide
  notNot : cString name ≠ notName := by decide

namespace Payload

variable {α : Type} (leafOf : α → Leaf)

mutual
def toJson : Formula α → JsonValue
  | .anyOf fs => .object [(anyOfName, .array (toJsons fs))]
  | .allOf fs => .object [(allOfName, .array (toJsons fs))]
  | .not f => .object [(notName, toJson f)]
  | .leaf a => .object [((leafOf a).name, (leafOf a).value)]
def toJsons : List (Formula α) → List JsonValue
  | [] => []
  | f :: fs => toJson f :: toJsons fs
end

theorem toJson_object (f : Formula α) : ∃ members, toJson leafOf f = .object members := by
  cases f <;> exact ⟨_, by rw [toJson]⟩

end Payload

namespace Evaluator

variable {W G α : Type} (ev : Evaluator W G) (leafOf : α → Leaf)

/-- What is evaluated at a leaf. -/
def evaluateLeaf (path : Path) (l : Leaf) (action : Action) : EvalM W G Status :=
  leaf path (if cString l.name = luaName then evaluateLua ev path l.value action
    else evaluateBuiltinProcedure ev path (cString l.name) l.value action)

/-- Whatever a leaf returns is in the trace. -/
theorem evaluateLeaf_noted (path : Path) (l : Leaf) (action : Action) (s : EvalState W G) :
    ∃ result : Except Error Status, .leaf path result ∈ newEvents (evaluateLeaf ev path l action) s ∧
      ∀ status, result = .ok status → ∃ t, evaluateLeaf ev path l action s = .ok status t := by
  unfold evaluateLeaf
  have hbody : Evolves (Extends (LeafEvent path action))
      (if cString l.name = luaName then evaluateLua ev path l.value action
        else evaluateBuiltinProcedure ev path (cString l.name) l.value action) := by
    split
    · exact evaluateLua_extends ev path l.value action
    · exact evaluateBuiltinProcedure_extends ev path _ l.value action
  generalize (if cString l.name = luaName then evaluateLua ev path l.value action
    else evaluateBuiltinProcedure ev path (cString l.name) l.value action) = body at hbody
  obtain ⟨es, hes, -⟩ := hbody s
  cases hrun : body s with
  | ok r u =>
    refine ⟨.ok r, ?_, fun status h => ⟨u.record (.leaf path (.ok r)), ?_⟩⟩
    · rw [leaves_of_ok hrun] at hes
      simp [newEvents, leaves, leaf, hrun, hes]
    · cases h
      simp only [leaf, hrun]
  | error e u =>
    refine ⟨.error e, ?_, by simp⟩
    rw [leaves_of_error hrun] at hes
    simp [newEvents, leaves, leaf, hrun, hes]

theorem evaluateProcedure_leaf (path : Path) (a : α) (action : Action) :
    evaluateProcedure ev path (Payload.toJson leafOf (.leaf a)) action =
      within (cString (leafOf a).name) (evaluateLeaf ev path (leafOf a) action) := by
  simp only [Payload.toJson, evaluateProcedure, evaluateLeaf, if_neg (leafOf a).notAnyOf,
    if_neg (leafOf a).notAllOf, if_neg (leafOf a).notNot]
  split <;> rfl

theorem evaluateProcedure_anyOf (path : Path) (fs : List (Formula α)) (action : Action) :
    evaluateProcedure ev path (Payload.toJson leafOf (.anyOf fs)) action =
      within anyOfName (evaluateItems ev path action .anyOf 0 (Payload.toJsons leafOf fs)
        ListAction.anyOf.unit) := by
  simp only [Payload.toJson, evaluateProcedure, evaluateList]
  rfl

theorem evaluateProcedure_allOf (path : Path) (fs : List (Formula α)) (action : Action) :
    evaluateProcedure ev path (Payload.toJson leafOf (.allOf fs)) action =
      within allOfName (evaluateItems ev path action .allOf 0 (Payload.toJsons leafOf fs)
        ListAction.allOf.unit) := by
  simp only [Payload.toJson, evaluateProcedure, evaluateList]
  rfl

theorem evaluateProcedure_not (path : Path) (f : Formula α) (action : Action) :
    evaluateProcedure ev path (Payload.toJson leafOf (.not f)) action =
      within notName (do
        let result ← evaluateProcedure ev (path ++ [.not]) (Payload.toJson leafOf f) .audit
        pure result.neg) := by
  obtain ⟨members, hm⟩ := Payload.toJson_object leafOf f
  have hnot : ∀ evaluate : EvalM W G Status,
      evaluateNot (.object members) evaluate = evaluate >>= fun result => pure result.neg := by
    intro evaluate
    refine congrArg (evaluate >>= ·) (funext fun result => ?_)
    cases result <;> rfl
  rw [Payload.toJson, evaluateProcedure.eq_def]
  dsimp only
  rw [if_neg (by decide), if_neg (by decide), if_pos (by decide)]
  rw [hm, hnot]
  rfl

section Evolves

variable {R : EvalState W G → EvalState W G → Prop} (refl : ∀ s, R s s)
  (trans : ∀ s t u, R s t → R t u → R s u) (applyOps : ∀ s ops, R s (EvalState.applyOps ops s))
include trans applyOps

private theorem within_evolves {name : Bytes} {body : EvalM W G Status} (h : Evolves R body) :
    Evolves R (within name body) := by
  intro s
  have hbody := trans _ _ _ (applyOps s [.push name]) (h (s.applyOps [.push name]))
  simp only [leaves, within_run] at hbody ⊢
  cases hrun : body (s.applyOps [.push name]) with
  | ok r t =>
    rw [hrun] at hbody
    exact trans _ _ _ hbody (applyOps t _)
  | error e t => rwa [hrun] at hbody

omit applyOps in
include refl in
private theorem items_evolve (fs : List (Formula α))
    (ih : ∀ f ∈ fs, ∀ path action, Evolves R (evaluateProcedure ev path (Payload.toJson leafOf f) action))
    (path : Path) (action : Action) (l : ListAction) (i : Nat) (acc : Status) :
    Evolves R (evaluateItems ev path action l i (Payload.toJsons leafOf fs) acc) := by
  induction fs generalizing i acc with
  | nil =>
    intro s
    simp only [Payload.toJsons, evaluateItems]
    exact refl s
  | cons f fs ihfs =>
    intro s
    simp only [Payload.toJsons, evaluateItems]
    refine leaves_bind trans (ih f List.mem_cons_self _ _ s) fun r t _ => ?_
    split
    · exact refl t
    · exact ihfs (fun g hg => ih g (List.mem_cons_of_mem _ hg)) _ _ t

include refl in
/-- What the leaves of a payload preserve, its evaluation preserves. -/
theorem payload_evolves (hleaf : ∀ path a action, Evolves R (evaluateLeaf ev path (leafOf a) action))
    (f : Formula α) (path : Path) (action : Action) :
    Evolves R (evaluateProcedure ev path (Payload.toJson leafOf f) action) := by
  induction f using Formula.ind generalizing path action with
  | leaf a =>
    rw [evaluateProcedure_leaf]
    exact within_evolves trans applyOps (hleaf path a action)
  | not f ih =>
    rw [evaluateProcedure_not]
    refine within_evolves trans applyOps fun s => ?_
    exact leaves_bind trans (ih _ _ s) fun r t _ => refl t
  | anyOf fs ih =>
    rw [evaluateProcedure_anyOf]
    exact within_evolves trans applyOps (items_evolve ev leafOf refl trans fs ih path action _ 0 _)
  | allOf fs ih =>
    rw [evaluateProcedure_allOf]
    exact within_evolves trans applyOps (items_evolve ev leafOf refl trans fs ih path action _ 0 _)

end Evolves

end Evaluator
end Kompli
