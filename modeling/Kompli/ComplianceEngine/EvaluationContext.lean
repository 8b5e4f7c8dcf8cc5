import Kompli.ComplianceEngine.Payload
import Kompli.Foundation.Agreement

/-! What an evaluation returns depends on the system and on the globals of the scripts only. -/
namespace Kompli
open Foundation

variable {W G : Type}

/-- States that an evaluation does not tell apart. -/
def Alike (s t : EvalState W G) : Prop := s.context = t.context ∧ s.luaGlobals = t.luaGlobals

/-- The same for what runs within a script. -/
def AlikeCall (s t : EvalState W G) : Prop := Alike s t ∧ s.luaCallContext = t.luaCallContext

theorem invoke_agrees (path : Path) (procedure procedure' : Bytes) (kind kind' : Action) (function : ActionFunc W)
    (arguments : ParameterMap) :
    Agree AlikeCall AlikeCall (invoke path procedure kind function arguments : EvalM W G _)
      (invoke path procedure' kind' function arguments) := by
  intro s t h
  obtain ⟨⟨hcontext, hglobals⟩, hcall⟩ := h
  refine ⟨by rw [hcontext], ⟨?_, hglobals⟩, hcall⟩
  simp [EvalState.invoked, hcontext]

namespace LuaEvaluator

private theorem wrapper_agrees (path : Path) (closure : LuaClosure W) (arguments : List LuaValue) :
    Agree AlikeCall AlikeCall (luaProcedureWrapper path closure arguments : EvalM W G _)
      (luaProcedureWrapper path closure arguments) := by
  refine Agree.get_bind fun s t h => ?_
  simp only [h.2]
  cases t.luaCallContext with
  | none => exact Agree.pure _
  | some callContext =>
    dsimp only
    split
    · exact Agree.pure _
    · split
      · exact Agree.pure _
      · exact Agree.bind (invoke_agrees path _ _ _ _ _ _) fun result => Agree.pure _

private theorem scriptOps_agrees (path : Path) (ops : List TreeOp) :
    Agree AlikeCall AlikeCall (scriptOps path ops : EvalM W G Unit) (scriptOps path ops) :=
  Agree.modifyState fun _ _ h => h

private theorem setIndicatorsDepth_agrees (depth : Nat) :
    Agree AlikeCall AlikeCall (setIndicatorsDepth depth : EvalM W G Unit) (setIndicatorsDepth depth) := by
  refine Agree.modifyState fun s t h => ⟨h.1, ?_⟩
  simp only [h.2]

private theorem push_agrees (path : Path) (arguments : List LuaValue) :
    Agree AlikeCall AlikeCall (luaIndicatorsPush path arguments : EvalM W G _)
      (luaIndicatorsPush path arguments) := by
  refine Agree.get_bind fun s t h => ?_
  simp only [h.2]
  cases t.luaCallContext with
  | none => exact Agree.pure _
  | some view =>
    dsimp only
    split
    · exact Agree.pure _
    · split
      · exact Agree.pure _
      · exact Agree.bind (scriptOps_agrees path _) fun _ =>
          Agree.bind (setIndicatorsDepth_agrees _) fun _ => Agree.pure _

private theorem pop_agrees (path : Path) (arguments : List LuaValue) :
    Agree AlikeCall AlikeCall (luaIndicatorsPop path arguments : EvalM W G _)
      (luaIndicatorsPop path arguments) := by
  refine Agree.get_bind fun s t h => ?_
  simp only [h.2]
  cases t.luaCallContext with
  | none => exact Agree.pure _
  | some view =>
    dsimp only
    split
    · exact Agree.pure _
    · split
      · exact Agree.pure _
      · exact Agree.pure _
      · exact Agree.bind (scriptOps_agrees path _) fun _ =>
          Agree.bind (setIndicatorsDepth_agrees _) fun _ => Agree.pure _
      · exact Agree.pure _

private theorem addIndicator_agrees (path : Path) (status : Status) (arguments : List LuaValue) :
    Agree AlikeCall AlikeCall (luaIndicatorsAddIndicator path status arguments : EvalM W G _)
      (luaIndicatorsAddIndicator path status arguments) := by
  refine Agree.get_bind fun s t h => ?_
  simp only [h.2]
  cases t.luaCallContext with
  | none => exact Agree.pure _
  | some _ =>
    dsimp only
    split
    · exact Agree.pure _
    · exact Agree.bind (scriptOps_agrees path _) fun _ => Agree.pure _

theorem callFunction_agrees (ce : ByteMap (LuaClosure W)) (path : Path) (function : LuaFunction W)
    (arguments : List LuaValue) :
    Agree AlikeCall AlikeCall (callFunction ce path function arguments : EvalM W G _)
      (callFunction ce path function arguments) := by
  cases function with
  | ce field =>
    simp only [callFunction]
    split
    · exact wrapper_agrees path _ arguments
    · exact Agree.pure _
  | indicatorsPush => exact push_agrees path arguments
  | indicatorsPop => exact pop_agrees path arguments
  | indicatorsCompliant => exact addIndicator_agrees path .compliant arguments
  | indicatorsNonCompliant => exact addIndicator_agrees path .nonCompliant arguments
  | host effect =>
    intro s t h
    obtain ⟨⟨hcontext, hglobals⟩, hcall⟩ := h
    simp only [callFunction, hcontext]
    exact ⟨rfl, ⟨rfl, hglobals⟩, hcall⟩

theorem run_agrees (ce : ByteMap (LuaClosure W)) (path : Path) (program : LuaProgram W G) :
    Agree AlikeCall AlikeCall (run ce path program) (run ce path program) := by
  induction program with
  | done values globals =>
    exact Agree.bind (Agree.modifyState fun s t h => ⟨⟨h.1.1, rfl⟩, h.2⟩) fun _ => Agree.pure _
  | failed error globals =>
    exact Agree.bind (Agree.modifyState fun s t h => ⟨⟨h.1.1, rfl⟩, h.2⟩) fun _ => Agree.pure _
  | call function arguments resume ih => exact Agree.bind (callFunction_agrees ce path function arguments) ih

private theorem conclude_agrees (vm : LuaVm W G) (values : List LuaValue) :
    Agree AlikeCall AlikeCall (conclude vm values) (conclude vm values) := by
  unfold conclude
  split
  · exact Agree.throw _ _
  · refine Agree.get_bind fun s t h => ?_
    simp only [h.2]
    split
    · exact Agree.throw _ _
    · exact Agree.bind (Agree.modifyState fun _ _ h => h) fun _ => Agree.pure _
  · split
    · exact Agree.throw _ _
    · exact Agree.throw _ _
  · exact Agree.throw _ _

theorem evaluate_agrees (vm : LuaVm W G) (ce : ByteMap (LuaClosure W)) (path : Path) (script : Bytes)
    (action : Action) :
    Agree Alike AlikeCall (evaluate vm ce path script action) (evaluate vm ce path script action) := by
  have hcall : ∀ s t : EvalState W G, Alike s t →
      AlikeCall { s with luaCallContext := some { action } } { t with luaCallContext := some { action } } :=
    fun s t h => ⟨h, rfl⟩
  refine Agree.bind (Agree.modifyState hcall) fun _ => Agree.get_bind fun s t h => ?_
  simp only [h.1.2]
  split
  · exact Agree.throw _ _
  · exact Agree.throw _ _
  · refine Agree.bind (run_agrees ce path _) fun result => ?_
    cases result with
    | error error => exact Agree.throw _ _
    | ok values => exact conclude_agrees vm values

end LuaEvaluator

namespace Evaluator

theorem ofExcept_agrees {α : Type} {R : EvalState W G → EvalState W G → Prop} (result : Except Error α) :
    Agree R R (ofExcept result : EvalM W G α) (ofExcept result) := by
  cases result with
  | ok a => exact Agree.pure a
  | error e => exact Agree.throw e e

theorem evaluateBuiltinProcedure_agrees (ev : Evaluator W G) (path : Path) (name : Bytes) (value : JsonValue)
    (action : Action) :
    Agree Alike Alike (evaluateBuiltinProcedure ev path name value action)
      (evaluateBuiltinProcedure ev path name value action) := by
  have hinvoke : ∀ (kind : Action) (function : ActionFunc W) (arguments : ParameterMap),
      Agree Alike Alike (invoke path name kind function arguments : EvalM W G _)
        (invoke path name kind function arguments) := by
    intro kind function arguments s t h
    refine ⟨by rw [h.1], ?_, h.2⟩
    simp [EvalState.invoked, h.1]
  unfold evaluateBuiltinProcedure
  split
  · refine Agree.bind (ofExcept_agrees _) fun arguments => ?_
    split
    · exact Agree.throw _ _
    · split
      · exact Agree.throw _ _
      · exact Agree.bind (hinvoke _ _ _) ofExcept_agrees
  · exact Agree.throw _ _

theorem evaluateLua_agrees (ev : Evaluator W G) (path : Path) (value : JsonValue) (action : Action) :
    Agree Alike Alike (evaluateLua ev path value action) (evaluateLua ev path value action) := by
  unfold evaluateLua
  split
  · refine Agree.bind (ofExcept_agrees _) fun arguments => ?_
    split
    · exact Agree.throw _ _
    · exact (LuaEvaluator.evaluate_agrees ev.lua _ path _ action).mono (fun _ _ => id) fun _ _ h => h.1
  · exact Agree.throw _ _

/-- A leaf and its record. -/
theorem leaf_agrees {R S : EvalState W G → EvalState W G → Prop} (path path' : Path)
    (hrecord : ∀ s t e e', S s t → S (s.record e) (t.record e')) {m n : EvalM W G Status} (h : Agree R S m n) :
    Agree R S (leaf path m) (leaf path' n) := by
  intro s t hst
  have hrun := h s t hst
  unfold leaf
  cases hm : m s with
  | ok a s' =>
    cases hn : n t with
    | ok b t' =>
      rw [hm, hn] at hrun
      exact ⟨hrun.1, hrecord _ _ _ _ hrun.2⟩
    | error e t' =>
      rw [hm, hn] at hrun
      exact hrun.elim
  | error e s' =>
    cases hn : n t with
    | ok b t' =>
      rw [hm, hn] at hrun
      exact hrun.elim
    | error e' t' => trivial

theorem evaluateLeaf_agrees (ev : Evaluator W G) (path : Path) (l : Leaf) (action : Action) :
    Agree Alike Alike (evaluateLeaf ev path l action) (evaluateLeaf ev path l action) := by
  unfold evaluateLeaf
  refine leaf_agrees path path (fun _ _ _ _ h => h) ?_
  split
  · exact evaluateLua_agrees ev path l.value action
  · exact evaluateBuiltinProcedure_agrees ev path _ l.value action

section Formula

variable {α : Type}

/-- The reading that `evaluate` gives of `within` and of the operators. -/
theorem within_agrees {R : EvalState W G → EvalState W G → Prop}
    (hops : ∀ s t ops ops', R s t → R (s.applyOps ops) (t.applyOps ops')) (name name' : Bytes)
    {m n : EvalM W G Status} (h : Agree R R m n) : Agree R R (within name m) (within name' n) :=
  Agree.bind (Agree.modifyState fun s t => hops s t _ _) fun _ =>
    Agree.bind h fun _ => Agree.bind (Agree.modifyState fun s t => hops s t _ _) fun _ => Agree.pure _

mutual
/-- `evaluateProcedure` of a formula whose leaves are evaluated in any way. -/
def evaluateFormula (evaluateAt : Path → α → Action → EvalM W G Status) (path : Path) :
    Formula α → Action → EvalM W G Status
  | .leaf a, action => evaluateAt path a action
  | .not f, _ => within notName (do
      let result ← evaluateFormula evaluateAt (path ++ [.not]) f .audit
      pure result.neg)
  | .anyOf fs, action => within anyOfName (evaluateOperands evaluateAt path action .anyOf 0 fs ListAction.anyOf.unit)
  | .allOf fs, action => within allOfName (evaluateOperands evaluateAt path action .allOf 0 fs ListAction.allOf.unit)
def evaluateOperands (evaluateAt : Path → α → Action → EvalM W G Status) (path : Path) (action : Action)
    (l : ListAction) (i : Nat) : List (Formula α) → Status → EvalM W G Status
  | [], accumulated => pure accumulated
  | f :: fs, accumulated => do
    let result ← evaluateFormula evaluateAt (path ++ [l.step i]) f action
    if result = l.decisive then pure l.decisive
    else
      evaluateOperands evaluateAt path action l (i + 1) fs
        (if result = .notApplicable then .notApplicable else accumulated)
end

/-- A payload is evaluated as its formula. -/
theorem evaluateProcedure_toJson (ev : Evaluator W G) (leafOf : α → Leaf) (f : Formula α) (path : Path)
    (action : Action) :
    evaluateProcedure ev path (Payload.toJson leafOf f) action =
      evaluateFormula (fun path a action => within (cString (leafOf a).name) (evaluateLeaf ev path (leafOf a) action))
        path f action := by
  have hitems : ∀ (l : ListAction) (action : Action) (fs : List (Formula α)),
      (∀ f ∈ fs, ∀ path action, evaluateProcedure ev path (Payload.toJson leafOf f) action =
        evaluateFormula (fun path a action => within (cString (leafOf a).name) (evaluateLeaf ev path (leafOf a) action))
          path f action) →
      ∀ (path : Path) (i : Nat) (accumulated : Status),
        evaluateItems ev path action l i (Payload.toJsons leafOf fs) accumulated =
          evaluateOperands (fun path a action => within (cString (leafOf a).name) (evaluateLeaf ev path (leafOf a) action))
            path action l i fs accumulated := by
    intro l action fs
    induction fs with
    | nil =>
      intro _ path i accumulated
      rw [Payload.toJsons, evaluateItems, evaluateOperands]
    | cons f fs ihfs =>
      intro ih path i accumulated
      rw [Payload.toJsons, evaluateItems, evaluateOperands, ih f List.mem_cons_self]
      refine congrArg (_ >>= ·) (funext fun result => ?_)
      split
      · rfl
      · exact ihfs (fun g hg => ih g (List.mem_cons_of_mem _ hg)) path _ _
  induction f using Formula.ind generalizing path action with
  | leaf a => rw [evaluateProcedure_leaf, evaluateFormula]
  | not f ih => rw [evaluateProcedure_not, evaluateFormula, ih]
  | anyOf fs ih => rw [evaluateProcedure_anyOf, evaluateFormula, hitems _ _ _ ih]
  | allOf fs ih => rw [evaluateProcedure_allOf, evaluateFormula, hitems _ _ _ ih]

/-- Formulas agree whose leaves do, under the action and under an audit. -/
theorem evaluateFormula_agrees {R : EvalState W G → EvalState W G → Prop}
    (hops : ∀ s t ops ops', R s t → R (s.applyOps ops) (t.applyOps ops'))
    {evaluateAt evaluateAt' : Path → α → Action → EvalM W G Status}
    (haudit : ∀ path a, Agree R R (evaluateAt path a .audit) (evaluateAt' path a .audit)) (f : Formula α)
    (path : Path) (action : Action)
    (hleaf : ∀ path a, Agree R R (evaluateAt path a action) (evaluateAt' path a action)) :
    Agree R R (evaluateFormula evaluateAt path f action) (evaluateFormula evaluateAt' path f action) := by
  have hoperands : ∀ (l : ListAction) (action : Action) (fs : List (Formula α)),
      (∀ f ∈ fs, ∀ path,
        Agree R R (evaluateFormula evaluateAt path f action) (evaluateFormula evaluateAt' path f action)) →
      ∀ (path : Path) (i : Nat) (accumulated : Status),
        Agree R R (evaluateOperands evaluateAt path action l i fs accumulated)
          (evaluateOperands evaluateAt' path action l i fs accumulated) := by
    intro l action fs
    induction fs with
    | nil =>
      intro _ path i accumulated
      rw [evaluateOperands, evaluateOperands]
      exact Agree.pure accumulated
    | cons f fs ihfs =>
      intro ih path i accumulated
      rw [evaluateOperands, evaluateOperands]
      refine Agree.bind (ih f List.mem_cons_self _) fun result => ?_
      split
      · exact Agree.pure _
      · exact ihfs (fun g hg => ih g (List.mem_cons_of_mem _ hg)) path _ _
  induction f using Formula.ind generalizing path action with
  | leaf a =>
    rw [evaluateFormula, evaluateFormula]
    exact hleaf path a
  | not f ih =>
    rw [evaluateFormula, evaluateFormula]
    exact within_agrees hops _ _ (Agree.bind (ih _ _ haudit) fun result => Agree.pure _)
  | anyOf fs ih =>
    rw [evaluateFormula, evaluateFormula]
    exact within_agrees hops _ _ (hoperands _ _ _ (fun f hf path => ih f hf path action hleaf) path _ _)
  | allOf fs ih =>
    rw [evaluateFormula, evaluateFormula]
    exact within_agrees hops _ _ (hoperands _ _ _ (fun f hf path => ih f hf path action hleaf) path _ _)

end Formula

end Evaluator
end Kompli
