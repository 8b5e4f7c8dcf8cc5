import Kompli.ComplianceEngine.Formatters
import Kompli.ComplianceEngine.JsonFormatter
import Kompli.ComplianceEngine.Trace
import Mathlib.Algebra.GroupWithZero.Nat

/-! When the tree of a successful evaluation is one that the formatters accept. -/
namespace Kompli
open Foundation

namespace Event

variable {W : Type}

/-- Every operation on the tree was safe where it was made. -/
def Safe : Event W → Prop
  | .invoked _ _ _ _ indicators _ outcome => TreeOp.AllSafe outcome.ops indicators
  | .scriptOps _ ops indicators => TreeOp.AllSafe ops indicators
  | .leaf _ _ => True

/-- The nodes a procedure opened and left open. -/
def leaked : Event W → Nat
  | .invoked _ _ _ _ _ _ outcome => outcome.leaked
  | _ => 0

def leaks (events : List (Event W)) : Nat := (events.map leaked).sum

@[simp] theorem leaks_nil : leaks ([] : List (Event W)) = 0 := rfl
@[simp] theorem leaks_append (es fs : List (Event W)) : leaks (es ++ fs) = leaks es + leaks fs := by
  simp [leaks]

theorem leaks_eq_zero_iff (events : List (Event W)) : leaks events = 0 ↔ ∀ e ∈ events, e.leaked = 0 := by
  induction events with
  | nil => simp
  | cons e events ih =>
    rw [List.forall_mem_cons, ← ih, ← Nat.add_eq_zero_iff]
    rfl

end Event

namespace LuaEvaluator

variable {W G : Type}

/-- A script can close only nodes it opened itself: with at least `indicatorsDepth` nodes above
`top`, it keeps `top` open, and only what it and its procedures opened lies above it. -/
def Moves (s t : EvalState W G) : Prop :=
  ∃ events, t.trace = s.trace ++ events ∧
    ∀ c nodes top below, s.luaCallContext = some c → s.indicators.OpenAt nodes top below →
      c.indicatorsDepth ≤ nodes.length →
      ∃ c' nodes' top', t.luaCallContext = some c' ∧ t.indicators.OpenAt nodes' top' below ∧
        nodes'.length + c.indicatorsDepth = nodes.length + c'.indicatorsDepth + Event.leaks events ∧
        top'.procedureName = top.procedureName ∧
        (t.indicators.Ok ↔ s.indicators.Ok ∧ ∀ e ∈ events, e.Safe)

theorem Moves.of_same {s t : EvalState W G} (htrace : t.trace = s.trace)
    (hindicators : t.indicators = s.indicators) (hctx : t.luaCallContext = s.luaCallContext) : Moves s t :=
  ⟨[], by simp [htrace], fun c nodes top below hc hopen hle =>
    ⟨c, nodes, top, hctx.trans hc, hindicators ▸ hopen, by simp, rfl, by simp [hindicators]⟩⟩

theorem Moves.refl (s : EvalState W G) : Moves s s := Moves.of_same rfl rfl rfl

theorem Moves.trans (s t u : EvalState W G) (hst : Moves s t) (htu : Moves t u) : Moves s u := by
  obtain ⟨es, hes, hs⟩ := hst
  obtain ⟨fs, hfs, ht⟩ := htu
  refine ⟨es ++ fs, by rw [hfs, hes, List.append_assoc], fun c nodes top below hc hopen hle => ?_⟩
  obtain ⟨c₁, nodes₁, top₁, hc₁, hopen₁, hlen₁, hname₁, hok₁⟩ := hs c nodes top below hc hopen hle
  obtain ⟨c₂, nodes₂, top₂, hc₂, hopen₂, hlen₂, hname₂, hok₂⟩ :=
    ht c₁ nodes₁ top₁ below hc₁ hopen₁ (by omega)
  refine ⟨c₂, nodes₂, top₂, hc₂, hopen₂, ?_, hname₂.trans hname₁, ?_⟩
  · rw [Event.leaks_append]
    omega
  · rw [hok₂, hok₁, List.forall_mem_append, and_assoc]

private theorem invoked_moves (path : Path) (procedure : Bytes) (kind : Action)
    (function : ActionFunc W) (arguments : ParameterMap) (s : EvalState W G) :
    Moves s (s.invoked path procedure kind function arguments) := by
  refine ⟨[_], rfl, fun c nodes top below hc hopen hle => ?_⟩
  have hdepth : TreeOp.depthAfter 0 (function arguments s.context).ops =
      some (function arguments s.context).leaked := by
    rw [ActionOutcome.leaked, Option.some_get]
  obtain ⟨⟨nodes', top', hopen', hlen, hname⟩, hok⟩ :=
    TreeOp.openAt_applyAll hdepth hopen (Nat.zero_le _)
  refine ⟨c, nodes', top', hc, hopen', ?_, hname, ?_⟩
  · simp only [Event.leaks, List.map_cons, List.map_nil, List.sum_cons, List.sum_nil, Event.leaked]
    omega
  · rw [List.forall_mem_singleton]
    exact hok

private theorem scriptOps_moves {path : Path} {ops : List TreeOp} {c : LuaCallContext} {d : Nat}
    (hd : TreeOp.depthAfter c.indicatorsDepth ops = some d) {s t : EvalState W G}
    (hc : s.luaCallContext = some c) (htrace : t.trace = s.trace ++ [.scriptOps path ops s.indicators])
    (hindicators : t.indicators = TreeOp.applyAll ops s.indicators)
    (hctx : t.luaCallContext = some { c with indicatorsDepth := d }) : Moves s t := by
  refine ⟨[_], htrace, fun c' nodes top below hc' hopen hle => ?_⟩
  rw [hc, Option.some.injEq] at hc'
  subst hc'
  obtain ⟨⟨nodes', top', hopen', hlen, hname⟩, hok⟩ := TreeOp.openAt_applyAll hd hopen hle
  rw [← hindicators] at hopen' hok
  refine ⟨_, nodes', top', hctx, hopen', ?_, hname, ?_⟩
  · simpa [Event.leaks, Event.leaked] using hlen
  · rw [List.forall_mem_singleton]
    exact hok

private theorem wrapper_moves (path : Path) (closure : LuaClosure W) (arguments : List LuaValue)
    (s : EvalState W G) : Moves s (leaves (luaProcedureWrapper path closure arguments) s) := by
  unfold luaProcedureWrapper
  rw [leaves_get_bind]
  cases s.luaCallContext with
  | none => exact Moves.refl s
  | some callContext =>
    dsimp only
    split
    · exact Moves.refl s
    split
    · exact Moves.refl s
    · next args _ => exact invoked_moves path closure.procedure closure.kind closure.function args s

private theorem push_moves (path : Path) (arguments : List LuaValue) (s : EvalState W G) :
    Moves s (leaves (luaIndicatorsPush path arguments) s) := by
  unfold luaIndicatorsPush
  rw [leaves_get_bind]
  cases hc : s.luaCallContext with
  | none => exact Moves.refl s
  | some view =>
    dsimp only
    split
    · exact Moves.refl s
    split
    · exact Moves.refl s
    · next name _ =>
      have hd : TreeOp.depthAfter view.indicatorsDepth [.push name] = some (view.indicatorsDepth + 1) := rfl
      refine scriptOps_moves hd hc rfl rfl ?_
      change Option.map _ s.luaCallContext = _
      rw [hc]
      rfl

private theorem pop_moves (path : Path) (arguments : List LuaValue) (s : EvalState W G) :
    Moves s (leaves (luaIndicatorsPop path arguments) s) := by
  unfold luaIndicatorsPop
  rw [leaves_get_bind]
  cases hc : s.luaCallContext with
  | none => exact Moves.refl s
  | some view =>
    dsimp only
    split
    · exact Moves.refl s
    · next hdepth =>
      split
      · exact Moves.refl s
      · exact Moves.refl s
      · next status _ =>
        have hd : TreeOp.depthAfter view.indicatorsDepth
            [.setStatus (if status then .compliant else .nonCompliant), .pop] =
              some (view.indicatorsDepth - 1) := by
          obtain ⟨action, depth⟩ := view
          cases depth with
          | zero => exact absurd rfl hdepth
          | succ depth => rfl
        refine scriptOps_moves hd hc rfl rfl ?_
        change Option.map _ s.luaCallContext = _
        rw [hc]
        rfl
      · exact Moves.refl s

private theorem addIndicator_moves (path : Path) (status : Status) (arguments : List LuaValue)
    (s : EvalState W G) : Moves s (leaves (luaIndicatorsAddIndicator path status arguments) s) := by
  unfold luaIndicatorsAddIndicator
  rw [leaves_get_bind]
  cases hc : s.luaCallContext with
  | none => exact Moves.refl s
  | some view =>
    dsimp only
    split
    · exact Moves.refl s
    · next message _ =>
      have hd : TreeOp.depthAfter view.indicatorsDepth [.addIndicator message status] =
          some view.indicatorsDepth := by
        cases h : view.indicatorsDepth <;> rfl
      exact scriptOps_moves hd hc rfl rfl hc

theorem callFunction_moves (ce : ByteMap (LuaClosure W)) (path : Path) (function : LuaFunction W)
    (arguments : List LuaValue) (s : EvalState W G) :
    Moves s (leaves (callFunction ce path function arguments) s) := by
  cases function with
  | ce field =>
    simp only [callFunction]
    split
    · exact wrapper_moves path _ arguments s
    · exact Moves.refl s
  | indicatorsPush => exact push_moves path arguments s
  | indicatorsPop => exact pop_moves path arguments s
  | indicatorsCompliant => exact addIndicator_moves path .compliant arguments s
  | indicatorsNonCompliant => exact addIndicator_moves path .nonCompliant arguments s
  | host effect => exact Moves.of_same rfl rfl rfl

theorem run_moves (ce : ByteMap (LuaClosure W)) (path : Path) (program : LuaProgram W G)
    (s : EvalState W G) : Moves s (leaves (run ce path program) s) := by
  induction program generalizing s with
  | done values globals => exact Moves.of_same rfl rfl rfl
  | failed error globals => exact Moves.of_same rfl rfl rfl
  | call function arguments resume ih =>
    simp only [run]
    exact leaves_bind Moves.trans (callFunction_moves ce path function arguments s)
      fun reply t _ => ih reply t

end LuaEvaluator

namespace Evaluator

variable {W G : Type}

/-- A successful part of an evaluation, from a state whose innermost open node `top` satisfies
`P`. As many nodes more are open after it as its procedures left open. If they left none, `top`
is still the innermost node, related by `Q` to what it was, and the tree is acceptable exactly
when it was before and every operation was safe. -/
def Grows (P : Node → Prop) (Q : Node → Node → Prop) (s t : EvalState W G) : Prop :=
  ∃ events, t.trace = s.trace ++ events ∧
    ∀ top below, s.indicators.OpenAt [] top below →
      t.indicators.root = none ∧
      t.indicators.stack.length = below.length + 1 + Event.leaks events ∧
      (Event.leaks events = 0 → P top →
        ∃ top', t.indicators.OpenAt [] top' below ∧ Q top top' ∧
          (t.indicators.Ok ↔ s.indicators.Ok ∧ ∀ e ∈ events, e.Safe))

theorem Grows.trans {P P' : Node → Prop} {Q Q' Q'' : Node → Node → Prop} {s t u : EvalState W G}
    (hst : Grows P Q s t) (htu : Grows P' Q' t u) (hP : ∀ a b, P a → Q a b → P' b)
    (hQ : ∀ a b c, P a → Q a b → Q' b c → Q'' a c) : Grows P Q'' s u := by
  obtain ⟨es, hes, hs⟩ := hst
  obtain ⟨fs, hfs, ht⟩ := htu
  refine ⟨es ++ fs, by rw [hfs, hes, List.append_assoc], fun top below hopen => ?_⟩
  obtain ⟨hroot₁, hlen₁, hgrow₁⟩ := hs top below hopen
  obtain ⟨inner, outer, hstack⟩ : ∃ inner outer, t.indicators.stack = inner :: outer := by
    cases h : t.indicators.stack with
    | nil =>
      rw [h, List.length_nil] at hlen₁
      omega
    | cons inner outer => exact ⟨inner, outer, rfl⟩
  obtain ⟨hroot₂, hlen₂, -⟩ := ht inner outer ⟨hroot₁, hstack⟩
  rw [hstack, List.length_cons] at hlen₁
  refine ⟨hroot₂, by rw [hlen₂, Event.leaks_append]; omega, fun hleaks hp => ?_⟩
  rw [Event.leaks_append, Nat.add_eq_zero_iff] at hleaks
  obtain ⟨top₁, hopen₁, hq₁, hok₁⟩ := hgrow₁ hleaks.1 hp
  obtain ⟨-, -, hgrow₂⟩ := ht top₁ below hopen₁
  obtain ⟨top₂, hopen₂, hq₂, hok₂⟩ := hgrow₂ hleaks.2 (hP top top₁ hp hq₁)
  refine ⟨top₂, hopen₂, hQ top top₁ top₂ hp hq₁ hq₂, ?_⟩
  rw [hok₂, hok₁, List.forall_mem_append, and_assoc]

theorem Grows.mono {P P' : Node → Prop} {Q Q' : Node → Node → Prop} {s t : EvalState W G}
    (h : Grows P Q s t) (hP : ∀ a, P' a → P a) (hQ : ∀ a b, Q a b → Q' a b) : Grows P' Q' s t := by
  obtain ⟨events, htrace, h⟩ := h
  refine ⟨events, htrace, fun top below hopen => ?_⟩
  obtain ⟨hroot, hlen, hgrow⟩ := h top below hopen
  refine ⟨hroot, hlen, fun hleaks hp => ?_⟩
  obtain ⟨top', hopen', hq, hok⟩ := hgrow hleaks (hP top hp)
  exact ⟨top', hopen', hQ top top' hq, hok⟩

/-- The node of a leaf keeps its name. -/
def SameName (a b : Node) : Prop := b.procedureName = a.procedureName

/-- A successful evaluation adds one child, which has the status it returned. -/
def AddsChild (status : Status) (a b : Node) : Prop := ∃ child, b = a.addChild child ∧ child.status = status

/-- A leaf, whose `nodes` left open above its own are those that procedures left open. -/
private theorem Grows.of_leaf {s t : EvalState W G}
    (h : ∃ events, t.trace = s.trace ++ events ∧ ∀ top below, s.indicators.OpenAt [] top below →
      ∃ nodes top', t.indicators.OpenAt nodes top' below ∧ nodes.length = Event.leaks events ∧
        SameName top top' ∧ (t.indicators.Ok ↔ s.indicators.Ok ∧ ∀ e ∈ events, e.Safe)) :
    Grows (fun _ => True) SameName s t := by
  obtain ⟨events, htrace, h⟩ := h
  refine ⟨events, htrace, fun top below hopen => ?_⟩
  obtain ⟨nodes, top', hopen', hlen, hname, hok⟩ := h top below hopen
  refine ⟨hopen'.root, ?_, fun hleaks _ => ?_⟩
  · rw [hopen'.stack, List.length_append, List.length_cons, hlen]
    omega
  · rw [hleaks, List.length_eq_zero_iff] at hlen
    subst hlen
    exact ⟨top', hopen', hname, hok⟩

private theorem builtin_grows {ev : Evaluator W G} {path : Path} {name : Bytes} {value : JsonValue}
    {action : Action} {s t : EvalState W G} {r : Status}
    (h : evaluateBuiltinProcedure ev path name value action s = .ok r t) :
    Grows (fun _ => True) SameName s t := by
  obtain ⟨-, arguments, -, kind, function, -, -, -, -, hinvoke⟩ := evaluateBuiltinProcedure_ok_iff.mp h
  simp only [invoke, EStateM.Result.ok.injEq] at hinvoke
  obtain ⟨-, rfl⟩ := hinvoke
  refine Grows.of_leaf ⟨[_], rfl, fun top below hopen => ?_⟩
  have hdepth : TreeOp.depthAfter 0 (function arguments s.context).ops =
      some (function arguments s.context).leaked := by
    rw [ActionOutcome.leaked, Option.some_get]
  obtain ⟨⟨nodes, top', hopen', hlen, hname⟩, hok⟩ :=
    TreeOp.openAt_applyAll hdepth hopen (Nat.zero_le _)
  refine ⟨nodes, top', hopen', ?_, hname, ?_⟩
  · simpa [Event.leaks, Event.leaked] using hlen
  · rw [List.forall_mem_singleton]
    exact hok

/-- How a script succeeds: it returns a boolean with none of its own nodes open. -/
private theorem conclude_ok {vm : LuaVm W G} {values : List LuaValue} {s t : EvalState W G} {r : Status}
    (h : LuaEvaluator.conclude vm values s = .ok r t) :
    s.luaCallContext.any (0 < ·.indicatorsDepth) = false ∧
      ∃ message, t = s.applyOps [.addIndicator message r] := by
  unfold LuaEvaluator.conclude at h
  split at h
  · cases h
  · next isCompliant rest =>
    obtain ⟨s', s'', hget, h⟩ := bind_ok_iff.mp h
    cases hget
    split at h
    · cases h
    · next hdepth =>
      cases h
      exact ⟨by simpa using hdepth, _, rfl⟩
  · split at h <;> cases h
  · cases h

private theorem lua_evaluate_grows {vm : LuaVm W G} {ce : ByteMap (LuaClosure W)} {path : Path}
    {script : Bytes} {action : Action} {s t : EvalState W G} {r : Status}
    (h : LuaEvaluator.evaluate vm ce path script action s = .ok r t) :
    Grows (fun _ => True) SameName s t := by
  unfold LuaEvaluator.evaluate at h
  obtain ⟨⟨⟩, s₁, hs₁, h⟩ := bind_ok_iff.mp h
  rw [modify_run, EStateM.Result.ok.injEq] at hs₁
  obtain ⟨-, rfl⟩ := hs₁
  obtain ⟨_, _, hget, h⟩ := bind_ok_iff.mp h
  cases hget
  cases hload : vm.load (cString script) s.luaGlobals with
  | compilationFailed error => simp only [hload] at h; cases h
  | withoutEnvironment => simp only [hload] at h; cases h
  | loaded program =>
    simp only [hload] at h
    obtain ⟨values, u, hrun, h⟩ := bind_ok_iff.mp h
    cases values with
    | error e => cases h
    | ok values =>
      obtain ⟨hdepth, message, rfl⟩ := conclude_ok h
      have hmoves := LuaEvaluator.run_moves ce path program { s with luaCallContext := some { action } }
      rw [leaves_of_ok hrun] at hmoves
      obtain ⟨events, htrace, hmoves⟩ := hmoves
      refine Grows.of_leaf ⟨events, htrace, fun top below hopen => ?_⟩
      obtain ⟨c, nodes, top', hc, hopen', hlen, hname, hok⟩ :=
        hmoves { action } [] top below rfl hopen (Nat.zero_le _)
      rw [hc] at hdepth
      have hzero : c.indicatorsDepth = 0 := by simpa using hdepth
      -- the message of the verdict goes to the innermost node
      have hd : TreeOp.depthAfter 0 [.addIndicator message r] = some 0 := rfl
      obtain ⟨⟨nodes', top'', hopen'', hlen', hname'⟩, hok'⟩ :=
        TreeOp.openAt_applyAll hd hopen' (Nat.zero_le _)
      refine ⟨nodes', top'', hopen'', ?_, hname'.trans hname, ?_⟩
      · rw [hzero] at hlen
        simp only [List.length_nil] at hlen
        omega
      · refine hok'.trans ?_
        rw [hok]
        simp [TreeOp.AllSafe, TreeOp.Safe]

private theorem leaf_grows {P : Node → Prop} {Q : Node → Node → Prop} {path : Path}
    {body : EvalM W G Status} {s t : EvalState W G} {r : Status}
    (hbody : ∀ u, body s = .ok r u → Grows P Q s u) (h : leaf path body s = .ok r t) : Grows P Q s t := by
  cases hrun : body s with
  | error e u => simp [leaf, hrun] at h
  | ok r' u =>
    simp only [leaf, hrun, EStateM.Result.ok.injEq] at h
    obtain ⟨rfl, rfl⟩ := h
    obtain ⟨events, htrace, hgrow⟩ := hbody u hrun
    refine ⟨events ++ [.leaf path (.ok r')], by rw [EvalState.record_trace, htrace, List.append_assoc], ?_⟩
    intro top below hopen
    have hleaks : Event.leaks (events ++ [.leaf path (.ok r')]) = Event.leaks events := by
      rw [Event.leaks_append]
      rfl
    obtain ⟨hroot, hlen, hgrow⟩ := hgrow top below hopen
    rw [hleaks]
    refine ⟨hroot, hlen, fun hl hp => ?_⟩
    obtain ⟨top', hopen', hq, hok⟩ := hgrow hl hp
    refine ⟨top', hopen', hq, hok.trans ?_⟩
    simp [or_imp, forall_and, Event.Safe]

/-- Opening a node, evaluating inside it, and closing it with its status. -/
private theorem within_grows {P : Node → Prop} {Q : Node → Node → Prop} {name : Bytes}
    {body : EvalM W G Status} {s t : EvalState W G} {r : Status}
    (hbody : ∀ u, body (s.applyOps [.push name]) = .ok r u → Grows P Q (s.applyOps [.push name]) u)
    (hP : P { procedureName := name }) (hQ : ∀ n, Q { procedureName := name } n → n.CanClose)
    (h : within name body s = .ok r t) : Grows Node.CanOpen (AddsChild r) s t := by
  obtain ⟨u, hrun, rfl⟩ := within_ok_iff.mp h
  obtain ⟨events, htrace, hgrow⟩ := hbody u hrun
  refine ⟨events, htrace, fun top below hopen => ?_⟩
  have hpush : (s.applyOps [.push name]).indicators.OpenAt [] { procedureName := name } (top :: below) := by
    obtain ⟨hroot, hstack⟩ := hopen
    constructor <;> simp [TreeOp.apply, IndicatorsTree.push, hroot, hstack]
  obtain ⟨hroot, hlen, hgrow⟩ := hgrow _ _ hpush
  obtain ⟨inner, parent, outer, hstack⟩ : ∃ inner parent outer,
      u.indicators.stack = inner :: parent :: outer := by
    rcases hstack : u.indicators.stack with _ | ⟨inner, _ | ⟨parent, outer⟩⟩
    · rw [hstack] at hlen
      simp only [List.length_nil, List.length_cons] at hlen
      omega
    · rw [hstack] at hlen
      simp only [List.length_nil, List.length_cons] at hlen
      omega
    · exact ⟨inner, parent, outer, rfl⟩
  have hclosed : (u.applyOps [.setStatus r, .pop]).indicators =
      { root := none, stack := parent.addChild { inner with status := r } :: outer } := by
    simp only [EvalState.applyOps_indicators, TreeOp.applyAll_cons, TreeOp.applyAll_nil, TreeOp.apply,
      IndicatorsTree.setStatus, IndicatorsTree.pop, hstack, hroot]
  rw [hclosed]
  rw [hstack] at hlen
  refine ⟨rfl, ?_, fun hleaks hopenable => ?_⟩
  · simp only [List.length_cons] at hlen ⊢
    omega
  · obtain ⟨new, hnew, hq, hok⟩ := hgrow hleaks hP
    have hnewstack := hnew.stack
    rw [hstack] at hnewstack
    obtain ⟨rfl, rfl, rfl⟩ : inner = new ∧ parent = top ∧ outer = below := by simpa using hnewstack
    refine ⟨_, ⟨rfl, rfl⟩, ⟨{ inner with status := r }, rfl, rfl⟩, ?_⟩
    -- opening and closing the node are safe
    have hpushok : (s.applyOps [.push name]).indicators.Ok ↔ s.indicators.Ok ∧ parent.CanOpen := by
      refine (TreeOp.ok_apply (.push name) hopen.root).trans ?_
      simp [TreeOp.Safe, hopen.stack]
    have hcloseok : (u.applyOps [.setStatus r, .pop]).indicators.Ok ↔ u.indicators.Ok := by
      refine (TreeOp.ok_close r u.indicators).trans (and_iff_left ?_)
      simpa [hstack] using hQ inner hq
    rw [← hclosed, hcloseok, hok, hpushok, and_iff_left hopenable]

/-- After a child that does not decide the list, another may follow. -/
private theorem canOpen_addChild {l : ListAction} {r : Status} (hr : r ≠ l.decisive) {a b : Node}
    (hname : a.procedureName = l.name) (h : AddsChild r a b) :
    b.procedureName = l.name ∧ b.CanOpen := by
  obtain ⟨child, rfl, rfl⟩ := h
  refine ⟨hname, fun hany => ?_⟩
  rw [Node.addChild_procedureName, hname] at hany
  cases l with
  | allOf => exact absurd hany (by decide)
  | anyOf => simpa [ListAction.decisive] using hr

/-- The loop of a list, in its own node, which stays open. -/
private theorem items_grow (ev : Evaluator W G) (items : List JsonValue)
    (ih : ∀ item ∈ items, ∀ path action s t r, evaluateProcedure ev path item action s = .ok r t →
      Grows Node.CanOpen (AddsChild r) s t)
    (path : Path) (action : Action) (l : ListAction) (i : Nat) (acc : Status) (s t : EvalState W G)
    (r : Status) (h : evaluateItems ev path action l i items acc s = .ok r t) :
    Grows (fun top => top.procedureName = l.name ∧ top.CanOpen) SameName s t := by
  have hadds : ∀ (r : Status) (a b : Node), AddsChild r a b → SameName a b := by
    rintro r a _ ⟨child, rfl, -⟩
    rfl
  induction items generalizing i acc s with
  | nil =>
    simp only [evaluateItems, pure_run, EStateM.Result.ok.injEq] at h
    obtain ⟨-, rfl⟩ := h
    exact ⟨[], by simp, fun top below hopen =>
      ⟨hopen.root, by simp [hopen.stack], fun _ _ => ⟨top, hopen, rfl, by simp⟩⟩⟩
  | cons item rest ihrest =>
    simp only [evaluateItems] at h
    obtain ⟨r', u, hitem, h⟩ := bind_ok_iff.mp h
    have hgrow := ih item List.mem_cons_self _ _ _ _ _ hitem
    split at h
    · simp only [pure_run, EStateM.Result.ok.injEq] at h
      obtain ⟨-, rfl⟩ := h
      exact hgrow.mono (fun a ha => ha.2) (hadds r')
    · next hne =>
      have hrest := ihrest (fun x hx => ih x (List.mem_cons_of_mem _ hx)) _ _ _ h
      refine (hgrow.mono (fun a (ha : a.procedureName = l.name ∧ a.CanOpen) => ha.2)
        fun _ _ hab => hab).trans hrest ?_ ?_
      · exact fun a b ha hab => canOpen_addChild hne ha.1 hab
      · exact fun a b c _ hab hbc => hbc.trans (hadds r' a b hab)

private theorem fresh_canOpen (name : Bytes) : Node.CanOpen { procedureName := name } := by
  intro _
  simp

private theorem list_within_grows {l : ListAction} {body : EvalM W G Status} {s t : EvalState W G}
    {r : Status} (hbody : ∀ s t r, body s = .ok r t →
      Grows (fun top => top.procedureName = l.name ∧ top.CanOpen) SameName s t)
    (h : within l.name body s = .ok r t) : Grows Node.CanOpen (AddsChild r) s t := by
  refine within_grows (fun u hu => hbody _ _ _ hu) ⟨rfl, fresh_canOpen _⟩ (fun n hn hnot => ?_) h
  have hname : l.name = notName := hn.symm.trans hnot
  exact absurd hname (by cases l <;> decide)

private theorem leaf_within_grows {path : Path} {name : Bytes} (hname : name ≠ notName)
    {body : EvalM W G Status} {s t : EvalState W G} {r : Status}
    (hbody : ∀ s t r, body s = .ok r t → Grows (fun _ => True) SameName s t)
    (h : within name (leaf path body) s = .ok r t) : Grows Node.CanOpen (AddsChild r) s t := by
  refine within_grows (fun u hu => leaf_grows (fun v hv => hbody _ _ _ hv) hu) trivial ?_ h
  exact fun n hn hnot => absurd (hn.symm.trans hnot) hname

private theorem not_within_grows {value : JsonValue} {evaluate : EvalM W G Status} {s t : EvalState W G}
    {r : Status} (hevaluate : ∀ s t r, evaluate s = .ok r t → Grows Node.CanOpen (AddsChild r) s t)
    (h : within notName (evaluateNot value evaluate) s = .ok r t) :
    Grows Node.CanOpen (AddsChild r) s t := by
  suffices hbody : ∀ u, evaluateNot value evaluate (s.applyOps [.push notName]) = .ok r u →
      Grows Node.CanOpen (fun _ n => n.children ≠ []) (s.applyOps [.push notName]) u from
    within_grows hbody (fresh_canOpen _) (fun n hn _ => hn) h
  intro u hu
  cases value with
  | object members =>
    obtain ⟨r', u', hrun, hu⟩ := bind_ok_iff.mp hu
    have hsame : u = u' := by cases r' <;> cases hu <;> rfl
    subst hsame
    refine (hevaluate _ _ _ hrun).mono (fun _ ha => ha) ?_
    rintro a _ ⟨child, rfl, -⟩
    simp
  | _ => simp [evaluateNot] at hu

private theorem lua_grows {ev : Evaluator W G} {path : Path} {value : JsonValue} {action : Action}
    {s t : EvalState W G} {r : Status} (h : evaluateLua ev path value action s = .ok r t) :
    Grows (fun _ => True) SameName s t := by
  cases value with
  | object members =>
    obtain ⟨arguments, u, hargs, hrun⟩ := bind_ok_iff.mp h
    obtain ⟨-, rfl⟩ := ofExcept_ok_iff.mp hargs
    cases hscript : arguments[utf8 "script"]? with
    | none => simp [hscript] at hrun
    | some script =>
      simp only [hscript] at hrun
      exact lua_evaluate_grows hrun
  | _ => simp [evaluateLua] at h

/-- A successful evaluation adds one child to the innermost open node. -/
theorem evaluateProcedure_grows (ev : Evaluator W G) (object : JsonValue) (path : Path) (action : Action)
    (s t : EvalState W G) (r : Status) (h : evaluateProcedure ev path object action s = .ok r t) :
    Grows Node.CanOpen (AddsChild r) s t := by
  suffices hall : ∀ v : JsonValue,
      (∀ path action s t r, evaluateProcedure ev path v action s = .ok r t →
        Grows Node.CanOpen (AddsChild r) s t) ∧
      ∀ path action l s t r, evaluateList ev path v action l s = .ok r t →
        Grows (fun top => top.procedureName = l.name ∧ top.CanOpen) SameName s t from
    (hall object).1 path action s t r h
  clear h
  intro v
  induction v using JsonValue.ind with
  | object members ih =>
    refine ⟨fun path action s t r h => ?_, fun path action l s t r h => by simp [evaluateList] at h⟩
    cases members with
    | nil => simp [evaluateProcedure] at h
    | cons member rest =>
      obtain ⟨key, value⟩ := member
      obtain ⟨hproc, hlist⟩ := ih (key, value) List.mem_cons_self
      simp only [evaluateProcedure] at h
      split at h
      · next hany =>
        rw [hany] at h
        exact list_within_grows (hlist path action .anyOf) h
      split at h
      · next hall =>
        rw [hall] at h
        exact list_within_grows (hlist path action .allOf) h
      split at h
      · next hnot =>
        rw [hnot] at h
        exact not_within_grows (hproc (path ++ [.not]) .audit) h
      · next hnot =>
        split at h
        · exact leaf_within_grows hnot (fun s t r => lua_grows) h
        · exact leaf_within_grows hnot (fun s t r => builtin_grows) h
  | array items ih =>
    refine ⟨fun path action s t r h => by simp [evaluateProcedure] at h, ?_⟩
    intro path action l s t r h
    simp only [evaluateList] at h
    exact items_grow ev items (fun x hx => (ih x hx).1) path action l 0 _ s t r h
  | _ =>
    exact ⟨fun path action s t r h => by simp [evaluateProcedure] at h,
      fun path action l s t r h => by simp [evaluateList] at h⟩

/-- The stack of open nodes is back at the root, which is now closed, and the tree is one the
formatters accept. -/
def LeavesFormattable (t : EvalState W G) : Prop :=
  t.indicators.stack = [] ∧ ∃ root, t.indicators.root = some root ∧ root.Formattable

private theorem executeAudit_grows {ev : Evaluator W G} {ruleName : Bytes} {context : W}
    {json : JsonValue} {formatter : PayloadFormatter} {result : AuditResult} {t : EvalState W G}
    (h : executeAudit ev json formatter (ev.initialState ruleName context) = .ok result t) :
    ∃ u, t = closed result.status u ∧
      u.indicators.stack.length = 1 + Event.leaks t.trace ∧
      (Event.leaks t.trace = 0 → ∃ top, u.indicators.OpenAt [] top [] ∧ top.children ≠ [] ∧
        (u.indicators.Ok ↔ ∀ e ∈ t.trace, e.Safe)) := by
  cases hrun : evaluateProcedure ev [] json .audit (ev.initialState ruleName context) with
  | error e u =>
    rw [executeAudit_of_error formatter hrun] at h
    cases h
  | ok r u =>
    rw [executeAudit_of_ok formatter hrun, EStateM.Result.ok.injEq] at h
    obtain ⟨rfl, rfl⟩ := h
    obtain ⟨events, htrace, hgrow⟩ := evaluateProcedure_grows ev json [] .audit _ _ r hrun
    have hevents : (closed r u).trace = events := htrace
    obtain ⟨hroot, hlen, hgrow⟩ := hgrow { procedureName := ruleName } [] ⟨rfl, rfl⟩
    rw [hevents]
    refine ⟨u, rfl, by simpa using hlen, fun hleaks => ?_⟩
    obtain ⟨top, hopen, ⟨child, rfl, -⟩, hok⟩ := hgrow hleaks (fresh_canOpen _)
    have hinitial : (ev.initialState ruleName context).indicators.Ok := by
      simp [initialState, IndicatorsTree.push, IndicatorsTree.Ok, Node.InnermostOk]
    exact ⟨_, hopen, by simp, by rw [hok, and_iff_right hinitial]⟩

/-- Closing the rule's node, the only one open, closes the tree. -/
private theorem closed_formattable {u : EvalState W G} {top : Node} (hopen : u.indicators.OpenAt [] top [])
    (htop : top.children ≠ []) (r : Status) : LeavesFormattable (closed r u) ↔ u.indicators.Ok := by
  have hclosed : (closed r u).indicators = { root := some { top with status := r }, stack := [] } := by
    simp [closed, TreeOp.apply, IndicatorsTree.setStatus, IndicatorsTree.pop, hopen.stack]
  have hok := TreeOp.ok_close r u.indicators
  rw [and_iff_left (by simpa [hopen.stack, Node.CanClose] using fun _ => htop)] at hok
  rw [← hok]
  change _ ↔ (closed r u).indicators.Ok
  rw [LeavesFormattable, hclosed]
  simp [IndicatorsTree.Ok]

/-- A successful audit leaves a tree that the formatters accept exactly when no procedure left a
node open and no script or procedure opened a node after a Compliant child of an anyOf or closed
a not without children; and then no formatter fails. -/
theorem audit_leaves_formattable_iff (ev : Evaluator W G) (ruleName : Bytes) (context : W)
    (json : JsonValue) (formatter : PayloadFormatter) (result : AuditResult) (t : EvalState W G)
    (h : executeAudit ev json formatter (ev.initialState ruleName context) = .ok result t) :
    (LeavesFormattable t ↔ ∀ e ∈ t.trace, e.leaked = 0 ∧ e.Safe) ∧
    (LeavesFormattable t → (NestedListFormatter.format t.indicators).isSome ∧
      (CompactListFormatter.format t.indicators).isSome ∧ (DebugFormatter.format t.indicators).isSome ∧
      (LastIncomplianceFormatter.format t.indicators).isSome ∧
      ∀ num, (JsonFormatter.format num t.indicators).isSome) := by
  constructor
  · obtain ⟨u, ht, hlen, hgrow⟩ := executeAudit_grows h
    by_cases hleaks : Event.leaks t.trace = 0
    · obtain ⟨top, hopen, htop, hok⟩ := hgrow hleaks
      have hnone := (Event.leaks_eq_zero_iff t.trace).mp hleaks
      rw [ht, closed_formattable hopen htop, ← ht, hok]
      exact ⟨fun hsafe e he => ⟨hnone e he, hsafe e he⟩, fun hall e he => (hall e he).2⟩
    · refine iff_of_false (fun hback => ?_) fun hall =>
        hleaks ((Event.leaks_eq_zero_iff t.trace).mpr fun e he => (hall e he).1)
      have hclosed : t.indicators.stack.length = u.indicators.stack.length - 1 := by
        rw [ht]
        simp [closed, TreeOp.apply]
      rw [hback.1, List.length_nil] at hclosed
      omega
  · rintro ⟨hstack, root, hroot, hformattable⟩
    have hroot : t.indicators.getRootNode = some root := by rwa [IndicatorsTree.getRootNode, hstack]
    obtain ⟨hnested, hcompact, hdebug, hlast⟩ := formatters_isSome hroot hformattable
    exact ⟨hnested, hcompact, hdebug, hlast, fun num => JsonFormatter.format_isSome num hroot⟩

/-- An interpreter that knows one script, which makes the calls of `program`. -/
private def oneScript (program : LuaProgram Unit Unit) : Evaluator Unit Unit where
  procedureMap := ∅
  parameters := ∅
  lua := ⟨(), fun script _ => if script = utf8 "script" then .loaded program else .compilationFailed .nil,
    fun _ => false⟩

private def luaPayload : JsonValue :=
  .object [(luaName, .object [(utf8 "script", .string (utf8 "script"))])]

/-- The calls of a script in order, whatever they return, and then `return true`. -/
private def callAll : List (LuaFunction Unit × List LuaValue) → LuaProgram Unit Unit
  | [] => .done [.boolean true] ()
  | (function, arguments) :: calls => .call function arguments fun _ => callAll calls

private def pushed (name : String) : LuaFunction Unit × List LuaValue :=
  (.indicatorsPush, [.string (utf8 name)])

private def popped : LuaFunction Unit × List LuaValue := (.indicatorsPop, [.boolean true])

/-- A script that notes one result in a node of its own. -/
theorem audit_leaves_formattable_iff_script :
    let ev := oneScript (callAll [pushed "check", popped])
    LeavesFormattable (leaves (executeAudit ev luaPayload (fun _ => .ok []))
      (ev.initialState (utf8 "rule") ())) := by
  intro ev
  refine (audit_leaves_formattable_iff ev (utf8 "rule") () luaPayload (fun _ => .ok [])
    ⟨.compliant, []⟩ _ rfl).1.mpr ?_
  have hlua : Node.CanOpen { procedureName := luaName } := fresh_canOpen _
  have hcheck : Node.CanClose { procedureName := utf8 "check", status := .compliant } :=
    fun h => absurd h (by decide)
  intro e he
  change e ∈ [Event.scriptOps [] [.push (utf8 "check")] _,
    .scriptOps [] [.setStatus .compliant, .pop] _, .leaf [] (.ok .compliant)] at he
  simp only [List.mem_cons, List.not_mem_nil, or_false] at he
  rcases he with rfl | rfl | rfl
  · exact ⟨rfl, fun node hnode => by cases hnode; exact hlua, trivial⟩
  · exact ⟨rfl, trivial, fun node hnode => by cases hnode; exact hcheck, trivial⟩
  · exact ⟨rfl, trivial⟩

/-- A script that goes on after a Compliant alternative: the nested list fails its assertion. -/
theorem audit_leaves_unformattable_script :
    let ev := oneScript
      (callAll [pushed "anyOf", pushed "first", popped, pushed "second", popped, popped])
    ∃ result t, executeAudit ev luaPayload (fun _ => .ok []) (ev.initialState (utf8 "rule") ()) =
        .ok result t ∧ ¬ LeavesFormattable t ∧ NestedListFormatter.format t.indicators = none := by
  intro ev
  refine ⟨⟨.compliant, []⟩, _, rfl, ?_, rfl⟩
  rintro ⟨-, root, hroot, hformattable⟩
  have hsome := NestedListFormatter.formatNode_isSome hformattable 1 .no
  cases hroot
  exact absurd hsome (by decide)

end Evaluator
end Kompli
