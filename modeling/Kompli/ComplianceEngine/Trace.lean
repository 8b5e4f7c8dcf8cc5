import Kompli.ComplianceEngine.Evaluator

/-! What an evaluation can do, by the path and the action it is at. -/
namespace Kompli
open Foundation

variable {W G : Type}

/-- The later state did more, and everything it did more satisfies `P`. -/
def Extends (P : Event W → Prop) (s t : EvalState W G) : Prop :=
  ∃ events, t.trace = s.trace ++ events ∧ ∀ e ∈ events, P e

namespace Extends

variable {P Q : Event W → Prop}

theorem of_trace_eq {s t : EvalState W G} (h : t.trace = s.trace) : Extends P s t :=
  ⟨[], by simp [h], by simp⟩

theorem refl (s : EvalState W G) : Extends P s s := of_trace_eq rfl

theorem trans (s t u : EvalState W G) (hst : Extends P s t) (htu : Extends P t u) : Extends P s u := by
  obtain ⟨es, hes, pes⟩ := hst
  obtain ⟨fs, hfs, pfs⟩ := htu
  refine ⟨es ++ fs, by rw [hfs, hes, List.append_assoc], fun e he => ?_⟩
  rcases List.mem_append.mp he with he | he
  · exact pes e he
  · exact pfs e he

theorem mono (h : ∀ e, P e → Q e) {s t : EvalState W G} (hst : Extends P s t) : Extends Q s t := by
  obtain ⟨es, hes, pes⟩ := hst
  exact ⟨es, hes, fun e he => h e (pes e he)⟩

theorem record {s t : EvalState W G} (h : Extends P s t) {e : Event W} (he : P e) :
    Extends P s (t.record e) :=
  trans _ _ _ h ⟨[e], rfl, by simpa using he⟩

end Extends

/-- What a computation adds to the trace. -/
def newEvents {α : Type} (m : EvalM W G α) (s : EvalState W G) : List (Event W) :=
  (leaves m s).trace.drop s.trace.length

theorem Extends.newEvents_eq {P : Event W → Prop} {α : Type} {m : EvalM W G α} {s : EvalState W G}
    (h : Extends P s (leaves m s)) :
    (leaves m s).trace = s.trace ++ newEvents m s ∧ ∀ e ∈ newEvents m s, P e := by
  obtain ⟨es, hes, pes⟩ := h
  have : newEvents m s = es := by rw [newEvents, hes, List.drop_left]
  rw [this]
  exact ⟨hes, pes⟩

theorem newEvents_of_error {α β : Type} {m : EvalM W G α} {f : α → EvalM W G β} {s t : EvalState W G}
    {e : Error} (h : m s = .error e t) : newEvents (m >>= f) s = newEvents m s := by
  rw [newEvents, newEvents, leaves_of_error h, leaves_of_error (bind_run_error f h)]

theorem newEvents_bind {P Q : Event W → Prop} {α β : Type} {m : EvalM W G α} {f : α → EvalM W G β}
    {s t : EvalState W G} {a : α} (h : m s = .ok a t) (hm : Extends P s (leaves m s))
    (hf : Extends Q t (leaves (f a) t)) :
    newEvents (m >>= f) s = newEvents m s ++ newEvents (f a) t := by
  have first := hm.newEvents_eq.1
  have second := hf.newEvents_eq.1
  rw [leaves_of_ok h] at first
  have whole : leaves (m >>= f) s = leaves (f a) t := by simp only [leaves, bind_run_ok f h]
  rw [newEvents, whole, second, first, List.append_assoc, List.drop_left]

/-- Where an event is, and that only a remediating leaf calls a remediation. -/
def LeafEvent (path : Path) (action : Action) : Event W → Prop
  | .leaf p _ => p = path
  | .invoked p _ kind _ _ _ _ => p = path ∧ (kind = .remediate → action = .remediate)
  | .scriptOps p _ _ => p = path

theorem invoke_extends (path : Path) (action : Action) (procedure : Bytes) (kind : Action)
    (function : ActionFunc W) (arguments : ParameterMap) (h : kind = .remediate → action = .remediate) :
    Evolves (Extends (LeafEvent path action))
      (invoke path procedure kind function arguments : EvalM W G (Except Error Status)) :=
  fun s => ⟨[_], rfl, by simpa [LeafEvent] using h⟩

namespace LuaEvaluator

/-- While a script runs, the action its closures read is the one it was started with. -/
def Runs (path : Path) (action : Action) (s t : EvalState W G) : Prop :=
  s.luaCallContext.map (·.action) = some action →
    t.luaCallContext.map (·.action) = some action ∧ Extends (LeafEvent path action) s t

theorem Runs.refl (path : Path) (action : Action) (s : EvalState W G) : Runs path action s s :=
  fun h => ⟨h, Extends.refl s⟩

theorem Runs.trans (path : Path) (action : Action) (s t u : EvalState W G)
    (hst : Runs path action s t) (htu : Runs path action t u) : Runs path action s u := by
  intro h
  obtain ⟨ht, est⟩ := hst h
  obtain ⟨hu, etu⟩ := htu ht
  exact ⟨hu, Extends.trans _ _ _ est etu⟩

private theorem cString_remediate (name : Bytes) : (cString (remediate ++ name)).take 9 = remediate := by
  rw [cString_append (by decide)]
  exact List.take_left' rfl

/-- Every remediation a script can reach is registered under a name that shows it. -/
def NamesRemediations (ce : ByteMap (LuaClosure W)) : Prop :=
  ∀ (field : Bytes) (closure : LuaClosure W), ce[field]? = some closure →
    closure.kind = .remediate → closure.procedureName.take 9 = remediate

private theorem NamesRemediations.insert {ce : ByteMap (LuaClosure W)} (h : NamesRemediations ce)
    (field : Bytes) (closure : LuaClosure W)
    (hc : closure.kind = .remediate → closure.procedureName.take 9 = remediate) :
    NamesRemediations (ce.insert field closure) := by
  intro field' closure' hfield hkind
  rw [Std.ExtTreeMap.getElem?_insert] at hfield
  split at hfield
  · cases hfield
    exact hc hkind
  · exact h field' closure' hfield hkind

private theorem registerProcedure_names {ce : ByteMap (LuaClosure W)} (h : NamesRemediations ce)
    (name : Bytes) (actions : ProcedureActions W) :
    NamesRemediations (registerProcedure ce name actions) := by
  have hr : ∀ ce : ByteMap (LuaClosure W), NamesRemediations ce → ∀ f : ActionFunc W,
      NamesRemediations (ce.insert (cString (remediate ++ name))
        ⟨cString (remediate ++ name), name, .remediate, f⟩) :=
    fun ce h f => h.insert _ _ fun _ => cString_remediate name
  unfold registerProcedure
  cases actions.audit with
  | none =>
    cases actions.remediate with
    | none => exact h
    | some f => exact hr _ h f
  | some g =>
    have hg := h.insert (cString (audit ++ name)) ⟨cString (audit ++ name), name, .audit, g⟩ (by simp)
    cases actions.remediate with
    | none => exact hg
    | some f => exact hr _ hg f

theorem registerProcedures_names (procedureMap : ProcedureMap W) :
    NamesRemediations (registerProcedures procedureMap) := by
  unfold registerProcedures
  refine List.foldlRecOn (motive := NamesRemediations) _ _ ?_ fun ce h entry _ =>
    registerProcedure_names h entry.1 entry.2
  intro field closure h
  simp at h

private theorem wrapper_runs (path : Path) (action : Action) (closure : LuaClosure W)
    (hc : closure.kind = .remediate → closure.procedureName.take 9 = remediate)
    (arguments : List LuaValue) (s : EvalState W G) :
    Runs path action s (leaves (luaProcedureWrapper path closure arguments) s) := by
  intro hs
  unfold luaProcedureWrapper
  rw [leaves_get_bind]
  cases hctx : s.luaCallContext with
  | none => simp [hctx] at hs
  | some callContext =>
    simp only [hctx, Option.map_some, Option.some.injEq] at hs
    dsimp only
    by_cases hrefused : callContext.action ≠ .remediate ∧ closure.procedureName.take 9 = remediate
    · rw [if_pos hrefused]
      exact Runs.refl path action s (by simp [hctx, hs])
    rw [if_neg hrefused]
    cases procedureArguments arguments with
    | error message => exact Runs.refl path action s (by simp [hctx, hs])
    | ok args =>
      have hkind : closure.kind = .remediate → action = .remediate := by
        intro hk
        by_contra hne
        exact hrefused ⟨by rwa [hs], hc hk⟩
      refine ⟨?_, ?_⟩
      · change Option.map _ s.luaCallContext = _
        simp [hctx, hs]
      · exact (invoke_extends path action closure.procedure closure.kind closure.function args hkind) s

private theorem scriptOps_runs (path : Path) (action : Action) (ops : List TreeOp) (s : EvalState W G) :
    Runs path action s (leaves (scriptOps path ops) s) :=
  fun hs => ⟨hs, [_], rfl, by simp [LeafEvent]⟩

private theorem setIndicatorsDepth_runs (path : Path) (action : Action) (depth : Nat)
    (s : EvalState W G) : Runs path action s (leaves (setIndicatorsDepth depth) s) := by
  intro hs
  refine ⟨?_, Extends.refl s⟩
  simp only [setIndicatorsDepth, leaves_modify, Option.map_map]
  exact hs

private theorem push_runs (path : Path) (action : Action) (arguments : List LuaValue)
    (s : EvalState W G) : Runs path action s (leaves (luaIndicatorsPush path arguments) s) := by
  unfold luaIndicatorsPush
  rw [leaves_get_bind]
  cases s.luaCallContext with
  | none => exact Runs.refl path action s
  | some view =>
    dsimp only
    split
    · exact Runs.refl path action s
    split
    · exact Runs.refl path action s
    · refine leaves_bind (Runs.trans path action) (scriptOps_runs path action _ s) fun _ t _ => ?_
      refine leaves_bind (Runs.trans path action) (setIndicatorsDepth_runs path action _ t) fun _ u _ => ?_
      exact Runs.refl path action u

private theorem pop_runs (path : Path) (action : Action) (arguments : List LuaValue)
    (s : EvalState W G) : Runs path action s (leaves (luaIndicatorsPop path arguments) s) := by
  unfold luaIndicatorsPop
  rw [leaves_get_bind]
  cases s.luaCallContext with
  | none => exact Runs.refl path action s
  | some view =>
    dsimp only
    split
    · exact Runs.refl path action s
    split
    · exact Runs.refl path action s
    · exact Runs.refl path action s
    · refine leaves_bind (Runs.trans path action) (scriptOps_runs path action _ s) fun _ t _ => ?_
      refine leaves_bind (Runs.trans path action) (setIndicatorsDepth_runs path action _ t) fun _ u _ => ?_
      exact Runs.refl path action u
    · exact Runs.refl path action s

private theorem addIndicator_runs (path : Path) (action : Action) (status : Status)
    (arguments : List LuaValue) (s : EvalState W G) :
    Runs path action s (leaves (luaIndicatorsAddIndicator path status arguments) s) := by
  unfold luaIndicatorsAddIndicator
  rw [leaves_get_bind]
  cases s.luaCallContext with
  | none => exact Runs.refl path action s
  | some view =>
    dsimp only
    split
    · exact Runs.refl path action s
    · refine leaves_bind (Runs.trans path action) (scriptOps_runs path action _ s) fun _ t _ => ?_
      exact Runs.refl path action t

theorem callFunction_runs {ce : ByteMap (LuaClosure W)} (hce : NamesRemediations ce) (path : Path)
    (action : Action) (function : LuaFunction W) (arguments : List LuaValue) (s : EvalState W G) :
    Runs path action s (leaves (callFunction ce path function arguments) s) := by
  cases function with
  | ce field =>
    simp only [callFunction]
    cases hfield : ce[field]? with
    | none => exact Runs.refl path action s
    | some closure => exact wrapper_runs path action closure (hce field closure hfield) arguments s
  | indicatorsPush => exact push_runs path action arguments s
  | indicatorsPop => exact pop_runs path action arguments s
  | indicatorsCompliant => exact addIndicator_runs path action .compliant arguments s
  | indicatorsNonCompliant => exact addIndicator_runs path action .nonCompliant arguments s
  | host effect => exact fun hs => ⟨hs, Extends.of_trace_eq rfl⟩

/-- Whatever its program calls, and in whatever order. -/
theorem run_runs {ce : ByteMap (LuaClosure W)} (hce : NamesRemediations ce) (path : Path)
    (action : Action) (program : LuaProgram W G) (s : EvalState W G) :
    Runs path action s (leaves (run ce path program) s) := by
  induction program generalizing s with
  | done values globals => exact fun hs => ⟨hs, Extends.of_trace_eq rfl⟩
  | failed error globals => exact fun hs => ⟨hs, Extends.of_trace_eq rfl⟩
  | call function arguments resume ih =>
    simp only [run]
    exact leaves_bind (Runs.trans path action) (callFunction_runs hce path action function arguments s)
      fun reply t _ => ih reply t

private theorem conclude_extends (vm : LuaVm W G) (path : Path) (action : Action)
    (values : List LuaValue) : Evolves (Extends (LeafEvent path action)) (conclude vm values) := by
  intro s
  unfold conclude
  split
  · exact Extends.refl s
  · rw [leaves_get_bind]
    split
    · exact Extends.refl s
    · exact Extends.of_trace_eq rfl
  · split <;> exact Extends.refl s
  · exact Extends.refl s

theorem evaluate_extends (vm : LuaVm W G) {ce : ByteMap (LuaClosure W)} (hce : NamesRemediations ce)
    (path : Path) (script : Bytes) (action : Action) :
    Evolves (Extends (LeafEvent path action)) (evaluate vm ce path script action) := by
  intro s
  unfold evaluate
  refine leaves_bind Extends.trans (Extends.of_trace_eq rfl) ?_
  rintro _ t ht
  have hctx : t.luaCallContext.map (·.action) = some action := by
    rw [modify_run] at ht
    cases ht
    rfl
  rw [leaves_get_bind]
  split
  · exact Extends.refl t
  · exact Extends.refl t
  · refine leaves_bind Extends.trans (run_runs hce path action _ t hctx).2 fun values u _ => ?_
    split
    · exact Extends.refl u
    · exact conclude_extends vm path action _ u

end LuaEvaluator

theorem ListAction.step_ne_not (i : Nat) (l : ListAction) : l.step i ≠ .not := by
  cases l <;> simp [ListAction.step]

namespace Evaluator

theorem ofExcept_leaves {α : Type} (r : Except Error α) (s : EvalState W G) :
    leaves (ofExcept r) s = s := by
  cases r <;> rfl

theorem ofExcept_ok_iff {α : Type} {r : Except Error α} {a : α} {s t : EvalState W G} :
    ofExcept r s = .ok a t ↔ r = .ok a ∧ t = s := by
  cases r with
  | ok b =>
    simp only [ofExcept, pure_run, EStateM.Result.ok.injEq, Except.ok.injEq]
    exact and_congr_right fun _ => eq_comm
  | error e => simp [ofExcept]

/-- How a native leaf succeeds: by one call, of the function the action selects. -/
theorem evaluateBuiltinProcedure_ok_iff {ev : Evaluator W G} {path : Path} {name : Bytes} {value : JsonValue} {action : Action}
    {s t : EvalState W G} {r : Status} :
    evaluateBuiltinProcedure ev path name value action s = .ok r t ↔
      ∃ members arguments actions kind function,
        value = .object members ∧ getBuiltinProcedureArguments ev.parameters value = .ok arguments ∧
        ev.procedureMap[name]? = some actions ∧ selectFunction actions action = some (kind, function) ∧
        invoke path name kind function arguments s = .ok (.ok r) t := by
  unfold evaluateBuiltinProcedure
  constructor
  · intro h
    cases value with
    | object members =>
      obtain ⟨arguments, s', hargs, hcall⟩ := bind_ok_iff.mp h
      obtain ⟨hread, rfl⟩ := ofExcept_ok_iff.mp hargs
      cases hactions : ev.procedureMap[name]? with
      | none => simp [hactions] at hcall
      | some actions =>
        simp only [hactions] at hcall
        cases hselect : selectFunction actions action with
        | none => simp [hselect] at hcall
        | some selected =>
          obtain ⟨kind, function⟩ := selected
          simp only [hselect] at hcall
          obtain ⟨result, u, hinvoke, hresult⟩ := bind_ok_iff.mp hcall
          obtain ⟨rfl, rfl⟩ := ofExcept_ok_iff.mp hresult
          exact ⟨members, arguments, actions, kind, function, rfl, hread, rfl, hselect, hinvoke⟩
    | _ => cases h
  · rintro ⟨members, arguments, actions, kind, function, rfl, hargs, hactions, hselect, hinvoke⟩
    dsimp only
    rw [bind_run_ok _ (ofExcept_ok_iff.mpr ⟨hargs, rfl⟩), hactions]
    dsimp only
    rw [hselect]
    dsimp only
    rw [bind_run_ok _ hinvoke]
    rfl

private theorem selectFunction_kind {actions : ProcedureActions W} {action kind : Action}
    {function : ActionFunc W} (h : selectFunction actions action = some (kind, function)) :
    kind = .remediate → action = .remediate := by
  rintro rfl
  cases action with
  | remediate => rfl
  | audit => simp [selectFunction] at h

theorem evaluateBuiltinProcedure_extends (ev : Evaluator W G) (path : Path) (name : Bytes)
    (value : JsonValue) (action : Action) :
    Evolves (Extends (LeafEvent path action)) (evaluateBuiltinProcedure ev path name value action) := by
  intro s
  unfold evaluateBuiltinProcedure
  split
  · refine leaves_bind Extends.trans (Extends.of_trace_eq (by rw [ofExcept_leaves])) fun args t _ => ?_
    split
    · exact Extends.refl t
    split
    · exact Extends.refl t
    · next kind function hsel =>
      refine leaves_bind Extends.trans
        (invoke_extends path action name kind function args (selectFunction_kind hsel) t) fun r u _ => ?_
      exact Extends.of_trace_eq (by rw [ofExcept_leaves])
  · exact Extends.refl s

theorem evaluateLua_extends (ev : Evaluator W G) (path : Path) (value : JsonValue)
    (action : Action) : Evolves (Extends (LeafEvent path action)) (evaluateLua ev path value action) := by
  intro s
  unfold evaluateLua
  split
  · refine leaves_bind Extends.trans (Extends.of_trace_eq (by rw [ofExcept_leaves])) fun args t _ => ?_
    split
    · exact Extends.refl t
    · exact LuaEvaluator.evaluate_extends ev.lua
        (LuaEvaluator.registerProcedures_names ev.procedureMap) path _ action t
  · exact Extends.refl s

private theorem leaf_extends {path : Path} {action : Action} {body : EvalM W G Status}
    (h : Evolves (Extends (LeafEvent path action)) body) :
    Evolves (Extends (LeafEvent path action)) (leaf path body) := by
  intro s
  have := h s
  simp only [leaves, leaf] at this ⊢
  cases hb : body s <;> rw [hb] at this <;> exact this.record rfl

/-- What an evaluation at `path` can do: what a leaf below does, which remediates only
when the evaluation does and no `not` lies between. -/
def BelowEvent (path : Path) (action : Action) (e : Event W) : Prop :=
  ∃ below action', LeafEvent (path ++ below) action' e ∧
    (action' = .remediate → action = .remediate ∧ Formula.Step.not ∉ below)

theorem BelowEvent.of_leaf {path : Path} {action : Action} {e : Event W} (h : LeafEvent path action e) :
    BelowEvent path action e :=
  ⟨[], action, by simpa using h, fun ha => ⟨ha, by simp⟩⟩

theorem BelowEvent.of_item {path : Path} {action : Action} {step : Formula.Step} (hstep : step ≠ .not)
    {e : Event W} (h : BelowEvent (path ++ [step]) action e) : BelowEvent path action e := by
  obtain ⟨below, action', he, ha⟩ := h
  refine ⟨step :: below, action', by simpa using he, fun hr => ⟨(ha hr).1, ?_⟩⟩
  simp only [List.mem_cons, not_or]
  exact ⟨fun h => hstep h.symm, (ha hr).2⟩

theorem BelowEvent.of_not {path : Path} {action : Action} {e : Event W}
    (h : BelowEvent (path ++ [.not]) .audit e) : BelowEvent path action e := by
  obtain ⟨below, action', he, ha⟩ := h
  refine ⟨.not :: below, action', by simpa using he, fun hr => ?_⟩
  cases (ha hr).1

theorem within_run (name : Bytes) (body : EvalM W G Status) (s : EvalState W G) :
    within name body s =
      match body (s.applyOps [.push name]) with
      | .ok result t => .ok result (t.applyOps [.setStatus result, .pop])
      | .error e t => .error e t := by
  change EStateM.bind _ _ _ = _
  simp only [EStateM.bind]
  change EStateM.bind _ _ _ = _
  rw [EStateM.bind]
  cases body (s.applyOps [.push name]) <;> rfl

theorem within_ok_iff {name : Bytes} {body : EvalM W G Status} {s t : EvalState W G} {r : Status} :
    within name body s = .ok r t ↔
      ∃ u, body (s.applyOps [.push name]) = .ok r u ∧ t = u.applyOps [.setStatus r, .pop] := by
  rw [within_run]
  cases body (s.applyOps [.push name]) with
  | ok r' u =>
    constructor
    · intro h
      cases h
      exact ⟨u, rfl, rfl⟩
    · rintro ⟨u', hu, rfl⟩
      cases hu
      rfl
  | error e u => simp

theorem newEvents_within (name : Bytes) (body : EvalM W G Status) (s : EvalState W G) :
    newEvents (within name body) s = newEvents body (s.applyOps [.push name]) := by
  simp only [newEvents, leaves, within_run]
  cases body (s.applyOps [.push name]) <;> rfl

private theorem within_extends {P : Event W → Prop} {name : Bytes} {body : EvalM W G Status}
    (h : Evolves (Extends P) body) : Evolves (Extends P) (within name body) := by
  intro s
  unfold within
  refine leaves_bind Extends.trans (Extends.of_trace_eq rfl) fun _ t _ => ?_
  refine leaves_bind Extends.trans (h t) fun r u _ => ?_
  exact Extends.of_trace_eq rfl

private theorem evaluateItems_extends_of (ev : Evaluator W G) (path : Path) (action : Action)
    (l : ListAction) (items : List JsonValue)
    (ih : ∀ item ∈ items, ∀ path action, Evolves (Extends (BelowEvent path action))
      (evaluateProcedure ev path item action)) (i : Nat) (acc : Status) :
    Evolves (Extends (BelowEvent path action)) (evaluateItems ev path action l i items acc) := by
  induction items generalizing i acc with
  | nil =>
    intro s
    simp only [evaluateItems]
    exact Extends.refl s
  | cons item rest ihrest =>
    intro s
    simp only [evaluateItems]
    have hitem := ih item List.mem_cons_self (path ++ [l.step i]) action
    refine leaves_bind Extends.trans
      (Extends.mono (fun e he => he.of_item (l.step_ne_not i)) (hitem s)) fun r t _ => ?_
    split
    · exact Extends.refl t
    · exact ihrest (fun x hx => ih x (List.mem_cons_of_mem _ hx)) _ _ t

/-- An evaluation only adds to the trace, and only what a leaf below may do. -/
theorem evaluateProcedure_extends (ev : Evaluator W G) (path : Path) (object : JsonValue)
    (action : Action) :
    Evolves (Extends (BelowEvent path action)) (evaluateProcedure ev path object action) := by
  suffices h : ∀ v : JsonValue,
      (∀ path action, Evolves (Extends (BelowEvent path action)) (evaluateProcedure ev path v action)) ∧
      ∀ path action l, Evolves (Extends (BelowEvent path action)) (evaluateList ev path v action l) from
    (h object).1 path action
  intro v
  induction v using JsonValue.ind with
  | object members ih =>
    refine ⟨fun path action => ?_, fun path action l s => by
      simp only [evaluateList]; exact Extends.refl s⟩
    match members with
    | [] =>
      intro s
      simp only [evaluateProcedure]
      exact Extends.refl s
    | (key, value) :: rest =>
      obtain ⟨hproc, hlist⟩ := ih (key, value) List.mem_cons_self
      simp only [evaluateProcedure]
      split
      · exact within_extends (hlist path action .anyOf)
      split
      · exact within_extends (hlist path action .allOf)
      split
      · refine within_extends fun s => ?_
        unfold evaluateNot
        split
        · refine leaves_bind Extends.trans
            (Extends.mono (fun e he => he.of_not) (hproc (path ++ [.not]) .audit s)) fun r t _ => ?_
          split <;> exact Extends.refl t
        · exact Extends.refl s
      split
      · exact within_extends ((leaf_extends (evaluateLua_extends ev path value action)).mono
          fun s t => Extends.mono fun e he => .of_leaf he)
      · exact within_extends
          ((leaf_extends (evaluateBuiltinProcedure_extends ev path _ value action)).mono
            fun s t => Extends.mono fun e he => .of_leaf he)
  | array items ih =>
    refine ⟨fun path action s => by simp only [evaluateProcedure]; exact Extends.refl s, ?_⟩
    intro path action l
    simp only [evaluateList]
    exact evaluateItems_extends_of ev path action l items (fun x hx => (ih x hx).1) 0 _
  | _ =>
    exact ⟨fun path action s => by simp only [evaluateProcedure]; exact Extends.refl s,
      fun path action l s => by simp only [evaluateList]; exact Extends.refl s⟩

theorem evaluateItems_extends (ev : Evaluator W G) (path : Path) (action : Action) (l : ListAction)
    (i : Nat) (items : List JsonValue) (acc : Status) :
    Evolves (Extends (BelowEvent path action)) (evaluateItems ev path action l i items acc) :=
  evaluateItems_extends_of ev path action l items
    (fun item _ path action => evaluateProcedure_extends ev path item action) i acc

/-- The state after the rule's own node is closed. -/
def closed (status : Status) (s : EvalState W G) : EvalState W G := s.applyOps [.setStatus status, .pop]

theorem executeAudit_of_ok {ev : Evaluator W G} {json : JsonValue} (formatter : PayloadFormatter)
    {s t : EvalState W G} {r : Status} (h : evaluateProcedure ev [] json .audit s = .ok r t) :
    executeAudit ev json formatter s =
      .ok ⟨r, formatPayload formatter (closed r t).indicators⟩ (closed r t) :=
  (bind_run_ok _ h).trans rfl

theorem executeAudit_of_error {ev : Evaluator W G} {json : JsonValue} (formatter : PayloadFormatter)
    {s t : EvalState W G} {e : Error} (h : evaluateProcedure ev [] json .audit s = .error e t) :
    executeAudit ev json formatter s = .error e t :=
  bind_run_error _ h

/-- Formatting and closing the rule's node add nothing to the trace. -/
theorem executeAudit_trace (ev : Evaluator W G) (json : JsonValue) (formatter : PayloadFormatter)
    (s : EvalState W G) :
    (leaves (executeAudit ev json formatter) s).trace =
      (leaves (evaluateProcedure ev [] json .audit) s).trace := by
  cases hrun : evaluateProcedure ev [] json .audit s with
  | ok r t => rw [leaves_of_ok hrun, leaves_of_ok (executeAudit_of_ok formatter hrun)]; rfl
  | error e t => rw [leaves_of_error hrun, leaves_of_error (executeAudit_of_error formatter hrun)]

theorem executeRemediation_ok_iff {ev : Evaluator W G} {json : JsonValue} {s t : EvalState W G}
    {r : Status} :
    executeRemediation ev json s = .ok r t ↔
      ∃ u, evaluateProcedure ev [] json .remediate s = .ok r u ∧ t = closed r u := by
  unfold executeRemediation
  rw [bind_ok_iff]
  constructor
  · rintro ⟨r', u, hu, h⟩
    cases h
    exact ⟨u, hu, rfl⟩
  · rintro ⟨u, hu, rfl⟩
    exact ⟨r, u, hu, rfl⟩

end Evaluator
end Kompli
