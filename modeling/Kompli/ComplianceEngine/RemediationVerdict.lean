import Kompli.ComplianceEngine.Payload

/-! When every leaf keeps its promise, the status of a remediation is the status of
the audit that follows it. The two runs are compared leaf by leaf. -/
namespace Kompli
open Foundation

/-- A leaf that is not a script. -/
structure NativeLeaf extends Leaf where
  notLua : cString name ≠ luaName := by decide

/-- A call of a procedure's function by a leaf, with the system before it. -/
structure LeafCall (W : Type) where
  path : Path
  procedure : Bytes
  arguments : ParameterMap
  before : W
  outcome : ActionOutcome W

namespace LeafCall

variable {W : Type}

def ofEvent : Event W → Option (LeafCall W)
  | .invoked path procedure _ arguments _ before outcome =>
    some ⟨path, procedure, arguments, before, outcome⟩
  | _ => none

/-- The calls of a trace in order. -/
def calls (trace : List (Event W)) : List (LeafCall W) := trace.filterMap ofEvent

@[simp] theorem calls_append (es fs : List (Event W)) : calls (es ++ fs) = calls es ++ calls fs :=
  List.filterMap_append

@[simp] theorem calls_nil : calls ([] : List (Event W)) = [] := rfl

/-- Which leaf a call is made by. -/
def leaf (c : LeafCall W) : Path × Bytes × ParameterMap := (c.path, c.procedure, c.arguments)

/-- The calls lead from one state of the system to another. -/
def Chain : W → List (LeafCall W) → W → Prop
  | w, [], w' => w = w'
  | w, c :: cs, w' => c.before = w ∧ Chain c.outcome.context cs w'

theorem Chain.append {w w' w'' : W} {cs ds : List (LeafCall W)} (h : Chain w cs w')
    (h' : Chain w' ds w'') : Chain w (cs ++ ds) w'' := by
  induction cs generalizing w with
  | nil =>
    cases h
    exact h'
  | cons c cs ih => exact ⟨h.1, ih h.2⟩

end LeafCall

namespace Evaluator

variable {W G : Type} (ev : Evaluator W G)

/-- The status the leaf of a call has when it is audited in `w`. -/
def auditStatus (c : LeafCall W) (w : W) : Option Status :=
  (ev.procedureMap[c.procedure]?.bind (·.audit)).bind fun audit => (audit c.arguments w).result.toOption

/-- The calls of a remediating run. -/
structure KeepsPromises (calls : List (LeafCall W)) : Prop where
  /-- What a call returns is what the leaf's audit returns afterwards. -/
  returns : ∀ c ∈ calls, ∀ status, c.outcome.result = .ok status →
    ev.auditStatus c c.outcome.context = some status
  /-- A call does not change the status of a leaf that was called before it. -/
  stable : calls.Pairwise fun c d => ev.auditStatus c d.outcome.context = ev.auditStatus c d.before

/-- Nor does any call of the audit that followed, and made `later`, change the status of one of the leaves. -/
def SteadyLater (calls later : List (LeafCall W)) : Prop :=
  ∀ c ∈ calls, ∀ d ∈ later, ev.auditStatus c d.outcome.context = ev.auditStatus c d.before

/-- The leaves of `calls` still have the statuses the calls returned. -/
private def Holds (calls : List (LeafCall W)) (w : W) : Prop :=
  ∀ c ∈ calls, ∀ status, c.outcome.result = .ok status → ev.auditStatus c w = some status

open LeafCall

private def Chains (s t : EvalState W G) : Prop :=
  ∃ es, t.trace = s.trace ++ es ∧ Chain s.context (calls es) t.context

private theorem Chains.refl (s : EvalState W G) : Chains s s := ⟨[], by simp, rfl⟩

private theorem Chains.trans (s t u : EvalState W G) (hst : Chains s t) (htu : Chains t u) :
    Chains s u := by
  obtain ⟨es, hes, ces⟩ := hst
  obtain ⟨fs, hfs, cfs⟩ := htu
  refine ⟨es ++ fs, by rw [hfs, hes, List.append_assoc], ?_⟩
  rw [calls_append]
  exact ces.append cfs

theorem evaluateLeaf_native (path : Path) (l : NativeLeaf) (action : Action) :
    evaluateLeaf ev path l.toLeaf action =
      leaf path (evaluateBuiltinProcedure ev path (cString l.name) l.value action) := by
  rw [evaluateLeaf, if_neg l.notLua]

/-- A native leaf calls at most one function, and only that call changes the system. -/
private theorem evaluateLeaf_chains (path : Path) (l : NativeLeaf) (action : Action) :
    Evolves Chains (evaluateLeaf ev path l.toLeaf action) := by
  have hbody : Evolves Chains (evaluateBuiltinProcedure ev path (cString l.name) l.value action) := by
    intro s
    unfold evaluateBuiltinProcedure
    split
    · refine leaves_bind Chains.trans ?_ fun arguments t _ => ?_
      · rw [ofExcept_leaves]
        exact Chains.refl s
      split
      · exact Chains.refl t
      split
      · exact Chains.refl t
      · refine leaves_bind Chains.trans ⟨[_], rfl, rfl, rfl⟩ fun r u _ => ?_
        rw [ofExcept_leaves]
        exact Chains.refl u
    · exact Chains.refl s
  rw [evaluateLeaf_native]
  intro s
  have := hbody s
  simp only [leaves, leaf] at this ⊢
  cases hrun : evaluateBuiltinProcedure ev path (cString l.name) l.value action s <;>
    rw [hrun] at this <;> exact Chains.trans _ _ _ this ⟨[_], rfl, rfl⟩

variable (remediated : List (LeafCall W))

/-- A run that called some of the `remediated` leaves and returned, and an audit of the same
payload in a system in which those leaves have the statuses they returned. -/
private def Replays (m audit : EvalM W G Status) : Prop :=
  ∀ s t r, m s = .ok r t → (∀ c ∈ calls (newEvents m s), c ∈ remediated) →
    ∀ u, Holds ev remediated u.context →
      (∀ d ∈ calls (newEvents audit u), Holds ev remediated d.before →
        Holds ev remediated d.outcome.context) →
      ∃ v, audit u = .ok r v ∧ Holds ev remediated v.context ∧
        (calls (newEvents audit u)).map LeafCall.leaf = (calls (newEvents m s)).map LeafCall.leaf

/-- How a native leaf returns `r`: one call of the selected function returns `r`. -/
theorem evaluateLeaf_ok_iff {path : Path} {l : NativeLeaf} {action : Action} {s t : EvalState W G}
    {r : Status} :
    evaluateLeaf ev path l.toLeaf action s = .ok r t ↔
      ∃ members arguments actions kind function,
        l.value = .object members ∧ getBuiltinProcedureArguments ev.parameters l.value = .ok arguments ∧
        ev.procedureMap[cString l.name]? = some actions ∧
        selectFunction actions action = some (kind, function) ∧
        (function arguments s.context).result = .ok r ∧
        t = (s.invoked path (cString l.name) kind function arguments).record (.leaf path (.ok r)) := by
  have hleaf : evaluateLeaf ev path l.toLeaf action s = .ok r t ↔
      ∃ u, evaluateBuiltinProcedure ev path (cString l.name) l.value action s = .ok r u ∧
        t = u.record (.leaf path (.ok r)) := by
    rw [evaluateLeaf_native, leaf]
    cases evaluateBuiltinProcedure ev path (cString l.name) l.value action s with
    | error e u => simp
    | ok r' u =>
      simp only [EStateM.Result.ok.injEq]
      constructor
      · rintro ⟨rfl, rfl⟩
        exact ⟨u, ⟨rfl, rfl⟩, rfl⟩
      · rintro ⟨_, ⟨rfl, rfl⟩, rfl⟩
        exact ⟨rfl, rfl⟩
  rw [hleaf]
  constructor
  · rintro ⟨u, hu, rfl⟩
    obtain ⟨members, arguments, actions, kind, function, hv, hargs, hactions, hselect, hinvoke⟩ :=
      evaluateBuiltinProcedure_ok_iff.mp hu
    simp only [invoke, EStateM.Result.ok.injEq] at hinvoke
    obtain ⟨hresult, rfl⟩ := hinvoke
    exact ⟨members, arguments, actions, kind, function, hv, hargs, hactions, hselect, hresult, rfl⟩
  · rintro ⟨members, arguments, actions, kind, function, hv, hargs, hactions, hselect, hresult, rfl⟩
    refine ⟨_, evaluateBuiltinProcedure_ok_iff.mpr
      ⟨members, arguments, actions, kind, function, hv, hargs, hactions, hselect, ?_⟩, rfl⟩
    rw [invoke, hresult]

private theorem calls_of_leaf {path : Path} {l : NativeLeaf} {action : Action} {s t : EvalState W G}
    {r : Status} (h : evaluateLeaf ev path l.toLeaf action s = .ok r t) {kind : Action}
    {function : ActionFunc W} {arguments : ParameterMap}
    (ht : t = (s.invoked path (cString l.name) kind function arguments).record (.leaf path (.ok r))) :
    calls (newEvents (evaluateLeaf ev path l.toLeaf action) s) =
      [⟨path, cString l.name, arguments, s.context, function arguments s.context⟩] := by
  rw [newEvents, leaves_of_ok h, ht]
  simp only [EvalState.invoked, EvalState.record_trace, EvalState.applyOps_trace, List.append_assoc,
    List.drop_left]
  rfl

private theorem leaf_replays (path : Path) (l : NativeLeaf) (action : Action) :
    Replays ev remediated (evaluateLeaf ev path l.toLeaf action)
      (evaluateLeaf ev path l.toLeaf .audit) := by
  intro s t r hrun hsub u hu hkeep
  obtain ⟨members, arguments, actions, kind, function, hv, hargs, hactions, hselect, hresult, ht⟩ :=
    (evaluateLeaf_ok_iff ev).mp hrun
  rw [calls_of_leaf ev hrun ht] at hsub ⊢
  have hstatus := hu _ (hsub _ (List.mem_singleton.mpr rfl)) r hresult
  simp only [auditStatus, hactions, Option.bind_some] at hstatus
  cases haudit : actions.audit with
  | none => simp [haudit] at hstatus
  | some audit =>
    simp only [haudit, Option.bind_some] at hstatus
    have hok : (audit arguments u.context).result = .ok r := by
      cases hr : (audit arguments u.context).result <;> rw [hr] at hstatus <;> cases hstatus
      rfl
    have hselect' : selectFunction actions .audit = some (.audit, audit) := by
      rw [selectFunction, haudit, Option.map_some]
    have hrun' : evaluateLeaf ev path l.toLeaf .audit u = .ok r
        ((u.invoked path (cString l.name) .audit audit arguments).record (.leaf path (.ok r))) :=
      (evaluateLeaf_ok_iff ev).mpr
        ⟨members, arguments, actions, .audit, audit, hv, hargs, hactions, hselect', hok, rfl⟩
    rw [calls_of_leaf ev hrun' rfl] at hkeep ⊢
    exact ⟨_, hrun', hkeep _ (List.mem_singleton.mpr rfl) hu, rfl⟩

private theorem within_replays {name : Bytes} {m audit : EvalM W G Status}
    (h : Replays ev remediated m audit) :
    Replays ev remediated (within name m) (within name audit) := by
  intro s t r hrun hsub u hu hkeep
  obtain ⟨t', ht', rfl⟩ := within_ok_iff.mp hrun
  rw [newEvents_within] at hsub hkeep ⊢
  rw [newEvents_within]
  obtain ⟨v, hv, hholds, hcalls⟩ := h _ _ _ ht' hsub (u.applyOps [.push name]) hu hkeep
  exact ⟨_, within_ok_iff.mpr ⟨v, hv, rfl⟩, hholds, hcalls⟩

private theorem bind_replays {m audit : EvalM W G Status} {f g : Status → EvalM W G Status}
    (h : Replays ev remediated m audit) (hfg : ∀ r, Replays ev remediated (f r) (g r))
    {P Q P' Q' : Event W → Prop} (hm : Evolves (Extends P) m) (hf : ∀ r, Evolves (Extends Q) (f r))
    (ha : Evolves (Extends P') audit) (hg : ∀ r, Evolves (Extends Q') (g r)) :
    Replays ev remediated (m >>= f) (audit >>= g) := by
  intro s t r hrun hsub u hu hkeep
  obtain ⟨r', s', hrun₁, hrun₂⟩ := bind_ok_iff.mp hrun
  rw [newEvents_bind hrun₁ (hm s) (hf r' s'), calls_append] at hsub ⊢
  have hkeep₁ : ∀ d ∈ calls (newEvents audit u), Holds ev remediated d.before →
      Holds ev remediated d.outcome.context := by
    intro d hd
    refine hkeep d ?_
    cases haudit : audit u with
    | error e v => rwa [newEvents_of_error haudit]
    | ok a v =>
      rw [newEvents_bind haudit (ha u) (hg a v), calls_append]
      exact List.mem_append_left _ hd
  obtain ⟨u', hu', hholds, hcalls⟩ :=
    h s s' r' hrun₁ (fun c hc => hsub c (List.mem_append_left _ hc)) u hu hkeep₁
  rw [newEvents_bind hu' (ha u) (hg r' u'), calls_append] at hkeep ⊢
  obtain ⟨v, hv, hholds', hcalls'⟩ := hfg r' s' t r hrun₂
    (fun c hc => hsub c (List.mem_append_right _ hc)) u' hholds
    fun d hd => hkeep d (List.mem_append_right _ hd)
  refine ⟨v, (bind_run_ok g hu').trans hv, hholds', ?_⟩
  rw [List.map_append, List.map_append, hcalls, hcalls']

private theorem pure_replays (r : Status) :
    Replays ev remediated (pure r : EvalM W G Status) (pure r) := by
  intro s t r' hrun _ u hu _
  simp only [pure_run, EStateM.Result.ok.injEq] at hrun
  obtain ⟨rfl, rfl⟩ := hrun
  exact ⟨u, rfl, hu, by simp [newEvents]⟩

private theorem items_replay (fs : List (Formula NativeLeaf))
    (ih : ∀ f ∈ fs, ∀ path action, Replays ev remediated
      (evaluateProcedure ev path (Payload.toJson NativeLeaf.toLeaf f) action)
      (evaluateProcedure ev path (Payload.toJson NativeLeaf.toLeaf f) .audit))
    (path : Path) (action : Action) (l : ListAction) (i : Nat) (acc : Status) :
    Replays ev remediated
      (evaluateItems ev path action l i (Payload.toJsons NativeLeaf.toLeaf fs) acc)
      (evaluateItems ev path .audit l i (Payload.toJsons NativeLeaf.toLeaf fs) acc) := by
  induction fs generalizing i acc with
  | nil =>
    simp only [Payload.toJsons, evaluateItems]
    exact pure_replays ev remediated acc
  | cons f fs ihfs =>
    have rest := fun action (r : Status) =>
      (show Evolves (Extends (BelowEvent path action)) (if r = l.decisive then pure l.decisive else
        evaluateItems ev path action l (i + 1) (Payload.toJsons NativeLeaf.toLeaf fs)
          (if r = .notApplicable then .notApplicable else acc)) by
        split
        · exact Extends.refl
        · exact evaluateItems_extends ev path action l _ _ _)
    simp only [Payload.toJsons, evaluateItems]
    refine bind_replays ev remediated (ih f List.mem_cons_self _ action) (fun r => ?_)
      (evaluateProcedure_extends ev _ _ _) (rest action) (evaluateProcedure_extends ev _ _ _) (rest .audit)
    split
    · exact pure_replays ev remediated _
    · exact ihfs (fun g hg => ih g (List.mem_cons_of_mem _ hg)) _ _

private theorem payload_replays (f : Formula NativeLeaf) (path : Path) (action : Action) :
    Replays ev remediated (evaluateProcedure ev path (Payload.toJson NativeLeaf.toLeaf f) action)
      (evaluateProcedure ev path (Payload.toJson NativeLeaf.toLeaf f) .audit) := by
  induction f using Formula.ind generalizing path action with
  | leaf a =>
    rw [evaluateProcedure_leaf, evaluateProcedure_leaf]
    exact within_replays ev remediated (leaf_replays ev remediated path a action)
  | not f ih =>
    rw [evaluateProcedure_not, evaluateProcedure_not]
    have hf := evaluateProcedure_extends ev (path ++ [.not]) (Payload.toJson NativeLeaf.toLeaf f) .audit
    have hneg : ∀ r : Status, Evolves (Extends fun _ => True) (pure r.neg : EvalM W G Status) :=
      fun _ => Extends.refl
    exact within_replays ev remediated (bind_replays ev remediated (ih _ .audit)
      (fun r => pure_replays ev remediated r.neg) hf hneg hf hneg)
  | anyOf fs ih =>
    rw [evaluateProcedure_anyOf, evaluateProcedure_anyOf]
    exact within_replays ev remediated (items_replay ev remediated fs ih path action .anyOf 0 _)
  | allOf fs ih =>
    rw [evaluateProcedure_allOf, evaluateProcedure_allOf]
    exact within_replays ev remediated (items_replay ev remediated fs ih path action .allOf 0 _)

/-- Calls that each leave the status of a leaf as they found it. -/
private theorem auditStatus_of_chain (c : LeafCall W) {ds : List (LeafCall W)} {w w' : W}
    (hchain : Chain w ds w')
    (hkeep : ∀ d ∈ ds, ev.auditStatus c d.outcome.context = ev.auditStatus c d.before) :
    ev.auditStatus c w' = ev.auditStatus c w := by
  induction ds generalizing w with
  | nil =>
    cases hchain
    rfl
  | cons d ds ih =>
    obtain ⟨rfl, hchain⟩ := hchain
    rw [ih hchain fun x hx => hkeep x (List.mem_cons_of_mem _ hx)]
    exact hkeep d List.mem_cons_self

/-- Promises that are kept hold at the end of the run. -/
private theorem holds_of_chain {cs : List (LeafCall W)} {w w' : W} (hchain : Chain w cs w')
    (hreturns : ∀ c ∈ cs, ∀ status, c.outcome.result = .ok status →
      ev.auditStatus c c.outcome.context = some status)
    (hstable : cs.Pairwise fun c d => ev.auditStatus c d.outcome.context = ev.auditStatus c d.before) :
    Holds ev cs w' := by
  induction cs generalizing w with
  | nil => exact fun c hc => absurd hc List.not_mem_nil
  | cons c cs ih =>
    obtain ⟨-, hchain⟩ := hchain
    rw [List.pairwise_cons] at hstable
    intro d hd status hstatus
    rcases List.mem_cons.mp hd with rfl | hd
    · rw [auditStatus_of_chain ev d hchain hstable.1]
      exact hreturns d List.mem_cons_self status hstatus
    · exact ih hchain (fun c hc => hreturns c (List.mem_cons_of_mem _ hc)) hstable.2 d hd status hstatus

/-- When every leaf call keeps its promise, and the audit itself changes no leaf's status, an audit right after a
remediation that returned `status` calls the same leaves in the same order and returns `status`. -/
theorem remediation_verdict_is_next_audit (payload : Formula NativeLeaf) (ruleName : Bytes)
    (context : W) (formatter : PayloadFormatter) (status : Status) (t : EvalState W G)
    (hrun : executeRemediation ev (Payload.toJson NativeLeaf.toLeaf payload)
      (ev.initialState ruleName context) = .ok status t)
    (hkeeps : ev.KeepsPromises (calls t.trace))
    (hsteady : ev.SteadyLater (calls t.trace)
      (calls (leaves (executeAudit ev (Payload.toJson NativeLeaf.toLeaf payload) formatter)
        (ev.initialState ruleName t.context)).trace)) :
    ∃ text t', executeAudit ev (Payload.toJson NativeLeaf.toLeaf payload) formatter
        (ev.initialState ruleName t.context) = .ok ⟨status, text⟩ t' ∧
      (calls t'.trace).map LeafCall.leaf = (calls t.trace).map LeafCall.leaf := by
  generalize hjson : Payload.toJson NativeLeaf.toLeaf payload = json at *
  obtain ⟨u, hu, rfl⟩ := executeRemediation_ok_iff.mp hrun
  have hevents : newEvents (evaluateProcedure ev [] json .remediate) (ev.initialState ruleName context) =
      u.trace := by
    rw [newEvents, leaves_of_ok hu]
    exact List.drop_zero
  have hchains : Chains (ev.initialState ruleName context) u := by
    have := payload_evolves ev NativeLeaf.toLeaf Chains.refl Chains.trans
      (fun s ops => ⟨[], by simp, rfl⟩) (fun path a action => evaluateLeaf_chains ev path a action)
      payload [] .remediate
    rw [hjson] at this
    exact this.of_ok hu
  have hchain : Chain context (calls u.trace) u.context := by
    obtain ⟨es, hes, hc⟩ := hchains
    rw [hes]
    exact hc
  -- every leaf still has the status the remediation saw
  have hholds := holds_of_chain ev hchain hkeeps.returns hkeeps.stable
  have hreplay := payload_replays ev (calls u.trace) payload [] .remediate
  rw [hjson] at hreplay
  have haudit := (evaluateProcedure_extends ev [] json .audit
    (ev.initialState ruleName u.context)).newEvents_eq.1
  obtain ⟨v, hv, -, hcalls⟩ := hreplay _ u status hu (by rw [hevents]; exact fun c hc => hc)
    (ev.initialState ruleName u.context) hholds fun d hd hbefore c hc r hr => by
      rw [hsteady c hc d]
      · exact hbefore c hc r hr
      · rw [executeAudit_trace]
        exact haudit ▸ hd
  refine ⟨_, _, executeAudit_of_ok formatter hv, ?_⟩
  rw [hevents] at hcalls
  rw [leaves_of_ok hv] at haudit
  exact (congrArg (fun trace => (calls trace).map LeafCall.leaf) haudit).trans hcalls

/-- A system with one switch: `Switch` is compliant when it is on and turns it on, and
`Legacy` is audited only. -/
private def switchEvaluator : Evaluator Bool Unit where
  procedureMap := (∅ : ProcedureMap Bool)
    |>.insert (utf8 "Switch")
        { audit := some fun _ on => { result := .ok (if on then .compliant else .nonCompliant), context := on }
          remediate := some fun _ _ => { result := .ok .compliant, context := true } }
    |>.insert (utf8 "Legacy") { audit := some fun _ on => { result := .ok .nonCompliant, context := on } }
  parameters := ∅
  lua := ⟨(), fun _ _ => .compilationFailed .nil, fun _ => false⟩

private def switchPayload : Formula NativeLeaf :=
  .allOf [.not (.leaf { name := utf8 "Legacy", value := .object [] }),
    .leaf { name := utf8 "Switch", value := .object [] }]

private def legacyCall (on : Bool) : LeafCall Bool :=
  ⟨[.allOf 0, .not], utf8 "Legacy", ∅, on, { result := .ok .nonCompliant, context := on }⟩

private def switchCall (on : Bool) : LeafCall Bool :=
  ⟨[.allOf 1], utf8 "Switch", ∅, on, { result := .ok .compliant, context := true }⟩

/-- An audit of the switch, after the remediation has turned it on. -/
theorem remediation_verdict_is_next_audit_switch :
    ∃ text t', executeAudit switchEvaluator (Payload.toJson NativeLeaf.toLeaf switchPayload)
        (fun _ => .ok []) (switchEvaluator.initialState [] true) = .ok ⟨.compliant, text⟩ t' ∧
      (calls t'.trace).map LeafCall.leaf = [(legacyCall true).leaf, (switchCall true).leaf] := by
  have hkeeps : switchEvaluator.KeepsPromises [legacyCall false, switchCall false] := by
    refine ⟨?_, List.pairwise_pair.mpr rfl⟩
    intro c hc status hs
    simp only [List.mem_cons, List.not_mem_nil, or_false] at hc
    rcases hc with rfl | rfl <;> cases hs <;> rfl
  have hsteady : switchEvaluator.SteadyLater [legacyCall false, switchCall false]
      [legacyCall true, switchCall true] := by
    intro c hc d hd
    simp only [List.mem_cons, List.not_mem_nil, or_false] at hc hd
    rcases hc with rfl | rfl <;> rcases hd with rfl | rfl <;> rfl
  exact remediation_verdict_is_next_audit switchEvaluator switchPayload [] false (fun _ => .ok [])
    .compliant _ rfl hkeeps hsteady

/-- An alarm that its remediation sets and that each audit of it clears. -/
private def alarmEvaluator : Evaluator Bool Unit where
  procedureMap := (∅ : ProcedureMap Bool).insert (utf8 "Alarm")
    { audit := some fun _ set => { result := .ok (if set then .compliant else .nonCompliant), context := false }
      remediate := some fun _ _ => { result := .ok .compliant, context := true } }
  parameters := ∅
  lua := ⟨(), fun _ _ => .compilationFailed .nil, fun _ => false⟩

private def alarmPayload : Formula NativeLeaf :=
  .allOf [.leaf { name := utf8 "Alarm", value := .object [] }, .leaf { name := utf8 "Alarm", value := .object [] }]

private def alarmCall (i : Nat) (set : Bool) : LeafCall Bool :=
  ⟨[.allOf i], utf8 "Alarm", ∅, set, { result := .ok .compliant, context := true }⟩

/-- The promises are kept, and the audit, whose first leaf clears the alarm, is not compliant any more. -/
theorem alarm_cleared_by_audit :
    ∃ t, executeRemediation alarmEvaluator (Payload.toJson NativeLeaf.toLeaf alarmPayload)
        (alarmEvaluator.initialState [] false) = .ok .compliant t ∧
      alarmEvaluator.KeepsPromises (calls t.trace) ∧
      ∀ text t', executeAudit alarmEvaluator (Payload.toJson NativeLeaf.toLeaf alarmPayload) (fun _ => .ok [])
        (alarmEvaluator.initialState [] t.context) ≠ .ok ⟨.compliant, text⟩ t' := by
  refine ⟨_, rfl, ?_, ?_⟩
  · have hkeeps : alarmEvaluator.KeepsPromises [alarmCall 0 false, alarmCall 1 true] := by
      refine ⟨?_, List.pairwise_pair.mpr rfl⟩
      intro c hc status hs
      simp only [List.mem_cons, List.not_mem_nil, or_false] at hc
      rcases hc with rfl | rfl <;> cases hs <;> rfl
    exact hkeeps
  · intro text t' haudit
    obtain ⟨v, hstatus⟩ : ∃ v, executeAudit alarmEvaluator (Payload.toJson NativeLeaf.toLeaf alarmPayload) (fun _ => .ok [])
        (alarmEvaluator.initialState [] true) = .ok ⟨.nonCompliant, []⟩ v := ⟨_, rfl⟩
    cases hstatus.symm.trans haudit

end Evaluator
end Kompli
