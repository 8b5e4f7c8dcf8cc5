import Kompli.ComplianceEngine.Engine
import Kompli.Foundation.KeyedMachines

/-! Rules do not see each other: what an engine answers for a rule and what it keeps
for it depend on the operations on that rule alone. -/
namespace Kompli.Engine
open Foundation KeyedMachines Parson

variable {W G : Type}

section ActsOn

/-- The states show the same to an operation on a rule. -/
structure SameAt (ruleName : Bytes) (s t : EngineState W) : Prop where
  entry : s.database[ruleName]? = t.database[ruleName]?
  context : s.context = t.context

/-- Nothing but the entry of a rule has changed in the database. -/
def Framed (ruleName : Bytes) (s t : EngineState W) : Prop :=
  ∀ other : Bytes, other ≠ ruleName → t.database[other]? = s.database[other]?

/-- Two results that differ at most in the entries of other rules, which are as they were. -/
inductive Alike {α : Type} (ruleName : Bytes) (s t : EngineState W) :
    EStateM.Result Error (EngineState W) α → EStateM.Result Error (EngineState W) α → Prop
  | ok (a : α) {s' t' : EngineState W} (same : SameAt ruleName s' t') (left : Framed ruleName s s')
      (right : Framed ruleName t t') : Alike ruleName s t (.ok a s') (.ok a t')
  | error (e : Error) {s' t' : EngineState W} (same : SameAt ruleName s' t') (left : Framed ruleName s s')
      (right : Framed ruleName t t') : Alike ruleName s t (.error e s') (.error e t')

/-- A computation that reads and writes the entry of one rule only. -/
def ActsOn {α : Type} (ruleName : Bytes) (m : EngineM W α) : Prop :=
  ∀ s t, SameAt ruleName s t → Alike ruleName s t (m s) (m t)

variable {α β : Type} {ruleName : Bytes}

theorem Framed.refl (s : EngineState W) : Framed ruleName s s := fun _ _ => rfl

theorem Framed.trans {s t u : EngineState W} (hst : Framed ruleName s t) (htu : Framed ruleName t u) :
    Framed ruleName s u := fun other h => (htu other h).trans (hst other h)

theorem Framed.insert (s : EngineState W) (procedure : Procedure) :
    Framed ruleName s { s with database := s.database.insert ruleName procedure } := by
  intro other h
  rw [Std.ExtTreeMap.getElem?_insert, if_neg]
  intro heq
  exact h (Std.LawfulEqCmp.eq_of_compare heq).symm

theorem Framed.erase (s : EngineState W) :
    Framed ruleName s { s with database := s.database.erase ruleName } := by
  intro other h
  rw [Std.ExtTreeMap.getElem?_erase, if_neg]
  intro heq
  exact h (Std.LawfulEqCmp.eq_of_compare heq).symm

theorem ActsOn.pure (a : α) : ActsOn ruleName (pure a : EngineM W α) :=
  fun s t h => .ok a h (Framed.refl s) (Framed.refl t)

theorem ActsOn.throw (e : Error) : ActsOn ruleName (throw e : EngineM W α) :=
  fun s t h => .error e h (Framed.refl s) (Framed.refl t)

theorem ActsOn.ofExcept (result : Except Error α) : ActsOn ruleName (ofExcept result : EngineM W α) := by
  cases result with
  | ok a => exact ActsOn.pure a
  | error e => exact ActsOn.throw e

theorem ActsOn.bind {m : EngineM W α} {f : α → EngineM W β} (hm : ActsOn ruleName m)
    (hf : ∀ a, ActsOn ruleName (f a)) : ActsOn ruleName (m >>= f) := by
  intro s t h
  have halike := hm s t h
  generalize hs : m s = x at halike
  generalize ht : m t = y at halike
  cases halike with
  | ok a same left right =>
    rename_i s' t'
    rw [bind_run_ok f hs, bind_run_ok f ht]
    have hrest := hf a s' t' same
    generalize f a s' = x at hrest
    generalize f a t' = y at hrest
    cases hrest with
    | ok b same' left' right' => exact .ok b same' (left.trans left') (right.trans right')
    | error e same' left' right' => exact .error e same' (left.trans left') (right.trans right')
  | error e same left right =>
    rw [bind_run_error f hs, bind_run_error f ht]
    exact .error e same left right

theorem ActsOn.insert (procedure : Procedure) :
    ActsOn (W := W) ruleName (modify fun s => { s with database := s.database.insert ruleName procedure }) :=
  fun s t h => .ok _ ⟨by simp, h.context⟩ (Framed.insert s procedure) (Framed.insert t procedure)

theorem ActsOn.erase :
    ActsOn (W := W) ruleName (modify fun s => { s with database := s.database.erase ruleName }) :=
  fun s t h => .ok _ ⟨by simp, h.context⟩ (Framed.erase s) (Framed.erase t)

theorem ActsOn.withStored (missing : Error) {use : Procedure → EngineM W α}
    (h : ∀ procedure, ActsOn ruleName (use procedure)) : ActsOn ruleName (withStored ruleName missing use) := by
  unfold Engine.withStored
  split
  · exact ActsOn.throw _
  · intro s t hst
    rw [bind_run_ok _ (get_run s), bind_run_ok _ (get_run t), hst.entry]
    cases t.database[ruleName]? with
    | none => exact ActsOn.throw missing s t hst
    | some procedure => exact h procedure s t hst

variable {G : Type} (engine : Engine W G)

theorem ActsOn.updateStored (payload : Bytes) (procedure : Procedure) :
    ActsOn ruleName (updateStored engine ruleName payload procedure) := by
  intro s t hst
  rw [Engine.updateStored, Engine.updateStored]
  cases Procedure.updateUserParameters engine.num payload procedure with
  | ok _ after => exact .ok after ⟨by simp, hst.context⟩ (Framed.insert s after) (Framed.insert t after)
  | error e after => exact .error e ⟨by simp, hst.context⟩ (Framed.insert s after) (Framed.insert t after)

theorem ActsOn.runEvaluator (parameters : ParameterMap) (run : Evaluator W G → EvalM W G α) :
    ActsOn ruleName (runEvaluator engine ruleName parameters run) := by
  intro s t hst
  simp only [Engine.runEvaluator, hst.context]
  split
  · exact .ok _ ⟨hst.entry, rfl⟩ (fun _ _ => rfl) fun _ _ => rfl
  · exact .error _ ⟨hst.entry, rfl⟩ (fun _ _ => rfl) fun _ _ => rfl

theorem setProcedure_actsOn (payload : Bytes) : ActsOn ruleName (setProcedure engine ruleName payload) := by
  unfold setProcedure
  split
  · exact ActsOn.throw _
  · refine ActsOn.erase.bind fun _ => ?_
    refine (ActsOn.ofExcept _).bind fun ruleJson => ?_
    exact (ActsOn.ofExcept _).bind fun procedure => ActsOn.insert procedure

theorem initAudit_actsOn (payload : Bytes) : ActsOn ruleName (initAudit engine ruleName payload) := by
  refine ActsOn.withStored _ fun procedure => ?_
  exact (ActsOn.updateStored engine payload procedure).bind fun _ => ActsOn.pure ()

theorem executeRemediation_actsOn (payload : Bytes) :
    ActsOn ruleName (executeRemediation engine ruleName payload) := by
  refine ActsOn.withStored _ fun procedure => ?_
  split
  · exact ActsOn.throw _
  · refine (ActsOn.updateStored engine payload procedure).bind fun procedure => ?_
    exact ActsOn.runEvaluator engine procedure.parameters _

end ActsOn

/-- The operations on a rule, by the object names that ask for them. -/
inductive Operation where
  | setProcedure (payload : Bytes)
  | init (payload : Bytes)
  | remediate (payload : Bytes)
  | audit

inductive Reply where
  | status (status : Status)
  | audit (result : AuditResult)

def perform (engine : Engine W G) (rule : CString) : Operation → EngineM W Reply
  | .setProcedure payload => do
    let status ← engine.mmiSet (procedurePrefix ++ rule.val) payload
    pure (.status status)
  | .init payload => do
    let status ← engine.mmiSet (initPrefix ++ rule.val) payload
    pure (.status status)
  | .remediate payload => do
    let status ← engine.mmiSet (remediatePrefix ++ rule.val) payload
    pure (.status status)
  | .audit => do
    let result ← engine.mmiGet (auditPrefix ++ rule.val)
    pure (.audit result)

section ObjectNames

private theorem ruleNameAfter_append (name ruleName : Bytes) :
    ruleNameAfter name (name ++ ruleName) = some ruleName := by
  simp [ruleNameAfter, startsWith]

private theorem cString_objectName {name : Bytes} (h : NulFree name) (rule : CString) :
    cString (name ++ rule.val) = name ++ rule.val := by
  rw [cString_append h, cString_of_nulFree rule.property]

variable (engine : Engine W G) (rule : CString) (payload : Bytes)

theorem mmiSet_procedure : engine.mmiSet (procedurePrefix ++ rule.val) payload = (do
    setProcedure engine rule.val payload
    pure .compliant) := by
  rw [mmiSet, cString_objectName (by decide), ruleNameAfter_append]

theorem mmiSet_init : engine.mmiSet (initPrefix ++ rule.val) payload = (do
    initAudit engine rule.val payload
    pure .compliant) := by
  have hprocedure : ruleNameAfter procedurePrefix (initPrefix ++ rule.val) = none := rfl
  rw [mmiSet, cString_objectName (by decide), hprocedure, ruleNameAfter_append]

theorem mmiSet_remediate :
    engine.mmiSet (remediatePrefix ++ rule.val) payload = executeRemediation engine rule.val payload := by
  have hprocedure : ruleNameAfter procedurePrefix (remediatePrefix ++ rule.val) = none := rfl
  have hinit : ruleNameAfter initPrefix (remediatePrefix ++ rule.val) = none := rfl
  rw [mmiSet, cString_objectName (by decide), hprocedure]
  simp only [hinit, ruleNameAfter_append]

theorem mmiGet_audit : engine.mmiGet (auditPrefix ++ rule.val) =
    withStored rule.val { message := utf8 "Rule not found", code := EINVAL } fun procedure =>
      match procedure.audit with
      | none => throw { message := utf8 "Failed to get 'audit' object" }
      | some audit =>
        runEvaluator engine rule.val procedure.parameters (·.executeAudit audit engine.formatter) := by
  rewrite [mmiGet, cString_objectName (by decide), ruleNameAfter_append]
  rfl

end ObjectNames

theorem perform_actsOn (engine : Engine W G) (rule : CString) (operation : Operation) :
    ActsOn rule.val (perform engine rule operation) := by
  cases operation with
  | setProcedure payload =>
    simp only [perform, mmiSet_procedure]
    exact ((setProcedure_actsOn engine payload).bind fun _ => ActsOn.pure _).bind fun _ => ActsOn.pure _
  | init payload =>
    simp only [perform, mmiSet_init]
    exact ((initAudit_actsOn engine payload).bind fun _ => ActsOn.pure _).bind fun _ => ActsOn.pure _
  | remediate payload =>
    simp only [perform, mmiSet_remediate]
    exact (executeRemediation_actsOn engine payload).bind fun _ => ActsOn.pure _
  | audit =>
    simp only [perform, mmiGet_audit]
    refine (ActsOn.withStored _ fun procedure => ?_).bind fun _ => ActsOn.pure _
    split
    · exact ActsOn.throw _
    · exact ActsOn.runEvaluator engine procedure.parameters _

section Runs

variable (engine : Engine W G)

/-- What was asked, and the answer. -/
abbrev Exchange := Operation × Except Error Reply

/-- An operation on a rule when the system outside is as `request.1` says. -/
def step (rule : CString) (request : W × Operation) (database : Database) : Exchange × Database :=
  match perform engine rule request.2 { database, context := request.1 } with
  | .ok reply after => ((request.2, .ok reply), after.database)
  | .error e after => ((request.2, .error e), after.database)

/-- A run of operations on any rules. -/
def run (requests : List (CString × W × Operation)) (database : Database) :
    List (CString × Exchange) × Database :=
  runAll (step engine) requests database

/-- The database of an engine that has at most one rule. -/
def onlyRule (rule : CString) (entry : Option Procedure) : Database :=
  match entry with
  | none => ∅
  | some procedure => (∅ : Database).insert rule.val procedure

/-- The same step by an engine that has no other rule. -/
def ruleStep (rule : CString) (request : W × Operation) (entry : Option Procedure) :
    Exchange × Option Procedure :=
  let (exchange, database) := step engine rule request (onlyRule rule entry)
  (exchange, database[rule.val]?)

theorem onlyRule_entry (rule : CString) (entry : Option Procedure) :
    (onlyRule rule entry)[rule.val]? = entry := by
  cases entry with
  | none => simp [onlyRule]
  | some procedure => simp [onlyRule]

/-- What a step answers and leaves for its rule comes from the rule's entry, and it leaves
the entries of the others alone. -/
theorem step_local (rule : CString) (request : W × Operation) {database database' : Database}
    (h : database[rule.val]? = database'[rule.val]?) :
    (step engine rule request database).1 = (step engine rule request database').1 ∧
      (step engine rule request database).2[rule.val]? =
        (step engine rule request database').2[rule.val]? ∧
      ∀ other : Bytes, other ≠ rule.val →
        (step engine rule request database).2[other]? = database[other]? := by
  have halike := perform_actsOn engine rule request.2 { database, context := request.1 }
    { database := database', context := request.1 } ⟨h, rfl⟩
  unfold step
  generalize perform engine rule request.2 { database, context := request.1 } = x at halike
  generalize perform engine rule request.2 { database := database', context := request.1 } = y at halike
  cases halike with
  | ok reply same left _ => exact ⟨rfl, same.entry, left⟩
  | error e same left _ => exact ⟨rfl, same.entry, left⟩

theorem step_refines :
    Refines (step engine) (ruleStep engine) fun (database : Database) (rule : CString) =>
      database[rule.val]? where
  out rule request database :=
    (step_local engine rule request (onlyRule_entry rule database[rule.val]?).symm).1
  state rule request database := by
    have hlocal := step_local engine rule request (onlyRule_entry rule database[rule.val]?).symm
    funext other
    by_cases hother : other = rule
    · subst hother
      rw [Function.update_self]
      exact hlocal.2.1
    · rw [Function.update_of_ne hother]
      exact hlocal.2.2 other.val fun h => hother (Subtype.ext h)

section Stale

/-- There is nothing that an operation could run for the rule. -/
def Unset (rule : CString) (entry : Option Procedure) : Prop := rule.val = [] ∨ entry = none

/-- Until a procedure set succeeds, every operation fails. -/
def FailsUntilSet : List Exchange → Prop
  | [] => True
  | (.setProcedure _, .ok _) :: _ => True
  | (_, .ok _) :: _ => False
  | (_, .error _) :: rest => FailsUntilSet rest

private theorem withStored_of_unset {α : Type} {rule : CString} {s : EngineState W}
    (h : Unset rule s.database[rule.val]?) (missing : Error) (use : Procedure → EngineM W α) :
    ∃ e, withStored rule.val missing use s = .error e s := by
  unfold withStored
  by_cases hname : rule.val = []
  · exact ⟨emptyRuleName, by rw [if_pos hname]; rfl⟩
  · rcases h with hempty | hnone
    · exact absurd hempty hname
    · refine ⟨missing, ?_⟩
      rw [if_neg hname, bind_run_ok _ (get_run s), hnone]
      rfl

private theorem setProcedure_error {rule : CString} {payload : Bytes} {s t : EngineState W} {e : Error}
    (h : setProcedure engine rule.val payload s = .error e t) : Unset rule t.database[rule.val]? := by
  unfold setProcedure at h
  by_cases hname : rule.val = []
  · exact Or.inl hname
  · right
    rw [if_neg hname, bind_run_ok _ (modify_run _ s)] at h
    cases hparse : Procedure.parseRule engine.num payload with
    | error e' =>
      rw [hparse] at h
      cases h
      exact Std.ExtTreeMap.getElem?_erase_self
    | ok ruleJson =>
      rw [hparse] at h
      change (ofExcept (Procedure.ofRule ruleJson) >>= _) _ = _ at h
      cases hrule : Procedure.ofRule ruleJson with
      | error e' =>
        rw [hrule] at h
        cases h
        exact Std.ExtTreeMap.getElem?_erase_self
      | ok procedure =>
        rw [hrule] at h
        cases h

/-- A failed procedure set leaves nothing to run. -/
theorem step_of_failed_set {rule : CString} {w : W} {payload : Bytes} {database : Database} {e : Error}
    (h : (step engine rule (w, .setProcedure payload) database).1.2 = .error e) :
    Unset rule (step engine rule (w, .setProcedure payload) database).2[rule.val]? := by
  simp only [step, perform, mmiSet_procedure] at h ⊢
  cases hset : setProcedure engine rule.val payload { database, context := w } with
  | ok _ t =>
    have hrun := bind_run_ok (fun _ => (pure .compliant : EngineM W Status)) hset
    rw [bind_run_ok _ hrun] at h
    cases h
  | error e' t =>
    have hrun := bind_run_error (fun _ => (pure .compliant : EngineM W Status)) hset
    rw [bind_run_error _ hrun]
    exact setProcedure_error engine hset

private theorem step_of_perform_error {rule : CString} {request : W × Operation} {database : Database}
    {e : Error} (h : perform engine rule request.2 { database, context := request.1 } =
      .error e { database, context := request.1 }) :
    step engine rule request database = ((request.2, .error e), database) := by
  simp only [step, h]

/-- An operation on a rule that has nothing to run fails, unless it sets a procedure. -/
theorem step_of_unset {rule : CString} (request : W × Operation) {database : Database}
    (h : Unset rule database[rule.val]?) :
    (∃ payload reply, request.2 = .setProcedure payload ∧
        (step engine rule request database).1.2 = .ok reply) ∨
      (∃ e, (step engine rule request database).1.2 = .error e) ∧
        Unset rule (step engine rule request database).2[rule.val]? := by
  obtain ⟨w, operation⟩ := request
  let s : EngineState W := { database, context := w }
  have hs : Unset rule s.database[rule.val]? := h
  cases operation with
  | setProcedure payload =>
    cases hreply : (step engine rule (w, .setProcedure payload) database).1.2 with
    | ok reply => exact Or.inl ⟨payload, reply, rfl, rfl⟩
    | error e => exact Or.inr ⟨⟨e, rfl⟩, step_of_failed_set engine hreply⟩
  | init payload =>
    obtain ⟨e, hrun⟩ := withStored_of_unset hs procedureNotSet fun procedure => do
      let _ ← updateStored engine rule.val payload procedure
      pure ()
    have hperform : perform engine rule (.init payload) s = .error e s := by
      simp only [perform, mmiSet_init]
      exact bind_run_error _ (bind_run_error _ hrun)
    rw [step_of_perform_error engine hperform]
    exact Or.inr ⟨⟨e, rfl⟩, h⟩
  | remediate payload =>
    obtain ⟨e, hrun⟩ := withStored_of_unset hs procedureNotSet fun procedure =>
      match procedure.remediationOrAudit with
      | none => throw { message := utf8 "Failed to get 'remediate' or 'audit' object" }
      | some remediation => do
        let procedure ← updateStored engine rule.val payload procedure
        runEvaluator engine rule.val procedure.parameters (·.executeRemediation remediation)
    have hperform : perform engine rule (.remediate payload) s = .error e s := by
      simp only [perform, mmiSet_remediate]
      exact bind_run_error _ hrun
    rw [step_of_perform_error engine hperform]
    exact Or.inr ⟨⟨e, rfl⟩, h⟩
  | audit =>
    obtain ⟨e, hrun⟩ := withStored_of_unset hs { message := utf8 "Rule not found", code := EINVAL }
      fun procedure =>
        match procedure.audit with
        | none => throw { message := utf8 "Failed to get 'audit' object" }
        | some audit =>
          runEvaluator engine rule.val procedure.parameters (·.executeAudit audit engine.formatter)
    have hperform : perform engine rule .audit s = .error e s := by
      simp only [perform, mmiGet_audit]
      exact bind_run_error _ hrun
    rw [step_of_perform_error engine hperform]
    exact Or.inr ⟨⟨e, rfl⟩, h⟩

/-- What is asked of a rule with nothing to run, and answered, in a run. -/
theorem run_of_unset {rule : CString} (requests : List (CString × W × Operation)) {database : Database}
    (h : Unset rule database[rule.val]?) :
    FailsUntilSet (ofKey rule (run engine requests database).1) := by
  induction requests generalizing database with
  | nil => trivial
  | cons x requests ih =>
    obtain ⟨other, request⟩ := x
    have hlocal := step_local engine other request (rfl : database[other.val]? = database[other.val]?)
    simp only [run, runAll] at ih ⊢
    by_cases hrule : other = rule
    · subst hrule
      have hasked : (step engine other request database).1.1 = request.2 := by
        unfold step
        split <;> rfl
      rw [ofKey_cons_self]
      generalize hstep : step engine other request database = x at hasked
      obtain ⟨⟨operation, reply⟩, after⟩ := x
      obtain rfl : operation = request.2 := hasked
      rcases step_of_unset engine request h with ⟨payload, answer, hset, hok⟩ | ⟨⟨e, hfail⟩, hunset⟩
      · rw [hstep] at hok
        obtain rfl : reply = .ok answer := hok
        rw [hset]
        trivial
      · rw [hstep] at hfail hunset
        obtain rfl : reply = .error e := hfail
        have hrest := ih hunset
        cases hop : request.2 <;> exact hrest
    · rw [ofKey_cons_of_ne rule hrule]
      refine ih ?_
      rwa [hlocal.2.2 rule.val fun heq => hrule (Subtype.ext heq.symm)]

end Stale

/-- An operation on a rule leaves the entries of the others unchanged; what is answered for a
rule in a run, and its entry after it, come from its entry before the run and the operations
on it; and after a failed procedure set nothing of the rule runs until a set succeeds. -/
theorem rules_are_independent :
    (∀ (rule : CString) (request : W × Operation) (database : Database) (other : CString),
      other ≠ rule → (step engine rule request database).2[other.val]? = database[other.val]?) ∧
    (∀ (rule : CString) (requests requests' : List (CString × W × Operation))
        (database database' : Database),
      ofKey rule requests = ofKey rule requests' → database[rule.val]? = database'[rule.val]? →
        ofKey rule (run engine requests database).1 = ofKey rule (run engine requests' database').1 ∧
          (run engine requests database).2[rule.val]? = (run engine requests' database').2[rule.val]?) ∧
    (∀ (rule : CString) (w : W) (payload : Bytes) (database : Database) (e : Error)
        (requests : List (CString × W × Operation)),
      (step engine rule (w, .setProcedure payload) database).1.2 = .error e →
        FailsUntilSet (ofKey rule
          (run engine requests (step engine rule (w, .setProcedure payload) database).2).1)) := by
  refine ⟨?_, ?_, ?_⟩
  · intro rule request database other hother
    exact (step_local engine rule request rfl).2.2 other.val fun h => hother (Subtype.ext h)
  · intro rule requests requests' database database' hrequests hentry
    have hrun := (step_refines engine).runAll_ofKey requests database rule
    have hrun' := (step_refines engine).runAll_ofKey requests' database' rule
    rw [hrequests, hentry, ← hrun'] at hrun
    exact Prod.ext_iff.mp hrun
  · intro rule w payload database e requests hfail
    exact run_of_unset engine requests (step_of_failed_set engine hfail)

end Runs

/-- An engine without procedures and without scripts. -/
def bare : Engine Unit Unit where
  num := ⟨fun _ => [], fun _ => none⟩
  procedureMap := ∅
  lua := ⟨(), fun _ _ => .compilationFailed .nil, fun _ => false⟩
  formatter := fun _ => .ok []

/-- After a payload that is no JSON, an audit of the rule fails; and it is nothing to another rule. -/
theorem rules_are_independent_bare :
    let ruleA : CString := ⟨utf8 "a", by decide⟩
    let ruleB : CString := ⟨utf8 "b", by decide⟩
    let after (database : Database) := (step bare ruleA ((), .setProcedure (utf8 "x")) database).2
    (∀ database : Database, (after database)[ruleB.val]? = database[ruleB.val]?) ∧
      (∀ database : Database, (run bare [(ruleB, (), .audit)] database).2[ruleA.val]? =
        (run bare [] database).2[ruleA.val]?) ∧
      FailsUntilSet (ofKey ruleA (run bare [(ruleA, (), .audit)] (after ∅)).1) := by
  intro ruleA ruleB after
  have hne : ruleB ≠ ruleA := by decide
  refine ⟨fun database => ?_, fun database => ?_, ?_⟩
  · exact (rules_are_independent bare).1 ruleA ((), .setProcedure (utf8 "x")) database ruleB hne
  · exact ((rules_are_independent bare).2.1 ruleA [(ruleB, (), .audit)] [] database database
      (ofKey_cons_of_ne ruleA hne _ _) rfl).2
  · exact (rules_are_independent bare).2.2 ruleA () (utf8 "x") ∅
      { message := utf8 "Failed to parse JSON", code := EINVAL } [(ruleA, (), .audit)] rfl

end Kompli.Engine
