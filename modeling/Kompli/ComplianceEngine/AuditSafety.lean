import Kompli.ComplianceEngine.Trace

/-! An audit remediates nothing, and neither does what a remediation only audits. -/
namespace Kompli
open Foundation

namespace Event

variable {W : Type}

/-- The path of the leaf that an event happened in. -/
def path : Event W → Path
  | .leaf path _ => path
  | .invoked path _ _ _ _ _ _ => path
  | .scriptOps path _ _ => path

/-- A remediation function was called. -/
def Remediates : Event W → Prop
  | .invoked _ _ kind _ _ _ _ => kind = .remediate
  | _ => False

end Event

namespace Evaluator

variable {W G : Type}

private theorem LeafEvent.remediates {path : Path} {action : Action} {e : Event W}
    (h : LeafEvent path action e) (hr : e.Remediates) : e.path = path ∧ action = .remediate := by
  cases e with
  | invoked p procedure kind arguments indicators before outcome => exact ⟨h.1, h.2 hr⟩
  | leaf p result => exact absurd hr id
  | scriptOps p ops indicators => exact absurd hr id

private theorem BelowEvent.remediates {path : Path} {action : Action} {e : Event W}
    (h : BelowEvent path action e) (hr : e.Remediates) :
    action = .remediate ∧ ∃ below, e.path = path ++ below ∧ Formula.Step.not ∉ below := by
  obtain ⟨below, action', he, ha⟩ := h
  obtain ⟨hpath, haction⟩ := LeafEvent.remediates he hr
  exact ⟨(ha haction).1, below, hpath, (ha haction).2⟩

private theorem executeRemediation_trace (ev : Evaluator W G) (json : JsonValue) :
    Evolves (Extends (BelowEvent [] .remediate)) (executeRemediation ev json) := by
  intro s
  unfold executeRemediation
  refine leaves_bind Extends.trans (evaluateProcedure_extends ev [] json .remediate s) fun _ t _ => ?_
  exact leaves_bind Extends.trans (Extends.of_trace_eq rfl) fun _ u _ => Extends.refl u

/-- An audit calls no remediation function, whatever its scripts try, and a remediation calls
none from a leaf below a `not`. -/
theorem audit_never_remediates (ev : Evaluator W G) (ruleName : Bytes) (context : W)
    (json : JsonValue) (formatter : PayloadFormatter) :
    (∀ e ∈ (leaves (executeAudit ev json formatter) (ev.initialState ruleName context)).trace,
      ¬ e.Remediates) ∧
    (∀ e ∈ (leaves (executeRemediation ev json) (ev.initialState ruleName context)).trace,
      e.Remediates → Formula.Step.not ∉ e.path) := by
  have audit := (evaluateProcedure_extends ev [] json .audit (ev.initialState ruleName context)).newEvents_eq
  have remediation := (executeRemediation_trace ev json (ev.initialState ruleName context)).newEvents_eq
  refine ⟨fun e he hr => ?_, fun e he hr => ?_⟩
  · rw [executeAudit_trace, audit.1] at he
    cases (BelowEvent.remediates (audit.2 e he) hr).1
  · rw [remediation.1] at he
    obtain ⟨-, below, hpath, hnot⟩ := BelowEvent.remediates (remediation.2 e he) hr
    rwa [hpath]

end Evaluator
end Kompli
