import Kompli.ComplianceEngine.Payload

/-! An audit computes the strong Kleene value of its payload. -/
namespace Kompli
open Foundation

/-- A payload with the status that each leaf is to return. -/
abbrev LabelledPayload := Formula (Leaf × Status)

namespace LabelledPayload

/-- allOf is the meet, anyOf the join and not the reversal of NonCompliant < NotApplicable < Compliant. -/
def kleene (payload : LabelledPayload) : Status := Formula.value Status.negIso Prod.snd payload

def json (payload : LabelledPayload) : JsonValue := Payload.toJson Prod.fst payload

end LabelledPayload

/-- The two operations on lists, in the order of truth. -/
def ListAction.combine : ListAction → Status → Status → Status
  | .anyOf, a, b => a ⊔ b
  | .allOf, a, b => a ⊓ b

def ListAction.fold (l : ListAction) (vs : List Status) : Status := vs.foldr l.combine l.unit

theorem ListAction.combine_decisive (l : ListAction) (a b : Status) :
    l.combine a (l.combine l.decisive b) = l.decisive := by
  cases l <;> cases a <;> cases b <;> decide

theorem ListAction.combine_step (l : ListAction) {acc r : Status} (hacc : acc ≠ l.decisive)
    (hr : r ≠ l.decisive) (b : Status) :
    l.combine acc (l.combine r b) =
      l.combine (if r = .notApplicable then .notApplicable else acc) b := by
  revert hacc hr
  cases l <;> cases acc <;> cases r <;> cases b <;> decide

theorem ListAction.step_keeps (l : ListAction) {acc r : Status} (hacc : acc ≠ l.decisive) :
    (if r = .notApplicable then .notApplicable else acc) ≠ l.decisive := by
  split
  · cases l <;> decide
  · exact hacc

namespace Evaluator

variable {W G : Type} (ev : Evaluator W G)

/-- The leaf that returned has the label of the payload's leaf at that path. -/
def ReturnsLabel (payload : LabelledPayload) (path : Path) (result : Except Error Status) : Prop :=
  ∃ l, Formula.leafAt path payload = some l ∧ result = .ok l.2

/-- Every leaf that the audit evaluates returns its label. -/
def LeavesReturn (payload : LabelledPayload) (s : EvalState W G) : Prop :=
  ∀ path result, .leaf path result ∈ newEvents (evaluateProcedure ev [] payload.json .audit) s →
    ReturnsLabel payload path result

/-- The same below a path. -/
private def ReturnsBelow (base : Path) (payload : LabelledPayload) (events : List (Event W)) : Prop :=
  ∀ path result, .leaf (base ++ path) result ∈ events → ReturnsLabel payload path result

private def Evaluates (payload : LabelledPayload) : Prop :=
  ∀ (path : Path) (s : EvalState W G),
    ReturnsBelow path payload (newEvents (evaluateProcedure ev path payload.json .audit) s) →
    ∃ t, evaluateProcedure ev path payload.json .audit s = .ok payload.kleene t

private theorem leaf_evaluates (a : Leaf × Status) : Evaluates ev (.leaf a) := by
  intro path s h
  simp only [LabelledPayload.json, LabelledPayload.kleene, Formula.value] at h ⊢
  rw [evaluateProcedure_leaf] at h ⊢
  rw [newEvents_within] at h
  obtain ⟨result, hmem, hrun⟩ := evaluateLeaf_noted ev path a.1 .audit (s.applyOps [.push (cString a.1.name)])
  obtain ⟨l, hl, rfl⟩ := h [] result (by simpa using hmem)
  cases hl
  obtain ⟨t, ht⟩ := hrun a.2 rfl
  exact ⟨_, within_ok_iff.mpr ⟨t, ht, rfl⟩⟩

/-- The loop: the children before it left `acc`, which decides nothing yet. -/
private theorem items_evaluate (fs : List LabelledPayload) (ih : ∀ f ∈ fs, Evaluates ev f)
    (path : Path) (l : ListAction) (i : Nat) (acc : Status) (hacc : acc ≠ l.decisive)
    (s : EvalState W G)
    (h : ∀ j f, fs[j]? = some f → ReturnsBelow (path ++ [l.step (i + j)]) f
      (newEvents (evaluateItems ev path .audit l i (Payload.toJsons Prod.fst fs) acc) s)) :
    ∃ t, evaluateItems ev path .audit l i (Payload.toJsons Prod.fst fs) acc s =
      .ok (l.combine acc (l.fold (fs.map LabelledPayload.kleene))) t := by
  induction fs generalizing i acc s with
  | nil =>
    refine ⟨s, ?_⟩
    simp only [Payload.toJsons, evaluateItems, List.map_nil]
    rw [show l.combine acc (l.fold []) = acc by cases l <;> cases acc <;> decide]
    rfl
  | cons f fs ihfs =>
    simp only [Payload.toJsons, evaluateItems] at h ⊢
    have first := evaluateProcedure_extends ev (path ++ [l.step i]) (Payload.toJson Prod.fst f) .audit s
    have rest := fun (r : Status) (t : EvalState W G) =>
      (show Extends (BelowEvent path .audit) t (leaves (if r = l.decisive then pure l.decisive else
        evaluateItems ev path .audit l (i + 1) (Payload.toJsons Prod.fst fs)
          (if r = .notApplicable then .notApplicable else acc)) t) by
        split
        · exact Extends.refl t
        · exact evaluateItems_extends ev path .audit l _ _ _ t)
    obtain ⟨t, ht⟩ : ∃ t, evaluateProcedure ev (path ++ [l.step i]) (Payload.toJson Prod.fst f) .audit s =
        .ok f.kleene t := by
      refine ih f List.mem_cons_self (path ++ [l.step i]) s fun p result hmem => ?_
      refine h 0 f rfl p result ?_
      cases hrun : evaluateProcedure ev (path ++ [l.step i]) (Payload.toJson Prod.fst f) .audit s with
      | error e t => rwa [newEvents_of_error hrun]
      | ok r t =>
        rw [newEvents_bind hrun first (rest r t)]
        exact List.mem_append_left _ hmem
    rw [bind_run_ok _ ht]
    rw [newEvents_bind ht first (rest f.kleene t)] at h
    rw [List.map_cons, ListAction.fold, List.foldr_cons, ← ListAction.fold]
    by_cases hr : f.kleene = l.decisive
    · rw [if_pos hr, hr, l.combine_decisive]
      exact ⟨t, rfl⟩
    · rw [if_neg hr] at h ⊢
      rw [l.combine_step hacc hr]
      refine ihfs (fun g hg => ih g (List.mem_cons_of_mem _ hg)) (i + 1) _ (l.step_keeps hacc) t ?_
      intro j g hg p result hmem
      refine h (j + 1) g hg p result (List.mem_append_right _ ?_)
      rwa [show i + (j + 1) = i + 1 + j by omega]

private theorem list_evaluates (fs : List LabelledPayload) (ih : ∀ f ∈ fs, Evaluates ev f) (path : Path)
    (l : ListAction) (s : EvalState W G)
    (h : ∀ j f, fs[j]? = some f → ReturnsBelow (path ++ [l.step j]) f
      (newEvents (evaluateItems ev path .audit l 0 (Payload.toJsons Prod.fst fs) l.unit) s)) :
    ∃ t, evaluateItems ev path .audit l 0 (Payload.toJsons Prod.fst fs) l.unit s =
      .ok (l.fold (fs.map LabelledPayload.kleene)) t := by
  have hunit : l.unit ≠ l.decisive := by cases l <;> decide
  obtain ⟨t, ht⟩ := items_evaluate ev fs ih path l 0 l.unit hunit s (by simpa using h)
  refine ⟨t, ht.trans ?_⟩
  congr 1
  generalize l.fold (fs.map LabelledPayload.kleene) = v
  cases l <;> cases v <;> decide

private theorem evaluates (payload : LabelledPayload) : Evaluates ev payload := by
  induction payload using Formula.ind with
  | leaf a => exact leaf_evaluates ev a
  | not f ih =>
    intro path s h
    have first := fun s : EvalState W G =>
      evaluateProcedure_extends ev (path ++ [.not]) (Payload.toJson Prod.fst f) .audit s
    simp only [LabelledPayload.json, LabelledPayload.kleene, Formula.value] at h ⊢
    rw [evaluateProcedure_not] at h ⊢
    rw [newEvents_within] at h
    obtain ⟨t, ht⟩ := ih (path ++ [.not]) (s.applyOps [.push notName]) fun p result hmem => by
      refine h (.not :: p) result ?_
      rw [List.append_assoc] at hmem
      cases hrun : evaluateProcedure ev (path ++ [.not]) (Payload.toJson Prod.fst f) .audit
          (s.applyOps [.push notName]) with
      | error e t => rwa [newEvents_of_error hrun]
      | ok r t =>
        rw [newEvents_bind hrun (first _) (show Extends (fun _ => True) t _ from Extends.refl _)]
        exact List.mem_append_left _ hmem
    exact ⟨_, within_ok_iff.mpr ⟨t, (bind_run_ok _ ht).trans rfl, rfl⟩⟩
  | anyOf fs ih =>
    intro path s h
    simp only [LabelledPayload.json, LabelledPayload.kleene, Formula.value, Formula.values_eq_map] at h ⊢
    rw [evaluateProcedure_anyOf] at h ⊢
    rw [newEvents_within] at h
    obtain ⟨t, ht⟩ := list_evaluates ev fs ih path .anyOf (s.applyOps [.push anyOfName])
      fun j f hf p result hmem => by
        have := h (.anyOf j :: p) result (by simpa [ListAction.step] using hmem)
        simpa [ReturnsLabel, Formula.leafAt, hf] using this
    exact ⟨_, within_ok_iff.mpr ⟨t, ht, rfl⟩⟩
  | allOf fs ih =>
    intro path s h
    simp only [LabelledPayload.json, LabelledPayload.kleene, Formula.value, Formula.values_eq_map] at h ⊢
    rw [evaluateProcedure_allOf] at h ⊢
    rw [newEvents_within] at h
    obtain ⟨t, ht⟩ := list_evaluates ev fs ih path .allOf (s.applyOps [.push allOfName])
      fun j f hf p result hmem => by
        have := h (.allOf j :: p) result (by simpa [ListAction.step] using hmem)
        simpa [ReturnsLabel, Formula.leafAt, hf] using this
    exact ⟨_, within_ok_iff.mpr ⟨t, ht, rfl⟩⟩

/-- An audit whose leaves all return succeeds with the strong Kleene value of the tree, so the
order of the operands does not matter and De Morgan's laws hold, at any depth. -/
theorem audit_is_strong_kleene (payload : LabelledPayload) (s : EvalState W G)
    (h : LeavesReturn ev payload s) :
    (∃ t, evaluateProcedure ev [] payload.json .audit s = .ok payload.kleene t) ∧
    (∀ (payload' : LabelledPayload) (s' : EvalState W G), Formula.Reordered payload payload' →
      LeavesReturn ev payload' s' →
      ∃ t, evaluateProcedure ev [] payload'.json .audit s' = .ok payload.kleene t) ∧
    (∀ (fs : List LabelledPayload) (s' : EvalState W G), payload = .not (.anyOf fs) →
      LeavesReturn ev (.allOf (fs.map .not)) s' →
      ∃ t, evaluateProcedure ev [] (LabelledPayload.json (.allOf (fs.map .not))) .audit s' =
        .ok payload.kleene t) ∧
    (∀ (fs : List LabelledPayload) (s' : EvalState W G), payload = .not (.allOf fs) →
      LeavesReturn ev (.anyOf (fs.map .not)) s' →
      ∃ t, evaluateProcedure ev [] (LabelledPayload.json (.anyOf (fs.map .not))) .audit s' =
        .ok payload.kleene t) := by
  have value : ∀ (f : LabelledPayload) (s : EvalState W G), LeavesReturn ev f s →
      ∃ t, evaluateProcedure ev [] f.json .audit s = .ok f.kleene t :=
    fun f s h => evaluates ev f [] s h
  refine ⟨value payload s h, ?_, ?_, ?_⟩
  · intro payload' s' hr h'
    rw [LabelledPayload.kleene, hr.value_eq]
    exact value payload' s' h'
  · rintro fs s' rfl h'
    rw [LabelledPayload.kleene, Formula.value_not_anyOf]
    exact value _ s' h'
  · rintro fs s' rfl h'
    rw [LabelledPayload.kleene, Formula.value_not_allOf]
    exact value _ s' h'

/-- Procedures that always return the same status. -/
def constant (procedures : List (Bytes × Status)) : Evaluator Unit Unit where
  procedureMap := procedures.foldl (fun m p =>
    m.insert p.1 { audit := some fun _ _ => { result := .ok p.2, context := () } }) ∅
  parameters := ∅
  lua := ⟨(), fun _ _ => .compilationFailed .nil, fun _ => false⟩

private def passLeaf : Leaf := { name := utf8 "Pass", value := .object [] }
private def skipLeaf : Leaf := { name := utf8 "Skip", value := .object [] }

private def leafResult? : Event W → Option (Path × Except Error Status)
  | .leaf path result => some (path, result)
  | _ => none

/-- `not (anyOf [Skip, Pass])`, in which the second operand decides. -/
theorem audit_is_strong_kleene_not_anyOf :
    let ev := constant [(utf8 "Pass", .compliant), (utf8 "Skip", .notApplicable)]
    let payload : LabelledPayload :=
      .not (.anyOf [.leaf (skipLeaf, .notApplicable), .leaf (passLeaf, .compliant)])
    ∃ t, evaluateProcedure ev [] payload.json .audit (ev.initialState (utf8 "rule") ()) =
      .ok .nonCompliant t := by
  intro ev payload
  refine (audit_is_strong_kleene ev payload _ fun path result hmem => ?_).1
  have hresults : (path, result) ∈ (newEvents (evaluateProcedure ev [] payload.json .audit)
      (ev.initialState (utf8 "rule") ())).filterMap leafResult? :=
    List.mem_filterMap.mpr ⟨_, hmem, rfl⟩
  change (path, result) ∈ [([.not, .anyOf 0], Except.ok Status.notApplicable),
    ([.not, .anyOf 1], .ok .compliant)] at hresults
  simp only [List.mem_cons, Prod.mk.injEq, List.not_mem_nil, or_false] at hresults
  rcases hresults with ⟨rfl, rfl⟩ | ⟨rfl, rfl⟩
  · exact ⟨(skipLeaf, .notApplicable), rfl, rfl⟩
  · exact ⟨(passLeaf, .compliant), rfl, rfl⟩

end Evaluator
end Kompli
