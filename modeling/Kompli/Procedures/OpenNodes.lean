import Kompli.ComplianceEngine.Procedures

/-! Which nodes a sequence of operations leaves open. -/
namespace Kompli

/-- `later` is `node` with more children and indicators. -/
structure Node.GrowsTo (node later : Node) : Prop where
  procedureName : later.procedureName = node.procedureName
  status : later.status = node.status
  children : node.children <+: later.children
  indicators : node.indicators <+: later.indicators

namespace Node.GrowsTo

theorem refl (node : Node) : node.GrowsTo node :=
  ⟨rfl, rfl, List.prefix_refl _, List.prefix_refl _⟩

theorem trans {a b c : Node} (hab : a.GrowsTo b) (hbc : b.GrowsTo c) : a.GrowsTo c where
  procedureName := hbc.procedureName.trans hab.procedureName
  status := hbc.status.trans hab.status
  children := hab.children.trans hbc.children
  indicators := hab.indicators.trans hbc.indicators

theorem addChild (node child : Node) : node.GrowsTo (node.addChild child) :=
  ⟨rfl, rfl, List.prefix_append _ _, List.prefix_refl _⟩

end Node.GrowsTo

namespace TreeOp

/-- Operations that open nodes of their own, close the innermost ones after giving them
a status, and leave `n` of them open. -/
inductive Leaves : List TreeOp → Nat → Prop
  | nil : Leaves [] 0
  | addIndicator {message : Bytes} {status : Status} {ops : List TreeOp} {n : Nat} :
      Leaves ops n → Leaves (.addIndicator message status :: ops) n
  | closed {name : Bytes} {status : Status} {inner ops : List TreeOp} {n : Nat} :
      Leaves inner 0 → Leaves ops n →
      Leaves (.push name :: (inner ++ .setStatus status :: .pop :: ops)) n
  | left {name : Bytes} {ops : List TreeOp} {n : Nat} :
      Leaves ops n → Leaves (.push name :: ops) (n + 1)

theorem applyAll_append (ops ops' : List TreeOp) (t : IndicatorsTree) :
    applyAll (ops ++ ops') t = applyAll ops' (applyAll ops t) :=
  List.foldl_append

private theorem push_apply (name : Bytes) (root : Option Node) (top : Node) (below : List Node) :
    (TreeOp.push name).apply ⟨root, top :: below⟩ = ⟨root, { procedureName := name } :: top :: below⟩ := by
  cases root <;> rfl

namespace Leaves

theorem append {ops ops' : List TreeOp} {m n : Nat} (h : Leaves ops m) (h' : Leaves ops' n) :
    Leaves (ops ++ ops') (m + n) := by
  induction h with
  | nil => simpa using h'
  | addIndicator _ ih => exact .addIndicator ih
  | @closed name status inner ops m hinner _ _ ih =>
    have : Leaves (.push name :: (inner ++ .setStatus status :: .pop :: (ops ++ ops'))) (m + n) :=
      .closed hinner ih
    simpa using this
  | @left name ops m _ ih =>
    rw [Nat.add_right_comm]
    exact .left ih

theorem indicators (added : List Indicator) :
    Leaves (added.map fun i => .addIndicator i.message i.status) 0 := by
  induction added with
  | nil => exact .nil
  | cons _ _ ih => exact .addIndicator ih

/-- Below the nodes left open, the tree is open as it was. -/
theorem applyAll_eq {ops : List TreeOp} {n : Nat} (h : Leaves ops n) (root : Option Node) (top : Node)
    (below : List Node) : ∃ opened top', opened.length = n ∧ top.GrowsTo top' ∧
      applyAll ops ⟨root, top :: below⟩ = ⟨root, opened ++ top' :: below⟩ := by
  induction h generalizing top below with
  | nil => exact ⟨[], top, rfl, Node.GrowsTo.refl top, rfl⟩
  | @addIndicator message status ops n _ ih =>
    obtain ⟨opened, top', hlen, hgrows, happly⟩ :=
      ih { top with indicators := top.indicators ++ [⟨message, status⟩] } below
    refine ⟨opened, top', hlen, Node.GrowsTo.trans ?_ hgrows, happly⟩
    exact ⟨rfl, rfl, List.prefix_refl _, List.prefix_append _ _⟩
  | @closed name status inner ops n _ _ ihInner ih =>
    obtain ⟨opened, node, hnone, -, hinner⟩ := ihInner { procedureName := name } (top :: below)
    rw [List.length_eq_zero_iff] at hnone
    subst hnone
    obtain ⟨opened, top', hlen, hgrows, happly⟩ := ih (top.addChild { node with status }) below
    refine ⟨opened, top', hlen, (Node.GrowsTo.addChild top _).trans hgrows, ?_⟩
    rw [applyAll_cons, push_apply, applyAll_append, hinner]
    exact happly
  | @left name ops n _ ih =>
    obtain ⟨opened, node, hlen, -, happly⟩ := ih { procedureName := name } (top :: below)
    refine ⟨opened ++ [node], top, by simp [hlen], Node.GrowsTo.refl top, ?_⟩
    rw [applyAll_cons, push_apply, happly]
    simp

private theorem depthAfter_append (ops ops' : List TreeOp) (k : Nat) :
    depthAfter k (ops ++ ops') = (depthAfter k ops).bind (depthAfter · ops') := by
  induction ops generalizing k with
  | nil => rfl
  | cons op ops ih => cases op <;> cases k <;> simp [depthAfter, ih]

theorem depthAfter_eq {ops : List TreeOp} {n : Nat} (h : Leaves ops n) (k : Nat) :
    depthAfter k ops = some (k + n) := by
  induction h generalizing k with
  | nil => cases k <;> rfl
  | addIndicator _ ih =>
    rw [depthAfter, ih]
  | closed _ _ ihInner ih =>
    rw [depthAfter, depthAfter_append, ihInner, Option.bind_some, Nat.add_zero, depthAfter, depthAfter, ih]
  | left _ ih =>
    rw [depthAfter, ih]
    simp only [Option.some.injEq]
    omega

end Leaves

/-- The open nodes are afterwards the ones they were, the innermost with more children
and indicators perhaps. -/
def KeepsStack (ops : List TreeOp) : Prop :=
  ∀ (root : Option Node) (top : Node) (below : List Node), ∃ top', top.GrowsTo top' ∧
    applyAll ops ⟨root, top :: below⟩ = ⟨root, top' :: below⟩

/-- Done between `Push(name)` and `Back().status = status; Pop()`, the operations let the
status and the `Pop` hit the node that was pushed. -/
def ClosesOwnNode (ops : List TreeOp) : Prop :=
  ∀ (name : Bytes) (status : Status) (root : Option Node) (top : Node) (below : List Node),
    ∃ node : Node, node.procedureName = name ∧ node.status = status ∧
      applyAll (.push name :: (ops ++ [.setStatus status, .pop])) ⟨root, top :: below⟩ =
        ⟨root, top.addChild node :: below⟩

theorem Leaves.keepsStack_iff {ops : List TreeOp} {n : Nat} (h : Leaves ops n) :
    KeepsStack ops ↔ n = 0 := by
  constructor
  · intro hkeeps
    obtain ⟨top', -, happly⟩ := hkeeps none { procedureName := [] } []
    obtain ⟨opened, _, hlen, -, hopened⟩ := h.applyAll_eq none { procedureName := [] } []
    rw [hopened] at happly
    have := congrArg (fun t : IndicatorsTree => t.stack.length) happly
    simp only [List.length_append, List.length_cons, List.length_nil] at this
    omega
  · rintro rfl root top below
    obtain ⟨opened, top', hnone, hgrows, happly⟩ := h.applyAll_eq root top below
    rw [List.length_eq_zero_iff] at hnone
    subst hnone
    exact ⟨top', hgrows, happly⟩

theorem Leaves.closesOwnNode_iff {ops : List TreeOp} {n : Nat} (h : Leaves ops n) :
    ClosesOwnNode ops ↔ n = 0 := by
  constructor
  · intro hcloses
    obtain ⟨node, -, -, happly⟩ := hcloses [] .compliant none { procedureName := [] } []
    obtain ⟨opened, _, hlen, -, hopened⟩ :=
      h.applyAll_eq none { procedureName := [] } [{ procedureName := [] }]
    have push_applyed : applyAll ops ((TreeOp.push []).apply ⟨none, [{ procedureName := [] }]⟩) = _ := hopened
    rw [applyAll_cons, applyAll_append, push_applyed] at happly
    have := congrArg (fun t : IndicatorsTree => t.stack.length) happly
    simp only [applyAll_cons, applyAll_nil, TreeOp.apply, IndicatorsTree.pop_stack_length,
      IndicatorsTree.setStatus_stack_length, List.length_append, List.length_cons, List.length_nil] at this
    omega
  · rintro rfl name status root top below
    obtain ⟨opened, node, hnone, hgrows, happly⟩ :=
      h.applyAll_eq root { procedureName := name } (top :: below)
    rw [List.length_eq_zero_iff] at hnone
    subst hnone
    refine ⟨{ node with status }, hgrows.procedureName, rfl, ?_⟩
    rw [applyAll_cons, push_apply, applyAll_append, happly]
    rfl

end TreeOp
end Kompli
