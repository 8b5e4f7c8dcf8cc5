import Kompli.ComplianceEngine.Evaluator
import Mathlib.Data.List.Induction
import Mathlib.Tactic.Tauto

/-! What the formatters assume of a tree, and which operations on the tree keep it. -/
namespace Kompli

namespace Node

mutual
/-- No child of an anyOf before the last is Compliant, and a not has a child. -/
def Formattable : Node → Prop
  | ⟨procedureName, _, children, _⟩ =>
    (procedureName = anyOfName → ∀ child ∈ children.dropLast, child.status ≠ .compliant) ∧
    (procedureName = notName → children ≠ []) ∧ AllFormattable children
def AllFormattable : List Node → Prop
  | [] => True
  | child :: children => child.Formattable ∧ AllFormattable children
end

theorem allFormattable_iff (nodes : List Node) : AllFormattable nodes ↔ ∀ n ∈ nodes, n.Formattable := by
  induction nodes with
  | nil => simp [AllFormattable]
  | cons n nodes ih => rw [AllFormattable, ih, List.forall_mem_cons]

theorem formattable_iff (n : Node) : n.Formattable ↔
    (n.procedureName = anyOfName → ∀ child ∈ n.children.dropLast, child.status ≠ .compliant) ∧
    (n.procedureName = notName → n.children ≠ []) ∧ ∀ child ∈ n.children, child.Formattable := by
  obtain ⟨procedureName, status, children, indicators⟩ := n
  rw [Formattable, allFormattable_iff]

/-- An open node without an open child. -/
def InnermostOk (n : Node) : Prop :=
  (n.procedureName = anyOfName → ∀ child ∈ n.children.dropLast, child.status ≠ .compliant) ∧
  ∀ child ∈ n.children, child.Formattable

/-- An open node with an open child, which will be its last. -/
def ParentOk (n : Node) : Prop :=
  (n.procedureName = anyOfName → ∀ child ∈ n.children, child.status ≠ .compliant) ∧
  ∀ child ∈ n.children, child.Formattable

/-- A child may be opened under this node. -/
def CanOpen (n : Node) : Prop :=
  n.procedureName = anyOfName → ∀ child ∈ n.children.getLast?, child.status ≠ .compliant

/-- This node may be closed. -/
def CanClose (n : Node) : Prop := n.procedureName = notName → n.children ≠ []

theorem parentOk_iff (n : Node) : n.ParentOk ↔ n.InnermostOk ∧ n.CanOpen := by
  have hlast : (∀ child ∈ n.children, child.status ≠ .compliant) ↔
      (∀ child ∈ n.children.dropLast, child.status ≠ .compliant) ∧
        ∀ child ∈ n.children.getLast?, child.status ≠ .compliant := by
    induction n.children using List.reverseRecOn with
    | nil => simp
    | append_singleton children child ih => simp [or_imp, forall_and]
  unfold ParentOk InnermostOk CanOpen
  constructor
  · rintro ⟨hany, hchildren⟩
    exact ⟨⟨fun h => (hlast.mp (hany h)).1, hchildren⟩, fun h => (hlast.mp (hany h)).2⟩
  · rintro ⟨⟨hany, hchildren⟩, hopen⟩
    exact ⟨fun h => hlast.mpr ⟨hany h, hopen h⟩, hchildren⟩

theorem formattable_iff_close (n : Node) : n.Formattable ↔ n.InnermostOk ∧ n.CanClose := by
  rw [formattable_iff, InnermostOk, CanClose]
  tauto

theorem innermostOk_addChild (p n : Node) : (p.addChild n).InnermostOk ↔ p.ParentOk ∧ n.Formattable := by
  unfold InnermostOk ParentOk
  simp only [addChild_procedureName, addChild_children, List.dropLast_concat, List.forall_mem_append,
    List.forall_mem_singleton]
  exact and_assoc.symm

end Node

namespace IndicatorsTree

/-- A tree that can still become one the formatters accept. -/
def Ok (t : IndicatorsTree) : Prop :=
  match t.stack with
  | [] => ∀ root ∈ t.root, root.Formattable
  | node :: parents => node.InnermostOk ∧ ∀ p ∈ parents, p.ParentOk

end IndicatorsTree

namespace TreeOp

/-- An operation that does not break what the formatters assume. -/
def Safe : TreeOp → IndicatorsTree → Prop
  | .push _, t => ∀ node ∈ t.stack.head?, node.CanOpen
  | .pop, t => ∀ node ∈ t.stack.head?, node.CanClose
  | .addIndicator _ _, _ => True
  | .setStatus _, _ => True

def AllSafe : List TreeOp → IndicatorsTree → Prop
  | [], _ => True
  | op :: ops, t => op.Safe t ∧ AllSafe ops (op.apply t)

private theorem ok_push {name : Bytes} {t : IndicatorsTree} (hroot : t.root = none) :
    (t.push name).Ok ↔ t.Ok ∧ ∀ node ∈ t.stack.head?, node.CanOpen := by
  obtain ⟨root, stack⟩ := t
  cases hroot
  have hnew : Node.InnermostOk { procedureName := name } := ⟨fun _ => by simp, by simp⟩
  cases stack with
  | nil => simp [IndicatorsTree.push, IndicatorsTree.Ok, hnew]
  | cons node parents =>
    simp only [IndicatorsTree.push, IndicatorsTree.Ok, hnew, true_and, List.forall_mem_cons,
      Node.parentOk_iff node, List.head?_cons, Option.mem_some_iff, forall_eq']
    exact and_right_comm

private theorem ok_pop (t : IndicatorsTree) :
    t.pop.Ok ↔ t.Ok ∧ ∀ node ∈ t.stack.head?, node.CanClose := by
  obtain ⟨root, stack⟩ := t
  match stack with
  | [] => simp [IndicatorsTree.pop, IndicatorsTree.Ok]
  | [node] => simp [IndicatorsTree.pop, IndicatorsTree.Ok, Node.formattable_iff_close]
  | node :: parent :: parents =>
    simp only [IndicatorsTree.pop, IndicatorsTree.Ok, Node.innermostOk_addChild, List.forall_mem_cons,
      Node.formattable_iff_close, List.head?_cons, Option.mem_some_iff, forall_eq']
    tauto

/-- An operation keeps the tree acceptable exactly when it is safe. -/
theorem ok_apply (op : TreeOp) {t : IndicatorsTree} (hroot : t.root = none) :
    (op.apply t).Ok ↔ t.Ok ∧ op.Safe t := by
  cases op with
  | push name => exact ok_push hroot
  | pop => exact ok_pop t
  | addIndicator message status =>
    obtain ⟨root, stack⟩ := t
    cases stack <;> simp [apply, IndicatorsTree.addIndicator, IndicatorsTree.Ok, Safe, Node.InnermostOk]
  | setStatus status =>
    obtain ⟨root, stack⟩ := t
    cases stack <;> simp [apply, IndicatorsTree.setStatus, IndicatorsTree.Ok, Safe, Node.InnermostOk]

/-- Closing a node with its status. -/
theorem ok_close (status : Status) (t : IndicatorsTree) :
    (applyAll [.setStatus status, .pop] t).Ok ↔ t.Ok ∧ ∀ node ∈ t.stack.head?, node.CanClose := by
  refine (ok_pop _).trans ?_
  obtain ⟨root, stack⟩ := t
  cases stack <;> simp [apply, IndicatorsTree.setStatus, IndicatorsTree.Ok, Node.InnermostOk, Node.CanClose]

end TreeOp

/-- The tree is open at `top` and `below`, with `nodes` opened above them. -/
structure IndicatorsTree.OpenAt (t : IndicatorsTree) (nodes : List Node) (top : Node)
    (below : List Node) : Prop where
  root : t.root = none
  stack : t.stack = nodes ++ top :: below

namespace TreeOp

/-- An operation that has `k` nodes above `top` to close leaves `d`, and keeps `top` open. -/
private theorem openAt_apply {op : TreeOp} {k d : Nat} (hd : depthAfter k [op] = some d)
    {t : IndicatorsTree} {nodes below : List Node} {top : Node} (h : t.OpenAt nodes top below)
    (hk : k ≤ nodes.length) :
    ∃ nodes' top', (op.apply t).OpenAt nodes' top' below ∧ nodes'.length + k = nodes.length + d ∧
      top'.procedureName = top.procedureName := by
  obtain ⟨root, stack⟩ := t
  obtain ⟨hroot, hstack⟩ := h
  dsimp only at hroot hstack
  subst hroot hstack
  cases op with
  | push name =>
    simp only [depthAfter, Option.some.injEq] at hd
    subst hd
    refine ⟨{ procedureName := name } :: nodes, top, ⟨rfl, rfl⟩, ?_, rfl⟩
    rw [List.length_cons]
    omega
  | pop =>
    cases k with
    | zero => simp [depthAfter] at hd
    | succ k =>
      simp only [depthAfter, Option.some.injEq] at hd
      subst hd
      match nodes, hk with
      | [node], _ => exact ⟨[], top.addChild node, ⟨rfl, rfl⟩, by simp; omega, rfl⟩
      | node :: parent :: nodes, _ =>
        refine ⟨parent.addChild node :: nodes, top, ⟨rfl, rfl⟩, ?_, rfl⟩
        simp only [List.length_cons]
        omega
  | addIndicator message status =>
    simp only [depthAfter, Option.some.injEq] at hd
    subst hd
    cases nodes with
    | nil => exact ⟨[], _, ⟨rfl, rfl⟩, rfl, rfl⟩
    | cons node nodes => exact ⟨_ :: nodes, top, ⟨rfl, rfl⟩, rfl, rfl⟩
  | setStatus status =>
    simp only [depthAfter, Option.some.injEq] at hd
    subst hd
    cases nodes with
    | nil => exact ⟨[], _, ⟨rfl, rfl⟩, rfl, rfl⟩
    | cons node nodes => exact ⟨_ :: nodes, top, ⟨rfl, rfl⟩, rfl, rfl⟩

private theorem depthAfter_cons {op : TreeOp} {ops : List TreeOp} {k d : Nat}
    (h : depthAfter k (op :: ops) = some d) :
    ∃ j, depthAfter k [op] = some j ∧ depthAfter j ops = some d := by
  cases op <;> cases k <;> simp_all [depthAfter]

/-- The same for a list of operations, with what they do to the formatters' assumptions. -/
theorem openAt_applyAll {ops : List TreeOp} {k d : Nat} (hd : depthAfter k ops = some d)
    {t : IndicatorsTree} {nodes below : List Node} {top : Node} (h : t.OpenAt nodes top below)
    (hk : k ≤ nodes.length) :
    (∃ nodes' top', (applyAll ops t).OpenAt nodes' top' below ∧
      nodes'.length + k = nodes.length + d ∧ top'.procedureName = top.procedureName) ∧
    ((applyAll ops t).Ok ↔ t.Ok ∧ AllSafe ops t) := by
  induction ops generalizing k t nodes top with
  | nil =>
    simp only [depthAfter, Option.some.injEq] at hd
    subst hd
    exact ⟨⟨nodes, top, h, rfl, rfl⟩, by simp [AllSafe]⟩
  | cons op ops ih =>
    obtain ⟨j, hop, hops⟩ := depthAfter_cons hd
    obtain ⟨nodes₁, top₁, h₁, hlen₁, hname₁⟩ := openAt_apply hop h hk
    obtain ⟨⟨nodes', top', h', hlen', hname'⟩, hok⟩ := ih hops h₁ (by omega)
    refine ⟨⟨nodes', top', h', by omega, hname'.trans hname₁⟩, ?_⟩
    rw [applyAll_cons, hok, ok_apply op h.root, AllSafe, and_assoc]

end TreeOp
end Kompli
