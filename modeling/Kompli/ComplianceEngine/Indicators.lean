import Kompli.ComplianceEngine.MmiResults

/-! The tree of indicators, and the operations procedures and scripts use on it. -/
namespace Kompli

structure Indicator where
  message : Bytes
  status : Status
  deriving DecidableEq, Repr

structure Node where
  procedureName : Bytes
  status : Status := .nonCompliant
  children : List Node := []
  indicators : List Indicator := []

/-- `stack` is `mEvaluationStack`, innermost node first. A node joins its parent's
children when it is closed, and `root` is set when the root is. -/
structure IndicatorsTree where
  root : Option Node := none
  stack : List Node := []

def Node.addChild (parent child : Node) : Node :=
  { parent with children := parent.children ++ [child] }

@[simp] theorem Node.addChild_procedureName (p c : Node) :
    (p.addChild c).procedureName = p.procedureName := rfl
@[simp] theorem Node.addChild_children (p c : Node) : (p.addChild c).children = p.children ++ [c] := rfl
@[simp] theorem Node.addChild_status (p c : Node) : (p.addChild c).status = p.status := rfl

/-- Induction with the hypothesis at every child. -/
@[elab_as_elim]
theorem Node.ind {P : Node → Prop} (node : ∀ name status children indicators,
    (∀ child ∈ children, P child) → P ⟨name, status, children, indicators⟩) (n : Node) : P n :=
  Node.rec (motive_1 := P) (motive_2 := fun children => ∀ child ∈ children, P child)
    (fun name status children indicators ih => node name status children indicators ih)
    (fun _ h => absurd h List.not_mem_nil) (fun _ _ hn hns => List.forall_mem_cons.mpr ⟨hn, hns⟩) n

namespace IndicatorsTree

/-- The whole tree: the open nodes are the last children of their parents. -/
def getRootNode (t : IndicatorsTree) : Option Node :=
  match t.stack with
  | [] => t.root
  | node :: parents => some (parents.foldl (fun child parent => parent.addChild child) node)

-- In each operation the case that leaves the tree as it is stands for a failed assertion.

def addIndicator (message : Bytes) (status : Status) (t : IndicatorsTree) : IndicatorsTree :=
  match t.stack with
  | [] => t
  | node :: parents =>
    { t with stack := { node with indicators := node.indicators ++ [⟨message, status⟩] } :: parents }

def push (procedureName : Bytes) (t : IndicatorsTree) : IndicatorsTree :=
  match t.root, t.stack with
  | some _, [] => t
  | _, stack => { t with stack := { procedureName } :: stack }

def setStatus (status : Status) (t : IndicatorsTree) : IndicatorsTree :=
  match t.stack with
  | [] => t
  | node :: parents => { t with stack := { node with status } :: parents }

def pop (t : IndicatorsTree) : IndicatorsTree :=
  match t.stack with
  | [] => t
  | [node] => { root := some node, stack := [] }
  | node :: parent :: parents => { t with stack := parent.addChild node :: parents }

@[simp] theorem setStatus_stack_length (status : Status) (t : IndicatorsTree) :
    (t.setStatus status).stack.length = t.stack.length := by
  unfold setStatus
  split <;> simp_all

@[simp] theorem pop_stack_length (t : IndicatorsTree) : t.pop.stack.length = t.stack.length - 1 := by
  unfold pop
  split <;> simp_all

end IndicatorsTree

/-- One call that a procedure or a script makes on the tree. -/
inductive TreeOp where
  | addIndicator (message : Bytes) (status : Status)
  | push (procedureName : Bytes)
  | setStatus (status : Status)
  | pop
  deriving DecidableEq, Repr

namespace TreeOp

def apply : TreeOp → IndicatorsTree → IndicatorsTree
  | .addIndicator message status, t => t.addIndicator message status
  | .push name, t => t.push name
  | .setStatus status, t => t.setStatus status
  | .pop, t => t.pop

def applyAll (ops : List TreeOp) (t : IndicatorsTree) : IndicatorsTree :=
  ops.foldl (fun t op => op.apply t) t

@[simp] theorem applyAll_nil (t : IndicatorsTree) : applyAll [] t = t := rfl
@[simp] theorem applyAll_cons (op : TreeOp) (ops : List TreeOp) (t : IndicatorsTree) :
    applyAll (op :: ops) t = applyAll ops (op.apply t) := rfl

/-- The number of nodes left open by `ops` when `depth` of them are open before,
or none when `ops` close more nodes than that and than they opened themselves. -/
def depthAfter : Nat → List TreeOp → Option Nat
  | depth, [] => some depth
  | depth, .push _ :: ops => depthAfter (depth + 1) ops
  | 0, .pop :: _ => none
  | depth + 1, .pop :: ops => depthAfter depth ops
  | depth, .addIndicator _ _ :: ops => depthAfter depth ops
  | depth, .setStatus _ :: ops => depthAfter depth ops

end TreeOp
end Kompli
