import Kompli.Cli.JUnitReport
import Mathlib.Logic.Relation

/-! The indicators of a result as text, and as they are in the report of JUnit: both show the same. -/
namespace Kompli.Cli.TextRenderers
open Parson Foundation Relation

section Model

/-- The lines of the indicators from a depth on. -/
def appendIndicators (indicators : List JsonValue) (depth baseIndent : Nat) : Bytes :=
  if maxIndicatorDepth ≤ depth then []
  else indicators.flatMap fun
    | .object node =>
      let message := stringOrEmpty node (utf8 "message")
      let label := if message = [] then stringOrEmpty node (utf8 "procedure") else message
      let status := stringOrEmpty node (utf8 "status")
      List.replicate (baseIndent + depth * 2) 0x20 ++ utf8 "- " ++ label ++
        (if status ≠ [] then utf8 " [" ++ status ++ utf8 "]" else []) ++ utf8 "\n" ++
        appendIndicators ((getArray node (utf8 "indicators")).getD []) (depth + 1) baseIndent
    | _ => []
termination_by maxIndicatorDepth - depth

def joinParameters (num : NumberFormat) (rule : Members) : Bytes :=
  match getObject rule (utf8 "parameters") with
  | none => []
  | some parameters => List.intercalate (utf8 ", ") <| parameters.map fun parameter =>
      let value := match parameter.2 with
        | .string value => cString value
        | value => jsonSerializeToString num value
      cString parameter.1 ++ utf8 "=" ++ value

inductive TextStyle where
  | compactList
  | nestedList
  | debug

/-- What is shown of one rule. -/
def ruleText (num : NumberFormat) (rule : Members) : TextStyle → Bytes
  | .compactList => utf8 "  [" ++ stringOrEmpty rule (utf8 "status") ++ utf8 "] " ++ stringOrEmpty rule (utf8 "id") ++
      utf8 " " ++ stringOrEmpty rule (utf8 "ruleName") ++ utf8 "\n"
  | .nestedList => utf8 "  " ++ stringOrEmpty rule (utf8 "id") ++ utf8 " " ++ stringOrEmpty rule (utf8 "ruleName") ++
      utf8 " [" ++ stringOrEmpty rule (utf8 "status") ++ utf8 "]\n" ++
      appendIndicators ((getArray rule (utf8 "indicators")).getD []) 0 4
  | .debug =>
      let parameters := joinParameters num rule
      utf8 "  " ++ stringOrEmpty rule (utf8 "id") ++ utf8 " " ++ stringOrEmpty rule (utf8 "ruleName") ++
      utf8 " (ruleId=" ++ stringOrEmpty rule (utf8 "ruleId") ++ utf8 ") [" ++ stringOrEmpty rule (utf8 "status") ++
      utf8 "]\n" ++ utf8 "    title: " ++ stringOrEmpty rule (utf8 "title") ++ utf8 "\n" ++
      (if parameters ≠ [] then utf8 "    parameters: " ++ parameters ++ utf8 "\n" else []) ++
      appendIndicators ((getArray rule (utf8 "indicators")).getD []) 0 4

end Model

section Nodes

def childrenOf (node : Members) : List JsonValue := (getArray node (utf8 "indicators")).getD []

/-- The message of a node, or else its procedure. -/
def labelOf (node : Members) : Bytes :=
  if stringOrEmpty node (utf8 "message") = [] then stringOrEmpty node (utf8 "procedure")
  else stringOrEmpty node (utf8 "message")

def statusOf (node : Members) : Bytes := stringOrEmpty node (utf8 "status")

/-- A node of the tree, at its depth. What is no object is no node. -/
inductive NodeAt : List JsonValue → Nat → Members → Prop where
  | here {indicators : List JsonValue} {node : Members} (mem : .object node ∈ indicators) : NodeAt indicators 0 node
  | inside {indicators : List JsonValue} {parent node : Members} {depth : Nat} (mem : .object parent ∈ indicators)
    (child : NodeAt (childrenOf parent) depth node) : NodeAt indicators (depth + 1) node

/-- The nodes of as many levels, each before those below it, with their depths. -/
def nodesWithin : (levels depth : Nat) → List JsonValue → List (Nat × Members)
  | 0, _, _ => []
  | levels + 1, depth, indicators => indicators.flatMap fun
    | .object node => (depth, node) :: nodesWithin levels (depth + 1) (childrenOf node)
    | _ => []

/-- A call for the indicators of a depth makes one for the children of each node of them. -/
def Calls (call nested : Nat × List JsonValue) : Prop :=
  call.1 < maxIndicatorDepth ∧ ∃ node, .object node ∈ call.2 ∧ nested = (call.1 + 1, childrenOf node)

def statusText (node : Members) : Bytes := if statusOf node = [] then [] else utf8 " [" ++ statusOf node ++ utf8 "]"

def junitLine (visited : Nat × Members) : Bytes :=
  List.replicate (visited.1 * 2) 0x20 ++ utf8 "  - " ++ labelOf visited.2 ++ statusText visited.2 ++ [0x0A]

def textLine (baseIndent : Nat) (visited : Nat × Members) : Bytes :=
  List.replicate (baseIndent + visited.1 * 2) 0x20 ++ utf8 "- " ++ labelOf visited.2 ++ statusText visited.2 ++ [0x0A]

variable {indicators : List JsonValue} {node : Members}

theorem nodeAt_zero : NodeAt indicators 0 node ↔ .object node ∈ indicators := by
  constructor
  · intro h
    cases h with
    | here mem => exact mem
  · exact .here

theorem nodeAt_succ {depth : Nat} : NodeAt indicators (depth + 1) node ↔
    ∃ parent, .object parent ∈ indicators ∧ NodeAt (childrenOf parent) depth node := by
  constructor
  · intro h
    cases h with
    | inside mem child => exact ⟨_, mem, child⟩
  · rintro ⟨parent, mem, child⟩
    exact .inside mem child

theorem mem_nodesWithin_succ {levels start : Nat} {visited : Nat × Members} :
    visited ∈ nodesWithin (levels + 1) start indicators ↔ ∃ parent, .object parent ∈ indicators ∧
      (visited = (start, parent) ∨ visited ∈ nodesWithin levels (start + 1) (childrenOf parent)) := by
  rw [nodesWithin, List.mem_flatMap]
  constructor
  · rintro ⟨value, hvalue, hmem⟩
    cases value with
    | object parent => exact ⟨parent, hvalue, List.mem_cons.mp hmem⟩
    | _ => simp at hmem
  · rintro ⟨parent, hparent, hmem⟩
    exact ⟨.object parent, hparent, List.mem_cons.mpr hmem⟩

theorem start_le {levels start : Nat} {visited : Nat × Members} (h : visited ∈ nodesWithin levels start indicators) :
    start ≤ visited.1 := by
  induction levels generalizing start indicators with
  | zero => cases h
  | succ levels ih =>
    obtain ⟨parent, -, rfl | hmem⟩ := mem_nodesWithin_succ.mp h
    · exact le_refl _
    · exact (Nat.le_succ _).trans (ih hmem)

variable (indicators node) in
theorem mem_nodesWithin (levels start depth : Nat) : (start + depth, node) ∈ nodesWithin levels start indicators ↔
    depth < levels ∧ NodeAt indicators depth node := by
  induction levels generalizing start depth indicators with
  | zero => simp [nodesWithin]
  | succ levels ih =>
    rw [mem_nodesWithin_succ]
    cases depth with
    | zero =>
      rw [nodeAt_zero, and_iff_right (Nat.succ_pos levels)]
      constructor
      · rintro ⟨parent, hparent, heq | hmem⟩
        · cases heq
          exact hparent
        · exact absurd (start_le hmem) (Nat.not_succ_le_self _)
      · exact fun hnode => ⟨node, hnode, .inl rfl⟩
    | succ depth =>
      have hdepth : start + (depth + 1) = start + 1 + depth := by omega
      rw [nodeAt_succ, hdepth, Nat.succ_lt_succ_iff]
      constructor
      · rintro ⟨parent, hparent, heq | hmem⟩
        · have hstart := congrArg Prod.fst heq
          dsimp only at hstart
          omega
        · obtain ⟨hlt, hchild⟩ := (ih _ (start + 1) depth).mp hmem
          exact ⟨hlt, parent, hparent, hchild⟩
      · rintro ⟨hlt, parent, hparent, hchild⟩
        exact ⟨parent, hparent, .inr ((ih _ (start + 1) depth).mpr ⟨hlt, hchild⟩)⟩

variable (indicators) in
/-- Fewer levels are the same nodes without those that are deeper. -/
theorem nodesWithin_filter (levels more start : Nat) : nodesWithin levels start indicators =
    (nodesWithin (levels + more) start indicators).filter (·.1 < start + levels) := by
  induction levels generalizing start indicators with
  | zero =>
    rw [nodesWithin]
    refine (List.filter_eq_nil_iff.mpr fun visited hvisited => ?_).symm
    simpa using start_le hvisited
  | succ levels ih =>
    rw [Nat.add_right_comm, nodesWithin, nodesWithin, List.filter_flatMap]
    congr 1
    funext value
    cases value with
    | object node =>
      dsimp only
      rw [List.filter_cons_of_pos (by simp), ih]
      congr 3
      funext visited
      congr 2
      omega
    | _ => rfl

end Nodes

section Agreement

/-- The nodes that are shown. -/
def visited (indicators : List JsonValue) : List (Nat × Members) := nodesWithin maxIndicatorDepth 0 indicators

theorem junit_eq (levels depth : Nat) (indicators : List JsonValue) (h : levels + depth = maxIndicatorDepth) :
    Cli.appendIndicators levels indicators = (nodesWithin levels depth indicators).flatMap junitLine := by
  induction levels generalizing depth indicators with
  | zero => rfl
  | succ levels ih =>
    rw [Cli.appendIndicators, nodesWithin, List.flatMap_assoc]
    congr 1
    funext value
    cases value with
    | object node =>
      have hdepth : maxIndicatorDepth - (levels + 1) = depth := by omega
      dsimp only
      rw [List.flatMap_cons, ih (depth + 1) _ (by omega), hdepth]
      rfl
    | _ => rfl

theorem text_eq (levels depth baseIndent : Nat) (indicators : List JsonValue) (h : levels + depth = maxIndicatorDepth) :
    appendIndicators indicators depth baseIndent = (nodesWithin levels depth indicators).flatMap (textLine baseIndent) := by
  induction levels generalizing depth indicators with
  | zero =>
    rw [appendIndicators, if_pos (by omega)]
    rfl
  | succ levels ih =>
    rw [appendIndicators, if_neg (by omega), nodesWithin, List.flatMap_assoc]
    congr 1
    funext value
    cases value with
    | object node =>
      dsimp only
      rw [List.flatMap_cons, ih (depth + 1) _ (by omega), ite_not]
      rfl
    | _ => rfl

theorem calls_le {indicators : List JsonValue} {call : Nat × List JsonValue}
    (h : ReflTransGen Calls (0, indicators) call) : call.1 ≤ maxIndicatorDepth := by
  induction h with
  | refl => exact Nat.zero_le _
  | tail _ hcall _ =>
    obtain ⟨hlt, node, -, heq⟩ := hcall
    rw [heq]
    exact hlt

/-- Both renderers show the nodes above the limit, all of them and in the same order, with the same labels, statuses
and depths. -/
theorem renderers_agree (indicators : List JsonValue) (baseIndent : Nat) :
    Cli.appendIndicators maxIndicatorDepth indicators = (visited indicators).flatMap junitLine ∧
      appendIndicators indicators 0 baseIndent = (visited indicators).flatMap (textLine baseIndent) ∧
      (∀ depth node, (depth, node) ∈ visited indicators ↔ depth < maxIndicatorDepth ∧ NodeAt indicators depth node) ∧
      (∀ more, visited indicators =
        (nodesWithin (maxIndicatorDepth + more) 0 indicators).filter (·.1 < maxIndicatorDepth)) ∧
      ∀ depth nested, ReflTransGen Calls (0, indicators) (depth, nested) → depth ≤ maxIndicatorDepth := by
  refine ⟨junit_eq _ 0 indicators (Nat.add_zero _), text_eq _ 0 baseIndent indicators (Nat.add_zero _), ?_, ?_, ?_⟩
  · intro depth node
    have hmem := mem_nodesWithin indicators node maxIndicatorDepth 0 depth
    rwa [Nat.zero_add] at hmem
  · intro more
    have hfilter := nodesWithin_filter indicators maxIndicatorDepth more 0
    rwa [Nat.zero_add] at hfilter
  · exact fun depth nested h => calls_le h

end Agreement

end Kompli.Cli.TextRenderers
