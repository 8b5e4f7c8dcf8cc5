import Kompli.ComplianceEngine.Formattable

/-! The payload formatters. No payload at all stands for a failed assertion or for
an access outside a vector. -/
namespace Kompli

/-- What is printed for the tree's root. -/
def formatRoot (t : IndicatorsTree) (format : Node → Option (Except Error Bytes)) :
    Option (Except Error Bytes) :=
  t.getRootNode.bind format

namespace NestedListFormatter

inductive Ignored where
  | no
  | yes
  deriving DecidableEq, Repr

def emoji : Status → Ignored → Bytes
  | .compliant, .no => utf8 "✅"
  | .compliant, .yes => utf8 "✓"
  | .nonCompliant, .no => utf8 "❌"
  | .nonCompliant, .yes => utf8 "🇽"
  | .notApplicable, .no => utf8 "➖"
  | .notApplicable, .yes => utf8 "–"

def maxNodeCompliantIndicators : Nat := 5

def line (depth : Nat) (status : Status) (ignored : Ignored) (text : Bytes) : Bytes :=
  List.replicate depth 9 ++ emoji status ignored ++ utf8 " " ++ text ++ utf8 "\n"

/-- `compliant` counts the Compliant entries before, of which only so many are shown. -/
def formatIndicators (depth : Nat) (ignored : Ignored) : Nat → List Indicator → Bytes
  | _, [] => []
  | compliant, indicator :: rest =>
    let compliant := if indicator.status = .compliant then compliant + 1 else compliant
    if indicator.status = .compliant ∧ maxNodeCompliantIndicators < compliant then
      formatIndicators depth ignored compliant rest
    else
      line depth indicator.status ignored indicator.message ++ formatIndicators depth ignored compliant rest

/-- A child is in an alternative when it is not the last child of an anyOf. -/
def inAlternative (procedureName : Bytes) (rest : List Node) : Bool :=
  !rest.isEmpty && procedureName = anyOfName

mutual

def formatNode (depth : Nat) (ignored : Ignored) : Node → Option Bytes
  | ⟨procedureName, _, children, indicators⟩ => do
    let nodes ← formatChildren procedureName depth ignored 0 children
    some (nodes ++ formatIndicators depth ignored 0 indicators)

def formatChildren (procedureName : Bytes) (depth : Nat) (ignored : Ignored) :
    Nat → List Node → Option Bytes
  | _, [] => some []
  | compliant, child :: rest =>
    let compliant := if child.status = .compliant then compliant + 1 else compliant
    if child.status = .compliant ∧ maxNodeCompliantIndicators < compliant then
      formatChildren procedureName depth ignored compliant rest
    else if inAlternative procedureName rest ∧ child.status = .compliant then
      none
    else do
      let ign := if inAlternative procedureName rest ∨
        (procedureName = notName ∧ child.status ≠ .notApplicable) then .yes else ignored
      let inner ← formatNode (depth + 1) ign child
      let others ← formatChildren procedureName depth ignored compliant rest
      some (line depth child.status ign child.procedureName ++ inner ++ others)

end

def format (t : IndicatorsTree) : Option (Except Error Bytes) :=
  formatRoot t fun node => do
    let text ← formatNode 1 .no node
    some (.ok (line 0 node.status .no node.procedureName ++ text))

end NestedListFormatter

namespace CompactListFormatter

def indicatorLine (indicator : Indicator) : Bytes :=
  utf8 (if indicator.status = .compliant then "[Compliant] " else "[NonCompliant] ") ++
    indicator.message ++ utf8 "\n"

mutual
def formatNode : Node → Bytes
  | ⟨_, _, children, indicators⟩ => indicators.flatMap indicatorLine ++ formatNodes children
def formatNodes : List Node → Bytes
  | [] => []
  | node :: nodes => formatNode node ++ formatNodes nodes
end

def format (t : IndicatorsTree) : Option (Except Error Bytes) :=
  formatRoot t fun node => some (.ok (formatNode node))

end CompactListFormatter

namespace DebugFormatter

def verdict (status : Status) : Bytes := utf8 (if status = .compliant then "TRUE" else "FALSE")

mutual

def formatNode : Node → Option Bytes
  | ⟨procedureName, status, children, indicators⟩ =>
    if procedureName = anyOfName ∨ procedureName = allOfName then do
      let nodes ← formatNodes true children
      some (utf8 "\x7b " ++ procedureName ++ utf8 ": [" ++ nodes ++ utf8 "]\x7d == " ++ verdict status)
    else if procedureName = notName then do
      let node ← formatFirst children
      some (utf8 "\x7b " ++ procedureName ++ utf8 ": " ++ node ++ utf8 "\x7d == " ++ verdict status)
    else
      some (utf8 "\x7b " ++ procedureName ++ utf8 ": " ++
        (utf8 ", ").intercalate (indicators.map Indicator.message) ++ utf8 " \x7d == " ++ verdict status)

/-- `node.children[0]`, without a check that there is one. -/
def formatFirst : List Node → Option Bytes
  | [] => none
  | node :: _ => formatNode node

def formatNodes (first : Bool) : List Node → Option Bytes
  | [] => some []
  | node :: nodes => do
    let text ← formatNode node
    let others ← formatNodes false nodes
    some ((if first then [] else utf8 ", ") ++ text ++ others)

end

def format (t : IndicatorsTree) : Option (Except Error Bytes) :=
  formatRoot t fun root =>
    match root.children with
    | [] => some (.error { message := utf8 "No children found", code := EINVAL })
    | node :: _ => (formatNode node).map .ok

end DebugFormatter

namespace LastIncomplianceFormatter

mutual

def formatNode : Node → Bytes
  | ⟨procedureName, _, children, indicators⟩ =>
    match formatLast children with
    | some text => text
    | none =>
      match indicators.getLast? with
      | none => utf8 "No indicators found for " ++ procedureName
      | some indicator => indicator.message

/-- The last child, if there is one. -/
def formatLast : List Node → Option Bytes
  | [] => none
  | [node] => some (formatNode node)
  | _ :: nodes => formatLast nodes

end

def format (t : IndicatorsTree) : Option (Except Error Bytes) :=
  formatRoot t fun node =>
    some (.ok (if node.status = .compliant then utf8 "Audit passed" else formatNode node))

end LastIncomplianceFormatter

/-- The assertion of the nested list holds at every child of an acceptable tree. -/
theorem NestedListFormatter.formatNode_isSome {n : Node} (h : n.Formattable) (depth : Nat)
    (ignored : Ignored) : (formatNode depth ignored n).isSome := by
  induction n using Node.ind generalizing depth ignored with
  | node name status children indicators ih =>
    obtain ⟨hany, -, hchildren⟩ := (Node.formattable_iff _).mp h
    dsimp only at hany hchildren
    suffices hsome : ∀ compliant, (formatChildren name depth ignored compliant children).isSome by
      obtain ⟨text, htext⟩ := Option.isSome_iff_exists.mp (hsome 0)
      simp [formatNode, htext]
    clear h indicators status
    induction children with
    | nil => simp [formatChildren]
    | cons child rest ihrest =>
      intro compliant
      have hrest := ihrest (fun c hc => ih c (List.mem_cons_of_mem _ hc))
        (fun hn c hc => hany hn c (by
          cases rest with
          | nil => cases hc
          | cons next rest => exact List.mem_cons_of_mem _ hc))
        (fun c hc => hchildren c (List.mem_cons_of_mem _ hc))
      have halternative : ¬ (inAlternative name rest ∧ child.status = .compliant) := by
        rintro ⟨hin, hcompliant⟩
        simp only [inAlternative, Bool.and_eq_true, Bool.not_eq_true', List.isEmpty_eq_false_iff,
          decide_eq_true_eq] at hin
        refine hany hin.2 child ?_ hcompliant
        rw [List.dropLast_cons_of_ne_nil hin.1]
        exact List.mem_cons_self
      simp only [formatChildren]
      rw [if_neg halternative]
      generalize (if child.status = .compliant then compliant + 1 else compliant) = shown
      generalize (if inAlternative name rest ∨ (name = notName ∧ child.status ≠ .notApplicable) then
        Ignored.yes else ignored) = ign
      by_cases hskip : child.status = .compliant ∧ maxNodeCompliantIndicators < shown
      · rw [if_pos hskip]
        exact hrest shown
      · rw [if_neg hskip]
        obtain ⟨inner, hinner⟩ := Option.isSome_iff_exists.mp
          (ih child List.mem_cons_self (hchildren child List.mem_cons_self) (depth + 1) ign)
        obtain ⟨others, hothers⟩ := Option.isSome_iff_exists.mp (hrest shown)
        simp [hinner, hothers]

/-- The first child of every not of an acceptable tree is there. -/
theorem DebugFormatter.formatNode_isSome {n : Node} (h : n.Formattable) : (formatNode n).isSome := by
  induction n using Node.ind with
  | node name status children indicators ih =>
    obtain ⟨-, hnot, hchildren⟩ := (Node.formattable_iff _).mp h
    dsimp only at hnot hchildren
    have hnode := fun c hc => ih c hc (hchildren c hc)
    have hnodes : ∀ first, (formatNodes first children).isSome := by
      clear h hnot hchildren ih
      induction children with
      | nil => simp [formatNodes]
      | cons child rest ihrest =>
        intro first
        obtain ⟨text, htext⟩ := Option.isSome_iff_exists.mp (hnode child List.mem_cons_self)
        obtain ⟨others, hothers⟩ := Option.isSome_iff_exists.mp
          (ihrest (fun c hc => hnode c (List.mem_cons_of_mem _ hc)) false)
        simp [formatNodes, htext, hothers]
    have hfirst : name = notName → (formatFirst children).isSome := by
      intro hname
      cases children with
      | nil => exact absurd rfl (hnot hname)
      | cons child rest => exact hnode child List.mem_cons_self
    simp only [formatNode]
    split
    · obtain ⟨text, htext⟩ := Option.isSome_iff_exists.mp (hnodes true)
      simp [htext]
    · split
      · next hname =>
        obtain ⟨text, htext⟩ := Option.isSome_iff_exists.mp (hfirst hname)
        simp [htext]
      · rfl

/-- No assertion and no access of these formatters fails on an acceptable tree. -/
theorem formatters_isSome {t : IndicatorsTree} {root : Node} (hroot : t.getRootNode = some root)
    (h : root.Formattable) :
    (NestedListFormatter.format t).isSome ∧ (CompactListFormatter.format t).isSome ∧
      (DebugFormatter.format t).isSome ∧ (LastIncomplianceFormatter.format t).isSome := by
  refine ⟨?_, ?_, ?_, ?_⟩
  · obtain ⟨text, htext⟩ := Option.isSome_iff_exists.mp (NestedListFormatter.formatNode_isSome h 1 .no)
    simp [NestedListFormatter.format, formatRoot, hroot, htext]
  · simp [CompactListFormatter.format, formatRoot, hroot]
  · simp only [DebugFormatter.format, formatRoot, hroot, Option.bind_some]
    cases hchildren : root.children with
    | nil => rfl
    | cons node nodes =>
      have hnode := ((Node.formattable_iff root).mp h).2.2 node (by simp [hchildren])
      simpa using DebugFormatter.formatNode_isSome hnode
  · simp [LastIncomplianceFormatter.format, formatRoot, hroot]

end Kompli
