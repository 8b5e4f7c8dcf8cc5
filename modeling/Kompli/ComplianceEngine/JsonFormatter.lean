import Kompli.ComplianceEngine.Formatters
import Kompli.ComplianceEngine.JsonWrapper
import Kompli.Foundation.ExceptRule
import Kompli.Parson.Serialize

/-! The formatter that renders a tree of indicators as JSON. -/
namespace Kompli
open Parson Foundation

namespace JsonFormatter

def stringNotSet : Error := { message := utf8 "Failed to set JSON object string", code := ENOMEM }

/-- A status as this formatter writes it. -/
def statusText (status : Status) : Bytes :=
  utf8 (if status = .compliant then "Compliant" else "NonCompliant")

def formatIndicator (indicator : Indicator) : Except Error JsonValue := do
  let object ← JsonWrapper.setString stringNotSet [] (utf8 "message") indicator.message
  let object ← JsonWrapper.setString stringNotSet object (utf8 "status") (statusText indicator.status)
  .ok (.object object)

mutual

/-- What `FormatNode` appends to the array it is given. -/
def formatNode : Node → Except Error (List JsonValue)
  | ⟨_, _, children, indicators⟩ => do
    let nodes ← formatChildren children
    let leaves ← indicators.mapM formatIndicator
    .ok (nodes ++ leaves)

def formatChildren : List Node → Except Error (List JsonValue)
  | [] => .ok []
  | child :: rest => do
    let object ← JsonWrapper.setString stringNotSet [] (utf8 "procedure") child.procedureName
    let object ← JsonWrapper.setString stringNotSet object (utf8 "status") (statusText child.status)
    let inner ← formatNode child
    let others ← formatChildren rest
    .ok (.object (objectSetValue object (utf8 "indicators") (.array inner)) :: others)

end

def formatJson (t : IndicatorsTree) : Option (Except Error JsonValue) :=
  t.getRootNode.map fun root => (formatNode root).map .array

def format (num : NumberFormat) (t : IndicatorsTree) : Option (Except Error Bytes) :=
  (formatJson t).map (·.map (jsonSerializeToStringPretty num))

/-- No assertion and no access fails where there is a root. -/
theorem format_isSome (num : NumberFormat) {t : IndicatorsTree} {root : Node} (hroot : t.getRootNode = some root) :
    (format num t).isSome := by
  rw [format, formatJson, hroot]
  rfl

end JsonFormatter

/-- What holds of every node below a node, by its name and status, and of every indicator,
by its message and status. -/
inductive Node.Every (P : Bytes → Status → Prop) : Node → Prop
  | node {name status children indicators} (nodes : ∀ child ∈ children, P child.procedureName child.status)
      (below : ∀ child ∈ children, Node.Every P child)
      (leaves : ∀ indicator ∈ indicators, P indicator.message indicator.status) :
      Node.Every P ⟨name, status, children, indicators⟩

theorem Node.every_iff {P : Bytes → Status → Prop} {name : Bytes} {status : Status} {children : List Node}
    {indicators : List Indicator} : Node.Every P ⟨name, status, children, indicators⟩ ↔
      (∀ child ∈ children, P child.procedureName child.status ∧ child.Every P) ∧
        ∀ indicator ∈ indicators, P indicator.message indicator.status := by
  constructor
  · rintro ⟨hnodes, hbelow, hleaves⟩
    exact ⟨fun child hchild => ⟨hnodes child hchild, hbelow child hchild⟩, hleaves⟩
  · rintro ⟨hchildren, hleaves⟩
    exact .node (fun child hchild => (hchildren child hchild).1) (fun child hchild => (hchildren child hchild).2)
      hleaves

namespace JsonFormatter

section Shape

variable (text : Status → Bytes)

def indicatorShape (indicator : Indicator) : JsonValue :=
  .object [(utf8 "message", .string (cString indicator.message)), (utf8 "status", .string (text indicator.status))]

mutual

/-- The JSON of a tree: an object for each node and each indicator, the nodes first, with
the statuses written by `text`. -/
def shape : Node → List JsonValue
  | ⟨_, _, children, indicators⟩ => childrenShape children ++ indicators.map (indicatorShape text)

def childrenShape : List Node → List JsonValue
  | [] => []
  | child :: rest =>
    .object [(utf8 "procedure", .string (cString child.procedureName)),
      (utf8 "status", .string (text child.status)), (utf8 "indicators", .array (shape child))] ::
        childrenShape rest

end

end Shape

/-- A text that parson takes. -/
def ValidText (text : Bytes) (_ : Status) : Prop := isValidUtf8 (cString text) = true

private theorem statusText_eq (status : Status) :
    isValidUtf8 (cString (statusText status)) = true ∧ cString (statusText status) = statusText status := by
  cases status <;> decide

theorem formatIndicator_ok_iff {indicator : Indicator} {json : JsonValue} :
    formatIndicator indicator = .ok json ↔
      ValidText indicator.message indicator.status ∧ json = indicatorShape statusText indicator := by
  obtain ⟨hvalid, htext⟩ := statusText_eq indicator.status
  rw [formatIndicator, except_bind_ok_iff]
  constructor
  · rintro ⟨object, hobject, h⟩
    obtain ⟨hmessage, rfl⟩ := JsonWrapper.setString_ok_iff.mp hobject
    obtain ⟨object, hobject, h⟩ := except_bind_ok_iff.mp h
    obtain ⟨-, rfl⟩ := JsonWrapper.setString_ok_iff.mp hobject
    cases h
    rw [htext]
    exact ⟨hmessage, rfl⟩
  · rintro ⟨hmessage, rfl⟩
    refine ⟨_, JsonWrapper.setString_ok_iff.mpr ⟨hmessage, rfl⟩, except_bind_ok_iff.mpr ?_⟩
    refine ⟨_, JsonWrapper.setString_ok_iff.mpr ⟨hvalid, rfl⟩, ?_⟩
    rw [htext]
    rfl

/-- The formatter writes every tree whose texts parson takes, and no other. -/
theorem formatNode_ok_iff {node : Node} {items : List JsonValue} :
    formatNode node = .ok items ↔ node.Every ValidText ∧ items = shape statusText node := by
  induction node using Node.ind generalizing items with
  | node name status children indicators ih =>
    have hchildren : ∀ {items}, formatChildren children = .ok items ↔
        (∀ child ∈ children, ValidText child.procedureName child.status ∧ child.Every ValidText) ∧
          items = childrenShape statusText children := by
      clear indicators name status items
      induction children with
      | nil =>
        intro items
        simp [formatChildren, childrenShape, eq_comm]
      | cons child rest ihrest =>
        intro items
        have hrest := @ihrest fun c hc => ih c (List.mem_cons_of_mem _ hc)
        have hchild := @ih child List.mem_cons_self
        obtain ⟨hvalid, htext⟩ := statusText_eq child.status
        rw [formatChildren, except_bind_ok_iff, List.forall_mem_cons, childrenShape]
        constructor
        · rintro ⟨object, hobject, h⟩
          obtain ⟨hname, rfl⟩ := JsonWrapper.setString_ok_iff.mp hobject
          obtain ⟨object, hobject, h⟩ := except_bind_ok_iff.mp h
          obtain ⟨-, rfl⟩ := JsonWrapper.setString_ok_iff.mp hobject
          obtain ⟨inner, hinner, h⟩ := except_bind_ok_iff.mp h
          obtain ⟨others, hothers, h⟩ := except_bind_ok_iff.mp h
          obtain ⟨hbelow, rfl⟩ := hchild.mp hinner
          obtain ⟨hall, rfl⟩ := hrest.mp hothers
          cases h
          rw [htext]
          exact ⟨⟨⟨hname, hbelow⟩, hall⟩, rfl⟩
        · rintro ⟨⟨⟨hname, hbelow⟩, hall⟩, rfl⟩
          refine ⟨_, JsonWrapper.setString_ok_iff.mpr ⟨hname, rfl⟩, except_bind_ok_iff.mpr ?_⟩
          refine ⟨_, JsonWrapper.setString_ok_iff.mpr ⟨hvalid, rfl⟩, except_bind_ok_iff.mpr ?_⟩
          refine ⟨_, hchild.mpr ⟨hbelow, rfl⟩, except_bind_ok_iff.mpr ?_⟩
          refine ⟨_, hrest.mpr ⟨hall, rfl⟩, ?_⟩
          rw [htext]
          rfl
    have hindicators := @mapM_ok_iff_map _ _ _ formatIndicator _ _ indicators
      fun indicator _ json => @formatIndicator_ok_iff indicator json
    rw [formatNode, except_bind_ok_iff, Node.every_iff, shape]
    constructor
    · rintro ⟨nodes, hnodes, h⟩
      obtain ⟨leaves, hleaves, h⟩ := except_bind_ok_iff.mp h
      obtain ⟨hbelow, rfl⟩ := hchildren.mp hnodes
      obtain ⟨hvalid, rfl⟩ := hindicators.mp hleaves
      cases h
      exact ⟨⟨hbelow, hvalid⟩, rfl⟩
    · rintro ⟨⟨hbelow, hvalid⟩, rfl⟩
      refine ⟨_, hchildren.mpr ⟨hbelow, rfl⟩, except_bind_ok_iff.mpr ?_⟩
      exact ⟨_, hindicators.mpr ⟨hvalid, rfl⟩, rfl⟩

private theorem childrenShape_length (text : Status → Bytes) (children : List Node) :
    (childrenShape text children).length = children.length := by
  induction children with
  | nil => rfl
  | cons child rest ih => rw [childrenShape, List.length_cons, List.length_cons, ih]

/-- Two ways to write statuses give the same JSON when they agree on the statuses in the tree. -/
theorem shape_eq_iff {a b : Status → Bytes} {node : Node} :
    shape a node = shape b node ↔ node.Every fun _ status => a status = b status := by
  induction node using Node.ind with
  | node name status children indicators ih =>
    have hchildren : childrenShape a children = childrenShape b children ↔
        ∀ child ∈ children, a child.status = b child.status ∧ child.Every fun _ status => a status = b status := by
      clear indicators name status
      induction children with
      | nil => simp [childrenShape]
      | cons child rest ihrest =>
        rw [childrenShape, childrenShape, List.forall_mem_cons, ← ihrest fun c hc => ih c (List.mem_cons_of_mem _ hc),
          ← ih child List.mem_cons_self]
        simp
    have hindicators : indicators.map (indicatorShape a) = indicators.map (indicatorShape b) ↔
        ∀ indicator ∈ indicators, a indicator.status = b indicator.status := by
      rw [List.map_inj_left]
      simp [indicatorShape]
    rw [shape, shape, Node.every_iff, ← hchildren, ← hindicators]
    refine ⟨fun h => List.append_inj h ?_, fun h => ?_⟩
    · rw [childrenShape_length, childrenShape_length]
    · rw [h.1, h.2]

end JsonFormatter
end Kompli
