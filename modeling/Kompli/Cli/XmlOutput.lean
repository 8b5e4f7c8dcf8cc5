import Kompli.Cli.JUnitReport

/-! The size of a report: its budget in the machine's numbers, the bounded output, and what a document is saved as. -/
namespace Kompli.Cli

section Budget

def kMaxJUnitBytes : UInt64 := 16 * 1024 * 1024

structure XmlBudget where
  mUsed : UInt64 := 0

def XmlBudget.add (budget : XmlBudget) (bytes : UInt64) : Bool × XmlBudget :=
  if bytes > kMaxJUnitBytes - budget.mUsed then (false, budget)
  else (true, { mUsed := budget.mUsed + bytes })

/-- A budget after any calls of `Add`. -/
inductive XmlBudget.Reachable : XmlBudget → Prop
  | start : Reachable {}
  | add {budget} (h : Reachable budget) (bytes : UInt64) : Reachable (budget.add bytes).2

theorem toNat_kMaxJUnitBytes : kMaxJUnitBytes.toNat = maxJUnitBytes := by decide +kernel

theorem toNat_left {budget : XmlBudget} (h : budget.mUsed.toNat ≤ maxJUnitBytes) :
    (kMaxJUnitBytes - budget.mUsed).toNat = maxJUnitBytes - budget.mUsed.toNat := by
  rw [UInt64.toNat_sub_of_le _ _ (by rwa [UInt64.le_iff_toNat_le, toNat_kMaxJUnitBytes]), toNat_kMaxJUnitBytes]

private theorem toNat_add {budget : XmlBudget} {bytes : UInt64} (h : budget.mUsed.toNat ≤ maxJUnitBytes)
    (hbytes : ¬ maxJUnitBytes - budget.mUsed.toNat < bytes.toNat) :
    (budget.mUsed + bytes).toNat = budget.mUsed.toNat + bytes.toNat := by
  rw [UInt64.toNat_add, Nat.mod_eq_of_lt]
  have hmax : maxJUnitBytes < 2 ^ 64 := by decide
  omega

private theorem refuses_iff {budget : XmlBudget} (h : budget.mUsed.toNat ≤ maxJUnitBytes) (bytes : UInt64) :
    bytes > kMaxJUnitBytes - budget.mUsed ↔ maxJUnitBytes - budget.mUsed.toNat < bytes.toNat := by
  rw [gt_iff_lt, UInt64.lt_iff_toNat_lt, toNat_left h]

/-- A call is refused where the bytes are more than what is left, and counts them where they are not. -/
theorem XmlBudget.charge_eq {budget : XmlBudget} (h : budget.mUsed.toNat ≤ maxJUnitBytes) (bytes : UInt64) :
    charge bytes.toNat budget.mUsed.toNat =
      if (budget.add bytes).1 then .ok () (budget.add bytes).2.mUsed.toNat
      else .error resultTooBig (budget.add bytes).2.mUsed.toNat := by
  by_cases hbytes : maxJUnitBytes - budget.mUsed.toNat < bytes.toNat
  · rw [charge, if_pos hbytes, XmlBudget.add, if_pos ((refuses_iff h bytes).mpr hbytes)]
    rfl
  · rw [charge, if_neg hbytes, XmlBudget.add, if_neg (mt (refuses_iff h bytes).mp hbytes)]
    simp only [if_true, toNat_add h hbytes]

/-- No more than the limit is ever charged, so what is left of it is a number. -/
theorem XmlBudget.Reachable.le {budget : XmlBudget} (h : budget.Reachable) : budget.mUsed.toNat ≤ maxJUnitBytes := by
  induction h with
  | start => decide
  | @add budget h bytes ih =>
    by_cases hbytes : maxJUnitBytes - budget.mUsed.toNat < bytes.toNat
    · rwa [XmlBudget.add, if_pos ((refuses_iff ih bytes).mpr hbytes)]
    · rw [XmlBudget.add, if_neg (mt (refuses_iff ih bytes).mp hbytes)]
      simp only [toNat_add ih hbytes]
      omega

end Budget

section Output

/-- A buffer that holds no more than its limit. -/
structure BoundedXmlBuffer (mLimit : Nat) where
  mValue : Bytes := []
  fits : mValue.length ≤ mLimit := by simp

/-- All of the data is put into the buffer, or nothing; what is returned is how much. -/
def BoundedXmlBuffer.xsputn {mLimit : Nat} (buffer : BoundedXmlBuffer mLimit) (data : Bytes) :
    Nat × BoundedXmlBuffer mLimit :=
  if h : mLimit - buffer.mValue.length < data.length then (0, buffer)
  else
    (data.length, ⟨buffer.mValue ++ data, by
      have hfits := buffer.fits
      rw [List.length_append]
      omega⟩)

/-- A stream over a buffer, or the writer that a document is saved through: after a write that fails there is
no other. -/
structure BoundedXmlWriter (mLimit : Nat) where
  mBuffer : BoundedXmlBuffer mLimit := {}
  mValid : Bool := true

def BoundedXmlWriter.write {mLimit : Nat} (writer : BoundedXmlWriter mLimit) (data : Bytes) : BoundedXmlWriter mLimit :=
  if writer.mValid then
    let (count, buffer) := writer.mBuffer.xsputn data
    { mBuffer := buffer, mValid := count = data.length }
  else writer

/-- What is written piece by piece, if all of it is. -/
def writeAll (pieces : List Bytes) : Except Error Bytes :=
  let writer : BoundedXmlWriter maxJUnitBytes := pieces.foldl BoundedXmlWriter.write {}
  if writer.mValid then .ok writer.mBuffer.mValue else .error resultTooBig

end Output

section Law

variable {mLimit : Nat}

private theorem foldl_write_invalid {writer : BoundedXmlWriter mLimit} (h : writer.mValid = false) (pieces : List Bytes) :
    pieces.foldl BoundedXmlWriter.write writer = writer := by
  induction pieces with
  | nil => rfl
  | cons data pieces ih =>
    rw [List.foldl_cons, BoundedXmlWriter.write, if_neg (by simp [h]), ih]

/-- The writer ends valid, with all that was written, just where that is within the limit. -/
private theorem foldl_write {writer : BoundedXmlWriter mLimit} (h : writer.mValid = true) (pieces : List Bytes) :
    let last := pieces.foldl BoundedXmlWriter.write writer
    let written := writer.mBuffer.mValue ++ pieces.flatten
    (last.mValid = true ↔ written.length ≤ mLimit) ∧ (last.mValid = true → last.mBuffer.mValue = written) := by
  induction pieces generalizing writer with
  | nil =>
    have hfits := writer.mBuffer.fits
    simp only [List.flatten_nil, List.append_nil, List.foldl_nil]
    exact ⟨iff_of_true h hfits, fun _ => trivial⟩
  | cons data pieces ih =>
    have hfits := writer.mBuffer.fits
    simp only [List.foldl_cons, List.flatten_cons]
    rw [BoundedXmlWriter.write, if_pos h, BoundedXmlBuffer.xsputn]
    by_cases hdata : mLimit - writer.mBuffer.mValue.length < data.length
    · -- The piece is not empty, so the stream fails, and the pieces that follow are not written.
      have hne : (0 : Nat) ≠ data.length := by omega
      simp only [dif_pos hdata]
      rw [foldl_write_invalid (decide_eq_false hne)]
      simp only [decide_eq_false hne, List.length_append]
      refine ⟨iff_of_false Bool.false_ne_true ?_, fun hvalid => absurd hvalid Bool.false_ne_true⟩
      omega
    · simp only [dif_neg hdata, decide_true]
      rw [← List.append_assoc]
      exact ih rfl

theorem writeAll_eq (pieces : List Bytes) :
    writeAll pieces = if maxJUnitBytes < pieces.flatten.length then .error resultTooBig else .ok pieces.flatten := by
  obtain ⟨hvalid, hvalue⟩ := @foldl_write maxJUnitBytes {} rfl pieces
  simp only [List.nil_append] at hvalid hvalue
  rw [writeAll]
  by_cases hsize : maxJUnitBytes < pieces.flatten.length
  · rw [if_pos hsize]
    exact if_neg fun h => absurd (hvalid.mp h) (by omega)
  · have hlast := hvalid.mpr (by omega)
    rw [if_neg hsize]
    simp only [hlast, if_true, hvalue hlast]

end Law

section Saved

/-- How the XML library writes a byte of a text and of the value of an attribute, and how it cuts what it writes. -/
structure RawFormat where
  escapeText : UInt8 → Bytes
  escapeAttribute : UInt8 → Bytes
  pieces : Bytes → List Bytes
  escapeText_ne : ∀ c, escapeText c ≠ []
  escapeAttribute_ne : ∀ c, escapeAttribute c ≠ []
  pieces_flatten : ∀ output, (pieces output).flatten = output

namespace RawFormat

variable (format : RawFormat)

def outputAttribute (pair : Bytes × Bytes) : Bytes :=
  utf8 " " ++ pair.1 ++ utf8 "=\"" ++ pair.2.flatMap format.escapeAttribute ++ utf8 "\""

mutual

/-- `format_raw`: nothing is put between the nodes, and an element with nothing in it has one tag. -/
def node : XmlNode → Bytes
  | .element name attributes children =>
    let start := utf8 "<" ++ name ++ attributes.flatMap format.outputAttribute
    if children.isEmpty then start ++ utf8 "/>"
    else start ++ utf8 ">" ++ nodes children ++ utf8 "</" ++ name ++ utf8 ">"
  | .pcdata value => value.flatMap format.escapeText

def nodes : List XmlNode → Bytes
  | [] => []
  | child :: children => node child ++ nodes children

end

def declaration : Bytes := utf8 "<?xml version=\"1.0\" encoding=\"UTF-8\"?>"

/-- `document.save`, of a document with its declaration. -/
def save (document : XmlNode) : Bytes := declaration ++ format.node document

end RawFormat

/-- The escapes that XML needs, with control characters as references, in one piece. -/
def standardFormat : RawFormat where
  escapeText c :=
    if c = 0x26 then utf8 "&amp;" else if c = 0x3C then utf8 "&lt;" else if c = 0x3E then utf8 "&gt;"
    else if c < 0x20 ∧ c ∉ [0x09, 0x0A, 0x0D] then utf8 "&#" ++ decimal c.toNat ++ utf8 ";"
    else [c]
  escapeAttribute c :=
    if c = 0x26 then utf8 "&amp;" else if c = 0x3C then utf8 "&lt;" else if c = 0x3E then utf8 "&gt;"
    else if c = 0x22 then utf8 "&quot;"
    else if c < 0x20 then utf8 "&#" ++ decimal c.toNat ++ utf8 ";"
    else [c]
  pieces output := [output]
  escapeText_ne c := by split_ifs <;> simp [utf8]
  escapeAttribute_ne c := by split_ifs <;> simp [utf8]
  pieces_flatten output := by simp

end Saved

section Charges

def attributeCharges (attributes : List (Bytes × Bytes)) : Nat :=
  (attributes.map fun pair => 4 + pair.1.length + pair.2.length).sum

mutual

/-- What is charged for a node, with all that is in it. -/
def nodeCharges : XmlNode → Nat
  | .element name attributes children => 3 + name.length + attributeCharges attributes + charges children
  | .pcdata value => value.length

def charges : List XmlNode → Nat
  | [] => 0
  | child :: children => nodeCharges child + charges children

end

variable (format : RawFormat)

private theorem length_le_flatMap {escape : UInt8 → Bytes} (h : ∀ c, escape c ≠ []) (value : Bytes) :
    value.length ≤ (value.flatMap escape).length := by
  induction value with
  | nil => exact Nat.le_refl 0
  | cons c value ih =>
    have hpos := List.length_pos_iff.mpr (h c)
    rw [List.flatMap_cons, List.length_append, List.length_cons]
    omega

theorem attributeCharges_le (attributes : List (Bytes × Bytes)) :
    attributeCharges attributes ≤ (attributes.flatMap format.outputAttribute).length := by
  induction attributes with
  | nil => exact Nat.le_refl 0
  | cons pair attributes ih =>
    have hvalue := length_le_flatMap format.escapeAttribute_ne pair.2
    have hmarkup : (utf8 " ").length = 1 ∧ (utf8 "=\"").length = 2 ∧ (utf8 "\"").length = 1 := by decide
    rw [attributeCharges] at ih ⊢
    rw [List.map_cons, List.sum_cons, List.flatMap_cons, List.length_append, RawFormat.outputAttribute]
    simp only [List.length_append]
    omega

mutual

/-- What is charged for a node is no more than what it is saved as. -/
theorem nodeCharges_le : ∀ document : XmlNode, nodeCharges document ≤ (format.node document).length
  | .element name attributes children => by
    have hattributes := attributeCharges_le format attributes
    have hchildren := charges_le children
    have hmarkup : (utf8 "<").length = 1 ∧ (utf8 ">").length = 1 ∧ (utf8 "/>").length = 2 ∧ (utf8 "</").length = 2 := by
      decide
    rw [nodeCharges, RawFormat.node]
    cases children with
    | nil =>
      simp only [List.isEmpty_nil, if_true, List.length_append, charges]
      omega
    | cons child children =>
      simp only [List.isEmpty_cons, Bool.false_eq_true, if_false, List.length_append]
      omega
  | .pcdata value => length_le_flatMap format.escapeText_ne value

theorem charges_le : ∀ children : List XmlNode, charges children ≤ (format.nodes children).length
  | [] => Nat.le_refl 0
  | child :: children => by
    have hchild := nodeCharges_le child
    have hchildren := charges_le children
    rw [charges, RawFormat.nodes, List.length_append]
    omega

end

theorem charges_le_save (document : XmlNode) : charges [document] ≤ (format.save document).length := by
  have hnode := nodeCharges_le format document
  rw [RawFormat.save, List.length_append, charges, charges]
  omega

theorem charges_append (nodes nodes' : List XmlNode) : charges (nodes ++ nodes') = charges nodes + charges nodes' := by
  induction nodes with
  | nil => simp [charges]
  | cons node nodes ih =>
    rw [List.cons_append, charges, charges, ih]
    omega

end Charges

end Kompli.Cli
