import Kompli.Parson.Serialize
import Mathlib.Data.List.Basic

/-! What serialized texts are put together from, and what therefore holds of all of them. -/
namespace Kompli.Parson
open Ascii

section Strings

/-- A byte that is itself inside a string and in a C string. -/
def isPlain (c : UInt8) : Bool := c ≠ quote && c ≠ backslash && c ≠ 0

theorem isPlain_iff {c : UInt8} : isPlain c = true ↔ c ≠ quote ∧ c ≠ backslash ∧ c ≠ 0 := by
  simp only [isPlain, ne_eq, decide_not, Bool.and_eq_true, Bool.not_eq_eq_eq_not, Bool.not_true,
    decide_eq_false_iff_not, and_assoc]

theorem hexDigits_plain {c : UInt8} (hc : c < 0x20) :
    isPlain (hexDigit (c >>> 4)) = true ∧ isPlain (hexDigit (c &&& 0xF)) = true := by
  refine of_toNat_lt (n := 32)
    (P := fun c => isPlain (hexDigit (c >>> 4)) = true ∧ isPlain (hexDigit (c &&& 0xF)) = true) ?_ hc
  decide

private abbrev shortEscapes : Bytes := [quote, backslash, 0x08, 0x0C, 0x0A, 0x0D, 0x09, slash]

private theorem escape_short {c : UInt8} (hc : c ∈ shortEscapes) :
    ∃ e, escape c = [backslash, e] ∧ unescape e = some c ∧ e ≠ u := by
  simp only [shortEscapes, List.mem_cons, List.not_mem_nil, or_false] at hc
  rcases hc with rfl | rfl | rfl | rfl | rfl | rfl | rfl | rfl
  all_goals exact ⟨_, rfl, rfl, by decide⟩

/-- A character is written as it is, or with a backslash, or by its code. -/
theorem escape_cases (c : UInt8) :
    (escape c = [c] ∧ c ≠ quote ∧ c ≠ backslash ∧ ¬ c < 0x20) ∨
      (∃ e, escape c = [backslash, e] ∧ unescape e = some c ∧ e ≠ u) ∨
      (c < 0x20 ∧ escape c = [backslash, u, zero, zero, hexDigit (c >>> 4), hexDigit (c &&& 0xF)]) := by
  by_cases hshort : c ∈ shortEscapes
  · exact Or.inr (Or.inl (escape_short hshort))
  · simp only [shortEscapes, List.mem_cons, List.not_mem_nil, or_false, not_or] at hshort
    by_cases hc : c < 0x20
    · exact Or.inr (Or.inr ⟨hc, by simp only [escape, hshort, hc, ↓reduceIte]⟩)
    · exact Or.inl ⟨by simp only [escape, hshort, hc, ↓reduceIte], hshort.1, hshort.2.1, hc⟩

end Strings

/-- The strings of a value, the names in it among them, and its numbers. -/
inductive Texts (S : Bytes → Prop) (N : UInt64 → Prop) : JsonValue → Prop
  | null : Texts S N .null
  | string {value} (h : S value) : Texts S N (.string value)
  | boolean (value) : Texts S N (.boolean value)
  | number {bits} (h : N bits) : Texts S N (.number bits)
  | array {items} (h : ∀ item ∈ items, Texts S N item) : Texts S N (.array items)
  | object {members} (names : ∀ m ∈ members, S m.1) (values : ∀ m ∈ members, Texts S N m.2) :
      Texts S N (.object members)

theorem Texts.mono {S S' : Bytes → Prop} {N N' : UInt64 → Prop} (hS : ∀ s, S s → S' s) (hN : ∀ n, N n → N' n)
    {v : JsonValue} (h : Texts S N v) : Texts S' N' v := by
  induction h with
  | null => exact .null
  | string h => exact .string (hS _ h)
  | boolean value => exact .boolean value
  | number h => exact .number (hN _ h)
  | array _ ih => exact .array ih
  | object hnames _ ih => exact .object (fun m hm => hS _ (hnames m hm)) ih

/-- The bytes outside strings and numbers, without the brackets. -/
def isLayout (c : UInt8) : Bool := (utf8 "nultrefas ,:\n").contains c

/-- A kind of text that is closed under what the serializer does. -/
structure TextRule (num : NumberFormat) (S : Bytes → Prop) (N : UInt64 → Prop) (T : Bytes → Prop) : Prop where
  nil : T []
  append : ∀ {a b}, T a → T b → T (a ++ b)
  layout : ∀ c, isLayout c = true → T [c]
  string : ∀ {s}, S s → T (serializeString s)
  number : ∀ {bits}, N bits → T (num.print bits)
  array : ∀ {s}, T s → T (leftBracket :: (s ++ [rightBracket]))
  object : ∀ {s}, T s → T (leftBrace :: (s ++ [rightBrace]))

namespace TextRule

variable {num : NumberFormat} {S T : Bytes → Prop} {N : UInt64 → Prop} (rule : TextRule num S N T)
include rule

theorem cons {c : UInt8} {s : Bytes} (hc : isLayout c = true) (hs : T s) : T (c :: s) :=
  rule.append (rule.layout c hc) hs

theorem of_layout {s : Bytes} (h : s.all isLayout = true) : T s := by
  induction s with
  | nil => exact rule.nil
  | cons c s ih =>
    rw [List.all_cons, Bool.and_eq_true] at h
    exact rule.cons h.1 (ih h.2)

theorem lineBreak (pretty : Bool) : T (lineBreak pretty) := by
  apply rule.of_layout
  cases pretty <;> decide

theorem afterColon (pretty : Bool) : T (afterColon pretty) := by
  apply rule.of_layout
  cases pretty <;> decide

theorem indent (pretty : Bool) (level : Nat) : T (indent pretty level) := by
  cases pretty with
  | false => exact rule.nil
  | true =>
    rw [Parson.indent, if_pos rfl]
    induction level with
    | zero => exact rule.nil
    | succ level ih => exact rule.append (rule.of_layout (by decide : (utf8 "    ").all isLayout = true)) ih

/-- An item on a line of its own. -/
private theorem line (pretty : Bool) (level : Nat) {s : Bytes} (hs : T s) :
    T (Parson.lineBreak pretty ++ (Parson.indent pretty level ++ s)) :=
  rule.append (rule.lineBreak pretty) (rule.append (rule.indent pretty level) hs)

private theorem member (pretty : Bool) {name s : Bytes} (hname : S name) (hs : T s) :
    T (serializeString name ++ (colon :: (Parson.afterColon pretty ++ s))) :=
  rule.append (rule.string hname) (rule.cons (by decide) (rule.append (rule.afterColon pretty) hs))

private theorem closing (pretty : Bool) (level : Nat) :
    T (Parson.lineBreak pretty ++ Parson.indent pretty level) :=
  rule.append (rule.lineBreak pretty) (rule.indent pretty level)

variable {pretty : Bool}

private theorem serializeItems {items : List JsonValue}
    (h : ∀ x ∈ items, ∀ level, T (serialize num pretty level x)) (level : Nat) :
    ∃ s, serializeItems num pretty level items = s ++ [rightBracket] ∧ T s := by
  induction items with
  | nil =>
    refine ⟨_, ?_, rule.closing pretty level⟩
    rw [Parson.serializeItems, List.append_assoc]
  | cons x items ih =>
    obtain ⟨s, hs, hT⟩ := ih fun y hy => h y (List.mem_cons_of_mem _ hy)
    have hcomma : isLayout comma = true := by decide
    refine ⟨_, ?_, rule.cons hcomma (rule.line pretty (level + 1)
      (rule.append (h x List.mem_cons_self (level + 1)) hT))⟩
    rw [Parson.serializeItems, hs]
    simp only [List.cons_append, List.append_assoc]

private theorem serializeMembers {members : List (Bytes × JsonValue)} (hnames : ∀ m ∈ members, S m.1)
    (h : ∀ m ∈ members, ∀ level, T (serialize num pretty level m.2)) (level : Nat) :
    ∃ s, serializeMembers num pretty level members = s ++ [rightBrace] ∧ T s := by
  induction members with
  | nil =>
    refine ⟨_, ?_, rule.closing pretty level⟩
    rw [Parson.serializeMembers, List.append_assoc]
  | cons m members ih =>
    obtain ⟨s, hs, hT⟩ := ih (fun y hy => hnames y (List.mem_cons_of_mem _ hy))
      fun y hy => h y (List.mem_cons_of_mem _ hy)
    have hcomma : isLayout comma = true := by decide
    refine ⟨_, ?_, rule.cons hcomma (rule.line pretty (level + 1)
      (rule.member pretty (hnames m List.mem_cons_self)
        (rule.append (h m List.mem_cons_self (level + 1)) hT)))⟩
    rw [Parson.serializeMembers, hs]
    simp only [List.cons_append, List.append_assoc]

/-- What the serializer writes between the brackets of an array. -/
theorem serialize_array {items : List JsonValue} (h : ∀ x ∈ items, ∀ level, T (serialize num pretty level x))
    (level : Nat) :
    ∃ s, serialize num pretty level (.array items) = leftBracket :: (s ++ [rightBracket]) ∧ T s := by
  cases items with
  | nil =>
    refine ⟨[], ?_, rule.nil⟩
    rw [serialize, List.nil_append]
  | cons x items =>
    obtain ⟨s, hs, hT⟩ := rule.serializeItems (fun y hy => h y (List.mem_cons_of_mem _ hy)) level
    refine ⟨_, ?_, rule.line pretty (level + 1) (rule.append (h x List.mem_cons_self (level + 1)) hT)⟩
    rw [serialize, hs]
    simp only [List.append_assoc]

/-- What it writes between the braces of an object. -/
theorem serialize_object {members : List (Bytes × JsonValue)} (hnames : ∀ m ∈ members, S m.1)
    (h : ∀ m ∈ members, ∀ level, T (serialize num pretty level m.2)) (level : Nat) :
    ∃ s, serialize num pretty level (.object members) = leftBrace :: (s ++ [rightBrace]) ∧ T s := by
  cases members with
  | nil =>
    refine ⟨[], ?_, rule.nil⟩
    rw [serialize, List.nil_append]
  | cons m members =>
    obtain ⟨s, hs, hT⟩ := rule.serializeMembers (fun y hy => hnames y (List.mem_cons_of_mem _ hy))
      (fun y hy => h y (List.mem_cons_of_mem _ hy)) level
    refine ⟨_, ?_, rule.line pretty (level + 1) (rule.member pretty (hnames m List.mem_cons_self)
      (rule.append (h m List.mem_cons_self (level + 1)) hT))⟩
    rw [serialize, hs]
    simp only [List.append_assoc, List.cons_append]

/-- Every serialized value is such a text, if its strings and numbers are. -/
theorem serialize {v : JsonValue} (h : Texts S N v) (level : Nat) : T (serialize num pretty level v) := by
  induction h generalizing level with
  | null => exact rule.of_layout (by decide : (utf8 "null").all isLayout = true)
  | string h => exact rule.string h
  | boolean value =>
    cases value with
    | false => exact rule.of_layout (by decide : (utf8 "false").all isLayout = true)
    | true => exact rule.of_layout (by decide : (utf8 "true").all isLayout = true)
  | number h => exact rule.number h
  | array _ ih =>
    obtain ⟨s, hs, hT⟩ := rule.serialize_array ih level
    rw [hs]
    exact rule.array hT
  | object hnames _ ih =>
    obtain ⟨s, hs, hT⟩ := rule.serialize_object hnames ih level
    rw [hs]
    exact rule.object hT

end TextRule

section NulFree

private theorem nulFree_append {a b : Bytes} : NulFree (a ++ b) ↔ NulFree a ∧ NulFree b := by
  simp only [NulFree, List.mem_append, not_or]

private theorem nulFree_cons {c : UInt8} {b : Bytes} : NulFree (c :: b) ↔ 0 ≠ c ∧ NulFree b := by
  simp only [NulFree, List.mem_cons, not_or]

private theorem escape_nulFree (c : UInt8) : NulFree (escape c) := by
  rcases escape_cases c with ⟨h, -, -, hc⟩ | ⟨e, h, he, -⟩ | ⟨hc, h⟩
  · rw [h]
    intro hmem
    obtain rfl := List.mem_singleton.mp hmem
    exact hc (by decide)
  · have hzero : e ≠ 0 := by
      rintro rfl
      cases he
    rw [h]
    exact nulFree_cons.mpr ⟨by decide, nulFree_cons.mpr ⟨hzero.symm, List.not_mem_nil⟩⟩
  · obtain ⟨hhigh, hlow⟩ := hexDigits_plain hc
    rw [h]
    simp only [nulFree_cons]
    exact ⟨by decide, by decide, by decide, by decide, (isPlain_iff.mp hhigh).2.2.symm,
      (isPlain_iff.mp hlow).2.2.symm, List.not_mem_nil⟩

theorem serializeString_nulFree (string : Bytes) : NulFree (serializeString string) := by
  have hbody : NulFree (string.flatMap escape) := by
    intro h
    obtain ⟨c, -, hc⟩ := List.mem_flatMap.mp h
    exact escape_nulFree c hc
  simp only [serializeString, nulFree_cons, nulFree_append]
  exact ⟨by decide, hbody, by decide⟩

theorem nulFree_rule (num : NumberFormat) :
    TextRule num (fun _ => True) (fun bits => NulFree (num.print bits)) NulFree where
  nil := List.not_mem_nil
  append ha hb := nulFree_append.mpr ⟨ha, hb⟩
  layout c hc := by
    have hzero : isLayout 0 = false := by decide
    refine nulFree_cons.mpr ⟨?_, List.not_mem_nil⟩
    rintro rfl
    exact absurd hc (by rw [hzero]; decide)
  string _ := serializeString_nulFree _
  number h := h
  array h := nulFree_cons.mpr ⟨by decide, nulFree_append.mpr ⟨h, by decide⟩⟩
  object h := nulFree_cons.mpr ⟨by decide, nulFree_append.mpr ⟨h, by decide⟩⟩

end NulFree

end Kompli.Parson
