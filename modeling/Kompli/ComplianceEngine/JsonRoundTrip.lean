import Kompli.ComplianceEngine.JsonWrapper
import Kompli.Parson.Balanced

/-! Reading back JSON that the serializer wrote. -/
namespace Kompli
open Parson Ascii

namespace JsonWrapper

private theorem containsEscapedNul_outside {s : Bytes} (h : quote ∉ s) (rest : Bytes) :
    containsEscapedNul false (s ++ rest) = containsEscapedNul false rest := by
  induction s with
  | nil => rfl
  | cons c s ih =>
    have hc : c ≠ quote := by
      rintro rfl
      exact h List.mem_cons_self
    rw [List.cons_append, containsEscapedNul, decide_eq_false hc]
    exact ih fun hmem => h (List.mem_cons_of_mem c hmem)

private theorem containsEscapedNul_plain {c : UInt8} (hq : c ≠ quote) (hb : c ≠ backslash) (s : Bytes) :
    containsEscapedNul true (c :: s) = containsEscapedNul true s := by
  rw [containsEscapedNul.eq_def]
  simp only [if_neg hq, if_pos hb]

private theorem containsEscapedNul_escaped {e : UInt8} (he : e ≠ u) (s : Bytes) :
    containsEscapedNul true (backslash :: e :: s) = containsEscapedNul true s := by
  rw [containsEscapedNul.eq_def]
  simp [he, show backslash ≠ quote by decide]

/-- Of the control characters only NUL has no digit but zeros. -/
private theorem startsWith_control {c : UInt8} (hzero : c ≠ 0) (hc : c < 0x20) (s : Bytes) :
    startsWith (utf8 "0000") (zero :: zero :: hexDigit (c >>> 4) :: hexDigit (c &&& 0xF) :: s) = false := by
  have hdigits : ¬ (zero = hexDigit (c >>> 4) ∧ zero = hexDigit (c &&& 0xF)) := by
    revert hzero
    refine of_toNat_lt (n := 32) (P := fun c => c ≠ 0 →
      ¬ (zero = hexDigit (c >>> 4) ∧ zero = hexDigit (c &&& 0xF))) ?_ hc
    decide
  have htoken : utf8 "0000" = [zero, zero, zero, zero] := by decide
  rw [htoken, startsWith, ← Bool.not_eq_true]
  simp only [List.isPrefixOf_cons_cons, List.isPrefixOf_nil_left, Bool.and_true, beq_self_eq_true,
    Bool.true_and, Bool.and_eq_true, beq_iff_eq]
  exact hdigits

private theorem containsEscapedNul_escape {c : UInt8} (hzero : c ≠ 0) (s : Bytes) :
    containsEscapedNul true (escape c ++ s) = containsEscapedNul true s := by
  rcases escape_cases c with ⟨h, hq, hb, -⟩ | ⟨e, h, -, he⟩ | ⟨hc, h⟩
  · rw [h]
    exact containsEscapedNul_plain hq hb s
  · rw [h]
    exact containsEscapedNul_escaped he s
  · obtain ⟨hhigh, hlow⟩ := hexDigits_plain hc
    obtain ⟨hq, hb, -⟩ := isPlain_iff.mp hhigh
    obtain ⟨hq', hb', -⟩ := isPlain_iff.mp hlow
    rw [h, List.cons_append, containsEscapedNul.eq_def]
    simp only [List.cons_append, List.nil_append, startsWith_control hzero hc,
      containsEscapedNul_plain (c := zero) (by decide) (by decide), containsEscapedNul_plain hq hb,
      containsEscapedNul_plain hq' hb']
    rfl

private theorem containsEscapedNul_escapes {string : Bytes} (h : NulFree string) (rest : Bytes) :
    containsEscapedNul true (string.flatMap escape ++ quote :: rest) = containsEscapedNul false rest := by
  induction string with
  | nil =>
    rw [List.flatMap_nil, List.nil_append, containsEscapedNul.eq_def]
    rfl
  | cons c string ih =>
    have hc : c ≠ 0 := by
      rintro rfl
      exact h List.mem_cons_self
    rw [List.flatMap_cons, List.append_assoc, containsEscapedNul_escape hc]
    exact ih fun hmem => h (List.mem_cons_of_mem c hmem)

/-- The scan for `\u0000` passes over texts whose strings are C strings. -/
theorem containsEscapedNul_rule (num : NumberFormat) :
    TextRule num NulFree (fun bits => quote ∉ num.print bits)
      fun s => ∀ rest, containsEscapedNul false (s ++ rest) = containsEscapedNul false rest where
  nil _ := rfl
  append ha hb rest := by rw [List.append_assoc, ha, hb]
  layout c hc rest := by
    refine containsEscapedNul_outside (fun hquote => ?_) rest
    obtain rfl := List.mem_singleton.mp hquote
    exact absurd hc (by decide)
  string h rest := by
    rw [serializeString, List.cons_append, List.append_assoc]
    exact containsEscapedNul_escapes h rest
  number h rest := containsEscapedNul_outside h rest
  array h rest := by
    rw [List.cons_append, List.append_assoc, containsEscapedNul]
    exact (h _).trans rfl
  object h rest := by
    rw [List.cons_append, List.append_assoc, containsEscapedNul]
    exact (h _).trans rfl

end JsonWrapper

/-- A value that is written as text that is read back: its strings are C strings, its
numbers are plain and it does not nest too deep. -/
structure Writable (num : NumberFormat) (room : Nat) (v : JsonValue) : Prop where
  wellFormed : WellFormed num v
  texts : Texts NulFree (fun bits => (num.print bits).any isStructural = false) v
  fits : nestsWithin room v = true

namespace Writable

variable {num : NumberFormat} {room : Nat}

theorem string {value : Bytes} (h : NulFree value) : Writable num (room + 1) (.string value) :=
  ⟨.string value, .string h, rfl⟩

theorem array {items : List JsonValue} (h : ∀ item ∈ items, Writable num room item) :
    Writable num (room + 1) (.array items) :=
  ⟨.array fun item hitem => (h item hitem).wellFormed, .array fun item hitem => (h item hitem).texts,
    List.all_eq_true.mpr fun item hitem => (h item hitem).fits⟩

theorem object {members : List (Bytes × JsonValue)} (hnodup : (members.map Prod.fst).Nodup)
    (h : ∀ m ∈ members, NulFree m.1 ∧ Writable num room m.2) : Writable num (room + 1) (.object members) :=
  ⟨.object (fun m hm => (h m hm).2.wellFormed) hnodup fun m hm => (h m hm).1,
    .object (fun m hm => (h m hm).1) fun m hm => (h m hm).2.texts,
    List.all_eq_true.mpr fun m hm => (h m hm).2.fits⟩

/-- A value that is written is read back. -/
theorem fromString {v : JsonValue} (h : Writable num (maxNesting + 1) v) (pretty : Bool) (level : Nat)
    {rest : Bytes} (hdelimited : Delimited rest) (hnul : NulFree rest)
    (hrest : JsonWrapper.containsEscapedNul false rest = false) :
    JsonWrapper.fromString num (serialize num pretty level v ++ rest) = .ok v := by
  have hzero : 0 ∉ serialize num pretty level v ++ rest := by
    rw [List.mem_append, not_or]
    exact ⟨serialize_nulFree h.wellFormed level, hnul⟩
  have hquotes : Texts NulFree (fun bits => quote ∉ num.print bits) v := by
    refine h.texts.mono (fun _ => id) fun bits hplain hquote => ?_
    rw [List.any_eq_false] at hplain
    exact hplain quote hquote (by decide)
  have hescaped : JsonWrapper.containsEscapedNul false (serialize num pretty level v ++ rest) = false := by
    rw [(JsonWrapper.containsEscapedNul_rule num).serialize hquotes level rest, hrest]
  have hcString : Delimited (cString rest) := by
    rwa [cString_of_nulFree hnul]
  have hparse := jsonParseString_serialize h.wellFormed pretty level hcString
  rw [h.fits] at hparse
  simp only [JsonWrapper.fromString, JsonWrapper.containsNul, hzero, hescaped, hparse, decide_false, Bool.or_self,
    Bool.false_eq_true, ↓reduceIte]

end Writable

end Kompli
